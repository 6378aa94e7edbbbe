import FeatureFlags.Proofs.Reference.Ledger
import Mathlib.Algebra.BigOperators.Ring.List

/-!
# How large an expansion grows

A value with copies in place of its markers has no more values in it than the raw value and the
copies together, and no fewer than the copies (`nodes_fill_le`, `nodesOfItems_le_fill`). An
expansion may be a single value and yet have replaced one marker after another on the way to it, but
no evaluator twice: `Members.replaced_lt` bounds the markers replaced by the number of evaluators
times the size.
-/

namespace FeatureFlags

namespace Json

theorem nodes_pos (v : Json) : 0 < v.nodes := by
  cases v <;> simp only [nodes] <;> omega

theorem nodesOfItems_append (vs ws : List Json) :
    nodesOfItems (vs ++ ws) = nodesOfItems vs + nodesOfItems ws := by
  induction vs with
  | nil => simp [nodesOfItems]
  | cons v more ih => simp only [List.cons_append, nodesOfItems, ih, Nat.add_assoc]

theorem nodesOfItems_split (vs : List Json) (n : Nat) :
    nodesOfItems vs = nodesOfItems (vs.take n) + nodesOfItems (vs.drop n) := by
  rw [← nodesOfItems_append, List.take_append_drop]

mutual

/-- Copies add no more than their own size. -/
theorem nodes_fill_le : ∀ (v : Json) (vs : List Json),
    (v.fill vs).nodes ≤ v.nodes + nodesOfItems vs
  | .obj ms, vs => by
    simp only [fill]
    split
    · cases vs with
      | nil => simp
      | cons w more =>
        simp only [List.headD_cons, nodesOfItems]
        omega
    · have inside := nodesOfMembers_fill_le ms vs
      simp only [nodes]
      omega
  | .arr items, vs => by
    have inside := nodesOfItems_fill_le items vs
    simp only [fill, nodes]
    omega
  | .null, _ | .bool _, _ | .num _, _ | .str _, _ => by simp [fill]

theorem nodesOfItems_fill_le : ∀ (items vs : List Json),
    nodesOfItems (fillItems items vs) ≤ nodesOfItems items + nodesOfItems vs
  | [], _ => by simp [fillItems, nodesOfItems]
  | v :: more, vs => by
    have first := nodes_fill_le v (vs.take v.holes)
    have rest := nodesOfItems_fill_le more (vs.drop v.holes)
    have split := nodesOfItems_split vs v.holes
    simp only [fillItems, nodesOfItems]
    omega

theorem nodesOfMembers_fill_le : ∀ (ms : List (String × Json)) (vs : List Json),
    nodesOfMembers (fillMembers ms vs) ≤ nodesOfMembers ms + nodesOfItems vs
  | [], _ => by simp [fillMembers, nodesOfMembers]
  | (k, v) :: more, vs => by
    have first := nodes_fill_le v (vs.take v.holes)
    have rest := nodesOfMembers_fill_le more (vs.drop v.holes)
    have split := nodesOfItems_split vs v.holes
    simp only [fillMembers, nodesOfMembers]
    omega

end

mutual

/-- What is put in place of markers is found again in the value. -/
theorem nodesOfItems_le_fill : ∀ (v : Json) (vs : List Json), vs.length ≤ v.holes →
    nodesOfItems vs ≤ (v.fill vs).nodes
  | .obj ms, vs, fits => by
    simp only [holes, sites] at fits
    simp only [fill]
    split at fits
    next marker =>
      rw [if_pos marker]
      match vs, fits with
      | [], _ => simp [nodesOfItems]
      | [w], _ => simp [nodesOfItems]
    next other =>
      rw [if_neg other]
      have inside := nodesOfItems_le_fillMembers ms vs "" fits
      simp only [nodes]
      omega
  | .arr items, vs, fits => by
    simp only [holes, sites] at fits
    have inside := nodesOfItems_le_fillItems items vs "" 0 fits
    simp only [fill, nodes]
    omega
  | .null, vs, fits | .bool _, vs, fits | .num _, vs, fits | .str _, vs, fits => by
    obtain rfl : vs = [] := by simpa [holes, sites] using fits
    simp [nodesOfItems]

theorem nodesOfItems_le_fillItems : ∀ (items vs : List Json) (p : Pointer) (i : Nat),
    vs.length ≤ (sitesInItems items p i).length →
    nodesOfItems vs ≤ nodesOfItems (fillItems items vs)
  | [], vs, _, _, fits => by
    obtain rfl : vs = [] := by simpa [sitesInItems] using fits
    simp [nodesOfItems]
  | v :: more, vs, p, i, fits => by
    rw [sitesInItems, List.length_append, length_sites] at fits
    have first := nodesOfItems_le_fill v (vs.take v.holes) (List.length_take_le _ _)
    have rest := nodesOfItems_le_fillItems more (vs.drop v.holes) p (i + 1)
      (by rw [List.length_drop]; omega)
    have split := nodesOfItems_split vs v.holes
    simp only [fillItems, nodesOfItems]
    omega

theorem nodesOfItems_le_fillMembers : ∀ (ms : List (String × Json)) (vs : List Json) (p : Pointer),
    vs.length ≤ (sitesInMembers ms p).length →
    nodesOfItems vs ≤ nodesOfMembers (fillMembers ms vs)
  | [], vs, _, fits => by
    obtain rfl : vs = [] := by simpa [sitesInMembers] using fits
    simp [nodesOfItems]
  | (k, v) :: more, vs, p, fits => by
    rw [sitesInMembers, List.length_append, length_sites] at fits
    have first := nodesOfItems_le_fill v (vs.take v.holes) (List.length_take_le _ _)
    have rest := nodesOfItems_le_fillMembers more (vs.drop v.holes) p
      (by rw [List.length_drop]; omega)
    have split := nodesOfItems_split vs v.holes
    simp only [fillMembers, nodesOfMembers]
    omega

end

end Json

namespace Members

variable {evaluators : Members} {name : String} {raw : Json}

/-- The number of values in the largest evaluator, as it stands in the document. -/
def largest (evaluators : Members) : Nat :=
  (evaluators.map (·.2.nodes)).foldr max 0

theorem nodes_le_largest (known : evaluators.get? name = some raw) :
    raw.nodes ≤ evaluators.largest := by
  have bound : ∀ ms : Members, ∀ m ∈ ms, m.2.nodes ≤ largest ms := by
    intro ms
    induction ms with
    | nil => simp
    | cons m more ih =>
      refine List.forall_mem_cons.2 ⟨Nat.le_max_left _ _, fun other ho => ?_⟩
      exact Nat.le_trans (ih other ho) (Nat.le_max_right _ _)
  exact bound evaluators _ (mem_of_get? known)

end Members

namespace Resolver

variable {evaluators : Members} {stack : List String} {v w : Json} {p : Pointer} {name : String}

/-- The copies made for some markers are as large as their evaluators. -/
theorem nodesOfItems_serve_plain {xs : List Site}
    (done : (serve (plain evaluators stack) xs ()).error? = none) :
    Json.nodesOfItems (serve (plain evaluators stack) xs ()).value =
      ((Site.names xs).map evaluators.size).sum := by
  induction xs with
  | nil => rfl
  | cons site more ih =>
    obtain ⟨v, hv⟩ := serve_done_iff.1 done site List.mem_cons_self
    cases hn : site.name? with
    | error fault => simp [Site.answer, hn] at hv
    | ok name =>
      have copied : copy evaluators stack name site.path = .ok v := by
        simpa [Site.answer, hn, plain] using hv
      obtain ⟨raw, known, -, hx⟩ := copy_eq_ok_iff.1 copied
      have rest : (serve (plain evaluators stack) more ()).error? = none := by
        simpa [serve, hv, Walked.map] using done
      rw [Site.names_cons hn, List.map_cons, List.sum_cons, ← ih rest,
        Members.size_eq (copy_of_expand known hx "")]
      simp [serve, hv, Walked.map, Json.nodesOfItems]

/-- An expansion holds all the copies made for the markers in the value. -/
theorem copiedIn_le_of_expand (h : expand evaluators stack v p = ⟨w, none⟩) :
    evaluators.copiedIn v ≤ w.nodes := by
  have done := congrArg Expansion.error? h
  have value := congrArg Expansion.value h
  rw [← error_serve_plain] at done
  rw [← fill_serve_plain] at value
  dsimp only at done value
  have fits := length_serve_le (plain evaluators stack) (v.sites p) ()
  rw [Json.length_sites] at fits
  rw [Members.copiedIn, ← Json.names_sites_eq v p, ← nodesOfItems_serve_plain done, ← value]
  exact Json.nodesOfItems_le_fill v _ fits

/-- Each value in an expansion stands at the end of a chain of markers that names every evaluator
at most once. -/
theorem replaced_lt_of_expand {raw : Json} (known : evaluators.get? name = some raw)
    (new : name ∉ stack)
    (h : expand evaluators (name :: stack) raw (evaluatorPointer name) = ⟨w, none⟩) :
    1 + evaluators.replaced name ≤ free evaluators stack * evaluators.size name := by
  induction hn : free evaluators stack using Nat.strongRecOn
    generalizing stack name raw w with
  | ind n ih =>
    have fewer := free_cons_lt known new
    have copied := copy_of_expand known h ""
    have size : evaluators.size name = w.nodes := Members.size_eq copied
    have each : ∀ inner ∈ raw.markerNames, 1 + evaluators.replaced inner ≤
        free evaluators (name :: stack) * evaluators.size inner := by
      intro inner hi
      obtain ⟨raw', w', known', new', hx⟩ :=
        exists_expand_of_mem_markerNames (congrArg Expansion.error? h) hi
      exact ih _ (hn ▸ fewer) known' new' hx rfl
    have inside : evaluators.replaced name ≤
        free evaluators (name :: stack) * evaluators.size name := by
      calc evaluators.replaced name
          = (raw.markerNames.map fun inner => 1 + evaluators.replaced inner).sum :=
            Members.replaced_eq_sum known copied
        _ ≤ (raw.markerNames.map fun inner =>
              free evaluators (name :: stack) * evaluators.size inner).sum :=
            List.sum_le_sum each
        _ = free evaluators (name :: stack) * evaluators.copiedIn raw :=
            List.sum_map_mul_left _ _ _
        _ ≤ free evaluators (name :: stack) * evaluators.size name :=
            Nat.mul_le_mul_left _ (size ▸ copiedIn_le_of_expand h)
    -- the evaluator itself was free, and has at least one value
    have one : 1 ≤ evaluators.size name := size ▸ w.nodes_pos
    have more : (free evaluators (name :: stack) + 1) * evaluators.size name ≤
        n * evaluators.size name :=
      Nat.mul_le_mul_right _ (hn ▸ fewer)
    rw [Nat.add_mul] at more
    omega

end Resolver

/-- The markers replaced for a copy, its own included. -/
theorem Members.replaced_lt {evaluators : Members} {name : String} {p : Pointer} {w : Json}
    (copied : Resolver.copy evaluators [] name p = .ok w) :
    1 + evaluators.replaced name ≤ evaluators.length * w.nodes := by
  obtain ⟨raw, known, new, hx⟩ := Resolver.copy_eq_ok_iff.1 copied
  have bound := Resolver.replaced_lt_of_expand known new hx
  rw [Members.size_eq copied] at bound
  exact bound.trans (Nat.mul_le_mul_right _ List.countP_le_length)

end FeatureFlags
