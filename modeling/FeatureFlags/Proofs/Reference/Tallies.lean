import FeatureFlags.Proofs.Reference.Replacements

/-!
# What a session has replaced

The second counter of a session is told from a remembered fragment, which stands for the markers in
its evaluator wherever it is copied again. It was found as the difference of two counts, before and
after the evaluator was resolved. `Session.Counted` says that it is the number of markers replaced
in the evaluator, and `Tallies` that a step keeps it so and counts what it replaces.
-/

namespace FeatureFlags

/-- Every fragment comes with the number of markers replaced in its evaluator. -/
def Session.Counted (evaluators : Members) (s : Session) : Prop :=
  ∀ name f, s.fragment? name = some f → f.markers = evaluators.replaced name

namespace Session

variable {evaluators : Members} {s s' : Session} {name : String} {f : Fragment}

theorem counted_fresh (limit : Nat) : Counted evaluators { limit } := by
  intro name f hf
  cases hf

theorem Counted.of_resolved_eq (h : s.Counted evaluators) (same : s'.resolved = s.resolved) :
    s'.Counted evaluators := by
  intro name f hf
  rw [fragment?_congr same] at hf
  exact h name f hf

theorem Counted.append (h : s.Counted evaluators) (own : f.markers = evaluators.replaced name)
    (grown : s'.resolved = s.resolved ++ [(name, f)]) : s'.Counted evaluators := by
  intro other g hg
  rw [fragment?_append grown, Option.or_eq_some_iff] at hg
  rcases hg with hg | ⟨-, hg⟩
  · exact h other g hg
  · rw [Option.ite_none_right_eq_some] at hg
    obtain ⟨rfl, hg⟩ := hg
    obtain rfl := Option.some.inj hg
    exact own

end Session

/-- What a step from a session is to have counted, where it replaces so many markers. -/
structure Tallies {ε α : Type} (evaluators : Members) (s : Session) (number : Nat)
    (r : Attempt ε α) : Prop where
  counted : r.2.Counted evaluators
  total : ∀ a, r.1 = .ok a → r.2.substitutions = s.substitutions + number

namespace Tallies

variable {ε α β : Type} {evaluators : Members} {s s' : Session} {number number' : Nat}
  {r : Attempt ε α}

theorem fault {e : ε} (counted : s'.Counted evaluators) :
    Tallies evaluators s number ((.error e, s') : Attempt ε α) :=
  ⟨counted, fun _ h => by cases h⟩

/-- A step that only counts. -/
theorem counts {answer : Except ε α} (counted : s.Counted evaluators)
    (same : s'.resolved = s.resolved)
    (total : ∀ a, answer = .ok a → s'.substitutions = s.substitutions + number) :
    Tallies evaluators s number ((answer, s') : Attempt ε α) :=
  ⟨counted.of_resolved_eq same, total⟩

/-- Steps one after the other replace what both do. -/
theorem andThen {next : α → Session → Attempt ε β} (first : Tallies evaluators s number r)
    (rest : ∀ a s', r = (.ok a, s') → s'.Counted evaluators →
      Tallies evaluators s' number' (next a s')) :
    Tallies evaluators s (number + number') (r.andThen next) := by
  obtain ⟨e | a, s'⟩ := r
  · exact ⟨first.counted, fun _ h => by cases h⟩
  · have second := rest a s' rfl first.counted
    refine ⟨second.counted, fun b hb => ?_⟩
    have before := first.total a rfl
    have after := second.total b hb
    dsimp only [Attempt.andThen] at before after ⊢
    omega

/-- What is done with a result replaces nothing more. -/
theorem finish {next : α → Session → Attempt ε β} (h : Tallies evaluators s number r)
    (free : ∀ a s, (next a s).2 = s) : Tallies evaluators s number (r.andThen next) := by
  have both : Tallies evaluators s (number + 0) (r.andThen next) := by
    refine h.andThen fun a s₁ _ counted => .counts counted ?_ fun _ _ => ?_
    · rw [free a s₁]
    · rw [free a s₁]
      rfl
  exact both

/-- The marker that a copy replaces counts besides those in the copy. -/
theorem count {r : Attempt ReferenceError Json} (h : Tallies evaluators s number r) :
    Tallies evaluators s (1 + number) (Session.countMarker r) := by
  rw [Session.countMarker_eq, Nat.add_comm]
  exact h.andThen fun v s₁ _ counted => .counts counted rfl fun _ _ => rfl

end Tallies

namespace Resolver

variable {evaluators : Members} {stack : List String} {s : Session} {name : String}

section

variable (step : ∀ name p s, s.Faithful evaluators stack → s.Counted evaluators →
  Tallies evaluators s (1 + evaluators.replaced name) (marker evaluators stack name p s))

include step

theorem serve_tallies (xs : List Site) (h : s.Faithful evaluators stack)
    (counted : s.Counted evaluators) :
    Tallies evaluators s ((Site.names xs).map fun name => 1 + evaluators.replaced name).sum
      (serve (marker evaluators stack) xs s).attempt := by
  induction xs generalizing s with
  | nil => exact .counts counted rfl fun _ _ => rfl
  | cons site more ih =>
    rw [attempt_serve_cons]
    unfold Site.answer
    cases hn : site.name? with
    | error fault => exact .fault counted
    | ok name =>
      rw [Site.names_cons hn, List.map_cons, List.sum_cons]
      have faithful := (marker_answers name site.path s h).faithful
      refine (step name site.path s h counted).andThen ?_
      intro v s₁ hr counted'
      rw [show marker evaluators stack name site.path s = (.ok v, s₁) from hr] at faithful
      exact (ih faithful counted').finish fun _ _ => rfl

theorem walk_tallies (v : Json) (p : Pointer) (h : s.Faithful evaluators stack)
    (counted : s.Counted evaluators) :
    Tallies evaluators s (v.markerNames.map fun name => 1 + evaluators.replaced name).sum
      (v.walk (marker evaluators stack) p s).attempt := by
  rw [attempt_walk, ← Json.names_sites_eq v p]
  exact (serve_tallies step (v.sites p) h counted).finish fun _ _ => rfl

end

theorem charge_tallies (counted : s.Counted evaluators) (nodes : Nat) (name : String)
    (p : Pointer) : Tallies evaluators s 0 (s.charge nodes name p) := by
  unfold Session.charge
  dsimp only
  split
  · exact .counts counted rfl fun _ h => by cases h
  · exact .counts counted rfl fun _ _ => rfl

/-- A copy of a fragment counts the markers it comes with. -/
theorem reuse_tallies {f : Fragment} (counted : s.Counted evaluators)
    (hf : s.fragment? name = some f) (p : Pointer) :
    Tallies evaluators s (evaluators.replaced name) (s.reuse f name p) := by
  have both : Tallies evaluators s (0 + evaluators.replaced name) (s.reuse f name p) := by
    rw [Session.reuse_eq]
    refine (charge_tallies counted f.nodes name p).andThen fun _ s₁ _ counted' => ?_
    exact .counts counted' rfl fun _ _ => by rw [counted name f hf]
  rwa [Nat.zero_add] at both

/-- What was replaced since the evaluator went on the stack is what its fragment comes with. -/
theorem store_tallies {after : Session} {v : Json} (counted : after.Counted evaluators)
    (total : after.substitutions = s.substitutions + evaluators.replaced name) (p : Pointer) :
    Tallies evaluators s (evaluators.replaced name) (s.store after v name p) := by
  have charged := charge_tallies counted v.nodes name p
  rw [Session.store_eq]
  cases hc : after.charge v.nodes name p with
  | mk answer s₁ =>
    rw [hc] at charged
    cases answer with
    | error e => exact .fault charged.counted
    | ok a =>
      have same : s₁.substitutions = after.substitutions := charged.total a rfl
      let f : Fragment := ⟨v, v.nodes, s₁.substitutions - s.substitutions⟩
      have own : f.markers = evaluators.replaced name := by
        change s₁.substitutions - s.substitutions = _
        omega
      refine ⟨charged.counted.append own rfl, fun _ _ => ?_⟩
      exact same.trans total

theorem fragment_tallies (p : Pointer) (h : s.Faithful evaluators stack)
    (counted : s.Counted evaluators) :
    Tallies evaluators s (evaluators.replaced name) (fragment evaluators stack name p s) := by
  refine fragment_induct (motive := fun stack name _ s r => s.Faithful evaluators stack →
    s.Counted evaluators → Tallies evaluators s (evaluators.replaced name) r)
    ?_ ?_ ?_ ?_ stack name p s h counted
  · intro stack name p s f hf h counted
    exact reuse_tallies counted hf p
  · intro stack name p s hf known h counted
    exact .fault counted
  · intro stack name p s raw hf known on_stack h counted
    exact .fault counted
  · intro stack name p s raw hf known new ih h counted
    have pushed := h.push (Session.not_remembers hf)
    have walked := walk_tallies (fun inner q s' h' counted' => (ih inner q s' h' counted').count)
      raw (evaluatorPointer name) pushed counted
    have mirrors := walk_mirrors marker_answers raw (evaluatorPointer name) pushed
    cases hw : raw.walk (marker evaluators (name :: stack)) (evaluatorPointer name) s with
    | mk v error? after =>
      rw [hw] at walked mirrors
      cases error? with
      | some e => exact .fault walked.counted
      | none =>
        have expanded := mirrors.result (by simp)
        rw [← Members.replaced_eq_sum known (copy_of_expand known expanded.symm p)] at walked
        exact store_tallies walked.counted (walked.total v rfl) p

theorem resolve_tallies (v : Json) (p : Pointer) (h : s.Faithful evaluators [])
    (counted : s.Counted evaluators) :
    Tallies evaluators s (v.markerNames.map fun name => 1 + evaluators.replaced name).sum
      (s.resolve evaluators v p).attempt :=
  walk_tallies (fun _ q _ h' counted' => (fragment_tallies q h' counted').count) v p h counted

end Resolver

end FeatureFlags
