import FeatureFlags.Proofs.Json.Members
import FeatureFlags.Proofs.Reference.Expansion

/-!
# Which values expand

`Members.Resolvable` asks of a value and of the evaluators in its reach that every marker is
well-formed and names an evaluator, and that no evaluator reaches itself. `expand_done_iff_resolvable`
says that these are the values whose expansion meets no fault, on a stack out of their reach: no
cycle is missed and none is made up, however often evaluators share others.
-/

namespace FeatureFlags

namespace Members

/-- The object stands in the value, or in an evaluator in its reach. -/
def Covers (evaluators : Members) (v u : Json) : Prop :=
  u.Inside v ∨ ∃ via raw, evaluators.Reaches v via ∧ evaluators.get? via = some raw ∧ u.Inside raw

/-- Every reference that a value needs can be replaced. -/
structure Resolvable (evaluators : Members) (v : Json) : Prop where
  /-- A `$ref` stands alone in its object, and is a text. -/
  sole : ∀ ms : Members, evaluators.Covers v (.obj ms) → ms.has refKey = true →
    ∃ name, ms = [(refKey, .str name)]
  /-- It names an evaluator. -/
  known : ∀ name, evaluators.Covers v (Json.marker name) → evaluators.has name = true
  /-- No evaluator in reach reaches itself. -/
  acyclic : ∀ name raw, evaluators.Reaches v name → evaluators.get? name = some raw →
    ¬ evaluators.Reaches raw name

variable {evaluators : Members} {v raw : Json} {name : String}

theorem covers_marker_iff : evaluators.Covers v (Json.marker name) ↔ evaluators.Reaches v name := by
  constructor
  · rintro (m | ⟨via, raw, hr, known, m⟩)
    · exact .mentioned m
    · exact .through hr known m
  · intro h
    cases h with
    | mentioned m => exact .inl m
    | through hr known m => exact .inr ⟨_, _, hr, known, m⟩

theorem Covers.through {u : Json} (h : evaluators.Reaches v name)
    (known : evaluators.get? name = some raw) (inner : evaluators.Covers raw u) :
    evaluators.Covers v u := by
  rcases inner with inside | ⟨via, raw', hr, known', inside⟩
  · exact .inr ⟨name, raw, h, known, inside⟩
  · exact .inr ⟨via, raw', h.trans known hr, known', inside⟩

/-- An evaluator in reach of a resolvable value is resolvable itself. -/
theorem Resolvable.through (h : evaluators.Resolvable v) (hr : evaluators.Reaches v name)
    (known : evaluators.get? name = some raw) : evaluators.Resolvable raw where
  sole ms hc := h.sole ms (.through hr known hc)
  known n hc := h.known n (.through hr known hc)
  acyclic n raw' hn := h.acyclic n raw' (hr.trans known hn)

end Members

namespace Resolver

open Members

variable {evaluators : Members} {stack : List String} {v : Json} {p : Pointer}

/-! ## A resolvable value expands -/

theorem expand_done_of_resolvable (h : evaluators.Resolvable v)
    (apart : ∀ name ∈ stack, ¬ evaluators.Reaches v name) :
    (expand evaluators stack v p).error? = none := by
  induction hn : free evaluators stack using Nat.strongRecOn generalizing stack v p with
  | ind n ih =>
    rw [expand_done_iff]
    intro site hs
    obtain ⟨ms, leads, marker, hm⟩ := Json.mem_sites hs
    have inside := leads.inside
    obtain ⟨name, rfl⟩ := h.sole ms (.inl inside) marker
    have reached : evaluators.Reaches v name := .mentioned inside
    obtain ⟨raw, known⟩ := has_iff.1 (h.known name (.inl inside))
    -- a name on the stack would be in reach, which is what `apart` rules out
    have new : name ∉ stack := fun on_stack => apart name on_stack reached
    have inner : (expand evaluators (name :: stack) raw (evaluatorPointer name)).error? = none := by
      refine ih _ (hn ▸ free_cons_lt known new) (h.through reached known) ?_ rfl
      intro other on_stack
      rcases List.mem_cons.1 on_stack with rfl | on_stack
      · exact h.acyclic _ raw reached known
      · exact fun hr => apart other on_stack (reached.trans known hr)
    refine ⟨name, (expand evaluators (name :: stack) raw (evaluatorPointer name)).value, hm, ?_⟩
    rw [copy_eq_ok_iff]
    refine ⟨raw, known, new, ?_⟩
    rw [← inner]

/-! ## What expands is resolvable -/

theorem exists_copy_of_mentions (done : (expand evaluators stack v p).error? = none) {name : String}
    (m : v.Mentions name) : ∃ q w, copy evaluators stack name q = .ok w := by
  have fine := expand_done_iff.1 done
  obtain ⟨site, hs, hn⟩ := Json.exists_site m (isMarker_marker name)
    fun site hs => (fine site hs).imp fun _ ⟨_, hn, _⟩ => hn
  obtain ⟨n, w, hn', hc⟩ := fine site hs
  rw [hn'] at hn
  cases hn
  exact ⟨site.path, w, hc⟩

/-- A name in reach of a value that expands was copied on the way, with the stack of the value
still below. -/
theorem exists_copy_of_reaches (done : (expand evaluators stack v p).error? = none) {name : String}
    (h : evaluators.Reaches v name) :
    ∃ stack' q w, stack ⊆ stack' ∧ copy evaluators stack' name q = .ok w := by
  induction h with
  | mentioned m =>
    obtain ⟨q, w, hc⟩ := exists_copy_of_mentions done m
    exact ⟨stack, q, w, List.Subset.refl _, hc⟩
  | @through via name raw _ known m ih =>
    obtain ⟨stack', q, w, sub, hc⟩ := ih
    obtain ⟨raw', known', -, hx⟩ := copy_eq_ok_iff.1 hc
    obtain rfl : raw = raw' := Option.some.inj (known.symm.trans known')
    obtain ⟨q', w', hc'⟩ := exists_copy_of_mentions (congrArg Expansion.error? hx) m
    exact ⟨via :: stack', q', w', List.subset_cons_of_subset _ sub, hc'⟩

theorem not_reaches_of_expand_done (done : (expand evaluators stack v p).error? = none)
    {name : String} (on_stack : name ∈ stack) : ¬ evaluators.Reaches v name := by
  intro h
  obtain ⟨stack', q, w, sub, hc⟩ := exists_copy_of_reaches done h
  obtain ⟨raw, -, new, -⟩ := copy_eq_ok_iff.1 hc
  exact new (sub on_stack)

theorem sole_of_expand_done (done : (expand evaluators stack v p).error? = none) {ms : Members}
    (inside : Json.Inside (.obj ms) v) (marker : ms.isMarker = true) :
    ∃ name, ms = [(refKey, .str name)] := by
  have fine := expand_done_iff.1 done
  obtain ⟨site, hs, hm⟩ := Json.exists_site inside marker
    fun site hs => (fine site hs).imp fun _ ⟨_, hn, _⟩ => hn
  obtain ⟨n, w, hn, -⟩ := fine site hs
  exact ⟨n, markerName?_eq_ok marker (hm ▸ hn)⟩

theorem resolvable_of_expand_done (done : (expand evaluators stack v p).error? = none) :
    evaluators.Resolvable v := by
  have expanded : ∀ name raw, evaluators.Reaches v name → evaluators.get? name = some raw →
      ∃ stack', (expand evaluators (name :: stack') raw (evaluatorPointer name)).error? = none := by
    intro name raw hr known
    obtain ⟨stack', q, w, -, hc⟩ := exists_copy_of_reaches done hr
    obtain ⟨raw', known', -, hx⟩ := copy_eq_ok_iff.1 hc
    obtain rfl : raw = raw' := Option.some.inj (known.symm.trans known')
    exact ⟨stack', congrArg Expansion.error? hx⟩
  refine ⟨?_, ?_, ?_⟩
  · rintro ms (inside | ⟨via, raw, hr, known, inside⟩) marker
    · exact sole_of_expand_done done inside marker
    · obtain ⟨stack', hx⟩ := expanded via raw hr known
      exact sole_of_expand_done hx inside marker
  · intro name hc
    obtain ⟨stack', q, w, -, hcopy⟩ := exists_copy_of_reaches done (covers_marker_iff.1 hc)
    obtain ⟨raw, known, -⟩ := copy_eq_ok_iff.1 hcopy
    exact has_iff.2 ⟨raw, known⟩
  · intro name raw hr known
    obtain ⟨stack', hx⟩ := expanded name raw hr known
    exact not_reaches_of_expand_done hx List.mem_cons_self

/-- An expansion meets no fault if the value is resolvable and reaches no name that is being
expanded already. -/
theorem expand_done_iff_resolvable : (expand evaluators stack v p).error? = none ↔
    evaluators.Resolvable v ∧ ∀ name ∈ stack, ¬ evaluators.Reaches v name :=
  ⟨fun done => ⟨resolvable_of_expand_done done, fun _ => not_reaches_of_expand_done done⟩,
    fun h => expand_done_of_resolvable h.1 h.2⟩

/-- What expands on one stack expands to the same on any stack out of its reach. -/
theorem expand_restack {stack' : List String} {q : Pointer} {w : Json}
    (h : expand evaluators stack v p = ⟨w, none⟩)
    (apart : ∀ name ∈ stack', ¬ evaluators.Reaches v name) :
    expand evaluators stack' v q = ⟨w, none⟩ := by
  have done : (expand evaluators stack v p).error? = none := congrArg Expansion.error? h
  have done' : (expand evaluators stack' v q).error? = none :=
    expand_done_of_resolvable (resolvable_of_expand_done done) apart
  have same : w = (expand evaluators stack' v q).value := by
    rw [← expand_value_eq done done', h]
  rw [same, ← done']

/-- What an evaluator expands to, with its name on the stack, is the copy made of it anywhere its
name is not. -/
theorem copy_of_expand {name : String} {raw w : Json} (known : evaluators.get? name = some raw)
    (h : expand evaluators (name :: stack) raw (evaluatorPointer name) = ⟨w, none⟩) (p : Pointer) :
    copy evaluators [] name p = .ok w := by
  refine copy_eq_ok_iff.2 ⟨raw, known, List.not_mem_nil, expand_restack h ?_⟩
  -- an evaluator that expands does not reach itself
  intro other hm
  rw [List.mem_singleton.1 hm]
  exact not_reaches_of_expand_done (congrArg Expansion.error? h) List.mem_cons_self

end Resolver

end FeatureFlags
