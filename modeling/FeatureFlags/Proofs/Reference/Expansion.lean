import FeatureFlags.Proofs.Json.Members
import FeatureFlags.Proofs.Reference.Mentions
import FeatureFlags.Reference.Resolver

/-!
# Plain expansion

`Resolver.expand` replaces every marker in a value by a copy of its evaluator, expanded in turn. It
remembers nothing and counts nothing, so it says what a resolution is to come to. What it comes to
depends on the stack of names being expanded only through its faults: `expand_value_eq` says so, and
`expand_done_iff` when an expansion meets no fault at all.
-/

namespace FeatureFlags

/-- What an expansion leaves in place of a value, and the fault that ended it. -/
structure Expansion (α : Type) where
  value : α
  error? : Option ReferenceError

/-- The same with another value. -/
def Expansion.map {α β : Type} (f : α → β) (x : Expansion α) : Expansion β :=
  ⟨f x.value, x.error?⟩

theorem Expansion.map_done {α β : Type} {f : α → β} {x : Expansion α} {b : β} :
    x.map f = ⟨b, none⟩ ↔ ∃ a, x = ⟨a, none⟩ ∧ f a = b := by
  obtain ⟨a, _ | e⟩ := x <;> simp [map]

namespace Resolver

mutual

/-- Replaces the markers inside a value at a pointer by the expanded evaluators that they name, in
document order and up to the first fault, while the names on the stack are being expanded,
innermost first. -/
def expand (evaluators : Members) (stack : List String) : Json → Pointer → Expansion Json
  | .obj ms, path =>
    if Members.isMarker ms then
      match Members.markerName? ms with
      | .error fault => ⟨.obj ms, some (.malformed path fault)⟩
      | .ok name =>
        match _known : evaluators.get? name with
        | none => ⟨.obj ms, some (.unresolved name path)⟩
        | some raw =>
          if _new : name ∈ stack then ⟨.obj ms, some (.circular (name :: stack).reverse)⟩
          else
            match expand evaluators (name :: stack) raw (evaluatorPointer name) with
            | ⟨v, none⟩ => ⟨v, none⟩
            | ⟨_, some e⟩ => ⟨.obj ms, some e⟩
    else (expandMembers evaluators stack ms path).map .obj
  | .arr items, path => (expandItems evaluators stack items path 0).map .arr
  | v, _ => ⟨v, none⟩
termination_by v => (free evaluators stack, sizeOf v)
decreasing_by
  · exact Prod.Lex.left _ _ (free_cons_lt (by assumption) (by assumption))
  · exact Prod.Lex.right _ (by simp)
  · exact Prod.Lex.right _ (by simp)

/-- Replaces the markers inside the items of an array from an index on. -/
def expandItems (evaluators : Members) (stack : List String) :
    List Json → Pointer → Nat → Expansion (List Json)
  | [], _, _ => ⟨[], none⟩
  | v :: more, path, i =>
    match expand evaluators stack v (path.item i) with
    | ⟨v, some e⟩ => ⟨v :: more, some e⟩
    | ⟨v, none⟩ => (expandItems evaluators stack more path (i + 1)).map (v :: ·)
termination_by items => (free evaluators stack, sizeOf items)
decreasing_by
  all_goals
    refine Prod.Lex.right _ ?_
    simp only [List.cons.sizeOf_spec]
    omega

/-- Replaces the markers inside the members of an object. -/
def expandMembers (evaluators : Members) (stack : List String) :
    List (String × Json) → Pointer → Expansion Members
  | [], _ => ⟨[], none⟩
  | (k, v) :: more, path =>
    match expand evaluators stack v (path.child k) with
    | ⟨v, some e⟩ => ⟨(k, v) :: more, some e⟩
    | ⟨v, none⟩ => (expandMembers evaluators stack more path).map ((k, v) :: ·)
termination_by ms => (free evaluators stack, sizeOf ms)
decreasing_by
  all_goals
    refine Prod.Lex.right _ ?_
    simp only [List.cons.sizeOf_spec, Prod.mk.sizeOf_spec]
    omega

end

/-- An expanded copy of the evaluator of a name, for the marker at a pointer. -/
def copy (evaluators : Members) (stack : List String) (name : String) (path : Pointer) :
    Except ReferenceError Json :=
  match evaluators.get? name with
  | none => .error (.unresolved name path)
  | some raw =>
    if name ∈ stack then .error (.circular (name :: stack).reverse)
    else
      match expand evaluators (name :: stack) raw (evaluatorPointer name) with
      | ⟨v, none⟩ => .ok v
      | ⟨_, some e⟩ => .error e

/-- Answers every marker by an expanded copy. -/
def plain (evaluators : Members) (stack : List String) : Handler Unit := fun name path s =>
  (copy evaluators stack name path, s)

section

variable {evaluators : Members} {stack : List String}

/-! ## An expansion is a walk -/

mutual

theorem walk_plain : ∀ (v : Json) (p : Pointer), v.walk (plain evaluators stack) p () =
    ⟨(expand evaluators stack v p).value, (expand evaluators stack v p).error?, ()⟩
  | .obj ms, p => by
    simp only [Json.walk, Json.walkMarker, plain, copy]
    rw [expand]
    split
    · cases Members.markerName? ms with
      | error fault => rfl
      | ok name =>
        dsimp only
        cases evaluators.get? name with
        | none => rfl
        | some raw =>
          by_cases on_stack : name ∈ stack
          · simp [on_stack]
          · simp only [on_stack, if_false, dite_false]
            obtain ⟨v, _ | e⟩ := expand evaluators (name :: stack) raw (evaluatorPointer name)
            all_goals rfl
    · rw [walkMembers_plain ms p]
      rfl
  | .arr items, p => by
    rw [Json.walk, walkItems_plain items p 0, expand]
    rfl
  | .null, _ | .bool _, _ | .num _, _ | .str _, _ => by simp [Json.walk, expand]

theorem walkItems_plain : ∀ (items : List Json) (p : Pointer) (i : Nat),
    Json.walkItems (plain evaluators stack) items p i () =
      ⟨(expandItems evaluators stack items p i).value,
        (expandItems evaluators stack items p i).error?, ()⟩
  | [], _, _ => by simp [Json.walkItems, expandItems]
  | v :: more, p, i => by
    rw [Json.walkItems, walk_plain v, expandItems]
    obtain ⟨w, _ | e⟩ := expand evaluators stack v (p.item i)
    · dsimp only
      rw [walkItems_plain more]
      rfl
    · rfl

theorem walkMembers_plain : ∀ (ms : List (String × Json)) (p : Pointer),
    Json.walkMembers (plain evaluators stack) ms p () =
      ⟨(expandMembers evaluators stack ms p).value,
        (expandMembers evaluators stack ms p).error?, ()⟩
  | [], _ => by simp [Json.walkMembers, expandMembers]
  | (k, v) :: more, p => by
    rw [Json.walkMembers, walk_plain v, expandMembers]
    obtain ⟨w, _ | e⟩ := expand evaluators stack v (p.child k)
    · dsimp only
      rw [walkMembers_plain more]
      rfl
    · rfl

end

/-! ## When there is no fault -/

theorem error_serve_plain (v : Json) (p : Pointer) :
    (serve (plain evaluators stack) (v.sites p) ()).error? = (expand evaluators stack v p).error? := by
  have := @walk_plain evaluators stack v p
  rw [Json.walk_eq_serve] at this
  exact congrArg Walked.error? this

theorem fill_serve_plain (v : Json) (p : Pointer) :
    v.fill (serve (plain evaluators stack) (v.sites p) ()).value =
      (expand evaluators stack v p).value := by
  have := @walk_plain evaluators stack v p
  rw [Json.walk_eq_serve] at this
  exact congrArg Walked.value this

theorem copy_eq_ok_iff {name : String} {p : Pointer} {w : Json} :
    copy evaluators stack name p = .ok w ↔
      ∃ raw, evaluators.get? name = some raw ∧ name ∉ stack ∧
        expand evaluators (name :: stack) raw (evaluatorPointer name) = ⟨w, none⟩ := by
  unfold copy
  cases evaluators.get? name with
  | none => simp
  | some raw =>
    by_cases on_stack : name ∈ stack
    · simp [on_stack]
    · dsimp only
      rw [if_neg on_stack]
      cases hx : expand evaluators (name :: stack) raw (evaluatorPointer name) with
      | mk v error? => cases error? <;> simp [hx, on_stack]

/-- Where a copy is to stand does not matter. -/
theorem copy_eq_ok_congr {name : String} {p : Pointer} {w : Json} (q : Pointer) :
    copy evaluators stack name p = .ok w ↔ copy evaluators stack name q = .ok w := by
  rw [copy_eq_ok_iff, copy_eq_ok_iff]

/-- An expansion meets no fault if every marker that it stops at can be copied. -/
theorem expand_done_iff {v : Json} {p : Pointer} :
    (expand evaluators stack v p).error? = none ↔
      ∀ site ∈ v.sites p, ∃ name w, site.name? = .ok name ∧
        copy evaluators stack name site.path = .ok w := by
  rw [← error_serve_plain, serve_done_iff]
  refine forall₂_congr fun site _ => ?_
  cases hn : site.name? with
  | error fault => simp [Site.answer, hn]
  | ok name => simp [Site.answer, hn, plain]

end

/-! ## What becomes of an object -/

section

variable {evaluators : Members} {stack : List String} {ms ws : Members} {p : Pointer}

theorem expandMembers_cons_done {k : String} {v : Json} {more : Members} :
    expandMembers evaluators stack ((k, v) :: more) p = ⟨ws, none⟩ ↔
      ∃ w others, expand evaluators stack v (p.child k) = ⟨w, none⟩ ∧
        expandMembers evaluators stack more p = ⟨others, none⟩ ∧ ws = (k, w) :: others := by
  rw [expandMembers]
  obtain ⟨w, _ | e⟩ := expand evaluators stack v (p.child k)
  · obtain ⟨others, _ | e⟩ := expandMembers evaluators stack more p
    · simp [Expansion.map, eq_comm]
    · simp [Expansion.map]
  · simp

theorem keys_expandMembers (h : expandMembers evaluators stack ms p = ⟨ws, none⟩) :
    ws.keys = ms.keys := by
  induction ms generalizing ws with
  | nil =>
    rw [expandMembers] at h
    cases h
    rfl
  | cons m more ih =>
    obtain ⟨w, others, -, ho, rfl⟩ := expandMembers_cons_done.1 h
    exact congrArg (m.1 :: ·) (ih ho)

/-- The members of an object are expanded each under its key. -/
theorem get?_expandMembers (h : expandMembers evaluators stack ms p = ⟨ws, none⟩) (key : String) :
    (ms.get? key = none ∧ ws.get? key = none) ∨ ∃ v w, ms.get? key = some v ∧
      ws.get? key = some w ∧ expand evaluators stack v (p.child key) = ⟨w, none⟩ := by
  induction ms generalizing ws with
  | nil =>
    rw [expandMembers] at h
    cases h
    exact .inl ⟨rfl, rfl⟩
  | cons m more ih =>
    obtain ⟨w, others, hv, ho, rfl⟩ := expandMembers_cons_done.1 h
    rw [Members.get?_cons, Members.get?_cons]
    by_cases same : m.1 = key
    · rw [if_pos same, if_pos same]
      exact .inr ⟨m.2, w, rfl, rfl, same ▸ hv⟩
    · rw [if_neg same, if_neg same]
      exact ih ho

theorem expand_marker_done {name : String} {w : Json} :
    expand evaluators stack (.marker name) p = ⟨w, none⟩ ↔ copy evaluators stack name p = .ok w := by
  have walked := @walk_plain evaluators stack (.marker name) p
  rw [Json.marker, Json.walk, if_pos (Members.isMarker_marker name)] at walked
  simp only [Json.walkMarker, Members.markerName?, plain] at walked
  cases hx : expand evaluators stack (.marker name) p with
  | mk v error? =>
    simp only [Json.marker] at hx
    rw [hx] at walked
    cases hc : copy evaluators stack name p with
    | error e =>
      simp only [hc, Walked.mk.injEq] at walked
      simp [← walked.2.1]
    | ok u =>
      simp only [hc, Walked.mk.injEq] at walked
      simp [← walked.1, ← walked.2.1]

/-- An object that expands is the marker of what is copied, or is expanded member by member. -/
theorem expand_obj_done {w : Json} (h : expand evaluators stack (.obj ms) p = ⟨w, none⟩) :
    (∃ name, Json.obj ms = .marker name ∧ copy evaluators stack name p = .ok w) ∨
      ms.isMarker = false ∧ ∃ ws : Members, w = .obj ws ∧
        expandMembers evaluators stack ms p = ⟨ws, none⟩ := by
  cases marker : Members.isMarker ms with
  | true =>
    left
    have done := expand_done_iff.1 (congrArg Expansion.error? h)
    simp only [Json.sites, marker, if_true, List.mem_singleton, forall_eq] at done
    obtain ⟨name, u, hn, hc⟩ := done
    obtain rfl := Members.markerName?_eq_ok marker hn
    exact ⟨name, rfl, expand_marker_done.1 h⟩
  | false =>
    rw [expand, marker] at h
    obtain ⟨ws, hx, rfl⟩ := Expansion.map_done.1 h
    exact .inr ⟨rfl, ws, rfl, hx⟩

end

/-- What a value expands to depends neither on where it stands nor on the stack. -/
theorem expand_value_eq {evaluators : Members} {stack stack' : List String} {v : Json}
    {p q : Pointer} (h : (expand evaluators stack v p).error? = none)
    (h' : (expand evaluators stack' v q).error? = none) :
    (expand evaluators stack v p).value = (expand evaluators stack' v q).value := by
  induction hn : free evaluators stack using Nat.strongRecOn
    generalizing stack stack' v p q with
  | ind n ih =>
    rw [← error_serve_plain] at h h'
    rw [← fill_serve_plain, ← fill_serve_plain]
    congr 1
    refine serve_value_congr (Json.names_sites v p q) h h' ?_
    intro name p q v w hv hw
    simp only [plain, Prod.mk.injEq, and_true] at hv hw
    obtain ⟨raw, known, new, hr⟩ := copy_eq_ok_iff.1 hv
    obtain ⟨raw', known', -, hr'⟩ := copy_eq_ok_iff.1 hw
    obtain rfl : raw = raw' := Option.some.inj (known.symm.trans known')
    -- one more name is on the stack, so fewer evaluators are free
    have fewer := free_cons_lt known new
    have inner := ih _ (hn ▸ fewer) (congrArg Expansion.error? hr) (congrArg Expansion.error? hr') rfl
    rw [hr, hr'] at inner
    exact inner

end Resolver

end FeatureFlags
