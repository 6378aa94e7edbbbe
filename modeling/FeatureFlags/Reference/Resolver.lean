import FeatureFlags.Reference.Walk

/-!
# Resolving references

`Session.resolve` replaces every marker in a value by a copy of the evaluator it names, whose own
markers are resolved first. A session remembers each resolved evaluator together with its size
and its number of replacements, and it counts: `substitutions` are markers replaced, those inside
a copy included, and `expandedNodes` are values copied in, which may not exceed `limit`. Both
counts and all resolved evaluators are kept after a fault.

Evaluators that are being resolved are kept on a stack, and a marker that names one of them closes
a cycle. Every step down puts one more evaluator on the stack, so the descent ends.
-/

namespace FeatureFlags

/-- A resolved evaluator with its size and the markers replaced in it. -/
structure Fragment where
  value : Json
  nodes : Nat
  markers : Nat

/-- The limit on values copied in, unless another is asked for. -/
def defaultLimit : Nat := 100000

/-- What is remembered from one resolution to the next. The counts are natural numbers here, and
machine words where the program runs; `resolveAll_bounded` says when none of them can wrap. -/
structure Session where
  resolved : List (String × Fragment) := []
  substitutions : Nat := 0
  expandedNodes : Nat := 0
  limit : Nat := defaultLimit

namespace Session

/-- The resolved evaluator of a name, if it is known. -/
def fragment? (s : Session) (name : String) : Option Fragment :=
  (s.resolved.find? (·.1 == name)).map (·.2)

/-- Counts values copied in for a marker, and complains once there are too many. -/
def charge (s : Session) (nodes : Nat) (name : String) (path : Pointer) :
    Except ReferenceError Unit × Session :=
  let s := { s with expandedNodes := s.expandedNodes + nodes }
  if s.limit < s.expandedNodes then (.error (.tooLarge name s.limit path), s) else (.ok (), s)

/-- A copy of an evaluator that is resolved already. -/
def reuse (s : Session) (f : Fragment) (name : String) (path : Pointer) :
    Except ReferenceError Json × Session :=
  match s.charge f.nodes name path with
  | (.error e, s) => (.error e, s)
  | (.ok _, s) => (.ok f.value, { s with substitutions := s.substitutions + f.markers })

/-- Remembers an evaluator resolved in the step from `before` to `s`, and hands out a copy. -/
def store (before s : Session) (value : Json) (name : String) (path : Pointer) :
    Except ReferenceError Json × Session :=
  match s.charge value.nodes name path with
  | (.error e, s) => (.error e, s)
  | (.ok _, s) =>
    -- markers replaced on the way here, those of evaluators inside included
    let f : Fragment := ⟨value, value.nodes, s.substitutions - before.substitutions⟩
    (.ok value, { s with resolved := s.resolved ++ [(name, f)] })

/-- Counts the marker that a copy replaces. -/
def countMarker : Except ReferenceError Json × Session → Except ReferenceError Json × Session
  | (.ok v, s) => (.ok v, { s with substitutions := s.substitutions + 1 })
  | (.error e, s) => (.error e, s)

end Session

namespace Resolver

/-- The number of evaluators that are not on the stack. -/
def free (evaluators : Members) (stack : List String) : Nat :=
  evaluators.countP fun m => !stack.contains m.1

theorem free_cons_lt {evaluators : Members} {stack : List String} {name : String} {raw : Json}
    (known : evaluators.get? name = some raw) (new : name ∉ stack) :
    free evaluators (name :: stack) < free evaluators stack := by
  induction evaluators with
  | nil => simp [Members.get?] at known
  | cons m more ih =>
    have le : free more (name :: stack) ≤ free more stack := by
      refine List.countP_mono_left fun x _ h => ?_
      simp at h ⊢
      exact h.2
    simp only [free, List.countP_cons] at ih le ⊢
    by_cases hm : m.1 = name
    · subst hm
      have h1 : (!(m.1 :: stack).contains m.1) = false := by simp
      have h2 : (!stack.contains m.1) = true := by simpa using new
      simp only [h1, h2, if_true, Bool.false_eq_true, if_false]
      omega
    · have hk : Members.get? more name = some raw := by
        simpa [Members.get?, List.find?_cons, hm] using known
      have hlt := ih hk
      have same : (!(name :: stack).contains m.1) = (!stack.contains m.1) := by
        simp [hm]
      rw [same]
      omega

/-- A copy of the evaluator of a name, for the marker at a pointer, while the evaluators on the
stack are being resolved, innermost first. -/
def fragment (evaluators : Members) (stack : List String) (name : String) (path : Pointer)
    (s : Session) : Except ReferenceError Json × Session :=
  match s.fragment? name with
  | some f => s.reuse f name path
  | none =>
    match _known : evaluators.get? name with
    | none => (.error (.unresolved name path), s)
    | some raw =>
      if _new : name ∈ stack then (.error (.circular (name :: stack).reverse), s)
      else
        let marker : Handler Session := fun inner at' s' =>
          Session.countMarker (fragment evaluators (name :: stack) inner at' s')
        match raw.walk marker (evaluatorPointer name) s with
        | ⟨_, some e, after⟩ => (.error e, after)
        | ⟨value, none, after⟩ => s.store after value name path
termination_by free evaluators stack
decreasing_by exact free_cons_lt (by assumption) (by assumption)

/-- Replaces a marker while the evaluators on the stack are being resolved. -/
def marker (evaluators : Members) (stack : List String) : Handler Session :=
  fun name path s => Session.countMarker (fragment evaluators stack name path s)

end Resolver

/-- Replaces every marker inside a value at a pointer. -/
def Session.resolve (evaluators : Members) (s : Session) (v : Json) (path : Pointer) :
    Walked Session Json :=
  v.walk (Resolver.marker evaluators []) path s

end FeatureFlags
