import FeatureFlags.Proofs.Reference.Blame
import Mathlib.Data.List.Chain
import Mathlib.Data.List.Nodup

/-!
# A reported cycle is a real one

A cycle is reported as the stack of the evaluators that are being resolved, with the name that was
met again. `Members.Trail` says what such a stack is: a marker in the value opened the first
evaluator, a marker in each opened the next, and none was opened twice. The stack is one whenever a
marker is answered (`fragment_cycle`), whatever the session remembers, so the chain that is read off
it leads from the value around a cycle (`Session.isCycle_of_resolve`).
-/

namespace FeatureFlags

/-- The marker of one name stands in the evaluator of another. -/
def Members.Refers (evaluators : Members) (name inner : String) : Prop :=
  ∃ raw, evaluators.get? name = some raw ∧ raw.Mentions inner

/-- A chain of names that leads from a value to one of its names again. -/
structure Members.IsCycle (evaluators : Members) (v : Json) (chain : List String) : Prop where
  /-- There is a step at least. -/
  long : 1 < chain.length
  /-- The value has a marker of the first name. -/
  entered : ∃ first ∈ chain.head?, v.Mentions first
  /-- The evaluator of each name has a marker of the next. -/
  linked : chain.IsChain evaluators.Refers
  /-- Up to the last, no name comes twice. -/
  simple : chain.dropLast.Nodup
  /-- The last name came before. -/
  closed : ∃ last ∈ chain.getLast?, last ∈ chain.dropLast

/-- The name of a marker that was met, on top of the names whose evaluators are open, innermost
first. -/
inductive Members.Trail (evaluators : Members) (v : Json) : List String → Prop
  | start {name : String} : v.Mentions name → Trail evaluators v [name]
  | step {name inner : String} {stack : List String} : Trail evaluators v (name :: stack) →
      name ∉ stack → evaluators.Refers name inner → Trail evaluators v (inner :: name :: stack)

variable {evaluators : Members} {v : Json} {p : Pointer} {e : ReferenceError}

namespace Members.Trail

variable {name : String} {stack names : List String}

theorem entered (h : evaluators.Trail v names) : ∃ first ∈ names.getLast?, v.Mentions first := by
  induction h with
  | start m => exact ⟨_, rfl, m⟩
  | step _ _ _ ih => simpa using ih

theorem linked (h : evaluators.Trail v names) : names.reverse.IsChain evaluators.Refers := by
  rw [List.isChain_reverse]
  induction h with
  | start => exact .singleton _
  | step _ _ refers ih => exact .cons_cons refers ih

theorem nodup_tail (h : evaluators.Trail v names) : names.tail.Nodup := by
  induction h with
  | start => exact List.nodup_nil
  | step _ new _ ih => exact List.nodup_cons.2 ⟨new, ih⟩

/-- A name that is met while its evaluator is open closes a cycle. -/
theorem isCycle (h : evaluators.Trail v (name :: stack)) (again : name ∈ stack) :
    evaluators.IsCycle v (name :: stack).reverse where
  long := by
    have := List.length_pos_of_mem again
    simpa using this
  entered := by
    rw [List.head?_reverse]
    exact h.entered
  linked := h.linked
  simple := by simpa [List.nodup_reverse] using h.nodup_tail
  closed := ⟨name, by simp, by simpa using again⟩

end Members.Trail

/-! ## Resolutions -/

namespace Resolver

/-- A cycle that ends the answer to a marker, which was met on a trail from the value, is one that
the value leads into. -/
theorem fragment_cycle {stack chain : List String} {name : String} {s : Session}
    (trail : evaluators.Trail v (name :: stack))
    (h : (fragment evaluators stack name p s).1 = .error (.circular chain)) :
    evaluators.IsCycle v chain := by
  revert trail h
  refine fragment_induct (motive := fun stack name _ _ r => evaluators.Trail v (name :: stack) →
    r.1 = .error (.circular chain) → evaluators.IsCycle v chain) ?_ ?_ ?_ ?_ stack name p s
  · intro stack name p s f _ trail h
    obtain ⟨s', -, done | stopped⟩ := s.reuse_cases f name p
    · rw [done] at h
      cases h
    · rw [stopped] at h
      cases h
  · intro stack name p s _ unknown trail h
    cases h
  · intro stack name p s raw _ known on_stack trail h
    cases h
    exact trail.isCycle on_stack
  · intro stack name p s raw _ known new ih trail h
    cases hw : raw.walk (marker evaluators (name :: stack)) (evaluatorPointer name) s with
    | mk w error? after =>
      rw [hw] at h
      cases error? with
      | some e =>
        cases h
        -- the fault is that of a marker inside, met with one more evaluator open
        rcases Json.walk_error (congrArg Walked.error? hw) with
          ⟨q, ms, fault, -, -, -, same⟩ | ⟨inner, q, s', leads, answered⟩
        · cases same
        · rw [marker, Session.countMarker_fst] at answered
          exact ih inner q s' (.step trail new ⟨raw, known, leads.inside⟩) answered
      | none =>
        dsimp only at h
        rcases s.store_cases after w name p with ⟨s', f, -, -, stored⟩ | ⟨s', -, stopped⟩
        · rw [stored] at h
          cases h
        · rw [stopped] at h
          cases h

end Resolver

namespace Session

/-- When a resolution ends at a cycle, whatever was resolved in the session before, the reported
chain is a cycle of the evaluators that the value leads into. -/
theorem isCycle_of_resolve {s : Session} {chain : List String}
    (h : (s.resolve evaluators v p).error? = some (.circular chain)) :
    evaluators.IsCycle v chain := by
  rcases Json.walk_error h with
    ⟨q, ms, fault, -, -, -, same⟩ | ⟨name, q, s', leads, answered⟩
  · cases same
  · rw [Resolver.marker, countMarker_fst] at answered
    exact Resolver.fragment_cycle (.start leads.inside) answered

/-- Evaluators of which the first leads into a cycle of two others, behind one without references. -/
def loopEvaluators : Members :=
  [("a", Json.marker "b"), ("b", .arr [Json.marker "d", Json.marker "c"]), ("c", Json.marker "b"),
    ("d", .null)]

/-- A session in which one of them is remembered and the cycle was met before. -/
def loopSession : Session := after loopEvaluators {} [⟨none, Json.marker "b", ""⟩]

/-- The chain goes around the cycle once. -/
theorem loopSession_isCycle :
    (loopSession.resolve loopEvaluators (.arr [Json.marker "a"]) "/x").error? =
        some (.circular ["a", "b", "c", "b"]) ∧
      Members.IsCycle loopEvaluators (.arr [Json.marker "a"]) ["a", "b", "c", "b"] := by
  have circular : ((loopSession.resolve loopEvaluators (.arr [Json.marker "a"]) "/x").error?.any
      fun | .circular chain => chain == ["a", "b", "c", "b"] | _ => false) = true := by
    decide +kernel
  have ends : (loopSession.resolve loopEvaluators (.arr [Json.marker "a"]) "/x").error? =
      some (.circular ["a", "b", "c", "b"]) := by
    cases he : (loopSession.resolve loopEvaluators (.arr [Json.marker "a"]) "/x").error? with
    | none => simp [he] at circular
    | some e =>
      cases e with
      | circular chain => simpa [he] using circular
      | _ => simp [he] at circular
  exact ⟨ends, isCycle_of_resolve ends⟩

end Session

end FeatureFlags
