import FeatureFlags.Proofs.Reference.Worklist

/-!
# The worklist is exact

What `Members.reachable` collects is what its documentation calls in use (`mem_reachable_iff`): it
misses nothing, and what comes into the queue is named by a given reference or by an evaluator that
was collected before.
-/

namespace FeatureFlags.Members

variable {evaluators : Members} {roots : List Reference} {name : String}

/-- The evaluators that some references name, those that the evaluators named refer to, and so
on. -/
inductive InUse (evaluators : Members) (roots : List Reference) : String → Prop
  | root {r : Reference} : r ∈ roots → evaluators.has r.name = true → InUse evaluators roots r.name
  | through {via name : String} : InUse evaluators roots via → name ∈ evaluators.namesIn via →
      evaluators.has name = true → InUse evaluators roots name

theorem InUse.has (h : evaluators.InUse roots name) : evaluators.has name = true := by
  cases h <;> assumption

/-- The evaluators in use from some references are those that are collected. -/
theorem mem_reachable_iff : name ∈ evaluators.reachable roots ↔ evaluators.InUse roots name := by
  constructor
  · have subset : ∀ name ∈ evaluators.reachable roots, evaluators.has name = true ∧
        (evaluators.has name = true → evaluators.InUse roots name) := by
      refine collectReachable_subset ?_ ?_ (by simp)
      · exact fun via known use inner hi => .through (use known) hi
      · intro name hn
        obtain ⟨r, hr, rfl⟩ := List.mem_map.1 hn
        exact .root hr
    intro hn
    obtain ⟨known, use⟩ := subset name hn
    exact use known
  · intro use
    obtain ⟨start, closed⟩ := reachable_complete evaluators roots
    induction use with
    | root hr known => exact start _ hr known
    | through _ hi known ih => simpa using closed _ ih _ hi known

end FeatureFlags.Members
