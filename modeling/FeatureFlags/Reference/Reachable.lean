import FeatureFlags.Reference.Marker

/-!
# Evaluators in use

An evaluator is in use if a given reference names it, or the evaluator of one in use does.
`reachable` collects them from a queue of names: a name that is unknown or was met before drops
out, and any other adds the names that its evaluator refers to.
-/

namespace FeatureFlags.Members

/-- The names that an evaluator refers to. -/
def namesIn (evaluators : Members) (name : String) : List String :=
  match evaluators.get? name with
  | some v => (v.references "").map (·.name)
  | none => []

/-- Works off a queue of names; `fuel` is at least the number of evaluators that are not yet
used. -/
def collectReachable (evaluators : Members) : (fuel : Nat) → (queue used : List String) →
    List String
  | 0, _, used => used
  | fuel + 1, queue, used =>
    match queue.dropWhile fun name => !evaluators.has name || used.contains name with
    | [] => used
    | name :: more =>
      collectReachable evaluators fuel (more ++ evaluators.namesIn name) (name :: used)

/-- The evaluators in use from some references. -/
def reachable (evaluators : Members) (roots : List Reference) : List String :=
  evaluators.collectReachable evaluators.length (roots.map (·.name)) []

end FeatureFlags.Members
