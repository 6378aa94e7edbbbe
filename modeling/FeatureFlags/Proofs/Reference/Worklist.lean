import FeatureFlags.Proofs.Reference.Static
import FeatureFlags.Reference.Resolver

/-!
# The worklist misses no evaluator

`Members.collectReachable` stops when its queue has run dry or when its fuel has, and either way
all is found (`collectReachable_complete`): what was used may refer to names that are still in the
queue, and no fuel is left only if every evaluator is used already. So whatever a value reaches
through markers is in use from the references of the value (`mem_reachable_of_reaches`).
-/

namespace FeatureFlags

namespace Json

variable {v : Json} {name : String}

theorem Mentions.refersTo (m : v.Mentions name) : v.RefersTo name :=
  ⟨_, m, by simp⟩

/-- A marker inside a value is one of the references found in it. -/
theorem exists_reference_of_mentions (m : v.Mentions name) (p : Pointer) :
    ∃ r ∈ v.references p, r.name = name :=
  (exists_reference_iff p).2 m.refersTo

end Json

namespace Members

variable {evaluators : Members} {v : Json} {name : String}

/-- Once every evaluator is used, all that is known is. -/
theorem mem_of_free_eq_zero {used : List String} (full : Resolver.free evaluators used = 0)
    (known : evaluators.has name = true) : name ∈ used := by
  obtain ⟨raw, known⟩ := has_iff.1 known
  simpa using List.countP_eq_zero.1 full _ (mem_of_get? known)

/-- Every evaluator that a used one refers to is used or waits in the queue. -/
def Pending (evaluators : Members) (queue used : List String) : Prop :=
  ∀ name ∈ used, ∀ inner ∈ evaluators.namesIn name, evaluators.has inner = true →
    inner ∈ used ∨ inner ∈ queue

/-- What drops out of the queue is unknown or used already. -/
theorem mem_of_dropWhile {queue used next : List String}
    (dropped : queue.dropWhile (fun name => !evaluators.has name || used.contains name) = next)
    (hn : name ∈ queue) (known : evaluators.has name = true) : name ∈ used ∨ name ∈ next := by
  induction queue with
  | nil => cases hn
  | cons head more ih =>
    rw [List.dropWhile_cons] at dropped
    split at dropped
    next drops =>
      rcases List.mem_cons.1 hn with rfl | hn
      · simp only [known, Bool.not_true, Bool.false_or, List.contains_iff_mem] at drops
        exact .inl drops
      · exact ih dropped hn
    next =>
      subst dropped
      exact .inr hn

/-- With enough fuel, all evaluators in the queue are found, and with each that is found, all that
it refers to. -/
theorem collectReachable_complete {fuel : Nat} {queue used : List String}
    (enough : Resolver.free evaluators used ≤ fuel) (pending : evaluators.Pending queue used) :
    used ⊆ evaluators.collectReachable fuel queue used ∧
      (∀ name ∈ queue, evaluators.has name = true →
        name ∈ evaluators.collectReachable fuel queue used) ∧
      evaluators.Pending [] (evaluators.collectReachable fuel queue used) := by
  induction fuel generalizing queue used with
  | zero =>
    -- every evaluator is used, so there is nothing left to find
    have all : ∀ name, evaluators.has name = true → name ∈ used :=
      fun _ => mem_of_free_eq_zero (Nat.le_zero.1 enough)
    rw [collectReachable]
    exact ⟨List.Subset.refl _, fun name _ known => all name known,
      fun _ _ inner _ known => .inl (all inner known)⟩
  | succ fuel ih =>
    unfold collectReachable
    split
    next dry =>
      refine ⟨List.Subset.refl _, ?_, ?_⟩
      · intro name hn known
        simpa using mem_of_dropWhile dry hn known
      · intro name hn inner hi known
        rcases pending name hn inner hi known with there | waiting
        · exact .inl there
        · exact mem_of_dropWhile dry waiting known
    next name more next =>
      obtain ⟨known, new⟩ := next_of_dropWhile next
      obtain ⟨raw, hraw⟩ := has_iff.1 known
      have fewer := Resolver.free_cons_lt hraw new
      have pending' : evaluators.Pending (more ++ evaluators.namesIn name) (name :: used) := by
        intro other ho inner hi hk
        rcases List.mem_cons.1 ho with rfl | ho
        · exact .inr (List.mem_append_right _ hi)
        · rcases pending other ho inner hi hk with there | waiting
          · exact .inl (List.mem_cons_of_mem _ there)
          · rcases mem_of_dropWhile next waiting hk with there | waiting
            · exact .inl (List.mem_cons_of_mem _ there)
            · rcases List.mem_cons.1 waiting with rfl | waiting
              · exact .inl List.mem_cons_self
              · exact .inr (List.mem_append_left _ waiting)
      obtain ⟨kept, found, closed⟩ := ih (by omega) pending'
      refine ⟨fun other ho => kept (List.mem_cons_of_mem _ ho), ?_, closed⟩
      intro other ho hk
      rcases mem_of_dropWhile next ho hk with there | waiting
      · exact kept (List.mem_cons_of_mem _ there)
      · rcases List.mem_cons.1 waiting with rfl | waiting
        · exact kept List.mem_cons_self
        · exact found other (List.mem_append_left _ waiting) hk

/-- The evaluators in use from some references hold all that are named by these, and all that is
referred to by one of them. -/
theorem reachable_complete (evaluators : Members) (roots : List Reference) :
    (∀ r ∈ roots, evaluators.has r.name = true → r.name ∈ evaluators.reachable roots) ∧
      evaluators.Pending [] (evaluators.reachable roots) := by
  have enough : Resolver.free evaluators [] ≤ evaluators.length := List.countP_le_length
  have pending : evaluators.Pending (roots.map (·.name)) [] := by
    intro name hn
    cases hn
  obtain ⟨-, found, closed⟩ := collectReachable_complete enough pending
  exact ⟨fun r hr => found r.name (List.mem_map_of_mem hr), closed⟩

/-- An evaluator in reach of a value is in use from the references found in the value. -/
theorem mem_reachable_of_reaches {roots : List Reference} {p : Pointer}
    (found : v.references p ⊆ roots) (reach : evaluators.Reaches v name)
    (known : evaluators.has name = true) : name ∈ evaluators.reachable roots := by
  obtain ⟨start, closed⟩ := reachable_complete evaluators roots
  induction reach with
  | mentioned m =>
    obtain ⟨r, hr, rfl⟩ := Json.exists_reference_of_mentions m p
    exact start r (found hr) known
  | through _ hraw m ih =>
    have via := ih (has_iff.2 ⟨_, hraw⟩)
    have named := mem_namesIn_iff.2 ⟨_, hraw, m.refersTo⟩
    simpa using closed _ via _ named known

end Members

end FeatureFlags
