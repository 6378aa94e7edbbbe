import FeatureFlags.Proofs.Document.Flags
import FeatureFlags.Proofs.Reference.Ledger

/-!
# What resolving adds to the counts

A value that is resolved adds to both counters of a session what the markers in it and in the
evaluators out of it come to, whatever the session was asked before. The only difference its past
makes is for the evaluators that are remembered already: the markers in those were paid for. So the
counts after several values, or after the flags of a document, do not depend on their order.
-/

namespace FeatureFlags

namespace Session

variable {options : Options} {evaluators flags : Members} {s s' : Session} {v : Json}

/-- What a value that was resolved has added to a session. -/
structure Adds (evaluators : Members) (s : Session) (v : Json) (s' : Session) : Prop where
  /-- Whatever the value reaches expands, and what it counts for is told by the markers in it. -/
  expands : ∀ name, evaluators.Reaches v name → ∃ raw w, evaluators.get? name = some raw ∧
    Resolver.expand evaluators [] raw (evaluatorPointer name) = ⟨w, none⟩ ∧
    evaluators.size name = w.nodes ∧ evaluators.replaced name = evaluators.replacedIn raw ∧
    evaluators.ownCost name = evaluators.copiedIn raw
  substitutions : s'.substitutions = s.substitutions + evaluators.replacedIn v
  /-- The markers in an evaluator are paid for when it comes to be remembered. -/
  expandedNodes : ∃ fresh : List String, fresh.Nodup ∧
    (∀ name, name ∈ fresh ↔ evaluators.Reaches v name ∧ ¬ s.Remembers name) ∧
    s'.expandedNodes = s.expandedNodes + evaluators.copiedIn v + (fresh.map evaluators.ownCost).sum
  remembers : ∀ name, s'.Remembers name ↔ s.Remembers name ∨ evaluators.Reaches v name

theorem Settles.adds (tidy : s.Tidy) (h : Settles evaluators s [v] s') : Adds evaluators s v s' := by
  have remembers : ∀ name, s'.Remembers name ↔ s.Remembers name ∨ evaluators.Reaches v name := by
    simpa using h.remembers
  refine ⟨fun name reach => ?_, by simpa using h.substitutions, ?_, remembers⟩
  · exact h.sound.exists_expand ((remembers name).2 (.inr reach))
  · simpa using h.exists_fresh tidy

/-! ## The flags of a document -/

/-- A flag that is built settles its raw value. -/
theorem Sound.attemptFlag_settles {raw : String × Json} {f : String × FeatureFlag}
    (h : s.Sound evaluators []) (built : attemptFlag options evaluators raw s = (.ok f, s')) :
    Settles evaluators s [raw.2] s' := by
  unfold attemptFlag at built
  cases ended : (s.resolve evaluators raw.2 (flagPointer raw.1)).error? with
  | some e =>
    simp [Walked.attempt, ended, Attempt.mapError, Except.mapError, Attempt.andThen] at built
  | none =>
    have settles := h.resolve_settles ended
    rw [Walked.attempt_of_done ended] at built
    have same := congrArg Prod.snd built
    dsimp only [Attempt.mapError, Except.mapError, Attempt.andThen] at same
    rwa [same] at settles

theorem Sound.attemptFlags_settles {fs : List (String × FeatureFlag)} (h : s.Sound evaluators [])
    (built : (attemptFlags options evaluators flags s).1 = .ok fs) :
    Settles evaluators s (flags.map (·.2)) (attemptFlags options evaluators flags s).2 := by
  induction flags generalizing s fs with
  | nil => exact h.settles
  | cons raw more ih =>
    rw [attemptFlags] at built ⊢
    obtain ⟨f, s₁, first, built⟩ := Attempt.andThen_eq_ok.1 built
    obtain ⟨others, s₂, rest, -⟩ := Attempt.andThen_eq_ok.1 built
    have settles := h.attemptFlag_settles first
    have more_settle := ih settles.sound (congrArg Prod.fst rest)
    rw [first]
    dsimp only [Attempt.andThen]
    rw [rest] at more_settle ⊢
    exact settles.append more_settle

/-- After any calls, whatever they came to, a value that is resolved adds just its own counts, and
remembers just what it reaches. Calls that all succeed come to the same counts in any order of
their values, and so do flags. -/
theorem totals_after (evaluators : Members) (limit : Nat) (history : List Call) :
    (∀ c : Call, ((after evaluators { limit } history).call evaluators c).error? = none →
      Adds evaluators (after evaluators { limit } history) c.value
        ((after evaluators { limit } history).call evaluators c).state) ∧
    (∀ calls calls' : List Call, (calls.map (·.value)).Perm (calls'.map (·.value)) →
      AllDone evaluators (after evaluators { limit } history) calls →
      AllDone evaluators (after evaluators { limit } history) calls' →
      SameTotals ((after evaluators { limit } history).after evaluators calls)
        ((after evaluators { limit } history).after evaluators calls')) ∧
    (∀ (options : Options) (flags flags' : Members), flags.Perm flags' →
      ∀ fs fs', (attemptFlags options evaluators flags (after evaluators { limit } history)).1 =
          .ok fs →
        (attemptFlags options evaluators flags' (after evaluators { limit } history)).1 = .ok fs' →
      SameTotals (attemptFlags options evaluators flags (after evaluators { limit } history)).2
        (attemptFlags options evaluators flags' (after evaluators { limit } history)).2) := by
  have sound : (after evaluators { limit } history).Sound evaluators [] :=
    (sound_fresh limit).after history
  refine ⟨fun c done => ?_, fun calls calls' perm done done' => ?_, ?_⟩
  · exact (sound.call_settles done).adds sound.tidy
  · exact (sound.after_settles done).same_of_perm (sound.after_settles done') perm
  · intro options flags flags' perm fs fs' built built'
    exact (sound.attemptFlags_settles built).same_of_perm (sound.attemptFlags_settles built')
      (perm.map _)

/-- A call that gets past `a`, which is new to the session, and then copies `b` again. -/
def copiesCall : Call := ⟨none, .arr [Json.marker "a", Json.marker "b"], "/x"⟩

/-- Flags that each take a variant from an evaluator. -/
def copyingFlags (names : List String) : Members :=
  names.map fun name => (name, .obj [("variations", .obj [("on", Json.marker name)])])

theorem sampleSession_totals :
    ((sampleSession.call sampleEvaluators copiesCall).error? = none ∧
      Adds sampleEvaluators sampleSession copiesCall.value
        (sampleSession.call sampleEvaluators copiesCall).state) ∧
    SameTotals
      (sampleSession.after sampleEvaluators
        [⟨none, Json.marker "a", ""⟩, ⟨some 8, Json.marker "b", ""⟩])
      (sampleSession.after sampleEvaluators
        [⟨some 9, Json.marker "b", ""⟩, ⟨none, Json.marker "a", ""⟩]) ∧
    SameTotals (attemptFlags {} sampleEvaluators (copyingFlags ["a", "b"]) sampleSession).2
      (attemptFlags {} sampleEvaluators (copyingFlags ["b", "a"]) sampleSession).2 := by
  have totals := totals_after sampleEvaluators 1
    [⟨none, Json.marker "a", ""⟩, ⟨some 9, Json.marker "c", ""⟩]
  refine ⟨?_, ?_, ?_⟩
  · have done : (sampleSession.call sampleEvaluators copiesCall).error? = none := by
      decide +kernel
    exact ⟨done, totals.1 copiesCall done⟩
  · refine totals.2.1 _ _ (.swap _ _ _) ⟨?_, ?_, trivial⟩ ⟨?_, ?_, trivial⟩
    all_goals decide +kernel
  · have built : ∀ names ∈ [["a", "b"], ["b", "a"]],
        (attemptFlags {} sampleEvaluators (copyingFlags names) sampleSession).1.toOption.isSome =
          true := by
      decide +kernel
    obtain ⟨fs, hfs⟩ := isSome_toOption.1 (built ["a", "b"] (by simp))
    obtain ⟨fs', hfs'⟩ := isSome_toOption.1 (built ["b", "a"] (by simp))
    exact totals.2.2 {} _ _ (.swap _ _ _) fs fs' hfs hfs'

end Session

end FeatureFlags
