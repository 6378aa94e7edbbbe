import FeatureFlags.Proofs.Document.Resolved
import FeatureFlags.Proofs.Json.Equality
import FeatureFlags.Proofs.Reference.Ledger
import FeatureFlags.Proofs.Reference.Steps

/-!
# What is kept between calls

Calls that are made step by step, each from the session and the evaluators in progress that the one
before left behind (`Made`), lead to the session that `Session.after` says, and leave no evaluator in
progress (`made_iff`). What is remembered then is told by the evaluators alone: each fragment is what
its evaluator expands to, with the counts that go with it, and all that it refers to is remembered too
(`after_invariant`).
-/

namespace FeatureFlags

/-- Calls made step by step, from a session and the evaluators in progress to others. -/
inductive Made (evaluators : Members) :
    Session × List String → List Call → Session × List String → Prop
  | nil (state : Session × List String) : Made evaluators state [] state
  | call {s : Session} {inProgress : List String} {c : Call} {more : List Call} {r : Resolution}
      {state : Session × List String} :
      Resolution.Steps evaluators
        (.start { s with limit := c.limit?.getD s.limit } inProgress c.value c.path) r →
      r.step evaluators = none → Made evaluators (r.session, r.inProgress) more state →
      Made evaluators (s, inProgress) (c :: more) state

namespace Session

variable {evaluators : Members} {s : Session} {calls : List Call} {state : Session × List String}

/-- The calls lead to one state, in which no evaluator is in progress. -/
theorem made_iff : Made evaluators (s, []) calls state ↔ state = (s.after evaluators calls, []) := by
  induction calls generalizing s with
  | nil =>
    constructor
    · rintro ⟨⟩
      rfl
    · rintro rfl
      exact .nil _
  | cons c more ih =>
    obtain ⟨final, run, halted, emptied, outcome⟩ := Resolution.resolve_steps evaluators
      { s with limit := c.limit?.getD s.limit } c.value c.path
    have session : final.session = (s.call evaluators c).state := congrArg Walked.state outcome
    constructor
    · intro made
      cases made with
      | @call _ _ _ _ r _ steps stopped rest =>
        -- the steps end in one state only
        obtain rfl : final = r :=
          Resolution.Steps.eq_of_halted stopped (steps.to_final run halted)
        rw [session, emptied] at rest
        exact ih.1 rest
    · rintro rfl
      refine .call run halted ?_
      rw [session, emptied]
      exact ih.2 rfl

/-- After any calls on a new session no evaluator is in progress. A fragment that is remembered is
what its evaluator expands to, free of references, with the number of its values and that of the
markers replaced in expanding it; whatever the evaluator refers to is remembered as well. -/
theorem after_invariant (evaluators : Members) (limit : Nat) (calls : List Call) :
    (∀ state, Made evaluators ({ limit }, []) calls state ↔
      state = (after evaluators { limit } calls, [])) ∧
    ((after evaluators { limit } calls).resolved.map (·.1)).Nodup ∧
    ∀ name f, (after evaluators { limit } calls).fragment? name = some f →
      ∃ raw, evaluators.get? name = some raw ∧
        Resolver.expand evaluators [] raw (evaluatorPointer name) = ⟨f.value, none⟩ ∧
        f.value.ReferenceFree ∧ f.nodes = f.value.nodes ∧
        f.markers = Resolver.replacements evaluators [] raw ∧
        ∀ inner, raw.Mentions inner → (after evaluators { limit } calls).Remembers inner := by
  have fresh : Sound evaluators [] { limit } := sound_fresh limit
  have sound := fresh.after calls
  refine ⟨fun state => made_iff, sound.tidy.distinct, fun name f hf => ?_⟩
  obtain ⟨raw, known, -, hx⟩ := Resolver.copy_eq_ok_iff.1 (sound.faithful.sound name f hf)
  have alone : Resolver.expand evaluators [] raw (evaluatorPointer name) = ⟨f.value, none⟩ :=
    Resolver.expand_restack hx (by simp)
  have replaced : evaluators.replaced name = Resolver.replacements evaluators [] raw := by
    rw [Members.replaced, known]
  exact ⟨raw, known, alone, (Resolver.closed_of_expand_done alone).referenceFree,
    sound.tidy.nodes_eq hf, (sound.counted name f hf).trans replaced,
    sound.faithful.closed name raw ⟨f, hf⟩ known⟩

deriving instance DecidableEq for Fragment

/-- The calls that led to the sample session, and one that gets past `a` then. -/
def sampleCalls : List Call :=
  [⟨none, Json.marker "a", ""⟩, ⟨some 9, Json.marker "c", ""⟩, ⟨none, Json.marker "a", ""⟩]

/-- The sample session ran into a limit and a cycle and remembers `b` alone, all of it; one call
later it remembers `a`, which refers to `b`. -/
theorem sampleSession_invariant :
    Made sampleEvaluators ({ limit := 1 }, []) (sampleCalls.take 2) (sampleSession, []) ∧
    sampleSession.fragment? "b" = some ⟨.null, 1, 0⟩ ∧ sampleSession.fragment? "a" = none ∧
    (∃ raw, sampleEvaluators.get? "b" = some raw ∧
      Resolver.expand sampleEvaluators [] raw (evaluatorPointer "b") = ⟨.null, none⟩ ∧
      Resolver.replacements sampleEvaluators [] raw = 0) ∧
    ((after sampleEvaluators { limit := 1 } sampleCalls).fragment? "a" =
      some ⟨.arr [.null], 2, 1⟩ ∧
      (after sampleEvaluators { limit := 1 } sampleCalls).Remembers "b") := by
  have known : sampleSession.fragment? "b" = some ⟨.null, 1, 0⟩ := by decide +kernel
  have later : (after sampleEvaluators { limit := 1 } sampleCalls).fragment? "a" =
      some ⟨.arr [.null], 2, 1⟩ := by decide +kernel
  obtain ⟨made, -, told⟩ := after_invariant sampleEvaluators 1 (sampleCalls.take 2)
  obtain ⟨raw, there, expanded, -, -, replaced, -⟩ := told "b" ⟨.null, 1, 0⟩ known
  obtain ⟨-, -, told⟩ := after_invariant sampleEvaluators 1 sampleCalls
  obtain ⟨whole, there', -, -, -, -, closed⟩ := told "a" ⟨.arr [.null], 2, 1⟩ later
  obtain rfl : whole = .arr [Json.marker "b"] := Option.some.inj (there'.symm.trans rfl)
  have mentioned : Json.Mentions (.arr [Json.marker "b"]) "b" :=
    .item (List.mem_singleton.2 rfl) (.self _)
  exact ⟨(made _).2 rfl, known, by decide +kernel, ⟨raw, there, expanded, replaced.symm⟩, later,
    closed "b" mentioned⟩

end Session

end FeatureFlags
