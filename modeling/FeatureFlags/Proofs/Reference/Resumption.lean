import FeatureFlags.Proofs.Reference.Budget
import FeatureFlags.Proofs.Reference.Closed

/-!
# Resuming a resolution

Whatever ends a resolution, what it leaves in place expands just as the value did that it started
from (`expand_walk`): the copies put in place have nothing left to replace, and all else is as it
was. So a resolution that ended at the limit can be taken up under another one where it stopped, and
one that met another fault meets the same fault again (`call_resumes`).
-/

namespace FeatureFlags

theorem Json.keys_walkMembers {σ : Type} (handler : Handler σ) (ms : Members) (p : Pointer) (s : σ) :
    (walkMembers handler ms p s).value.keys = ms.keys := by
  induction ms generalizing s with
  | nil => rfl
  | cons m more ih =>
    obtain ⟨k, v⟩ := m
    rw [walkMembers]
    obtain ⟨w, _ | e, s'⟩ := v.walk handler (p.child k) s
    · exact congrArg (k :: ·) (ih s')
    · rfl

theorem Members.isMarker_congr {ms ws : Members} (same : ws.keys = ms.keys) :
    ws.isMarker = ms.isMarker := by
  rw [Bool.eq_iff_iff, isMarker, isMarker, has_iff_mem_keys, has_iff_mem_keys, same]

namespace Resolver

variable {evaluators : Members} {stack : List String}

/-- A copy expands to itself, as the marker does that it stands for. -/
theorem expand_copy {ms : Members} {name : String} {p : Pointer} {v : Json}
    (marker : ms.isMarker = true) (named : ms.markerName? = .ok name)
    (copied : copy evaluators stack name p = .ok v) :
    expand evaluators stack v p = expand evaluators stack (.obj ms) p := by
  obtain rfl := Members.markerName?_eq_ok marker named
  have whole : expand evaluators stack (Json.marker name) p = ⟨v, none⟩ :=
    expand_marker_done.2 copied
  rw [expand_of_closed (closed_of_expand_done whole)]
  exact whole.symm

/-! ## What is left in place -/

section

variable {handler : Handler Session}
  (step : ∀ name p s, s.Faithful evaluators stack →
    Answers evaluators stack s name p (handler name p s))

include step

theorem expand_walkMarker {ms : Members} (marker : ms.isMarker = true) (p : Pointer) {s : Session}
    (h : s.Faithful evaluators stack) :
    expand evaluators stack (Json.walkMarker handler ms p s).value p =
      expand evaluators stack (.obj ms) p := by
  rw [Json.walkMarker]
  cases named : Members.markerName? ms with
  | error fault => rfl
  | ok name =>
    have answers := step name p s h
    dsimp only
    cases answered : handler name p s with
    | mk answer s' =>
      rw [answered] at answers
      cases answer with
      | error e => rfl
      | ok v => exact expand_copy marker named (answers.result (by simp)).symm

mutual

/-- What a walk leaves in place of a value expands as the value does. -/
theorem expand_walk : ∀ (v : Json) (p : Pointer) (s : Session), s.Faithful evaluators stack →
    expand evaluators stack (v.walk handler p s).value p = expand evaluators stack v p
  | .obj ms, p, s, h => by
    rw [Json.walk]
    cases marker : Members.isMarker ms with
    | true => exact expand_walkMarker step marker p h
    | false =>
      have same := Members.isMarker_congr (Json.keys_walkMembers handler ms p s)
      simp only [Walked.map, Bool.false_eq_true, if_false]
      rw [expand, expand, same, marker]
      simp only [Bool.false_eq_true, if_false]
      rw [expandMembers_walk ms p s h]
  | .arr items, p, s, h => by
    rw [Json.walk, Walked.map, expand, expand, expandItems_walk items p 0 s h]
  | .null, _, _, _ | .bool _, _, _, _ | .num _, _, _, _ | .str _, _, _, _ => by simp [Json.walk]

theorem expandItems_walk : ∀ (items : List Json) (p : Pointer) (i : Nat) (s : Session),
    s.Faithful evaluators stack →
      expandItems evaluators stack (Json.walkItems handler items p i s).value p i =
        expandItems evaluators stack items p i
  | [], _, _, _, _ => rfl
  | v :: more, p, i, s, h => by
    have first := expand_walk v (p.item i) s h
    have mirrors := walk_mirrors step v (p.item i) h
    rw [Json.walkItems]
    cases hw : v.walk handler (p.item i) s with
    | mk w error? s' =>
      rw [hw] at first mirrors
      cases error? with
      | some e =>
        dsimp only at first ⊢
        rw [expandItems, expandItems, first]
      | none =>
        have done := mirrors.result (by simp)
        dsimp only [Walked.map] at first ⊢
        rw [expandItems, expandItems, first, ← done]
        dsimp only
        rw [expandItems_walk more p (i + 1) s' mirrors.faithful]

theorem expandMembers_walk : ∀ (ms : List (String × Json)) (p : Pointer) (s : Session),
    s.Faithful evaluators stack →
      expandMembers evaluators stack (Json.walkMembers handler ms p s).value p =
        expandMembers evaluators stack ms p
  | [], _, _, _ => rfl
  | (k, v) :: more, p, s, h => by
    have first := expand_walk v (p.child k) s h
    have mirrors := walk_mirrors step v (p.child k) h
    rw [Json.walkMembers]
    cases hw : v.walk handler (p.child k) s with
    | mk w error? s' =>
      rw [hw] at first mirrors
      cases error? with
      | some e =>
        dsimp only at first ⊢
        rw [expandMembers, expandMembers, first]
      | none =>
        have done := mirrors.result (by simp)
        dsimp only [Walked.map] at first ⊢
        rw [expandMembers, expandMembers, first, ← done]
        dsimp only
        rw [expandMembers_walk more p s' mirrors.faithful]

end

end

end Resolver

/-! ## The next call -/

namespace Session

variable {evaluators : Members} {s : Session}

/-- Whatever ends a call, what it leaves in place expands as before. -/
theorem expand_call (c : Call) (h : s.Faithful evaluators []) :
    Resolver.expand evaluators [] (s.call evaluators c).value c.path =
      Resolver.expand evaluators [] c.value c.path :=
  Resolver.expand_walk Resolver.marker_answers c.value c.path _ (h.of_resolved_eq rfl)

/-- Takes up what a call left in place at a pointer, under another limit. -/
def resume (evaluators : Members) (w : Walked Session Json) (p : Pointer) (limit : Nat) :
    Walked Session Json :=
  w.state.call evaluators ⟨some limit, w.value, p⟩

/-- Large limits do not end what is taken up. -/
theorem resume_eventually (w : Walked Session Json) (p : Pointer) : ∃ enough, ∀ limit,
    enough ≤ limit → ∀ e ∈ (resume evaluators w p limit).error?, e.isLimit = false := by
  have metered : Metered (fun s => (s.resolve evaluators w.value p).attempt) w.state :=
    walk_metered (fun name q _ => Resolver.marker_metered [] name q) w.value p
  obtain ⟨enough, calm⟩ := metered.eventually
  refine ⟨enough, fun limit le e he => Bool.eq_false_iff.2 fun stop => calm limit le ⟨e, ?_, stop⟩⟩
  have ended : ((w.state.withLimit limit).resolve evaluators w.value p).error? = some e := he
  rw [Walked.attempt, ended]

/-- A call that failed, after any calls before it, is resumed by a call on what it left in place,
under a limit that does not end this one; and large limits do not. If the value expands, it was the
limit that ended the call, what is left expands to the same, and the second call leaves just that in
place. Any other fault is met again, and nothing more is replaced. -/
theorem call_resumes (evaluators : Members) (limit : Nat) (history : List Call) (c : Call)
    {first : Walked Session Json} {e : ReferenceError}
    (made : (after evaluators { limit } history).call evaluators c = first)
    (failed : first.error? = some e) :
    (∀ w, Resolver.expand evaluators [] c.value c.path = ⟨w, none⟩ →
      e.isLimit = true ∧ Resolver.expand evaluators [] first.value c.path = ⟨w, none⟩ ∧
      ∀ limit', (∀ e' ∈ (resume evaluators first c.path limit').error?, e'.isLimit = false) →
        (resume evaluators first c.path limit').error? = none ∧
        (resume evaluators first c.path limit').value = w) ∧
    (e.isLimit = false →
      ∀ limit', (∀ e' ∈ (resume evaluators first c.path limit').error?, e'.isLimit = false) →
        (resume evaluators first c.path limit').error? = some e ∧
        (resume evaluators first c.path limit').value = first.value) ∧
    ∃ enough, ∀ limit', enough ≤ limit' →
      ∀ e' ∈ (resume evaluators first c.path limit').error?, e'.isLimit = false := by
  have faithful : (after evaluators { limit } history).Faithful evaluators [] :=
    after_faithful history (faithful_fresh limit)
  have mirrors := call_mirrors c faithful
  have left := expand_call c faithful
  rw [made] at mirrors left
  have plainly : e.isLimit = false →
      Resolver.expand evaluators [] c.value c.path = ⟨first.value, some e⟩ := by
    intro other
    rw [← mirrors.result (by simpa [failed] using other), failed]
  -- a second call that the limit does not end comes to what the value expanded to at first
  have again : ∀ limit', (∀ e' ∈ (resume evaluators first c.path limit').error?,
      e'.isLimit = false) → ∀ x, Resolver.expand evaluators [] c.value c.path = x →
        (resume evaluators first c.path limit').error? = x.error? ∧
        (resume evaluators first c.path limit').value = x.value := by
    rintro limit' within _ rfl
    have same := (call_mirrors ⟨some limit', first.value, c.path⟩ mirrors.faithful).result within
    rw [← left, ← same]
    exact ⟨rfl, rfl⟩
  refine ⟨fun w expands => ⟨?_, left.trans expands, fun limit' within => ?_⟩, ?_,
    resume_eventually first c.path⟩
  · cases limited : e.isLimit with
    | true => rfl
    | false =>
      have other := (plainly limited).symm.trans expands
      cases other
  · exact again limit' within _ expands
  · intro other limit' within
    exact again limit' within _ (plainly other)

/-- A call that runs into its limit inside `a`, when `b` was replaced. -/
def limitedCall : Call := ⟨some 4, .arr [Json.marker "b", Json.marker "a"], "/x"⟩

/-- A call that meets an unknown name when `a` was replaced. -/
def danglingCall : Call := ⟨some 99, .arr [Json.marker "a", Json.marker "e"], "/x"⟩

/-- Under a larger limit the first call is brought to its end; the second one fails again. -/
theorem sampleSession_resumes :
    ((sampleSession.call sampleEvaluators limitedCall).error?.isSome = true ∧
      (resume sampleEvaluators (sampleSession.call sampleEvaluators limitedCall) "/x" 99).error? =
        none ∧
      (resume sampleEvaluators (sampleSession.call sampleEvaluators limitedCall) "/x" 99).value =
        (Resolver.expand sampleEvaluators [] limitedCall.value "/x").value) ∧
    ∃ e, (sampleSession.call sampleEvaluators danglingCall).error? = some e ∧ e.isLimit = false ∧
      (resume sampleEvaluators (sampleSession.call sampleEvaluators danglingCall) "/x" 99).error? =
        some e := by
  constructor
  · have failed : (sampleSession.call sampleEvaluators limitedCall).error?.isSome = true := by
      decide +kernel
    -- a fresh session with room enough tells what the value expands to
    have done : (resolve sampleEvaluators { limit := 99 } limitedCall.value "/x").error?.isNone =
        true := by
      decide +kernel
    have expands : (Resolver.expand sampleEvaluators [] limitedCall.value "/x").error? = none := by
      rw [Option.isNone_iff_eq_none] at done
      have plainly := Resolver.resolve_mirrors limitedCall.value "/x"
        (@faithful_fresh sampleEvaluators 99)
      rw [← plainly.result (by simp [done]), done]
    have within : ∀ e ∈ (resume sampleEvaluators (sampleSession.call sampleEvaluators limitedCall)
        "/x" 99).error?, e.isLimit = false := by
      decide +kernel
    obtain ⟨e, he⟩ := Option.isSome_iff_exists.1 failed
    have resumes := call_resumes sampleEvaluators 1 _ limitedCall rfl he
    refine ⟨failed, (resumes.1 _ ?_).2.2 99 within⟩
    rw [← expands]
    rfl
  · have failed : (sampleSession.call sampleEvaluators danglingCall).error?.isSome = true := by
      decide +kernel
    have other : ∀ e ∈ (sampleSession.call sampleEvaluators danglingCall).error?,
        e.isLimit = false := by
      decide +kernel
    have within : ∀ e ∈ (resume sampleEvaluators (sampleSession.call sampleEvaluators danglingCall)
        "/x" 99).error?, e.isLimit = false := by
      decide +kernel
    obtain ⟨e, he⟩ := Option.isSome_iff_exists.1 failed
    have resumes := call_resumes sampleEvaluators 1 _ danglingCall rfl he
    exact ⟨e, he, other e he, (resumes.2.1 (other e he) 99 within).1⟩

end Session

end FeatureFlags
