import FeatureFlags.Proofs.Json.Members
import FeatureFlags.Proofs.Reference.Steps
import Mathlib.Data.List.Perm.Subperm
import Mathlib.Tactic.Tauto

/-!
# Evaluators nest, and each is entered once

`Move` says once what a step does to the evaluators in progress: it leaves them as they are, puts one
more on top, or takes the top one away, which is remembered then unless there was a fault.
`Nested` holds at the start and is kept by every move, so it holds throughout a resolution: the
evaluators in progress are those of the frames, each once, and every evaluator that was entered is
still in progress or remembered, so that it is not entered again. There are only so many evaluators,
so the resolution of any value ends, at a depth that they bound (`resolve_terminates`).
-/

namespace FeatureFlags

namespace Resolution

variable {evaluators : Members} {r r' : Resolution}

/-! ## What a step does -/

@[simp]
theorem deliver_inProgress (r : Resolution) (answer : Except ReferenceError Json × Session) :
    (r.deliver answer).inProgress = r.inProgress := by
  obtain ⟨e | v, s⟩ := answer <;> rfl

@[simp]
theorem deliver_entered (r : Resolution) (answer : Except ReferenceError Json × Session) :
    (r.deliver answer).entered = r.entered := by
  obtain ⟨e | v, s⟩ := answer <;> rfl

@[simp]
theorem deliver_frames (r : Resolution) (answer : Except ReferenceError Json × Session) :
    (r.deliver answer).frames = r.frames := by
  obtain ⟨e | v, s⟩ := answer <;> rfl

@[simp]
theorem deliver_resolved (r : Resolution) (answer : Except ReferenceError Json × Session) :
    (r.deliver answer).session.resolved = answer.2.resolved := by
  obtain ⟨e | v, s⟩ := answer <;> rfl

/-- What a step does to the evaluators in progress; it does more than leave one only if there was no
fault before. -/
inductive Move (evaluators : Members) (r r' : Resolution) : Prop
  | stay : r.fault? = none → r'.inProgress = r.inProgress → r'.frames = r.frames →
      r'.entered = r.entered → r'.session.resolved = r.session.resolved → Move evaluators r r'
  | enter {name : String} {raw : Json} {frame : Frame} : r.fault? = none →
      evaluators.get? name = some raw → ¬ r.session.Remembers name → name ∉ r.inProgress →
      frame.name = name → r'.inProgress = name :: r.inProgress → r'.frames = frame :: r.frames →
      r'.entered = r.entered ++ [name] → r'.session.resolved = r.session.resolved →
      Move evaluators r r'
  | leave {frame : Frame} : r.frames = frame :: r'.frames → r'.inProgress = r.inProgress.tail →
      r'.entered = r.entered → (r'.fault? = none → r.fault? = none ∧
        ∃ f, r'.session.resolved = r.session.resolved ++ [(frame.name, f)]) →
      Move evaluators r r'

theorem take_move (evaluators : Members) (fine : r.fault? = none) (walk : Walk) (site : Site) :
    Move evaluators r (take evaluators { r with walk } site) := by
  unfold take
  cases site.name? with
  | error fault => exact .stay fine (by simp) (by simp) (by simp) (by simp)
  | ok name =>
    dsimp only
    cases hf : r.session.fragment? name with
    | some f =>
      dsimp only
      obtain ⟨s, same, h | h⟩ := r.session.reuse_cases f name site.path
      all_goals
        rw [h]
        exact .stay fine (by simp) (by simp) (by simp) (by simp [same])
    | none =>
      dsimp only
      cases known : evaluators.get? name with
      | none => exact .stay fine (by simp) (by simp) (by simp) (by simp)
      | some raw =>
        dsimp only
        by_cases on : name ∈ r.inProgress
        · rw [if_pos on]
          exact .stay fine (by simp) (by simp) (by simp) (by simp)
        · rw [if_neg on]
          exact .enter fine known (Session.not_remembers hf) on rfl rfl rfl rfl rfl

theorem step_move (h : step evaluators r = some r') : Move evaluators r r' := by
  unfold step at h
  split at h
  next site more fine todo =>
    cases h
    exact take_move evaluators fine _ site
  next frame rest fine todo frames =>
    cases h
    refine @Move.leave _ _ _ frame (by simp [leave, frames]) (by simp [leave]) (by simp [leave]) ?_
    obtain ⟨s, f, grown, -, stored⟩ | ⟨s, -, stored⟩ :=
      Session.store_cases frame.before r.session r.walk.result frame.name frame.path
    · rw [stored]
      exact fun _ => ⟨fine, f, by simp [grown]⟩
    · rw [stored]
      intro fine'
      cases fine'
  next e frame rest fault frames =>
    cases h
    refine @Move.leave _ _ _ frame frames rfl rfl fun fine => ?_
    simp [leave, fault] at fine
  next => cases h

/-! ## What holds throughout -/

/-- What holds of the evaluators in progress at every moment of a resolution. -/
structure Nested (evaluators : Members) (r : Resolution) : Prop where
  frames : r.frames.map (·.name) = r.inProgress
  distinct : r.inProgress.Nodup
  known : ∀ name ∈ r.inProgress, evaluators.has name = true
  once : r.entered.Nodup
  accounted : r.fault? = none →
    ∀ name ∈ r.entered, name ∈ r.inProgress ∨ r.session.Remembers name

theorem nested_start (evaluators : Members) (s : Session) (v : Json) (path : Pointer) :
    Nested evaluators (start s [] v path) where
  frames := rfl
  distinct := List.nodup_nil
  known := by simp [start]
  once := List.nodup_nil
  accounted := by simp [start]

theorem Nested.move (h : r.Nested evaluators) (move : Move evaluators r r') :
    r'.Nested evaluators := by
  cases move with
  | stay fine inProgress frames entered resolved =>
    refine ⟨?_, ?_, ?_, ?_, fun _ => ?_⟩
    · rw [frames, inProgress, h.frames]
    · exact inProgress ▸ h.distinct
    · exact inProgress ▸ h.known
    · exact entered ▸ h.once
    · simpa only [inProgress, entered, Session.remembers_congr resolved] using h.accounted fine
  | @enter name raw frame fine known fresh new named inProgress frames entered resolved =>
    have unseen : name ∉ r.entered := by
      intro seen
      exact (h.accounted fine name seen).elim new fresh
    refine ⟨?_, ?_, ?_, ?_, fun _ => ?_⟩
    · rw [frames, inProgress, List.map_cons, named, h.frames]
    · exact inProgress ▸ List.nodup_cons.2 ⟨new, h.distinct⟩
    · rw [inProgress, List.forall_mem_cons]
      exact ⟨Members.has_iff.2 ⟨raw, known⟩, h.known⟩
    · rw [entered, List.nodup_append]
      refine ⟨h.once, by simp, fun other seen _ last => ?_⟩
      rw [List.mem_singleton.1 last]
      rintro rfl
      exact unseen seen
    · intro other seen
      rw [entered, List.mem_append, List.mem_singleton] at seen
      rw [inProgress, Session.remembers_congr resolved, List.mem_cons]
      rcases seen with seen | rfl
      · exact (h.accounted fine other seen).imp_left .inr
      · exact .inl (.inl rfl)
  | @leave frame frames inProgress entered remembered =>
    have top : r.inProgress = frame.name :: r'.inProgress := by
      rw [inProgress, ← h.frames, frames]
      rfl
    have distinct := h.distinct
    have known := h.known
    rw [top] at distinct known
    refine ⟨?_, distinct.of_cons, fun name hn => known name (.tail _ hn), entered ▸ h.once, ?_⟩
    · rw [inProgress, ← h.frames, frames]
      rfl
    · intro fine name seen
      obtain ⟨before, f, grown⟩ := remembered fine
      rw [entered] at seen
      have place := h.accounted before name seen
      rw [top, List.mem_cons] at place
      -- the evaluator on top is the one that is remembered now
      rw [Session.remembers_append grown]
      tauto

theorem Nested.steps (h : r.Nested evaluators) (run : Steps evaluators r r') :
    r'.Nested evaluators := by
  induction run with
  | refl => exact h
  | tail _ next ih => exact ih.move (step_move next)

/-- There are no more evaluators in progress than there are evaluators. -/
theorem Nested.depth_le (h : r.Nested evaluators) : r.frames.length ≤ evaluators.length := by
  have within : r.inProgress ⊆ evaluators.keys :=
    fun name hn => Members.has_iff_mem_keys.1 (h.known name hn)
  have le := (List.subperm_of_subset h.distinct within).length_le
  rwa [← h.frames, List.length_map, Members.keys, List.length_map] at le

end Resolution

/-- Whatever the evaluators and the session are, resolving a value takes so many steps and no more,
and they end in what `resolve` comes to. All the way the evaluators in progress are different ones,
one for each frame, so that there are never more frames than evaluators; none is in progress at the
end, and none is entered twice. -/
theorem Session.resolve_terminates (evaluators : Members) (s : Session) (v : Json)
    (path : Pointer) : ∃ final : Resolution,
      Resolution.Steps evaluators (.start s [] v path) final ∧
      final.step evaluators = none ∧ final.outcome = s.resolve evaluators v path ∧
      final.inProgress = [] ∧
      ∀ r : Resolution, Resolution.Steps evaluators (.start s [] v path) r →
        Resolution.Steps evaluators r final ∧ r.inProgress.Nodup ∧
        (∀ name ∈ r.inProgress, evaluators.has name = true) ∧
        r.frames.map (·.name) = r.inProgress ∧ r.frames.length ≤ evaluators.length ∧
        r.entered.Nodup := by
  obtain ⟨final, run, halted, emptied, outcome⟩ := Resolution.resolve_steps evaluators s v path
  refine ⟨final, run, halted, outcome, emptied, fun r reached => ?_⟩
  have nested := (Resolution.nested_start evaluators s v path).steps reached
  exact ⟨reached.to_final run halted, nested.distinct, nested.known, nested.frames,
    nested.depth_le, nested.once⟩

end FeatureFlags
