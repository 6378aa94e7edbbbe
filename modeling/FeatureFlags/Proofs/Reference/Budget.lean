import FeatureFlags.Proofs.Reference.Attempt

/-!
# The limit only stops a session

A step of a session is metered if its limit shows in nothing but where it stops: the count of
values copied in only grows, and a step that is not stopped goes the same way under any limit that
its final count does not exceed (`Metered.relimit`). Under a large enough limit no step is stopped
(`Metered.settles`). Steps that are metered are so one after the other (`Metered.andThen`), which
carries this from one charge to a marker and from there to whole values.
-/

namespace FeatureFlags

/-- Errors of which some are about the limit. -/
class HasLimit (ε : Type) where
  isLimit : ε → Bool

instance : HasLimit ReferenceError := ⟨ReferenceError.isLimit⟩

variable {ε δ α β : Type}

/-- An error about the limit. -/
def AtLimit [HasLimit ε] (x : Except ε α) : Prop := ∃ e, x = .error e ∧ HasLimit.isLimit e = true

section

variable [HasLimit ε] {x : Except ε α}

@[simp]
theorem not_atLimit_ok {a : α} : ¬ AtLimit (.ok a : Except ε α) := by
  rintro ⟨_, same, -⟩
  cases same

@[simp]
theorem atLimit_error {e : ε} : AtLimit (.error e : Except ε α) ↔ HasLimit.isLimit e = true := by
  simp [AtLimit]

@[simp]
theorem atLimit_map {f : α → β} : AtLimit (x.map f) ↔ AtLimit x := by
  cases x with
  | error e => exact atLimit_error.trans atLimit_error.symm
  | ok a => exact iff_of_false not_atLimit_ok not_atLimit_ok

instance (x : Except ε α) : Decidable (AtLimit x) :=
  match x with
  | .ok _ => isFalse not_atLimit_ok
  | .error _ => decidable_of_iff _ atLimit_error.symm

theorem atLimit_bind {f : α → Except ε β} :
    AtLimit (x.bind f) ↔ AtLimit x ∨ ∃ a, x = .ok a ∧ AtLimit (f a) := by
  cases x with
  | error e => simp [Except.bind]
  | ok a => simp [Except.bind]

end

namespace Attempt

/-- The limit ended the step. -/
def Stopped [HasLimit ε] (r : Attempt ε α) : Prop := AtLimit r.1

theorem not_stopped_ok [HasLimit ε] {a : α} {s : Session} :
    ¬ Stopped ((.ok a, s) : Attempt ε α) := not_atLimit_ok

theorem not_stopped_of_eq_ok [HasLimit ε] {r : Attempt ε α} {a : α} (h : r.1 = .ok a) :
    ¬ r.Stopped := by
  rw [Stopped, h]
  exact not_atLimit_ok

theorem stopped_error [HasLimit ε] {e : ε} {s : Session} :
    Stopped ((.error e, s) : Attempt ε α) ↔ HasLimit.isLimit e = true := atLimit_error

theorem stopped_mapError [HasLimit ε] [HasLimit δ] {f : ε → δ}
    (same : ∀ e, HasLimit.isLimit (f e) = HasLimit.isLimit e) (r : Attempt ε α) :
    (r.mapError f).Stopped ↔ r.Stopped := by
  obtain ⟨e | a, s⟩ := r
  · exact stopped_error.trans (by rw [same, stopped_error])
  · exact iff_of_false not_stopped_ok not_stopped_ok

end Attempt

variable [HasLimit ε] [HasLimit δ]

/-- The same session under another limit. -/
def Session.withLimit (s : Session) (limit : Nat) : Session := { s with limit }

@[simp]
theorem Session.withLimit_expandedNodes (s : Session) (limit : Nat) :
    (s.withLimit limit).expandedNodes = s.expandedNodes := rfl

@[simp]
theorem Session.withLimit_withLimit (s : Session) (limit limit' : Nat) :
    (s.withLimit limit).withLimit limit' = s.withLimit limit' := rfl

/-- From the session on, whatever its limit, the step counts what it copies, and the limit does
nothing but stop it. -/
structure Metered (run : Session → Attempt ε α) (s : Session) : Prop where
  grows : ∀ limit, s.expandedNodes ≤ (run (s.withLimit limit)).2.expandedNodes
  keeps : ∀ limit, (run (s.withLimit limit)).2.limit = limit
  within : ∀ limit, s.expandedNodes ≤ limit → ¬ Attempt.Stopped (run (s.withLimit limit)) →
    (run (s.withLimit limit)).2.expandedNodes ≤ limit
  relimit : ∀ limit limit', ¬ Attempt.Stopped (run (s.withLimit limit)) →
    (run (s.withLimit limit)).2.expandedNodes ≤ limit' → run (s.withLimit limit') =
      ((run (s.withLimit limit)).1, (run (s.withLimit limit)).2.withLimit limit')
  settles : ∃ limit, s.expandedNodes ≤ limit ∧ ¬ Attempt.Stopped (run (s.withLimit limit))

namespace Metered

variable {run run' : Session → Attempt ε α} {s : Session}

theorem congr (h : Metered run s)
    (same : ∀ limit, run' (s.withLimit limit) = run (s.withLimit limit)) : Metered run' s := by
  obtain ⟨grows, keeps, within, relimit, settles⟩ := h
  refine ⟨?_, ?_, ?_, ?_, ?_⟩
  all_goals
    simp only [same]
    assumption

/-- An error that is not about the limit. -/
theorem fault {e : ε} (other : HasLimit.isLimit e = false) :
    Metered (fun s => ((.error e, s) : Attempt ε α)) s := by
  refine ⟨fun _ => Nat.le_refl _, fun _ => rfl, fun _ le _ => le, fun _ _ _ _ => rfl,
    s.expandedNodes, Nat.le_refl _, ?_⟩
  rintro ⟨_, same, limit⟩
  cases same
  rw [other] at limit
  cases limit

/-- A result, with a change of the session that has nothing to do with the limit. -/
theorem done {a : α} {change : Session → Session}
    (counts : ∀ s, (change s).expandedNodes = s.expandedNodes)
    (apart : ∀ limit, change (s.withLimit limit) = (change s).withLimit limit) :
    Metered (fun s => ((.ok a, change s) : Attempt ε α)) s := by
  refine ⟨fun _ => ?_, fun _ => ?_, fun _ le _ => ?_, fun _ _ _ _ => ?_, s.expandedNodes,
    Nat.le_refl _, Attempt.not_stopped_ok⟩
  · simp [counts]
  · exact congrArg Session.limit (apart _)
  · simpa [counts] using le
  · simp [apart]

/-- An outcome that is not about the limit and leaves the session alone. -/
theorem outcome {x : Except ε α} (other : ¬ AtLimit x) :
    Metered (fun s => ((x, s) : Attempt ε α)) s := by
  cases x with
  | error e => exact fault (Bool.not_eq_true _ ▸ fun limit => other ⟨e, rfl, limit⟩)
  | ok a => exact done (fun _ => rfl) fun _ => rfl

theorem charge (nodes : Nat) (name : String) (p : Pointer) :
    Metered (fun s => s.charge nodes name p) s := by
  have counted : ∀ limit, ((s.withLimit limit).charge nodes name p).2.expandedNodes =
      s.expandedNodes + nodes := by
    intro limit
    simp only [Session.charge]
    split <;> rfl
  have calm : ∀ limit, ¬ Attempt.Stopped ((s.withLimit limit).charge nodes name p) →
      s.expandedNodes + nodes ≤ limit := by
    intro limit h
    refine Nat.not_lt.1 fun exceeded => h ⟨.tooLarge name limit p, ?_, rfl⟩
    simp [Session.charge, Session.withLimit, exceeded]
  have passes : ∀ limit, s.expandedNodes + nodes ≤ limit →
      (s.withLimit limit).charge nodes name p =
        (.ok (), { s.withLimit limit with expandedNodes := s.expandedNodes + nodes }) := by
    intro limit le
    simp [Session.charge, Session.withLimit, Nat.not_lt.2 le]
  refine ⟨?_, ?_, ?_, ?_, s.expandedNodes + nodes, Nat.le_add_right _ _, ?_⟩
  · intro limit
    rw [counted]
    exact Nat.le_add_right _ _
  · intro limit
    simp only [Session.charge]
    split <;> rfl
  · intro limit _ h
    rw [counted]
    exact calm limit h
  · intro limit limit' h le
    rw [counted] at le
    rw [passes limit (calm limit h), passes limit' le]
    rfl
  · rw [passes _ (Nat.le_refl _)]
    exact Attempt.not_stopped_ok

/-- Metered steps one after the other. -/
theorem andThen {next : α → Session → Attempt ε β} (first : Metered run s)
    (rest : ∀ a s', Metered (next a) s') : Metered (fun s => (run s).andThen next) s := by
  -- under any limit the first step fails, or the second starts where it ends
  have ends : ∀ limit,
      (∃ e, ∃ s' : Session, run (s.withLimit limit) = (.error e, s') ∧
        (run (s.withLimit limit)).andThen next = (.error e, s')) ∨
      ∃ a, ∃ s' : Session, run (s.withLimit limit) = (.ok a, s'.withLimit limit) ∧
        (run (s.withLimit limit)).andThen next = next a (s'.withLimit limit) := by
    intro limit
    have kept := first.keeps limit
    cases hr : run (s.withLimit limit) with
    | mk answer s' =>
      rw [hr] at kept
      cases answer with
      | error e => exact .inl ⟨e, s', rfl, rfl⟩
      | ok a =>
        have same : s'.withLimit limit = s' := by rw [← kept]; rfl
        exact .inr ⟨a, s', by rw [same], by rw [same]; rfl⟩
  refine ⟨?_, ?_, ?_, ?_, ?_⟩
  · intro limit
    have grows := first.grows limit
    rcases ends limit with ⟨e, s', hr, both⟩ | ⟨a, s', hr, both⟩
    · rw [both]
      rwa [hr] at grows
    · rw [both]
      rw [hr] at grows
      exact Nat.le_trans grows ((rest a s').grows limit)
  · intro limit
    rcases ends limit with ⟨e, s', hr, both⟩ | ⟨a, s', hr, both⟩
    · have kept := first.keeps limit
      rw [both]
      rwa [hr] at kept
    · rw [both]
      exact (rest a s').keeps limit
  · intro limit le calm
    have within := first.within limit le
    rcases ends limit with ⟨e, s', hr, both⟩ | ⟨a, s', hr, both⟩
    · rw [both, Attempt.stopped_error] at calm
      rw [hr, Attempt.stopped_error] at within
      rw [both]
      exact within calm
    · rw [both] at calm ⊢
      rw [hr] at within
      exact (rest a s').within limit (within Attempt.not_stopped_ok) calm
  · intro limit limit' calm le
    have relimit := first.relimit limit limit'
    rcases ends limit with ⟨e, s', hr, both⟩ | ⟨a, s', hr, both⟩
    · rw [both] at calm le ⊢
      rw [Attempt.stopped_error] at calm
      rw [hr, Attempt.stopped_error] at relimit
      rw [relimit calm le]
      rfl
    · rw [both] at calm le ⊢
      rw [hr] at relimit
      -- the count at the end of the first step is below that at the end of both
      have enough := Nat.le_trans ((rest a s').grows limit) le
      rw [relimit Attempt.not_stopped_ok enough]
      exact (rest a s').relimit limit limit' calm le
  · obtain ⟨least, le, calm⟩ := first.settles
    have within := first.within least le calm
    rcases ends least with ⟨e, s', hr, both⟩ | ⟨a, s', hr, both⟩
    · refine ⟨least, le, ?_⟩
      rw [both, Attempt.stopped_error]
      rwa [hr, Attempt.stopped_error] at calm
    · rw [hr] at within
      obtain ⟨least', le', calm'⟩ := (rest a s').settles
      have within' := (rest a s').within least' le' calm'
      -- the larger of the two limits stops neither step
      refine ⟨max least least', Nat.le_trans le (Nat.le_max_left _ _), ?_⟩
      have relimit := first.relimit least (max least least') calm
      rw [hr] at relimit
      rw [relimit (Nat.le_trans within (Nat.le_max_left _ _))]
      change ¬ Attempt.Stopped (next a (s'.withLimit (max least least')))
      rw [(rest a s').relimit least' _ calm' (Nat.le_trans within' (Nat.le_max_right _ _))]
      exact calm'

/-- It does not matter how errors are told, as long as those about the limit stay apart. -/
theorem mapError {f : ε → δ} (h : Metered run s)
    (same : ∀ e, HasLimit.isLimit (f e) = HasLimit.isLimit e) :
    Metered (fun s => (run s).mapError f) s := by
  have stopped := fun limit => Attempt.stopped_mapError same (run (s.withLimit limit))
  refine ⟨h.grows, h.keeps, ?_, ?_, ?_⟩
  · intro limit le calm
    exact h.within limit le fun stop => calm ((stopped limit).2 stop)
  · intro limit limit' calm le
    have relimit := h.relimit limit limit' (fun stop => calm ((stopped limit).2 stop)) le
    simp only [Attempt.mapError, relimit]
  · obtain ⟨limit, le, calm⟩ := h.settles
    exact ⟨limit, le, fun stop => calm ((stopped limit).1 stop)⟩

/-- Two limits that do not stop a step do not show in what it comes to. -/
theorem agree (h : Metered run s) {limit limit' : Nat} (le : s.expandedNodes ≤ limit)
    (le' : s.expandedNodes ≤ limit') (calm : ¬ Attempt.Stopped (run (s.withLimit limit)))
    (calm' : ¬ Attempt.Stopped (run (s.withLimit limit'))) :
    (run (s.withLimit limit)).1 = (run (s.withLimit limit')).1 ∧
      (run (s.withLimit limit)).2.expandedNodes = (run (s.withLimit limit')).2.expandedNodes := by
  -- neither stops under the larger of the two
  have larger := h.relimit limit (max limit limit') calm
    (Nat.le_trans (h.within limit le calm) (Nat.le_max_left _ _))
  have larger' := h.relimit limit' (max limit limit') calm'
    (Nat.le_trans (h.within limit' le' calm') (Nat.le_max_right _ _))
  obtain ⟨same, sessions⟩ := Prod.mk.inj (larger.symm.trans larger')
  have counted := congrArg Session.expandedNodes sessions
  exact ⟨same, counted⟩

/-- A step succeeds under a limit exactly if it does under one that does not stop it, with a count
that the limit allows. -/
theorem eq_ok_iff (h : Metered run s) {limit unreached : Nat} {a : α}
    (le : s.expandedNodes ≤ limit) (le' : s.expandedNodes ≤ unreached)
    (calm : ¬ Attempt.Stopped (run (s.withLimit unreached))) :
    (run (s.withLimit limit)).1 = .ok a ↔ (run (s.withLimit unreached)).1 = .ok a ∧
      (run (s.withLimit unreached)).2.expandedNodes ≤ limit := by
  constructor
  · intro ok
    have calm' := Attempt.not_stopped_of_eq_ok ok
    obtain ⟨same, counted⟩ := h.agree le le' calm' calm
    exact ⟨same ▸ ok, counted ▸ h.within limit le calm'⟩
  · rintro ⟨ok, enough⟩
    rw [h.relimit unreached limit calm enough]
    exact ok

/-- Large limits do not stop a step. -/
theorem eventually (h : Metered run s) : ∃ enough, ∀ limit, enough ≤ limit →
    ¬ Attempt.Stopped (run (s.withLimit limit)) := by
  obtain ⟨enough, le, calm⟩ := h.settles
  refine ⟨enough, fun limit more => ?_⟩
  rw [Attempt.Stopped, h.relimit enough limit calm (Nat.le_trans (h.within enough le calm) more)]
  exact calm

end Metered

/-! ## Markers and values -/

variable {handler : Handler Session} {s : Session}

theorem serve_metered (step : ∀ name p s, Metered (handler name p) s) (xs : List Site) :
    Metered (fun s => (serve handler xs s).attempt) s := by
  induction xs generalizing s with
  | nil => exact Metered.done (fun _ => rfl) fun _ => rfl
  | cons site more ih =>
    have first : Metered (site.answer handler) s := by
      unfold Site.answer
      cases site.name? with
      | error fault => exact Metered.fault rfl
      | ok name => exact step name site.path s
    have rest : ∀ (v : Json) s', Metered (fun s => (serve handler more s).attempt.andThen
        fun vs s => ((.ok (v :: vs), s) : Attempt ReferenceError (List Json))) s' :=
      fun _ _ => ih.andThen fun _ _ => Metered.done (fun _ => rfl) fun _ => rfl
    exact (first.andThen rest).congr fun limit => attempt_serve_cons site more _

theorem walk_metered (step : ∀ name p s, Metered (handler name p) s) (v : Json) (p : Pointer) :
    Metered (fun s => (v.walk handler p s).attempt) s := by
  simp only [attempt_walk]
  exact (serve_metered step (v.sites p)).andThen fun _ _ => Metered.done (fun _ => rfl) fun _ => rfl

namespace Session

theorem reuse_metered (f : Fragment) (name : String) (p : Pointer) :
    Metered (fun s => s.reuse f name p) s := by
  simp only [reuse_eq]
  exact (Metered.charge _ _ _).andThen fun _ _ => Metered.done (fun _ => rfl) fun _ => rfl

theorem store_metered (before : Session) (v : Json) (name : String) (p : Pointer) :
    Metered (fun s => before.store s v name p) s := by
  simp only [store_eq]
  exact (Metered.charge _ _ _).andThen fun _ _ => Metered.done (fun _ => rfl) fun _ => rfl

theorem countMarker_metered {run : Session → Attempt ReferenceError Json} (h : Metered run s) :
    Metered (fun s => countMarker (run s)) s := by
  simp only [countMarker_eq]
  exact h.andThen fun _ _ => Metered.done (fun _ => rfl) fun _ => rfl

end Session

namespace Resolver

variable {evaluators : Members}

theorem fragment_metered (stack : List String) (name : String) (p : Pointer) :
    Metered (fragment evaluators stack name p) s := by
  induction hn : free evaluators stack using Nat.strongRecOn generalizing stack name p s with
  | ind n ih =>
    -- which way a marker goes depends on what is remembered, and not on the limit
    have opened := fun limit => fragment_eq_attempt evaluators stack name p (s.withLimit limit)
    cases hf : s.fragment? name with
    | some f =>
      refine (Session.reuse_metered f name p).congr fun limit => ?_
      rw [opened, show (s.withLimit limit).fragment? name = some f from hf]
    | none =>
      have forgotten : ∀ limit, (s.withLimit limit).fragment? name = none := fun _ => hf
      cases known : evaluators.get? name with
      | none =>
        refine (Metered.fault (e := .unresolved name p) rfl).congr fun limit => ?_
        rw [opened, forgotten, known]
      | some raw =>
        by_cases on_stack : name ∈ stack
        · refine (Metered.fault (e := .circular (name :: stack).reverse) rfl).congr fun limit => ?_
          rw [opened, forgotten, known]
          exact if_pos on_stack
        · have fewer := free_cons_lt known on_stack
          have walked : Metered (fun s => (raw.walk (marker evaluators (name :: stack))
              (evaluatorPointer name) s).attempt) s :=
            walk_metered (fun inner q s' => Session.countMarker_metered
              (ih _ (hn ▸ fewer) (name :: stack) inner q rfl)) raw (evaluatorPointer name)
          refine (walked.andThen fun v _ => Session.store_metered s v name p).congr fun limit => ?_
          rw [opened, forgotten, known]
          exact if_neg on_stack

theorem marker_metered (stack : List String) (name : String) (p : Pointer) :
    Metered (marker evaluators stack name p) s :=
  Session.countMarker_metered (fragment_metered stack name p)

end Resolver

end FeatureFlags
