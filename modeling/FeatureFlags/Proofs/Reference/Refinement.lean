import FeatureFlags.Proofs.Reference.Memory

/-!
# Resolution refines plain expansion

What is said of the answer to a marker goes by `fragment_induct`, an induction on the names that are
not being resolved yet. `fragment_answers` says by it what a marker comes to; `serve_mirrors` carries
it along the markers of a value and `walk_mirrors` to the value. Each says the same of its step: the
session stays faithful and forgets nothing, whatever ends it, and what comes out is what plain
expansion makes, unless the limit ends it. `call_after_eq_expand` is then an induction over the calls
made before.
-/

namespace FeatureFlags

namespace Resolver

variable {evaluators : Members} {stack : List String} {s : Session}

/-- What a step with a faithful session comes to, where plain expansion comes to `plainly`: on
success all of the names are remembered. -/
structure Mirrors {α : Type} (evaluators : Members) (stack : List String) (s : Session)
    (names : String → Prop) (plainly : Expansion α) (w : Walked Session α) : Prop where
  faithful : w.state.Faithful evaluators stack
  kept : ∀ name, s.Remembers name → w.state.Remembers name
  remembered : w.error? = none → ∀ name, names name → w.state.Remembers name
  result : (∀ e ∈ w.error?, e.isLimit = false) → ⟨w.value, w.error?⟩ = plainly

/-- The same of the answer to a marker. -/
structure Answers (evaluators : Members) (stack : List String) (s : Session) (name : String)
    (p : Pointer) (r : Except ReferenceError Json × Session) : Prop where
  faithful : r.2.Faithful evaluators stack
  kept : ∀ other, s.Remembers other → r.2.Remembers other
  remembered : ∀ v, r.1 = .ok v → r.2.Remembers name
  result : (∀ e, r.1 = .error e → e.isLimit = false) → r.1 = copy evaluators stack name p

/-! ## From one marker to a value -/

/-- What plain expansion makes of a list of markers. -/
def servePlainly (evaluators : Members) (stack : List String) (xs : List Site) :
    Expansion (List Json) :=
  let w := serve (plain evaluators stack) xs ()
  ⟨w.value, w.error?⟩

theorem serve_mirrors {handler : Handler Session}
    (step : ∀ name p s, s.Faithful evaluators stack →
      Answers evaluators stack s name p (handler name p s))
    (xs : List Site) (h : s.Faithful evaluators stack) :
    Mirrors evaluators stack s (fun name => ∃ site ∈ xs, site.name? = .ok name)
      (servePlainly evaluators stack xs) (serve handler xs s) := by
  induction xs generalizing s with
  | nil => exact ⟨h, fun _ hr => hr, by simp, fun _ => rfl⟩
  | cons site more ih =>
    simp only [servePlainly, serve, Site.answer]
    cases hn : site.name? with
    | error fault => exact ⟨h, fun _ hr => hr, by simp, fun _ => rfl⟩
    | ok name =>
      have one := step name site.path s h
      dsimp only [plain]
      cases hr : handler name site.path s with
      | mk answer s₁ =>
        rw [hr] at one
        cases answer with
        | error e =>
          -- later markers are not asked for, here as there
          refine ⟨one.faithful, one.kept, by simp, fun within => ?_⟩
          have same := one.result fun e' he => by cases he; exact within e rfl
          simp [← same]
        | ok v =>
          have rest := ih one.faithful
          have same := one.result fun e he => by cases he
          refine ⟨rest.faithful, fun n hs => rest.kept n (one.kept n hs), ?_, ?_⟩
          · rintro done n ⟨x, hx, hxn⟩
            rcases List.mem_cons.1 hx with rfl | hx
            · obtain rfl : name = n := Except.ok.inj (hn.symm.trans hxn)
              exact rest.kept name (one.remembered v rfl)
            · exact rest.remembered done n ⟨x, hx, hxn⟩
          · intro within
            have tail := rest.result within
            simp only [servePlainly, Expansion.mk.injEq] at tail
            simp [← same, Walked.map, tail]

theorem walk_mirrors {handler : Handler Session}
    (step : ∀ name p s, s.Faithful evaluators stack →
      Answers evaluators stack s name p (handler name p s))
    (v : Json) (p : Pointer) (h : s.Faithful evaluators stack) :
    Mirrors evaluators stack s v.Mentions (expand evaluators stack v p) (v.walk handler p s) := by
  have all := serve_mirrors step (v.sites p) h
  rw [Json.walk_eq_serve]
  have result : (∀ e ∈ (serve handler (v.sites p) s).error?, e.isLimit = false) →
      ⟨v.fill (serve handler (v.sites p) s).value, (serve handler (v.sites p) s).error?⟩ =
        expand evaluators stack v p := by
    intro within
    have same := all.result within
    simp only [servePlainly, Expansion.mk.injEq] at same
    rw [same.1, same.2, fill_serve_plain, error_serve_plain]
  refine ⟨all.faithful, all.kept, ?_, result⟩
  intro done name m
  have done' : (serve handler (v.sites p) s).error? = none := done
  -- no marker was malformed, so the walk stopped at this one
  have fine : (expand evaluators stack v p).error? = none := by
    rw [← result (by simp [done']), done']
  obtain ⟨site, hs, hn⟩ := Json.exists_site m (Members.isMarker_marker name)
    fun site hs => (expand_done_iff.1 fine site hs).imp fun _ ⟨_, hn, _⟩ => hn
  exact all.remembered done' name ⟨site, hs, hn⟩

/-! ## One marker -/

theorem Answers.count {name : String} {p : Pointer} {r : Except ReferenceError Json × Session}
    (h : Answers evaluators stack s name p r) :
    Answers evaluators stack s name p (Session.countMarker r) := by
  have same := Session.countMarker_resolved r
  refine ⟨h.faithful.of_resolved_eq same, ?_, ?_, ?_⟩
  · intro other hr
    exact (Session.remembers_congr same other).2 (h.kept other hr)
  · intro v hv
    rw [Session.countMarker_fst] at hv
    exact (Session.remembers_congr same name).2 (h.remembered v hv)
  · rw [Session.countMarker_fst]
    exact h.result

theorem reuse_answers {name : String} {f : Fragment} (h : s.Faithful evaluators stack)
    (hf : s.fragment? name = some f) (p : Pointer) :
    Answers evaluators stack s name p (s.reuse f name p) := by
  obtain ⟨s', same, e | e⟩ := s.reuse_cases f name p
  all_goals
    rw [e]
    refine ⟨h.of_resolved_eq same, fun n => (Session.remembers_congr same n).2, ?_, ?_⟩
  · exact fun _ _ => (Session.remembers_congr same name).2 ⟨f, hf⟩
  · exact fun _ => (h.copy_eq hf p).symm
  · intro v hv
    cases hv
  · intro within
    cases within _ rfl

/-- An evaluator that was walked with its name on the stack is remembered, or the step ends with
the fault that the walk or the limit met. -/
theorem store_answers {name : String} {raw : Json} (known : evaluators.get? name = some raw)
    (new : name ∉ stack) (w : Walked Session Json) (p : Pointer) :
    Mirrors evaluators (name :: stack) s raw.Mentions
      (expand evaluators (name :: stack) raw (evaluatorPointer name)) w →
    Answers evaluators stack s name p (match w with
      | ⟨_, some e, after⟩ => (.error e, after)
      | ⟨v, none, after⟩ => s.store after v name p) := by
  intro m
  obtain ⟨v, _ | e, after⟩ := w
  · -- the walk met no fault, so only the charge for the copy can fail
    have hx := m.result (by simp)
    dsimp only at hx ⊢
    rcases s.store_cases after v name p with ⟨s', f, grown, rfl, e⟩ | ⟨s', same, e⟩
    · rw [e]
      have remembers := Session.remembers_append grown
      refine ⟨m.faithful.remember known new hx.symm (m.remembered rfl) grown, ?_, ?_, ?_⟩
      · intro other hr
        exact (remembers other).2 (.inl (m.kept other hr))
      · intro _ _
        exact (remembers name).2 (.inr rfl)
      · intro _
        exact (copy_eq_ok_iff.2 ⟨raw, known, new, hx.symm⟩).symm
    · rw [e]
      -- the evaluator is not remembered, but what it mentions stays so
      refine ⟨m.faithful.pop.of_resolved_eq same, ?_, ?_, ?_⟩
      · intro other hr
        exact (Session.remembers_congr same other).2 (m.kept other hr)
      · intro v' hv
        cases hv
      · intro within
        cases within _ rfl
  · refine ⟨m.faithful.pop, m.kept, ?_, ?_⟩
    · intro v' hv
      cases hv
    · intro within
      have hx := m.result fun e' he => within e' (by cases he; rfl)
      simp [copy, known, new, ← hx]

theorem fragment_eq (evaluators : Members) (stack : List String) (name : String) (p : Pointer)
    (s : Session) : fragment evaluators stack name p s =
      match s.fragment? name with
      | some f => s.reuse f name p
      | none =>
        match evaluators.get? name with
        | none => (.error (.unresolved name p), s)
        | some raw =>
          if name ∈ stack then (.error (.circular (name :: stack).reverse), s)
          else
            match raw.walk (marker evaluators (name :: stack)) (evaluatorPointer name) s with
            | ⟨_, some e, after⟩ => (.error e, after)
            | ⟨v, none, after⟩ => s.store after v name p := by
  rw [fragment]
  cases s.fragment? name with
  | some f => rfl
  | none =>
    dsimp only
    split
    next unknown => rw [unknown]
    next raw known => rw [known]; rfl

/-- What holds of every way a marker may be answered holds of the answer: a fragment is copied again,
the name is unknown or on the stack already, or the evaluator is walked with its name on the stack,
where it holds of the answers to the markers inside. -/
theorem fragment_induct {motive : List String → String → Pointer → Session →
      Except ReferenceError Json × Session → Prop}
    (reuse : ∀ stack name p s f, s.fragment? name = some f →
      motive stack name p s (s.reuse f name p))
    (unresolved : ∀ stack name p s, s.fragment? name = none → evaluators.get? name = none →
      motive stack name p s (.error (.unresolved name p), s))
    (circular : ∀ stack name p s raw, s.fragment? name = none → evaluators.get? name = some raw →
      name ∈ stack → motive stack name p s (.error (.circular (name :: stack).reverse), s))
    (enter : ∀ stack name p s raw, s.fragment? name = none → evaluators.get? name = some raw →
      name ∉ stack →
      (∀ inner q s', motive (name :: stack) inner q s'
        (fragment evaluators (name :: stack) inner q s')) →
      motive stack name p s
        (match raw.walk (marker evaluators (name :: stack)) (evaluatorPointer name) s with
          | ⟨_, some e, after⟩ => (.error e, after)
          | ⟨v, none, after⟩ => s.store after v name p))
    (stack : List String) (name : String) (p : Pointer) (s : Session) :
    motive stack name p s (fragment evaluators stack name p s) := by
  induction hn : free evaluators stack using Nat.strongRecOn generalizing stack name p s with
  | ind n ih =>
    rw [fragment_eq]
    cases hf : s.fragment? name with
    | some f => exact reuse stack name p s f hf
    | none =>
      dsimp only
      cases known : evaluators.get? name with
      | none => exact unresolved stack name p s hf known
      | some raw =>
        dsimp only
        by_cases on_stack : name ∈ stack
        · rw [if_pos on_stack]
          exact circular stack name p s raw hf known on_stack
        · rw [if_neg on_stack]
          -- inside the evaluator one more name is on the stack
          have fewer := free_cons_lt known on_stack
          exact enter stack name p s raw hf known on_stack
            fun inner q s' => ih _ (hn ▸ fewer) (name :: stack) inner q s' rfl

/-- A marker is answered as by plain expansion. -/
theorem fragment_answers (name : String) (p : Pointer) (h : s.Faithful evaluators stack) :
    Answers evaluators stack s name p (fragment evaluators stack name p s) := by
  refine fragment_induct (motive := fun stack name p s r => s.Faithful evaluators stack →
    Answers evaluators stack s name p r) ?_ ?_ ?_ ?_ stack name p s h
  · intro stack name p s f hf h
    exact reuse_answers h hf p
  · intro stack name p s hf known h
    refine ⟨h, fun _ hr => hr, by simp, fun _ => ?_⟩
    simp [copy, known]
  · intro stack name p s raw hf known on_stack h
    refine ⟨h, fun _ hr => hr, by simp, fun _ => ?_⟩
    simp [copy, known, on_stack]
  · intro stack name p s raw hf known new ih h
    have pushed := h.push (Session.not_remembers hf)
    exact store_answers known new _ p
      (walk_mirrors (fun inner q s' h' => (ih inner q s' h').count) raw _ pushed)

theorem marker_answers (name : String) (p : Pointer) (s : Session)
    (h : s.Faithful evaluators stack) :
    Answers evaluators stack s name p (marker evaluators stack name p s) :=
  (fragment_answers name p h).count

theorem resolve_mirrors (v : Json) (p : Pointer) (h : s.Faithful evaluators []) :
    Mirrors evaluators [] s v.Mentions (expand evaluators [] v p) (s.resolve evaluators v p) :=
  walk_mirrors marker_answers v p h

end Resolver

/-! ## Any number of calls -/

/-- A resolution asked of a session, with the limit set before it, if one is. -/
structure Call where
  limit? : Option Nat
  value : Json
  path : Pointer

namespace Session

variable {evaluators : Members} {s : Session}

/-- Makes a call. -/
def call (evaluators : Members) (s : Session) (c : Call) : Walked Session Json :=
  Session.resolve evaluators { s with limit := c.limit?.getD s.limit } c.value c.path

/-- The session after some calls, whatever they came to. -/
def after (evaluators : Members) (s : Session) (calls : List Call) : Session :=
  calls.foldl (fun s c => (s.call evaluators c).state) s

theorem call_mirrors (c : Call) (h : s.Faithful evaluators []) :
    Resolver.Mirrors evaluators [] { s with limit := c.limit?.getD s.limit } c.value.Mentions
      (Resolver.expand evaluators [] c.value c.path) (s.call evaluators c) :=
  Resolver.resolve_mirrors c.value c.path (h.of_resolved_eq rfl)

theorem after_faithful (calls : List Call) (h : s.Faithful evaluators []) :
    (s.after evaluators calls).Faithful evaluators [] := by
  induction calls generalizing s with
  | nil => exact h
  | cons c more ih => exact ih (call_mirrors c h).faithful

/-- After any calls on a session, a call that does not end at the limit comes to what plain
expansion comes to: the same value is left in place, and the same fault, if any. -/
theorem call_after_eq_expand (evaluators : Members) (limit : Nat) (history : List Call) (c : Call)
    (within : ∀ e ∈ ((after evaluators { limit } history).call evaluators c).error?,
      e.isLimit = false) :
    ((after evaluators { limit } history).call evaluators c).value =
        (Resolver.expand evaluators [] c.value c.path).value ∧
      ((after evaluators { limit } history).call evaluators c).error? =
        (Resolver.expand evaluators [] c.value c.path).error? := by
  have faithful : (after evaluators { limit } history).Faithful evaluators [] :=
    after_faithful history (faithful_fresh limit)
  have same := (call_mirrors c faithful).result within
  exact ⟨congrArg Expansion.value same, congrArg Expansion.error? same⟩

/-- Evaluators of which one refers to the next and one to itself. -/
def sampleEvaluators : Members :=
  [("a", .arr [Json.marker "b"]), ("b", .null), ("c", Json.marker "c")]

/-- A session that ran into its limit inside `a`, when `b` was resolved, and then into a cycle. -/
def sampleSession : Session :=
  after sampleEvaluators { limit := 1 } [⟨none, Json.marker "a", ""⟩, ⟨some 9, Json.marker "c", ""⟩]

/-- The next call gets past `a` and ends at an unknown name. -/
def sampleCall : Call := ⟨none, .arr [Json.marker "a", Json.marker "e"], "/x"⟩

theorem sampleCall_eq_expand :
    (∀ e ∈ (sampleSession.call sampleEvaluators sampleCall).error?, e.isLimit = false) ∧
      (sampleSession.call sampleEvaluators sampleCall).value =
        (Resolver.expand sampleEvaluators [] sampleCall.value sampleCall.path).value ∧
      (sampleSession.call sampleEvaluators sampleCall).error? =
        (Resolver.expand sampleEvaluators [] sampleCall.value sampleCall.path).error? := by
  have within : ∀ e ∈ (sampleSession.call sampleEvaluators sampleCall).error?,
      e.isLimit = false := by
    decide +kernel
  exact ⟨within, call_after_eq_expand sampleEvaluators 1 _ sampleCall within⟩

end Session

end FeatureFlags
