import FeatureFlags.Proofs.Reference.Tallies

/-!
# The ledger of a session

A session is sound if it is faithful, tidy and has counted its fragments right; it is so after any
calls, whatever they came to. Values that are all resolved from a sound session settle
(`Session.Settles`): both counters and the names remembered are then told by the values and by what
was remembered before, and not by the order they came in (`Settles.same_of_perm`).
-/

namespace FeatureFlags

namespace Members

variable {evaluators : Members} {name : String} {raw : Json}

/-- The number of markers replaced when a value is expanded: those in the value, and those in the
evaluator of each. -/
def replacedIn (evaluators : Members) (v : Json) : Nat :=
  (v.markerNames.map fun name => 1 + evaluators.replaced name).sum

/-- The number of values copied in for the markers in a value. -/
def copiedIn (evaluators : Members) (v : Json) : Nat :=
  (v.markerNames.map evaluators.size).sum

theorem cost_eq_sum (xs : List Site) :
    evaluators.cost xs = ((Site.names xs).map evaluators.size).sum := by
  induction xs with
  | nil => rfl
  | cons site more ih =>
    cases hn : site.name? with
    | error fault =>
      rw [Site.names_cons_malformed hn, ← ih]
      simp [cost, hn]
    | ok name => rw [cost_cons hn, Site.names_cons hn, List.map_cons, List.sum_cons, ih]

theorem copiedIn_eq_cost (v : Json) (p : Pointer) :
    evaluators.copiedIn v = evaluators.cost (v.sites p) := by
  rw [cost_eq_sum, Json.names_sites_eq, copiedIn]

theorem ownCost_eq (known : evaluators.get? name = some raw) :
    evaluators.ownCost name = evaluators.copiedIn raw := by
  rw [ownCost, known, copiedIn_eq_cost raw ""]

end Members

namespace Session

variable {evaluators : Members} {stack : List String} {s s' s₁ s₂ : Session} {v : Json}
  {vs ws : List Json} {name : String}

/-- What holds of a session whatever it was asked to resolve. -/
structure Sound (evaluators : Members) (stack : List String) (s : Session) : Prop where
  faithful : s.Faithful evaluators stack
  tidy : s.Tidy
  counted : s.Counted evaluators

theorem sound_fresh (limit : Nat) : Sound evaluators [] { limit } :=
  ⟨faithful_fresh limit, tidy_fresh limit, counted_fresh limit⟩

/-- The counters and the limit do not matter. -/
theorem Sound.of_resolved_eq (h : s.Sound evaluators stack) (same : s'.resolved = s.resolved) :
    s'.Sound evaluators stack :=
  ⟨h.faithful.of_resolved_eq same, h.tidy.of_resolved_eq same, h.counted.of_resolved_eq same⟩

theorem Sound.fragment (h : s.Sound evaluators stack) (name : String) (p : Pointer) :
    (Resolver.fragment evaluators stack name p s).2.Sound evaluators stack :=
  ⟨(Resolver.fragment_answers name p h.faithful).faithful,
    (Resolver.fragment_accounts p h.faithful h.tidy).tidy,
    (Resolver.fragment_tallies p h.faithful h.counted).counted⟩

theorem Sound.resolve (h : s.Sound evaluators []) (v : Json) (p : Pointer) :
    (s.resolve evaluators v p).state.Sound evaluators [] where
  faithful := (Resolver.resolve_mirrors v p h.faithful).faithful
  tidy := (Resolver.resolve_accounts v p h.faithful h.tidy).tidy
  counted := (Resolver.resolve_tallies v p h.faithful h.counted).counted

theorem Sound.call (h : s.Sound evaluators []) (c : Call) :
    (s.call evaluators c).state.Sound evaluators [] := by
  have limited : Sound evaluators [] { s with limit := c.limit?.getD s.limit } :=
    h.of_resolved_eq rfl
  exact limited.resolve c.value c.path

theorem Sound.after (h : s.Sound evaluators []) (calls : List Call) :
    (s.after evaluators calls).Sound evaluators [] := by
  induction calls generalizing s with
  | nil => exact h
  | cons c more ih => exact ih (h.call c)

/-- A remembered evaluator expands, and its counts are told by the markers in it. -/
theorem Sound.exists_expand (h : s.Sound evaluators stack) (hr : s.Remembers name) :
    ∃ raw w, evaluators.get? name = some raw ∧
      Resolver.expand evaluators [] raw (evaluatorPointer name) = ⟨w, none⟩ ∧
      evaluators.size name = w.nodes ∧ evaluators.replaced name = evaluators.replacedIn raw ∧
      evaluators.ownCost name = evaluators.copiedIn raw := by
  obtain ⟨f, hf⟩ := hr
  have copied := h.faithful.sound name f hf
  obtain ⟨raw, known, -, hx⟩ := Resolver.copy_eq_ok_iff.1 copied
  exact ⟨raw, f.value, known, Resolver.expand_restack hx (by simp), Members.size_eq copied,
    Members.replaced_eq_sum known copied, Members.ownCost_eq known⟩

/-! ## Values that are resolved -/

/-- What a session has counted and remembers once some values were all resolved, where `s` is the
session before them. -/
structure Settles (evaluators : Members) (s : Session) (vs : List Json) (s' : Session) : Prop where
  sound : s'.Sound evaluators []
  substitutions : s'.substitutions = s.substitutions + (vs.map evaluators.replacedIn).sum
  balance : s'.expandedNodes + s.spent evaluators =
    s.expandedNodes + (vs.map evaluators.copiedIn).sum + s'.spent evaluators
  remembers : ∀ name, s'.Remembers name ↔
    s.Remembers name ∨ ∃ v ∈ vs, evaluators.Reaches v name

theorem Sound.settles (h : s.Sound evaluators []) : Settles evaluators s [] s :=
  ⟨h, by simp, by simp, by simp⟩

theorem Settles.append (first : Settles evaluators s vs s₁) (second : Settles evaluators s₁ ws s₂) :
    Settles evaluators s (vs ++ ws) s₂ := by
  have substitutions := first.substitutions
  have balance := first.balance
  refine ⟨second.sound, ?_, ?_, fun name => ?_⟩
  · rw [second.substitutions, List.map_append, List.sum_append]
    omega
  · have balance' := second.balance
    rw [List.map_append, List.sum_append]
    omega
  · rw [second.remembers, first.remembers, or_assoc]
    simp only [List.mem_append, or_and_right, exists_or]

/-- A value that is resolved settles. -/
theorem Sound.resolve_settles (h : s.Sound evaluators []) {p : Pointer}
    (done : (s.resolve evaluators v p).error? = none) :
    Settles evaluators s [v] (s.resolve evaluators v p).state := by
  have mirrors := Resolver.resolve_mirrors v p h.faithful
  have accounts := Resolver.resolve_accounts v p h.faithful h.tidy
  have tallies := Resolver.resolve_tallies v p h.faithful h.counted
  have ok := Walked.attempt_of_done done
  rw [ok] at accounts tallies
  refine ⟨h.resolve v p, ?_, ?_, fun name => ⟨fun hr => ?_, ?_⟩⟩
  · have replaced := tallies.total _ rfl
    simpa [Members.replacedIn] using replaced
  · have paid := accounts.balance _ rfl
    rw [← Members.copiedIn_eq_cost] at paid
    simpa using paid
  · simpa using accounts.origin name hr
  · rintro (hr | ⟨u, hu, reach⟩)
    · exact mirrors.kept name hr
    · obtain rfl := List.mem_singleton.1 hu
      -- what the value mentions is remembered, and so all that it reaches
      exact mirrors.faithful.remembers_of_reaches (mirrors.remembered done) reach

theorem Sound.call_settles (h : s.Sound evaluators []) {c : Call}
    (done : (s.call evaluators c).error? = none) :
    Settles evaluators s [c.value] (s.call evaluators c).state := by
  have limited : Sound evaluators [] { s with limit := c.limit?.getD s.limit } :=
    h.of_resolved_eq rfl
  have settles := limited.resolve_settles done
  exact ⟨settles.sound, settles.substitutions, settles.balance, settles.remembers⟩

/-- No call in a series fails. -/
def AllDone (evaluators : Members) : Session → List Call → Prop
  | _, [] => True
  | s, c :: more =>
    (s.call evaluators c).error? = none ∧ AllDone evaluators (s.call evaluators c).state more

theorem Sound.after_settles (h : s.Sound evaluators []) {calls : List Call}
    (done : AllDone evaluators s calls) :
    Settles evaluators s (calls.map (·.value)) (s.after evaluators calls) := by
  induction calls generalizing s with
  | nil => exact h.settles
  | cons c more ih =>
    have first := h.call_settles done.1
    exact first.append (ih first.sound done.2)

/-! ## What the counts come to -/

/-- Two sessions have counted the same and remember the same evaluators. -/
structure SameTotals (s s' : Session) : Prop where
  substitutions : s.substitutions = s'.substitutions
  expandedNodes : s.expandedNodes = s'.expandedNodes
  remembers : ∀ name, s.Remembers name ↔ s'.Remembers name

/-- The order of the values does not matter. -/
theorem Settles.same_of_perm (h : Settles evaluators s vs s₁) (h' : Settles evaluators s ws s₂)
    (perm : vs.Perm ws) : SameTotals s₁ s₂ := by
  have remembers : ∀ name, s₁.Remembers name ↔ s₂.Remembers name := by
    intro name
    rw [h.remembers, h'.remembers]
    simp only [perm.mem_iff]
  -- the same evaluators were paid for
  have spent : s₁.spent evaluators = s₂.spent evaluators :=
    Nat.le_antisymm (h.sound.tidy.spent_le evaluators fun name => (remembers name).1)
      (h'.sound.tidy.spent_le evaluators fun name => (remembers name).2)
  refine ⟨?_, ?_, remembers⟩
  · rw [h.substitutions, h'.substitutions, (perm.map _).sum_nat]
  · have balance := h.balance
    have balance' := h'.balance
    rw [← (perm.map _).sum_nat] at balance'
    omega

/-- What is paid for evaluators is paid for those that come to be remembered. -/
theorem Settles.exists_fresh (tidy : s.Tidy) (h : Settles evaluators s vs s') :
    ∃ fresh : List String, fresh.Nodup ∧
      (∀ name, name ∈ fresh ↔ (∃ v ∈ vs, evaluators.Reaches v name) ∧ ¬ s.Remembers name) ∧
      s'.expandedNodes = s.expandedNodes + (vs.map evaluators.copiedIn).sum +
        (fresh.map evaluators.ownCost).sum := by
  let before := s.resolved.map (·.1)
  let fresh := (s'.resolved.map (·.1)).filter (· ∉ before)
  have mem_fresh : ∀ name, name ∈ fresh ↔ s'.Remembers name ∧ ¬ s.Remembers name := by
    intro name
    rw [remembers_iff_mem, remembers_iff_mem]
    simp [fresh, before]
  have nodup : fresh.Nodup := h.sound.tidy.distinct.filter _
  refine ⟨fresh, nodup, fun name => ?_, ?_⟩
  · rw [mem_fresh, h.remembers]
    tauto
  · have all : (s'.resolved.map (·.1)).Perm (before ++ fresh) := by
      rw [List.perm_ext_iff_of_nodup h.sound.tidy.distinct]
      · intro name
        rw [List.mem_append, mem_fresh, ← remembers_iff_mem, ← remembers_iff_mem]
        have kept : s.Remembers name → s'.Remembers name := fun hr => (h.remembers name).2 (.inl hr)
        tauto
      · refine List.nodup_append.2 ⟨tidy.distinct, nodup, ?_⟩
        rintro name hb _ hf rfl
        exact ((mem_fresh name).1 hf).2 (remembers_iff_mem.2 hb)
    have spent : s'.spent evaluators = s.spent evaluators + (fresh.map evaluators.ownCost).sum := by
      rw [spent_eq_sum, (all.map _).sum_nat, List.map_append, List.sum_append, spent_eq_sum]
    have balance := h.balance
    omega

end Session

end FeatureFlags
