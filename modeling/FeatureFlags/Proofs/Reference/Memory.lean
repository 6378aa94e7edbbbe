import FeatureFlags.Proofs.Reference.Resolvable

/-!
# What a session remembers

A session is faithful if every fragment it remembers is a plain copy of its evaluator, and with an
evaluator it remembers all that the evaluator mentions. The second half is what lets a fragment be
handed out deep inside a resolution: no name that is being resolved can be in its reach, since none
of those is remembered yet. A session stays faithful when its counters change, when a name goes on
the stack or off it, and when the evaluator on top of the stack is remembered (`Faithful.push`,
`Faithful.pop`, `Faithful.remember`).
-/

namespace FeatureFlags

/-- Whether resolution stopped because too many values were copied in. -/
def ReferenceError.isLimit : ReferenceError → Bool
  | .tooLarge _ _ _ => true
  | _ => false

namespace Session

variable {s s' before : Session} {name : String} {f : Fragment} {v : Json} {p : Pointer}

/-! ## One step of the session -/

theorem fragment?_congr (h : s'.resolved = s.resolved) (name : String) :
    s'.fragment? name = s.fragment? name := by
  unfold fragment?
  rw [h]

theorem fragment?_append (h : s'.resolved = s.resolved ++ [(name, f)]) (other : String) :
    s'.fragment? other = (s.fragment? other).or (if name = other then some f else none) := by
  unfold fragment?
  rw [h, List.find?_append]
  cases s.resolved.find? (·.1 == other) with
  | some m => rfl
  | none => by_cases same : name = other <;> simp [same]

theorem charge_cases (s : Session) (nodes : Nat) (name : String) (p : Pointer) :
    ∃ s', s'.resolved = s.resolved ∧ (s.charge nodes name p = (.ok (), s') ∨
      s.charge nodes name p = (.error (.tooLarge name s.limit p), s')) := by
  refine ⟨{ s with expandedNodes := s.expandedNodes + nodes }, rfl, ?_⟩
  unfold charge
  by_cases exceeded : s.limit < s.expandedNodes + nodes <;> simp [exceeded]

theorem reuse_cases (s : Session) (f : Fragment) (name : String) (p : Pointer) :
    ∃ s', s'.resolved = s.resolved ∧ (s.reuse f name p = (.ok f.value, s') ∨
      s.reuse f name p = (.error (.tooLarge name s.limit p), s')) := by
  obtain ⟨s', same, h | h⟩ := charge_cases s f.nodes name p
  · exact ⟨{ s' with substitutions := s'.substitutions + f.markers }, same, .inl (by simp [reuse, h])⟩
  · exact ⟨s', same, .inr (by simp [reuse, h])⟩

theorem store_cases (before s : Session) (v : Json) (name : String) (p : Pointer) :
    (∃ s' f, s'.resolved = s.resolved ++ [(name, f)] ∧ f.value = v ∧
      store before s v name p = (.ok v, s')) ∨
    ∃ s', s'.resolved = s.resolved ∧
      store before s v name p = (.error (.tooLarge name s.limit p), s') := by
  obtain ⟨s', same, h | h⟩ := charge_cases s v.nodes name p
  · let f : Fragment := ⟨v, v.nodes, s'.substitutions - before.substitutions⟩
    refine .inl ⟨{ s' with resolved := s'.resolved ++ [(name, f)] }, f, ?_, rfl, by simp [store, h, f]⟩
    exact congrArg (· ++ [(name, f)]) same
  · exact .inr ⟨s', same, by simp [store, h]⟩

@[simp]
theorem countMarker_fst (r : Except ReferenceError Json × Session) : (countMarker r).1 = r.1 := by
  obtain ⟨_ | _, _⟩ := r <;> rfl

@[simp]
theorem countMarker_resolved (r : Except ReferenceError Json × Session) :
    (countMarker r).2.resolved = r.2.resolved := by
  obtain ⟨_ | _, _⟩ := r <;> rfl

/-! ## Faithful sessions -/

/-- The session has a fragment for the name. -/
def Remembers (s : Session) (name : String) : Prop := ∃ f, s.fragment? name = some f

theorem not_remembers (hf : s.fragment? name = none) : ¬ s.Remembers name := by
  simp [Remembers, hf]

theorem remembers_congr (h : s'.resolved = s.resolved) (name : String) :
    s'.Remembers name ↔ s.Remembers name := by
  unfold Remembers
  rw [fragment?_congr h]

theorem remembers_append (h : s'.resolved = s.resolved ++ [(name, f)]) (other : String) :
    s'.Remembers other ↔ s.Remembers other ∨ other = name := by
  unfold Remembers
  rw [fragment?_append h]
  cases s.fragment? other with
  | some g => simp
  | none =>
    by_cases same : other = name
    · simp [same]
    · simp [same, Ne.symm same]

variable {evaluators : Members} {stack : List String}

/-- What a session may remember while the evaluators on the stack are being resolved. -/
structure Faithful (evaluators : Members) (stack : List String) (s : Session) : Prop where
  /-- A fragment is a copy of the evaluator. -/
  sound : ∀ name f, s.fragment? name = some f →
    Resolver.copy evaluators [] name (evaluatorPointer name) = .ok f.value
  /-- With an evaluator, all that it mentions is remembered. -/
  closed : ∀ name raw, s.Remembers name → evaluators.get? name = some raw →
    ∀ inner, raw.Mentions inner → s.Remembers inner
  /-- Nothing on the stack is. -/
  apart : ∀ name ∈ stack, ¬ s.Remembers name

theorem faithful_fresh (limit : Nat) : Faithful evaluators [] { limit } := by
  have nothing : ∀ name, ¬ Remembers { limit } name := by
    rintro name ⟨f, hf⟩
    cases hf
  refine ⟨?_, ?_, ?_⟩
  · intro name f hf
    cases hf
  · intro name raw hr
    exact absurd hr (nothing name)
  · intro name on_stack
    cases on_stack

/-- The counters and the limit do not matter. -/
theorem Faithful.of_resolved_eq (h : s.Faithful evaluators stack) (same : s'.resolved = s.resolved) :
    s'.Faithful evaluators stack := by
  refine ⟨?_, ?_, ?_⟩
  · intro name f hf
    rw [fragment?_congr same] at hf
    exact h.sound name f hf
  · intro name raw hr known inner m
    rw [remembers_congr same] at hr ⊢
    exact h.closed name raw hr known inner m
  · intro name on_stack
    rw [remembers_congr same]
    exact h.apart name on_stack

theorem Faithful.push (h : s.Faithful evaluators stack) (new : ¬ s.Remembers name) :
    s.Faithful evaluators (name :: stack) where
  sound := h.sound
  closed := h.closed
  apart := List.forall_mem_cons.2 ⟨new, h.apart⟩

theorem Faithful.pop (h : s.Faithful evaluators (name :: stack)) : s.Faithful evaluators stack where
  sound := h.sound
  closed := h.closed
  apart other on_stack := h.apart other (List.mem_cons_of_mem _ on_stack)

/-- With all that a value mentions, all that it reaches is remembered. -/
theorem Faithful.remembers_of_reaches (h : s.Faithful evaluators stack) {v : Json}
    (mentioned : ∀ inner, v.Mentions inner → s.Remembers inner) (reach : evaluators.Reaches v name) :
    s.Remembers name := by
  induction reach with
  | mentioned m => exact mentioned _ m
  | through _ known m ih => exact h.closed _ _ ih known _ m

/-- Whatever is in reach of a remembered evaluator is remembered. -/
theorem Faithful.remembers_reach (h : s.Faithful evaluators stack) (hr : s.Remembers name)
    {raw : Json} (known : evaluators.get? name = some raw) {inner : String}
    (reach : evaluators.Reaches raw inner) : s.Remembers inner :=
  h.remembers_of_reaches (h.closed name raw hr known) reach

/-- A remembered fragment is the copy that expansion would make here. -/
theorem Faithful.copy_eq (h : s.Faithful evaluators stack) (hf : s.fragment? name = some f)
    (p : Pointer) : Resolver.copy evaluators stack name p = .ok f.value := by
  obtain ⟨raw, known, -, hx⟩ := Resolver.copy_eq_ok_iff.1 (h.sound name f hf)
  rw [Resolver.copy_eq_ok_iff]
  refine ⟨raw, known, fun on_stack => h.apart name on_stack ⟨f, hf⟩, Resolver.expand_restack hx ?_⟩
  intro other on_stack reach
  rcases List.mem_cons.1 on_stack with rfl | on_stack
  · have done := congrArg Expansion.error? hx
    exact Resolver.not_reaches_of_expand_done done List.mem_cons_self reach
  · -- what is in reach is remembered, and what is on the stack is not
    exact h.apart other on_stack (h.remembers_reach ⟨f, hf⟩ known reach)

/-- An evaluator expanded while its name was on the stack may be remembered, once all that it
mentions is. -/
theorem Faithful.remember (h : s.Faithful evaluators (name :: stack)) {raw : Json}
    (known : evaluators.get? name = some raw) (new : name ∉ stack)
    (hx : Resolver.expand evaluators (name :: stack) raw (evaluatorPointer name) = ⟨f.value, none⟩)
    (mentions : ∀ inner, raw.Mentions inner → s.Remembers inner)
    (hs : s'.resolved = s.resolved ++ [(name, f)]) : s'.Faithful evaluators stack := by
  refine ⟨?_, ?_, ?_⟩
  · intro other g hg
    -- a name that was remembered before keeps its fragment
    rw [fragment?_append hs, Option.or_eq_some_iff] at hg
    rcases hg with hg | ⟨-, hg⟩
    · exact h.sound other g hg
    · rw [Option.ite_none_right_eq_some] at hg
      obtain ⟨rfl, hg⟩ := hg
      obtain rfl := Option.some.inj hg
      exact Resolver.copy_of_expand known hx _
  · intro other raw' hr known' inner m
    rw [remembers_append hs] at hr ⊢
    rcases hr with hr | rfl
    · exact .inl (h.closed other raw' hr known' inner m)
    · obtain rfl : raw = raw' := Option.some.inj (known.symm.trans known')
      exact .inl (mentions inner m)
  · intro other on_stack
    rw [remembers_append hs]
    rintro (hr | rfl)
    · exact h.apart other (List.mem_cons_of_mem _ on_stack) hr
    · exact new on_stack

end Session

end FeatureFlags
