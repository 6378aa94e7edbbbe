import FeatureFlags.Proofs.Document.Filtering
import FeatureFlags.Proofs.Document.Refusals
import FeatureFlags.Proofs.Flag.Admitted

/-!
# What is wrong with a flag

`FlagProblem` says of a flag as it stands in a document what is wrong with it, and where: its default
variant is none of its variations, once these are resolved, or an object in it has the key of a
marker and is none. A flag with a problem is refused (`FlagProblem.refused`). Where every evaluator
expands that a flag refers to, it is refused for a problem or because what it resolves to does not
decode (`blame_of_refused`), and only one of all these makes it into the refusal.
-/

namespace FeatureFlags

variable {evaluators ms : Members} {raw : String × Json} {v : Json} {p q : Pointer}

/-- Something is wrong at a place in a flag. -/
inductive FlagProblem (evaluators : Members) (raw : String × Json) : Pointer → Prop
  | unknownDefault {ms vs : Members} {v : Json} {name : String} : raw.2 = .obj ms →
      ms.get? "defaultVariant" = some (.str name) → ms.get? "variations" = some v →
      Resolver.expand evaluators [] v ((flagPointer raw.1).child "variations") = ⟨.obj vs, none⟩ →
      vs.has name = false →
      FlagProblem evaluators raw ((flagPointer raw.1).child "defaultVariant")
  | malformedMarker {ms : Members} {fault : MarkerFault} {q : Pointer} :
      raw.2.Leads (flagPointer raw.1) q (.obj ms) → ms.isMarker = true →
      ms.markerName? = .error fault → FlagProblem evaluators raw q

/-- The flag resolves to something that does not decode. -/
def Undecodable (evaluators : Members) (raw : String × Json) : Prop :=
  ∃ v fault, Resolver.expand evaluators [] raw.2 (flagPointer raw.1) = ⟨v, none⟩ ∧
    FeatureFlag.ofJson? v = .error fault

/-- A flag by itself is refused. -/
def Refused (evaluators : Members) (raw : String × Json) : Prop :=
  ∃ e, plainFlag {} evaluators raw = .error e

theorem refused_iff : Refused evaluators raw ↔ ∀ f, plainFlag {} evaluators raw ≠ .ok f := by
  unfold Refused
  cases plainFlag {} evaluators raw <;> simp

/-! ## Where problems are -/

theorem Json.Leads.exists_keys? {u : Json} {ks : List String} (h : v.Leads p q u)
    (here : Pointer.keys? p = some ks) : ∃ js, Pointer.keys? q = some (ks ++ js) := by
  induction h generalizing ks with
  | self => exact ⟨[], by simpa using here⟩
  | item _ _ ih =>
    obtain ⟨js, hq⟩ := ih (Pointer.keys?_item here _)
    exact ⟨_, hq.trans (by rw [List.append_assoc])⟩
  | member _ _ ih =>
    obtain ⟨js, hq⟩ := ih (Pointer.keys?_child here _)
    exact ⟨_, hq.trans (by rw [List.append_assoc])⟩

theorem keys?_flagPointer (key : String) :
    Pointer.keys? (flagPointer key) = some [flagsKey, key] := by
  have root : Pointer.keys? "" = some [] := rfl
  exact Pointer.keys?_child (Pointer.keys?_child root flagsKey) key

theorem keys?_evaluatorPointer (name : String) :
    Pointer.keys? (evaluatorPointer name) = some [evaluatorsKey, name] := by
  have root : Pointer.keys? "" = some [] := rfl
  exact Pointer.keys?_child (Pointer.keys?_child root evaluatorsKey) name

/-- What expands has no malformed marker. -/
theorem not_malformed_of_expand {fault : MarkerFault}
    (expands : Resolver.expand evaluators [] raw.2 p = ⟨v, none⟩)
    (leads : raw.2.Leads p q (.obj ms)) (marker : ms.isMarker = true) :
    ms.markerName? ≠ .error fault := by
  obtain ⟨name, rfl⟩ :=
    Resolver.sole_of_expand_done (congrArg Expansion.error? expands) leads.inside marker
  simp [Members.markerName?]

namespace FlagProblem

theorem exists_keys? (h : FlagProblem evaluators raw q) :
    ∃ js, Pointer.keys? q = some (flagsKey :: raw.1 :: js) := by
  cases h with
  | unknownDefault => exact ⟨["defaultVariant"], Pointer.keys?_child (keys?_flagPointer raw.1) _⟩
  | malformedMarker leads => exact leads.exists_keys? (keys?_flagPointer raw.1)

/-- Problems in one place are problems of one flag. -/
theorem key_unique {other : String × Json} (h : FlagProblem evaluators raw q)
    (h' : FlagProblem evaluators other q) : raw.1 = other.1 := by
  obtain ⟨js, hq⟩ := h.exists_keys?
  obtain ⟨js', hq'⟩ := h'.exists_keys?
  rw [hq] at hq'
  simp only [Option.some.injEq, List.cons.injEq] at hq'
  exact hq'.2.1

theorem ne_evaluatorPointer (h : FlagProblem evaluators raw q) (name : String) :
    q ≠ evaluatorPointer name := by
  rintro rfl
  obtain ⟨js, hq⟩ := h.exists_keys?
  rw [keys?_evaluatorPointer] at hq
  simp [flagsKey, evaluatorsKey] at hq

/-- A flag that resolves has its problem at the default variant. -/
theorem eq_of_expand (h : FlagProblem evaluators raw q)
    (expands : Resolver.expand evaluators [] raw.2 (flagPointer raw.1) = ⟨v, none⟩) :
    q = (flagPointer raw.1).child "defaultVariant" := by
  cases h with
  | unknownDefault => rfl
  | malformedMarker leads marker fault =>
    exact absurd fault (not_malformed_of_expand expands leads marker)

/-- No problem is where a flag stands that does not decode. -/
theorem ne_flagPointer {other : String × Json} (h : FlagProblem evaluators raw q)
    (undecodable : Undecodable evaluators other) (same : raw.1 = other.1 → raw = other) :
    q ≠ flagPointer other.1 := by
  rintro rfl
  obtain ⟨js, hq⟩ := h.exists_keys?
  rw [keys?_flagPointer, Option.some.injEq, List.cons.injEq, List.cons.injEq] at hq
  obtain rfl := same hq.2.1.symm
  obtain ⟨v, -, expands, -⟩ := undecodable
  have deeper := Pointer.keys?_child (keys?_flagPointer raw.1) "defaultVariant"
  rw [← h.eq_of_expand expands, keys?_flagPointer] at deeper
  simp at deeper

end FlagProblem

/-! ## Flags with problems are refused -/

/-- The settings that a flag decodes to after it is resolved stand in it before, the variations
unresolved. -/
theorem settings_of_expand {f : FeatureFlag} (flag : ms.IsFlag) (nodup : ms.keys.Nodup)
    (expands : Resolver.expand evaluators [] (.obj ms) p = ⟨v, none⟩)
    (decoded : FeatureFlag.ofJson? v = .ok f) :
    (∀ name, f.defaultVariant = some name ↔ ms.get? "defaultVariant" = some (.str name)) ∧
      ∃ u, ms.get? "variations" = some u ∧
        Resolver.expand evaluators [] u (p.child "variations") = ⟨.obj f.variations, none⟩ := by
  obtain ⟨vs, there, -⟩ := flag.variations
  rcases Resolver.expand_obj_done expands with ⟨name, marker, -⟩ | ⟨-, ws, rfl, members⟩
  · obtain rfl := Json.obj.inj marker
    simp [refKey] at there
  have nodup' : ws.keys.Nodup := Resolver.keys_expandMembers members ▸ nodup
  constructor
  · intro name
    rw [FeatureFlag.defaultVariant_of_ofJson? nodup' decoded]
    rcases Resolver.get?_expandMembers members "defaultVariant" with
      ⟨absent, absent'⟩ | ⟨u, w, hu, hw, expands⟩
    · rw [absent, absent']
    · -- a text or null is left as it is
      obtain rfl : u = w := by
        rcases flag.defaultVariant u hu with ⟨s, rfl⟩ | rfl <;>
          simpa [Resolver.expand] using expands
      rw [hu, hw]
  · have decoded' := FeatureFlag.variations_of_ofJson? nodup' decoded
    rcases Resolver.get?_expandMembers members "variations" with
      ⟨-, absent⟩ | ⟨u, w, hu, hw, expands⟩
    · rw [absent] at decoded'
      cases decoded'
    · rw [hw, Option.some.injEq] at decoded'
      exact ⟨u, hu, decoded' ▸ expands⟩

section

variable (object : raw.2 = .obj ms) (flag : ms.IsFlag) (nodup : ms.keys.Nodup)
include object flag nodup

/-- A flag that resolves and decodes has a problem exactly if its default variant is none of its
variations. -/
theorem hasDefault_iff {f : FeatureFlag}
    (expands : Resolver.expand evaluators [] raw.2 (flagPointer raw.1) = ⟨v, none⟩)
    (decoded : FeatureFlag.ofJson? v = .ok f) :
    f.HasDefault ↔ ∀ q, ¬ FlagProblem evaluators raw q := by
  obtain ⟨default, u, hu, variations⟩ := settings_of_expand flag nodup (object ▸ expands) decoded
  constructor
  · intro named q h
    cases h with
    | malformedMarker leads marker fault =>
      exact not_malformed_of_expand expands leads marker fault
    | unknownDefault object' there there' resolved unknown =>
      obtain rfl := Json.obj.inj (object.symm.trans object')
      obtain rfl := Option.some.inj (hu.symm.trans there')
      rw [variations] at resolved
      cases resolved
      rw [named _ ((default _).2 there)] at unknown
      cases unknown
  · intro fine name named
    cases known : f.variations.has name with
    | true => rfl
    | false =>
      exact absurd (.unknownDefault object ((default name).1 named) hu variations known) (fine _)

/-- A flag with a problem is refused. -/
theorem FlagProblem.refused (h : FlagProblem evaluators raw q) : Refused evaluators raw := by
  refine refused_iff.2 fun f built => ?_
  obtain ⟨-, v, expands, resolved⟩ := plainFlag_eq_ok.1 built
  obtain ⟨decoded, checked⟩ := flagOfResolved_eq_ok.1 resolved
  have named := checkDefaultVariant_eq_ok.1 (checked rfl)
  exact (hasDefault_iff object flag nodup expands decoded).1 named q h

end

theorem Undecodable.refused (h : Undecodable evaluators raw) : Refused evaluators raw := by
  refine refused_iff.2 fun f built => ?_
  obtain ⟨v, fault, expands, broken⟩ := h
  obtain ⟨-, v', expands', resolved⟩ := plainFlag_eq_ok.1 built
  cases expands.symm.trans expands'
  rw [(flagOfResolved_eq_ok.1 resolved).1] at broken
  cases broken

/-! ## What a flag is refused for -/

/-- Where the evaluators expand that a value refers to, only a malformed marker stops it. -/
theorem malformed_of_expand_error {f : ReferenceError}
    (resolves : ∀ name, v.Mentions name → evaluators.Resolvable (.marker name))
    (h : (Resolver.expand evaluators [] v p).error? = some f) :
    ∃ (q : Pointer) (ms : Members) (fault : MarkerFault), v.Leads p q (.obj ms) ∧
      ms.isMarker = true ∧ ms.markerName? = .error fault ∧ f = .malformed q fault := by
  have walked : (v.walk (Resolver.plain evaluators []) p ()).error? = some f := by
    rw [Resolver.walk_plain]
    exact h
  rcases Json.walk_error walked with malformed | ⟨name, q, s, leads, answered⟩
  · exact malformed
  · have done := @Resolver.expand_done_of_resolvable evaluators [] _ q (resolves name leads.inside)
      (by simp)
    have copied := Resolver.expand_marker_done.1
      (show Resolver.expand evaluators [] (.marker name) q = ⟨_, none⟩ by rw [← done])
    rw [show (Resolver.plain evaluators [] name q s).1 = Resolver.copy evaluators [] name q from rfl,
      copied] at answered
    cases answered

/-- A flag whose evaluators expand is refused for one of its problems, unless it resolves to
something that does not decode; then it is refused for that. -/
theorem blame_of_refused {e : ConfigError} (object : raw.2 = .obj ms) (flag : ms.IsFlag)
    (nodup : ms.keys.Nodup)
    (resolves : ∀ name, raw.2.Mentions name → evaluators.Resolvable (.marker name))
    (h : plainFlag {} evaluators raw = .error e) :
    (∃ q fault, e = .invalid q fault ∧ FlagProblem evaluators raw q ∧ ¬ Undecodable evaluators raw) ∨
      ∃ fault, e = .invalid (flagPointer raw.1) fault ∧ Undecodable evaluators raw := by
  unfold plainFlag at h
  cases expands : Resolver.expand evaluators [] raw.2 (flagPointer raw.1) with
  | mk v error? =>
    rw [expands] at h
    cases error? with
    | some f =>
      obtain ⟨q, inner, fault, leads, marker, malformed, rfl⟩ :=
        malformed_of_expand_error resolves (congrArg Expansion.error? expands)
      obtain rfl : ConfigError.invalid q (.reference fault) = e := Except.error.inj h
      refine .inl ⟨q, _, rfl, .malformedMarker leads marker malformed, ?_⟩
      rintro ⟨w, fault, expands', -⟩
      rw [expands] at expands'
      cases expands'
    | none =>
      rcases flagOfResolved_error (map_eq_error.1 h) with
        ⟨fault, broken, rfl⟩ | ⟨f, name, decoded, named, unknown, rfl⟩
      · exact .inr ⟨_, rfl, v, fault, expands, broken⟩
      · refine .inl ⟨_, _, rfl, ?_, ?_⟩
        · have unnamed : ¬ f.HasDefault := fun has =>
            Bool.false_ne_true (unknown.symm.trans (has name named))
          rw [hasDefault_iff object flag nodup expands decoded] at unnamed
          obtain ⟨q, problem⟩ := not_forall_not.1 unnamed
          exact problem.eq_of_expand expands ▸ problem
        · rintro ⟨w, fault, expands', broken⟩
          cases expands.symm.trans expands'
          rw [decoded] at broken
          cases broken

end FeatureFlags
