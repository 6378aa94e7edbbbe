import FeatureFlags.Proofs.Flag.Decode

/-!
# Flags of the data model are decoded

What the data model asks of a setting is enough to decode it (`FlagDraft.exists_set`), and members
that name no setting are passed over, so every flag of the data model decodes:
`FeatureFlag.exists_ofJson?`. Its default variant is the text that stands there
(`defaultVariant_of_ofJson?`).
-/

namespace FeatureFlags

variable {ms : Members} {v : Json}

/-! ## Values -/

theorem exists_optionalStringOfJson? (h : v.IsText ∨ v = .null) :
    ∃ s?, optionalStringOfJson? v = .ok s? := by
  rcases h with ⟨s, rfl⟩ | rfl
  · exact ⟨some s, rfl⟩
  · exact ⟨none, rfl⟩

theorem optionalStringOfJson?_eq_some {s : String} :
    optionalStringOfJson? v = .ok (some s) ↔ v = .str s := by
  cases v <;> simp [optionalStringOfJson?, stringOfJson?, Except.map]

theorem FlagState.exists_ofJson? (h : v = .str "ENABLED" ∨ v = .str "DISABLED") :
    ∃ s, ofJson? v = .ok s := by
  rcases h with rfl | rfl
  · exact ⟨.enabled, rfl⟩
  · exact ⟨.disabled, rfl⟩

theorem Metadata.exists_ofMembers? (scalars : ∀ m ∈ ms, m.2.IsScalar) :
    ∃ entries, ofMembers? ms = .ok entries := by
  induction ms with
  | nil => exact ⟨[], rfl⟩
  | cons m more ih =>
    obtain ⟨first, rest⟩ := List.forall_mem_cons.1 scalars
    obtain ⟨s, hs⟩ := Option.isSome_iff_exists.1 first
    obtain ⟨entries, he⟩ := ih rest
    exact ⟨(m.1, s) :: entries, by simp [ofMembers?, MetadataValue.ofJson, hs, he, Except.map]⟩

theorem Metadata.exists_ofJson? (h : v.IsMetadata) : ∃ m, ofJson? v = .ok m := by
  obtain ⟨ms, rfl, scalars⟩ := h
  obtain ⟨entries, he⟩ := exists_ofMembers? scalars
  exact ⟨.ofList entries, by simp [ofJson?, membersOfJson?, he, Except.map]⟩

/-! ## Settings -/

/-- What the data model asks of a setting. -/
def FlagField.Admits : FlagField → Json → Prop
  | .variations, v => ∃ vs : Members, v = .obj vs ∧ vs ≠ []
  | .defaultVariant, v => v.IsText ∨ v = .null
  | .state, v => v = .str "ENABLED" ∨ v = .str "DISABLED"
  | .targeting, v | .defaultRule, v => v.IsObject
  | .bucketingKey, v | .version, v => v.IsText
  | .metadata, v => v.IsMetadata

theorem Members.IsFlag.admits (flag : ms.IsFlag) (field : FlagField) :
    ms.IfPresent field.name field.Admits := by
  cases field with
  | variations =>
    obtain ⟨vs, there, nonempty⟩ := flag.variations
    intro v hv
    obtain rfl := Option.some.inj (there.symm.trans hv)
    exact ⟨vs, rfl, nonempty⟩
  | defaultVariant => exact flag.defaultVariant
  | state => exact flag.state
  | targeting => exact flag.targeting
  | defaultRule => exact flag.defaultRule
  | bucketingKey => exact flag.bucketingKey
  | version => exact flag.version
  | metadata => exact flag.metadata

namespace FlagDraft

/-- What the data model admits for a setting can be set. -/
theorem exists_set {field : FlagField} (h : field.Admits v) (d : FlagDraft) :
    ∃ d', d.set field v = .ok d' := by
  cases field with
  | variations =>
    obtain ⟨vs, rfl, -⟩ := h
    exact ⟨{ d with variations? := some vs }, rfl⟩
  | defaultVariant =>
    obtain ⟨s?, hs⟩ := exists_optionalStringOfJson? h
    exact ⟨_, map_eq_ok.2 ⟨s?, hs, rfl⟩⟩
  | state =>
    obtain ⟨s, hs⟩ := FlagState.exists_ofJson? h
    exact ⟨_, map_eq_ok.2 ⟨s, hs, rfl⟩⟩
  | targeting | defaultRule => exact ⟨_, rfl⟩
  | bucketingKey | version =>
    obtain ⟨s?, hs⟩ := exists_optionalStringOfJson? (.inl h)
    exact ⟨_, map_eq_ok.2 ⟨s?, hs, rfl⟩⟩
  | metadata =>
    obtain ⟨m, hm⟩ := Metadata.exists_ofJson? h
    exact ⟨_, map_eq_ok.2 ⟨m, hm, rfl⟩⟩

/-- Members can be set one after another if each can. -/
theorem exists_setMembers
    (settable : ∀ m ∈ ms, ∀ field, FlagField.ofName? m.1 = some field →
      ∀ d : FlagDraft, ∃ d', d.set field m.2 = .ok d')
    (d : FlagDraft) : ∃ d', d.setMembers ms = .ok d' := by
  induction ms generalizing d with
  | nil => exact ⟨d, rfl⟩
  | cons m more ih =>
    obtain ⟨first, rest⟩ := List.forall_mem_cons.1 settable
    simp only [setMembers]
    cases named : FlagField.ofName? m.1 with
    | none => exact ih rest d
    | some field =>
      obtain ⟨d₁, hset⟩ := first field named d
      obtain ⟨d', hmore⟩ := ih rest d₁
      exact ⟨d', bind_eq_ok.2 ⟨d₁, hset, hmore⟩⟩

end FlagDraft

/-! ## Flags -/

namespace FeatureFlag

variable {f : FeatureFlag}

/-- Members that can be set, the variations among them, decode to a flag. -/
theorem exists_ofJson?_of_settable (nodup : ms.keys.Nodup)
    (variations : ∃ vs : Members, ms.get? "variations" = some (.obj vs))
    (settable : ∀ m ∈ ms, ∀ field, FlagField.ofName? m.1 = some field →
      ∀ d : FlagDraft, ∃ d', d.set field m.2 = .ok d') :
    ∃ f, ofJson? (.obj ms) = .ok f := by
  obtain ⟨d, hd⟩ := FlagDraft.exists_setMembers settable {}
  -- the variations are required, so they were set
  obtain ⟨vs, known⟩ : ∃ vs, d.variations? = some vs := by
    obtain ⟨vs, there⟩ := variations
    rcases @FlagDraft.written_setMembers _ _ _ .variations nodup hd with
      ⟨absent, -⟩ | ⟨v, d₁, d₂, -, set, hw⟩
    · rw [show ms.get? "variations" = none from absent] at there
      cases there
    · obtain ⟨us, -, rfl⟩ := map_eq_ok.1 set
      obtain ⟨us, known, -⟩ := Option.map_eq_some_iff.1 hw
      exact ⟨us, known⟩
  have finished : d.finish? = some { d.rest with variations := vs } := by
    simp [FlagDraft.finish?, known]
  exact ⟨_, ofJson?_obj_eq_ok.2 ⟨d, hd, finished⟩⟩

/-- Every flag of the data model is decoded, whatever members it has besides. -/
theorem exists_ofJson? (flag : ms.IsFlag) (nodup : ms.keys.Nodup) :
    ∃ f, ofJson? (.obj ms) = .ok f := by
  refine exists_ofJson?_of_settable nodup (flag.variations.imp fun _ => And.left) ?_
  intro m hm field named
  have key := FlagField.ofName?_eq_some.1 named
  refine FlagDraft.exists_set (flag.admits field _ ?_)
  rw [Members.get?_eq_some_iff nodup, ← key]
  exact hm

theorem defaultVariant_of_ofJson? (nodup : ms.keys.Nodup) (h : ofJson? (.obj ms) = .ok f)
    {name : String} :
    f.defaultVariant = some name ↔ ms.get? "defaultVariant" = some (.str name) := by
  rcases written_of_ofJson? nodup h .defaultVariant with
    ⟨absent, unset⟩ | ⟨v, d₁, d₂, there, set, hw⟩
  · have none_set : f.defaultVariant = none := Option.map_eq_none_iff.1 unset
    rw [show ms.get? "defaultVariant" = none from absent, none_set]
    simp
  · obtain ⟨s?, hs, rfl⟩ := map_eq_ok.1 set
    obtain rfl : f.defaultVariant = s? := Option.map_injective (fun _ _ => Json.str.inj) hw
    rw [show ms.get? "defaultVariant" = some v from there, Option.some.injEq,
      ← optionalStringOfJson?_eq_some, hs, Except.ok.injEq]

end FeatureFlag

end FeatureFlags
