import FeatureFlags.Flag.Decode
import FeatureFlags.Proofs.Schema.DataModel

/-!
# Flags decoded and written

A setting of a decoded flag comes from the member of its name alone (`written_setMembers`): other
members leave it as it was. A flag is written with a member for each setting that it has, and what
is written is a flag of the data model up to the three settings that are kept as JSON
(`isFlag_toMembers_iff`).
-/

namespace FeatureFlags

section Except

variable {ε δ α β : Type} {x : Except ε α}

theorem bind_eq_ok {f : α → Except ε β} {b : β} :
    x.bind f = .ok b ↔ ∃ a, x = .ok a ∧ f a = .ok b := by
  cases x <;> simp [Except.bind]

theorem bind_eq_error {f : α → Except ε β} {e : ε} :
    x.bind f = .error e ↔ x = .error e ∨ ∃ a, x = .ok a ∧ f a = .error e := by
  cases x <;> simp [Except.bind]

theorem map_eq_ok {f : α → β} {b : β} : x.map f = .ok b ↔ ∃ a, x = .ok a ∧ f a = b := by
  cases x <;> simp [Except.map]

theorem map_eq_error {f : α → β} {e : ε} : x.map f = .error e ↔ x = .error e := by
  cases x <;> simp [Except.map]

theorem toOption_eq_some {a : α} : x.toOption = some a ↔ x = .ok a := by
  cases x <;> simp [Except.toOption]

theorem isSome_toOption : x.toOption.isSome = true ↔ ∃ a, x = .ok a := by
  cases x <;> simp [Except.toOption]

theorem mapError_eq_ok {f : ε → δ} {a : α} : x.mapError f = .ok a ↔ x = .ok a := by
  cases x with
  | error e => constructor <;> intro h <;> cases h
  | ok b => constructor <;> intro h <;> cases h <;> rfl

theorem mapError_eq_error {f : ε → δ} {e : δ} :
    x.mapError f = .error e ↔ ∃ e', x = .error e' ∧ f e' = e := by
  cases x with
  | error e' =>
    constructor
    · intro h
      exact ⟨e', rfl, Except.error.inj h⟩
    · rintro ⟨_, same, rfl⟩
      cases same
      rfl
  | ok a =>
    constructor
    · intro h
      cases h
    · rintro ⟨_, same, -⟩
      cases same

end Except

/-! ## Decoding -/

theorem FlagField.ofName?_eq_some {name : String} {field : FlagField} :
    FlagField.ofName? name = some field ↔ name = field.name := by
  constructor
  · intro h
    have found := List.find?_some h
    exact (eq_of_beq found).symm
  · rintro rfl
    cases field <;> rfl

/-- What is written for a setting, if anything. -/
def FeatureFlag.written (f : FeatureFlag) : FlagField → Option Json
  | .variations => some (.obj f.variations)
  | .defaultVariant => f.defaultVariant.map .str
  | .state => some (.str f.state.word)
  | .targeting => f.targeting
  | .defaultRule => f.defaultRule
  | .bucketingKey => f.bucketingKey.map .str
  | .version => f.version.map .str
  | .metadata => if f.metadata.isEmpty then none else some f.metadata.toJson

namespace FlagDraft

variable {ms : Members} {d d' : FlagDraft} {field : FlagField} {v : Json}

/-- What is written for a setting that may not be known yet. -/
def written (d : FlagDraft) : FlagField → Option Json
  | .variations => d.variations?.map .obj
  | field => d.rest.written field

theorem written_of_set_ne {other : FlagField} (ne : other ≠ field) (h : d.set other v = .ok d') :
    d'.written field = d.written field := by
  cases other with
  | targeting | defaultRule =>
    cases h
    cases field <;> first | rfl | exact absurd rfl ne
  | _ =>
    obtain ⟨_, -, rfl⟩ := map_eq_ok.1 h
    cases field <;> first | rfl | exact absurd rfl ne

/-- A setting comes from the member of its name, as long as no key is repeated. -/
theorem written_setMembers (nodup : ms.keys.Nodup) (h : d.setMembers ms = .ok d') :
    (ms.get? field.name = none ∧ d'.written field = d.written field) ∨
      ∃ v d₁ d₂, ms.get? field.name = some v ∧ set d₁ field v = .ok d₂ ∧
        d'.written field = d₂.written field := by
  induction ms generalizing d with
  | nil =>
    cases h
    exact .inl ⟨rfl, rfl⟩
  | cons m more ih =>
    obtain ⟨key, v⟩ := m
    obtain ⟨fresh, others⟩ := List.nodup_cons.1 nodup
    simp only [setMembers] at h
    rw [Members.get?_cons]
    by_cases same : key = field.name
    · rw [if_pos same]
      rw [FlagField.ofName?_eq_some.2 same] at h
      obtain ⟨d₁, hset, h⟩ := bind_eq_ok.1 h
      -- the members behind have other keys, so they leave the setting alone
      refine .inr ⟨v, d, d₁, rfl, hset, ?_⟩
      rcases ih others h with ⟨-, kept⟩ | ⟨u, -, -, there, -⟩
      · exact kept
      · exact absurd (List.mem_map.2 ⟨_, Members.mem_of_get? there, same.symm⟩) fresh
    · rw [if_neg same]
      cases hname : FlagField.ofName? key with
      | none =>
        rw [hname] at h
        exact ih others h
      | some other =>
        rw [hname] at h
        obtain ⟨d₁, hset, h⟩ := bind_eq_ok.1 h
        have differs : other ≠ field := by
          rintro rfl
          exact same (FlagField.ofName?_eq_some.1 hname)
        rw [← written_of_set_ne differs hset]
        exact ih others h

theorem written_finish {f : FeatureFlag} (h : d.finish? = some f) :
    f.written field = d.written field := by
  obtain ⟨vs, known, rfl⟩ := Option.map_eq_some_iff.1 h
  cases field <;> simp [written, FeatureFlag.written, known]

end FlagDraft

namespace FeatureFlag

variable {ms : Members} {f : FeatureFlag}

theorem ofJson?_obj_eq_ok : ofJson? (.obj ms) = .ok f ↔
    ∃ d, FlagDraft.setMembers {} ms = .ok d ∧ d.finish? = some f := by
  rw [ofJson?, bind_eq_ok]
  refine exists_congr fun d => and_congr_right fun _ => ?_
  cases d.finish? <;> simp

/-- A setting of a decoded flag was never set, or set from the member of its name. -/
theorem written_of_ofJson? (nodup : ms.keys.Nodup) (h : ofJson? (.obj ms) = .ok f)
    (field : FlagField) :
    (ms.get? field.name = none ∧ f.written field = FlagDraft.written {} field) ∨
      ∃ v d₁ d₂, ms.get? field.name = some v ∧ FlagDraft.set d₁ field v = .ok d₂ ∧
        f.written field = d₂.written field := by
  obtain ⟨d, hd, finished⟩ := ofJson?_obj_eq_ok.1 h
  rw [FlagDraft.written_finish finished]
  exact FlagDraft.written_setMembers nodup hd

theorem variations_of_ofJson? (nodup : ms.keys.Nodup) (h : ofJson? (.obj ms) = .ok f) :
    ms.get? "variations" = some (.obj f.variations) := by
  rcases written_of_ofJson? nodup h .variations with ⟨-, unset⟩ | ⟨v, d₁, d₂, there, set, hw⟩
  · cases unset
  · obtain ⟨vs, hv, rfl⟩ := map_eq_ok.1 set
    obtain rfl : f.variations = vs := by simpa [written, FlagDraft.written] using hw
    cases v with
    | obj ms => cases hv; exact there
    | _ => cases hv

theorem targeting_of_ofJson? (nodup : ms.keys.Nodup) (h : ofJson? (.obj ms) = .ok f) :
    f.targeting = (ms.get? "targeting").bind optionalOfJson := by
  rcases written_of_ofJson? nodup h .targeting with ⟨absent, hw⟩ | ⟨v, d₁, d₂, there, set, hw⟩
  · rw [show ms.get? "targeting" = none from absent]
    exact hw
  · cases set
    rw [show ms.get? "targeting" = some v from there]
    exact hw

theorem defaultRule_of_ofJson? (nodup : ms.keys.Nodup) (h : ofJson? (.obj ms) = .ok f) :
    f.defaultRule = (ms.get? "defaultRule").bind optionalOfJson := by
  rcases written_of_ofJson? nodup h .defaultRule with ⟨absent, hw⟩ | ⟨v, d₁, d₂, there, set, hw⟩
  · rw [show ms.get? "defaultRule" = none from absent]
    exact hw
  · cases set
    rw [show ms.get? "defaultRule" = some v from there]
    exact hw

/-! ## Writing -/

@[simp]
theorem get?_optional (key : String) (value? : Option Json) (k : String) :
    (optional key value?).get? k = if key = k then value? else none := by
  cases value? with
  | none => simp [optional, Members.get?]
  | some v => by_cases same : key = k <;> simp [optional, Members.get?, same]

theorem get?_toMembers (f : FeatureFlag) (field : FlagField) :
    f.toMembers.get? field.name = f.written field := by
  cases field <;> simp [toMembers, written, FlagField.name]

theorem isMetadata_toJson (m : Metadata) : m.toJson.IsMetadata := by
  refine ⟨_, rfl, ?_⟩
  intro x hx
  obtain ⟨⟨k, s⟩, -, rfl⟩ := List.mem_map.1 hx
  cases s <;> exact rfl

/-- A flag that is written is one of the data model up to what is kept as JSON. -/
theorem isFlag_toMembers_iff (f : FeatureFlag) : f.toMembers.IsFlag ↔
    f.variations ≠ [] ∧ (∀ v, f.targeting = some v → v.IsObject) ∧
      ∀ v, f.defaultRule = some v → v.IsObject := by
  have there := f.get?_toMembers
  constructor
  · intro flag
    obtain ⟨vs, hv, nonempty⟩ := flag.variations
    obtain rfl : f.variations = vs := by simpa [written] using (there .variations).symm.trans hv
    refine ⟨nonempty, ?_, ?_⟩
    · exact fun v hv => flag.targeting v ((there .targeting).trans hv)
    · exact fun v hv => flag.defaultRule v ((there .defaultRule).trans hv)
  · rintro ⟨nonempty, targeting, defaultRule⟩
    have text : ∀ {s? : Option String} {v : Json}, s?.map .str = some v → v.IsText := by
      intro s? v hv
      obtain ⟨s, -, rfl⟩ := Option.map_eq_some_iff.1 hv
      exact ⟨s, rfl⟩
    refine ⟨⟨_, there .variations, nonempty⟩, ?_, ?_, ?_, ?_, ?_, ?_, ?_⟩ <;> intro v hv
    · exact .inl (text ((there .defaultVariant).symm.trans hv))
    · have word : some (.str f.state.word) = some v := (there .state).symm.trans hv
      obtain rfl := Option.some.inj word
      cases f.state
      · exact .inl rfl
      · exact .inr rfl
    · exact targeting v ((there .targeting).symm.trans hv)
    · exact defaultRule v ((there .defaultRule).symm.trans hv)
    · exact text ((there .bucketingKey).symm.trans hv)
    · exact text ((there .version).symm.trans hv)
    · have metadata := (there .metadata).symm.trans hv
      obtain ⟨-, rfl⟩ : ¬ f.metadata.isEmpty = true ∧ f.metadata.toJson = v := by
        simpa [written] using metadata
      exact isMetadata_toJson f.metadata

end FeatureFlag

end FeatureFlags
