import FeatureFlags.Proofs.Flag.Admitted
import FeatureFlags.Proofs.Json.Inside
import FeatureFlags.Proofs.KeyMap

/-!
# The settings of a flag

A flag is told by what is written for its settings (`FeatureFlag.ext_written`), and of a decoded one
each setting was never set or was set from a part of the value that it was decoded from
(`FeatureFlag.written_of_inside`). So a flag is read back from what is written for it, unless a null
is written for a setting that is kept as JSON (`FeatureFlag.ofJson?_toJson`); no decoded flag has
one.
-/

namespace FeatureFlags

/-! ## Metadata -/

theorem MetadataValue.ofJson_eq_ok {v : Json} {s : MetadataValue} :
    ofJson v = .ok s ↔ v = s.toJson := by
  cases v <;> cases s <;> simp [ofJson, ofJson?, toJson]

namespace Metadata

/-- Metadata is decoded member by member. -/
theorem ofMembers?_eq_ok {ms : Members} {es : List (String × MetadataValue)} :
    ofMembers? ms = .ok es ↔ ms = es.map fun e => (e.1, e.2.toJson) := by
  constructor
  · intro h
    induction ms generalizing es with
    | nil =>
      cases h
      rfl
    | cons m more ih =>
      simp only [ofMembers?] at h
      cases first : MetadataValue.ofJson m.2 with
      | error e => simp [first] at h
      | ok s =>
        rw [first] at h
        obtain ⟨rest, hr, rfl⟩ := map_eq_ok.1 h
        rw [List.map_cons, ← ih hr, ← MetadataValue.ofJson_eq_ok.1 first]
  · rintro rfl
    induction es with
    | nil => rfl
    | cons e more ih =>
      have first : MetadataValue.ofJson e.2.toJson = .ok e.2 := MetadataValue.ofJson_eq_ok.2 rfl
      simp only [List.map_cons, ofMembers?, first, ih]
      rfl

theorem ofJson?_eq_ok {v : Json} {m : Metadata} : ofJson? v = .ok m ↔ ∃ (ms : Members) (es : _),
    v = .obj ms ∧ ofMembers? ms = .ok es ∧ m = .ofList es := by
  cases v with
  | obj ms => simp [ofJson?, membersOfJson?, map_eq_ok, @eq_comm _ m]
  | _ => simp [ofJson?, membersOfJson?]

theorem keys_ofMembers? {ms : Members} {es : List (String × MetadataValue)}
    (h : ofMembers? ms = .ok es) : es.map (·.1) = ms.keys := by
  rw [ofMembers?_eq_ok.1 h, Members.keys, List.map_map]
  rfl

/-- What is written for metadata is read back. -/
theorem ofJson?_toJson (m : Metadata) : ofJson? m.toJson = .ok m := by
  have read : ofJson? m.toJson = .ok (.ofList m.entries) := by
    unfold ofJson? toJson membersOfJson?
    dsimp only
    rw [ofMembers?_eq_ok.2 rfl]
    rfl
  rw [read, KeyMap.ofList_entries]

theorem toJson_injective {m n : Metadata} (h : m.toJson = n.toJson) : m = n := by
  have same := congrArg ofJson? h
  rw [ofJson?_toJson, ofJson?_toJson] at same
  exact Except.ok.inj same

end Metadata

/-! ## A part of the value for each setting -/

namespace FlagDraft

variable {P : FlagDraft → Prop} {d d' : FlagDraft} {field : FlagField} {v u w : Json}

theorem setMembers_induct {ms : Members}
    (step : ∀ m ∈ ms, ∀ d field d', P d → d.set field m.2 = .ok d' → P d') (start : P d)
    (h : d.setMembers ms = .ok d') : P d' := by
  induction ms generalizing d with
  | nil =>
    cases h
    exact start
  | cons m more ih =>
    obtain ⟨first, rest⟩ := List.forall_mem_cons.1 step
    simp only [setMembers] at h
    cases named : FlagField.ofName? m.1 with
    | none =>
      rw [named] at h
      exact ih rest start h
    | some field =>
      rw [named] at h
      obtain ⟨d₁, hset, h⟩ := bind_eq_ok.1 h
      exact ih rest (first d field d₁ start hset) h

theorem setItems_induct {fields : List FlagField} {items : List Json}
    (step : ∀ u ∈ items, ∀ d field d', P d → d.set field u = .ok d' → P d') (start : P d)
    (h : d.setItems fields items = .ok d') : P d' := by
  induction items generalizing d fields with
  | nil =>
    cases fields <;> cases h <;> exact start
  | cons u more ih =>
    obtain ⟨first, rest⟩ := List.forall_mem_cons.1 step
    cases fields with
    | nil =>
      cases h
      exact start
    | cons field fields =>
      obtain ⟨d₁, hset, h⟩ := bind_eq_ok.1 h
      exact ih rest (first d field d₁ start hset) h

/-- What is written for a setting that was just set is no null. -/
theorem written_set_ne_null (h : d.set field u = .ok d') : d'.written field ≠ some .null := by
  cases field with
  | targeting | defaultRule =>
    cases h
    cases u <;> simp [written, FeatureFlag.written, optionalOfJson]
  | metadata =>
    obtain ⟨m, -, rfl⟩ := map_eq_ok.1 h
    simp only [written, FeatureFlag.written]
    split <;> simp [Metadata.toJson]
  | _ =>
    obtain ⟨x, -, rfl⟩ := map_eq_ok.1 h
    simp [written, FeatureFlag.written]

theorem written_unset (h : written {} field = some w) : w = .str FlagState.enabled.word := by
  cases field <;> simp [written, FeatureFlag.written, KeyMap.isEmpty, KeyMap.empty] at h
  exact h.symm

end FlagDraft

theorem FlagState.word_injective {s t : FlagState} (h : s.word = t.word) : s = t := by
  cases s <;> cases t <;> first | rfl | simp [word] at h

namespace FeatureFlag

variable {f g : FeatureFlag} {field : FlagField} {v w : Json}

theorem ofJson?_arr_eq_ok {items : List Json} : ofJson? (.arr items) = .ok f ↔
    ∃ d, FlagDraft.setItems {} FlagField.all items = .ok d ∧ d.finish? = some f ∧
      items.length ≤ FlagField.all.length := by
  rw [ofJson?, bind_eq_ok]
  refine exists_congr fun d => and_congr_right fun _ => ?_
  cases d.finish? with
  | none => simp
  | some g =>
    dsimp only
    split
    next long => simp [Nat.not_le.2 long]
    next fits => simp [Nat.not_lt.1 fits]

/-- What every part of a value keeps as it is set holds of the draft of the decoded flag. -/
theorem ofJson?_induct {P : FlagDraft → Prop} (start : P {})
    (step : ∀ d field u d', u.Inside v → P d → d.set field u = .ok d' → P d')
    (h : ofJson? v = .ok f) : ∃ d, P d ∧ d.finish? = some f := by
  cases v with
  | obj ms =>
    obtain ⟨d, hd, finished⟩ := ofJson?_obj_eq_ok.1 h
    refine ⟨d, FlagDraft.setMembers_induct (fun m hm d field d' => ?_) start hd, finished⟩
    exact step d field m.2 d' (.member hm (.self _))
  | arr items =>
    obtain ⟨d, hd, finished, -⟩ := ofJson?_arr_eq_ok.1 h
    refine ⟨d, FlagDraft.setItems_induct (fun u hu d field d' => ?_) start hd, finished⟩
    exact step d field u d' (.item hu (.self _))
  | _ => cases h

/-- A setting of a decoded flag was never set, or was set from a part of the value. -/
theorem written_of_inside (h : ofJson? v = .ok f) (field : FlagField) :
    f.written field = FlagDraft.written {} field ∨
      ∃ u d d', u.Inside v ∧ FlagDraft.set d field u = .ok d' ∧
        f.written field = d'.written field := by
  obtain ⟨d, parts, finished⟩ := ofJson?_induct (P := fun d =>
    d.written field = FlagDraft.written {} field ∨ ∃ u d₁ d₂, u.Inside v ∧
      FlagDraft.set d₁ field u = .ok d₂ ∧ d.written field = d₂.written field) (.inl rfl) (by
    intro d other u d' inside before hset
    by_cases same : other = field
    · subst same
      exact .inr ⟨u, d, d', inside, hset, rfl⟩
    · rwa [FlagDraft.written_of_set_ne same hset]) h
  rwa [FlagDraft.written_finish finished]

/-- No null is written for a decoded flag. -/
theorem written_ne_null (h : ofJson? v = .ok f) (field : FlagField) : f.written field ≠ some .null := by
  rcases written_of_inside h field with unset | ⟨u, d, d', -, hset, hw⟩
  · intro null
    have word := FlagDraft.written_unset (unset.symm.trans null)
    cases word
  · rw [hw]
    exact FlagDraft.written_set_ne_null hset

/-! ## Reading back what is written -/

/-- A flag is told by what is written for its settings. -/
theorem ext_written (same : ∀ field, f.written field = g.written field) : f = g := by
  have texts : ∀ {s t : Option String}, s.map Json.str = t.map Json.str → s = t :=
    fun h => Option.map_injective (fun _ _ => Json.str.inj) h
  have variations : f.variations = g.variations := by simpa [written] using same .variations
  have state : f.state = g.state := by
    refine FlagState.word_injective ?_
    simpa [written] using same .state
  have metadata : f.metadata = g.metadata := by
    have document := same .metadata
    simp only [written] at document
    by_cases hf : f.metadata.isEmpty <;> by_cases hg : g.metadata.isEmpty
    · exact (KeyMap.eq_empty hf).trans (KeyMap.eq_empty hg).symm
    · simp [hf, hg] at document
    · simp [hf, hg] at document
    · exact Metadata.toJson_injective (by simpa [hf, hg] using document)
  have defaultVariant := texts (same .defaultVariant)
  have targeting : f.targeting = g.targeting := same .targeting
  have defaultRule : f.defaultRule = g.defaultRule := same .defaultRule
  have bucketingKey := texts (same .bucketingKey)
  have version := texts (same .version)
  obtain ⟨_, _, _, _, _, _, _, _⟩ := f
  obtain ⟨_, _, _, _, _, _, _, _⟩ := g
  simp_all

theorem toMembers_eq (f : FeatureFlag) :
    f.toMembers = FlagField.all.flatMap fun field => optional field.name (f.written field) := by
  simp [toMembers, FlagField.all, FlagField.name, written, optional]

theorem mem_toMembers {m : String × Json} :
    m ∈ f.toMembers ↔ ∃ field : FlagField, m.1 = field.name ∧ f.written field = some m.2 := by
  have every : ∀ field, field ∈ FlagField.all := by
    intro field
    cases field <;> decide
  obtain ⟨k, v⟩ := m
  rw [toMembers_eq, List.mem_flatMap]
  refine exists_congr fun field => ?_
  cases f.written field <;> simp [every, optional, eq_comm]

open List in
theorem keys_flatMap_optional (fields : List FlagField) :
    Members.keys (fields.flatMap fun field => optional field.name (f.written field)) <+
      fields.map (·.name) := by
  induction fields with
  | nil => exact .slnil
  | cons field more ih =>
    rw [List.flatMap_cons, List.map_cons, Members.keys, List.map_append]
    cases f.written field with
    | none => exact ih.cons _
    | some v => exact ih.cons_cons _

theorem nodup_keys_toMembers (f : FeatureFlag) : f.toMembers.keys.Nodup := by
  rw [toMembers_eq]
  exact (keys_flatMap_optional FlagField.all).nodup (by decide)

theorem exists_set_written (hw : f.written field = some w) (real : w ≠ .null) (d : FlagDraft) :
    ∃ d', d.set field w = .ok d' ∧ d'.written field = some w := by
  cases field with
  | targeting | defaultRule =>
    refine ⟨_, rfl, ?_⟩
    cases w <;> first | rfl | exact absurd rfl real
  | metadata =>
    simp only [written, Option.ite_none_left_eq_some, Option.some.injEq] at hw
    obtain ⟨full, rfl⟩ := hw
    refine ⟨_, map_eq_ok.2 ⟨f.metadata, Metadata.ofJson?_toJson _, rfl⟩, ?_⟩
    simp [FlagDraft.written, written, full]
  | state =>
    obtain rfl := Option.some.inj hw
    refine ⟨_, map_eq_ok.2 ⟨f.state, ?_, rfl⟩, rfl⟩
    cases f.state <;> rfl
  | variations =>
    obtain rfl := Option.some.inj hw
    exact ⟨_, rfl, rfl⟩
  | _ =>
    obtain ⟨s, -, rfl⟩ := Option.map_eq_some_iff.1 hw
    exact ⟨_, rfl, rfl⟩

/-- A flag without a null among its settings is read back from what is written for it. -/
theorem ofJson?_toJson (real : ∀ field, f.written field ≠ some .null) : ofJson? f.toJson = .ok f := by
  have nodup := f.nodup_keys_toMembers
  have there := f.get?_toMembers
  obtain ⟨g, hg⟩ : ∃ g, ofJson? (.obj f.toMembers) = .ok g := by
    refine exists_ofJson?_of_settable nodup ⟨_, there .variations⟩ ?_
    intro m hm field named d
    have hw : f.written field = some m.2 := by
      rw [← there field, Members.get?_eq_some_iff nodup, ← FlagField.ofName?_eq_some.1 named]
      exact hm
    have settable := exists_set_written hw (fun null => real field (null ▸ hw)) d
    exact settable.imp fun _ => And.left
  rw [toJson, hg]
  refine congrArg _ (ext_written fun field => ?_)
  rcases written_of_ofJson? nodup hg field with ⟨absent, unset⟩ | ⟨v, d₁, d₂, hv, hset, hw⟩
  · -- only a setting that has a value of its own when it is not set is always written
    rw [there] at absent
    cases field with
    | state => cases absent
    | variations => cases absent
    | _ => rw [unset, absent]; rfl
  · rw [there] at hv
    obtain ⟨d', hset', hw'⟩ := exists_set_written hv (fun null => real field (null ▸ hv)) d₁
    obtain rfl := Except.ok.inj (hset.symm.trans hset')
    rw [hw, hw', hv]

end FeatureFlag

end FeatureFlags
