import FeatureFlags.Proofs.Flag.Settings
import FeatureFlags.Proofs.Json.Alike

/-!
# Decoding alike values

Alike values decode to the same flag or to none (`FeatureFlag.exists_ofJson?_of_alike`). The members
of an object are not set in the same order, but each setting comes from the member of its name; the
items of an array are set side by side.
-/

namespace FeatureFlags

variable {u v w : Json}

/-! ## Metadata -/

theorem MetadataValue.isScalar_of_alike {s : MetadataValue} (h : s.toJson.Alike v) :
    v.IsScalar := by
  cases s with
  | bool b => rw [h.eq_bool]; rfl
  | number n =>
    obtain ⟨n', rfl, -⟩ := h.exists_num
    rfl
  | string s => rw [h.eq_str]; rfl

namespace Metadata

variable {m n : Metadata} {ms ns : Members} {es : List (String × MetadataValue)}

/-- The members of metadata in a document. -/
def members (m : Metadata) : Members := m.entries.map fun e => (e.1, e.2.toJson)

theorem keys_members (m : Metadata) : m.members.keys = m.keys := by
  simp [members, Members.keys, KeyMap.keys]

theorem get?_members (m : Metadata) (k : String) :
    m.members.get? k = (m.get? k).map MetadataValue.toJson := by
  simp [members, Members.get?, KeyMap.get?, List.find?_map, Function.comp_def]

/-- Metadata has what the members have that it is decoded from. -/
theorem get?_members_of_ofJson? (nodup : ms.keys.Nodup) (h : ofJson? (.obj ms) = .ok m)
    (k : String) : m.members.get? k = ms.get? k := by
  obtain ⟨_, es, same, hes, rfl⟩ := ofJson?_eq_ok.1 h
  obtain rfl := Json.obj.inj same
  have keys := keys_ofMembers? hes
  obtain rfl := ofMembers?_eq_ok.1 hes
  refine Option.ext fun v => ?_
  rw [get?_members, Members.get?_eq_some_iff nodup, Option.map_eq_some_iff, List.mem_map]
  simp only [KeyMap.get?_ofList (keys ▸ nodup : (es.map (·.1)).Nodup)]
  simp

/-- Alike values decode to metadata with alike members. -/
theorem exists_ofJson?_of_alike (alike : v.Alike w) (h : ofJson? v = .ok m) :
    ∃ n, ofJson? w = .ok n ∧ m.toJson.Alike n.toJson := by
  obtain ⟨ms, es, rfl, hes, -⟩ := ofJson?_eq_ok.1 h
  obtain ⟨ns, rfl, members⟩ := alike.exists_obj
  have scalars : ∀ n ∈ ns, n.2.IsScalar := by
    intro n there
    obtain ⟨v, hv, related⟩ := members.get?_right ((Members.get?_eq_some_iff members.right).2 there)
    have hv := Members.mem_of_get? hv
    rw [ofMembers?_eq_ok.1 hes] at hv
    obtain ⟨e, -, same⟩ := List.mem_map.1 hv
    obtain ⟨-, rfl⟩ := Prod.mk.inj same
    exact MetadataValue.isScalar_of_alike related
  obtain ⟨n, hn⟩ := Metadata.exists_ofJson? ⟨ns, rfl, scalars⟩
  refine ⟨n, hn, Json.alike_obj_iff.2 ⟨?_, ?_, fun k => ?_⟩⟩
  · exact m.keys_members ▸ m.pairwise_keys.imp String.ne_of_lt
  · exact n.keys_members ▸ n.pairwise_keys.imp String.ne_of_lt
  · have same := get?_members_of_ofJson? members.left h k
    have same' := get?_members_of_ofJson? members.right hn k
    exact same ▸ same' ▸ members.values k

theorem same_of_alike (h : m.toJson.Alike n.toJson) : m.same n = true := by
  refine KeyMap.agree_of_rel fun k => ?_
  have values : Option.Rel Json.Alike (m.members.get? k) (n.members.get? k) :=
    (Json.alike_obj_iff.1 h).values k
  rw [get?_members, get?_members, rel_map_iff] at values
  exact rel_mono values fun _ _ => Json.Alike.same

/-- Metadata that is alike is empty or not on both sides. -/
theorem isEmpty_eq_of_alike (h : m.toJson.Alike n.toJson) : m.isEmpty = n.isEmpty := by
  have length := (Json.alike_obj_iff.1 h).length_eq
  rw [List.length_map, List.length_map] at length
  rw [Bool.eq_iff_iff, KeyMap.isEmpty, KeyMap.isEmpty, List.isEmpty_iff_length_eq_zero,
    List.isEmpty_iff_length_eq_zero, length]

end Metadata

/-! ## Settings -/

theorem optionalStringOfJson?_of_alike {s? : Option String} (alike : u.Alike v)
    (h : optionalStringOfJson? u = .ok s?) : optionalStringOfJson? v = .ok s? := by
  cases u with
  | null => rwa [alike.eq_null]
  | str s => rwa [alike.eq_str]
  | _ => cases h

theorem FlagState.ofJson?_of_alike {s : FlagState} (alike : u.Alike v) (h : ofJson? u = .ok s) :
    ofJson? v = .ok s := by
  cases u with
  | str word => rwa [alike.eq_str]
  | obj ms =>
    obtain ⟨ns, rfl, members⟩ := alike.exists_obj
    unfold ofJson? at h
    split at h
    next word same => cases same
    next word value same =>
      obtain rfl := Json.obj.inj same
      obtain ⟨value', rfl, related⟩ := members.exists_singleton
      cases value with
      | null =>
        rw [related.eq_null]
        exact h
      | _ => cases hw : ofWord word <;> simp [hw] at h
    next => cases h
    next => cases h
  | _ => cases h

theorem rel_optionalOfJson (alike : u.Alike v) :
    Option.Rel Json.Alike (optionalOfJson u) (optionalOfJson v) := by
  cases u with
  | null =>
    rw [alike.eq_null]
    exact .none
  | _ => cases v <;> first | exact .some alike | cases alike.same

theorem rel_text (s? : Option String) : Option.Rel Json.Alike (s?.map .str) (s?.map .str) := by
  cases s? with
  | none => exact .none
  | some s => exact .some (Json.alike_refl rfl)

namespace FlagDraft

variable {d d' e : FlagDraft} {field : FlagField} {f : FeatureFlag}

/-- Alike values are written for every setting, or none. -/
def Alike (d e : FlagDraft) : Prop :=
  ∀ field, Option.Rel Json.Alike (d.written field) (e.written field)

theorem alike_unset : Alike {} {} := by
  intro field
  cases h : written {} field with
  | none => exact .none
  | some w =>
    rw [written_unset h]
    exact .some (Json.alike_refl rfl)

/-- What can be set can be set from an alike value, whatever was set before. -/
theorem exists_set_of_alike (alike : u.Alike v) (h : d.set field u = .ok d') (e : FlagDraft) :
    ∃ e', e.set field v = .ok e' ∧ Option.Rel Json.Alike (d'.written field) (e'.written field) := by
  cases field with
  | variations =>
    obtain ⟨ms, hms, rfl⟩ := map_eq_ok.1 h
    cases u with
    | obj =>
      cases hms
      obtain ⟨ns, rfl, -⟩ := alike.exists_obj
      exact ⟨_, rfl, .some alike⟩
    | _ => cases hms
  | state =>
    obtain ⟨s, hs, rfl⟩ := map_eq_ok.1 h
    have decoded := FlagState.ofJson?_of_alike alike hs
    exact ⟨_, map_eq_ok.2 ⟨s, decoded, rfl⟩, .some (Json.alike_refl rfl)⟩
  | targeting | defaultRule =>
    cases h
    exact ⟨_, rfl, rel_optionalOfJson alike⟩
  | metadata =>
    obtain ⟨m, hm, rfl⟩ := map_eq_ok.1 h
    obtain ⟨n, hn, related⟩ := Metadata.exists_ofJson?_of_alike alike hm
    refine ⟨_, map_eq_ok.2 ⟨n, hn, rfl⟩, ?_⟩
    simp only [written, FeatureFlag.written, Metadata.isEmpty_eq_of_alike related]
    split
    · exact .none
    · exact .some related
  | defaultVariant | bucketingKey | version =>
    obtain ⟨s?, hs, rfl⟩ := map_eq_ok.1 h
    exact ⟨_, map_eq_ok.2 ⟨s?, optionalStringOfJson?_of_alike alike hs, rfl⟩, rel_text s?⟩

/-- Setting a setting from alike values keeps drafts alike. -/
theorem Alike.exists_set (before : d.Alike e) (alike : u.Alike v) (h : d.set field u = .ok d') :
    ∃ e', e.set field v = .ok e' ∧ d'.Alike e' := by
  obtain ⟨e', he, written⟩ := exists_set_of_alike alike h e
  refine ⟨e', he, fun other => ?_⟩
  by_cases same : field = other
  · exact same ▸ written
  · rw [written_of_set_ne same h, written_of_set_ne same he]
    exact before other

theorem Alike.exists_setItems {fields : List FlagField} {as bs : List Json} (before : d.Alike e)
    (items : List.Forall₂ Json.Alike as bs) (h : d.setItems fields as = .ok d') :
    ∃ e', e.setItems fields bs = .ok e' ∧ d'.Alike e' := by
  induction items generalizing d e fields with
  | nil =>
    cases fields <;> cases h <;> exact ⟨e, rfl, before⟩
  | cons first _ ih =>
    cases fields with
    | nil =>
      cases h
      exact ⟨e, rfl, before⟩
    | cons field fields =>
      obtain ⟨d₁, hset, h⟩ := bind_eq_ok.1 h
      obtain ⟨e₁, he, after⟩ := before.exists_set first hset
      obtain ⟨e', rest, alike⟩ := ih after h
      exact ⟨e', bind_eq_ok.2 ⟨e₁, he, rest⟩, alike⟩

end FlagDraft

/-! ## Flags -/

namespace FeatureFlag

variable {f g : FeatureFlag}

/-- Alike values are written for every setting, or none. -/
def Alike (f g : FeatureFlag) : Prop :=
  ∀ field, Option.Rel Json.Alike (f.written field) (g.written field)

theorem exists_finish_of_alike {d e : FlagDraft} (alike : d.Alike e) (h : d.finish? = some f) :
    ∃ g, e.finish? = some g ∧ f.Alike g := by
  obtain ⟨vs, known, -⟩ := Option.map_eq_some_iff.1 h
  obtain ⟨_, there, -⟩ := (rel_iff.1 (alike .variations)).1 (.obj vs) (by
    simp [FlagDraft.written, known])
  obtain ⟨us, known', -⟩ := Option.map_eq_some_iff.1 there
  have finished : e.finish? = some { e.rest with variations := us } := by
    simp [FlagDraft.finish?, known']
  refine ⟨_, finished, fun field => ?_⟩
  rw [FlagDraft.written_finish h, FlagDraft.written_finish finished]
  exact alike field

theorem exists_ofJson?_of_members {ms ns : Members} (members : ms.Alike ns)
    (h : ofJson? (.obj ms) = .ok f) : ∃ g, ofJson? (.obj ns) = .ok g ∧ f.Alike g := by
  -- a member that names a setting is there on both sides, and was set on the first
  have settable : ∀ (field : FlagField) w, ns.get? field.name = some w → ∀ e : FlagDraft,
      ∃ e', e.set field w = .ok e' ∧
        Option.Rel Json.Alike (f.written field) (e'.written field) := by
    intro field w hw e
    obtain ⟨v, hv, alike⟩ := members.get?_right hw
    rcases written_of_ofJson? members.left h field with
      ⟨absent, -⟩ | ⟨_, d₁, d₂, there, hset, same⟩
    · rw [hv] at absent
      cases absent
    · obtain rfl := Option.some.inj (hv.symm.trans there)
      rw [same]
      exact FlagDraft.exists_set_of_alike alike hset e
  obtain ⟨g, hg⟩ : ∃ g, ofJson? (.obj ns) = .ok g := by
    refine exists_ofJson?_of_settable members.right ?_ fun m hm field named e => ?_
    · obtain ⟨_, there, alike⟩ := members.get?_left (variations_of_ofJson? members.left h)
      obtain ⟨us, rfl, -⟩ := alike.exists_obj
      exact ⟨us, there⟩
    · have there : ns.get? field.name = some m.2 := by
        rw [Members.get?_eq_some_iff members.right, ← FlagField.ofName?_eq_some.1 named]
        exact hm
      exact (settable field m.2 there e).imp fun _ => And.left
  refine ⟨g, hg, fun field => ?_⟩
  rcases written_of_ofJson? members.right hg field with
    ⟨absent, unset⟩ | ⟨w, e₁, e₂, hw, hset, same⟩
  · rw [← rel_none_iff (members.values _)] at absent
    rcases written_of_ofJson? members.left h field with ⟨-, unset'⟩ | ⟨v, _, _, hv, -⟩
    · rw [unset, unset']
      exact FlagDraft.alike_unset field
    · rw [absent] at hv
      cases hv
  · obtain ⟨e', hset', related⟩ := settable field w hw e₁
    obtain rfl := Except.ok.inj (hset.symm.trans hset')
    exact same ▸ related

/-- Alike values decode to flags for which alike values are written. -/
theorem exists_ofJson?_of_alike (alike : v.Alike w) (h : ofJson? v = .ok f) :
    ∃ g, ofJson? w = .ok g ∧ f.Alike g := by
  cases v with
  | obj ms =>
    obtain ⟨ns, rfl, members⟩ := alike.exists_obj
    exact exists_ofJson?_of_members members h
  | arr as =>
    obtain ⟨bs, rfl, items⟩ := alike.exists_arr
    obtain ⟨d, hd, finished, fits⟩ := ofJson?_arr_eq_ok.1 h
    obtain ⟨e, he, after⟩ := FlagDraft.alike_unset.exists_setItems items hd
    obtain ⟨g, finished', related⟩ := exists_finish_of_alike after finished
    exact ⟨g, ofJson?_arr_eq_ok.2 ⟨e, he, finished', items.length_eq ▸ fits⟩, related⟩
  | _ => cases h

theorem text_eq_of_rel {s t : Option String}
    (h : Option.Rel Json.Alike (s.map .str) (t.map .str)) : s = t := by
  rw [rel_map_iff] at h
  cases h with
  | none => rfl
  | some alike => exact congrArg some (Json.str.inj alike.eq_str).symm

theorem sameOptional_of_rel {x y : Option Json} (h : Option.Rel Json.Alike x y) :
    same.sameOptional x y = true := by
  cases h with
  | none => rfl
  | some alike => exact alike.same

theorem Alike.metadata (h : f.Alike g) : f.metadata.toJson.Alike g.metadata.toJson := by
  have written := h .metadata
  simp only [FeatureFlag.written] at written
  by_cases hf : f.metadata.isEmpty <;> by_cases hg : g.metadata.isEmpty
  · rw [KeyMap.eq_empty hf, KeyMap.eq_empty hg]
    exact Json.alike_refl rfl
  · rw [if_pos hf, if_neg hg] at written
    cases written
  · rw [if_neg hf, if_pos hg] at written
    cases written
  · rw [if_neg hf, if_neg hg] at written
    exact Option.rel_some_some.1 written

/-- Flags for which alike values are written are equal. -/
theorem Alike.same (h : f.Alike g) : f.same g = true := by
  have variations : (Json.obj f.variations).Alike (.obj g.variations) :=
    Option.rel_some_some.1 (h .variations)
  have state : f.state = g.state :=
    FlagState.word_injective (Json.str.inj (Option.rel_some_some.1 (h .state)).eq_str).symm
  have defaultVariant := text_eq_of_rel (h .defaultVariant)
  have targeting : same.sameOptional f.targeting g.targeting = true :=
    sameOptional_of_rel (h .targeting)
  have defaultRule : same.sameOptional f.defaultRule g.defaultRule = true :=
    sameOptional_of_rel (h .defaultRule)
  have bucketingKey := text_eq_of_rel (h .bucketingKey)
  have version := text_eq_of_rel (h .version)
  simp [FeatureFlag.same, variations.same, state, defaultVariant, targeting, defaultRule,
    bucketingKey, version, Metadata.same_of_alike h.metadata]

end FeatureFlag

end FeatureFlags
