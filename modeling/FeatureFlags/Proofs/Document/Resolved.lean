import FeatureFlags.Proofs.Document.ReferenceFree
import FeatureFlags.Proofs.Flag.Settings
import FeatureFlags.Proofs.Reference.Static

/-!
# No reference survives

A value without markers to stop at has no object with their key at any depth
(`Json.Closed.referenceFree`), and an expansion leaves no markers. Decoding makes settings out of
parts of the expanded value only, so it adds none: the flags of an accepted document are free of
references (`referenceFree_of_parsedBy`), whoever validated it.
-/

namespace FeatureFlags

theorem Json.Closed.referenceFree {v : Json} (h : v.Closed) : v.ReferenceFree := by
  intro ms inside
  rw [← Bool.not_eq_true]
  intro marker
  have none := h.sites_eq ""
  obtain ⟨site, there, -⟩ := exists_site (p := "") inside marker (by simp [none])
  rw [none] at there
  cases there

theorem Json.referenceFree_str (s : String) : (Json.str s).ReferenceFree :=
  referenceFree_of_atom (by simp) (by simp)

theorem Json.ReferenceFree.inside {u v : Json} (h : v.ReferenceFree) (part : u.Inside v) :
    u.ReferenceFree :=
  fun ms inner => h ms (inner.trans part)

/-! ## Through decoding -/

theorem MetadataValue.referenceFree_toJson (s : MetadataValue) : s.toJson.ReferenceFree := by
  cases s <;> exact Json.referenceFree_of_atom (by simp [toJson]) (by simp [toJson])

namespace Metadata

theorem referenceFree_toJson {m : Metadata} :
    m.toJson.ReferenceFree ↔ m.get? refKey = none := by
  have scalars : ∀ e ∈ m.entries.map (fun e => (e.1, e.2.toJson)), e.2.ReferenceFree := by
    intro e he
    obtain ⟨⟨k, s⟩, -, rfl⟩ := List.mem_map.1 he
    exact s.referenceFree_toJson
  rw [toJson, Json.referenceFree_obj, and_iff_left scalars, ← Bool.not_eq_true,
    Members.has_iff_mem_keys, KeyMap.get?_eq_none_iff]
  simp [Members.keys, KeyMap.keys]

/-- Metadata has no other keys than what it was decoded from. -/
theorem referenceFree_of_ofJson? {v : Json} {m : Metadata} (h : ofJson? v = .ok m)
    (free : v.ReferenceFree) : m.toJson.ReferenceFree := by
  obtain ⟨ms, es, rfl, hes, rfl⟩ := ofJson?_eq_ok.1 h
  rw [referenceFree_toJson, KeyMap.get?_eq_none_iff]
  intro there
  obtain ⟨e, he, same⟩ := List.mem_map.1 there
  have key : refKey ∈ ms.keys := by
    rw [← keys_ofMembers? hes]
    exact List.mem_map.2 ⟨e, KeyMap.mem_of_mem_entries_ofList he, same⟩
  have absent := (Json.referenceFree_obj.1 free).1
  rw [Members.has_iff_mem_keys.2 key] at absent
  cases absent

end Metadata

/-- What is set from a value without references is written without any. -/
theorem FlagDraft.referenceFree_of_set {d d' : FlagDraft} {field : FlagField} {u w : Json}
    (h : d.set field u = .ok d') (free : u.ReferenceFree) (hw : d'.written field = some w) :
    w.ReferenceFree := by
  cases field with
  | variations =>
    obtain ⟨ms, hms, rfl⟩ := map_eq_ok.1 h
    obtain rfl : .obj ms = w := by simpa [written] using hw
    cases u with
    | obj => cases hms; exact free
    | _ => cases hms
  | targeting | defaultRule =>
    cases h
    have same : optionalOfJson u = some w := hw
    cases u <;> cases same <;> exact free
  | metadata =>
    obtain ⟨m, hm, rfl⟩ := map_eq_ok.1 h
    obtain ⟨-, rfl⟩ : ¬ m.isEmpty = true ∧ m.toJson = w := by
      simpa [written, FeatureFlag.written] using hw
    exact Metadata.referenceFree_of_ofJson? hm free
  | state =>
    obtain ⟨s, -, rfl⟩ := map_eq_ok.1 h
    cases hw
    exact Json.referenceFree_str _
  | _ =>
    obtain ⟨s?, -, rfl⟩ := map_eq_ok.1 h
    obtain ⟨s, -, rfl⟩ := Option.map_eq_some_iff.1 hw
    exact Json.referenceFree_str _

namespace FeatureFlag

/-- No reference can be made from the flag: neither of its maps has the key of a marker, and no
object inside its values has. -/
structure ReferenceFree (f : FeatureFlag) : Prop where
  variations : f.variations.has refKey = false
  variation : ∀ m ∈ f.variations, m.2.ReferenceFree
  metadata : f.metadata.get? refKey = none
  targeting : ∀ v, f.targeting = some v → v.ReferenceFree
  defaultRule : ∀ v, f.defaultRule = some v → v.ReferenceFree

variable {f : FeatureFlag} {v : Json}

theorem referenceFree_iff :
    f.ReferenceFree ↔ ∀ field w, f.written field = some w → w.ReferenceFree := by
  constructor
  · intro free field w hw
    cases field with
    | variations =>
      obtain rfl : .obj f.variations = w := Option.some.inj hw
      exact Json.referenceFree_obj.2 ⟨free.variations, free.variation⟩
    | targeting => exact free.targeting w hw
    | defaultRule => exact free.defaultRule w hw
    | metadata =>
      obtain ⟨-, rfl⟩ : ¬ f.metadata.isEmpty = true ∧ f.metadata.toJson = w := by
        simpa [written] using hw
      exact Metadata.referenceFree_toJson.2 free.metadata
    | state =>
      cases hw
      exact Json.referenceFree_str _
    | _ =>
      obtain ⟨s, -, rfl⟩ := Option.map_eq_some_iff.1 hw
      exact Json.referenceFree_str s
  · intro free
    have variations := Json.referenceFree_obj.1 (free .variations _ rfl)
    refine ⟨variations.1, variations.2, ?_, free .targeting, free .defaultRule⟩
    by_cases none : f.metadata.isEmpty
    · rw [KeyMap.eq_empty none, KeyMap.get?_empty]
    · exact Metadata.referenceFree_toJson.1 (free .metadata _ (if_neg none))

theorem ReferenceFree.toJson (h : f.ReferenceFree) : f.toJson.ReferenceFree := by
  refine Json.referenceFree_obj.2 ⟨?_, fun m hm => ?_⟩
  · rw [← Bool.not_eq_true, Members.has_iff]
    rintro ⟨v, hv⟩
    obtain ⟨field, name, -⟩ := mem_toMembers.1 (Members.mem_of_get? hv)
    have other : ∀ field : FlagField, refKey ≠ field.name := by
      intro field
      cases field <;> decide
    exact other field name
  · obtain ⟨field, -, hw⟩ := mem_toMembers.1 hm
    exact referenceFree_iff.1 h field m.2 hw

/-- A flag that is decoded from a value without references has none. -/
theorem referenceFree_of_ofJson? (h : ofJson? v = .ok f) (free : v.ReferenceFree) :
    f.ReferenceFree := by
  refine referenceFree_iff.2 fun field w hw => ?_
  rcases written_of_inside h field with unset | ⟨u, d, d', part, hset, same⟩
  · obtain rfl := FlagDraft.written_unset (unset.symm.trans hw)
    exact Json.referenceFree_str _
  · exact FlagDraft.referenceFree_of_set hset (free.inside part) (same ▸ hw)

end FeatureFlag

/-! ## Accepted documents -/

/-- A map that is read from a text or from a document. -/
def FlagMap.ParsedBy (m : FlagMap) (validator : Validator) (options : Options) : Prop :=
  (∃ text, parseWith validator options text = .ok m) ∨
    ∃ document, parseDocument validator options document = .ok m

variable {validator : Validator} {options : Options} {m : FlagMap}

theorem parseDocument_eq_ok {document : Json} : parseDocument validator options document = .ok m ↔
    validator document = .ok () ∧ build options document = .ok m := by
  constructor
  · intro h
    obtain ⟨⟨⟩, hv, h⟩ := bind_eq_ok.1 h
    exact ⟨mapError_eq_ok.1 hv, h⟩
  · rintro ⟨hv, h⟩
    rw [parseDocument_eq hv, h]

theorem FlagMap.ParsedBy.built (h : m.ParsedBy validator options) :
    ∃ document, build options document = .ok m := by
  rcases h with ⟨text, h⟩ | ⟨document, h⟩
  · obtain ⟨source, -, -, -, hb⟩ := parseWith_eq_ok.1 h
    exact ⟨source.value, hb⟩
  · exact ⟨document, (parseDocument_eq_ok.1 h).2⟩

/-- An accepted document has its own flags. -/
theorem perm_keys_of_build {document : Json} {flags : Members} (hf : document.flags? = .ok flags)
    (nodup : flags.keys.Nodup) (accepted : build options document = .ok m) :
    m.flags.keys.Perm flags.keys := by
  obtain ⟨evaluators, -, -, -, he, -, -, -, -⟩ := build_eq_ok.1 accepted
  obtain ⟨built, entries, keys, -, -⟩ := built_of_build he hf accepted
  rw [← keys] at nodup ⊢
  rw [entries]
  exact KeyMap.perm_keys_ofList nodup

/-- Each flag of an accepted document is decoded from a value without markers. -/
theorem decoded_of_build {document : Json} (accepted : build options document = .ok m)
    {f : String × FeatureFlag} (hf : f ∈ m.flags.entries) :
    ∃ v : Json, v.Closed ∧ flagOfResolved options (flagPointer f.1) v = .ok f.2 := by
  obtain ⟨evaluators, flags, -, -, he, hflags, -, -, -⟩ := build_eq_ok.1 accepted
  obtain ⟨built, entries, -, -, back⟩ := built_of_build he hflags accepted
  rw [entries] at hf
  obtain ⟨raw, -, key, v, hx, decoded⟩ := back f (KeyMap.mem_of_mem_entries_ofList hf)
  exact ⟨v, Resolver.closed_of_expand_done hx, key ▸ decoded⟩

/-- No reference survives in a map, however it was validated and whatever the options: no flag has
the key of a marker in its maps or in any object inside its values, so no reference is found in any
part of a flag. -/
theorem referenceFree_of_parsedBy (h : m.ParsedBy validator options) :
    ∀ f ∈ m.flags.entries, f.2.ReferenceFree ∧
      ∀ v : Json, v.Inside f.2.toJson → ∀ p, v.references p = [] := by
  intro f hf
  obtain ⟨document, accepted⟩ := h.built
  obtain ⟨v, closed, decoded⟩ := decoded_of_build accepted hf
  have free := FeatureFlag.referenceFree_of_ofJson? (flagOfResolved_eq_ok.1 decoded).1
    closed.referenceFree
  refine ⟨free, fun part inside p => List.eq_nil_iff_forall_not_mem.2 fun r hr => ?_⟩
  obtain ⟨ms, leads, there⟩ := Json.mem_references.1 hr
  have absent := free.toJson ms (leads.inside.trans inside)
  rw [Members.has_iff.2 ⟨_, there⟩] at absent
  cases absent

/-- Markers for a whole flag, for a variation of an array, and for a rule by way of a second
evaluator; the first flag is named like their key. -/
def markersThroughout : Json :=
  .obj [
    (flagsKey, .obj [
      (refKey, .marker "switch"),
      ("listed", .arr [.obj [("up", .marker "up")], .null, .str "ENABLED", .marker "rule"])]),
    (evaluatorsKey, .obj [
      ("switch", .obj [("variations", .obj [("on", .marker "up")]), ("targeting", .marker "rule")]),
      ("rule", .obj [("if", .marker "condition")]),
      ("condition", .arr [.marker "up"]),
      ("up", .bool true)])]

theorem markersThroughout_resolved : ∃ m, parseDocument .acceptAll {} markersThroughout = .ok m ∧
    m.flags.keys.Perm [refKey, "listed"] ∧ ∀ f ∈ m.flags.entries, f.2.ReferenceFree ∧
      ∀ v : Json, v.Inside f.2.toJson → ∀ p, v.references p = [] := by
  have accepted : (parseDocument .acceptAll {} markersThroughout).toOption.isSome = true := by
    decide +kernel
  obtain ⟨m, hm⟩ := isSome_toOption.1 accepted
  have keys := perm_keys_of_build rfl (by decide) (parseDocument_eq_ok.1 hm).2
  exact ⟨m, hm, keys, referenceFree_of_parsedBy (.inr ⟨_, hm⟩)⟩

end FeatureFlags
