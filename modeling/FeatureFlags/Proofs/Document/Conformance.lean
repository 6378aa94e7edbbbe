import FeatureFlags.Proofs.Document.Build

/-!
# Whether what is built conforms

The schema is checked before references are replaced, and a marker passes it wherever an object
may stand. So the document of an accepted text conforms again exactly if whatever replaces the
variations, the targeting or the default rule of a flag as a whole is fit to stand there
(`parse_conforms_iff`); nothing else in a flag can break a rule. `emptyVariations_not_conforming`
is an accepted text for which it is not.
-/

namespace FeatureFlags

/-- The value replaces the whole member under a key, which is a marker. -/
def Members.Replaces (evaluators ms : Members) (key : String) (w : Json) : Prop :=
  ∃ name, ms.get? key = some (.marker name) ∧ Resolver.copy evaluators [] name "" = .ok w

/-- What replaces a whole setting of a flag may stand there; a null is left out. -/
structure Members.FragmentsFit (evaluators ms : Members) : Prop where
  variations : ¬ evaluators.Replaces ms "variations" (.obj [])
  targeting : ∀ w, evaluators.Replaces ms "targeting" w → w.IsObject ∨ w = .null
  defaultRule : ∀ w, evaluators.Replaces ms "defaultRule" w → w.IsObject ∨ w = .null

section

variable {evaluators ms ws inner : Members} {p : Pointer} {key : String} {w : Json}

/-- An object under a key is replaced as a whole, or keeps its own keys. -/
theorem replaced_or_kept (there : ms.get? key = some (.obj inner))
    (h : Resolver.expand evaluators [] (.obj inner) p = ⟨w, none⟩) :
    (∀ u, evaluators.Replaces ms key u ↔ u = w) ∨
      (∀ u, ¬ evaluators.Replaces ms key u) ∧ ∃ inner' : Members, w = .obj inner' ∧
        inner'.keys = inner.keys := by
  rcases Resolver.expand_obj_done h with ⟨name, marker, copied⟩ | ⟨other, inner', rfl, hx⟩
  · left
    intro u
    constructor
    · rintro ⟨name', there', copied'⟩
      rw [there, marker] at there'
      obtain rfl : name = name' := by simpa [Json.marker] using there'
      rw [Resolver.copy_eq_ok_congr p, copied] at copied'
      exact (Except.ok.inj copied').symm
    · rintro rfl
      exact ⟨name, marker ▸ there, (Resolver.copy_eq_ok_congr "").1 copied⟩
  · refine .inr ⟨?_, inner', rfl, Resolver.keys_expandMembers hx⟩
    rintro u ⟨name, there', -⟩
    rw [there] at there'
    obtain rfl : inner = [(refKey, .str name)] := by simpa [Json.marker] using there'
    rw [Members.isMarker_marker] at other
    cases other

theorem isObject_expanded_iff (shape : ms.IfPresent key Json.IsObject)
    (h : Resolver.expandMembers evaluators [] ms p = ⟨ws, none⟩) :
    (∀ v, (ws.get? key).bind optionalOfJson = some v → v.IsObject) ↔
      ∀ w, evaluators.Replaces ms key w → w.IsObject ∨ w = .null := by
  rcases Resolver.get?_expandMembers h key with ⟨absent, absent'⟩ | ⟨v, w, there, there', hx⟩
  · simp [absent, absent', Members.Replaces]
  · obtain ⟨inner, rfl⟩ := shape v there
    rw [there', Option.bind_some]
    rcases replaced_or_kept there hx with replaced | ⟨kept, inner', rfl, -⟩
    · simp only [replaced, forall_eq]
      cases w <;> simp [optionalOfJson, Json.IsObject]
    · simp [kept, optionalOfJson, Json.IsObject]

theorem nonempty_expanded_iff {vs vs' : Members} (there : ms.get? key = some (.obj vs))
    (nonempty : vs ≠ []) (h : Resolver.expandMembers evaluators [] ms p = ⟨ws, none⟩)
    (there' : ws.get? key = some (.obj vs')) :
    vs' ≠ [] ↔ ¬ evaluators.Replaces ms key (.obj []) := by
  rcases Resolver.get?_expandMembers h key with ⟨absent, -⟩ | ⟨v, w, hv, hw, hx⟩
  · simp [there] at absent
  · obtain rfl := Option.some.inj (there.symm.trans hv)
    obtain rfl := Option.some.inj (there'.symm.trans hw)
    rcases replaced_or_kept there hx with replaced | ⟨kept, inner', same, keys⟩
    · rw [replaced, Json.obj.injEq, eq_comm]
    · -- what keeps its keys is as long as it was
      obtain rfl := Json.obj.inj same
      refine iff_of_true ?_ (kept _)
      rintro rfl
      exact nonempty (List.map_eq_nil_iff.1 keys.symm)

/-- A flag that is built is one of the data model if the fragments in it fit. -/
theorem isFlag_built_iff {key : String} {f : String × FeatureFlag} (shape : ms.IsFlag)
    (nodup : ms.keys.Nodup) (h : BuiltFrom {} evaluators (key, .obj ms) f) :
    f.2.toMembers.IsFlag ↔ evaluators.FragmentsFit ms := by
  obtain ⟨-, v, hx, hf⟩ := h
  obtain ⟨vs, there, nonempty⟩ := shape.variations
  rcases Resolver.expand_obj_done hx with ⟨name, marker, -⟩ | ⟨-, ws, rfl, hm⟩
  · -- a flag has variations, so it is no marker as a whole
    obtain rfl : ms = [(refKey, .str name)] := by simpa [Json.marker] using marker
    simp [refKey] at there
  · have decoded := (flagOfResolved_eq_ok.1 hf).1
    have nodup' : ws.keys.Nodup := Resolver.keys_expandMembers hm ▸ nodup
    have there' := FeatureFlag.variations_of_ofJson? nodup' decoded
    rw [FeatureFlag.isFlag_toMembers_iff, FeatureFlag.targeting_of_ofJson? nodup' decoded,
      FeatureFlag.defaultRule_of_ofJson? nodup' decoded, isObject_expanded_iff shape.targeting hm,
      isObject_expanded_iff shape.defaultRule hm, nonempty_expanded_iff there nonempty hm there']
    constructor
    · rintro ⟨variations, targeting, defaultRule⟩
      exact ⟨variations, targeting, defaultRule⟩
    · rintro ⟨variations, targeting, defaultRule⟩
      exact ⟨variations, targeting, defaultRule⟩

end

/-- The document of a map conforms if its flags do. -/
theorem accepts_toJson_iff (m : FlagMap) : Bundled.schema.accepts m.toJson = true ↔
    ∀ f ∈ m.flags.entries, f.2.toMembers.IsFlag := by
  unfold CompiledSchema.accepts FlagMap.toJson
  rw [List.isEmpty_iff, Bundled.violations_eq_nil_iff]
  constructor
  · rintro ⟨ms, whole, document⟩ f hf
    obtain rfl := Json.obj.inj whole
    obtain ⟨fs, there, inner⟩ := document.flags
    obtain rfl : m.flags.entries.map (fun f => (f.1, f.2.toJson)) = fs := by simpa using there
    obtain ⟨ms, same, flag⟩ := inner _ (List.mem_map.2 ⟨f, hf, rfl⟩)
    exact Json.obj.inj same ▸ flag
  · intro flags
    refine ⟨_, rfl, ?_, ⟨m.flags.entries.map fun f => (f.1, f.2.toJson), by simp, ?_⟩, ?_, ?_⟩
    · intro v hv
      simp at hv
    · intro f hf
      obtain ⟨e, he, rfl⟩ := List.mem_map.1 hf
      exact ⟨_, rfl, flags e he⟩
    · intro v hv
      simp at hv
    · intro v hv
      obtain ⟨-, rfl⟩ : ¬ m.metadata.isEmpty = true ∧ m.metadata.toJson = v := by simpa using hv
      exact FeatureFlag.isMetadata_toJson m.metadata

/-- An accepted text conforms again exactly if the fragments fit that replace whole settings of
its flags. -/
theorem parse_conforms_iff {text : String} {m : FlagMap} (h : parse text = .ok m) :
    ∃ document flags evaluators, Json.ofText? text = .ok document ∧
      document.flags? = .ok flags ∧ document.evaluators? = .ok evaluators ∧
      (Bundled.schema.accepts m.toJson = true ↔
        ∀ key ms, (key, .obj ms) ∈ flags → evaluators.FragmentsFit ms) := by
  obtain ⟨document, evaluators, flags, accepted⟩ := accepted_of_parse h
  refine ⟨document, flags, evaluators, accepted.read, accepted.flags_eq, accepted.evaluators_eq, ?_⟩
  have fits : ∀ key ms f, (key, .obj ms) ∈ flags → BuiltFrom {} evaluators (key, .obj ms) f →
      (f.2.toMembers.IsFlag ↔ evaluators.FragmentsFit ms) := by
    intro key ms f hm hbf
    obtain ⟨ms', same, nodup, shape⟩ := accepted.shape _ hm
    obtain rfl := Json.obj.inj same
    exact isFlag_built_iff shape nodup hbf
  rw [accepts_toJson_iff]
  constructor
  · intro conforms key ms hm
    obtain ⟨f, hf, hbf⟩ := accepted.built _ hm
    apply (fits key ms f hm hbf).1
    exact conforms f hf
  · intro fit f hf
    obtain ⟨⟨key, raw⟩, hm, hbf⟩ := accepted.origin f hf
    obtain ⟨ms, rfl, -⟩ := accepted.shape _ hm
    apply (fits key ms f hm hbf).2
    exact fit key ms hm

/-- A flag whose targeting is replaced by an object. -/
def objectTargeting : String :=
  "\x7b\"flags\": \x7b\"f\": \x7b\"variations\": \x7b\"on\": true\x7d, "
    ++ "\"targeting\": \x7b\"$ref\": \"rule\"\x7d\x7d\x7d, \"$evaluators\": \x7b\"rule\": \x7b\x7d\x7d\x7d"

theorem objectTargeting_conforms_iff : ∃ m document flags evaluators,
    parse objectTargeting = .ok m ∧ Json.ofText? objectTargeting = .ok document ∧
      document.flags? = .ok flags ∧ document.evaluators? = .ok evaluators ∧
      (Bundled.schema.accepts m.toJson = true ↔
        ∀ key ms, (key, .obj ms) ∈ flags → evaluators.FragmentsFit ms) := by
  have accepted : (parse objectTargeting).toOption.isSome = true := by decide +kernel
  cases h : parse objectTargeting with
  | error e => simp [h, Except.toOption] at accepted
  | ok m =>
    obtain ⟨document, flags, evaluators, rest⟩ := parse_conforms_iff h
    exact ⟨m, document, flags, evaluators, rfl, rest⟩

/-- A flag whose variations are replaced by an object without members, and its targeting by a
number. -/
def emptyVariations : String :=
  "\x7b\"flags\": \x7b\"f\": \x7b\"variations\": \x7b\"$ref\": \"none\"\x7d, "
    ++ "\"targeting\": \x7b\"$ref\": \"five\"\x7d\x7d\x7d, "
    ++ "\"$evaluators\": \x7b\"none\": \x7b\x7d, \"five\": 5\x7d\x7d"

/-- The text is accepted, and what is built breaks the schema. -/
theorem emptyVariations_not_conforming :
    (parse emptyVariations).toOption.map (fun m => Bundled.schema.accepts m.toJson) =
      some false := by
  decide +kernel

end FeatureFlags
