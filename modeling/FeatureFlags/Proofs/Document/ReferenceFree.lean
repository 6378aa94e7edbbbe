import FeatureFlags.Proofs.Document.Filtering
import FeatureFlags.Proofs.Document.Inlining
import FeatureFlags.Proofs.Flag.Admitted

/-!
# Documents without references

Where no flag holds the key of a marker, nothing is replaced, so a document that satisfies the
schema is refused for one reason only: a default variant that is none of the variations
(`parseDocument_eq_ok_iff_defaults`). Every other shape that the schema admits is decoded.
-/

namespace FeatureFlags

/-- No object in the value, at any depth, has the key of a marker. -/
def Json.ReferenceFree (v : Json) : Prop :=
  ∀ ms : Members, Inside (.obj ms) v → ms.has refKey = false

@[simp]
theorem Json.referenceFree_obj {ms : Members} : (obj ms).ReferenceFree ↔
    ms.has refKey = false ∧ ∀ m ∈ ms, m.2.ReferenceFree := by
  constructor
  · intro h
    exact ⟨h ms (.self _), fun m hm inner inside => h inner (.member hm inside)⟩
  · rintro ⟨own, members⟩ inner inside
    cases inside with
    | self => exact own
    | member hm inside => exact members _ hm inner inside

@[simp]
theorem Json.referenceFree_arr {items : List Json} :
    (arr items).ReferenceFree ↔ ∀ v ∈ items, v.ReferenceFree := by
  constructor
  · intro h v hv inner inside
    exact h inner (.item hv inside)
  · intro each inner inside
    cases inside with
    | item hv inside => exact each _ hv inner inside

theorem Json.referenceFree_of_atom {v : Json} (items : ∀ xs, v ≠ .arr xs)
    (members : ∀ ms, v ≠ .obj ms) : v.ReferenceFree := by
  intro ms inside
  cases inside with
  | self => exact absurd rfl (members ms)
  | item => exact absurd rfl (items _)
  | member => exact absurd rfl (members _)

theorem Json.ReferenceFree.closed {v : Json} (h : v.ReferenceFree) : v.Closed := by
  refine closed_of_sites (p := "") (List.eq_nil_iff_forall_not_mem.2 fun site hs => ?_)
  obtain ⟨ms, leads, marker, -⟩ := mem_sites hs
  rw [Members.isMarker, h ms leads.inside] at marker
  cases marker

/-- The default variant of a flag, if it is a text, is a key of its variations. -/
def Json.NamesVariation (v : Json) : Prop :=
  ∀ name, v.get? "defaultVariant" = some (.str name) →
    ∃ vs : Members, v.get? "variations" = some (.obj vs) ∧ vs.has name = true

variable {options : Options} {evaluators flags ms : Members}

/-! ## One flag -/

/-- A flag of the data model that decodes names the default variant that stands in it. -/
theorem hasDefault_iff_namesVariation {f : FeatureFlag} (nodup : ms.keys.Nodup)
    (decoded : FeatureFlag.ofJson? (.obj ms) = .ok f) :
    f.HasDefault ↔ (Json.obj ms).NamesVariation := by
  have variations : ms.get? "variations" = some (.obj f.variations) :=
    FeatureFlag.variations_of_ofJson? nodup decoded
  refine forall_congr' fun name => ?_
  rw [FeatureFlag.defaultVariant_of_ofJson? nodup decoded]
  simp [Json.get?, variations]

/-- A flag of the data model without references is built unless it fails the check of its default
variant. -/
theorem plainFlag_of_isFlag {key : String} (flag : ms.IsFlag) (nodup : ms.keys.Nodup)
    (closed : (Json.obj ms).Closed) :
    (∃ f, plainFlag options evaluators (key, .obj ms) = .ok f) ↔
      (options.checkDefaultVariant = true → (Json.obj ms).NamesVariation) := by
  obtain ⟨f, decoded⟩ := FeatureFlag.exists_ofJson? flag nodup
  rw [← hasDefault_iff_namesVariation nodup decoded]
  have built : plainFlag options evaluators (key, .obj ms) =
      (flagOfResolved options (flagPointer key) (.obj ms)).map (key, ·) := by
    rw [plainFlag, Resolver.expand_of_closed closed]
    rfl
  rw [built]
  constructor
  · rintro ⟨g, hg⟩ on
    obtain ⟨f', resolved, -⟩ := map_eq_ok.1 hg
    obtain ⟨decoded', checked⟩ := flagOfResolved_eq_ok.1 resolved
    obtain rfl := Except.ok.inj (decoded.symm.trans decoded')
    exact checkDefaultVariant_eq_ok.1 (checked on)
  · intro checked
    refine ⟨(key, f), map_eq_ok.2 ⟨f, flagOfResolved_eq_ok.2 ⟨decoded, fun on => ?_⟩, rfl⟩⟩
    exact checkDefaultVariant_eq_ok.2 (checked on)

/-! ## The document -/

theorem exists_metadata? (document : ms.IsDocument) : ∃ m, (Json.obj ms).metadata? = .ok m := by
  unfold Json.metadata?
  cases there : (Json.obj ms).get? metadataKey with
  | none => exact ⟨.empty, rfl⟩
  | some v =>
    obtain ⟨m, hm⟩ := Metadata.exists_ofJson? (document.metadata v there)
    obtain ⟨inner, rfl, -⟩ := document.metadata v there
    exact ⟨m, mapError_eq_ok.2 hm⟩

/-- A document that satisfies the schema and has no references in its flags is accepted, unless
default variants are checked and a flag names one that is none of its variations: whatever else the
schema admits is decoded. The evaluators may hold anything. The keys of an object differ, as they do
in every value that is read from a text (`Source.distinctKeys_value`). -/
theorem parseDocument_eq_ok_iff_defaults {document : Json} (distinct : document.distinctKeys = true)
    (valid : bundledValidator document = .ok ()) (hf : document.flags? = .ok flags)
    (free : ∀ raw ∈ flags, raw.2.ReferenceFree) (options : Options) :
    (∃ m, parseDocument bundledValidator options document = .ok m) ↔
      (options.checkDefaultVariant = true → ∀ raw ∈ flags, raw.2.NamesVariation) := by
  obtain ⟨ms, rfl, model⟩ := Bundled.violations_eq_nil_iff.1 (bundledValidator_eq_ok.1 valid)
  obtain ⟨evaluators, he⟩ := exists_evaluators? model
  obtain ⟨metadata, hm⟩ := exists_metadata? model
  have closed : ∀ raw ∈ flags, raw.2.Closed := fun raw hr => (free raw hr).closed
  have built : (∃ m, build options (.obj ms) = .ok m) ↔
      ∃ fs, flags.mapM (plainFlag options evaluators) = .ok fs := by
    rw [build_eq he hf, attemptFlags_of_closed closed]
    simp [assemble_eq_ok, hm]
  rw [parseDocument_eq valid, built, exists_mapM_eq_ok_iff]
  have each : ∀ raw ∈ flags, (∃ f, plainFlag options evaluators raw = .ok f) ↔
      (options.checkDefaultVariant = true → raw.2.NamesVariation) := by
    intro raw hr
    obtain ⟨fs, there, shapes⟩ := model.flags
    obtain rfl := Json.obj.inj (Option.some.inj ((flags?_eq_ok.1 hf).symm.trans there))
    obtain ⟨key, v⟩ := raw
    obtain ⟨inner, rfl, flag⟩ := shapes _ hr
    have inside := distinctKeys_of_get? (flags?_eq_ok.1 hf) distinct
    have nodup := (Json.distinctKeys_obj_iff.1 inside).2 _ hr
    exact plainFlag_of_isFlag flag (Json.distinctKeys_obj_iff.1 nodup).1 (closed _ hr)
  constructor
  · intro fine on raw hr
    exact (each raw hr).1 (fine raw hr) on
  · intro named raw hr
    exact (each raw hr).2 fun on => named on raw hr

/-- A flag that is named like the key of a marker and has a member of no meaning, beside an
evaluator that is a marker of nothing. -/
def unreferenced (default : String) : Json :=
  .obj [
    (flagsKey, .obj [(refKey, .obj [
      ("variations", .obj [("on", .bool true), ("off", .null)]),
      ("defaultVariant", .str default),
      ("owners", .arr [.null])])]),
    (evaluatorsKey, .obj [("broken", .obj [(refKey, .null)])])]

/-- It is accepted if its default variant is one of its variations, and else only unchecked. -/
theorem unreferenced_defaults :
    (∃ m, parseDocument bundledValidator {} (unreferenced "on") = .ok m) ∧
      (¬ ∃ m, parseDocument bundledValidator {} (unreferenced "up") = .ok m) ∧
      ∃ m, parseDocument bundledValidator { checkDefaultVariant := false } (unreferenced "up") =
        .ok m := by
  have atom : (Json.null).ReferenceFree ∧ (∀ b, (Json.bool b).ReferenceFree) ∧
      ∀ t, (Json.str t).ReferenceFree := by
    refine ⟨?_, fun b => ?_, fun t => ?_⟩ <;> exact Json.referenceFree_of_atom (by simp) (by simp)
  have accepted_iff := fun default valid options => @parseDocument_eq_ok_iff_defaults _ (unreferenced default)
    rfl valid rfl (by simp [atom, Members.has, refKey]) options
  have named : ∀ default, (Json.obj [("variations", .obj [("on", .bool true), ("off", .null)]),
      ("defaultVariant", .str default), ("owners", .arr [.null])]).NamesVariation ↔
        Members.has [("on", .bool true), ("off", .null)] default = true := by
    intro default
    simp [Json.NamesVariation, Json.get?]
  refine ⟨(accepted_iff "on" rfl {}).2 ?_, (accepted_iff "up" rfl {}).not.2 ?_, (accepted_iff "up" rfl _).2 ?_⟩
  · simp [named, Members.has]
  · simp [named, Members.has]
  · intro on
    cases on

end FeatureFlags
