import FeatureFlags.Proofs.Document.Build
import FeatureFlags.Proofs.Json.Alike
import FeatureFlags.Proofs.Schema.DataModel

/-!
# What the bundled schema leaves open

The data model names every member that the bundled schema looks at. Two documents that agree there
are accepted alike (`Members.SameSections`), whatever else they hold: other members of the document
or of a flag, the members of evaluators, targetings and default rules, the variations as long as
there are some, and the keys of the flags. With `Bundled.violations_eq_nil_iff` this says that the
schema denotes the data model and nothing more (`bundledValidator_exact`).
-/

namespace FeatureFlags

namespace Json

variable {v w : Json}

/-- The values are equal, or both are objects. -/
def SameOutside (v w : Json) : Prop := v = w ∨ v.IsObject ∧ w.IsObject

/-- The values are equal, or both are objects, and both or neither are empty. -/
def SameVariations (v w : Json) : Prop := v.SameOutside w ∧ (v = .obj [] ↔ w = .obj [])

theorem SameOutside.symm (h : v.SameOutside w) : w.SameOutside v :=
  h.imp Eq.symm And.symm

theorem SameVariations.symm (h : v.SameVariations w) : w.SameVariations v :=
  ⟨h.1.symm, h.2.symm⟩

theorem SameOutside.isObject (h : v.SameOutside w) (object : v.IsObject) : w.IsObject := by
  rcases h with rfl | ⟨-, object⟩ <;> exact object

theorem SameVariations.exists_nonempty {ms : Members} (h : (Json.obj ms).SameVariations w)
    (nonempty : ms ≠ []) : ∃ ns : Members, w = .obj ns ∧ ns ≠ [] := by
  obtain ⟨ns, rfl⟩ := h.1.isObject ⟨ms, rfl⟩
  refine ⟨ns, rfl, ?_⟩
  rintro rfl
  exact nonempty (Json.obj.inj (h.2.2 rfl))

theorem isScalar_iff : v.IsScalar ↔ v.kind = .string ∨ v.kind = .number ∨ v.kind = .boolean := by
  cases v <;> simp [IsScalar, MetadataValue.ofJson?, kind]

end Json

namespace Members

variable {ms ns : Members} {key : String} {P : Json → Prop}

theorem IfPresent.of_eq (h : ms.IfPresent key P) (same : ns.get? key = ms.get? key) :
    ns.IfPresent key P :=
  fun v hv => h v (same ▸ hv)

theorem IfPresent.of_rel {R : Json → Json → Prop} (h : ms.IfPresent key P)
    (related : Option.Rel R (ms.get? key) (ns.get? key)) (kept : ∀ v w, R v w → P v → P w) :
    ns.IfPresent key P := by
  intro w hw
  obtain ⟨v, hv, same⟩ := (rel_iff.1 related).2 w hw
  exact kept v w same (h v hv)

/-! ## Flags -/

/-- The settings of a flag agree, apart from what stands inside `variations`, `targeting` and
`defaultRule`. -/
structure SameSettings (ms ns : Members) : Prop where
  kept : ∀ key ∈ ["defaultVariant", "state", "bucketingKey", "version", "metadata"],
    ns.get? key = ms.get? key
  variations : Option.Rel Json.SameVariations (ms.get? "variations") (ns.get? "variations")
  opened : ∀ key ∈ ["targeting", "defaultRule"],
    Option.Rel Json.SameOutside (ms.get? key) (ns.get? key)

theorem SameSettings.symm (h : ms.SameSettings ns) : ns.SameSettings ms where
  kept key hk := (h.kept key hk).symm
  variations := rel_mono (rel_comm h.variations) fun _ _ => Json.SameVariations.symm
  opened key hk := rel_mono (rel_comm (h.opened key hk)) fun _ _ => Json.SameOutside.symm

/-- Nothing but the settings makes a flag. -/
theorem IsFlag.of_sameSettings (flag : ms.IsFlag) (h : ms.SameSettings ns) : ns.IsFlag where
  variations := by
    obtain ⟨vs, there, nonempty⟩ := flag.variations
    obtain ⟨w, hw, same⟩ := (rel_iff.1 h.variations).1 _ there
    obtain ⟨ws, rfl, nonempty⟩ := same.exists_nonempty nonempty
    exact ⟨ws, hw, nonempty⟩
  defaultVariant := flag.defaultVariant.of_eq (h.kept _ (by simp))
  state := flag.state.of_eq (h.kept _ (by simp))
  targeting := flag.targeting.of_rel (h.opened _ (by simp)) fun _ _ => Json.SameOutside.isObject
  defaultRule := flag.defaultRule.of_rel (h.opened _ (by simp)) fun _ _ => Json.SameOutside.isObject
  bucketingKey := flag.bucketingKey.of_eq (h.kept _ (by simp))
  version := flag.version.of_eq (h.kept _ (by simp))
  metadata := flag.metadata.of_eq (h.kept _ (by simp))

/-! ## Documents -/

/-- Two flags with the same settings, whatever their keys. -/
def SameFlag (m n : String × Json) : Prop :=
  ∃ ms ns : Members, m.2 = .obj ms ∧ n.2 = .obj ns ∧ ms.SameSettings ns

/-- The sections of a document agree, apart from what stands inside `$evaluators`, and the flags
agree one by one in their settings. -/
structure SameSections (ms ns : Members) : Prop where
  kept : ∀ key ∈ ["$schema", "metadata"], ns.get? key = ms.get? key
  opened : Option.Rel Json.SameOutside (ms.get? "$evaluators") (ns.get? "$evaluators")
  flags : ∃ fs gs : Members, ms.get? "flags" = some (.obj fs) ∧ ns.get? "flags" = some (.obj gs) ∧
    List.Forall₂ SameFlag fs gs

theorem SameFlag.symm {m n : String × Json} (h : SameFlag m n) : SameFlag n m := by
  obtain ⟨ms, ns, hm, hn, same⟩ := h
  exact ⟨ns, ms, hn, hm, same.symm⟩

theorem SameSections.symm (h : ms.SameSections ns) : ns.SameSections ms where
  kept key hk := (h.kept key hk).symm
  opened := rel_mono (rel_comm h.opened) fun _ _ => Json.SameOutside.symm
  flags := by
    obtain ⟨fs, gs, hf, hg, same⟩ := h.flags
    exact ⟨gs, fs, hg, hf, same.flip.imp fun _ _ => SameFlag.symm⟩

/-- Nothing but the sections makes a document. -/
theorem IsDocument.of_sameSections (document : ms.IsDocument) (h : ms.SameSections ns) :
    ns.IsDocument where
  schema := document.schema.of_eq (h.kept _ (by simp))
  flags := by
    obtain ⟨fs, gs, hf, hg, same⟩ := h.flags
    obtain ⟨fs', hf', flags⟩ := document.flags
    obtain rfl : fs = fs' := by simpa [hf] using hf'
    refine ⟨gs, hg, fun n hn => ?_⟩
    obtain ⟨m, hm, inner, inner', hinner, hinner', settings⟩ := exists_of_forall₂ same.flip hn
    obtain ⟨ms', hms, flag⟩ := flags m hm
    rw [hinner, Json.obj.injEq] at hms
    exact ⟨inner', hinner', (hms ▸ flag).of_sameSettings settings⟩
  evaluators := document.evaluators.of_rel h.opened fun _ _ => Json.SameOutside.isObject
  metadata := document.metadata.of_eq (h.kept _ (by simp))

end Members

/-- The bundled schema compiles, and a document passes if and only if it is one of the data model,
in which the scalars are texts, numbers and booleans; so documents that agree in what the data model
names pass alike. -/
theorem bundledValidator_exact :
    (∃ s, CompiledSchema.ofJson? Bundled.document = .ok s ∧
      bundledValidator = Validator.ofSchema s) ∧
    (∀ document, bundledValidator document = .ok () ↔
      ∃ ms : Members, document = .obj ms ∧ ms.IsDocument) ∧
    (∀ v : Json, v.IsScalar ↔ v.kind = .string ∨ v.kind = .number ∨ v.kind = .boolean) ∧
    ∀ ms ns : Members, ms.SameSections ns →
      (bundledValidator (.obj ms) = .ok () ↔ bundledValidator (.obj ns) = .ok ()) := by
  have exact : ∀ document, bundledValidator document = .ok () ↔
      ∃ ms : Members, document = .obj ms ∧ ms.IsDocument :=
    fun _ => bundledValidator_eq_ok.trans Bundled.violations_eq_nil_iff
  refine ⟨⟨_, Bundled.ofJson?_document, rfl⟩, exact, fun _ => Json.isScalar_iff, ?_⟩
  intro ms ns same
  simp only [exact, Json.obj.injEq, exists_eq_left']
  exact ⟨fun document => document.of_sameSections same,
    fun document => document.of_sameSections same.symm⟩

/-- A document with one flag, and with some members at every place that the data model leaves
open. -/
def openDocument (extra : Members) : Members :=
  let flag := [("variations", .obj (("on", .null) :: extra)), ("targeting", .obj extra)]
  [("flags", .obj [("f", .obj (flag ++ extra))]), ("$evaluators", .obj extra)] ++ extra

/-- Members of another name may be added, whatever they hold. -/
theorem openDocument_accepted :
    bundledValidator (.obj (openDocument [])) = .ok () ∧
    bundledValidator (.obj (openDocument [("more", .arr [.null]), ("", .num (.int 0))])) =
      .ok () := by
  have plain : bundledValidator (.obj (openDocument [])) = .ok () :=
    bundledValidator_eq_ok.2 (List.isEmpty_iff.1 (by decide +kernel))
  refine ⟨plain, (bundledValidator_exact.2.2.2 _ _ ⟨?kept, ?opened, ?flags⟩).1 plain⟩
  case kept => simp [openDocument]
  case opened => exact .some (.inr ⟨⟨_, rfl⟩, ⟨_, rfl⟩⟩)
  case flags =>
    refine ⟨_, _, rfl, rfl, .cons ⟨_, _, rfl, rfl, ?kept, ?variations, ?opened⟩ .nil⟩
    case kept => simp
    case variations => exact .some ⟨.inr ⟨⟨_, rfl⟩, ⟨_, rfl⟩⟩, by simp⟩
    case opened =>
      simp only [List.forall_mem_cons]
      exact ⟨.some (.inr ⟨⟨_, rfl⟩, ⟨_, rfl⟩⟩), .none, by simp⟩

end FeatureFlags
