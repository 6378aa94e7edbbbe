import FeatureFlags.Proofs.Document.Flags

/-!
# Documents with a section changed

`Json.mapSection` changes the members of one section and `Json.without` leaves one out; a building
reads the other sections as they were.
-/

namespace FeatureFlags

namespace Json

/-- The document with the members changed of the object under a key, if there is one. -/
def mapSection (key : String) (change : Members → Members) : Json → Json
  | .obj ms =>
    match Members.get? ms key with
    | some (.obj inner) => .obj (Members.put ms key (.obj (change inner)))
    | _ => .obj ms
  | v => v

/-- The document without the member under a key. -/
def without (key : String) : Json → Json
  | .obj ms => .obj (Members.erase ms key)
  | v => v

variable {document document' : Json} {key k : String} {inner flags evaluators : Members}
  {change : Members → Members}

theorem get?_mapSection (there : document.get? key = some (.obj inner)) :
    (document.mapSection key change).get? key = some (.obj (change inner)) := by
  cases document with
  | obj ms =>
    simp only [get?] at there
    simp [mapSection, there, get?]
  | _ => cases there

theorem get?_mapSection_ne (other : k ≠ key) :
    (document.mapSection key change).get? k = document.get? k := by
  cases document with
  | obj ms =>
    rw [mapSection]
    split
    · simp [get?, other]
    · rfl
  | _ => rfl

theorem get?_without : (document.without key).get? k = if k = key then none else document.get? k := by
  cases document with
  | obj ms => simp [without, get?]
  | _ => simp [without, get?]

/-! ## What a building reads -/

theorem flags?_congr (same : document'.get? flagsKey = document.get? flagsKey) :
    document'.flags? = document.flags? := by
  unfold flags?
  rw [same]

theorem evaluators?_congr (same : document'.get? evaluatorsKey = document.get? evaluatorsKey) :
    document'.evaluators? = document.evaluators? := by
  unfold evaluators?
  rw [same]

theorem metadata?_congr (same : document'.get? metadataKey = document.get? metadataKey) :
    document'.metadata? = document.metadata? := by
  unfold metadata?
  rw [same]

/-- What flags are assembled to depends on nothing but the metadata of the document. -/
theorem assemble_congr (same : document'.metadata? = document.metadata?)
    (built : Except ConfigError (List (String × FeatureFlag))) :
    document'.assemble built = document.assemble built := by
  unfold assemble
  rw [same]

end Json

/-- The schema asks of evaluators only that they are members of an object. -/
theorem violations_eq_nil_of_evaluators? {document document' : Json} {evaluators : Members}
    (others : ∀ key, key ≠ evaluatorsKey → document'.get? key = document.get? key)
    (he : document'.evaluators? = .ok evaluators)
    (valid : Bundled.schema.violations document = []) :
    Bundled.schema.violations document' = [] := by
  obtain ⟨ms, rfl, whole⟩ := Bundled.violations_eq_nil_iff.1 valid
  obtain ⟨ms', rfl⟩ : document'.IsObject := by
    obtain ⟨flags, there, -⟩ := whole.flags
    have there' := (others flagsKey (by decide)).trans there
    cases document' with
    | obj ms' => exact ⟨ms', rfl⟩
    | _ => cases there'
  simp only [Json.get?] at others
  refine Bundled.violations_eq_nil_iff.2 ⟨ms', rfl, ?_, ?_, ?_, ?_⟩
  · unfold Members.IfPresent
    rw [others _ (by decide)]
    exact whole.schema
  · rw [others _ (by decide)]
    exact whole.flags
  · intro v hv
    rcases evaluators?_eq_ok.1 he with there | ⟨absent, -⟩
    · exact ⟨evaluators, Option.some.inj (hv.symm.trans there)⟩
    · cases hv.symm.trans absent
  · unfold Members.IfPresent
    rw [others _ (by decide)]
    exact whole.metadata

end FeatureFlags
