import FeatureFlags.Proofs.Document.ReferenceFree
import FeatureFlags.Proofs.Document.Repetition
import FeatureFlags.Proofs.Flag.Admitted
import FeatureFlags.Proofs.Lint.Agreement
import FeatureFlags.Proofs.Reference.Worklist
import FeatureFlags.Proofs.Schema.Places

/-!
# Diagnostics point into the document

Every pointer of a diagnostic is made by extending that of a section along what stands there:
violations and references are found on a walk of the document, a fault of a resolution points at a
marker that was met in a flag or in an evaluator at its own place, and the refusals that come with a
pointer of their own point at something that was looked up before. No key of a document is repeated,
so following the pointer finds the same (`Json.Leads.pointee?`).
-/

namespace FeatureFlags

variable {options : Options} {document : Json} {evaluators flags : Members} {v u : Json}
  {p q : Pointer} {key name : String} {e : ConfigError}

/-! ## Sections -/

namespace Json

theorem pointee?_section (h : document.get? key = some v) :
    document.pointee? (Pointer.child "" key) = some v := by
  rw [pointee?_child (pointee?_root document)]
  cases document with
  | obj ms => exact h
  | _ => cases h

theorem pointee?_flag (hf : document.flags? = .ok flags) (nodup : flags.keys.Nodup)
    {raw : String × Json} (hr : raw ∈ flags) :
    document.pointee? (flagPointer raw.1) = some raw.2 :=
  (pointee?_child (pointee?_section (flags?_eq_ok.1 hf)) raw.1).trans
    ((Members.get?_eq_some_iff nodup).2 hr)

theorem pointee?_evaluator (he : document.evaluators? = .ok evaluators)
    (known : evaluators.get? name = some v) :
    document.pointee? (evaluatorPointer name) = some v := by
  rcases evaluators?_eq_ok.1 he with there | ⟨-, rfl⟩
  · exact (pointee?_child (pointee?_section there) name).trans known
  · cases known

end Json

/-- Where something is located that a value needs, the document has it. -/
theorem Members.Locates.pointee? (h : evaluators.Locates v p q u)
    (he : document.evaluators? = .ok evaluators) (distinct : document.distinctKeys = true)
    (here : document.pointee? p = some v) : document.pointee? q = some u := by
  rcases h with leads | ⟨via, raw, -, known, leads⟩
  · exact leads.pointee? distinct here
  · exact leads.pointee? distinct (Json.pointee?_evaluator he known)

/-! ## Refusals -/

/-- A refusal points at something in the document. -/
def ConfigError.PointsInto (document : Json) (e : ConfigError) : Prop :=
  ∃ u, document.pointee? (Diagnostic.pointerOfError e) = some u

theorem ReferenceError.BlamedOn.pointsInto {e : ReferenceError} (h : e.BlamedOn evaluators v p)
    (he : document.evaluators? = .ok evaluators) (distinct : document.distinctKeys = true)
    (here : document.pointee? p = some v) :
    (ConfigError.ofReferenceError e).PointsInto document := by
  cases e with
  | malformed =>
    obtain ⟨ms, there, -⟩ := h
    exact ⟨_, there.pointee? he distinct here⟩
  | unresolved => exact ⟨_, h.1.pointee? he distinct here⟩
  | tooLarge => exact ⟨_, Members.Locates.pointee? h he distinct here⟩
  | circular =>
    obtain ⟨name, raw, known⟩ := h
    rcases evaluators?_eq_ok.1 he with there | ⟨-, rfl⟩
    · exact ⟨_, Json.pointee?_section there⟩
    · cases known

/-- A flag whose default variant is unknown has one of its own: none comes from an evaluator for the
whole flag. -/
theorem exists_defaultVariant {ms : Members} {f : FeatureFlag} (flag : ms.IsFlag)
    (nodup : ms.keys.Nodup) (expands : Resolver.expand evaluators [] (.obj ms) p = ⟨v, none⟩)
    (decoded : FeatureFlag.ofJson? v = .ok f) (named : f.defaultVariant = some name) :
    ∃ w, ms.get? "defaultVariant" = some w := by
  rcases Resolver.expand_obj_done expands with ⟨other, marker, -⟩ | ⟨-, ws, rfl, hws⟩
  · obtain rfl := Json.obj.inj marker
    obtain ⟨vs, there, -⟩ := flag.variations
    simp [refKey] at there
  · have nodup' := Resolver.keys_expandMembers hws ▸ nodup
    have there := (FeatureFlag.defaultVariant_of_ofJson? nodup' decoded).1 named
    rcases Resolver.get?_expandMembers hws "defaultVariant" with ⟨-, absent⟩ | ⟨w, -, hw, -⟩
    · rw [absent] at there
      cases there
    · exact ⟨w, hw⟩

/-- A document that satisfies the schema is refused for something that is in it. -/
theorem pointsInto_of_build (valid : Bundled.schema.violations document = [])
    (distinct : document.distinctKeys = true) (h : build options document = .error e) :
    e.PointsInto document := by
  obtain ⟨ms, rfl, model⟩ := Bundled.violations_eq_nil_iff.1 valid
  obtain ⟨flags, there, shapes⟩ := model.flags
  have hf : (Json.obj ms).flags? = .ok flags := flags?_eq_ok.2 there
  have inside := distinctKeys_of_get? (flags?_eq_ok.1 hf) distinct
  obtain ⟨nodup, inner⟩ := Json.distinctKeys_obj_iff.1 inside
  obtain ⟨evaluators, he⟩ := exists_evaluators? model
  rcases build_error he hf h with h | ⟨v, fault, hv, rfl⟩
  · obtain ⟨⟨key, raw⟩, hr, at_fault⟩ := buildFlags_error (Session.faithful_fresh _) h
    have here := Json.pointee?_flag hf nodup hr
    rcases at_fault with ⟨fault, blamed, rfl⟩ | ⟨v, expands, h⟩
    · exact blamed.pointsInto he distinct here
    · rcases flagOfResolved_error h with ⟨fault, -, rfl⟩ | ⟨f, name, decoded, named, -, rfl⟩
      · exact ⟨_, here⟩
      · obtain ⟨flag, rfl, shape⟩ := shapes _ hr
        have own := (Json.distinctKeys_obj_iff.1 (inner _ hr)).1
        obtain ⟨w, hw⟩ := exists_defaultVariant shape own expands decoded named
        exact ⟨w, (Json.pointee?_child here _).trans hw⟩
  · exact ⟨v, Json.pointee?_section hv⟩

/-! ## Repeated keys -/

theorem Source.exists_get?_foldMembers {ms : List (String × Source)} (h : key ∈ ms.map (·.1))
    (done : Members) : ∃ v, (foldMembers ms done).get? key = some v := by
  induction ms generalizing done with
  | nil => cases h
  | cons m more ih =>
    by_cases later : key ∈ more.map (·.1)
    · exact ih later _
    · obtain rfl : key = m.1 := (List.mem_cons.1 h).resolve_right later
      rw [foldMembers, get?_foldMembers_of_not_mem later, Members.get?_put, if_pos rfl]
      exact ⟨_, rfl⟩

/-- A section that has keys is there. -/
theorem Source.exists_get?_of_mem_sectionKeys {s : Source} {part : String}
    (h : key ∈ s.sectionKeys part) : ∃ v, s.value.get? part = some v := by
  cases s with
  | obj ms p =>
    obtain ⟨⟨k, inner⟩, hm, hk⟩ := List.mem_flatMap.1 h
    dsimp only at hk
    split at hk
    next same =>
      subst same
      exact exists_get?_foldMembers (List.mem_map.2 ⟨_, hm, rfl⟩) []
    next => cases hk
  | _ => cases h

/-- A key is only repeated in a part that is there. -/
theorem pointsInto_of_checkRepeatedKeys {s : Source} (h : checkRepeatedKeys s = .error e) :
    e.PointsInto s.value := by
  unfold checkRepeatedKeys at h
  cases read : SectionKeys.ofSource? s with
  | error fault =>
    rw [read] at h
    cases h
    exact ⟨_, rfl⟩
  | ok keys =>
    obtain ⟨ms, p, rfl, -, rfl⟩ := SectionKeys.ofSource?_eq_ok.1 read
    rw [read] at h
    dsimp only at h
    split at h
    next part key found =>
      cases h
      have there := (SectionKeys.repeated?_eq_some.1 found).mem
      cases part with
      | document => exact ⟨_, rfl⟩
      | flags | evaluators =>
        exact (Source.exists_get?_of_mem_sectionKeys there).imp fun _ => Json.pointee?_section
    next => cases h

/-! ## What is reported -/

theorem pointsInto_of_parse {text : String} {source : Source}
    (read : Source.ofText? text = .ok source)
    (valid : Bundled.schema.violations source.value = []) (h : parse text = .error e) :
    e.PointsInto source.value := by
  rcases parse_error read h with ⟨violations, rfl⟩ | ⟨-, h | h⟩
  · exact ⟨_, Json.pointee?_root _⟩
  · exact pointsInto_of_checkRepeatedKeys h
  · exact pointsInto_of_build valid source.distinctKeys_value h

theorem nodup_evaluators (he : document.evaluators? = .ok evaluators)
    (distinct : document.distinctKeys = true) : evaluators.keys.Nodup := by
  rcases evaluators?_eq_ok.1 he with there | ⟨-, rfl⟩
  · exact (Json.distinctKeys_obj_iff.1 (distinctKeys_of_get? there distinct)).1
  · exact List.nodup_nil

/-- A reference that is reported stands where the diagnostic points, and nothing has its name. -/
theorem pointee?_of_unresolved {r : Reference} (he : document.evaluators? = .ok evaluators)
    (distinct : document.distinctKeys = true)
    (h : .unresolved r ∈ checkReferences document evaluators) : evaluators.has r.name = false ∧
      ∃ ms : Members, document.pointee? r.path = some (.obj ms) ∧
        ms.get? refKey = some (.str r.name) := by
  obtain ⟨found, unknown⟩ := mem_checkReferences_unresolved.1 h
  refine ⟨unknown, ?_⟩
  have stands : ∀ {v p}, document.pointee? p = some v → r ∈ v.references p →
      ∃ ms : Members, document.pointee? r.path = some (.obj ms) ∧
        ms.get? refKey = some (.str r.name) := by
    intro v p here hr
    obtain ⟨ms, leads, there⟩ := Json.mem_references.1 hr
    exact ⟨ms, leads.pointee? distinct here, there⟩
  rcases found with found | found
  · unfold Json.flagReferences at found
    split at found
    next flags hf => exact stands (Json.pointee?_section hf) found
    next => cases found
  · obtain ⟨name, v, hv, -, hr⟩ := mem_usedReferences.1 found
    have known := (Members.get?_eq_some_iff (nodup_evaluators he distinct)).2 hv
    exact stands (Json.pointee?_evaluator he known) hr

/-- A reference that stops a document from being built is found without building it. -/
theorem mem_checkReferences_of_build (he : document.evaluators? = .ok evaluators)
    (hf : document.flags? = .ok flags)
    (h : build options document = .error (.unresolvedReference name q)) :
    .unresolved ⟨name, q⟩ ∈ checkReferences document evaluators := by
  obtain ⟨raw, hr, fault, blamed, same⟩ : ∃ raw ∈ flags, ∃ fault : ReferenceError,
      fault.BlamedOn evaluators raw.2 (flagPointer raw.1) ∧
        .unresolvedReference name q = ConfigError.ofReferenceError fault := by
    rcases build_error he hf h with h | ⟨v, fault, -, same⟩
    · obtain ⟨raw, hr, at_fault | ⟨v, -, h⟩⟩ := buildFlags_error (Session.faithful_fresh _) h
      · exact ⟨raw, hr, at_fault⟩
      · rcases flagOfResolved_error h with ⟨fault, -, same⟩ | ⟨f, default, -, -, -, same⟩ <;> cases same
    · cases same
  cases fault <;> cases same
  obtain ⟨there, unknown⟩ := blamed
  refine mem_checkReferences_unresolved.2 ⟨?_, ?_⟩
  · have marked : ∀ {v : Json} {p}, v.Leads p q (.marker name) → ⟨name, q⟩ ∈ v.references p :=
      fun leads => Json.mem_references.2 ⟨_, leads, by simp⟩
    have found : raw.2.references (flagPointer raw.1) ⊆ document.flagReferences := by
      intro r found
      rw [Json.flagReferences, flags?_eq_ok.1 hf]
      exact List.mem_append_right _ (Json.mem_referencesInMembers.2 ⟨_, _, hr, found⟩)
    rcases there with leads | ⟨via, v, reach, known, leads⟩
    · exact .inl (found (marked leads))
    · have used := Members.mem_reachable_of_reaches found reach (Members.has_iff.2 ⟨v, known⟩)
      exact .inr (mem_usedReferences.2 ⟨via, v, Members.mem_of_get? known, used, marked leads⟩)
  · rw [← Bool.not_eq_true, Members.has_iff]
    rintro ⟨v, known⟩
    rw [unknown] at known
    cases known

section

variable {text : String} {source : Source} (read : Source.ofText? text = .ok source)
  (valid : Bundled.schema.violations source.value = [])
  (he : source.value.evaluators? = .ok evaluators)
include read valid he

/-- A reference that a text is refused for is found without building anything. -/
theorem mem_checkReferences_of_parse (h : parse text = .error (.unresolvedReference name q)) :
    .unresolved ⟨name, q⟩ ∈ checkReferences source.value evaluators := by
  rcases parse_error read h with ⟨violations, other⟩ | ⟨-, repeated | refused⟩
  · cases other
  · unfold checkRepeatedKeys at repeated
    split at repeated
    · cases repeated
    · split at repeated <;> cases repeated
  · obtain ⟨-, flags, -, hf⟩ := exists_sections valid
    exact mem_checkReferences_of_build he hf refused

/-- A text in which the search finds no error is not refused for an unresolved reference. -/
theorem ne_unresolvedReference_of_clean
    (clean : ∀ c ∈ checkReferences source.value evaluators, c.isError = false)
    (h : parse text = .error e) : e ≠ .unresolvedReference name q := by
  rintro rfl
  have error := clean _ (mem_checkReferences_of_parse read valid he h)
  cases error

end

/-- A diagnostic is a violation, is found by the static search, or is a refusal of a document in
which that finds no error. -/
theorem mem_lint {text : String} {d : Diagnostic} (read : Json.ofText? text = .ok document)
    (h : d ∈ lint text) : (∃ x ∈ Bundled.schema.violations document, d = .violation x) ∨
      Bundled.schema.violations document = [] ∧ ∃ evaluators,
        document.evaluators? = .ok evaluators ∧ (d ∈ checkReferences document evaluators ∨
          ∃ e, d = .refused e ∧ parse text = .error e ∧
            ∀ c ∈ checkReferences document evaluators, c.isError = false) := by
  cases valid : Bundled.schema.violations document with
  | nil =>
    obtain ⟨evaluators, -, he, -⟩ := exists_sections valid
    obtain ⟨refusals, split, refused⟩ := lint_eq_append read valid he
    rw [split, List.mem_append] at h
    exact .inr ⟨rfl, evaluators, he, h.imp_right (refused d)⟩
  | cons x more =>
    unfold lint at h
    rw [read] at h
    dsimp only at h
    rw [valid] at h
    obtain ⟨y, hy, rfl⟩ := List.mem_map.1 h
    exact .inl ⟨y, hy, rfl⟩

/-- Every diagnostic of a text that is JSON points at something in the document. An unresolved
reference (E003) points at an object whose `$ref` is the name in the message, which no evaluator has;
a warning (W001) points at the evaluator that it names. -/
theorem lint_points_into_document {text : String} {d : Diagnostic}
    (read : Json.ofText? text = .ok document) (h : d ∈ lint text) :
    (∃ v, document.pointee? d.path = some v) ∧
    (d.code = "E003" → ∃ name ms evaluators, d.message = "unresolved reference \"" ++ name ++ "\"" ∧
      document.pointee? d.path = some (.obj ms) ∧ Members.get? ms refKey = some (.str name) ∧
      document.evaluators? = .ok evaluators ∧ evaluators.has name = false) ∧
    (d.code = "W001" → ∃ name v evaluators,
      d.message = "evaluator \"" ++ name ++ "\" is never referenced by a flag" ∧
      document.pointee? d.path = some v ∧ document.evaluators? = .ok evaluators ∧
      evaluators.get? name = some v) := by
  obtain ⟨source, hs, rfl⟩ := map_eq_ok.1 read
  have distinct := source.distinctKeys_value
  rcases mem_lint read h with
    ⟨x, hx, rfl⟩ | ⟨valid, evaluators, he, found | ⟨e, rfl, refused, clean⟩⟩
  · obtain ⟨u, leads⟩ := Schema.exists_leads_of_mem_check _ hx
    exact ⟨⟨u, leads.pointee? distinct rfl⟩, by simp [Diagnostic.code], by simp [Diagnostic.code]⟩
  · cases d with
    | unresolved r =>
      obtain ⟨unknown, ms, there, name⟩ := pointee?_of_unresolved he distinct found
      exact ⟨⟨_, there⟩, fun _ => ⟨r.name, ms, evaluators, rfl, there, name, he, unknown⟩,
        by simp [Diagnostic.code]⟩
    | unused name =>
      obtain ⟨known, -⟩ := mem_checkReferences_unused.1 found
      obtain ⟨v, hv⟩ := Members.has_iff.1 known
      have there := Json.pointee?_evaluator he hv
      exact ⟨⟨v, there⟩, by simp [Diagnostic.code],
        fun _ => ⟨name, v, evaluators, rfl, there, he, hv⟩⟩
    | _ => simp [checkReferences] at found
  · refine ⟨pointsInto_of_parse hs valid refused, ?_, ?_⟩
    · intro code
      obtain ⟨name, q, rfl⟩ : ∃ name q, e = .unresolvedReference name q := by
        cases e <;> simp [Diagnostic.code, Diagnostic.codeOfError] at code ⊢
      exact absurd rfl (ne_unresolvedReference_of_clean hs valid he clean refused)
    · intro code
      cases e <;> simp [Diagnostic.code, Diagnostic.codeOfError] at code

/-- A flag whose key has to be escaped in a pointer, with a reference inside an array to nothing. -/
def escapedKeys : String :=
  "\x7b\"flags\": \x7b\"a/b~c\": \x7b\"variations\": \x7b\"on\": [0, \x7b\"$ref\": \"none\"\x7d]\x7d\x7d\x7d, "
    ++ "\"$evaluators\": \x7b\"~/\": 1\x7d\x7d"

/-- Both the reference and the evaluator that is not used are found by their pointers. -/
theorem escapedKeys_points_into_document : ∃ document, Json.ofText? escapedKeys = .ok document ∧
    (lint escapedKeys).map (fun d => (d.code, d.path)) =
      [("E003", "/flags/a~1b~0c/variations/on/1"), ("W001", "/$evaluators/~0~1")] ∧
    (∃ ms : Members, document.pointee? "/flags/a~1b~0c/variations/on/1" = some (.obj ms)) ∧
    ∃ v, document.pointee? "/$evaluators/~0~1" = some v := by
  have read : (Json.ofText? escapedKeys).toOption.isSome = true := by decide +kernel
  have reported : (lint escapedKeys).map (fun d => (d.code, d.path)) =
      [("E003", "/flags/a~1b~0c/variations/on/1"), ("W001", "/$evaluators/~0~1")] := by
    decide +kernel
  obtain ⟨document, hd⟩ := isSome_toOption.1 read
  have points := fun d h => @lint_points_into_document document escapedKeys d hd h
  have found : ∀ c ∈ [("E003", "/flags/a~1b~0c/variations/on/1"), ("W001", "/$evaluators/~0~1")],
      ∃ d ∈ lint escapedKeys, (d.code, d.path) = c := fun c hc => List.mem_map.1 (reported ▸ hc)
  refine ⟨document, hd, reported, ?_, ?_⟩
  · obtain ⟨d, there, same⟩ := found _ List.mem_cons_self
    obtain ⟨code, path⟩ := Prod.mk.inj same
    obtain ⟨name, ms, -, -, pointee, -⟩ := (points d there).2.1 code
    exact ⟨ms, path ▸ pointee⟩
  · obtain ⟨d, there, same⟩ := found _ (List.mem_cons_of_mem _ List.mem_cons_self)
    exact (Prod.mk.inj same).2 ▸ (points d there).1

end FeatureFlags
