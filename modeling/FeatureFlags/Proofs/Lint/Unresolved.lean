import FeatureFlags.Proofs.Document.Sections
import FeatureFlags.Proofs.Json.Equality
import FeatureFlags.Proofs.Lint.Places
import FeatureFlags.Proofs.Reference.InUse

/-!
# All unresolved references are reported at once

An atom refers to nothing, so with atoms for some unknown evaluators the same evaluators are in
use as before and the new ones besides (`Members.AddsAtoms.inUse_iff`), and the same references are
found in them. What is reported of the document is then what was reported before, less what has an
evaluator now; nobody has to lint again to see the next unresolved reference.
-/

namespace FeatureFlags

/-! ## Atoms for some evaluators -/

/-- The value is null, a Boolean, a number or a text. -/
def Json.IsAtom : Json → Prop
  | .arr _ | .obj _ => False
  | _ => True

theorem Json.references_of_isAtom {v : Json} (h : v.IsAtom) (p : Pointer) :
    v.references p = [] := by
  cases v with
  | arr _ | obj _ => cases h
  | _ => rfl

/-- Members with an atom under each of some keys, and else as before. -/
structure Members.AddsAtoms (added : List String) (ms ms' : Members) : Prop where
  atom : ∀ key ∈ added, ∃ v : Json, v.IsAtom ∧ ms'.get? key = some v
  others : ∀ key, key ∉ added → ms'.get? key = ms.get? key

/-- A document with an atom for each of some names among its evaluators, and else as before. -/
structure Json.AddsAtoms (added : List String) (document document' : Json) : Prop where
  evaluators : ∃ evaluators evaluators', document.evaluators? = .ok evaluators ∧
    document'.evaluators? = .ok evaluators' ∧ evaluators.AddsAtoms added evaluators'
  others : ∀ key, key ≠ evaluatorsKey → document'.get? key = document.get? key

/-- Atoms that stand behind the members are added if none of the names was there. -/
theorem Members.addsAtoms_append {ms atoms : Members} (atom : ∀ m ∈ atoms, m.2.IsAtom)
    (new : ∀ key ∈ atoms.keys, ms.has key = false) : ms.AddsAtoms atoms.keys (ms ++ atoms) := by
  constructor
  · intro key hk
    obtain ⟨v, there⟩ := has_iff.1 (has_iff_mem_keys.2 hk)
    have absent : ms.get? key = none := by
      rw [get?_eq_none_iff, ← has_iff_mem_keys, new key hk]
      exact Bool.false_ne_true
    refine ⟨v, atom _ (mem_of_get? there), ?_⟩
    rw [get?_append, absent, there]
    rfl
  · intro key other
    rw [get?_append, get?_eq_none_iff.2 other]
    exact Option.or_none

/-! ## The static search -/

namespace Members

variable {evaluators evaluators' : Members} {added : List String} {roots : List Reference}
  {name : String} {r : Reference}

/-- The references found in the evaluators in use. -/
theorem mem_usedReferences_reachable (nodup : evaluators.keys.Nodup) :
    r ∈ evaluators.usedReferences (evaluators.reachable roots) ↔ ∃ (name : String) (v : Json),
      evaluators.get? name = some v ∧ evaluators.InUse roots name ∧
        r ∈ v.references (evaluatorPointer name) := by
  simp only [mem_usedReferences, mem_reachable_iff, get?_eq_some_iff nodup]

namespace AddsAtoms

variable (h : evaluators.AddsAtoms added evaluators')
include h

theorem has_eq_false_iff : evaluators'.has name = false ↔
    evaluators.has name = false ∧ name ∉ added := by
  simp only [← Bool.not_eq_true, has_iff]
  by_cases new : name ∈ added
  · obtain ⟨v, -, there⟩ := h.atom name new
    simp [there, new]
  · simp [h.others name new, new]

/-- An evaluator that refers to anything is an old one. -/
theorem get?_of_references {v : Json} {p : Pointer} (there : evaluators'.get? name = some v)
    (found : r ∈ v.references p) : evaluators.get? name = some v := by
  rw [← h.others name fun new => ?_]
  · exact there
  · obtain ⟨u, atom, hu⟩ := h.atom name new
    obtain rfl := Option.some.inj (hu.symm.trans there)
    rw [Json.references_of_isAtom atom] at found
    cases found

variable (unknown : ∀ name ∈ added, evaluators.has name = false)
include unknown

theorem get?_of_get? {v : Json} (there : evaluators.get? name = some v) :
    evaluators'.get? name = some v := by
  rw [h.others name fun new => ?_]
  · exact there
  · have absent := unknown name new
    rw [has_iff.2 ⟨v, there⟩] at absent
    cases absent

theorem namesIn_eq (name : String) : evaluators'.namesIn name = evaluators.namesIn name := by
  unfold namesIn
  by_cases new : name ∈ added
  · obtain ⟨v, atom, there⟩ := h.atom name new
    have absent : evaluators.get? name = none := by
      rw [get?_eq_none_iff, ← has_iff_mem_keys, unknown name new]
      exact Bool.false_ne_true
    rw [there, absent]
    dsimp only
    rw [Json.references_of_isAtom atom, List.map_nil]
  · rw [h.others name new]

/-- The old evaluators in use are the same. -/
theorem inUse_iff (known : evaluators.has name = true) :
    evaluators'.InUse roots name ↔ evaluators.InUse roots name := by
  have still : ∀ {name}, evaluators.has name = true → evaluators'.has name = true := by
    intro name known
    rw [← Bool.not_eq_false, h.has_eq_false_iff, known]
    simp
  constructor
  · intro use
    induction use with
    | root hr => exact .root hr known
    | @through via name _ hi _ ih =>
      rw [h.namesIn_eq unknown] at hi
      have from_known : evaluators.has via = true := by
        obtain ⟨v, there, -⟩ := mem_namesIn_iff.1 hi
        exact has_iff.2 ⟨v, there⟩
      exact .through (ih from_known) hi known
  · intro use
    clear known
    induction use with
    | root hr known => exact .root hr (still known)
    | through _ hi known ih => exact .through ih (h.namesIn_eq unknown _ ▸ hi) (still known)

end AddsAtoms

end Members

section

variable {document document' : Json} {evaluators evaluators' : Members} {added : List String}
  {r : Reference} {text text' name : String} {p : Pointer}

/-- With atoms for some unknown evaluators, the same references are found as before, and those are
unresolved that were and do not name one of the new evaluators. -/
theorem mem_checkReferences_of_addsAtoms (h : evaluators.AddsAtoms added evaluators')
    (unknown : ∀ name ∈ added, evaluators.has name = false) (nodup : evaluators.keys.Nodup)
    (nodup' : evaluators'.keys.Nodup) (same : document'.flagReferences = document.flagReferences) :
    .unresolved r ∈ checkReferences document' evaluators' ↔
      .unresolved r ∈ checkReferences document evaluators ∧ r.name ∉ added := by
  have found : r ∈ evaluators'.usedReferences (evaluators'.reachable document.flagReferences) ↔
      r ∈ evaluators.usedReferences (evaluators.reachable document.flagReferences) := by
    rw [Members.mem_usedReferences_reachable nodup, Members.mem_usedReferences_reachable nodup']
    refine exists_congr fun name => exists_congr fun v => ?_
    constructor
    · rintro ⟨there, use, hr⟩
      have there := h.get?_of_references there hr
      exact ⟨there, (h.inUse_iff unknown (Members.has_iff.2 ⟨v, there⟩)).1 use, hr⟩
    · rintro ⟨there, use, hr⟩
      exact ⟨h.get?_of_get? unknown there, (h.inUse_iff unknown use.has).2 use, hr⟩
  rw [mem_checkReferences_unresolved, mem_checkReferences_unresolved, same, found,
    h.has_eq_false_iff, and_assoc]

/-! ## What is reported -/

/-- The diagnostic says (E003) that no evaluator has a name, which is referred to at a place. -/
def Diagnostic.SaysUnresolved (d : Diagnostic) (name : String) (path : Pointer) : Prop :=
  d.code = "E003" ∧ d.message = "unresolved reference \"" ++ name ++ "\"" ∧ d.path = path

/-- It is reported that no evaluator has a name, which is referred to at a place. -/
def ReportsUnresolved (text name : String) (path : Pointer) : Prop :=
  ∃ d ∈ lint text, d.SaysUnresolved name path

instance (d : Diagnostic) (name : String) (path : Pointer) :
    Decidable (d.SaysUnresolved name path) :=
  inferInstanceAs (Decidable (_ ∧ _ ∧ _))

instance (text name : String) (path : Pointer) : Decidable (ReportsUnresolved text name path) :=
  inferInstanceAs (Decidable (∃ d ∈ lint text, _))

/-- Only the static search reports unresolved references. -/
theorem unresolved_of_code {d : Diagnostic} (h : d ∈ lint text) (code : d.code = "E003") :
    ∃ r, d = .unresolved r := by
  cases read : Source.ofText? text with
  | error fault =>
    simp only [lint, Json.ofText?, read, Except.map, List.mem_singleton] at h
    subst h
    simp [Diagnostic.code] at code
  | ok source =>
    rcases mem_lint (map_eq_ok.2 ⟨source, read, rfl⟩) h with
      ⟨x, -, rfl⟩ | ⟨valid, evaluators, he, found | ⟨e, rfl, refused, clean⟩⟩
    · simp [Diagnostic.code] at code
    · cases d with
      | unresolved r => exact ⟨r, rfl⟩
      | unused => simp [Diagnostic.code] at code
      | _ => simp [checkReferences] at found
    · obtain ⟨name, q, rfl⟩ : ∃ name q, e = .unresolvedReference name q := by
        cases e <;> simp [Diagnostic.code, Diagnostic.codeOfError] at code ⊢
      exact absurd rfl (ne_unresolvedReference_of_clean read valid he clean refused)

theorem reportsUnresolved_iff :
    ReportsUnresolved text name p ↔ .unresolved ⟨name, p⟩ ∈ lint text := by
  constructor
  · rintro ⟨d, hd, code, message, rfl⟩
    obtain ⟨r, rfl⟩ := unresolved_of_code hd code
    have written : (Diagnostic.unresolved r).message =
        "unresolved reference \"" ++ r.name ++ "\"" := rfl
    rw [written, String.append_left_inj, String.append_right_inj] at message
    exact message ▸ hd
  · intro h
    exact ⟨_, h, rfl, rfl, rfl⟩

theorem reportsUnresolved_of_parse (h : parse text = .error (.unresolvedReference name p)) :
    ReportsUnresolved text name p := by
  rw [reportsUnresolved_iff]
  cases read : Source.ofText? text with
  | error fault => simp [parse, parseWith, read, Except.mapError, bind, Except.bind] at h
  | ok source =>
    rcases parse_error read h with ⟨violations, other⟩ | ⟨valid, -⟩
    · cases other
    · have read' : Json.ofText? text = .ok source.value := map_eq_ok.2 ⟨source, read, rfl⟩
      obtain ⟨evaluators, -, he, -⟩ := exists_sections valid
      rw [mem_lint_iff read' valid he (by simp)]
      exact mem_checkReferences_of_parse read valid he h

/-- With atoms for some evaluators that are reported to be missing, the other references are reported
that were before, at the same places, and no others; so with atoms for all, none is. And a reference
that a text is refused for is reported. -/
theorem lint_reports_all_unresolved :
    (Json.ofText? text = .ok document → Bundled.schema.violations document = [] →
      (∀ name ∈ added, ∃ p, ReportsUnresolved text name p) →
      Json.ofText? text' = .ok document' → document.AddsAtoms added document' →
        (∀ name p, ReportsUnresolved text' name p ↔ ReportsUnresolved text name p ∧ name ∉ added) ∧
        (∀ d ∈ lint text', d.code = "E003" → ∃ name p, d.SaysUnresolved name p) ∧
        ((∀ name p, ReportsUnresolved text name p → name ∈ added) →
          ∀ d ∈ lint text', d.code ≠ "E003")) ∧
    (parse text = .error (.unresolvedReference name p) → ReportsUnresolved text name p) := by
  refine ⟨fun read valid missing read' adds => ?_, reportsUnresolved_of_parse⟩
  obtain ⟨evaluators, evaluators', he, he', atoms⟩ := adds.evaluators
  have valid' := violations_eq_nil_of_evaluators? adds.others he' valid
  have nodup : ∀ {text document evaluators}, Json.ofText? text = .ok document →
      document.evaluators? = .ok evaluators → evaluators.keys.Nodup := by
    intro text document evaluators read he
    obtain ⟨source, -, rfl⟩ := map_eq_ok.1 read
    exact nodup_evaluators he source.distinctKeys_value
  have unknown : ∀ name ∈ added, evaluators.has name = false := by
    intro name hn
    obtain ⟨p, reported⟩ := missing name hn
    rw [reportsUnresolved_iff, mem_lint_iff read valid he (by simp),
      mem_checkReferences_unresolved] at reported
    exact reported.2
  have same : document'.flagReferences = document.flagReferences := by
    unfold Json.flagReferences
    rw [adds.others _ (by decide)]
  have reported : ∀ name p, ReportsUnresolved text' name p ↔
      ReportsUnresolved text name p ∧ name ∉ added := by
    intro name p
    rw [reportsUnresolved_iff, reportsUnresolved_iff, mem_lint_iff read valid he (by simp),
      mem_lint_iff read' valid' he' (by simp)]
    exact mem_checkReferences_of_addsAtoms atoms unknown (nodup read he) (nodup read' he') same
  have named : ∀ d ∈ lint text', d.code = "E003" → ∃ name p, d.SaysUnresolved name p := by
    intro d hd code
    obtain ⟨r, rfl⟩ := unresolved_of_code hd code
    exact ⟨r.name, r.path, rfl, rfl, rfl⟩
  refine ⟨reported, named, fun all d hd code => ?_⟩
  obtain ⟨name, p, told⟩ := named d hd code
  obtain ⟨before, new⟩ := (reported name p).1 ⟨d, hd, told⟩
  exact new (all name p before)

end

/-- A flag that refers to two evaluators, one of which is missing and the other refers to one that
is; more evaluators come behind. -/
def twoMissing (more : String) : String :=
  "\x7b\"flags\":\x7b\"f\":\x7b\"variations\":\x7b\"on\":[\x7b\"$ref\":\"a\"\x7d,\x7b\"$ref\":\"e\"\x7d]\x7d\x7d\x7d,"
    ++ "\"$evaluators\":\x7b\"e\":\x7b\"$ref\":\"b\"\x7d" ++ more ++ "\x7d\x7d"

/-- The document in such a text. -/
def twoMissingDocument (more : Members) : Json :=
  .obj [
    (flagsKey, .obj [("f", .obj [("variations",
      .obj [("on", .arr [.marker "a", .marker "e"])])])]),
    (evaluatorsKey, .obj ([("e", .marker "b")] ++ more))]

theorem addsAtoms_twoMissing :
    (twoMissingDocument []).AddsAtoms ["a"] (twoMissingDocument [("a", .num (.int 0))]) := by
  have atoms : ∀ m ∈ [("a", Json.num (.int 0))], m.2.IsAtom := by simp [Json.IsAtom]
  refine ⟨⟨_, _, rfl, rfl, Members.addsAtoms_append atoms (by decide)⟩, fun key other => ?_⟩
  simp [twoMissingDocument, Json.get?, Members.get?_cons, Ne.symm other]

/-- With an evaluator for the flag, only the reference inside the other evaluator is left. -/
theorem twoMissing_reports :
    Json.ofText? (twoMissing "") = .ok (twoMissingDocument []) ∧
    Json.ofText? (twoMissing ",\"a\":0") = .ok (twoMissingDocument [("a", .num (.int 0))]) ∧
    (twoMissingDocument []).AddsAtoms ["a"] (twoMissingDocument [("a", .num (.int 0))]) ∧
    (∃ p, parse (twoMissing "") = .error (.unresolvedReference "a" p) ∧
      ReportsUnresolved (twoMissing "") "a" p) ∧
    ReportsUnresolved (twoMissing ",\"a\":0") "b" "/$evaluators/e" ∧
    ∀ p, ¬ ReportsUnresolved (twoMissing ",\"a\":0") "a" p := by
  have read : Json.ofText? (twoMissing "") = .ok (twoMissingDocument []) := by
    rw [← toOption_eq_some]
    decide +kernel
  have read' : Json.ofText? (twoMissing ",\"a\":0") =
      .ok (twoMissingDocument [("a", .num (.int 0))]) := by
    rw [← toOption_eq_some]
    decide +kernel
  have valid : Bundled.schema.violations (twoMissingDocument []) = [] := by decide +kernel
  have hidden : ReportsUnresolved (twoMissing "") "b" "/$evaluators/e" := by decide +kernel
  obtain ⟨p, refused⟩ : ∃ p, parse (twoMissing "") = .error (.unresolvedReference "a" p) := by
    have facts : (match parse (twoMissing "") with
        | .error (.unresolvedReference name _) => name == "a"
        | _ => false) = true := by
      decide +kernel
    split at facts
    next name p refused =>
      obtain rfl := eq_of_beq facts
      exact ⟨p, refused⟩
    next => cases facts
  have first := (@lint_reports_all_unresolved .null .null [] (twoMissing "") "" "a" p).2 refused
  have others := (@lint_reports_all_unresolved _ _ ["a"] _ _ "" "").1 read valid
    (by simpa using ⟨p, first⟩) read' addsAtoms_twoMissing
  refine ⟨read, read', addsAtoms_twoMissing, ⟨p, refused, first⟩, ?_, fun q h => ?_⟩
  · exact (others.1 _ _).2 ⟨hidden, by simp⟩
  · exact ((others.1 _ _).1 h).2 (List.mem_singleton_self _)

end FeatureFlags
