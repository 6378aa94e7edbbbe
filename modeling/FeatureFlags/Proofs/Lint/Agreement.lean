import FeatureFlags.Lint.Check
import FeatureFlags.Proofs.Document.Build
import FeatureFlags.Proofs.Reference.Static

/-!
# Linting and parsing refuse the same texts

A text that is refused has an error among its problems, since only a text without errors so far is
reported without being parsed (`exists_error_of_refused`). An accepted text has none: its flags
expand, so they are resolvable, and nothing that the static search finds in them or in the
evaluators in their reach is unknown (`checkReferences_no_error`).
-/

namespace FeatureFlags

/-! ## The static search -/

section

variable {evaluators flags : Members} {r : Reference}

theorem mem_usedReferences {used : List String} :
    r ∈ evaluators.usedReferences used ↔
      ∃ (name : String) (v : Json), (name, v) ∈ evaluators ∧ name ∈ used ∧
        r ∈ v.references (evaluatorPointer name) := by
  unfold Members.usedReferences
  rw [List.mem_flatMap, Prod.exists]
  refine exists_congr fun name => exists_congr fun v => and_congr_right fun _ => ?_
  by_cases used : name ∈ used <;> simp [used]

theorem has_of_mem_usedReferences {vs : List Json}
    (resolvable : ∀ v ∈ vs, evaluators.Resolvable v) (nodup : evaluators.keys.Nodup)
    {used : List String} (reached : ∀ name ∈ used, ∃ v ∈ vs, evaluators.Reaches v name)
    (hr : r ∈ evaluators.usedReferences used) : evaluators.has r.name = true := by
  obtain ⟨name, raw, hm, use, hr⟩ := mem_usedReferences.1 hr
  obtain ⟨v, hv, reach⟩ := reached name use
  have known := (Members.get?_eq_some_iff nodup).2 hm
  exact ((resolvable v hv).through reach known).has_of_mem_references hr

/-- The flags of a document refer to what the values of the flags refer to: a text under `$ref`
would be no flag. -/
theorem mem_references_of_flags (objects : ∀ m ∈ flags, m.2.IsObject) {p : Pointer}
    (hr : r ∈ (Json.obj flags).references p) : ∃ v ∈ flags.map (·.2), ∃ q, r ∈ v.references q := by
  rw [Json.references, List.mem_append] at hr
  rcases hr with hr | hr
  · -- the flags refer to something themselves: then a text stands where a flag should
    have there := Members.mem_of_get? (Json.mem_ownReference.1 hr).1
    obtain ⟨ms, object⟩ := objects _ there
    cases object
  · obtain ⟨k, v, hm, hq⟩ := Json.mem_referencesInMembers.1 hr
    exact ⟨v, List.mem_map.2 ⟨_, hm, rfl⟩, _, hq⟩

theorem mem_checkReferences_unresolved {document : Json} :
    .unresolved r ∈ checkReferences document evaluators ↔
      (r ∈ document.flagReferences ∨
        r ∈ evaluators.usedReferences (evaluators.reachable document.flagReferences)) ∧
      evaluators.has r.name = false := by
  simp [checkReferences, or_and_right]

theorem mem_checkReferences_unused {document : Json} {name : String} :
    .unused name ∈ checkReferences document evaluators ↔
      evaluators.has name = true ∧ name ∉ evaluators.reachable document.flagReferences := by
  simp [checkReferences, Members.has_iff_mem_keys]

end

/-- If all flags are resolvable, the static search has no errors to report. -/
theorem checkReferences_no_error {document : Json} {evaluators flags : Members}
    (hf : document.get? flagsKey = some (.obj flags)) (objects : ∀ m ∈ flags, m.2.IsObject)
    (resolvable : ∀ v ∈ flags.map (·.2), evaluators.Resolvable v)
    (nodup : evaluators.keys.Nodup) :
    ∀ d ∈ checkReferences document evaluators, d.isError = false := by
  have roots : ∀ r ∈ document.flagReferences, ∃ v ∈ flags.map (·.2), ∃ q, r ∈ v.references q := by
    intro r hr
    rw [Json.flagReferences, hf] at hr
    exact mem_references_of_flags objects hr
  have reached := Members.reachable_subset resolvable roots
  intro d hd
  cases d with
  | unresolved r =>
    obtain ⟨found, unknown⟩ := mem_checkReferences_unresolved.1 hd
    have known : evaluators.has r.name = true := by
      rcases found with found | found
      · obtain ⟨v, hv, q, hq⟩ := roots r found
        exact (resolvable v hv).has_of_mem_references hq
      · exact has_of_mem_usedReferences resolvable nodup reached found
    rw [known] at unknown
    cases unknown
  | unused => rfl
  | _ => simp [checkReferences] at hd

/-! ## What is reported -/

section

variable {document : Json} {evaluators : Members} {text : String} {d : Diagnostic}
  (read : Json.ofText? text = .ok document) (valid : Bundled.schema.violations document = [])
  (he : document.evaluators? = .ok evaluators)
include read valid he

/-- Of a document that satisfies the schema, all that the static search finds is reported, and if
that is no error, also why the text is refused. -/
theorem lint_eq_append : ∃ refusals, lint text = checkReferences document evaluators ++ refusals ∧
    ∀ d ∈ refusals, ∃ e, d = .refused e ∧ parse text = .error e ∧
      ∀ c ∈ checkReferences document evaluators, c.isError = false := by
  unfold lint lintDocument
  rw [read]
  dsimp only
  rw [valid, he]
  dsimp only
  split
  · exact ⟨[], (List.append_nil _).symm, by simp⟩
  next clean =>
    split
    · exact ⟨[], (List.append_nil _).symm, by simp⟩
    next e refused =>
      refine ⟨[.refused e], rfl, fun d hd => ⟨e, List.mem_singleton.1 hd, refused, fun c hc => ?_⟩⟩
      rw [← Bool.not_eq_true]
      exact fun error => clean (List.any_eq_true.2 ⟨c, hc, error⟩)

theorem mem_lint_iff (unrefused : ∀ e, d ≠ .refused e) :
    d ∈ lint text ↔ d ∈ checkReferences document evaluators := by
  obtain ⟨refusals, split, refused⟩ := lint_eq_append read valid he
  rw [split, List.mem_append]
  refine or_iff_left fun hd => ?_
  obtain ⟨e, same, -⟩ := refused d hd
  exact unrefused e same

/-- Of an accepted text, only what the static search finds is reported. -/
theorem lint_eq_of_parse {m : FlagMap} (h : parse text = .ok m) :
    lint text = checkReferences document evaluators := by
  obtain ⟨refusals, split, refused⟩ := lint_eq_append read valid he
  cases refusals with
  | nil => rw [split, List.append_nil]
  | cons d more =>
    obtain ⟨e, -, h', -⟩ := refused d List.mem_cons_self
    rw [h] at h'
    cases h'

end

/-! ## Accepted texts -/

/-- An accepted text has no errors among its problems. -/
theorem lint_no_error {text : String} {m : FlagMap} (h : parse text = .ok m) :
    ∀ d ∈ lint text, d.isError = false := by
  obtain ⟨document, evaluators, flags, accepted⟩ := accepted_of_parse h
  have objects : ∀ m ∈ flags, m.2.IsObject := by
    intro m hm
    obtain ⟨ms, object, -⟩ := accepted.shape m hm
    exact ⟨ms, object⟩
  have resolvable : ∀ v ∈ flags.map (·.2), evaluators.Resolvable v := by
    intro v hv
    obtain ⟨raw, hr, rfl⟩ := List.mem_map.1 hv
    obtain ⟨f, -, -, w, hx, -⟩ := accepted.built raw hr
    exact Resolver.resolvable_of_expand_done (congrArg Expansion.error? hx)
  have clean := checkReferences_no_error (flags?_eq_ok.1 accepted.flags_eq) objects resolvable
    accepted.distinct
  rw [lint_eq_of_parse accepted.read accepted.valid accepted.evaluators_eq h]
  exact clean

/-! ## Refused texts -/

/-- A refused text has an error among its problems. -/
theorem exists_error_of_refused {text : String} {e : ConfigError} (h : parse text = .error e) :
    ∃ d ∈ lint text, d.isError = true := by
  unfold lint
  cases Json.ofText? text with
  | error e => exact ⟨.notJson e, List.mem_singleton_self _, rfl⟩
  | ok document =>
    dsimp only
    cases Bundled.schema.violations document with
    | cons v more => exact ⟨.violation v, List.mem_cons_self, rfl⟩
    | nil =>
      unfold lintDocument
      cases document.evaluators? with
      | error e => exact ⟨.refused e, List.mem_singleton_self _, rfl⟩
      | ok evaluators =>
        dsimp only
        by_cases found : (checkReferences document evaluators).any (·.isError) = true
        · rw [if_pos found]
          exact List.any_eq_true.1 found
        · rw [if_neg found, h]
          exact ⟨.refused e, List.mem_append_right _ (List.mem_singleton_self _), rfl⟩

/-- Linting reports an error exactly if parsing refuses the text. In an accepted text no reference
is reported as unknown, and a refused one has more than warnings. -/
theorem lint_agrees_with_parse (text : String) :
    ((∃ d ∈ lint text, d.severity = .error) ↔ ∃ e, parse text = .error e) ∧
      (∀ m, parse text = .ok m → ∀ d ∈ lint text, d.code ≠ "E003") ∧
      (∀ e, parse text = .error e → ¬ ∀ d ∈ lint text, d.severity = .warning) := by
  have isError_iff : ∀ d : Diagnostic, d.isError = true ↔ d.severity = .error := by
    intro d
    simp [Diagnostic.isError]
  refine ⟨⟨?_, ?_⟩, ?_, ?_⟩
  · rintro ⟨d, hd, error⟩
    cases h : parse text with
    | error e => exact ⟨e, rfl⟩
    | ok m =>
      have clean := lint_no_error h d hd
      rw [(isError_iff d).2 error] at clean
      cases clean
  · rintro ⟨e, h⟩
    obtain ⟨d, hd, error⟩ := exists_error_of_refused h
    exact ⟨d, hd, (isError_iff d).1 error⟩
  · intro m h d hd
    have clean := lint_no_error h d hd
    -- only an unused evaluator is no error, and it has a code of its own
    cases d with
    | unused name => simp [Diagnostic.code]
    | _ => cases clean
  · intro e h warnings
    obtain ⟨d, hd, error⟩ := exists_error_of_refused h
    have warning := warnings d hd
    rw [(isError_iff d).1 error] at warning
    cases warning

end FeatureFlags
