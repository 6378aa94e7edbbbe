import FeatureFlags.Proofs.Document.Sections
import FeatureFlags.Proofs.Lint.Agreement
import FeatureFlags.Proofs.Reference.Missing
import FeatureFlags.Proofs.Reference.Success
import FeatureFlags.Proofs.Reference.Worklist

/-!
# The warning about unused evaluators is exact

An evaluator that is reported as unused is out of reach of all flags, because the static search
misses none in reach; then no session ever looks it up, and the document comes to the same without
it or with anything in its place (`build_congr`). An evaluator of an accepted document that is not
reported is in reach of a flag, and the session of an accepted document remembers all that is; so
without it the session ends where the evaluator is first asked for (`attemptFlags_erase`).
-/

namespace FeatureFlags

variable {options : Options} {document : Json} {evaluators evaluators' flags : Members}
  {name : String}

/-! ## Documents with other evaluators -/

/-- The document without an evaluator. -/
def Json.withoutEvaluator (document : Json) (name : String) : Json :=
  document.mapSection evaluatorsKey (·.erase name)

/-- The document with a value in place of an evaluator. -/
def Json.withEvaluator (document : Json) (name : String) (w : Json) : Json :=
  document.mapSection evaluatorsKey (·.put name w)

/-! ## An evaluator that no flag reaches -/

theorem attemptFlags_congr
    (agree : ∀ raw ∈ flags, ∀ name, evaluators.Reaches raw.2 name →
      evaluators'.get? name = evaluators.get? name) (s : Session) :
    attemptFlags options evaluators' flags s = attemptFlags options evaluators flags s := by
  induction flags generalizing s with
  | nil => rfl
  | cons raw more ih =>
    obtain ⟨first, rest⟩ := List.forall_mem_cons.1 agree
    simp only [attemptFlags, attemptFlag, Session.resolve_congr first, ih rest]

/-- With other evaluators out of the flags' reach, a document comes to the same. -/
theorem build_congr {document' : Json} (he : document.evaluators? = .ok evaluators)
    (he' : document'.evaluators? = .ok evaluators') (hf : document.flags? = .ok flags)
    (same : document'.flags? = document.flags?) (metadata : document'.metadata? = document.metadata?)
    (agree : ∀ raw ∈ flags, ∀ name, evaluators.Reaches raw.2 name →
      evaluators'.get? name = evaluators.get? name) :
    build options document' = build options document := by
  rw [build_eq he hf, build_eq he' (same.trans hf), attemptFlags_congr agree,
    Json.assemble_congr metadata]

/-! ## An evaluator that a flag reaches -/

/-- The error says that the evaluator is missing. -/
def ConfigError.Misses (missing : String) (e : ConfigError) : Prop :=
  ∃ p, e = .unresolvedReference missing p

theorem attemptFlag_erase (raw : String × Json) {s : Session} (fresh : ¬ s.Remembers name) :
    Attempt.Without name (ConfigError.Misses name) (attemptFlag options evaluators raw s)
      (attemptFlag options (evaluators.erase name) raw s) := by
  have resolved := @Session.resolve_erase evaluators _ raw.2 (flagPointer raw.1) _ fresh
  refine (resolved.mapError ?_).andThen fun _ _ fresh' => .refl fresh'
  rintro _ ⟨p, rfl⟩
  exact ⟨p, rfl⟩

/-- Without an evaluator, flags are built in the same way up to the first that asks for it. -/
theorem attemptFlags_erase (flags : Members) {s : Session} (fresh : ¬ s.Remembers name) :
    Attempt.Without name (ConfigError.Misses name) (attemptFlags options evaluators flags s)
      (attemptFlags options (evaluators.erase name) flags s) := by
  induction flags generalizing s with
  | nil => exact .refl fresh
  | cons raw more ih =>
    exact (attemptFlag_erase raw fresh).andThen fun _ _ fresh' => (ih fresh').andThen
      fun _ _ fresh'' => .refl fresh''

/-- An accepted document cannot do without an evaluator that a flag reaches. -/
theorem build_erase {document' : Json} {m : FlagMap} (he : document.evaluators? = .ok evaluators)
    (he' : document'.evaluators? = .ok (evaluators.erase name)) (hf : document.flags? = .ok flags)
    (same : document'.flags? = document.flags?) (accepted : build options document = .ok m)
    {raw : String × Json} (there : raw ∈ flags) (reach : evaluators.Reaches raw.2 name) :
    ∃ p, build options document' = .error (.unresolvedReference name p) := by
  rw [build_eq he hf, assemble_eq_ok] at accepted
  obtain ⟨built, metadata, hb, -, -⟩ := accepted
  have faithful : Session.Faithful evaluators [] { limit := options.limit } :=
    Session.faithful_fresh options.limit
  have follows := @attemptFlags_follows options _ _ flags faithful
  have remembered : (attemptFlags options evaluators flags { limit := options.limit }).2.Remembers
      name :=
    follows.faithful.remembers_of_reaches
      (fun inner m => follows.remembered built hb inner ⟨raw, there, m⟩) reach
  have fresh : ¬ Session.Remembers { limit := options.limit } name := by
    rintro ⟨f, hf⟩
    cases hf
  rcases @attemptFlags_erase options evaluators _ flags _ fresh with ⟨-, forgotten⟩ | ⟨_, refused, p, rfl⟩
  · exact absurd remembered forgotten
  · refine ⟨p, ?_⟩
    rw [build_eq he' (same.trans hf), refused]
    rfl

/-! ## What is reported -/

/-- In a document that satisfies the schema, the evaluators reported as unused are those that the
static search does not find in use. -/
theorem mem_lint_unused {text : String} (read : Json.ofText? text = .ok document)
    (valid : Bundled.schema.violations document = [])
    (he : document.evaluators? = .ok evaluators) : .unused name ∈ lint text ↔
      evaluators.has name = true ∧ name ∉ evaluators.reachable document.flagReferences := by
  rw [← mem_checkReferences_unused]
  exact mem_lint_iff read valid he (by simp)

/-- No flag reaches an evaluator that the static search does not find in use. -/
theorem not_reaches_of_not_mem_reachable (hf : document.get? flagsKey = some (.obj flags))
    (known : evaluators.has name = true)
    (unused : name ∉ evaluators.reachable document.flagReferences) :
    ∀ raw ∈ flags, ¬ evaluators.Reaches raw.2 name := by
  intro raw hr reach
  have found : raw.2.references (flagPointer raw.1) ⊆ document.flagReferences := by
    intro r found
    rw [Json.flagReferences, hf]
    exact List.mem_append_right _ (Json.mem_referencesInMembers.2 ⟨_, _, hr, found⟩)
  exact unused (Members.mem_reachable_of_reaches found reach known)

/-- In an accepted document, a flag reaches each evaluator that the static search finds in use. -/
theorem reaches_of_mem_reachable {m : FlagMap} (valid : Bundled.schema.violations document = [])
    (he : document.evaluators? = .ok evaluators) (hf : document.flags? = .ok flags)
    (accepted : build options document = .ok m)
    (used : name ∈ evaluators.reachable document.flagReferences) :
    ∃ raw ∈ flags, evaluators.Reaches raw.2 name := by
  have there := flags?_eq_ok.1 hf
  have objects : ∀ raw ∈ flags, raw.2.IsObject := by
    obtain ⟨ms, rfl, whole⟩ := Bundled.violations_eq_nil_iff.1 valid
    obtain ⟨fs, hfs, shapes⟩ := whole.flags
    obtain rfl := Json.obj.inj (Option.some.inj (hfs.symm.trans there))
    intro raw hr
    obtain ⟨inner, object, -⟩ := shapes raw hr
    exact ⟨inner, object⟩
  have resolvable : ∀ v ∈ flags.map (·.2), evaluators.Resolvable v := by
    intro v hv
    obtain ⟨raw, hr, rfl⟩ := List.mem_map.1 hv
    exact Resolver.resolvable_of_expand_done (expands_of_build he hf accepted hr)
  have roots : ∀ r ∈ document.flagReferences, ∃ v ∈ flags.map (·.2), ∃ q, r ∈ v.references q := by
    intro r hr
    rw [Json.flagReferences, there] at hr
    exact mem_references_of_flags objects hr
  obtain ⟨v, hv, reach⟩ := Members.reachable_subset resolvable roots name used
  obtain ⟨raw, hr, rfl⟩ := List.mem_map.1 hv
  exact ⟨raw, hr, reach⟩

/-! ## Changed evaluators -/

section

variable {change : Members → Members} (there : document.get? evaluatorsKey = some (.obj evaluators))
  (valid : Bundled.schema.violations document = []) (hf : document.flags? = .ok flags)
include there

theorem evaluators?_mapSection :
    (document.mapSection evaluatorsKey change).evaluators? = .ok (change evaluators) :=
  evaluators?_eq_ok.2 (.inl (Json.get?_mapSection there))

include valid

theorem parseDocument_mapSection_evaluators :
    parseDocument bundledValidator options (document.mapSection evaluatorsKey change) =
      build options (document.mapSection evaluatorsKey change) :=
  parseDocument_eq <| bundledValidator_eq_ok.2 <|
    violations_eq_nil_of_evaluators? (fun _ => Json.get?_mapSection_ne)
      (evaluators?_mapSection there) valid

include hf

/-- What is done to an evaluator that the static search does not find in use makes no difference. -/
theorem parseDocument_mapSection_unused (known : evaluators.has name = true)
    (unused : name ∉ evaluators.reachable document.flagReferences)
    (others : ∀ other, other ≠ name → (change evaluators).get? other = evaluators.get? other) :
    parseDocument bundledValidator options (document.mapSection evaluatorsKey change) =
      build options document := by
  rw [parseDocument_mapSection_evaluators there valid]
  refine build_congr (evaluators?_eq_ok.2 (.inl there)) (evaluators?_mapSection there) hf
    (Json.flags?_congr (Json.get?_mapSection_ne (by decide)))
    (Json.metadata?_congr (Json.get?_mapSection_ne (by decide))) fun raw hr other reach => ?_
  refine others other ?_
  rintro rfl
  exact not_reaches_of_not_mem_reachable (flags?_eq_ok.1 hf) known unused raw hr reach

/-- An accepted document cannot do without an evaluator that the static search finds in use. -/
theorem parseDocument_withoutEvaluator_used {m : FlagMap} (accepted : build options document = .ok m)
    (used : name ∈ evaluators.reachable document.flagReferences) :
    ∃ p, parseDocument bundledValidator options (document.withoutEvaluator name) =
      .error (.unresolvedReference name p) := by
  have he := evaluators?_eq_ok.2 (.inl there)
  obtain ⟨raw, hr, reach⟩ := reaches_of_mem_reachable valid he hf accepted used
  rw [Json.withoutEvaluator, parseDocument_mapSection_evaluators there valid]
  exact build_erase he (evaluators?_mapSection there) hf
    (Json.flags?_congr (Json.get?_mapSection_ne (by decide))) accepted hr reach

end

/-- An evaluator that is reported as unused (W001) can be left out or be replaced by any value, and the
document comes to the same; one that is not cannot be left out of an accepted document. -/
theorem unused_warning_exact {text : String} (read : Json.ofText? text = .ok document)
    (valid : Bundled.schema.violations document = [])
    (he : document.evaluators? = .ok evaluators) (known : evaluators.has name = true) :
    (.unused name ∈ lint text →
      parseDocument bundledValidator options (document.withoutEvaluator name) =
          parseDocument bundledValidator options document ∧
        ∀ w, parseDocument bundledValidator options (document.withEvaluator name w) =
          parseDocument bundledValidator options document) ∧
      ∀ m, parseDocument bundledValidator options document = .ok m → .unused name ∉ lint text →
        ∃ p, parseDocument bundledValidator options (document.withoutEvaluator name) =
          .error (.unresolvedReference name p) := by
  obtain ⟨flags, hf⟩ : ∃ flags, document.flags? = .ok flags := by
    obtain ⟨ms, rfl, whole⟩ := Bundled.violations_eq_nil_iff.1 valid
    obtain ⟨fs, hfs, -⟩ := whole.flags
    exact ⟨fs, flags?_eq_ok.2 hfs⟩
  have there : document.get? evaluatorsKey = some (.obj evaluators) := by
    rcases evaluators?_eq_ok.1 he with there | ⟨-, rfl⟩
    · exact there
    · cases known
  rw [mem_lint_unused read valid he, parseDocument_eq (bundledValidator_eq_ok.2 valid)]
  constructor
  · rintro ⟨-, unused⟩
    have same := fun change => @parseDocument_mapSection_unused options _ _ _ _ change there valid hf
      known unused
    refine ⟨same _ fun other ne => ?_, fun w => same _ fun other ne => ?_⟩
    · rw [Members.get?_erase, if_neg ne]
    · rw [Members.get?_put, if_neg ne]
  · intro m accepted reported
    have used : name ∈ evaluators.reachable document.flagReferences :=
      Decidable.not_not.1 fun unused => reported ⟨known, unused⟩
    exact parseDocument_withoutEvaluator_used there valid hf accepted used

/-- A flag that uses one evaluator of two. -/
def oneUsed : String :=
  "\x7b\"flags\": \x7b\"f\": \x7b\"variations\": \x7b\"on\": \x7b\"$ref\": \"used\"\x7d\x7d\x7d\x7d, "
    ++ "\"$evaluators\": \x7b\"used\": 1, \"spare\": \x7b\"$ref\": \"none\"\x7d\x7d\x7d"

/-- The document is accepted and stays so without the evaluator that is not used, and not without
the one that is. -/
theorem oneUsed_warning_exact : ∃ document m, Json.ofText? oneUsed = .ok document ∧
    parseDocument bundledValidator {} document = .ok m ∧
    parseDocument bundledValidator {} (document.withoutEvaluator "spare") = .ok m ∧
    ∃ p, parseDocument bundledValidator {} (document.withoutEvaluator "used") =
      .error (.unresolvedReference "used" p) := by
  have facts : ((Json.ofText? oneUsed).toOption.any fun document =>
      (Bundled.schema.violations document).isEmpty
        && (parseDocument bundledValidator {} document).toOption.isSome
        && document.evaluators?.toOption.any fun evaluators =>
          evaluators.keys == ["used", "spare"]
            && evaluators.reachable document.flagReferences == ["used"]) = true := by
    decide +kernel
  cases read : Json.ofText? oneUsed with
  | error e => simp [read, Except.toOption] at facts
  | ok document =>
    simp only [read, Except.toOption, Option.any_some, Bool.and_eq_true, List.isEmpty_iff] at facts
    obtain ⟨⟨valid, accepted⟩, sections⟩ := facts
    cases he : document.evaluators? with
    | error e => simp [he] at sections
    | ok evaluators =>
      simp only [he, Option.any_some, Bool.and_eq_true, beq_iff_eq] at sections
      obtain ⟨keys, used⟩ := sections
      have known : ∀ name ∈ ["used", "spare"], evaluators.has name = true := by
        intro name hn
        exact Members.has_iff_mem_keys.2 (keys ▸ hn)
      have reported : .unused "spare" ∈ lint oneUsed ∧ .unused "used" ∉ lint oneUsed := by
        simp [mem_lint_unused read valid he, used, known]
      cases hm : parseDocument bundledValidator {} document with
      | error e => simp [hm] at accepted
      | ok m =>
        have unused := @unused_warning_exact {} _ _ "spare" _ read valid he (known _ (by simp))
        have needed := @unused_warning_exact {} _ _ "used" _ read valid he (known _ (by simp))
        refine ⟨document, m, rfl, hm, ?_, needed.2 m hm reported.2⟩
        rw [(unused.1 reported.1).1, hm]

end FeatureFlags
