import FeatureFlags.Proofs.Document.FlagProblems
import FeatureFlags.Proofs.Document.ReferenceFree
import FeatureFlags.Proofs.Document.Repetition
import FeatureFlags.Proofs.Lint.Unresolved

/-!
# Which problems of flags are reported

The static search sees unknown references. What else may be wrong with a flag is left to parsing,
which ends at the first flag that it refuses, so among the diagnostics is one error for all of it
(`SoundElsewhere.exists_first`). Hence the problems of the flags are all reported if and only if
there is one at most, and no flag that does not decode is refused before it
(`lint_reports_flag_problems`).
-/

namespace FeatureFlags

variable {text : String} {source : Source} {evaluators flags : Members} {raw : String × Json}
  {q : Pointer} {e : ConfigError}

/-- The first element of a kind is not behind another of that kind. -/
theorem mem_of_first {α : Type} {before after before' after' : List α} {first x : α} {P : α → Prop}
    (fine : ∀ b ∈ before, ¬ P b) (hx : P x)
    (split : before ++ first :: after = before' ++ x :: after') : first ∈ before' ++ [x] := by
  rcases List.append_eq_append_iff.1 split with ⟨more, rfl, rest⟩ | ⟨more, rfl, rest⟩
  · -- first is x or stands before it
    cases more <;>
    · obtain ⟨rfl, -⟩ := List.cons.inj rest
      simp
  · cases more with
    | nil =>
      obtain ⟨rfl, -⟩ := List.cons.inj rest
      simp
    | cons y more =>
      obtain ⟨rfl, -⟩ := List.cons.inj rest
      exact absurd hx (fine _ (by simp))

/-- A text that is read, satisfies the schema and repeats no key, in which every reference that is in
use names an evaluator, every marker in a flag one that resolves, and the limit is not met: what may
be wrong is the flags by themselves. -/
structure SoundElsewhere (text : String) (source : Source) (evaluators flags : Members) : Prop where
  read : Source.ofText? text = .ok source
  valid : Bundled.schema.violations source.value = []
  once : source.RepeatsNoKey
  evaluators_eq : source.value.evaluators? = .ok evaluators
  flags_eq : source.value.flags? = .ok flags
  known : ∀ r ∈ source.value.flagReferences, evaluators.has r.name = true
  knownInUse : ∀ name v, evaluators.InUse source.value.flagReferences name →
    evaluators.get? name = some v → ∀ r ∈ v.references (evaluatorPointer name),
      evaluators.has r.name = true
  resolves : ∀ raw ∈ flags, ∀ name, raw.2.Mentions name → evaluators.Resolvable (.marker name)
  within : ¬ AtLimit (parse text)

namespace SoundElsewhere

variable (h : SoundElsewhere text source evaluators flags)
include h

theorem document_eq : Json.ofText? text = .ok source.value :=
  map_eq_ok.2 ⟨source, h.read, rfl⟩

theorem nodup_flags : flags.keys.Nodup :=
  (Json.distinctKeys_obj_iff.1
    (distinctKeys_of_get? (flags?_eq_ok.1 h.flags_eq) source.distinctKeys_value)).1

theorem exists_isFlag (hr : raw ∈ flags) :
    ∃ ms : Members, raw.2 = .obj ms ∧ ms.IsFlag ∧ ms.keys.Nodup := by
  obtain ⟨ms, document, model⟩ := Bundled.violations_eq_nil_iff.1 h.valid
  obtain ⟨fs, there, shapes⟩ := model.flags
  have found := flags?_eq_ok.1 h.flags_eq
  rw [document] at found
  obtain rfl := Json.obj.inj (Option.some.inj (found.symm.trans there))
  obtain ⟨inner, object, flag⟩ := shapes raw hr
  have distinct := (Json.distinctKeys_obj_iff.1
    (distinctKeys_of_get? (flags?_eq_ok.1 h.flags_eq) source.distinctKeys_value)).2 raw hr
  rw [object] at distinct
  exact ⟨inner, object, flag, (Json.distinctKeys_obj_iff.1 distinct).1⟩

theorem eq_of_key {x y : String × Json} (hx : x ∈ flags) (hy : y ∈ flags) (same : x.1 = y.1) :
    x = y := by
  have found := (Members.get?_eq_some_iff h.nodup_flags).2 hx
  rw [same, (Members.get?_eq_some_iff h.nodup_flags).2 hy] at found
  exact Prod.ext same (Option.some.inj found).symm

/-! ## What is reported -/

/-- The static search finds no more than evaluators that are not in use. -/
theorem unused_of_mem {d : Diagnostic} (hd : d ∈ checkReferences source.value evaluators) :
    ∃ name, d = .unused name := by
  cases d with
  | unused name => exact ⟨name, rfl⟩
  | unresolved r =>
    obtain ⟨found, unknown⟩ := mem_checkReferences_unresolved.1 hd
    have nodup := nodup_evaluators h.evaluators_eq source.distinctKeys_value
    have known : evaluators.has r.name = true := by
      rcases found with found | found
      · exact h.known r found
      · obtain ⟨name, v, there, use, found⟩ := (Members.mem_usedReferences_reachable nodup).1 found
        exact h.knownInUse name v use there r found
    rw [known] at unknown
    cases unknown
  | _ => simp [checkReferences] at hd

/-- The text is parsed to what its flags come to by themselves. -/
theorem parse_eq : parse text =
    source.value.assemble (flags.mapM (plainFlag {} evaluators)) := by
  have unrepeated := (checkRepeatedKeys_eq_ok h.flags_eq h.evaluators_eq).2 h.once
  have built : parse text = build {} source.value := by
    rw [parse, parseWith_of_refuse rfl h.read (bundledValidator_eq_ok.2 h.valid), unrepeated]
    rfl
  rw [built]
  exact build_eq_plain h.evaluators_eq h.flags_eq (built ▸ h.within)

theorem lint_eq (refused : flags.mapM (plainFlag {} evaluators) = .error e) :
    lint text = checkReferences source.value evaluators ++ [.refused e] := by
  have clean : (checkReferences source.value evaluators).any (·.isError) = false := by
    rw [List.any_eq_false]
    intro d hd
    obtain ⟨name, rfl⟩ := h.unused_of_mem hd
    exact Bool.false_ne_true
  have parsed : parse text = .error e := by
    rw [h.parse_eq, refused]
    rfl
  unfold lint lintDocument
  rw [h.document_eq]
  dsimp only
  rw [h.valid, h.evaluators_eq]
  dsimp only
  rw [clean, parsed]
  rfl

/-- If a flag is refused, the first one that is makes the only error that is reported. -/
theorem exists_first (hr : raw ∈ flags) (refused : Refused evaluators raw) :
    ∃ before first after e, flags = before ++ first :: after ∧
      (∀ b ∈ before, ¬ Refused evaluators b) ∧ plainFlag {} evaluators first = .error e ∧
      lint text = checkReferences source.value evaluators ++ [.refused e] := by
  cases built : flags.mapM (plainFlag {} evaluators) with
  | ok fs =>
    obtain ⟨f, fine⟩ := exists_mapM_eq_ok_iff.1 ⟨fs, built⟩ raw hr
    exact absurd fine (refused_iff.1 refused f)
  | error e =>
    obtain ⟨before, first, after, split, fine, fails⟩ := mapM_eq_error.1 built
    refine ⟨before, first, after, e, split, fun b hb => ?_, fails, h.lint_eq built⟩
    obtain ⟨f, fine⟩ := fine b hb
    exact fun refused => refused_iff.1 refused f fine

/-- A problem of a flag is reported if that one error is reported where it is. -/
theorem reported_iff (problem : FlagProblem evaluators raw q)
    (reported : lint text = checkReferences source.value evaluators ++ [.refused e]) :
    (∃ d ∈ lint text, d.path = q) ↔ q = Diagnostic.pointerOfError e := by
  rw [reported]
  constructor
  · rintro ⟨d, hd, rfl⟩
    rcases List.mem_append.1 hd with hd | hd
    · obtain ⟨name, rfl⟩ := h.unused_of_mem hd
      exact absurd rfl (problem.ne_evaluatorPointer name)
    · rw [List.mem_singleton.1 hd]
      rfl
  · rintro rfl
    exact ⟨_, List.mem_append_right _ (List.mem_singleton_self _), rfl⟩

theorem refused_of_problem (hr : raw ∈ flags) (problem : FlagProblem evaluators raw q) :
    Refused evaluators raw := by
  obtain ⟨ms, object, flag, nodup⟩ := h.exists_isFlag hr
  exact problem.refused object flag nodup

/-- The error points at a problem of the flag, or at the flag if it does not decode. -/
theorem pointer_of_refused (hr : raw ∈ flags) (refused : plainFlag {} evaluators raw = .error e) :
    (FlagProblem evaluators raw (Diagnostic.pointerOfError e) ∧ ¬ Undecodable evaluators raw) ∨
      (Diagnostic.pointerOfError e = flagPointer raw.1 ∧ Undecodable evaluators raw) := by
  obtain ⟨ms, object, flag, nodup⟩ := h.exists_isFlag hr
  rcases blame_of_refused object flag nodup (h.resolves raw hr) refused with
    ⟨q, fault, rfl, problem, decodes⟩ | ⟨fault, rfl, undecodable⟩
  · exact .inl ⟨problem, decodes⟩
  · exact .inr ⟨rfl, undecodable⟩

/-- The problems come to one error, if there are any. -/
theorem countP_isError (hr : raw ∈ flags) (problem : FlagProblem evaluators raw q) :
    (lint text).countP (·.isError) = 1 := by
  obtain ⟨before, first, after, e, -, -, -, reported⟩ :=
    h.exists_first hr (h.refused_of_problem hr problem)
  have warnings : (checkReferences source.value evaluators).countP (·.isError) = 0 := by
    rw [List.countP_eq_zero]
    intro d hd
    obtain ⟨name, rfl⟩ := h.unused_of_mem hd
    exact Bool.false_ne_true
  rw [reported, List.countP_append, warnings]
  rfl

/-- Problems that are reported are in one place. -/
theorem eq_of_reported {x y : String × Json} {p : Pointer} (hx : x ∈ flags)
    (problem : FlagProblem evaluators x p) (problem' : FlagProblem evaluators y q)
    (reported : ∃ d ∈ lint text, d.path = p) (reported' : ∃ d ∈ lint text, d.path = q) :
    p = q := by
  obtain ⟨before, first, after, e, -, -, -, only⟩ :=
    h.exists_first hx (h.refused_of_problem hx problem)
  exact ((h.reported_iff problem only).1 reported).trans
    ((h.reported_iff problem' only).1 reported').symm

/-- A flag with a problem that is reported is the first that is refused, and it decodes. -/
theorem decodes_of_reported {before after : Members} {other : String × Json}
    (split : flags = before ++ raw :: after) (problem : FlagProblem evaluators raw q)
    (reported : ∃ d ∈ lint text, d.path = q) (ho : other ∈ before ++ [raw]) :
    ¬ Undecodable evaluators other := by
  intro undecodable
  have hr : raw ∈ flags := by simp [split]
  obtain ⟨fine, first, rest, e, cut, sound, refused, only⟩ :=
    h.exists_first hr (h.refused_of_problem hr problem)
  have hf : first ∈ flags := by simp [cut]
  have here := (h.reported_iff problem only).1 reported
  rcases h.pointer_of_refused hf refused with ⟨own, decodes⟩ | ⟨place, broken⟩
  · obtain rfl := h.eq_of_key hr hf (FlagProblem.key_unique (here ▸ problem) own)
    rcases List.mem_append.1 ho with earlier | same
    · -- a flag before this one is refused, and so this one is not the first
      obtain ⟨before, between, rfl⟩ := List.append_of_mem earlier
      have behind := mem_of_first sound undecodable.refused
        (by rw [← cut, split, List.append_assoc, List.cons_append])
      have twice : raw ∈ before ++ other :: between := by
        rcases List.mem_append.1 behind with there | same
        · exact List.mem_append_left _ there
        · simp [List.mem_singleton.1 same]
      have nodup := h.nodup_flags
      rw [split, Members.keys, List.map_append, List.nodup_append] at nodup
      exact nodup.2.2 raw.1 (List.mem_map_of_mem twice) raw.1 (by simp) rfl
    · exact decodes (List.mem_singleton.1 same ▸ undecodable)
  · exact problem.ne_flagPointer broken (h.eq_of_key hr hf) (here.trans place)

/-- A problem is reported if there are none elsewhere and the flags up to it decode. -/
theorem reported_of_only (hr : raw ∈ flags) (problem : FlagProblem evaluators raw q)
    (only : ∀ x ∈ flags, ∀ p, FlagProblem evaluators x p → q = p)
    (decodes : ∀ before after, flags = before ++ raw :: after →
      ∀ other ∈ before ++ [raw], ¬ Undecodable evaluators other) :
    ∃ d ∈ lint text, d.path = q := by
  have faulty := h.refused_of_problem hr problem
  obtain ⟨fine, first, rest, e, cut, sound, refused, reported⟩ := h.exists_first hr faulty
  have hf : first ∈ flags := by simp [cut]
  rw [h.reported_iff problem reported]
  rcases h.pointer_of_refused hf refused with ⟨own, -⟩ | ⟨-, broken⟩
  · exact only first hf _ own
  · obtain ⟨before, after, split⟩ := List.append_of_mem hr
    have ahead := mem_of_first sound faulty (cut.symm.trans split)
    exact absurd broken (decodes before after split first ahead)

end SoundElsewhere

/-- In a text in which only flags may be at fault, the problems of flags come to one error, if there
are any. They are all reported if and only if they are all in one place and no flag, up to the one
that has them, resolves to something that does not decode. -/
theorem lint_reports_flag_problems (h : SoundElsewhere text source evaluators flags) :
    ((∃ raw ∈ flags, ∃ q, FlagProblem evaluators raw q) →
      (lint text).countP (·.isError) = 1) ∧
    ((∀ raw ∈ flags, ∀ q, FlagProblem evaluators raw q → ∃ d ∈ lint text, d.path = q) ↔
      (∀ x ∈ flags, ∀ y ∈ flags, ∀ p q, FlagProblem evaluators x p → FlagProblem evaluators y q →
        p = q) ∧
      ∀ before raw after q, flags = before ++ raw :: after → FlagProblem evaluators raw q →
        ∀ other ∈ before ++ [raw], ¬ Undecodable evaluators other) := by
  refine ⟨?_, ⟨fun all => ⟨?_, ?_⟩, ?_⟩⟩
  · rintro ⟨raw, hr, q, problem⟩
    exact h.countP_isError hr problem
  · intro x hx y hy p q problem problem'
    exact h.eq_of_reported hx problem problem' (all x hx p problem) (all y hy q problem')
  · intro before raw after q split problem other ho
    have hr : raw ∈ flags := by simp [split]
    exact h.decodes_of_reported split problem (all raw hr q problem) ho
  · rintro ⟨one, decodes⟩ raw hr q problem
    exact h.reported_of_only hr problem (fun x hx p => one raw hr x hx q p problem)
      fun before after split => decodes before raw after q split problem

/-! ## Two flags with the same problem -/

/-- The evaluators of the documents below. -/
def switches : Members := [("switch", .obj [("on", .bool true)])]

/-- A flag whose default variant is none of the variations that its evaluator gives. -/
def wrongFlag : Json := .obj [("variations", .marker "switch"), ("defaultVariant", .str "up")]

/-- Such a flag under each of some keys. -/
def wrongFlags (keys : List String) : Members := keys.map (·, wrongFlag)

def wrongDefaultsDocument (keys : List String) : Json :=
  .obj [(flagsKey, .obj (wrongFlags keys)), (evaluatorsKey, .obj switches)]

/-- The text of such a document. -/
def wrongDefaults (keys : List String) : String :=
  let flag (key : String) : String :=
    "\"" ++ key ++ "\":\x7b\"variations\":\x7b\"$ref\":\"switch\"\x7d,\"defaultVariant\":\"up\"\x7d"
  "\x7b\"flags\":\x7b" ++ ",".intercalate (keys.map flag) ++
    "\x7d,\"$evaluators\":\x7b\"switch\":\x7b\"on\":true\x7d\x7d\x7d"

theorem copy_switch (p : Pointer) :
    Resolver.copy switches [] "switch" p = .ok (.obj [("on", .bool true)]) :=
  Resolver.copy_eq_ok_iff.2 ⟨_, rfl, by simp, Resolver.expand_of_closed rfl⟩

theorem wrongFlag_problem (key : String) :
    FlagProblem switches (key, wrongFlag) ((flagPointer key).child "defaultVariant") :=
  .unknownDefault rfl rfl rfl (Resolver.expand_marker_done.2 (copy_switch _)) rfl

theorem expand_wrongFlag (p : Pointer) : Resolver.expand switches [] wrongFlag p =
    ⟨.obj [("variations", .obj [("on", .bool true)]), ("defaultVariant", .str "up")], none⟩ := by
  have copied := Resolver.expand_marker_done.2 (copy_switch (p.child "variations"))
  have text : Resolver.expand switches [] (.str "up") (p.child "defaultVariant") =
      ⟨.str "up", none⟩ := by
    simp [Resolver.expand]
  rw [wrongFlag, Resolver.expand, if_neg (by decide), Resolver.expandMembers, copied]
  simp only [Resolver.expandMembers, text]
  rfl

theorem wrongFlag_decodes (key : String) : ¬ Undecodable switches (key, wrongFlag) := by
  rintro ⟨v, fault, expands, broken⟩
  cases (expand_wrongFlag _).symm.trans expands
  have decoded : (FeatureFlag.ofJson? (.obj [("variations", .obj [("on", .bool true)]),
      ("defaultVariant", .str "up")])).toOption.isSome = true := by decide +kernel
  rw [broken] at decoded
  cases decoded

/-- Nothing is wrong in such a document but the flags. -/
theorem soundElsewhere_wrongFlags {keys : List String}
    (read : (Source.ofText? text).toOption.any (fun source =>
      decide (source.value = wrongDefaultsDocument keys) &&
        (checkRepeatedKeys source).toOption.isSome) = true)
    (valid : Bundled.schema.violations (wrongDefaultsDocument keys) = [])
    (known : ∀ r ∈ (wrongDefaultsDocument keys).flagReferences, switches.has r.name = true)
    (within : (match build {} (wrongDefaultsDocument keys) with
      | .error e => e.isLimit
      | .ok _ => false) = false) :
    ∃ source, SoundElsewhere text source switches (wrongFlags keys) := by
  obtain ⟨source, hs, there⟩ := (Option.any_eq_true _ _).1 read
  rw [Bool.and_eq_true, decide_eq_true_eq] at there
  obtain ⟨same, once⟩ := there
  obtain ⟨_, unrepeated⟩ := isSome_toOption.1 once
  have hs := toOption_eq_some.1 hs
  have he : source.value.evaluators? = .ok switches := same ▸ rfl
  have hf : source.value.flags? = .ok (wrongFlags keys) := same ▸ rfl
  refine ⟨source, hs, same ▸ valid, (checkRepeatedKeys_eq_ok hf he).1 unrepeated, he, hf,
    same ▸ known, ?_, ?_, ?_⟩
  · -- the evaluator refers to nothing
    intro name v _ there r hr
    have found := Members.mem_of_get? there
    simp only [switches, List.mem_singleton, Prod.mk.injEq] at found
    obtain ⟨rfl, rfl⟩ := found
    simp [Json.references, Json.referencesInMembers, Json.ownReference] at hr
  · intro raw hr name mentions
    obtain ⟨key, -, rfl⟩ := List.mem_map.1 hr
    obtain ⟨r, found, rfl⟩ := Json.exists_reference_of_mentions mentions ""
    have named : ∀ r ∈ wrongFlag.references "", r.name = "switch" := by decide +kernel
    have expands := Resolver.expand_marker_done.2 (copy_switch "")
    rw [named r found]
    exact Resolver.resolvable_of_expand_done (congrArg Expansion.error? expands)
  · rintro ⟨e, refused, limit⟩
    rw [parse, parseWith_of_refuse rfl hs (bundledValidator_eq_ok.2 (same ▸ valid)), unrepeated,
      same] at refused
    rw [show build {} (wrongDefaultsDocument keys) = .error e from refused] at within
    exact Bool.false_ne_true (within.symm.trans limit)

/-- The problem of one flag is reported. -/
theorem oneWrongDefault_reported :
    ∃ source, SoundElsewhere (wrongDefaults ["f"]) source switches (wrongFlags ["f"]) ∧
      (lint (wrongDefaults ["f"])).countP (·.isError) = 1 ∧
      ∃ d ∈ lint (wrongDefaults ["f"]), d.path = "/flags/f/defaultVariant" := by
  have sound : ∃ source,
      SoundElsewhere (wrongDefaults ["f"]) source switches (wrongFlags ["f"]) := by
    apply soundElsewhere_wrongFlags <;> decide +kernel
  obtain ⟨source, sound⟩ := sound
  have problem := wrongFlag_problem "f"
  have only : ("f", wrongFlag) ∈ wrongFlags ["f"] := List.mem_singleton_self _
  obtain ⟨single, reports⟩ := lint_reports_flag_problems sound
  refine ⟨source, sound, single ⟨_, only, _, problem⟩, ?_⟩
  refine reports.2 ⟨?_, ?_⟩ _ only _ problem
  · intro x hx y hy p q hp hq
    obtain rfl := List.mem_singleton.1 hx
    obtain rfl := List.mem_singleton.1 hy
    rw [hp.eq_of_expand (expand_wrongFlag _), hq.eq_of_expand (expand_wrongFlag _)]
  · intro before raw after q split _ other ho
    have there : other ∈ wrongFlags ["f"] := by
      rw [split]
      rcases List.mem_append.1 ho with earlier | same
      · exact List.mem_append_left _ earlier
      · simp [List.mem_singleton.1 same]
    rw [List.mem_singleton.1 there]
    exact wrongFlag_decodes "f"

/-- Of two flags with the same problem, that of the second is not reported. -/
theorem twoWrongDefaults_unreported :
    ∃ source flags, SoundElsewhere (wrongDefaults ["f", "g"]) source switches flags ∧
      (∃ raw ∈ flags, FlagProblem switches raw "/flags/g/defaultVariant") ∧
      ¬ ∃ d ∈ lint (wrongDefaults ["f", "g"]), d.path = "/flags/g/defaultVariant" := by
  have sound : ∃ source,
      SoundElsewhere (wrongDefaults ["f", "g"]) source switches (wrongFlags ["f", "g"]) := by
    apply soundElsewhere_wrongFlags <;> decide +kernel
  obtain ⟨source, sound⟩ := sound
  refine ⟨source, _, sound, ⟨("g", wrongFlag), by simp [wrongFlags], wrongFlag_problem "g"⟩, ?_⟩
  decide +kernel

end FeatureFlags
