import FeatureFlags.Document.Parse
import FeatureFlags.Proofs.Flag.Decode
import FeatureFlags.Proofs.KeyMap
import FeatureFlags.Proofs.Reference.Refinement
import FeatureFlags.Proofs.Schema.DataModel

/-!
# What an accepted text went through

`parse_eq_ok` lists the stages that a text passed when it is accepted, and `buildFlags_ok` what
became of each flag: although one session serves them all, every flag is decoded from its own plain
expansion. The built flags are those of the map, key by key (`KeyMap.mem_entries_ofList`), since no
key of a document is repeated.
-/

namespace FeatureFlags

/-! ## Flags built one after another -/

theorem flagOfResolved_eq_ok {options : Options} {p : Pointer} {v : Json} {f : FeatureFlag} :
    flagOfResolved options p v = .ok f ↔ FeatureFlag.ofJson? v = .ok f ∧
      (options.checkDefaultVariant = true → f.checkDefaultVariant p = .ok ()) := by
  constructor
  · intro h
    obtain ⟨g, hg, h⟩ := bind_eq_ok.1 h
    rw [mapError_eq_ok] at hg
    cases check : options.checkDefaultVariant with
    | false =>
      rw [check] at h
      cases h
      exact ⟨hg, fun on => by cases on⟩
    | true =>
      rw [check] at h
      obtain ⟨⟨⟩, hd, h⟩ := bind_eq_ok.1 h
      cases h
      exact ⟨hg, fun _ => hd⟩
  · rintro ⟨hv, hd⟩
    unfold flagOfResolved
    rw [mapError_eq_ok.2 hv]
    dsimp only [bind, Except.bind]
    cases check : options.checkDefaultVariant with
    | false => rfl
    | true => rw [if_pos rfl, hd check]

/-- A flag is decoded from the plain expansion of its raw value. -/
def BuiltFrom (options : Options) (evaluators : Members) (raw : String × Json)
    (f : String × FeatureFlag) : Prop :=
  raw.1 = f.1 ∧ ∃ v, Resolver.expand evaluators [] raw.2 (flagPointer raw.1) = ⟨v, none⟩ ∧
    flagOfResolved options (flagPointer raw.1) v = .ok f.2

/-- The session shared by the flags does not show: each is built from its own expansion. -/
theorem buildFlags_ok {options : Options} {evaluators flags : Members} {s : Session}
    {built : List (String × FeatureFlag)} (h : s.Faithful evaluators [])
    (hb : buildFlags options evaluators s flags = .ok built) :
    built.map (·.1) = flags.keys ∧
      (∀ raw ∈ flags, ∃ f ∈ built, BuiltFrom options evaluators raw f) ∧
      ∀ f ∈ built, ∃ raw ∈ flags, BuiltFrom options evaluators raw f := by
  induction flags generalizing s built with
  | nil =>
    cases hb
    simp [Members.keys]
  | cons m more ih =>
    obtain ⟨key, raw⟩ := m
    -- the session is faithful again behind the flag, which carries the induction
    have mirrors := Resolver.resolve_mirrors raw (flagPointer key) h
    rw [buildFlags] at hb
    cases hw : s.resolve evaluators raw (flagPointer key) with
    | mk v error? s' =>
      rw [hw] at hb mirrors
      cases error? with
      | some e => cases hb
      | none =>
        obtain ⟨f, hf, hb⟩ := bind_eq_ok.1 hb
        obtain ⟨others, ho, hb⟩ := bind_eq_ok.1 hb
        cases hb
        have first : BuiltFrom options evaluators (key, raw) (key, f) :=
          ⟨rfl, v, (mirrors.result (by simp)).symm, hf⟩
        obtain ⟨keys, there, back⟩ := ih mirrors.faithful ho
        refine ⟨by simp [Members.keys, keys], ?_, ?_⟩
        · intro x hx
          rcases List.mem_cons.1 hx with rfl | hx
          · exact ⟨_, List.mem_cons_self, first⟩
          · obtain ⟨g, hg, origin⟩ := there x hx
            exact ⟨g, List.mem_cons_of_mem _ hg, origin⟩
        · intro g hg
          rcases List.mem_cons.1 hg with rfl | hg
          · exact ⟨_, List.mem_cons_self, first⟩
          · obtain ⟨x, hx, origin⟩ := back g hg
            exact ⟨x, List.mem_cons_of_mem _ hx, origin⟩

/-! ## The stages of an accepted text -/

theorem flags?_eq_ok {document : Json} {flags : Members} :
    document.flags? = .ok flags ↔ document.get? flagsKey = some (.obj flags) := by
  unfold Json.flags?
  cases document.get? flagsKey with
  | none => simp
  | some v => cases v <;> simp

theorem evaluators?_eq_ok {document : Json} {evaluators : Members} :
    document.evaluators? = .ok evaluators ↔ document.get? evaluatorsKey = some (.obj evaluators) ∨
      document.get? evaluatorsKey = none ∧ evaluators = [] := by
  unfold Json.evaluators?
  cases document.get? evaluatorsKey with
  | none => simp [eq_comm]
  | some v => cases v <;> simp

theorem exists_evaluators? {ms : Members} (document : ms.IsDocument) :
    ∃ evaluators, (Json.obj ms).evaluators? = .ok evaluators := by
  cases there : (Json.obj ms).get? evaluatorsKey with
  | none => exact ⟨[], evaluators?_eq_ok.2 (.inr ⟨there, rfl⟩)⟩
  | some v =>
    obtain ⟨evaluators, rfl⟩ := document.evaluators v there
    exact ⟨evaluators, evaluators?_eq_ok.2 (.inl there)⟩

/-- A document that satisfies the schema has both sections. -/
theorem exists_sections {document : Json} (valid : Bundled.schema.violations document = []) :
    ∃ evaluators flags, document.evaluators? = .ok evaluators ∧ document.flags? = .ok flags := by
  obtain ⟨ms, rfl, model⟩ := Bundled.violations_eq_nil_iff.1 valid
  obtain ⟨flags, there, -⟩ := model.flags
  obtain ⟨evaluators, he⟩ := exists_evaluators? model
  exact ⟨evaluators, flags, he, flags?_eq_ok.2 there⟩

theorem build_eq_ok {options : Options} {document : Json} {m : FlagMap} :
    build options document = .ok m ↔ ∃ evaluators flags built metadata,
      document.evaluators? = .ok evaluators ∧ document.flags? = .ok flags ∧
      buildFlags options evaluators { limit := options.limit } flags = .ok built ∧
      document.metadata? = .ok metadata ∧ m = ⟨.ofList built, metadata⟩ := by
  constructor
  · intro h
    obtain ⟨evaluators, he, h⟩ := bind_eq_ok.1 h
    obtain ⟨flags, hf, h⟩ := bind_eq_ok.1 h
    obtain ⟨built, hb, h⟩ := bind_eq_ok.1 h
    obtain ⟨metadata, hm, h⟩ := bind_eq_ok.1 h
    cases h
    exact ⟨evaluators, flags, built, metadata, he, hf, hb, hm, rfl⟩
  · rintro ⟨evaluators, flags, built, metadata, he, hf, hb, hm, rfl⟩
    unfold build
    rw [he, hf]
    dsimp only [bind, Except.bind]
    rw [hb, hm]

/-- An accepted document is built from its flags, each from its own expansion. -/
theorem built_of_build {options : Options} {document : Json} {evaluators flags : Members}
    {m : FlagMap} (he : document.evaluators? = .ok evaluators) (hf : document.flags? = .ok flags)
    (accepted : build options document = .ok m) :
    ∃ built, m.flags = .ofList built ∧ built.map (·.1) = flags.keys ∧
      (∀ raw ∈ flags, ∃ f ∈ built, BuiltFrom options evaluators raw f) ∧
      ∀ f ∈ built, ∃ raw ∈ flags, BuiltFrom options evaluators raw f := by
  obtain ⟨_, _, built, metadata, he', hf', hb, -, rfl⟩ := build_eq_ok.1 accepted
  obtain rfl := Except.ok.inj (he.symm.trans he')
  obtain rfl := Except.ok.inj (hf.symm.trans hf')
  exact ⟨built, rfl, buildFlags_ok (Session.faithful_fresh _) hb⟩

/-- In an accepted document every flag expands. -/
theorem expands_of_build {options : Options} {document : Json} {evaluators flags : Members}
    {m : FlagMap} (he : document.evaluators? = .ok evaluators) (hf : document.flags? = .ok flags)
    (accepted : build options document = .ok m) {raw : String × Json} (hr : raw ∈ flags) :
    (Resolver.expand evaluators [] raw.2 (flagPointer raw.1)).error? = none := by
  obtain ⟨built, -, -, there, -⟩ := built_of_build he hf accepted
  obtain ⟨f, -, -, v, hx, -⟩ := there raw hr
  exact congrArg Expansion.error? hx

/-- A text is accepted if it is read, satisfies the validator, repeats no key where none may be
repeated, and is built. -/
theorem parseWith_eq_ok {validator : Validator} {options : Options} {text : String} {m : FlagMap} :
    parseWith validator options text = .ok m ↔
      ∃ source, Source.ofText? text = .ok source ∧ validator source.value = .ok () ∧
        (options.repeatedKeys = .refuse → checkRepeatedKeys source = .ok ()) ∧
        build options source.value = .ok m := by
  have validated : ∀ document, validate validator document = .ok () ↔ validator document = .ok () :=
    fun _ => mapError_eq_ok
  constructor
  · intro h
    obtain ⟨source, hs, h⟩ := bind_eq_ok.1 h
    obtain ⟨⟨⟩, hv, h⟩ := bind_eq_ok.1 h
    refine ⟨source, mapError_eq_ok.1 hs, (validated _).1 hv, ?_⟩
    by_cases refuse : options.repeatedKeys = .refuse
    · rw [if_pos refuse] at h
      obtain ⟨⟨⟩, hk, h⟩ := bind_eq_ok.1 h
      exact ⟨fun _ => hk, h⟩
    · rw [if_neg refuse] at h
      exact ⟨fun on => absurd on refuse, h⟩
  · rintro ⟨source, hs, hv, hk, h⟩
    unfold parseWith
    rw [mapError_eq_ok.2 hs]
    dsimp only [bind, Except.bind]
    rw [(validated _).2 hv]
    by_cases refuse : options.repeatedKeys = .refuse
    · rw [if_pos refuse, hk refuse]
      exact h
    · rw [if_neg refuse]
      exact h

theorem bundledValidator_eq_ok {document : Json} :
    bundledValidator document = .ok () ↔ Bundled.schema.violations document = [] := by
  unfold bundledValidator Validator.ofSchema
  cases Bundled.schema.violations document <;> simp

/-- An accepted text is read, satisfies the schema, repeats no key, and is built. -/
theorem parse_eq_ok {text : String} {m : FlagMap} : parse text = .ok m ↔
    ∃ source, Source.ofText? text = .ok source ∧
      Bundled.schema.violations source.value = [] ∧
      checkRepeatedKeys source = .ok () ∧ build {} source.value = .ok m := by
  unfold parse
  simp [parseWith_eq_ok, bundledValidator_eq_ok]

/-- What is known of an accepted text, its document and the map that is built. -/
structure Accepted (text : String) (m : FlagMap) (document : Json) (evaluators flags : Members) :
    Prop where
  read : Json.ofText? text = .ok document
  valid : Bundled.schema.violations document = []
  evaluators_eq : document.evaluators? = .ok evaluators
  flags_eq : document.flags? = .ok flags
  distinct : evaluators.keys.Nodup
  shape : ∀ raw ∈ flags, ∃ ms : Members, raw.2 = .obj ms ∧ ms.keys.Nodup ∧ ms.IsFlag
  built : ∀ raw ∈ flags, ∃ f ∈ m.flags.entries, BuiltFrom {} evaluators raw f
  origin : ∀ f ∈ m.flags.entries, ∃ raw ∈ flags, BuiltFrom {} evaluators raw f

theorem distinctKeys_of_get? {document v : Json} {key : String} (h : document.get? key = some v)
    (distinct : document.distinctKeys = true) : v.distinctKeys = true := by
  cases document with
  | obj ms => exact (Json.distinctKeys_obj_iff.1 distinct).2 _ (Members.mem_of_get? h)
  | _ => cases h

theorem accepted_of_parse {text : String} {m : FlagMap} (h : parse text = .ok m) :
    ∃ document evaluators flags, Accepted text m document evaluators flags := by
  obtain ⟨source, hs, hv, -, hb⟩ := parse_eq_ok.1 h
  obtain ⟨evaluators, flags, built, metadata, he, hf, hbuilt, -, rfl⟩ := build_eq_ok.1 hb
  have distinct := source.distinctKeys_value
  have hflags := distinctKeys_of_get? (flags?_eq_ok.1 hf) distinct
  obtain ⟨nodup, inner⟩ := Json.distinctKeys_obj_iff.1 hflags
  obtain ⟨keys, there, back⟩ := buildFlags_ok (Session.faithful_fresh _) hbuilt
  have entries : ∀ f, f ∈ (KeyMap.ofList built).entries ↔ f ∈ built := fun _ =>
    KeyMap.mem_entries_ofList (keys ▸ nodup)
  refine ⟨source.value, evaluators, flags, ?_, hv, he, hf, ?_, ?_, ?_, ?_⟩
  · simp [Json.ofText?, hs, Except.map]
  · rcases evaluators?_eq_ok.1 he with he | ⟨-, rfl⟩
    · exact (Json.distinctKeys_obj_iff.1 (distinctKeys_of_get? he distinct)).1
    · exact List.nodup_nil
  · intro raw hr
    obtain ⟨ms, hobj, document⟩ := Bundled.violations_eq_nil_iff.1 hv
    obtain ⟨fs, hfs, shapes⟩ := document.flags
    have same : some (Json.obj fs) = some (.obj flags) := by
      rw [← hfs, ← flags?_eq_ok.1 hf, hobj]
      rfl
    obtain rfl := Json.obj.inj (Option.some.inj same)
    obtain ⟨inner_ms, hraw, shape⟩ := shapes raw hr
    exact ⟨inner_ms, hraw, (Json.distinctKeys_obj_iff.1 (hraw ▸ inner raw hr)).1, shape⟩
  · intro raw hr
    obtain ⟨f, hfb, hbf⟩ := there raw hr
    exact ⟨f, (entries f).2 hfb, hbf⟩
  · intro f hfm
    exact back f ((entries f).1 hfm)

end FeatureFlags
