import FeatureFlags.Proofs.Document.Flags
import FeatureFlags.Proofs.Document.Keys

/-!
# Options only filter

However strict a text is parsed, it comes to the same map as when it is parsed permissively, or to
none. `Options.Allows` says when: each option refuses texts for a reason of its own, and the limit
refuses those whose building copies in more values than it allows, as counted at the end of the
permissive run.
-/

namespace FeatureFlags

/-- As permissive as can be under a limit. -/
def Options.permissive (limit : Nat) : Options := ⟨.lastWins, false, limit⟩

/-- The default variant, if the flag has one, is among its variations. -/
def FeatureFlag.HasDefault (f : FeatureFlag) : Prop :=
  ∀ name, f.defaultVariant = some name → f.variations.has name = true

/-- The number of values copied in when the flags of a document have been built. -/
def Json.expandedNodes (options : Options) (document : Json) : Nat :=
  match document.evaluators?, document.flags? with
  | .ok evaluators, .ok flags =>
    (attemptFlags options evaluators flags { limit := options.limit }).2.expandedNodes
  | _, _ => 0

/-! ## The default variant -/

theorem checkDefaultVariant_eq_ok {f : FeatureFlag} {p : Pointer} :
    f.checkDefaultVariant p = .ok () ↔ f.HasDefault := by
  unfold FeatureFlag.checkDefaultVariant FeatureFlag.HasDefault
  cases f.defaultVariant with
  | none => simp
  | some name => cases h : f.variations.has name <;> simp [h]

section

variable {options : Options} {evaluators : Members} {s : Session} {limit : Nat}

/-- Checking default variants leaves the session alone and refuses only flags without theirs. -/
theorem attemptFlag_eq_ok {raw : String × Json} {f : String × FeatureFlag} {s' : Session} :
    attemptFlag options evaluators raw s = (.ok f, s') ↔
      attemptFlag (.permissive limit) evaluators raw s = (.ok f, s') ∧
        (options.checkDefaultVariant = true → f.2.HasDefault) := by
  unfold attemptFlag
  obtain ⟨e | v, s₁⟩ :=
    (s.resolve evaluators raw.2 (flagPointer raw.1)).attempt.mapError ConfigError.ofReferenceError
  · simp [Attempt.andThen]
  · simp only [Attempt.andThen, Prod.mk.injEq, map_eq_ok, flagOfResolved_eq_ok,
      checkDefaultVariant_eq_ok, Options.permissive, Bool.false_eq_true, false_implies, and_true]
    constructor
    · rintro ⟨⟨flag, ⟨decoded, checked⟩, rfl⟩, rfl⟩
      exact ⟨⟨⟨flag, decoded, rfl⟩, rfl⟩, checked⟩
    · rintro ⟨⟨⟨flag, decoded, rfl⟩, rfl⟩, checked⟩
      exact ⟨⟨flag, ⟨decoded, checked⟩, rfl⟩, rfl⟩

/-- The limit acts through the session alone. -/
theorem attemptFlags_permissive (limit limit' : Nat) (flags : Members) (s : Session) :
    attemptFlags (.permissive limit) evaluators flags s =
      attemptFlags (.permissive limit') evaluators flags s := by
  induction flags generalizing s with
  | nil => rfl
  | cons raw more ih =>
    simp only [attemptFlags, ih]
    rfl

theorem attemptFlags_eq_ok {flags : Members} {built : List (String × FeatureFlag)} :
    (attemptFlags options evaluators flags s).1 = .ok built ↔
      (attemptFlags (.permissive limit) evaluators flags s).1 = .ok built ∧
        (options.checkDefaultVariant = true → ∀ f ∈ built, f.2.HasDefault) := by
  induction flags generalizing s built with
  | nil =>
    simp only [attemptFlags, Except.ok.injEq]
    constructor
    · rintro rfl
      simp
    · exact And.left
  | cons raw more ih =>
    simp only [attemptFlags, Attempt.andThen_eq_ok, Except.ok.injEq]
    constructor
    · rintro ⟨f, s₁, hf, others, s₂, ho, rfl⟩
      obtain ⟨first, checked⟩ := attemptFlag_eq_ok.1 hf
      obtain ⟨rest, checked'⟩ := ih.1 (congrArg Prod.fst ho)
      refine ⟨⟨f, s₁, first, others, _, Prod.ext rest rfl, rfl⟩, fun on => ?_⟩
      exact List.forall_mem_cons.2 ⟨checked on, checked' on⟩
    · rintro ⟨⟨f, s₁, hf, others, s₂, ho, rfl⟩, checked⟩
      have first := attemptFlag_eq_ok.2 ⟨hf, fun on => checked on f List.mem_cons_self⟩
      have rest := ih.2 ⟨congrArg Prod.fst ho, fun on g hg => checked on g (List.mem_cons_of_mem _ hg)⟩
      exact ⟨f, s₁, first, others, _, Prod.ext rest rfl, rfl⟩

end

/-! ## Stages -/

section

variable {validator : Validator} {options : Options} {text : String} {document : Json}
  {evaluators flags : Members} {m : FlagMap} {limit : Nat}

theorem atLimit_build : AtLimit (build options document) ↔ ∃ evaluators flags,
    document.evaluators? = .ok evaluators ∧ document.flags? = .ok flags ∧
      (attemptFlags options evaluators flags { limit := options.limit }).Stopped := by
  have sections : ¬ AtLimit document.evaluators? ∧ ¬ AtLimit document.flags? := by
    constructor
    · unfold Json.evaluators?
      split
      · exact not_atLimit_ok
      · exact not_atLimit_ok
      · exact fun limit => Bool.false_ne_true (atLimit_error.1 limit)
    · unfold Json.flags?
      split
      · exact not_atLimit_ok
      · exact fun limit => Bool.false_ne_true (atLimit_error.1 limit)
  constructor
  · intro limit
    rcases atLimit_bind.1 limit with limit' | ⟨evaluators, he, inner⟩
    · exact absurd limit' sections.1
    rcases atLimit_bind.1 inner with limit' | ⟨flags, hf, -⟩
    · exact absurd limit' sections.2
    rw [build_eq he hf, atLimit_assemble] at limit
    exact ⟨evaluators, flags, he, hf, limit⟩
  · rintro ⟨evaluators, flags, he, hf, limit⟩
    rw [build_eq he hf, atLimit_assemble]
    exact limit

theorem atLimit_parseWith_permissive : AtLimit (parseWith validator (.permissive limit) text) ↔
    ∃ source, Source.ofText? text = .ok source ∧ validator source.value = .ok () ∧
      AtLimit (build (.permissive limit) source.value) := by
  unfold parseWith validate
  cases Source.ofText? text with
  | error e => exact iff_of_false (fun limit => Bool.false_ne_true (atLimit_error.1 limit)) (by simp)
  | ok source =>
    change AtLimit (Except.bind ((validator source.value).mapError ConfigError.violations) _) ↔ _
    cases hv : validator source.value with
    | error vs =>
      exact iff_of_false (fun limit => Bool.false_ne_true (atLimit_error.1 limit)) (by simp [hv])
    | ok u => simp [Except.mapError, Except.bind, Options.permissive, hv]

/-! ## One option at a time -/

/-- The check for default variants refuses the maps in which a flag lacks its own. -/
theorem build_eq_ok_iff_hasDefault (hf : document.flags? = .ok flags) (nodup : flags.keys.Nodup) :
    build options document = .ok m ↔ build (.permissive options.limit) document = .ok m ∧
      (options.checkDefaultVariant = true → ∀ f ∈ m.flags.entries, f.2.HasDefault) := by
  cases he : document.evaluators? with
  | error e => simp [build_eq_ok, he]
  | ok evaluators =>
    have entries : ∀ built, (attemptFlags (.permissive options.limit) evaluators flags
        { limit := options.limit }).1 = .ok built →
        ∀ f, f ∈ (KeyMap.ofList built).entries ↔ f ∈ built := by
      intro built hb f
      rw [attemptFlags_fst] at hb
      obtain ⟨keys, -, -⟩ := buildFlags_ok (Session.faithful_fresh _) hb
      exact KeyMap.mem_entries_ofList (keys ▸ nodup)
    rw [build_eq he hf, build_eq he hf, assemble_eq_ok, assemble_eq_ok]
    constructor
    · rintro ⟨built, metadata, hb, hm, rfl⟩
      obtain ⟨hb', checked⟩ := (@attemptFlags_eq_ok _ _ _ options.limit _ _).1 hb
      refine ⟨⟨built, metadata, hb', hm, rfl⟩, fun on f hf => ?_⟩
      exact checked on f ((entries built hb' f).1 hf)
    · rintro ⟨⟨built, metadata, hb, hm, rfl⟩, checked⟩
      refine ⟨built, metadata, attemptFlags_eq_ok.2 ⟨hb, fun on f hf => ?_⟩, hm, rfl⟩
      exact checked on f ((entries built hb f).2 hf)

/-- The limit refuses the documents for which more is copied in than it allows. -/
theorem build_eq_ok_iff_within {unreached : Nat}
    (calm : ¬ AtLimit (build (.permissive unreached) document)) :
    build (.permissive limit) document = .ok m ↔ build (.permissive unreached) document = .ok m ∧
      document.expandedNodes (.permissive unreached) ≤ limit := by
  cases he : document.evaluators? with
  | error e => simp [build_eq_ok, he]
  | ok evaluators =>
    cases hf : document.flags? with
    | error e => simp [build_eq_ok, hf]
    | ok flags =>
      rw [build_eq he hf, atLimit_assemble] at calm
      have metered := @attemptFlags_metered (.permissive unreached) evaluators {} flags
      have same : ∀ built, (attemptFlags (.permissive limit) evaluators flags { limit }).1 = .ok built ↔
          (attemptFlags (.permissive unreached) evaluators flags { limit := unreached }).1 = .ok built ∧
            (attemptFlags (.permissive unreached) evaluators flags
              { limit := unreached }).2.expandedNodes ≤ limit := by
        intro built
        rw [attemptFlags_permissive limit unreached]
        exact metered.eq_ok_iff (Nat.zero_le _) (Nat.zero_le _) calm
      have counted : document.expandedNodes (.permissive unreached) =
          (attemptFlags (.permissive unreached) evaluators flags
            { limit := unreached }).2.expandedNodes := by
        rw [Json.expandedNodes, he, hf]
        rfl
      rw [build_eq he hf, build_eq he hf, assemble_eq_ok, assemble_eq_ok, counted]
      constructor
      · rintro ⟨built, metadata, hb, hm, rfl⟩
        obtain ⟨hb', within⟩ := (same built).1 hb
        exact ⟨⟨built, metadata, hb', hm, rfl⟩, within⟩
      · rintro ⟨⟨built, metadata, hb, hm, rfl⟩, within⟩
        exact ⟨built, metadata, (same built).2 ⟨hb, within⟩, hm, rfl⟩

/-- Large limits do not end the building of a document. -/
theorem exists_unreached (document : Json) : ∃ enough, ∀ limit, enough ≤ limit →
    ¬ AtLimit (build (.permissive limit) document) := by
  cases he : document.evaluators? with
  | error e => exact ⟨0, fun limit _ h => by simp [atLimit_build, he] at h⟩
  | ok evaluators =>
    cases hf : document.flags? with
    | error e => exact ⟨0, fun limit _ h => by simp [atLimit_build, hf] at h⟩
    | ok flags =>
      obtain ⟨enough, calm⟩ := (@attemptFlags_metered (.permissive 0) evaluators {} flags).eventually
      refine ⟨enough, fun limit le => ?_⟩
      rw [build_eq he hf, atLimit_assemble, attemptFlags_permissive limit 0]
      exact calm limit le

/-! ## All options -/

/-- What options ask of a text, and of the map and the count that a permissive run ends with. -/
structure Options.Allows (options : Options) (source : Source) (m : FlagMap) (expanded : Nat) :
    Prop where
  keys : options.repeatedKeys = .refuse → source.RepeatsNoKey
  defaults : options.checkDefaultVariant = true → ∀ f ∈ m.flags.entries, f.2.HasDefault
  within : expanded ≤ options.limit

theorem build_eq_ok_iff_allows {source : Source} {unreached : Nat}
    (calm : ¬ AtLimit (build (.permissive unreached) source.value)) :
    (options.repeatedKeys = .refuse → checkRepeatedKeys source = .ok ()) ∧
        build options source.value = .ok m ↔
      build (.permissive unreached) source.value = .ok m ∧
        options.Allows source m (source.value.expandedNodes (.permissive unreached)) := by
  cases he : source.value.evaluators? with
  | error e => simp [build_eq_ok, he]
  | ok evaluators =>
    cases hf : source.value.flags? with
    | error e => simp [build_eq_ok, hf]
    | ok flags =>
      -- a document that was read repeats no key
      have distinct := distinctKeys_of_get? (flags?_eq_ok.1 hf) source.distinctKeys_value
      have nodup := (Json.distinctKeys_obj_iff.1 distinct).1
      rw [checkRepeatedKeys_eq_ok hf he, build_eq_ok_iff_hasDefault hf nodup,
        build_eq_ok_iff_within calm]
      constructor
      · rintro ⟨keys, ⟨built, within⟩, defaults⟩
        exact ⟨built, keys, defaults, within⟩
      · rintro ⟨built, keys, defaults, within⟩
        exact ⟨keys, ⟨built, within⟩, defaults⟩

theorem parseWith_eq_ok_iff_allows {unreached : Nat}
    (calm : ¬ AtLimit (parseWith validator (.permissive unreached) text)) :
    parseWith validator options text = .ok m ↔
      parseWith validator (.permissive unreached) text = .ok m ∧
        ∃ source, Source.ofText? text = .ok source ∧
          options.Allows source m (source.value.expandedNodes (.permissive unreached)) := by
  rw [atLimit_parseWith_permissive] at calm
  constructor
  · intro accepted
    obtain ⟨source, hs, hv, both⟩ := parseWith_eq_ok.1 accepted
    have calm' : ¬ AtLimit (build (.permissive unreached) source.value) :=
      fun stop => calm ⟨source, hs, hv, stop⟩
    obtain ⟨built, allowed⟩ := (build_eq_ok_iff_allows calm').1 both
    exact ⟨parseWith_eq_ok.2 ⟨source, hs, hv, fun on => (by cases on), built⟩, source, hs, allowed⟩
  · rintro ⟨accepted, source, hs, allowed⟩
    obtain ⟨source', hs', hv, -, built⟩ := parseWith_eq_ok.1 accepted
    obtain rfl := Except.ok.inj (hs.symm.trans hs')
    have calm' : ¬ AtLimit (build (.permissive unreached) source.value) :=
      fun stop => calm ⟨source, hs, hv, stop⟩
    exact parseWith_eq_ok.2 ⟨source, hs, hv, (build_eq_ok_iff_allows calm').2 ⟨built, allowed⟩⟩

/-- Large limits do not end the parsing of a text. -/
theorem exists_unreached_parse (validator : Validator) (text : String) : ∃ enough, ∀ limit,
    enough ≤ limit → ¬ AtLimit (parseWith validator (.permissive limit) text) := by
  simp only [atLimit_parseWith_permissive]
  cases Source.ofText? text with
  | error e => exact ⟨0, fun _ _ => by simp⟩
  | ok source =>
    obtain ⟨enough, calm⟩ := exists_unreached source.value
    refine ⟨enough, fun limit le => ?_⟩
    rintro ⟨_, same, -, stop⟩
    cases same
    exact calm limit le stop

/-- Parsing strictly comes to the map that parsing permissively comes to, or to none: under a limit
that is not reached, and large ones are not, a permissive run tells for all options what is accepted
under them. So a larger limit refuses no more texts. -/
theorem options_only_filter (validator : Validator) (text : String) :
    (∃ enough, ∀ limit, enough ≤ limit → ¬ AtLimit (parseWith validator (.permissive limit) text)) ∧
      (∀ unreached, ¬ AtLimit (parseWith validator (.permissive unreached) text) →
        ∀ options m, parseWith validator options text = .ok m ↔
          parseWith validator (.permissive unreached) text = .ok m ∧
            ∃ source, Source.ofText? text = .ok source ∧
              options.Allows source m (source.value.expandedNodes (.permissive unreached))) ∧
      ∀ options m limit, parseWith validator options text = .ok m → options.limit ≤ limit →
        parseWith validator { options with limit } text = .ok m := by
  have unreached := exists_unreached_parse validator text
  refine ⟨unreached, fun _ calm _ _ => parseWith_eq_ok_iff_allows calm, ?_⟩
  intro options m limit accepted more
  obtain ⟨enough, calm⟩ := unreached
  have calm := calm enough (Nat.le_refl _)
  obtain ⟨permissive, source, hs, allowed⟩ := (parseWith_eq_ok_iff_allows calm).1 accepted
  refine (parseWith_eq_ok_iff_allows calm).2 ⟨permissive, source, hs, ?_⟩
  exact ⟨allowed.keys, allowed.defaults, Nat.le_trans allowed.within more⟩

end

/-- A flag that takes a number from an evaluator. -/
def oneCopy : String :=
  "\x7b\"flags\": \x7b\"f\": \x7b\"variations\": \x7b\"on\": \x7b\"$ref\": \"one\"\x7d\x7d\x7d\x7d, "
    ++ "\"$evaluators\": \x7b\"one\": 1\x7d\x7d"

/-- One value is copied in, so the text is accepted under a limit of one and not of none. -/
theorem oneCopy_threshold : (∃ m, parseWith bundledValidator { limit := 1 } oneCopy = .ok m) ∧
    ∀ m, parseWith bundledValidator { limit := 0 } oneCopy ≠ .ok m := by
  have accepted : (parseWith bundledValidator { limit := 1 } oneCopy).toOption.isSome = true := by
    decide +kernel
  have calm : ¬ AtLimit (parseWith bundledValidator (.permissive 9) oneCopy) := by
    decide +kernel
  have counted : (Source.ofText? oneCopy).toOption.map
      (fun source => source.value.expandedNodes (.permissive 9)) = some 1 := by
    decide +kernel
  refine ⟨isSome_toOption.1 accepted, fun m zero => ?_⟩
  obtain ⟨-, source, hs, allowed⟩ :=
    ((options_only_filter bundledValidator oneCopy).2.1 9 calm _ m).1 zero
  have one : source.value.expandedNodes (.permissive 9) = 1 := by
    simpa [hs, Except.toOption] using counted
  have within := allowed.within
  rw [one] at within
  exact Nat.not_succ_le_zero 0 within

end FeatureFlags
