import FeatureFlags.Proofs.Document.Refusals

/-!
# Which repeated key is reported

The check looks for a key that comes again in the document, then in all that is given for the flags,
then in all that is given for the evaluators, and reports the first that does
(`SectionKeys.repeated?_eq_some`). It looks only if whatever is given for a section is an object; the
schema asks that of what is given last, so a text may be refused for what it gives for a section
before it is for giving it twice (`parseWith_repeatedKey_iff`).
-/

namespace FeatureFlags

variable {key : String} {part : Section}

/-! ## The first key that comes again -/

/-- A key comes again in the list, and none does before that. -/
def FirstRepeat (keys : List String) (key : String) : Prop :=
  ∃ before after, keys = before ++ key :: after ∧ before.Nodup ∧ key ∈ before

/-- The parts of a document that are looked at before another. -/
def Section.before : Section → List Section
  | .document => []
  | .flags => [.document]
  | .evaluators => [.document, .flags]

namespace SectionKeys

/-- The keys of one part of a document. -/
def keysOf (keys : SectionKeys) : Section → List String
  | .document => keys.document
  | .flags => keys.flags
  | .evaluators => keys.evaluators

/-- The key is the first that comes again in a part, which is the first part where one does. -/
structure Repeats (keys : SectionKeys) (part : Section) (key : String) : Prop where
  before : ∀ earlier ∈ part.before, (keys.keysOf earlier).Nodup
  first : FirstRepeat (keys.keysOf part) key

theorem firstRepeated?_eq_some {seen ks : List String} : firstRepeated? seen ks = some key ↔
    ∃ before after, ks = before ++ key :: after ∧ before.Nodup ∧ (∀ k ∈ before, k ∉ seen) ∧
      (key ∈ seen ∨ key ∈ before) := by
  induction ks generalizing seen with
  | nil => simp [firstRepeated?]
  | cons k more ih =>
    rw [firstRepeated?]
    split
    next there =>
      constructor
      · rintro ⟨⟩
        exact ⟨[], more, rfl, List.nodup_nil, by simp, .inl there⟩
      · rintro ⟨before, after, same, -, fresh, -⟩
        cases before with
        | nil => exact congrArg some (List.cons.inj same).1
        | cons b before =>
          obtain ⟨rfl, -⟩ := List.cons.inj same
          exact absurd there (fresh k List.mem_cons_self)
    next new =>
      -- the key that is passed over counts as seen in what follows, and as one before
      rw [ih]
      constructor
      · rintro ⟨before, after, rfl, nodup, fresh, again⟩
        obtain ⟨apart, unseen⟩ : k ∉ before ∧ ∀ b ∈ before, b ∉ seen := by
          refine ⟨fun hk => fresh k hk List.mem_cons_self, fun b hb hs => ?_⟩
          exact fresh b hb (List.mem_cons_of_mem _ hs)
        refine ⟨k :: before, after, rfl, List.nodup_cons.2 ⟨apart, nodup⟩,
          List.forall_mem_cons.2 ⟨new, unseen⟩, ?_⟩
        simpa [or_assoc, or_left_comm] using again
      · rintro ⟨before, after, same, nodup, fresh, again⟩
        cases before with
        | nil =>
          obtain ⟨rfl, -⟩ := List.cons.inj same
          simp [new] at again
        | cons b before =>
          obtain ⟨rfl, rfl⟩ := List.cons.inj same
          obtain ⟨apart, nodup⟩ := List.nodup_cons.1 nodup
          obtain ⟨-, unseen⟩ := List.forall_mem_cons.1 fresh
          refine ⟨before, after, rfl, nodup, fun b hb => ?_, ?_⟩
          · rw [List.mem_cons, not_or]
            exact ⟨fun same => apart (same ▸ hb), unseen b hb⟩
          · simpa [or_assoc, or_left_comm] using again

theorem repeated?_eq_some {keys : SectionKeys} :
    keys.repeated? = some (part, key) ↔ keys.Repeats part key := by
  have first : ∀ ks, firstRepeated? [] ks = some key ↔ FirstRepeat ks key := fun ks => by
    simp [firstRepeated?_eq_some, FirstRepeat]
  have parts : keys.repeated? = some (part, key) ↔
      (∀ earlier ∈ part.before, (keys.keysOf earlier).Nodup) ∧
        FirstRepeat (keys.keysOf part) key := by
    cases part <;>
      simp [repeated?, Section.before, keysOf, first, firstRepeated?_eq_none, and_assoc]
  rw [parts]
  exact ⟨fun h => ⟨h.1, h.2⟩, fun h => ⟨h.before, h.first⟩⟩

theorem Repeats.mem {keys : SectionKeys} (h : keys.Repeats part key) : key ∈ keys.keysOf part := by
  obtain ⟨before, after, split, -, there⟩ := h.first
  rw [split]
  exact List.mem_append_left _ there

/-- A key is reported unless all keys of each part differ. -/
theorem exists_repeats_iff {keys : SectionKeys} : (∃ part key, keys.Repeats part key) ↔
    ¬ (keys.document.Nodup ∧ keys.flags.Nodup ∧ keys.evaluators.Nodup) := by
  rw [← repeated?_eq_none]
  simp only [← repeated?_eq_some]
  cases keys.repeated? with
  | none => simp
  | some found =>
    obtain ⟨part, key⟩ := found
    simp

end SectionKeys

/-! ## What is looked at -/

namespace Source

variable {s : Source}

/-- The keys of a text as they stand, by the parts in which they may not be repeated. -/
def keysBySection (s : Source) : SectionKeys :=
  ⟨s.keys, s.sectionKeys flagsKey, s.sectionKeys evaluatorsKey⟩

/-- The text is an object, and so is whatever it gives for a section. -/
def HasObjectSections (s : Source) : Prop :=
  ∃ ms p, s = .obj ms p ∧ ∀ m ∈ ms, SectionKeys.Readable m

theorem ofSource?_eq_ok_iff {keys : SectionKeys} : SectionKeys.ofSource? s = .ok keys ↔
    s.HasObjectSections ∧ keys = s.keysBySection := by
  rw [SectionKeys.ofSource?_eq_ok]
  unfold HasObjectSections keysBySection
  constructor
  · rintro ⟨ms, p, same, readable, rfl⟩
    exact ⟨⟨ms, p, same, readable⟩, rfl⟩
  · rintro ⟨⟨ms, p, same, readable⟩, rfl⟩
    exact ⟨ms, p, same, readable, rfl⟩

theorem keys?_error {expected : Expected} {fault : ConfigFault}
    (h : s.keys? expected = .error fault) :
    ∃ kind position, fault = .unreadableKeys kind position := by
  cases s <;> simp [keys?, members?, Except.map] at h <;> exact ⟨_, _, h.symm⟩

theorem repeatsNoKey_iff : s.RepeatsNoKey ↔ ¬ ∃ part key, s.keysBySection.Repeats part key := by
  rw [SectionKeys.exists_repeats_iff, not_not]
  exact ⟨fun h => ⟨h.document, h.flags, h.evaluators⟩, fun h => ⟨h.1, h.2.1, h.2.2⟩⟩

end Source

namespace SectionKeys

variable {keys : SectionKeys} {s : Source} {ms : List (String × Source)} {fault : ConfigFault}

theorem add_error (h : keys.add key s = .error fault) :
    ∃ kind position, fault = .unreadableKeys kind position := by
  have unreadable : ∀ {f : List String → SectionKeys} {next : SectionKeys → SectionKeys},
      ((s.keys? .section).map f).bind (fun keys => .ok (next keys)) = .error fault →
        ∃ kind position, fault = .unreadableKeys kind position := by
    intro f next h
    rcases bind_eq_error.1 h with h | ⟨_, -, h⟩
    · exact Source.keys?_error (map_eq_error.1 h)
    · cases h
  unfold add at h
  dsimp only at h
  split at h
  · exact unreadable h
  · split at h
    · exact unreadable h
    · cases h

theorem addAll_error (h : keys.addAll ms = .error fault) :
    ∃ kind position, fault = .unreadableKeys kind position := by
  induction ms generalizing keys with
  | nil => cases h
  | cons m more ih =>
    rcases bind_eq_error.1 h with h | ⟨keys', -, h⟩
    · exact add_error h
    · exact ih h

/-- What is no object is complained about by its kind and its place. -/
theorem ofSource?_error (h : ofSource? s = .error fault) :
    ∃ kind position, fault = .unreadableKeys kind position := by
  rcases bind_eq_error.1 h with h | ⟨ms, -, h⟩
  · cases s <;> simp [Source.members?] at h <;> exact ⟨_, _, h.symm⟩
  · exact addAll_error h

end SectionKeys

theorem checkRepeatedKeys_eq_repeatedKey {s : Source} :
    checkRepeatedKeys s = .error (.repeatedKey part key) ↔
      s.HasObjectSections ∧ s.keysBySection.Repeats part key := by
  rw [← SectionKeys.repeated?_eq_some]
  unfold checkRepeatedKeys
  cases read : SectionKeys.ofSource? s with
  | error fault =>
    have other : ¬ s.HasObjectSections := by
      intro objects
      rw [Source.ofSource?_eq_ok_iff.2 ⟨objects, rfl⟩] at read
      cases read
    simp [other]
  | ok keys =>
    obtain ⟨objects, rfl⟩ := Source.ofSource?_eq_ok_iff.1 read
    dsimp only
    cases found : s.keysBySection.repeated? with
    | none => simp
    | some first =>
      obtain ⟨part', key'⟩ := first
      simp [objects]

theorem checkRepeatedKeys_of_not_objects {s : Source} (other : ¬ s.HasObjectSections) :
    ∃ kind position, checkRepeatedKeys s = .error (.invalid "" (.unreadableKeys kind position)) := by
  cases read : SectionKeys.ofSource? s with
  | error fault =>
    obtain ⟨kind, position, rfl⟩ := SectionKeys.ofSource?_error read
    exact ⟨kind, position, by rw [checkRepeatedKeys, read]⟩
  | ok keys => exact absurd (Source.ofSource?_eq_ok_iff.1 read).1 other

/-! ## Texts -/

section

variable {options : Options} {document : Json} {text : String} {source : Source}

/-- No key is repeated in what is built. -/
theorem build_ne_repeatedKey (valid : Bundled.schema.violations document = []) :
    build options document ≠ .error (.repeatedKey part key) := by
  intro h
  obtain ⟨evaluators, flags, he, hf⟩ := exists_sections valid
  rcases build_error he hf h with h | ⟨v, fault, -, same⟩
  · obtain ⟨raw, -, ⟨fault, -, same⟩ | ⟨v, -, h⟩⟩ := buildFlags_error (Session.faithful_fresh _) h
    · cases fault <;> cases same
    · rcases flagOfResolved_error h with ⟨fault, -, same⟩ | ⟨f, name, -, -, -, same⟩ <;> cases same
  · cases same

/-- After a text has been read and satisfies the validator, its keys are looked at and then it is
built. -/
theorem parseWith_of_refuse {validator : Validator} (refuse : options.repeatedKeys = .refuse)
    (read : Source.ofText? text = .ok source) (valid : validator source.value = .ok ()) :
    parseWith validator options text =
      (checkRepeatedKeys source).bind fun _ => build options source.value := by
  unfold parseWith validate
  rw [mapError_eq_ok.2 read]
  dsimp only [bind, Except.bind]
  rw [mapError_eq_ok.2 valid, if_pos refuse]

/-- A text that satisfies the schema is refused for a repeated key exactly if one is repeated and
whatever is given for a section is an object: then the first part is reported in which a key comes
again, with the first that does. A section that is given as anything else is complained about in
place of a repeated key. -/
theorem parseWith_repeatedKey_iff (refuse : options.repeatedKeys = .refuse)
    (read : Source.ofText? text = .ok source)
    (valid : Bundled.schema.violations source.value = []) :
    (∀ part key, parseWith bundledValidator options text = .error (.repeatedKey part key) ↔
      source.HasObjectSections ∧ source.keysBySection.Repeats part key) ∧
    ((∃ part key, parseWith bundledValidator options text = .error (.repeatedKey part key)) ↔
      source.HasObjectSections ∧ ¬ source.RepeatsNoKey) ∧
    (¬ source.HasObjectSections → ∃ kind position,
      parseWith bundledValidator options text =
        .error (.invalid "" (.unreadableKeys kind position))) := by
  have stages := parseWith_of_refuse refuse read (bundledValidator_eq_ok.2 valid)
  have reported : ∀ part key,
      parseWith bundledValidator options text = .error (.repeatedKey part key) ↔
        source.HasObjectSections ∧ source.keysBySection.Repeats part key := by
    intro part key
    rw [stages, ← checkRepeatedKeys_eq_repeatedKey]
    constructor
    · intro h
      rcases bind_eq_error.1 h with h | ⟨_, -, h⟩
      · exact h
      · exact absurd h (build_ne_repeatedKey valid)
    · intro h
      rw [h]
      rfl
  refine ⟨reported, ?_, fun other => ?_⟩
  · simp only [reported, Source.repeatsNoKey_iff, not_not, exists_and_left]
  · obtain ⟨kind, position, h⟩ := checkRepeatedKeys_of_not_objects other
    rw [stages, h]
    exact ⟨kind, position, rfl⟩

end

/-- A flag that is given twice, once in another spelling, behind an evaluator that is. -/
def sameFlagTwice : String :=
  "\x7b\"$evaluators\": \x7b\"e\": 1, \"e\": 2\x7d, \"flags\": \x7b"
    ++ "\"f\": \x7b\"variations\": \x7b\"on\": 1\x7d\x7d, "
    ++ "\"\\u0066\": \x7b\"variations\": \x7b\"on\": 2\x7d\x7d\x7d\x7d"

/-- The flag is reported, as flags are looked at before evaluators. -/
theorem sameFlagTwice_repeatedKey : ∃ source, Source.ofText? sameFlagTwice = .ok source ∧
    Bundled.schema.violations source.value = [] ∧ source.keysBySection.Repeats .flags "f" ∧
    parseWith bundledValidator {} sameFlagTwice = .error (.repeatedKey .flags "f") := by
  have facts : ((Source.ofText? sameFlagTwice).toOption.any fun source =>
      (Bundled.schema.violations source.value).isEmpty) = true := by
    decide +kernel
  have refused : (match parseWith bundledValidator {} sameFlagTwice with
      | .error (.repeatedKey .flags key) => key == "f"
      | _ => false) = true := by
    decide +kernel
  cases read : Source.ofText? sameFlagTwice with
  | error e => simp [read, Except.toOption] at facts
  | ok source =>
    have valid : Bundled.schema.violations source.value = [] := by
      simpa [read, Except.toOption, List.isEmpty_iff] using facts
    split at refused
    next key same =>
      obtain rfl : key = "f" := by simpa using refused
      have iff := (@parseWith_repeatedKey_iff {} _ _ rfl read valid).1 .flags "f"
      exact ⟨source, rfl, valid, (iff.1 same).2, same⟩
    next => cases refused

/-- Flags that are given twice, first as a number. -/
def numberForFlags : String := "\x7b\"flags\": 5, \"flags\": \x7b\x7d\x7d"

/-- The text satisfies the schema and repeats a key, but that is not what is reported. -/
theorem numberForFlags_not_repeatedKey : ∃ source, Source.ofText? numberForFlags = .ok source ∧
    Bundled.schema.violations source.value = [] ∧
    source.keysBySection.Repeats .document flagsKey ∧
    ∀ part key, parseWith bundledValidator {} numberForFlags ≠ .error (.repeatedKey part key) := by
  have facts : ((Source.ofText? numberForFlags).toOption.any fun source =>
      (Bundled.schema.violations source.value).isEmpty
        && source.keys == [flagsKey, flagsKey]) = true := by
    decide +kernel
  have refused : (match parseWith bundledValidator {} numberForFlags with
      | .error (.repeatedKey ..) => true
      | _ => false) = false := by
    decide +kernel
  cases read : Source.ofText? numberForFlags with
  | error e => simp [read, Except.toOption] at facts
  | ok source =>
    simp only [read, Except.toOption, Option.any_some, Bool.and_eq_true, List.isEmpty_iff,
      beq_iff_eq] at facts
    obtain ⟨valid, keys⟩ := facts
    refine ⟨source, rfl, valid, ⟨by simp [Section.before], [flagsKey], [], keys, ?_, ?_⟩, ?_⟩
    · exact List.nodup_cons.2 ⟨List.not_mem_nil, List.nodup_nil⟩
    · exact List.mem_singleton_self _
    · intro part key same
      rw [same] at refused
      cases refused

end FeatureFlags
