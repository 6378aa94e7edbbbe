import FeatureFlags.Proofs.Document.Build

/-!
# When no key is repeated

`Source.RepeatsNoKey` asks of a text that no key occurs twice at its top level, among all that is
under `flags` or among all that is under `$evaluators`. The check passes just these texts
(`checkRepeatedKeys_eq_ok`), as long as the sections of the folded document are objects: a section
that is given once is in the document as it stands.
-/

namespace FeatureFlags

namespace Source

/-- The keys of an object as they stand; other values have none. -/
def keys : Source → List String
  | .obj ms _ => ms.map (·.1)
  | _ => []

/-- The keys of all values under a key, as they stand. -/
def keysUnder (key : String) (ms : List (String × Source)) : List String :=
  ms.flatMap fun m => if m.1 = key then m.2.keys else []

/-- The keys of all values under a key of an object. -/
def sectionKeys (key : String) : Source → List String
  | .obj ms _ => keysUnder key ms
  | _ => []

/-- No key occurs twice at the top level, nor in all that is given for a section. -/
structure RepeatsNoKey (s : Source) : Prop where
  document : s.keys.Nodup
  flags : (s.sectionKeys flagsKey).Nodup
  evaluators : (s.sectionKeys evaluatorsKey).Nodup

variable {s : Source} {ms : List (String × Source)} {key : String}

/-! ## A key that is given once -/

theorem get?_foldMembers_of_not_mem {done : Members} (absent : key ∉ ms.map (·.1)) :
    (foldMembers ms done).get? key = done.get? key := by
  induction ms generalizing done with
  | nil => rfl
  | cons m more ih =>
    obtain ⟨other, absent⟩ := not_or.1 (mt List.mem_cons.2 absent)
    rw [foldMembers, ih absent, Members.get?_put, if_neg other]

theorem get?_foldMembers (nodup : (ms.map (·.1)).Nodup) (there : (key, s) ∈ ms) {done : Members} :
    (foldMembers ms done).get? key = some s.value := by
  induction ms generalizing done with
  | nil => cases there
  | cons m more ih =>
    obtain ⟨fresh, nodup⟩ := List.nodup_cons.1 nodup
    rcases List.mem_cons.1 there with rfl | there
    · rw [foldMembers, get?_foldMembers_of_not_mem fresh, Members.get?_put, if_pos rfl]
    · exact ih nodup there

/-- A section that is given once is an object, if it is one in the folded document. -/
theorem obj_of_get? {p : Position} {inner : Members} (nodup : (ms.map (·.1)).Nodup)
    (there : (key, s) ∈ ms) (h : (obj ms p).value.get? key = some (.obj inner)) :
    ∃ inner p, s = .obj inner p := by
  rw [value, Json.get?, get?_foldMembers nodup there] at h
  cases s with
  | obj inner p => exact ⟨inner, p, rfl⟩
  | _ => simp [value] at h

end Source

/-! ## The check -/

namespace SectionKeys

variable {keys keys' : SectionKeys} {key : String} {s : Source} {ms : List (String × Source)}

/-- What is under the key of a section is an object. -/
def Readable (m : String × Source) : Prop :=
  m.1 = flagsKey ∨ m.1 = evaluatorsKey → ∃ ms p, m.2 = .obj ms p

theorem add_eq_ok : keys.add key s = .ok keys' ↔ Readable (key, s) ∧ keys' =
    ⟨keys.document ++ [key], keys.flags ++ Source.keysUnder flagsKey [(key, s)],
      keys.evaluators ++ Source.keysUnder evaluatorsKey [(key, s)]⟩ := by
  have apart : flagsKey ≠ evaluatorsKey := by decide
  unfold add Readable Source.keysUnder
  by_cases hf : key = flagsKey
  · subst hf
    cases s <;> simp [Source.keys?, Source.members?, Source.keys, Except.map, bind, Except.bind,
      apart.symm, eq_comm]
  · by_cases he : key = evaluatorsKey
    · subst he
      cases s <;> simp [Source.keys?, Source.members?, Source.keys, Except.map, bind, Except.bind,
        hf, eq_comm]
    · simp [bind, Except.bind, hf, he, eq_comm]

theorem addAll_eq_ok : keys.addAll ms = .ok keys' ↔ (∀ m ∈ ms, Readable m) ∧ keys' =
    ⟨keys.document ++ ms.map (·.1), keys.flags ++ Source.keysUnder flagsKey ms,
      keys.evaluators ++ Source.keysUnder evaluatorsKey ms⟩ := by
  induction ms generalizing keys with
  | nil => simp [addAll, Source.keysUnder, eq_comm]
  | cons m more ih =>
    obtain ⟨key, s⟩ := m
    simp only [addAll, bind_eq_ok, add_eq_ok, ih]
    constructor
    · rintro ⟨_, ⟨readable, rfl⟩, rest, rfl⟩
      refine ⟨List.forall_mem_cons.2 ⟨readable, rest⟩, ?_⟩
      simp [Source.keysUnder]
    · rintro ⟨readable, rfl⟩
      obtain ⟨first, rest⟩ := List.forall_mem_cons.1 readable
      refine ⟨_, ⟨first, rfl⟩, rest, ?_⟩
      simp [Source.keysUnder]

theorem ofSource?_eq_ok : ofSource? s = .ok keys ↔ ∃ ms p, s = .obj ms p ∧
    (∀ m ∈ ms, Readable m) ∧
    keys = ⟨s.keys, s.sectionKeys flagsKey, s.sectionKeys evaluatorsKey⟩ := by
  unfold ofSource?
  cases s with
  | obj ms p => simp [Source.members?, Except.bind, addAll_eq_ok, Source.keys, Source.sectionKeys]
  | _ => simp [Source.members?, Except.bind]

theorem firstRepeated?_eq_none {seen ks : List String} :
    firstRepeated? seen ks = none ↔ ks.Nodup ∧ ∀ key ∈ ks, key ∉ seen := by
  induction ks generalizing seen with
  | nil => simp [firstRepeated?]
  | cons key more ih =>
    by_cases there : key ∈ seen
    · simp [firstRepeated?, there]
    · simp only [firstRepeated?, there, if_false, ih, List.mem_cons, not_or, List.nodup_cons]
      constructor
      · rintro ⟨nodup, fresh⟩
        refine ⟨⟨fun h => (fresh key h).1 rfl, nodup⟩, ?_⟩
        rintro k (rfl | hk)
        · exact there
        · exact (fresh k hk).2
      · rintro ⟨⟨new, nodup⟩, fresh⟩
        refine ⟨nodup, fun k hk => ⟨?_, fresh k (.inr hk)⟩⟩
        rintro rfl
        exact new hk

theorem repeated?_eq_none :
    keys.repeated? = none ↔ keys.document.Nodup ∧ keys.flags.Nodup ∧ keys.evaluators.Nodup := by
  simp [repeated?, firstRepeated?_eq_none]

end SectionKeys

/-- The check passes the texts that repeat no key, if their sections are objects. -/
theorem checkRepeatedKeys_eq_ok {s : Source} {flags evaluators : Members}
    (hf : s.value.flags? = .ok flags) (he : s.value.evaluators? = .ok evaluators) :
    checkRepeatedKeys s = .ok () ↔ s.RepeatsNoKey := by
  have passed : checkRepeatedKeys s = .ok () ↔
      ∃ keys, SectionKeys.ofSource? s = .ok keys ∧ keys.repeated? = none := by
    unfold checkRepeatedKeys
    cases SectionKeys.ofSource? s with
    | error fault => simp
    | ok keys => cases hr : keys.repeated? <;> simp [hr]
  rw [passed]
  constructor
  · rintro ⟨keys, hk, unrepeated⟩
    obtain ⟨ms, p, -, -, rfl⟩ := SectionKeys.ofSource?_eq_ok.1 hk
    obtain ⟨document, flags, evaluators⟩ := SectionKeys.repeated?_eq_none.1 unrepeated
    exact ⟨document, flags, evaluators⟩
  · intro h
    have there := flags?_eq_ok.1 hf
    cases s with
    | obj ms p =>
      refine ⟨_, SectionKeys.ofSource?_eq_ok.2 ⟨ms, p, rfl, ?_, rfl⟩,
        SectionKeys.repeated?_eq_none.2 ⟨h.document, h.flags, h.evaluators⟩⟩
      rintro ⟨key, inner⟩ hm (rfl | rfl)
      · exact Source.obj_of_get? h.document hm there
      · rcases evaluators?_eq_ok.1 he with there | ⟨absent, -⟩
        · exact Source.obj_of_get? h.document hm there
        · rw [Source.value, Json.get?, Source.get?_foldMembers h.document hm] at absent
          cases absent
    | _ => simp [Source.value, Json.get?] at there

end FeatureFlags
