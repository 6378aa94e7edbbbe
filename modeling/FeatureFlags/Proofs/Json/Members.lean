import FeatureFlags.Json.Source
import FeatureFlags.Proofs.Json.Inside

/-!
# Members and their keys

Looking up a key finds one of its members, and the only one if no key is repeated. No object in a
value that was read from a text repeats a key (`distinctKeys_value`): members are put one after
the other into those that are there.
-/

namespace FeatureFlags

section

variable {κ α : Type} [BEq κ] [LawfulBEq κ] {xs : List (κ × α)} {key : κ} {a : α}

theorem mem_of_find?_key (h : (xs.find? (·.1 == key)).map (·.2) = some a) : (key, a) ∈ xs := by
  obtain ⟨x, found, rfl⟩ := Option.map_eq_some_iff.1 h
  have same : x.1 = key := by simpa using List.find?_some found
  have there := List.mem_of_find?_eq_some found
  rwa [← same]

/-- Without repeated keys, an entry is what is found under its key. -/
theorem find?_key_of_mem (nodup : (xs.map (·.1)).Nodup) (h : (key, a) ∈ xs) :
    (xs.find? (·.1 == key)).map (·.2) = some a := by
  induction xs with
  | nil => cases h
  | cons x more ih =>
    obtain ⟨fresh, nodup⟩ := List.nodup_cons.1 nodup
    rcases List.mem_cons.1 h with rfl | h
    · simp
    · have other : x.1 ≠ key := by
        rintro rfl
        exact fresh (List.mem_map.2 ⟨_, h, rfl⟩)
      simpa [other] using ih nodup h

end

namespace Members

variable {ms : Members} {key : String} {v : Json}

@[simp]
theorem get?_nil (key : String) : get? [] key = none := rfl

@[simp]
theorem get?_cons (m : String × Json) (more : Members) (key : String) :
    get? (m :: more) key = if m.1 = key then some m.2 else get? more key := by
  by_cases same : m.1 = key
  · simp [get?, same]
  · simp [get?, same, beq_eq_false_iff_ne.2 same]

@[simp]
theorem get?_append (ms more : Members) (key : String) :
    get? (ms ++ more) key = (get? ms key).or (get? more key) := by
  simp [get?, List.find?_append, Option.map_or]

@[simp]
theorem get?_erase (ms : Members) (key k : String) :
    (ms.erase key).get? k = if k = key then none else ms.get? k := by
  induction ms with
  | nil => simp [erase]
  | cons m more ih =>
    simp only [erase, List.filter_cons] at ih ⊢
    by_cases same : m.1 = key
    · subst same
      by_cases h : k = m.1
      · subst h
        simpa using ih
      · simp [ih, h, Ne.symm h]
    · by_cases found : m.1 = k
      · simp [found, found ▸ same]
      · simp [same, found, ih]

theorem has_iff : ms.has key = true ↔ ∃ v, ms.get? key = some v := by
  induction ms with
  | nil => simp [has, get?]
  | cons m more ih =>
    simp only [has, get?, List.any_cons, List.find?_cons] at ih ⊢
    cases m.1 == key with
    | true => simp
    | false => simpa using ih

theorem has_iff_mem_keys : ms.has key = true ↔ key ∈ ms.keys := by
  simp [has, keys]

theorem get?_eq_none_iff : ms.get? key = none ↔ key ∉ ms.keys := by
  rw [← has_iff_mem_keys, has_iff]
  cases ms.get? key <;> simp

theorem mem_of_get? (h : ms.get? key = some v) : (key, v) ∈ ms :=
  mem_of_find?_key h

/-- Without repeated keys, a member is what is found under its key. -/
theorem get?_eq_some_iff (nodup : ms.keys.Nodup) : ms.get? key = some v ↔ (key, v) ∈ ms :=
  ⟨mem_of_get?, find?_key_of_mem nodup⟩

theorem keys_put (ms : Members) (key : String) (v : Json) :
    (ms.put key v).keys = if ms.has key then ms.keys else ms.keys ++ [key] := by
  induction ms with
  | nil => rfl
  | cons m more ih =>
    obtain ⟨k, u⟩ := m
    by_cases same : k = key
    · simp [put, has, keys, same]
    · have differs : (k == key) = false := beq_eq_false_iff_ne.2 same
      have step : (put ((k, u) :: more) key v).keys = k :: (put more key v).keys := by
        simp [put, differs, keys]
      have same_has : has ((k, u) :: more) key = has more key := by simp [has, differs]
      rw [step, same_has, ih]
      cases has more key <;> rfl

theorem nodup_keys_put (nodup : ms.keys.Nodup) (key : String) (v : Json) :
    (ms.put key v).keys.Nodup := by
  rw [keys_put]
  split
  · exact nodup
  next absent =>
    rw [has_iff_mem_keys] at absent
    refine List.nodup_append.2 ⟨nodup, by simp, ?_⟩
    intro k hk k' hk' same
    exact absent (List.mem_singleton.1 hk' ▸ same ▸ hk)

theorem mem_put {m : String × Json} (h : m ∈ ms.put key v) : m = (key, v) ∨ m ∈ ms := by
  induction ms with
  | nil => exact .inl (List.mem_singleton.1 h)
  | cons n more ih =>
    obtain ⟨k, u⟩ := n
    simp only [put] at h
    split at h
    next same =>
      rcases List.mem_cons.1 h with rfl | h
      · exact .inl (by rw [eq_of_beq same])
      · exact .inr (List.mem_cons_of_mem _ h)
    next =>
      rcases List.mem_cons.1 h with rfl | h
      · exact .inr List.mem_cons_self
      · exact (ih h).imp id (List.mem_cons_of_mem _)

end Members

/-! ## Distinct keys -/

namespace Json

theorem distinctKeysInItems_iff {items : List Json} :
    distinctKeysInItems items = true ↔ ∀ v ∈ items, v.distinctKeys = true := by
  induction items with
  | nil => simp [distinctKeysInItems]
  | cons v more ih => simp [distinctKeysInItems, ih]

theorem distinctKeysInMembers_iff {ms : List (String × Json)} :
    distinctKeysInMembers ms = true ↔ ∀ m ∈ ms, m.2.distinctKeys = true := by
  induction ms with
  | nil => simp [distinctKeysInMembers]
  | cons m more ih => simp [distinctKeysInMembers, ih]

theorem distinctKeys_obj_iff {ms : Members} : (obj ms).distinctKeys = true ↔
    ms.keys.Nodup ∧ ∀ m ∈ ms, m.2.distinctKeys = true := by
  simp [distinctKeys, distinctKeysInMembers_iff, Members.keys]

theorem Inside.distinctKeys {u v : Json} (h : u.Inside v) (distinct : v.distinctKeys = true) :
    u.distinctKeys = true := by
  induction h with
  | self => exact distinct
  | item hm _ ih =>
    rw [Json.distinctKeys, distinctKeysInItems_iff] at distinct
    exact ih (distinct _ hm)
  | member hm _ ih => exact ih ((distinctKeys_obj_iff.1 distinct).2 _ hm)

end Json

namespace Source

mutual

/-- No object in a value read from a text repeats a key. -/
theorem distinctKeys_value : ∀ s : Source, s.value.distinctKeys = true
  | .null _ | .bool _ _ | .num _ _ | .str _ _ => by simp [value, Json.distinctKeys]
  | .arr items _ => by
    rw [value, Json.distinctKeys, Json.distinctKeysInItems_iff]
    exact distinctKeys_valuesOfItems items
  | .obj ms _ => by
    rw [value, Json.distinctKeys_obj_iff]
    exact distinctKeys_foldMembers ms [] List.nodup_nil (by simp)

theorem distinctKeys_valuesOfItems : ∀ items : List Source,
    ∀ v ∈ valuesOfItems items, v.distinctKeys = true
  | [], _, h => by cases h
  | s :: more, v, h => by
    rcases List.mem_cons.1 h with rfl | h
    · exact distinctKeys_value s
    · exact distinctKeys_valuesOfItems more v h

theorem distinctKeys_foldMembers : ∀ (ms : List (String × Source)) (done : Members),
    done.keys.Nodup → (∀ m ∈ done, m.2.distinctKeys = true) →
      (foldMembers ms done).keys.Nodup ∧ ∀ m ∈ foldMembers ms done, m.2.distinctKeys = true
  | [], _, nodup, inner => ⟨nodup, inner⟩
  | (k, s) :: more, done, nodup, inner => by
    apply distinctKeys_foldMembers more _ (Members.nodup_keys_put nodup k s.value)
    intro m hm
    rcases Members.mem_put hm with rfl | hm
    · exact distinctKeys_value s
    · exact inner m hm

end

end Source

end FeatureFlags
