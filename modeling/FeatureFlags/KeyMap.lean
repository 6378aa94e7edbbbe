/-!
# Maps sorted by key

A `KeyMap` lists its entries in strictly increasing order of their keys, compared code point by
code point, so two maps with the same entries are equal. `insert` sets the value of a key, and
`ofList` inserts one entry after another: the last of several entries under one key wins.
-/

namespace FeatureFlags

/-- Entries sorted by key, each key once. -/
structure KeyMap (α : Type) where
  entries : List (String × α)
  sorted : entries.Pairwise (fun a b => a.1 < b.1) := by simp

namespace KeyMap

variable {α : Type}

/-- Sets a key in a sorted list of entries. -/
def insertInto : List (String × α) → String → α → List (String × α)
  | [], key, value => [(key, value)]
  | (k, v) :: more, key, value =>
    if key < k then (key, value) :: (k, v) :: more
    else if k < key then (k, v) :: insertInto more key value
    else (k, value) :: more

theorem key_of_mem_insertInto {es : List (String × α)} {key : String} {value : α}
    {e : String × α} (h : e ∈ insertInto es key value) : e.1 = key ∨ ∃ d ∈ es, e.1 = d.1 := by
  induction es with
  | nil => simp [insertInto] at h; simp [h]
  | cons d more ih =>
    obtain ⟨k, v⟩ := d
    simp only [insertInto] at h
    split at h
    · rcases List.mem_cons.1 h with rfl | h
      · exact .inl rfl
      · exact .inr ⟨e, h, rfl⟩
    · split at h
      · rcases List.mem_cons.1 h with rfl | h
        · exact .inr ⟨_, List.mem_cons_self, rfl⟩
        · rcases ih h with h | ⟨d, hd, h⟩
          · exact .inl h
          · exact .inr ⟨d, List.mem_cons_of_mem _ hd, h⟩
      · rcases List.mem_cons.1 h with rfl | h
        · exact .inr ⟨_, List.mem_cons_self, rfl⟩
        · exact .inr ⟨e, List.mem_cons_of_mem _ h, rfl⟩

theorem sorted_insertInto {es : List (String × α)} (h : es.Pairwise fun a b => a.1 < b.1)
    (key : String) (value : α) : (insertInto es key value).Pairwise fun a b => a.1 < b.1 := by
  induction es with
  | nil => simp [insertInto]
  | cons d more ih =>
    obtain ⟨k, v⟩ := d
    obtain ⟨hd, hm⟩ := List.pairwise_cons.1 h
    simp only [insertInto]
    split
    next hlt =>
      refine List.pairwise_cons.2 ⟨fun e he => ?_, h⟩
      rcases List.mem_cons.1 he with rfl | he
      · exact hlt
      · exact String.lt_trans hlt (hd e he)
    next =>
      split
      next hlt =>
        refine List.pairwise_cons.2 ⟨fun e he => ?_, ih hm⟩
        rcases key_of_mem_insertInto he with he | ⟨d, hdm, he⟩
        · simpa [he] using hlt
        · simpa [he] using hd d hdm
      next => exact List.pairwise_cons.2 ⟨fun e he => hd e he, hm⟩

def empty : KeyMap α := { entries := [] }

def insert (m : KeyMap α) (key : String) (value : α) : KeyMap α :=
  ⟨insertInto m.entries key value, sorted_insertInto m.sorted key value⟩

/-- The entries inserted one after another. -/
def ofList (es : List (String × α)) : KeyMap α :=
  es.foldl (fun m e => m.insert e.1 e.2) empty

def get? (m : KeyMap α) (key : String) : Option α :=
  (m.entries.find? (·.1 == key)).map (·.2)

theorem find_insertInto (es : List (String × α)) (key : String) (value : α) (k : String) :
    ((insertInto es key value).find? (·.1 == k)).map (·.2) =
      if k = key then some value else (es.find? (·.1 == k)).map (·.2) := by
  induction es with
  | nil =>
    by_cases h : k = key
    · simp [insertInto, h]
    · simp [insertInto, h, Ne.symm h]
  | cons d more ih =>
    obtain ⟨k', v⟩ := d
    simp only [insertInto]
    split
    next =>
      by_cases h : k = key
      · simp [h]
      · simp [h, Ne.symm h]
    next hlt =>
      split
      next hgt =>
        have ne : k' ≠ key := fun h => String.lt_irrefl _ (h ▸ hgt)
        by_cases h : k' = k
        · subst h
          simp [ne]
        · simp [h, ih]
      next hge =>
        have eq : k' = key := String.le_antisymm (String.not_lt.1 hlt) (String.not_lt.1 hge)
        subst eq
        by_cases h : k = k'
        · simp [h]
        · simp [h, Ne.symm h]

@[simp] theorem get?_empty (key : String) : (empty : KeyMap α).get? key = none := rfl

/-- An insertion sets one key and no other. -/
@[simp] theorem get?_insert (m : KeyMap α) (key : String) (value : α) (k : String) :
    (m.insert key value).get? k = if k = key then some value else m.get? k :=
  find_insertInto m.entries key value k

def keys (m : KeyMap α) : List String :=
  m.entries.map (·.1)

def size (m : KeyMap α) : Nat :=
  m.entries.length

def isEmpty (m : KeyMap α) : Bool :=
  m.entries.isEmpty

/-- The same keys with values that agree. -/
def agree (same : α → α → Bool) (m n : KeyMap α) : Bool :=
  m.keys == n.keys && (m.entries.zip n.entries).all fun (a, b) => same a.2 b.2

end KeyMap

end FeatureFlags
