import FeatureFlags.KeyMap
import FeatureFlags.Proofs.Text.Bytes
import Mathlib.Data.List.Forall2

/-!
# What a map holds

A map is told by what it has under each key (`KeyMap.ext`), since its entries are sorted. A map
made of entries without repeated keys holds these and no others (`mem_entries_ofList`), and leaving
out keys before it is made or afterwards comes to the same (`filter_ofList`).
-/

namespace FeatureFlags.KeyMap

variable {α : Type} {m n : KeyMap α} {es : List (String × α)}

theorem mem_entries_iff {e : String × α} : e ∈ m.entries ↔ m.get? e.1 = some e.2 := by
  obtain ⟨entries, sorted⟩ := m
  simp only [get?]
  induction entries with
  | nil => simp
  | cons d more ih =>
    obtain ⟨least, sorted⟩ := List.pairwise_cons.1 sorted
    rw [List.mem_cons, ih sorted, List.find?_cons]
    by_cases same : d.1 = e.1
    · -- the keys behind are greater, so this one is not among them
      have absent : more.find? (·.1 == e.1) = none := by
        rw [List.find?_eq_none]
        intro x hx hk
        have lt := least x hx
        rw [eq_of_beq hk, same] at lt
        exact String.lt_irrefl _ lt
      simp [absent, same, Prod.ext_iff, eq_comm]
    · have other : e ≠ d := fun h => same (h ▸ rfl)
      have differs : (d.1 == e.1) = false := beq_eq_false_iff_ne.2 same
      simp [differs, other]

theorem get?_eq_none_iff {k : String} : m.get? k = none ↔ k ∉ m.keys := by
  rw [Option.eq_none_iff_forall_ne_some]
  constructor
  · intro absent there
    obtain ⟨e, he, rfl⟩ := List.mem_map.1 there
    exact absent e.2 (mem_entries_iff.1 he)
  · intro absent v hv
    exact absent (List.mem_map.2 ⟨(k, v), mem_entries_iff.2 hv, rfl⟩)

theorem pairwise_keys (m : KeyMap α) : m.keys.Pairwise (· < ·) :=
  List.pairwise_map.2 m.sorted

/-- The keys stand in the order of their bytes. -/
theorem pairwise_bytes (m : KeyMap α) :
    m.keys.Pairwise fun j k => Text.bytes j < Text.bytes k :=
  m.pairwise_keys.imp Text.bytes_lt

theorem nodup_entries (m : KeyMap α) : m.entries.Nodup := by
  refine m.sorted.imp fun {a b} lt same => ?_
  rw [same] at lt
  exact String.lt_irrefl _ lt

/-- Maps that have the same under each key are equal. -/
@[ext]
theorem ext (same : ∀ k, m.get? k = n.get? k) : m = n := by
  have perm : m.entries.Perm n.entries := by
    rw [List.perm_ext_iff_of_nodup m.nodup_entries n.nodup_entries]
    intro e
    rw [mem_entries_iff, mem_entries_iff, same]
  have entries : m.entries = n.entries :=
    perm.eq_of_pairwise (fun _ _ _ _ lt gt => absurd (String.lt_trans lt gt) (String.lt_irrefl _))
      m.sorted n.sorted
  obtain ⟨_, _⟩ := m
  obtain ⟨_, _⟩ := n
  congr

/-- Maps agree if they have the same keys, with values that agree under each. -/
theorem agree_of_rel {same : α → α → Bool}
    (h : ∀ k, Option.Rel (fun a b => same a b = true) (m.get? k) (n.get? k)) :
    m.agree same n = true := by
  have keys : m.keys = n.keys := by
    have perm : m.keys.Perm n.keys := by
      rw [List.perm_ext_iff_of_nodup (m.pairwise_keys.imp String.ne_of_lt)
        (n.pairwise_keys.imp String.ne_of_lt)]
      intro k
      rw [← not_iff_not, ← get?_eq_none_iff, ← get?_eq_none_iff]
      have values := h k
      generalize m.get? k = x, n.get? k = y at values ⊢
      cases values <;> simp
    exact perm.eq_of_pairwise
      (fun _ _ _ _ lt gt => absurd (String.lt_trans lt gt) (String.lt_irrefl _))
      m.pairwise_keys n.pairwise_keys
  rw [agree, Bool.and_eq_true, beq_iff_eq, List.all_eq_true]
  refine ⟨keys, ?_⟩
  rintro ⟨a, b⟩ hz
  have aligned : List.Forall₂ (fun a b : String × α => a.1 = b.1) m.entries n.entries := by
    rw [KeyMap.keys, KeyMap.keys, ← List.forall₂_eq_eq_eq] at keys
    rwa [List.forall₂_map_left_iff, List.forall₂_map_right_iff] at keys
  have key := (List.forall₂_iff_zip.1 aligned).2 hz
  obtain ⟨ha, hb⟩ := List.of_mem_zip hz
  have values := h a.1
  rw [mem_entries_iff.1 ha, key, mem_entries_iff.1 hb] at values
  cases values with
  | some agree => exact agree

/-! ## Maps from lists of entries -/

theorem get?_foldl_insert (nodup : (es.map (·.1)).Nodup) (fresh : ∀ e ∈ es, m.get? e.1 = none)
    {k : String} {v : α} : (es.foldl (fun m e => m.insert e.1 e.2) m).get? k = some v ↔
      (k, v) ∈ es ∨ m.get? k = some v := by
  induction es generalizing m with
  | nil => simp
  | cons e more ih =>
    obtain ⟨new, nodup⟩ := List.nodup_cons.1 nodup
    rw [List.foldl_cons, ih nodup, get?_insert, List.mem_cons]
    · by_cases same : k = e.1
      · subst same
        have absent : (e.1, v) ∉ more := fun h => new (List.mem_map.2 ⟨_, h, rfl⟩)
        simp [absent, fresh e List.mem_cons_self, Prod.ext_iff, eq_comm]
      · have other : (k, v) ≠ e := fun h => same (h ▸ rfl)
        simp [same, other]
    · intro x hx
      have other : x.1 ≠ e.1 := fun h => new (List.mem_map.2 ⟨x, hx, h⟩)
      rw [get?_insert, if_neg other]
      exact fresh x (List.mem_cons_of_mem _ hx)

/-- Without repeated keys, a map made of some entries has under a key what they have. -/
theorem get?_ofList (nodup : (es.map (·.1)).Nodup) {k : String} {v : α} :
    (ofList es).get? k = some v ↔ (k, v) ∈ es := by
  rw [ofList, get?_foldl_insert nodup fun _ _ => get?_empty _]
  simp

/-- Without repeated keys, a map made of some entries has exactly these. -/
theorem mem_entries_ofList (nodup : (es.map (·.1)).Nodup) {e : String × α} :
    e ∈ (ofList es).entries ↔ e ∈ es := by
  rw [mem_entries_iff, get?_ofList nodup]

/-- Its keys are theirs, sorted. -/
theorem perm_keys_ofList (nodup : (es.map (·.1)).Nodup) :
    (ofList es).keys.Perm (es.map (·.1)) := by
  have nodup' : es.Nodup := (List.pairwise_map.1 nodup).imp fun ne same => ne (congrArg _ same)
  refine List.Perm.map _ ((List.perm_ext_iff_of_nodup (nodup_entries _) nodup').2 fun _ => ?_)
  exact mem_entries_ofList nodup

/-- A map made of some entries has no others. -/
theorem mem_of_mem_entries_ofList {e : String × α} (h : e ∈ (ofList es).entries) : e ∈ es := by
  have from_insert : ∀ (es : List (String × α)) (m : KeyMap α),
      e ∈ (es.foldl (fun m e => m.insert e.1 e.2) m).entries → e ∈ es ∨ e ∈ m.entries := by
    intro es
    induction es with
    | nil => exact fun _ => .inr
    | cons d more ih =>
      intro m h
      rcases ih _ h with h | h
      · exact .inl (List.mem_cons_of_mem _ h)
      · rw [mem_entries_iff, get?_insert] at h
        split at h
        next same =>
          obtain rfl : e = d := Prod.ext same (Option.some.inj h).symm
          exact .inl List.mem_cons_self
        next => exact .inr (mem_entries_iff.2 h)
  rcases from_insert es empty h with h | h
  · exact h
  · cases h

/-- A map is made of its entries. -/
theorem ofList_entries (m : KeyMap α) : ofList m.entries = m := by
  have nodup : (m.entries.map (·.1)).Nodup := m.pairwise_keys.imp String.ne_of_lt
  ext1 k
  refine Option.ext fun v => ?_
  have there := @mem_entries_iff _ m (k, v)
  rw [get?_ofList nodup, there]

theorem eq_empty (h : m.isEmpty = true) : m = empty := by
  obtain ⟨entries, _⟩ := m
  obtain rfl : entries = [] := List.isEmpty_iff.1 h
  rfl

/-! ## Maps with fewer keys -/

/-- The entries under the keys to be kept. -/
def filter (m : KeyMap α) (keep : String → Bool) : KeyMap α :=
  ⟨m.entries.filter fun e => keep e.1, m.sorted.filter _⟩

@[simp]
theorem get?_filter (m : KeyMap α) (keep : String → Bool) (k : String) :
    (m.filter keep).get? k = if keep k then m.get? k else none := by
  refine Option.ext fun v => ?_
  have kept := @mem_entries_iff _ (m.filter keep) (k, v)
  have there := @mem_entries_iff _ m (k, v)
  dsimp only at kept there
  rw [← kept, filter, List.mem_filter, there]
  cases keep k <;> simp

theorem filter_insert (m : KeyMap α) (keep : String → Bool) (key : String) (value : α) :
    (m.insert key value).filter keep =
      if keep key then (m.filter keep).insert key value else m.filter keep := by
  ext1 k
  by_cases same : k = key
  · subst same
    cases hk : keep k <;> simp [hk]
  · cases hk : keep key <;> simp [same]

theorem filter_foldl_insert (m : KeyMap α) (keep : String → Bool) (es : List (String × α)) :
    (es.foldl (fun m e => m.insert e.1 e.2) m).filter keep =
      (es.filter fun e => keep e.1).foldl (fun m e => m.insert e.1 e.2) (m.filter keep) := by
  induction es generalizing m with
  | nil => rfl
  | cons e more ih =>
    rw [List.foldl_cons, ih, filter_insert, List.filter_cons]
    cases keep e.1 <;> rfl

/-- Whether keys are left out of the entries or of the map does not matter. -/
theorem filter_ofList (keep : String → Bool) (es : List (String × α)) :
    (ofList es).filter keep = ofList (es.filter fun e => keep e.1) :=
  filter_foldl_insert empty keep es

end FeatureFlags.KeyMap
