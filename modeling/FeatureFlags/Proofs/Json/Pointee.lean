import FeatureFlags.Json.Pointer
import FeatureFlags.Proofs.Json.Inside
import FeatureFlags.Proofs.Json.Members

/-!
# Where pointers lead

Following a pointer that was extended by a step is following the pointer and then taking the step
(`pointee?_child`, `pointee?_item`): an escaped key has no slash in it and is read as the key again,
and so is an index. `Json.Leads` extends a pointer along a value, step by step, without reading it;
in a value that repeats no key, the pointer leads to the part that it was extended for
(`Leads.pointee?`).
-/

namespace FeatureFlags

namespace Text

variable {α : Type} [DecidableEq α] {separator : α} {xs ys : List α}

theorem pieces_append (xs ys : List α) :
    pieces separator (xs ++ separator :: ys) = pieces separator xs ++ pieces separator ys := by
  induction xs with
  | nil => simp [pieces]
  | cons c more ih =>
    simp only [List.cons_append, pieces, ih]
    split
    · rfl
    · have ne := pieces_ne_nil separator more
      cases h : pieces separator more with
      | nil => exact absurd h ne
      | cons piece rest => rfl

theorem pieces_of_notMem (h : separator ∉ xs) : pieces separator xs = [xs] := by
  induction xs with
  | nil => rfl
  | cons c more ih =>
    obtain ⟨differs, rest⟩ := not_or.1 (mt List.mem_cons.2 h)
    simp [pieces, ih rest, Ne.symm differs]

end Text

namespace Pointer

variable {p : Pointer} {ks : List String}

/-- A pointer extended by a token leads one step further. -/
theorem keys?_append {token : List Char} (h : keys? p = some ks) (oneStep : '/' ∉ token) :
    keys? (p ++ "/" ++ String.ofList token) =
      some (ks ++ [String.ofList (unescapeChars token)]) := by
  unfold keys? at h ⊢
  have chars : (p ++ "/" ++ String.ofList token).toList = p.toList ++ '/' :: token := by simp
  rw [chars]
  split at h
  next empty =>
    cases h
    simp [empty, Text.pieces_of_notMem oneStep]
  next more slash =>
    cases h
    simp [slash, Text.pieces_append, Text.pieces_of_notMem oneStep]
  next => cases h

theorem keys?_child (h : keys? p = some ks) (key : String) :
    keys? (p.child key) = some (ks ++ [key]) := by
  have read := keys?_append h (slash_notMem_escapeChars key.toList)
  rwa [unescapeChars_escapeChars, String.ofList_toList] at read

theorem unescapeChars_of_notMem {cs : List Char} (h : '~' ∉ cs) : unescapeChars cs = cs := by
  induction cs with
  | nil => rfl
  | cons c more ih =>
    obtain ⟨differs, rest⟩ := not_or.1 (mt List.mem_cons.2 h)
    rw [unescapeChars, ih rest]
    all_goals exact fun _ same => absurd same.symm differs

theorem isDigit_of_mem_toString {n : Nat} {c : Char} (h : c ∈ (toString n).toList) :
    c.isDigit = true := by
  rw [Nat.toString_eq_ofList_toDigits, String.toList_ofList] at h
  exact Nat.isDigit_of_mem_toDigits (by decide) (by decide) h

theorem keys?_item (h : keys? p = some ks) (index : Nat) :
    keys? (p.item index) = some (ks ++ [toString index]) := by
  have digits : ∀ c, c.isDigit = false → c ∉ (toString index).toList := by
    intro c other there
    rw [isDigit_of_mem_toString there] at other
    cases other
  have read := keys?_append h (digits '/' rfl)
  rwa [unescapeChars_of_notMem (digits '~' rfl), String.ofList_toList] at read

/-- No number but zero starts with a zero. -/
theorem head?_toDigits {n : Nat} (pos : 0 < n) : (Nat.toDigits 10 n).head? ≠ some '0' := by
  induction n using Nat.strongRecOn with
  | ind n ih =>
    rw [Nat.toDigits_eq_if (by decide)]
    split
    next small =>
      have digits : ∀ n, n < 10 → 0 < n → [n.digitChar].head? ≠ some '0' := by decide
      exact digits n small pos
    next large =>
      have shorter := ih (n / 10) (by omega) (by omega)
      rw [List.head?_append]
      cases h : (Nat.toDigits 10 (n / 10)).head? with
      | none => exact absurd (List.head?_eq_none_iff.1 h) Nat.toDigits_ne_nil
      | some c => rwa [h] at shorter

/-- An index is read as it was written. -/
theorem index?_toString (n : Nat) : index? (toString n) = some n := by
  have ten : (toString n).toList = Nat.toDigits 10 n := by
    rw [Nat.toString_eq_ofList_toDigits, String.toList_ofList]
  have value : (Nat.toDigits 10 n).foldl (fun n d => 10 * n + (d.toNat - '0'.toNat)) 0 = n :=
    Nat.ofDigitChars_ten_toDigits
  have digits : (Nat.toDigits 10 n).all Char.isDigit = true :=
    List.all_eq_true.2 fun c hc => Nat.isDigit_of_mem_toDigits (by decide) (by decide) hc
  unfold index?
  rw [ten]
  cases h : Nat.toDigits 10 n with
  | nil => exact absurd h Nat.toDigits_ne_nil
  | cons c more =>
    rw [h] at value digits
    refine (if_pos ⟨digits, ?_⟩).trans (congrArg some value)
    rcases Nat.eq_zero_or_pos n with rfl | pos
    · rw [Nat.toDigits_zero] at h
      exact .inr (List.cons.inj h).2.symm
    · have leading := head?_toDigits pos
      rw [h] at leading
      exact .inl fun same => leading (congrArg some same)

end Pointer

namespace Json

variable {document u v : Json} {p q : Pointer}

theorem follow?_append (v : Json) (ks js : List String) :
    v.follow? (ks ++ js) = (v.follow? ks).bind (follow? · js) := by
  induction ks generalizing v with
  | nil => rfl
  | cons k more ih =>
    simp only [List.cons_append, follow?]
    cases v.step? k with
    | none => rfl
    | some u => exact ih u

theorem pointee?_eq_some : document.pointee? p = some v ↔
    ∃ ks, Pointer.keys? p = some ks ∧ document.follow? ks = some v := by
  simp [pointee?, Option.bind_eq_some_iff]

@[simp]
theorem pointee?_root (document : Json) : document.pointee? "" = some document := rfl

/-- A pointer that is extended by one token leads to what the token leads to from there. -/
theorem pointee?_extend {key : String} {q : Pointer} (h : document.pointee? p = some v)
    (step : ∀ ks, Pointer.keys? p = some ks → Pointer.keys? q = some (ks ++ [key])) :
    document.pointee? q = v.step? key := by
  obtain ⟨ks, hks, followed⟩ := pointee?_eq_some.1 h
  rw [pointee?, step ks hks, Option.bind_some, follow?_append, followed, Option.bind_some]
  simp [follow?]

theorem pointee?_child (h : document.pointee? p = some v) (key : String) :
    document.pointee? (p.child key) = v.step? key :=
  pointee?_extend h fun _ hks => Pointer.keys?_child hks key

theorem pointee?_item {items : List Json} (h : document.pointee? p = some (.arr items))
    (index : Nat) : document.pointee? (p.item index) = items[index]? := by
  rw [pointee?_extend h fun _ hks => Pointer.keys?_item hks index, step?,
    Pointer.index?_toString]
  rfl

theorem inside_of_step? {key : String} (h : v.step? key = some u) : u.Inside v := by
  cases v with
  | obj ms => exact .member (Members.mem_of_get? h) (.self u)
  | arr items =>
    obtain ⟨i, -, hi⟩ := Option.bind_eq_some_iff.1 h
    exact .item (List.mem_of_getElem? hi) (.self u)
  | _ => cases h

theorem inside_of_follow? {ks : List String} (h : v.follow? ks = some u) : u.Inside v := by
  induction ks generalizing v with
  | nil =>
    cases h
    exact .self _
  | cons k more ih =>
    obtain ⟨w, step, h⟩ := Option.bind_eq_some_iff.1 h
    exact (ih h).trans (inside_of_step? step)

theorem inside_of_pointee? (h : document.pointee? p = some v) : v.Inside document := by
  obtain ⟨ks, -, followed⟩ := pointee?_eq_some.1 h
  exact inside_of_follow? followed

/-! ## Along a value -/

/-- Where a value stands at one pointer, another one, made by extending it along the value, leads to
a part. -/
inductive Leads : Json → Pointer → Pointer → Json → Prop
  | self (v : Json) (p : Pointer) : Leads v p p v
  | item {items : List Json} {i : Nat} {v u : Json} {p q : Pointer} :
      items[i]? = some v → Leads v (p.item i) q u → Leads (.arr items) p q u
  | member {ms : Members} {k : String} {v u : Json} {p q : Pointer} :
      (k, v) ∈ ms → Leads v (p.child k) q u → Leads (.obj ms) p q u

theorem Leads.of_eq (same : q = p) : Leads v p q v :=
  same ▸ .self v p

theorem Leads.inside (h : Leads v p q u) : u.Inside v := by
  induction h with
  | self => exact .self _
  | item hi _ ih => exact .item (List.mem_of_getElem? hi) ih
  | member hm _ ih => exact .member hm ih

theorem Leads.trans {w : Json} {r : Pointer} (h : Leads v p q u) (inner : Leads u q r w) :
    Leads v p r w := by
  induction h with
  | self => exact inner
  | item hi _ ih => exact .item hi (ih inner)
  | member hm _ ih => exact .member hm (ih inner)

theorem Inside.exists_leads (h : u.Inside v) (p : Pointer) : ∃ q, Leads v p q u := by
  induction h generalizing p with
  | self => exact ⟨p, .self _ p⟩
  | item hm _ ih =>
    obtain ⟨i, hi⟩ := List.getElem?_of_mem hm
    exact (ih (p.item i)).imp fun q => .item hi
  | member hm _ ih => exact (ih _).imp fun q => .member hm

/-- If no key is repeated, following the pointer finds the part. -/
theorem Leads.pointee? (h : Leads v p q u) (distinct : document.distinctKeys = true)
    (here : document.pointee? p = some v) : document.pointee? q = some u := by
  induction h with
  | self => exact here
  | item hi _ ih => exact ih ((pointee?_item here _).trans hi)
  | member hm _ ih =>
    have nodup := (distinctKeys_obj_iff.1 ((inside_of_pointee? here).distinctKeys distinct)).1
    exact ih ((pointee?_child here _).trans ((Members.get?_eq_some_iff nodup).2 hm))

end Json

end FeatureFlags
