import FeatureFlags.Proofs.Json.Members
import Mathlib.Algebra.Order.BigOperators.Group.List
import Mathlib.Algebra.Order.Ring.Nat
import Mathlib.Data.List.Forall2
import Mathlib.Data.List.Nodup
import Mathlib.Data.List.Perm.Subperm

/-!
# Equality up to the order of members

Values are alike if they repeat no key and are equal up to the order of members. Objects are alike if
under each key they have alike values, or none (`alike_obj_iff`), and the members of one can be put
in the order of the other (`Members.exists_aligned`). `Alike.induct` is induction over alike values
side by side.
-/

namespace FeatureFlags

/-! ## Relations of options and of lists -/

section Related

variable {α β γ δ : Type} {R S : α → β → Prop} {x : Option α} {y : Option β} {xs : List α}
  {ys : List β}

/-- What is there on one side is there on the other. -/
theorem rel_iff : Option.Rel R x y ↔
    (∀ a, x = some a → ∃ b, y = some b ∧ R a b) ∧ ∀ b, y = some b → ∃ a, x = some a ∧ R a b := by
  constructor
  · rintro (related | _)
    · refine ⟨?_, ?_⟩ <;> rintro _ ⟨⟩ <;> exact ⟨_, rfl, related⟩
    · simp
  · rintro ⟨right, left⟩
    cases x with
    | some a =>
      obtain ⟨b, rfl, h⟩ := right a rfl
      exact .some h
    | none =>
      cases y with
      | some b =>
        obtain ⟨_, none, -⟩ := left b rfl
        cases none
      | none => exact .none

theorem rel_comm (h : Option.Rel R x y) : Option.Rel (fun b a => R a b) y x :=
  rel_iff.2 (rel_iff.1 h).symm

theorem rel_none_iff (h : Option.Rel R x y) : x = none ↔ y = none := by
  cases h <;> simp

theorem rel_mono (h : Option.Rel R x y) (wider : ∀ a b, R a b → S a b) : Option.Rel S x y := by
  cases h with
  | none => exact .none
  | some related => exact .some (wider _ _ related)

theorem rel_map_iff {T : γ → δ → Prop} {f : α → γ} {g : β → δ} :
    Option.Rel T (x.map f) (y.map g) ↔ Option.Rel (fun a b => T (f a) (g b)) x y := by
  cases x <;> cases y <;> simp [rel_iff]

theorem exists_of_forall₂ (h : List.Forall₂ R xs ys) {a : α} (ha : a ∈ xs) : ∃ b ∈ ys, R a b := by
  induction h with
  | nil => cases ha
  | cons first _ ih =>
    rcases List.mem_cons.1 ha with rfl | ha
    · exact ⟨_, List.mem_cons_self, first⟩
    · exact (ih ha).imp fun _ there => ⟨List.mem_cons_of_mem _ there.1, there.2⟩

theorem map_eq_of_forall₂ {f : α → γ} {g : β → γ}
    (h : List.Forall₂ (fun a b => f a = g b) xs ys) : xs.map f = ys.map g := by
  rwa [← List.forall₂_map_right_iff, ← List.forall₂_map_left_iff, List.forall₂_eq_eq_eq] at h

theorem flatMap_perm_of_forall₂ {f : α → List γ} {g : β → List γ}
    (h : List.Forall₂ (fun a b => (f a).Perm (g b)) xs ys) : (xs.flatMap f).Perm (ys.flatMap g) := by
  induction h with
  | nil => exact .refl _
  | cons first _ ih =>
    rw [List.flatMap_cons, List.flatMap_cons]
    exact first.append ih

end Related

/-! ## Alike values -/

/-- Values that repeat no key and are equal up to the order of members. -/
structure Json.Alike (a b : Json) : Prop where
  left : a.distinctKeys = true
  right : b.distinctKeys = true
  same : a.same b = true

/-- Members that repeat no key, with alike values under each key or none. -/
structure Members.Alike (ms ns : Members) : Prop where
  left : ms.keys.Nodup
  right : ns.keys.Nodup
  values : ∀ k, Option.Rel Json.Alike (ms.get? k) (ns.get? k)

namespace Members

variable {ms ns : Members} {k : String} {v w : Json}

theorem Alike.get?_left (h : ms.Alike ns) (hv : ms.get? k = some v) :
    ∃ w, ns.get? k = some w ∧ v.Alike w :=
  (rel_iff.1 (h.values k)).1 v hv

theorem Alike.get?_right (h : ms.Alike ns) (hw : ns.get? k = some w) :
    ∃ v, ms.get? k = some v ∧ v.Alike w :=
  (rel_iff.1 (h.values k)).2 w hw

theorem Alike.has_eq (h : ms.Alike ns) (k : String) : ms.has k = ns.has k := by
  rw [Bool.eq_iff_iff, has_iff, has_iff]
  constructor
  · rintro ⟨v, hv⟩
    exact (h.get?_left hv).imp fun _ => And.left
  · rintro ⟨w, hw⟩
    exact (h.get?_right hw).imp fun _ => And.left

theorem alike_nil : Alike [] [] := ⟨List.nodup_nil, List.nodup_nil, fun _ => .none⟩

/-- Members can be put in the order of others that have related values under the same keys. -/
theorem exists_aligned {R : Json → Json → Prop} (left : ms.keys.Nodup) (right : ns.keys.Nodup)
    (values : ∀ k, Option.Rel R (ms.get? k) (ns.get? k)) :
    ∃ os : Members, os.Perm ns ∧ List.Forall₂ (fun m o => m.1 = o.1 ∧ R m.2 o.2) ms os := by
  have each : ∀ m ∈ ms, ∃ w, ns.get? m.1 = some w ∧ R m.2 w := fun m there =>
    (rel_iff.1 (values m.1)).1 m.2 ((get?_eq_some_iff left).2 there)
  let os : Members := ms.map fun m => (m.1, (ns.get? m.1).getD .null)
  have keys : os.keys = ms.keys := by simp [os, Members.keys]
  refine ⟨os, ?_, ?_⟩
  · have nodup : os.Nodup := List.Nodup.of_map _ (keys ▸ left : os.keys.Nodup)
    rw [List.perm_ext_iff_of_nodup nodup (List.Nodup.of_map _ right)]
    rintro ⟨k, w⟩
    rw [← get?_eq_some_iff right, List.mem_map]
    constructor
    · rintro ⟨m, there, same⟩
      obtain ⟨w', hw, -⟩ := each m there
      rw [hw] at same
      cases same
      exact hw
    · intro hw
      obtain ⟨v, hv, -⟩ := (rel_iff.1 (values k)).2 w hw
      exact ⟨(k, v), mem_of_get? hv, by rw [hw]; rfl⟩
  · rw [List.forall₂_map_right_iff, List.forall₂_same]
    intro m there
    obtain ⟨w, hw, related⟩ := each m there
    rw [hw]
    exact ⟨rfl, related⟩

theorem Alike.length_eq (h : ms.Alike ns) : ms.length = ns.length := by
  obtain ⟨os, perm, aligned⟩ := exists_aligned h.left h.right h.values
  exact aligned.length_eq.trans perm.length_eq

theorem Alike.exists_singleton (h : Alike [(k, v)] ns) : ∃ w, ns = [(k, w)] ∧ v.Alike w := by
  obtain ⟨os, perm, aligned⟩ := exists_aligned h.left h.right h.values
  obtain ⟨⟨k', w⟩, _, ⟨same, alike⟩, none, rfl⟩ := List.forall₂_cons_left_iff.1 aligned
  obtain rfl : k = k' := same
  obtain rfl := List.forall₂_nil_left_iff.1 none
  exact ⟨w, List.perm_singleton.1 perm.symm, alike⟩

end Members

theorem Number.same_refl (n : Number) : n.same n = true := by
  cases n <;> simp [Number.same, Binary64.sameValue]

theorem Number.same_comm (m n : Number) : m.same n = n.same m := by
  cases m <;> cases n
  case float.float x y => simp only [Number.same, Binary64.sameValue, Bool.beq_comm, Bool.and_comm]
  case int.int i j => exact Bool.beq_comm
  all_goals rfl

namespace Json

variable {a b u : Json} {ms ns : Members}

theorem sameItems_iff {as bs : List Json} :
    sameItems as bs = true ↔ List.Forall₂ (fun a b => a.same b = true) as bs := by
  induction as generalizing bs with
  | nil => cases bs <;> simp [sameItems]
  | cons a as ih => cases bs <;> simp [sameItems, ih]

theorem membersIn_iff : membersIn ms ns = true ↔
    ∀ m ∈ ms, ∃ w, ns.get? m.1 = some w ∧ m.2.same w = true := by
  induction ms with
  | nil => simp [membersIn]
  | cons m more ih =>
    obtain ⟨k, v⟩ := m
    rw [membersIn, Bool.and_eq_true, ih, List.forall_mem_cons]
    refine and_congr_left fun _ => ?_
    cases ns.get? k <;> simp

/-! ## One constructor at a time -/

theorem alike_arr_iff {as bs : List Json} : (arr as).Alike (arr bs) ↔ List.Forall₂ Alike as bs := by
  constructor
  · rintro ⟨left, right, same⟩
    rw [distinctKeys, distinctKeysInItems_iff] at left right
    rw [Json.same, sameItems_iff, List.forall₂_iff_zip] at same
    refine List.forall₂_iff_zip.2 ⟨same.1, fun hz => ?_⟩
    obtain ⟨hv, hw⟩ := List.of_mem_zip hz
    exact ⟨left _ hv, right _ hw, same.2 hz⟩
  · intro h
    refine ⟨?_, ?_, ?_⟩
    · rw [distinctKeys, distinctKeysInItems_iff]
      exact fun v hv => (exists_of_forall₂ h hv).elim fun _ there => there.2.left
    · rw [distinctKeys, distinctKeysInItems_iff]
      exact fun w hw => (exists_of_forall₂ h.flip hw).elim fun _ there => there.2.right
    · rw [Json.same, sameItems_iff]
      exact h.imp fun _ _ => Alike.same

theorem alike_obj_iff : (obj ms).Alike (obj ns) ↔ ms.Alike ns := by
  constructor
  · rintro ⟨left, right, same⟩
    obtain ⟨hm, inner⟩ := distinctKeys_obj_iff.1 left
    obtain ⟨hn, inner'⟩ := distinctKeys_obj_iff.1 right
    rw [Json.same, Bool.and_eq_true, beq_iff_eq, membersIn_iff] at same
    obtain ⟨length, each⟩ := same
    refine ⟨hm, hn, fun k => ?_⟩
    have sub : ms.keys ⊆ ns.keys := by
      intro k hk
      obtain ⟨m, there, rfl⟩ := List.mem_map.1 hk
      obtain ⟨w, hw, -⟩ := each m there
      exact List.mem_map.2 ⟨_, Members.mem_of_get? hw, rfl⟩
    -- as many keys, none of them twice, so there are no others
    have perm : ms.keys.Perm ns.keys := by
      refine (List.subperm_of_subset hm sub).perm_of_length_le ?_
      simp [Members.keys, length]
    cases hv : ms.get? k with
    | some v =>
      have there := Members.mem_of_get? hv
      obtain ⟨w, hw, values⟩ := each (k, v) there
      rw [hw]
      exact .some ⟨inner _ there, inner' _ (Members.mem_of_get? hw), values⟩
    | none =>
      have absent : ns.get? k = none := by
        rw [Members.get?_eq_none_iff, ← perm.mem_iff, ← Members.get?_eq_none_iff, hv]
      rw [absent]
      exact .none
  · intro h
    refine ⟨distinctKeys_obj_iff.2 ⟨h.left, fun m there => ?_⟩,
      distinctKeys_obj_iff.2 ⟨h.right, fun n there => ?_⟩, ?_⟩
    · obtain ⟨w, -, alike⟩ := h.get?_left ((Members.get?_eq_some_iff h.left).2 there)
      exact alike.left
    · obtain ⟨v, -, alike⟩ := h.get?_right ((Members.get?_eq_some_iff h.right).2 there)
      exact alike.right
    · rw [Json.same, Bool.and_eq_true, beq_iff_eq, membersIn_iff]
      refine ⟨h.length_eq, fun m there => ?_⟩
      obtain ⟨w, hw, alike⟩ := h.get?_left ((Members.get?_eq_some_iff h.left).2 there)
      exact ⟨w, hw, alike.same⟩

theorem Alike.exists_obj (h : (obj ms).Alike b) : ∃ ns, b = obj ns ∧ ms.Alike ns := by
  cases b with
  | obj ns => exact ⟨ns, rfl, alike_obj_iff.1 h⟩
  | _ => cases h.same

theorem Alike.exists_arr {as : List Json} (h : (arr as).Alike b) :
    ∃ bs, b = arr bs ∧ List.Forall₂ Alike as bs := by
  cases b with
  | arr bs => exact ⟨bs, rfl, alike_arr_iff.1 h⟩
  | _ => cases h.same

theorem Alike.exists_num {m : Number} (h : (num m).Alike b) :
    ∃ n, b = num n ∧ m.same n = true := by
  cases b with
  | num n => exact ⟨n, rfl, h.same⟩
  | _ => cases h.same

theorem Alike.eq_null (h : null.Alike b) : b = null := by
  cases b with
  | null => rfl
  | _ => cases h.same

theorem Alike.eq_bool {c : Bool} (h : (bool c).Alike b) : b = bool c := by
  cases b with
  | bool d => exact congrArg bool (eq_of_beq h.same).symm
  | _ => cases h.same

theorem Alike.eq_str {s : String} (h : (str s).Alike b) : b = str s := by
  cases b with
  | str t => exact congrArg str (eq_of_beq h.same).symm
  | _ => cases h.same

/-- Induction over alike values, side by side. -/
theorem Alike.induct {P : Json → Json → Prop} (null : P .null .null)
    (bool : ∀ b, P (.bool b) (.bool b))
    (num : ∀ m n : Number, m.same n = true → P (.num m) (.num n))
    (str : ∀ s, P (.str s) (.str s))
    (arr : ∀ as bs, List.Forall₂ Alike as bs → List.Forall₂ P as bs → P (.arr as) (.arr bs))
    (obj : ∀ ms ns : Members, ms.Alike ns → (∀ k, Option.Rel P (ms.get? k) (ns.get? k)) →
      P (.obj ms) (.obj ns)) (h : a.Alike b) : P a b := by
  induction a using nested generalizing b with
  | null => exact h.eq_null ▸ null
  | bool c => exact h.eq_bool ▸ bool c
  | num m =>
    obtain ⟨n, rfl, same⟩ := h.exists_num
    exact num m n same
  | str s => exact h.eq_str ▸ str s
  | arr as ih =>
    obtain ⟨bs, rfl, items⟩ := h.exists_arr
    refine arr as bs items ?_
    rw [List.forall₂_iff_zip] at items ⊢
    exact ⟨items.1, fun hz => ih _ (List.of_mem_zip hz).1 (items.2 hz)⟩
  | obj ms ih =>
    obtain ⟨ns, rfl, members⟩ := h.exists_obj
    refine obj ms ns members fun k => rel_iff.2 ⟨fun v hv => ?_, fun w hw => ?_⟩
    · obtain ⟨w, hw, alike⟩ := members.get?_left hv
      exact ⟨w, hw, ih k v (Members.mem_of_get? hv) alike⟩
    · obtain ⟨v, hv, alike⟩ := members.get?_right hw
      exact ⟨v, hv, ih k v (Members.mem_of_get? hv) alike⟩

/-! ## The order says nothing -/

theorem alike_refl (h : a.distinctKeys = true) : a.Alike a := by
  induction a using nested with
  | null => exact ⟨h, h, rfl⟩
  | bool b => exact ⟨h, h, beq_self_eq_true b⟩
  | num n => exact ⟨h, h, Number.same_refl n⟩
  | str s => exact ⟨h, h, beq_self_eq_true s⟩
  | arr items ih =>
    rw [distinctKeys, distinctKeysInItems_iff] at h
    exact alike_arr_iff.2 (List.forall₂_same.2 fun v hv => ih v hv (h v hv))
  | obj ms ih =>
    obtain ⟨nodup, inner⟩ := distinctKeys_obj_iff.1 h
    refine alike_obj_iff.2 ⟨nodup, nodup, fun k => ?_⟩
    cases hv : Members.get? ms k with
    | none => exact .none
    | some v =>
      have there := Members.mem_of_get? hv
      exact .some (ih k v there (inner _ there))

theorem Alike.symm (h : a.Alike b) : b.Alike a := by
  refine Alike.induct (P := fun a b => b.Alike a) ?_ ?_ ?_ ?_ ?_ ?_ h
  · exact alike_refl rfl
  · exact fun c => alike_refl rfl
  · exact fun m n same => ⟨rfl, rfl, (Number.same_comm n m).trans same⟩
  · exact fun s => alike_refl rfl
  · exact fun as bs _ ih => alike_arr_iff.2 ih.flip
  · exact fun ms ns members ih =>
      alike_obj_iff.2 ⟨members.right, members.left, fun k => rel_comm (ih k)⟩

/-- What stands in a value has its like in a value that is alike. -/
theorem Alike.exists_inside (h : a.Alike b) (inside : u.Inside a) :
    ∃ w, w.Inside b ∧ u.Alike w := by
  induction inside generalizing b with
  | self => exact ⟨b, .self b, h⟩
  | item hv _ ih =>
    obtain ⟨bs, rfl, items⟩ := h.exists_arr
    obtain ⟨w, hw, alike⟩ := exists_of_forall₂ items hv
    exact (ih alike).imp fun _ there => ⟨.item hw there.1, there.2⟩
  | member hv _ ih =>
    obtain ⟨ns, rfl, members⟩ := h.exists_obj
    obtain ⟨w, hw, alike⟩ := members.get?_left ((Members.get?_eq_some_iff members.left).2 hv)
    exact (ih alike).imp fun _ there => ⟨.member (Members.mem_of_get? hw) there.1, there.2⟩

/-! ## Counting -/

theorem nodesOfItems_eq (items : List Json) : nodesOfItems items = (items.map nodes).sum := by
  induction items with
  | nil => rfl
  | cons v more ih => rw [nodesOfItems, ih, List.map_cons, List.sum_cons]

theorem nodesOfMembers_eq (ms : Members) :
    nodesOfMembers ms = (ms.map fun m => m.2.nodes).sum := by
  induction ms with
  | nil => rfl
  | cons m more ih => rw [nodesOfMembers, ih, List.map_cons, List.sum_cons]

/-- Alike values have as many values in them. -/
theorem Alike.nodes_eq (h : a.Alike b) : a.nodes = b.nodes := by
  refine Alike.induct (P := fun a b => a.nodes = b.nodes) rfl (fun _ => rfl) (fun _ _ _ => rfl)
    (fun _ => rfl) ?_ ?_ h
  · intro as bs _ ih
    rw [nodes, nodes, nodesOfItems_eq, nodesOfItems_eq, map_eq_of_forall₂ ih]
  · intro ms ns members ih
    obtain ⟨os, perm, aligned⟩ := Members.exists_aligned members.left members.right ih
    rw [nodes, nodes, nodesOfMembers_eq, nodesOfMembers_eq, ← (perm.map _).sum_nat,
      map_eq_of_forall₂ (aligned.imp fun _ _ => And.right)]

end Json

theorem Members.Alike.symm {ms ns : Members} (h : ms.Alike ns) : ns.Alike ms :=
  Json.alike_obj_iff.1 (Json.alike_obj_iff.2 h).symm

end FeatureFlags
