import FeatureFlags.Proofs.Json.Pointee

/-!
# Positions in a value

A position is told by the places to go down at, whatever stands there: two equal parts of a value
have two addresses, and the lexicographic order of addresses is the order in which the parts stand
in the document. `Json.address?` reads a pointer to a position, and `pointee?_eq` says that the
pointer leads to the part there.

In a value that repeats no key, a pointer that is extended along the value reads as the address
extended in the same way (`address?_step`), so what `Json.Leads` reaches and what stands at an
address are the same (`Leads.exists_part`, `exists_leads_of_part?`).
-/

namespace FeatureFlags

/-- The places to go down at, outermost first. -/
abbrev Address : Type := List Nat

namespace Json

variable {document u v : Json} {p q : Pointer} {a b : Address}

/-- The parts one step below a value, in document order. -/
def children : Json → List Json
  | .arr items => items
  | .obj ms => ms.map (·.2)
  | _ => []

/-- The part of a value at an address. -/
def part? (v : Json) : Address → Option Json
  | [] => some v
  | i :: more => v.children[i]?.bind (·.part? more)

/-- The place among the parts one step below that a key of a pointer stands for. -/
def ordinal? : Json → String → Option Nat
  | .obj ms, key => ms.findIdx? (·.1 == key)
  | .arr items, key => (Pointer.index? key).filter (· < items.length)
  | _, _ => none

/-- The address that the keys of a pointer stand for. -/
def locate? (v : Json) : List String → Option Address
  | [] => some []
  | key :: more =>
    (v.ordinal? key).bind fun i => v.children[i]?.bind fun u => (u.locate? more).map (i :: ·)

/-- The address that a pointer leads to. -/
def address? (v : Json) (p : Pointer) : Option Address :=
  (Pointer.keys? p).bind v.locate?

/-- The parts one step below a value at a pointer, in document order, with their pointers. -/
def steps : Json → Pointer → List (Pointer × Json)
  | .arr items, p => items.mapIdx fun i v => (p.item i, v)
  | .obj ms, p => ms.map fun m => (p.child m.1, m.2)
  | _, _ => []

theorem map_steps (v : Json) (p : Pointer) : (v.steps p).map (·.2) = v.children := by
  cases v with
  | arr items => exact List.ext_getElem? fun i => by simp [steps, children, Function.comp_def]
  | obj ms => simp [steps, children, Function.comp_def]
  | null | bool | num | str => rfl

theorem getElem?_steps_arr {items : List Json} {i : Nat} :
    ((Json.arr items).steps p)[i]? = some (q, u) ↔ items[i]? = some u ∧ q = p.item i := by
  simp [steps, eq_comm (a := q)]

theorem getElem?_steps_obj {ms : Members} {i : Nat} :
    ((Json.obj ms).steps p)[i]? = some (q, u) ↔ ∃ k, ms[i]? = some (k, u) ∧ q = p.child k := by
  simp [steps, eq_comm (a := q)]

theorem steps_append (v : Json) (p q : Pointer) :
    v.steps (q ++ p) = (v.steps p).map fun c => (q ++ c.1, c.2) := by
  cases v with
  | arr items =>
    exact List.ext_getElem? fun i => by
      simp [steps, Pointer.item, String.append_assoc, Function.comp_def]
  | obj ms => simp [steps, Pointer.child, String.append_assoc]
  | null | bool | num | str => rfl

/-- Induction over values by what stands one step below. -/
@[elab_as_elim]
theorem by_children {P : Json → Prop} (step : ∀ v, (∀ u ∈ v.children, P u) → P v) : ∀ v, P v := by
  intro v
  induction v using nested with
  | null | bool | num | str => exact step _ nofun
  | arr items ih => exact step _ ih
  | obj ms ih =>
    refine step _ fun u hu => ?_
    obtain ⟨m, hm, rfl⟩ := List.mem_map.1 hu
    exact ih m.1 m.2 hm

theorem part?_append (v : Json) (a b : Address) :
    v.part? (a ++ b) = (v.part? a).bind (·.part? b) := by
  induction a generalizing v with
  | nil => rfl
  | cons i more ih =>
    simp only [List.cons_append, part?]
    cases v.children[i]? with
    | none => rfl
    | some u => exact ih u

theorem inside_of_part? (h : v.part? a = some u) : u.Inside v := by
  induction a generalizing v with
  | nil =>
    obtain rfl := Option.some.inj h
    exact .self _
  | cons i more ih =>
    obtain ⟨w, child, below⟩ := Option.bind_eq_some_iff.1 h
    have there := List.mem_of_getElem? child
    cases v with
    | arr items => exact .item there (ih below)
    | obj ms =>
      obtain ⟨m, hm, rfl⟩ := List.mem_map.1 there
      exact .member hm (ih below)
    | null | bool | num | str => cases there

/-! ## Pointers as addresses -/

/-- The step of a pointer is the part at the place that its key stands for. -/
theorem step?_eq (v : Json) (key : String) :
    v.step? key = (v.ordinal? key).bind (v.children[·]?) := by
  cases v with
  | obj ms =>
    simp only [step?, Members.get?, ordinal?, children, List.find?_eq_bind_findIdx?_getElem?,
      Option.map_bind, List.getElem?_map]
    rfl
  | arr items =>
    simp only [step?, ordinal?, children]
    cases Pointer.index? key with
    | none => rfl
    | some i =>
      rcases Nat.lt_or_ge i items.length with inside | outside
      · simp [Option.filter, inside]
      · simp [Option.filter, Nat.not_lt.2 outside]
  | null | bool | num | str => rfl

theorem follow?_eq (v : Json) (ks : List String) :
    v.follow? ks = (v.locate? ks).bind v.part? := by
  induction ks generalizing v with
  | nil => rfl
  | cons key more ih =>
    rw [follow?, step?_eq, locate?]
    cases v.ordinal? key with
    | none => rfl
    | some i =>
      simp only [Option.bind_some]
      cases child : v.children[i]? with
      | none => rfl
      | some u =>
        simp only [Option.bind_some, ih u]
        cases u.locate? more with
        | none => rfl
        | some a => simp [part?, child]

/-- A pointer leads to the part at its address. -/
theorem pointee?_eq (v : Json) (p : Pointer) : v.pointee? p = (v.address? p).bind v.part? := by
  unfold pointee? address?
  cases Pointer.keys? p with
  | none => rfl
  | some ks => exact follow?_eq v ks

@[simp]
theorem address?_root (v : Json) : v.address? "" = some [] := rfl

theorem locate?_append {ks : List String} (js : List String) (here : v.locate? ks = some a)
    (stands : v.part? a = some u) : v.locate? (ks ++ js) = (u.locate? js).map (a ++ ·) := by
  induction ks generalizing v a with
  | nil =>
    cases here
    cases stands
    simp
  | cons key more ih =>
    obtain ⟨i, ordinal, here⟩ := Option.bind_eq_some_iff.1 here
    obtain ⟨w, child, here⟩ := Option.bind_eq_some_iff.1 here
    obtain ⟨c, inner, rfl⟩ := Option.map_eq_some_iff.1 here
    have below : w.part? c = some u := by simpa [part?, child] using stands
    simp [locate?, ordinal, child, ih inner below, Function.comp_def]

/-- A pointer that is extended by a key reads as the address extended by the key's place. -/
theorem address?_extend {key : String} {i : Nat} (here : document.address? p = some b)
    (stands : document.part? b = some v) (ordinal : v.ordinal? key = some i)
    (child : v.children[i]? = some u)
    (step : ∀ ks, Pointer.keys? p = some ks → Pointer.keys? q = some (ks ++ [key])) :
    document.address? q = some (b ++ [i]) := by
  obtain ⟨ks, hks, here⟩ := Option.bind_eq_some_iff.1 here
  simp [address?, step ks hks, locate?_append [key] here stands, locate?, ordinal, child]

theorem ordinal?_member {ms : Members} {i : Nat} {m : String × Json} (nodup : ms.keys.Nodup)
    (h : ms[i]? = some m) : (Json.obj ms).ordinal? m.1 = some i := by
  obtain ⟨hi, rfl⟩ := List.getElem?_eq_some_iff.1 h
  refine List.findIdx?_eq_some_iff_getElem.2 ⟨hi, by simp, fun j hj => ?_⟩
  have differ := List.pairwise_iff_getElem.1 (List.pairwise_map.1 nodup) j i (by omega) hi hj
  simpa using differ

theorem ordinal?_item {items : List Json} {i : Nat} (h : i < items.length) :
    (Json.arr items).ordinal? (toString i) = some i := by
  simp only [ordinal?, Pointer.index?_toString]
  simp [h]

/-- If no key is repeated, going one step down extends the pointer and the address alike. -/
theorem address?_step {i : Nat} (distinct : document.distinctKeys = true)
    (here : document.address? p = some b) (stands : document.part? b = some v)
    (h : (v.steps p)[i]? = some (q, u)) :
    document.address? q = some (b ++ [i]) ∧ document.part? (b ++ [i]) = some u := by
  have child : v.children[i]? = some u := by
    rw [← map_steps v p, List.getElem?_map, h]
    rfl
  refine ⟨?_, by simp [part?_append, stands, part?, child]⟩
  cases v with
  | obj ms =>
    have nodup := (distinctKeys_obj_iff.1 ((inside_of_part? stands).distinctKeys distinct)).1
    obtain ⟨k, hm, rfl⟩ := getElem?_steps_obj.1 h
    exact address?_extend here stands (ordinal?_member nodup hm) child
      fun _ hks => Pointer.keys?_child hks _
  | arr items =>
    obtain ⟨hi, rfl⟩ := getElem?_steps_arr.1 h
    exact address?_extend here stands (ordinal?_item (List.getElem?_eq_some_iff.1 hi).1) child
      fun _ hks => Pointer.keys?_item hks _
  | null | bool | num | str => simp [steps] at h

/-! ## Along a value -/

theorem Leads.of_step {i : Nat} {r : Pointer} {w : Json} (step : (v.steps p)[i]? = some (r, w))
    (inner : w.Leads r q u) : v.Leads p q u := by
  cases v with
  | obj ms =>
    obtain ⟨k, hm, rfl⟩ := getElem?_steps_obj.1 step
    exact .member (List.mem_of_getElem? hm) inner
  | arr items =>
    obtain ⟨hi, rfl⟩ := getElem?_steps_arr.1 step
    exact .item hi inner
  | null | bool | num | str => simp [steps] at step

/-- Induction along a value, from the part back to the whole, one step at a time. -/
@[elab_as_elim]
theorem Leads.by_steps {P : ∀ v p, v.Leads p q u → Prop} (self : P u q (.self u q))
    (step : ∀ {v w : Json} {p r : Pointer} {i : Nat} (step : (v.steps p)[i]? = some (r, w))
      (inner : w.Leads r q u), P w r inner → P v p (inner.of_step step))
    (h : v.Leads p q u) : P v p h := by
  induction h with
  | self => exact self
  | item hi inner ih => exact step (getElem?_steps_arr.2 ⟨hi, rfl⟩) inner (ih self step)
  | member hm inner ih =>
    obtain ⟨i, hi⟩ := List.getElem?_of_mem hm
    exact step (getElem?_steps_obj.2 ⟨_, hi, rfl⟩) inner (ih self step)

/-- A part that a pointer was extended for stands where the pointer reads to. -/
theorem Leads.exists_part (h : v.Leads p q u) (distinct : document.distinctKeys = true)
    (here : document.address? p = some b) (stands : document.part? b = some v) :
    ∃ a, v.part? a = some u ∧ document.address? q = some (b ++ a) := by
  induction h using Leads.by_steps generalizing b with
  | self => exact ⟨[], rfl, by simpa using here⟩
  | @step v w p r i step inner ih =>
    obtain ⟨reads, part⟩ := address?_step distinct here stands step
    obtain ⟨a, below, ends⟩ := ih reads part
    have child : v.children[i]? = some w := by
      rw [← map_steps v p, List.getElem?_map, step]
      rfl
    exact ⟨i :: a, by simp [part?, child, below], by simpa using ends⟩

/-- Every part has a pointer that was extended for it and reads to where it stands. -/
theorem exists_leads_of_part? (h : v.part? a = some u) (distinct : document.distinctKeys = true)
    (here : document.address? p = some b) (stands : document.part? b = some v) :
    ∃ q, v.Leads p q u ∧ document.address? q = some (b ++ a) := by
  induction a generalizing v p b with
  | nil =>
    obtain rfl := Option.some.inj h
    exact ⟨p, .self _ _, by simpa using here⟩
  | cons i more ih =>
    obtain ⟨w, child, below⟩ := Option.bind_eq_some_iff.1 h
    rw [← map_steps v p, List.getElem?_map] at child
    obtain ⟨⟨r, w⟩, step, rfl⟩ := Option.map_eq_some_iff.1 child
    obtain ⟨reads, part⟩ := address?_step distinct here stands step
    obtain ⟨q, leads, ends⟩ := ih below reads part
    exact ⟨q, .of_step step leads, by simpa using ends⟩

end Json

end FeatureFlags
