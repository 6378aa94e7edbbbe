import FeatureFlags.Proofs.Json.Address
import FeatureFlags.Proofs.Reference.Mentions
import FeatureFlags.Proofs.Reference.Places
import Mathlib.Data.List.Basic

/-!
# The search for references is exact

In a value that repeats no key, the references found stand for the positions of the objects with a
text under `$ref`, one for one: each has the text there as its name and a pointer that reads to the
position, no position is missed or met twice, and they come as the positions stand in the document
(`references_exact`). The search goes down below markers too, so an object inside a marker counts.

`references_eq` turns the search into one step and a search of each part below; whether two
references are in order is then a matter of the step that takes them apart
(`pairwise_references`).
-/

namespace FeatureFlags.Json

variable {document v : Json} {p q : Pointer} {a b : Address} {name : String}

/-- An object with this text under `$ref` stands at the address. -/
def RefersAt (v : Json) (a : Address) (name : String) : Prop :=
  ∃ ms : Members, v.part? a = some (.obj ms) ∧ ms.get? refKey = some (.str name)

/-- The references that a value makes by itself. -/
def referencesHere : Json → Pointer → List Reference
  | .obj ms, p => ownReference ms p
  | _, _ => []

theorem referencesInItems_eq (items : List Json) (p : Pointer) (i : Nat) :
    referencesInItems items p i =
      (items.mapIdx fun j v => (p.item (i + j), v)).flatMap fun c => c.2.references c.1 := by
  induction items generalizing i with
  | nil => rfl
  | cons v more ih =>
    simp [referencesInItems, ih, List.mapIdx_cons, Nat.add_comm, Nat.add_left_comm]

theorem referencesInMembers_eq (ms : List (String × Json)) (p : Pointer) :
    referencesInMembers ms p = ms.flatMap fun m => m.2.references (p.child m.1) := by
  induction ms with
  | nil => rfl
  | cons m more ih => rw [referencesInMembers, ih, List.flatMap_cons]

/-- What a value refers to by itself, and then what the parts below refer to. -/
theorem references_eq (v : Json) (p : Pointer) : v.references p =
    v.referencesHere p ++ (v.steps p).flatMap fun c => c.2.references c.1 := by
  cases v with
  | obj ms => simp [references, referencesHere, steps, referencesInMembers_eq, List.flatMap_map]
  | arr items => simp [references, referencesHere, steps, referencesInItems_eq]
  | null | bool | num | str => simp [references, referencesHere, steps]

theorem path_of_mem_referencesHere {r : Reference} (h : r ∈ v.referencesHere p) : r.path = p := by
  cases v with
  | obj ms => exact (mem_ownReference.1 h).2
  | _ => cases h

/-- A value makes no two references by itself. -/
theorem pairwise_referencesHere {R : Reference → Reference → Prop} (v : Json) (p : Pointer) :
    (v.referencesHere p).Pairwise R := by
  cases v with
  | obj ms =>
    simp only [referencesHere, ownReference]
    split
    · exact List.pairwise_singleton _ _
    · exact .nil
  | _ => exact .nil

/-! ## Each where it stands -/

/-- A reference found is made by the object that its pointer reads to. -/
theorem refersAt_of_mem_references {r : Reference} (distinct : document.distinctKeys = true)
    (here : document.address? p = some b) (stands : document.part? b = some v)
    (h : r ∈ v.references p) :
    ∃ a, v.RefersAt a r.name ∧ document.address? r.path = some (b ++ a) := by
  obtain ⟨ms, leads, there⟩ := mem_references.1 h
  obtain ⟨a, part, reads⟩ := leads.exists_part distinct here stands
  exact ⟨a, ⟨ms, part, there⟩, reads⟩

/-- An object that refers to a name is found, with a pointer that reads to it. -/
theorem exists_mem_references (distinct : document.distinctKeys = true)
    (here : document.address? p = some b) (stands : document.part? b = some v)
    (h : v.RefersAt a name) :
    ∃ r ∈ v.references p, r.name = name ∧ document.address? r.path = some (b ++ a) := by
  obtain ⟨ms, part, there⟩ := h
  obtain ⟨q, leads, reads⟩ := exists_leads_of_part? part distinct here stands
  exact ⟨⟨name, q⟩, mem_references.2 ⟨ms, leads, there⟩, rfl, reads⟩

/-! ## In document order -/

/-- The pointers of two references read to positions of which the first comes first. -/
def InOrder (document : Json) (r s : Reference) : Prop :=
  ∃ a b, document.address? r.path = some a ∧ document.address? s.path = some b ∧ a < b

/-- References are found in the order in which their objects stand in the document. -/
theorem pairwise_references (distinct : document.distinctKeys = true)
    (here : document.address? p = some b) (stands : document.part? b = some v) :
    (v.references p).Pairwise document.InOrder := by
  induction v using by_children generalizing p b with | step v ih =>
  -- what is found one step below reads to an address through that step
  have below : ∀ {i : Nat} {c : Pointer × Json} {r : Reference}, (v.steps p)[i]? = some c →
      r ∈ c.2.references c.1 → ∃ a, document.address? r.path = some (b ++ i :: a) := by
    intro i c r step hr
    obtain ⟨reads, part⟩ := address?_step distinct here stands step
    obtain ⟨a, -, ends⟩ := refersAt_of_mem_references distinct reads part hr
    exact ⟨a, by simpa using ends⟩
  rw [references_eq, List.pairwise_append, List.pairwise_flatMap]
  refine ⟨pairwise_referencesHere v p, ⟨?inner, ?across⟩, ?own⟩
  case inner =>
    intro c hc
    obtain ⟨i, step⟩ := List.getElem?_of_mem hc
    obtain ⟨reads, part⟩ := address?_step distinct here stands step
    exact ih c.2 (map_steps v p ▸ List.mem_map_of_mem hc) reads part
  case across =>
    refine List.pairwise_iff_getElem.2 fun i j hi hj first r hr s hs => ?_
    obtain ⟨a, hr⟩ := below (List.getElem?_eq_getElem hi) hr
    obtain ⟨c, hs⟩ := below (List.getElem?_eq_getElem hj) hs
    exact ⟨_, _, hr, hs, List.append_left_lt (List.cons_lt_cons_iff.2 (.inl first))⟩
  case own =>
    intro r hr s hs
    obtain ⟨c, hc, hs⟩ := List.mem_flatMap.1 hs
    obtain ⟨i, step⟩ := List.getElem?_of_mem hc
    obtain ⟨a, hs⟩ := below step hs
    rw [← path_of_mem_referencesHere hr] at here
    have later : b ++ [] < b ++ i :: a := List.append_left_lt (List.nil_lt_cons i a)
    exact ⟨b, _, here, hs, by simpa using later⟩

/-! ## From another pointer -/

theorem referencesHere_append (v : Json) (p q : Pointer) : v.referencesHere (q ++ p) =
    (v.referencesHere p).map fun r => ⟨r.name, q ++ r.path⟩ := by
  cases v with
  | obj ms =>
    simp only [referencesHere, ownReference]
    split <;> rfl
  | _ => rfl

/-- A search from a longer pointer finds the same references, with longer pointers. -/
theorem references_append (v : Json) (p q : Pointer) : v.references (q ++ p) =
    (v.references p).map fun r => ⟨r.name, q ++ r.path⟩ := by
  induction v using by_children generalizing p with
  | step v ih =>
    rw [references_eq, references_eq v p, referencesHere_append, steps_append, List.flatMap_map,
      List.map_append, List.map_flatMap]
    refine congrArg _ (List.flatMap_congr fun c hc => ?_)
    exact ih c.2 (map_steps v p ▸ List.mem_map_of_mem hc) c.1

/-- The references found are those of the objects with a text under `$ref`, one for each position,
in document order; each pointer reads to the position, so no two are the same. Starting at another
pointer only puts it in front. -/
theorem references_exact (distinct : v.distinctKeys = true) :
    (∃ found : List (Address × Reference),
      found.map (·.2) = v.references "" ∧ found.Pairwise (·.1 < ·.1) ∧
      (∀ a name, v.RefersAt a name ↔ ∃ x ∈ found, x.1 = a ∧ x.2.name = name) ∧
      ∀ x ∈ found, v.address? x.2.path = some x.1 ∧ v.pointee? x.2.path = v.part? x.1) ∧
    ((v.references "").map (·.path)).Nodup ∧
    ∀ q, v.references q = (v.references "").map fun r => ⟨r.name, q ++ r.path⟩ := by
  have reads : ∀ r ∈ v.references "", ∃ a, v.RefersAt a r.name ∧ v.address? r.path = some a :=
    fun r hr => refersAt_of_mem_references distinct (address?_root v) rfl hr
  have ordered : (v.references "").Pairwise v.InOrder :=
    pairwise_references distinct (address?_root v) rfl
  let where' (r : Reference) : Address := (v.address? r.path).getD []
  refine ⟨⟨(v.references "").map fun r => (where' r, r), ?_, ?_, ?_, ?_⟩, ?_, ?_⟩
  · simp [Function.comp_def]
  · refine List.pairwise_map.2 (ordered.imp ?_)
    rintro r s ⟨a, b, hr, hs, first⟩
    simpa [where', hr, hs] using first
  · intro a name
    constructor
    · intro h
      obtain ⟨r, hr, rfl, ends⟩ := exists_mem_references distinct (address?_root v) rfl h
      exact ⟨_, List.mem_map_of_mem hr, by simp [where', ends], rfl⟩
    · rintro ⟨x, hx, rfl, rfl⟩
      obtain ⟨r, hr, rfl⟩ := List.mem_map.1 hx
      obtain ⟨a, refers, ends⟩ := reads r hr
      simpa [where', ends] using refers
  · intro x hx
    obtain ⟨r, hr, rfl⟩ := List.mem_map.1 hx
    obtain ⟨a, -, ends⟩ := reads r hr
    simp [where', pointee?_eq, ends]
  · refine List.pairwise_map.2 (ordered.imp ?_)
    rintro r s ⟨a, b, hr, hs, first⟩ same
    rw [same, hs] at hr
    obtain rfl := Option.some.inj hr
    exact List.lt_irrefl _ first
  · intro q
    simpa using references_append v "" q

/-- Objects with `$ref` beside other keys, one inside another; among the keys are an empty one, a
number, and some that have to be escaped or look as if they were. -/
def nestedReferences : Json :=
  .obj [
    (refKey, .str "outer"),
    ("a/b", .obj [("~1", .obj [(refKey, .str "inner"), ("0", .arr [.null, marker "deep"])])]),
    ("", .arr [.obj [(refKey, .null), ("1", marker "last")]])]

/-- Every object with a text under `$ref` is found, with its own pointer. -/
theorem nestedReferences_exact :
    (nestedReferences.references "").map
        (fun r => (r.name, r.path, nestedReferences.address? r.path)) =
      [("outer", "", some []), ("inner", "/a~1b/~01", some [1, 0]),
        ("deep", "/a~1b/~01/0/1", some [1, 0, 1, 1]), ("last", "//0/1", some [2, 0, 1])] ∧
    ((nestedReferences.references "").map (·.path)).Nodup ∧
    ∀ a name, nestedReferences.RefersAt a name →
      ∃ r ∈ nestedReferences.references "", r.name = name ∧
        nestedReferences.address? r.path = some a := by
  obtain ⟨⟨found, listed, -, complete, reads⟩, nodup, -⟩ :=
    references_exact (show nestedReferences.distinctKeys = true by decide +kernel)
  refine ⟨by decide +kernel, nodup, fun a name h => ?_⟩
  obtain ⟨x, hx, rfl, rfl⟩ := (complete a name).1 h
  exact ⟨x.2, listed ▸ List.mem_map_of_mem hx, rfl, (reads x hx).1⟩

end FeatureFlags.Json
