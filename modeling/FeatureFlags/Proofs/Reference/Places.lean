import FeatureFlags.Proofs.Json.Pointee
import FeatureFlags.Reference.Marker

/-!
# Where references stand

The search for references reports each object with a text under `$ref`, with the pointer that leads
to it (`mem_references`), and no others. So a value has a reference to a name if and only if it
refers to it (`exists_reference_iff`), wherever the search starts.
-/

namespace FeatureFlags.Json

variable {r : Reference} {p : Pointer}

theorem mem_referencesInItems {items : List Json} {i : Nat} : r ∈ referencesInItems items p i ↔
    ∃ (j : Nat) (v : Json), items[j]? = some v ∧ r ∈ v.references (p.item (i + j)) := by
  induction items generalizing i with
  | nil => simp [referencesInItems]
  | cons v more ih =>
    rw [referencesInItems, List.mem_append, ih]
    constructor
    · rintro (h | ⟨j, u, hj, hr⟩)
      · exact ⟨0, v, rfl, h⟩
      · exact ⟨j + 1, u, hj, by rwa [Nat.add_right_comm] at hr⟩
    · rintro ⟨j, u, hj, hr⟩
      cases j with
      | zero =>
        obtain rfl := Option.some.inj hj
        exact .inl hr
      | succ j => exact .inr ⟨j, u, hj, by rwa [Nat.add_right_comm]⟩

theorem mem_referencesInMembers {ms : List (String × Json)} : r ∈ referencesInMembers ms p ↔
    ∃ (k : String) (v : Json), (k, v) ∈ ms ∧ r ∈ v.references (p.child k) := by
  induction ms with
  | nil => simp [referencesInMembers]
  | cons m more ih =>
    rw [referencesInMembers, List.mem_append, ih]
    constructor
    · rintro (h | ⟨k, v, hm, hr⟩)
      · exact ⟨m.1, m.2, List.mem_cons_self, h⟩
      · exact ⟨k, v, List.mem_cons_of_mem _ hm, hr⟩
    · rintro ⟨k, v, hm, hr⟩
      rcases List.mem_cons.1 hm with rfl | hm
      · exact .inl hr
      · exact .inr ⟨k, v, hm, hr⟩

theorem mem_ownReference {ms : Members} :
    r ∈ ownReference ms p ↔ ms.get? refKey = some (.str r.name) ∧ r.path = p := by
  obtain ⟨name, q⟩ := r
  unfold ownReference
  split
  next there => simp [there, eq_comm]
  next other => simpa using fun there => absurd there (other name)

/-- A reference is found for each object inside the value that makes one, where it stands. -/
theorem mem_references {v : Json} : r ∈ v.references p ↔
    ∃ ms : Members, v.Leads p r.path (.obj ms) ∧ ms.get? refKey = some (.str r.name) := by
  constructor
  · intro h
    induction v using nested generalizing p with
    | null | bool | num | str => simp [references] at h
    | arr items ih =>
      rw [references, mem_referencesInItems] at h
      obtain ⟨j, v, hj, hr⟩ := h
      obtain ⟨ms, leads, there⟩ := ih v (List.mem_of_getElem? hj) hr
      exact ⟨ms, .item hj (by simpa using leads), there⟩
    | obj ms ih =>
      rw [references, List.mem_append, mem_ownReference, mem_referencesInMembers] at h
      rcases h with ⟨there, same⟩ | ⟨k, v, hm, hr⟩
      · exact ⟨ms, same ▸ .self _ _, there⟩
      · obtain ⟨inner, leads, there⟩ := ih k v hm hr
        exact ⟨inner, .member hm leads, there⟩
  · rintro ⟨ms, leads, there⟩
    generalize hu : Json.obj ms = u, hq : r.path = q at leads
    induction leads with
    | self =>
      subst hu
      rw [references, List.mem_append, mem_ownReference]
      exact .inl ⟨there, hq⟩
    | item hj _ ih =>
      rw [references, mem_referencesInItems]
      exact ⟨_, _, hj, by simpa using ih hu hq⟩
    | member hm _ ih =>
      rw [references, List.mem_append, mem_referencesInMembers]
      exact .inr ⟨_, _, hm, ih hu hq⟩

/-- An object with this text under `$ref` is the value or stands in it. -/
def RefersTo (v : Json) (name : String) : Prop :=
  ∃ ms : Members, Inside (.obj ms) v ∧ ms.get? refKey = some (.str name)

theorem exists_reference_iff {v : Json} {name : String} (p : Pointer) :
    (∃ r ∈ v.references p, r.name = name) ↔ v.RefersTo name := by
  constructor
  · rintro ⟨r, hr, rfl⟩
    obtain ⟨ms, leads, there⟩ := mem_references.1 hr
    exact ⟨ms, leads.inside, there⟩
  · rintro ⟨ms, inside, there⟩
    obtain ⟨q, leads⟩ := inside.exists_leads p
    exact ⟨⟨name, q⟩, mem_references.2 ⟨ms, leads, there⟩, rfl⟩

end FeatureFlags.Json
