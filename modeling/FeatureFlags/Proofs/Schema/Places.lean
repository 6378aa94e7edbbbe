import FeatureFlags.Proofs.Json.Pointee
import FeatureFlags.Proofs.Schema.DataModel

/-!
# Where violations stand

A rule is broken by the value itself or, if it is about members, by something inside one of them; so
every violation that a schema reports has the pointer to a part of the value.
-/

namespace FeatureFlags.Schema

variable {v : Json} {p : Pointer} {x : Violation}

/-- A rule complains about the value itself, or leaves it to the check of one of its members. -/
theorem path_of_mem_checkRule {ms? : Option (List CheckedMember)} {rule : Rule}
    (h : x ∈ checkRule v ms? p rule) : x.path = p ∨
      ∃ ms, ms? = some ms ∧ ∃ m ∈ ms, ∃ schema, x ∈ m.check schema (p.child m.key) := by
  have members : ∀ {declared others ms}, x ∈ checkMembers declared others ms p →
      ∃ m ∈ ms, ∃ schema, x ∈ m.check schema (p.child m.key) := by
    intro declared others ms h
    obtain ⟨m, hm, hx⟩ := List.mem_flatMap.1 h
    exact ⟨m, hm, _, hx⟩
  cases ms? with
  | none => exact .inl (by cases rule <;> grind [checkRule])
  | some ms =>
    cases rule with
    | properties declared =>
      obtain ⟨⟨key, schema⟩, -, hx⟩ := List.mem_flatMap.1 h
      dsimp only at hx
      split at hx
      next m found =>
        obtain rfl : m.key = key := by simpa using List.find?_some found
        exact .inr ⟨ms, rfl, m, List.mem_of_find?_eq_some found, schema, hx⟩
      next => cases hx
    | members declared others => exact .inr ⟨ms, rfl, members h⟩
    | closed declared =>
      rcases List.mem_append.1 h with h | h
      · exact .inr ⟨ms, rfl, members h⟩
      · exact .inl (by grind [checkClosed])
    | empty => exact .inl (by cases ms <;> grind [checkRule])
    | _ => exact .inl (by grind [checkRule])

theorem exists_leads_of_mem_check (defs : Definitions) {schema : Schema}
    (h : x ∈ check defs v schema p) : ∃ u, v.Leads p x.path u := by
  induction v using Json.nested generalizing schema p with
  | obj ms ih =>
    rw [check] at h
    obtain ⟨rule, -, hx⟩ := List.mem_flatMap.1 h
    rcases path_of_mem_checkRule hx with same | ⟨_, members, m, hm, inner, hx⟩
    · exact ⟨_, .of_eq same⟩
    · obtain rfl := Option.some.inj members
      rw [checkedMembers_eq] at hm
      obtain ⟨⟨k, u⟩, hk, rfl⟩ := List.mem_map.1 hm
      exact (ih k u hk hx).imp fun _ => .member hk
  | _ =>
    obtain ⟨rule, -, hx⟩ := List.mem_flatMap.1 h
    rcases path_of_mem_checkRule hx with same | ⟨_, none, -⟩
    · exact ⟨_, .of_eq same⟩
    · cases none

end FeatureFlags.Schema
