import FeatureFlags.Proofs.Json.Inside

/-!
# Equality of values is decidable

Unlike `Json.same`, this equality keeps the order of members and tells the two zeros apart: it is
that of the values themselves, so what a text is read as can be decided.
-/

namespace FeatureFlags.Json

mutual

/-- Whether two values are the same in every detail. -/
def identical : Json → Json → Bool
  | .null, .null => true
  | .bool a, .bool b => decide (a = b)
  | .num a, .num b => decide (a = b)
  | .str a, .str b => decide (a = b)
  | .arr as, .arr bs => identicalItems as bs
  | .obj as, .obj bs => identicalMembers as bs
  | _, _ => false

def identicalItems : List Json → List Json → Bool
  | [], [] => true
  | a :: as, b :: bs => identical a b && identicalItems as bs
  | _, _ => false

def identicalMembers : List (String × Json) → List (String × Json) → Bool
  | [], [] => true
  | (k, a) :: as, (l, b) :: bs => decide (k = l) && identical a b && identicalMembers as bs
  | _, _ => false

end

theorem identicalItems_iff {as : List Json} (ih : ∀ a ∈ as, ∀ b, a.identical b = true ↔ a = b)
    {bs : List Json} : identicalItems as bs = true ↔ as = bs := by
  induction as generalizing bs with
  | nil => cases bs <;> simp [identicalItems]
  | cons a as more =>
    obtain ⟨first, rest⟩ := List.forall_mem_cons.1 ih
    cases bs with
    | nil => simp [identicalItems]
    | cons b bs => simp [identicalItems, first, more rest]

theorem identicalMembers_iff {as : Members}
    (ih : ∀ k a, (k, a) ∈ as → ∀ b, a.identical b = true ↔ a = b) {bs : Members} :
    identicalMembers as bs = true ↔ as = bs := by
  induction as generalizing bs with
  | nil => cases bs <;> simp [identicalMembers]
  | cons m as more =>
    have first := ih m.1 m.2 List.mem_cons_self
    have rest := fun k a h => ih k a (List.mem_cons_of_mem _ h)
    cases bs with
    | nil => simp [identicalMembers]
    | cons b bs => simp [identicalMembers, first, more rest, Prod.ext_iff]

theorem identical_iff {a b : Json} : a.identical b = true ↔ a = b := by
  induction a using nested generalizing b with
  | null | bool | num | str => cases b <;> simp [identical]
  | arr as ih =>
    cases b with
    | arr bs => simp [identical, identicalItems_iff fun a ha b => @ih a ha b]
    | _ => simp [identical]
  | obj as ih =>
    cases b with
    | obj bs => simp [identical, identicalMembers_iff fun k a ha b => @ih k a ha b]
    | _ => simp [identical]

instance : DecidableEq Json := fun _ _ => decidable_of_iff _ identical_iff

end FeatureFlags.Json
