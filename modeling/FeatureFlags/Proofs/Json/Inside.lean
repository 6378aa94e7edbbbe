import FeatureFlags.Json.Basic

/-!
# Values inside values

`Json.Inside` relates a value to everything that stands in it, at any depth. `Json.nested` is
induction over values as they are nested: a container has the property if all it holds does.
-/

namespace FeatureFlags.Json

theorem sizeOf_lt_arr {v : Json} {items : List Json} (h : v ∈ items) :
    sizeOf v < sizeOf (Json.arr items) := by
  have := List.sizeOf_lt_of_mem h
  simp only [Json.arr.sizeOf_spec]
  omega

theorem sizeOf_lt_obj {k : String} {v : Json} {ms : List (String × Json)} (h : (k, v) ∈ ms) :
    sizeOf v < sizeOf (Json.obj ms) := by
  have := List.sizeOf_lt_of_mem h
  simp only [Json.obj.sizeOf_spec, Prod.mk.sizeOf_spec] at this ⊢
  omega

/-- Induction over values as they are nested. -/
@[elab_as_elim]
theorem nested {P : Json → Prop} (null : P .null) (bool : ∀ b, P (.bool b)) (num : ∀ n, P (.num n))
    (str : ∀ s, P (.str s)) (arr : ∀ items, (∀ v ∈ items, P v) → P (.arr items))
    (obj : ∀ ms : Members, (∀ k v, (k, v) ∈ ms → P v) → P (.obj ms)) : ∀ v, P v
  | .null => null
  | .bool b => bool b
  | .num n => num n
  | .str s => str s
  | .arr items => arr items fun v _ => nested null bool num str arr obj v
  | .obj ms => obj ms fun _ v _ => nested null bool num str arr obj v
termination_by v => sizeOf v
decreasing_by
  · exact sizeOf_lt_arr ‹_›
  · exact sizeOf_lt_obj ‹_›

/-- A value that is another, or stands in it at any depth. -/
inductive Inside : Json → Json → Prop
  | self (v : Json) : Inside v v
  | item {u v : Json} {items : List Json} : v ∈ items → Inside u v → Inside u (.arr items)
  | member {u v : Json} {k : String} {ms : Members} :
      (k, v) ∈ ms → Inside u v → Inside u (.obj ms)

theorem Inside.trans {u v w : Json} (h : Inside u v) (outer : Inside v w) : Inside u w := by
  induction outer with
  | self => exact h
  | item hm _ ih => exact .item hm ih
  | member hm _ ih => exact .member hm ih

end FeatureFlags.Json
