import FeatureFlags.Flag.Basic
import FeatureFlags.Proofs.Json.Members
import FeatureFlags.Schema.Bundled

/-!
# The documents that the bundled schema admits

A rule without references is checked by what it says about the value (`check_types`,
`check_among`) or about its members, key by key or one by one. Put together for the bundled
schema, a document breaks no rule if it is a document of the data model: `Members.IsDocument`,
with `Members.IsFlag` for each flag and `Json.IsMetadata` for metadata.
-/

namespace FeatureFlags

namespace Members

/-- The member under a key has a property, if it is there. -/
def IfPresent (ms : Members) (key : String) (P : Json → Prop) : Prop :=
  ∀ v, ms.get? key = some v → P v

theorem ifPresent_and_has {ms : Members} {key : String} {P : Json → Prop} :
    ms.IfPresent key P ∧ ms.has key = true ↔ ∃ v, ms.get? key = some v ∧ P v := by
  rw [has_iff]
  constructor
  · rintro ⟨holds, v, there⟩
    exact ⟨v, there, holds v there⟩
  · rintro ⟨v, there, holds⟩
    refine ⟨fun u hu => ?_, v, there⟩
    rw [there] at hu
    exact Option.some.inj hu ▸ holds

end Members

/-- The value is an object. -/
def Json.IsObject (v : Json) : Prop := ∃ ms, v = .obj ms

/-! ## Rule by rule -/

namespace Schema

variable {defs : Definitions} {v : Json} {ms : Members} {path : Pointer}

theorem inline_cons (rule : Rule) (rules : Schema) (depth : Nat) :
    inline defs depth (rule :: rules) = inline defs depth [rule] ++ inline defs depth rules := by
  cases depth <;> simp [inline]

/-- Rules are checked one by one. -/
theorem check_cons {rule : Rule} {rules : Schema} : check defs v (rule :: rules) path = [] ↔
    check defs v [rule] path = [] ∧ check defs v rules path = [] := by
  cases v <;> simp only [check, inline_cons rule rules, List.flatMap_append, List.append_eq_nil_iff]

/-- A reference stands for what it points at. -/
theorem check_ref {p : Pointer} {rules : Schema}
    (points : inline defs defs.length [.ref p] = inline defs defs.length rules) :
    check defs v [.ref p] path = check defs v rules path := by
  cases v <;> simp only [check, points]

theorem inline_singleton {rule : Rule} (plain : ∀ p, rule ≠ .ref p) (depth : Nat) :
    inline defs depth [rule] = [rule] := by
  cases depth with
  | zero => rfl
  | succ depth =>
    cases rule with
    | ref p => exact absurd rfl (plain p)
    | _ => rfl

theorem checkedMembers_eq (ms : Members) :
    checkedMembers defs ms = ms.map fun m => ⟨m.1, m.2, check defs m.2⟩ := by
  induction ms with
  | nil => rfl
  | cons m more ih => simp [checkedMembers, ih]

theorem check_obj {rule : Rule} (plain : ∀ p, rule ≠ .ref p) : check defs (.obj ms) [rule] path =
    checkRule (.obj ms) (some (checkedMembers defs ms)) path rule := by
  simp [check, inline_singleton plain]

theorem check_types {types : List TypeName} :
    check defs v [.types types] path = [] ↔ types.any (·.admits v) = true := by
  cases v <;> simp [check, inline_singleton, checkRule]

theorem check_object : check defs v [.types [.object]] path = [] ↔ v.IsObject := by
  rw [check_types]
  cases v <;> simp [TypeName.admits, Json.IsObject]

theorem check_among {options : List Json} :
    check defs v [.among options] path = [] ↔ options.any (sameOption · v) = true := by
  cases v <;> simp [check, inline_singleton, checkRule]

theorem check_least {n : Nat} : check defs (.obj ms) [.least n] path = [] ↔ n ≤ ms.length := by
  simp [check_obj, checkRule, checkedMembers_eq]

theorem check_required {keys : List String} :
    check defs (.obj ms) [.required keys] path = [] ↔ ∀ key ∈ keys, ms.has key = true := by
  simp [check_obj, checkRule, checkedMembers_eq, Members.has]

theorem find?_checkedMembers (ms : Members) (key : String) :
    (checkedMembers defs ms).find? (·.key == key) =
      (ms.get? key).map fun v => ⟨key, v, check defs v⟩ := by
  induction ms with
  | nil => rfl
  | cons m more ih =>
    simp only [checkedMembers, Members.get?, List.find?_cons] at ih ⊢
    cases hk : m.1 == key with
    | true => simp [eq_of_beq hk]
    | false => exact ih

/-- Declared members satisfy what is declared for them. -/
theorem check_properties {declared : List (String × Schema)} :
    check defs (.obj ms) [.properties declared] path = [] ↔
      ∀ d ∈ declared, ms.IfPresent d.1 fun v => check defs v d.2 (path.child d.1) = [] := by
  rw [check_obj (by simp)]
  simp only [checkRule, checkDeclared, List.flatMap_eq_nil_iff, find?_checkedMembers,
    Members.IfPresent]
  refine forall₂_congr fun d _ => ?_
  cases ms.get? d.1 <;> simp

/-- Where no member is declared, all satisfy what is said of others. -/
theorem check_members {others : Schema} :
    check defs (.obj ms) [.members [] others] path = [] ↔
      ∀ m ∈ ms, check defs m.2 others (path.child m.1) = [] := by
  rw [check_obj (by simp)]
  simp only [checkRule, checkMembers, checkedMembers_eq, List.flatMap_map, List.flatMap_eq_nil_iff]
  rfl

/-- An object with declared members, one of which is required. -/
theorem check_record {declared : List (String × Schema)} {key : String} :
    check defs v [.types [.object], .properties declared, .required [key]] path = [] ↔
      ∃ ms : Members, v = .obj ms ∧ ms.has key = true ∧
        ∀ d ∈ declared, ms.IfPresent d.1 fun v => check defs v d.2 (path.child d.1) = [] := by
  rw [check_cons, check_object]
  constructor
  · rintro ⟨⟨ms, rfl⟩, rest⟩
    obtain ⟨members, required⟩ := check_cons.1 rest
    exact ⟨ms, rfl, check_required.1 required key List.mem_cons_self, check_properties.1 members⟩
  · rintro ⟨ms, rfl, there, members⟩
    refine ⟨⟨ms, rfl⟩, check_cons.2 ⟨check_properties.2 members, check_required.2 ?_⟩⟩
    intro k hk
    rwa [List.mem_singleton.1 hk]

theorem sameOption_str {s : String} : sameOption (.str s) v = true ↔ v = .str s := by
  unfold sameOption
  cases v with
  | str t =>
    simp only [sameOption.go, beq_iff_eq, Json.str.injEq]
    exact eq_comm
  | _ => simp [sameOption.go]

end Schema

/-! ## The data model -/

/-- The value is a text. -/
def Json.IsText (v : Json) : Prop := ∃ s, v = .str s

/-- The value is a text, a number or a boolean. -/
def Json.IsScalar (v : Json) : Prop := (MetadataValue.ofJson? v).isSome

/-- The value is an object of scalars. -/
def Json.IsMetadata (v : Json) : Prop := ∃ ms : Members, v = .obj ms ∧ ∀ m ∈ ms, m.2.IsScalar

namespace Members

/-- The members of a flag. -/
structure IsFlag (ms : Members) : Prop where
  variations : ∃ vs : Members, ms.get? "variations" = some (.obj vs) ∧ vs ≠ []
  defaultVariant : ms.IfPresent "defaultVariant" fun v => v.IsText ∨ v = .null
  state : ms.IfPresent "state" fun v => v = .str "ENABLED" ∨ v = .str "DISABLED"
  targeting : ms.IfPresent "targeting" Json.IsObject
  defaultRule : ms.IfPresent "defaultRule" Json.IsObject
  bucketingKey : ms.IfPresent "bucketingKey" Json.IsText
  version : ms.IfPresent "version" Json.IsText
  metadata : ms.IfPresent "metadata" Json.IsMetadata

/-- The members of a configuration. -/
structure IsDocument (ms : Members) : Prop where
  schema : ms.IfPresent "$schema" Json.IsText
  flags : ∃ fs : Members, ms.get? "flags" = some (.obj fs) ∧
    ∀ m ∈ fs, ∃ inner : Members, m.2 = .obj inner ∧ inner.IsFlag
  evaluators : ms.IfPresent "$evaluators" Json.IsObject
  metadata : ms.IfPresent "metadata" Json.IsMetadata

end Members

/-! ## The bundled schema -/

namespace Bundled

open Schema

variable {defs : Definitions} {v : Json} {ms : Members} {path : Pointer}

theorem check_string : check defs v [.types [.string]] path = [] ↔ v.IsText := by
  rw [check_types]
  cases v <;> simp [TypeName.admits, Json.IsText]

theorem check_stringOrNull :
    check defs v [.types [.string, .null]] path = [] ↔ v.IsText ∨ v = .null := by
  rw [check_types]
  cases v <;> simp [TypeName.admits, Json.IsText]

theorem check_scalar :
    check defs v [.types [.string, .number, .boolean]] path = [] ↔ v.IsScalar := by
  rw [check_types]
  cases v <;> simp [TypeName.admits, Json.IsScalar, MetadataValue.ofJson?]

theorem check_state : check defs v [.among [.str "ENABLED", .str "DISABLED"]] path = [] ↔
    v = .str "ENABLED" ∨ v = .str "DISABLED" := by
  simp [check_among, sameOption_str]

theorem check_metadata :
    check schema.definitions v [.ref "/$defs/metadata"] path = [] ↔ v.IsMetadata := by
  rw [@check_ref _ _ _ _ metadataRules rfl, metadataRules, check_cons, check_object]
  constructor
  · rintro ⟨⟨ms, rfl⟩, inner⟩
    exact ⟨ms, rfl, fun m hm => check_scalar.1 (check_members.1 inner m hm)⟩
  · rintro ⟨ms, rfl, inner⟩
    exact ⟨⟨ms, rfl⟩, check_members.2 fun m hm => check_scalar.2 (inner m hm)⟩

theorem check_variations :
    check defs v [.types [.object], .least 1] path = [] ↔ ∃ vs : Members, v = .obj vs ∧ vs ≠ [] := by
  rw [check_cons, check_object]
  constructor
  · rintro ⟨⟨vs, rfl⟩, least⟩
    exact ⟨vs, rfl, List.ne_nil_of_length_pos (check_least.1 least)⟩
  · rintro ⟨vs, rfl, nonempty⟩
    exact ⟨⟨vs, rfl⟩, check_least.2 (List.length_pos_iff.2 nonempty)⟩

/-- A flag breaks no rule if it is one of the data model. -/
theorem check_flag : check schema.definitions v [.ref "/$defs/flag"] path = [] ↔
    ∃ ms : Members, v = .obj ms ∧ ms.IsFlag := by
  rw [@check_ref _ _ _ _ flagRules rfl, flagRules, check_record]
  simp only [List.forall_mem_cons, check_variations, check_stringOrNull, check_state,
    check_object, check_string, check_metadata]
  refine exists_congr fun ms => and_congr_right fun _ => ?_
  constructor
  · rintro ⟨there, variations, defaultVariant, state, targeting, defaultRule, bucketingKey, version,
      metadata, -⟩
    obtain ⟨_, there, vs, rfl, nonempty⟩ := Members.ifPresent_and_has.1 ⟨variations, there⟩
    exact ⟨⟨vs, there, nonempty⟩, defaultVariant, state, targeting, defaultRule, bucketingKey, version,
      metadata⟩
  · intro flag
    obtain ⟨vs, there, nonempty⟩ := flag.variations
    have present : ∃ v, ms.get? "variations" = some v ∧ ∃ vs : Members, v = .obj vs ∧ vs ≠ [] :=
      ⟨_, there, vs, rfl, nonempty⟩
    obtain ⟨variations, required⟩ := Members.ifPresent_and_has.2 present
    exact ⟨required, variations, flag.defaultVariant, flag.state, flag.targeting, flag.defaultRule,
      flag.bucketingKey, flag.version, flag.metadata, by simp⟩

theorem check_flags : check schema.definitions v
    [.types [.object], .members [] [.ref "/$defs/flag"]] path = [] ↔
      ∃ fs : Members, v = .obj fs ∧ ∀ m ∈ fs, ∃ ms : Members, m.2 = .obj ms ∧ ms.IsFlag := by
  rw [check_cons, check_object]
  constructor
  · rintro ⟨⟨fs, rfl⟩, inner⟩
    exact ⟨fs, rfl, fun m hm => check_flag.1 (check_members.1 inner m hm)⟩
  · rintro ⟨fs, rfl, inner⟩
    exact ⟨⟨fs, rfl⟩, check_members.2 fun m hm => check_flag.2 (inner m hm)⟩

/-- A document breaks no rule if it is one of the data model. -/
theorem violations_eq_nil_iff : schema.violations v = [] ↔
    ∃ ms : Members, v = .obj ms ∧ ms.IsDocument := by
  change check schema.definitions v [_, .properties _, _] "" = [] ↔ _
  rw [check_record]
  simp only [List.forall_mem_cons, check_flags, check_object, check_string, check_metadata]
  refine exists_congr fun ms => and_congr_right fun _ => ?_
  constructor
  · rintro ⟨there, schema, flags, evaluators, metadata, -⟩
    obtain ⟨_, there, fs, rfl, inner⟩ := Members.ifPresent_and_has.1 ⟨flags, there⟩
    exact ⟨schema, ⟨fs, there, inner⟩, evaluators, metadata⟩
  · intro document
    obtain ⟨fs, there, inner⟩ := document.flags
    have present : ∃ v, ms.get? "flags" = some v ∧ ∃ fs : Members, v = .obj fs ∧
        ∀ m ∈ fs, ∃ ms : Members, m.2 = .obj ms ∧ ms.IsFlag := ⟨_, there, fs, rfl, inner⟩
    obtain ⟨flags, required⟩ := Members.ifPresent_and_has.2 present
    exact ⟨required, document.schema, flags, document.evaluators, document.metadata, by simp⟩

end Bundled

end FeatureFlags
