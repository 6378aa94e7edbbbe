import FeatureFlags.Schema.Meta

/-!
# Validators

A `Validator` says which rules a document breaks, or that it breaks none. `CompiledSchema` makes
one from a JSON Schema; a schema that is itself at fault is refused. Two more validators serve
those who do not want a schema: one accepts everything, and one refuses everything with
violations of its own.
-/

namespace FeatureFlags

/-- Why a value cannot serve as a schema. -/
inductive SchemaFault
  | illFormed (complaint : Complaint)
  | danglingPointer (pointer : Pointer)

def SchemaFault.message : SchemaFault → String
  | .illFormed complaint => complaint.message
  | .danglingPointer p => "Pointer '" ++ p ++ "' does not exist"

/-- A schema with everything it refers to. -/
structure CompiledSchema where
  rules : Schema
  definitions : Definitions

namespace CompiledSchema

def ofJson? (v : Json) : Except SchemaFault CompiledSchema :=
  match Schema.fault? v with
  | some complaint => .error (.illFormed complaint)
  | none =>
    let rules := Schema.ofJson v
    match Schema.define v (v.nodes + 1) (Schema.pointers rules) [] with
    | .error p => .error (.danglingPointer p)
    | .ok defs => .ok ⟨rules, defs⟩

/-- Every violation by a document. -/
def violations (s : CompiledSchema) (document : Json) : List Violation :=
  Schema.check s.definitions document s.rules ""

/-- Whether a document conforms. -/
def accepts (s : CompiledSchema) (document : Json) : Bool :=
  (s.violations document).isEmpty

end CompiledSchema

/-- Says which rules a document breaks; a document may be refused without a reason. -/
abbrev Validator : Type := Json → Except (List Violation) Unit

namespace Validator

/-- Accepts every document. -/
def acceptAll : Validator := fun _ => .ok ()

/-- Refuses every document, always with the same violations. -/
def rejectAll (violations : List Violation) : Validator := fun _ => .error violations

/-- Refuses a document that breaks a rule of the schema. -/
def ofSchema (s : CompiledSchema) : Validator := fun document =>
  match s.violations document with
  | [] => .ok ()
  | violations => .error violations

end Validator

end FeatureFlags
