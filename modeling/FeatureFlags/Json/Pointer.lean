import FeatureFlags.Json.Basic
import FeatureFlags.Text.Pieces

/-!
# JSON Pointers

A pointer is a text of tokens, each after a slash; inside a token `~` is written `~0` and `/` is
written `~1`. `child` and `item` extend a pointer by one step, and `Json.pointee?` follows one.
-/

namespace FeatureFlags

/-- A JSON Pointer as text; the empty text points at the whole value. -/
abbrev Pointer : Type := String

namespace Pointer

/-- The characters of a key inside a token. -/
def escapeChars : List Char → List Char
  | [] => []
  | '~' :: more => '~' :: '0' :: escapeChars more
  | '/' :: more => '~' :: '1' :: escapeChars more
  | c :: more => c :: escapeChars more

/-- A key as a token. -/
def token (key : String) : String :=
  String.ofList (escapeChars key.toList)

def child (p : Pointer) (key : String) : Pointer :=
  p ++ "/" ++ token key

def item (p : Pointer) (index : Nat) : Pointer :=
  p ++ "/" ++ toString index

/-- The key that a token stands for; `~` before any other character stands for itself. -/
def unescapeChars : List Char → List Char
  | [] => []
  | '~' :: '0' :: more => '~' :: unescapeChars more
  | '~' :: '1' :: more => '/' :: unescapeChars more
  | c :: more => c :: unescapeChars more

/-- A token stands for the key it was written for. -/
theorem unescapeChars_escapeChars (cs : List Char) : unescapeChars (escapeChars cs) = cs := by
  fun_induction escapeChars cs with
  | case1 => rfl
  | case2 more ih => simp [unescapeChars, ih]
  | case3 more ih => simp [unescapeChars, ih]
  | case4 c more notTilde _ ih =>
    rw [unescapeChars, ih]
    all_goals exact fun _ h => absurd h notTilde

/-- No token holds a slash. -/
theorem slash_notMem_escapeChars (cs : List Char) : '/' ∉ escapeChars cs := by
  fun_induction escapeChars cs with
  | case1 => simp
  | case2 more ih => simpa using ih
  | case3 more ih => simpa using ih
  | case4 c more _ notSlash ih => simpa [eq_comm, ih] using notSlash

/-- The keys along a pointer; nothing if the text neither is empty nor starts with a slash. -/
def keys? (p : Pointer) : Option (List String) :=
  match p.toList with
  | [] => some []
  | '/' :: more =>
    some ((Text.pieces '/' more).map fun piece => String.ofList (unescapeChars piece))
  | _ => none

/-- An array index as a token: decimal digits without a leading zero. -/
def index? (key : String) : Option Nat :=
  match key.toList with
  | [] => none
  | c :: more =>
    if (c :: more).all Char.isDigit ∧ (c ≠ '0' ∨ more = []) then
      some ((c :: more).foldl (fun n d => 10 * n + (d.toNat - '0'.toNat)) 0)
    else none

end Pointer

namespace Json

/-- One step of a pointer: a member of an object or an item of an array. -/
def step? : Json → String → Option Json
  | .obj ms, key => Members.get? ms key
  | .arr items, key => (Pointer.index? key).bind (items[·]?)
  | _, _ => none

def follow? (v : Json) : List String → Option Json
  | [] => some v
  | key :: more => (v.step? key).bind (follow? · more)

def pointee? (v : Json) (p : Pointer) : Option Json :=
  (Pointer.keys? p).bind v.follow?

end Json

end FeatureFlags
