import FeatureFlags.Text.Pieces
import FeatureFlags.Text.Raw

/-!
# Paths

A path is kept as it is written, in bytes that need not be UTF-8, and read as components: empty
pieces and pieces `.` say nothing, except that a path may start at the root or with a `.` of its
own. Paths are compared component by component, so that what lies in a directory comes together.
-/

namespace FeatureFlags

/-- A path as it is written. -/
abbrev Path : Type := RawText

/-- One step of a path. -/
inductive Component
  | root
  | here
  | parent
  | name (text : RawText)
  deriving DecidableEq

namespace Path

def slash : UInt8 := '/'.toUInt8

def point : UInt8 := '.'.toUInt8

/-- What stands between slashes. -/
def pieces (p : Path) : List RawText :=
  (Text.pieces slash p.bytes).map RawText.mk

/-- The component that a piece behind the first makes, if any. -/
def component? (piece : RawText) : Option Component :=
  if piece = "" ∨ piece = "." then none
  else if piece = ".." then some .parent
  else some (.name piece)

/-- The component that the first piece makes, if any; `only` says that no other follows. -/
def firstComponent? (only : Bool) (piece : RawText) : Option Component :=
  if piece = "" then (if only then none else some .root)
  else if piece = "." then some .here
  else component? piece

/-- The pieces with the components they make. -/
def marked (p : Path) : List (Option Component × RawText) :=
  match p.pieces with
  | [] => []
  | first :: more =>
    (firstComponent? more.isEmpty first, first) :: more.map fun piece => (component? piece, piece)

def components (p : Path) : List Component :=
  p.marked.filterMap (·.1)

/-- The path of an entry of a directory. -/
def join (dir : Path) (name : RawText) : Path :=
  if dir = "" ∨ dir.bytes.getLast? = some slash then ⟨dir.bytes ++ name.bytes⟩
  else ⟨dir.bytes ++ slash :: name.bytes⟩

/-- What follows the last point of a name. -/
def afterPoint? : List UInt8 → Option (List UInt8)
  | [] => none
  | b :: more =>
    match afterPoint? more with
    | some tail => some tail
    | none => if b = point then some more else none

/-- The extension of the last name in a path. A name that starts with its only point has none. -/
def extension? (p : Path) : Option RawText :=
  match p.components.getLast? with
  | some (.name text) =>
    match text.bytes with
    | [] => none
    | _ :: more => (afterPoint? more).map RawText.mk
  | _ => none

def isJson (p : Path) : Bool :=
  p.extension? == some ("json" : RawText)

/-- What is left of marked pieces behind some components. -/
def behind? : List Component → List (Option Component × RawText) →
    Option (List (Option Component × RawText))
  | [], rest => some rest
  | _ :: _, [] => none
  | b :: bs, (none, _) :: rest => behind? (b :: bs) rest
  | b :: bs, (some c, _) :: rest => if c = b then behind? bs rest else none

/-- Without pieces at the end that make no component. -/
def trimEnd (ps : List (Option Component × RawText)) : List (Option Component × RawText) :=
  (ps.reverse.dropWhile (·.1.isNone)).reverse

/-- What is left of the path behind `base`, if `base` is where it starts. -/
def stripBase? (base p : Path) : Option Path :=
  (behind? base.components p.marked).map fun rest =>
    let rest := if base.components.isEmpty then rest else rest.dropWhile (·.1.isNone)
    ⟨[slash].intercalate ((trimEnd rest).map (·.2.bytes))⟩

/-- The path as seen from `base`; unchanged if it does not start there. -/
def relativeTo (p base : Path) : Path :=
  (stripBase? base p).getD p

end Path

namespace Component

/-- The place of a kind of component in the order. -/
def rank : Component → Nat
  | .root => 0
  | .here => 1
  | .parent => 2
  | .name _ => 3

/-- Whether one component comes before or with another: names by byte. -/
def le : Component → Component → Bool
  | .name a, .name b => decide (a.bytes ≤ b.bytes)
  | a, b => a.rank ≤ b.rank

/-- The same for lists of components, the first difference deciding. -/
def listLe : List Component → List Component → Bool
  | [], _ => true
  | _ :: _, [] => false
  | a :: as, b :: bs => if a = b then listLe as bs else le a b

end Component

/-- Whether one path comes before or with another. -/
def Path.le (p q : Path) : Bool :=
  Component.listLe p.components q.components

end FeatureFlags
