import FeatureFlags.Reference.Marker

/-!
# Replacing markers

`Json.walk` goes through a value in document order and lets a handler replace each marker. It
stops at the first fault; what was replaced before it stays replaced, and the rest stays as it
was. The handler threads a state, which is kept after a fault too.
-/

namespace FeatureFlags

/-- Why references could not be resolved. -/
inductive ReferenceError
  | malformed (path : Pointer) (fault : MarkerFault)
  | unresolved (name : String) (path : Pointer)
  | circular (chain : List String)
  | tooLarge (name : String) (limit : Nat) (path : Pointer)

/-- What to put in place of the marker of a name at a pointer. -/
abbrev Handler (σ : Type) : Type := String → Pointer → σ → Except ReferenceError Json × σ

/-- A value after a walk, the fault that ended it, and the state after it. -/
structure Walked (σ α : Type) where
  value : α
  error? : Option ReferenceError
  state : σ

namespace Walked

variable {σ α β : Type}

/-- The same with another value. -/
def map (f : α → β) (w : Walked σ α) : Walked σ β :=
  ⟨f w.value, w.error?, w.state⟩

end Walked

namespace Json

variable {σ : Type}

/-- Replaces a marker. -/
def walkMarker (handler : Handler σ) (ms : Members) (path : Pointer) (s : σ) : Walked σ Json :=
  match ms.markerName? with
  | .error fault => ⟨.obj ms, some (.malformed path fault), s⟩
  | .ok name =>
    match handler name path s with
    | (.ok v, s) => ⟨v, none, s⟩
    | (.error e, s) => ⟨.obj ms, some e, s⟩

mutual

/-- Replaces the markers inside a value at a pointer. -/
def walk (handler : Handler σ) : Json → Pointer → σ → Walked σ Json
  | .obj ms, path, s =>
    if Members.isMarker ms then walkMarker handler ms path s
    else (walkMembers handler ms path s).map .obj
  | .arr items, path, s => (walkItems handler items path 0 s).map .arr
  | v, _, s => ⟨v, none, s⟩

def walkItems (handler : Handler σ) : List Json → Pointer → Nat → σ → Walked σ (List Json)
  | [], _, _, s => ⟨[], none, s⟩
  | v :: more, path, i, s =>
    match walk handler v (path.item i) s with
    | ⟨v, some e, s⟩ => ⟨v :: more, some e, s⟩
    | ⟨v, none, s⟩ => (walkItems handler more path (i + 1) s).map (v :: ·)

def walkMembers (handler : Handler σ) : List (String × Json) → Pointer → σ → Walked σ Members
  | [], _, s => ⟨[], none, s⟩
  | (k, v) :: more, path, s =>
    match walk handler v (path.child k) s with
    | ⟨v, some e, s⟩ => ⟨(k, v) :: more, some e, s⟩
    | ⟨v, none, s⟩ => (walkMembers handler more path s).map ((k, v) :: ·)

end

end Json

end FeatureFlags
