/-!
# Raw texts

File names and arguments come from outside as bytes, which need not be UTF-8. `RawText.text?` gives
the text that the bytes encode, if they do; `RawText.shown` is what a complaint says for them, with
the replacement character where no character can be read.
-/

namespace FeatureFlags

/-- A text as it comes from outside. -/
structure RawText where
  bytes : List UInt8
  deriving DecidableEq

namespace RawText

/-- The bytes of a text. -/
def ofText (s : String) : RawText :=
  ⟨s.toUTF8.data.toList⟩

instance : Coe String RawText :=
  ⟨ofText⟩

/-- Only the empty text has no bytes. -/
theorem eq_empty_iff {r : RawText} : r = ofText "" ↔ r.bytes = [] :=
  ⟨fun h => h ▸ rfl, fun h => congrArg mk h⟩

/-- The text that the bytes encode, if they encode one. -/
def text? (r : RawText) : Option String :=
  String.fromUTF8? ⟨r.bytes.toArray⟩

/-- Whether the bytes encode a text. -/
def isText (r : RawText) : Bool :=
  r.text?.isSome

theorem text?_ofText (s : String) : (ofText s).text? = some s := by
  have valid : (⟨s.toUTF8.data⟩ : ByteArray).IsValidUTF8 := s.isValidUTF8
  simp only [text?, ofText, Array.toArray_toList, String.fromUTF8?]
  exact dif_pos valid

@[simp]
theorem isText_ofText (s : String) : (ofText s).isText = true := by
  rw [isText, text?_ofText, Option.isSome_some]

/-! ## Bytes that need not be a text -/

/-- A character of which some bytes have been read: how many it lacks besides the next, the bounds
of the next, and the value of what has been read. -/
structure Begun where
  behind : Nat
  low : Nat
  high : Nat
  value : Nat

/-- The first byte of a character: the characters that are read with it, and what it begins. The
bounds keep out what has a shorter encoding, surrogates, and what is beyond the last character. -/
def first (b : UInt8) : List Char × Option Begun :=
  let n := b.toNat
  if n < 0x80 then ([Char.ofNat n], none)
  else if n < 0xC2 then (['\uFFFD'], none)
  else if n < 0xE0 then ([], some ⟨0, 0x80, 0xBF, n - 0xC0⟩)
  else if n < 0xF0 then
    let low := if n = 0xE0 then 0xA0 else 0x80
    let high := if n = 0xED then 0x9F else 0xBF
    ([], some ⟨1, low, high, n - 0xE0⟩)
  else if n < 0xF5 then
    let low := if n = 0xF0 then 0x90 else 0x80
    let high := if n = 0xF4 then 0x8F else 0xBF
    ([], some ⟨2, low, high, n - 0xF0⟩)
  else (['\uFFFD'], none)

/-- The next byte. One that the character begun cannot go on with begins another. -/
def next : Option Begun → UInt8 → List Char × Option Begun
  | none, b => first b
  | some c, b =>
    if c.low ≤ b.toNat ∧ b.toNat ≤ c.high then
      let value := 64 * c.value + (b.toNat - 0x80)
      match c.behind with
      | 0 => ([Char.ofNat value], none)
      | behind + 1 => ([], some ⟨behind, 0x80, 0xBF, value⟩)
    else ('\uFFFD' :: (first b).1, (first b).2)

/-- The characters in bytes, behind a character begun. What begins a character and does not end it
counts as one replacement character. -/
def charsFrom : Option Begun → List UInt8 → List Char
  | none, [] => []
  | some _, [] => ['\uFFFD']
  | begun?, b :: more => (next begun? b).1 ++ charsFrom (next begun? b).2 more

/-- The bytes as a complaint shows them. -/
def shown (r : RawText) : String :=
  String.ofList (charsFrom none r.bytes)

-- no character begins with 0xFF, and none goes on from 0xE2 0x82 with a letter
example : shown ⟨[0x61, 0xFF, 0xE2, 0x82, 0x62]⟩ = "a\uFFFD\uFFFDb" := by decide +kernel

end RawText

end FeatureFlags
