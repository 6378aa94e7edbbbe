import FeatureFlags.Json.Basic
import FeatureFlags.Json.Cursor

/-!
# Numbers in a JSON text

An integer literal that fits 64 bits stays an integer; every other number is a binary64 number.
Its digits are collected into a significand of 64 bits, digits that no longer fit count only by
their place, and the power of ten is applied by `Binary64.ofDecimal?`. `Numeral.skip` passes over
a number whose value is not wanted, without a check of its range.
-/

namespace FeatureFlags.Numeral

/-- The value of a decimal digit. -/
def digitValue (c : Char) : Nat := c.toNat - '0'.toNat

/-- Whether the next character is a digit. -/
def atDigit (c : Cursor) : Bool :=
  c.rest.head?.any Char.isDigit

/-- Whether the next character starts an exponent. -/
def atExponent (c : Cursor) : Bool :=
  c.rest.head?.any fun d => d = 'e' || d = 'E'

/-- Whether the next character starts a fraction. -/
def atFraction (c : Cursor) : Bool :=
  c.rest.head? == some '.'

/-- Takes digits into `n` while it stays below `bound`: the number, how many digits were taken,
and what is left. -/
def takeDigits (bound n taken : Nat) : List Char → Position → Nat × Nat × Cursor
  | [], p => (n, taken, ⟨[], p⟩)
  | c :: more, p =>
    if c.isDigit ∧ 10 * n + digitValue c < bound then
      takeDigits bound (10 * n + digitValue c) (taken + 1) more (p.after c)
    else (n, taken, ⟨c :: more, p⟩)

/-- The number `m * 10 ^ e` behind the last character of its text. -/
def finish (negative : Bool) (m : Nat) (e : Int) (c : Cursor) :
    Except SyntaxError (Number × Cursor) :=
  match Binary64.ofDecimal? negative m e with
  | some x => .ok (.float x, c)
  | none => .error (c.faultHere .numberOutOfRange)

/-- Past the sign of an exponent, and whether it is negative. -/
def exponentSign (c : Cursor) : Bool × Cursor :=
  match c.rest with
  | '-' :: _ => (true, c.advance)
  | '+' :: _ => (false, c.advance)
  | _ => (false, c)

/-- Reads an exponent behind its letter. One beyond 31 bits is an overflow or, for a zero or a
negative exponent, a zero. -/
def readExponent (negative : Bool) (m : Nat) (e : Int) (c : Cursor) :
    Except SyntaxError (Number × Cursor) :=
  let (down, c) := exponentSign c
  match c.rest with
  | [] => .error (c.faultHere .endInValue)
  | d :: _ =>
    if d.isDigit then
      let (n, _, c) := takeDigits (Nat.pow 2 31) 0 0 c.rest c.position
      if atDigit c then
        if m ≠ 0 ∧ !down then .error (c.advance.faultHere .numberOutOfRange)
        else .ok (.float (.zero negative), c.skipDigits)
      else finish negative m (if down then e - n else e + n) c
    else .error ⟨.badNumber, c.position.into d⟩

/-- What follows the digits of a number that is not an integer. -/
def readTail (negative : Bool) (m : Nat) (e : Int) (c : Cursor) :
    Except SyntaxError (Number × Cursor) :=
  if atExponent c then readExponent negative m e c.advance else finish negative m e c

/-- Reads a fraction behind its point; `e` counts digits left out before the point. -/
def readFraction (negative : Bool) (m : Nat) (e : Int) (c : Cursor) :
    Except SyntaxError (Number × Cursor) :=
  let (m, taken, c) := takeDigits (Nat.pow 2 64) m 0 c.rest c.position
  if atDigit c then readTail negative m (e - taken) c.skipDigits
  else if taken = 0 then
    .error (c.faultNext (if c.rest.isEmpty then .endInValue else .badNumber))
  else readTail negative m (e - taken) c

/-- An integer literal below `2 ^ 64` with its sign: a binary64 number if it is a negative zero
or below `-2 ^ 63`. -/
def ofInteger (negative : Bool) (m : Nat) (c : Cursor) : Except SyntaxError (Number × Cursor) :=
  if !negative then .ok (.int m, c)
  else if 0 < m ∧ m ≤ Nat.pow 2 63 then .ok (.int (-m), c)
  else finish true m 0 c

/-- What follows the integer part. -/
def readAfterInteger (negative : Bool) (m : Nat) (c : Cursor) :
    Except SyntaxError (Number × Cursor) :=
  if atFraction c then readFraction negative m 0 c.advance
  else if atExponent c then readExponent negative m 0 c.advance
  else ofInteger negative m c

/-- Reads a number behind its sign. -/
def readUnsigned (negative : Bool) (c : Cursor) : Except SyntaxError (Number × Cursor) :=
  match c.rest with
  | [] => .error (c.faultHere .endInValue)
  | '0' :: _ =>
    if atDigit c.advance then .error (c.advance.faultNext .badNumber)
    else readAfterInteger negative 0 c.advance
  | d :: _ =>
    if d.isDigit then
      let (m, _, c) := takeDigits (Nat.pow 2 64) 0 0 c.rest c.position
      if atDigit c then
        -- digits beyond 64 bits count only by their number
        let left := c.skipDigits
        let e : Int := c.rest.length - left.rest.length
        if atFraction left then readFraction negative m e left.advance
        else readTail negative m e left
      else readAfterInteger negative m c
    else .error ⟨.badNumber, c.position.into d⟩

/-- Whether a number may start with the character. -/
def starts (c : Char) : Bool := c = '-' || c.isDigit

/-- Reads a number. -/
def read (c : Cursor) : Except SyntaxError (Number × Cursor) :=
  match c.rest with
  | '-' :: _ => readUnsigned true c.advance
  | _ => readUnsigned false c

/-- Passes over a character that has to be a digit. -/
def skipDigit (c : Cursor) : Except SyntaxError Cursor :=
  match c.rest with
  | [] => .error (c.faultHere .badNumber)
  | d :: _ => if d.isDigit then .ok c.advance else .error ⟨.badNumber, c.position.into d⟩

/-- Passes over an exponent, if there is one. -/
def skipExponent (c : Cursor) : Except SyntaxError Cursor :=
  if atExponent c then (skipDigit (exponentSign c.advance).2).map Cursor.skipDigits else .ok c

/-- Passes over a fraction and an exponent, if they are there. -/
def skipTail (c : Cursor) : Except SyntaxError Cursor :=
  if atFraction c then
    if atDigit c.advance then skipExponent c.advance.skipDigits
    else .error (c.advance.faultNext .badNumber)
  else skipExponent c

/-- Passes over a number behind its sign. -/
def skipUnsigned (c : Cursor) : Except SyntaxError Cursor := do
  let left ← skipDigit c
  if c.rest.head? == some '0' then
    if atDigit left then .error (left.faultNext .badNumber) else skipTail left
  else skipTail left.skipDigits

/-- Passes over a number. -/
def skip (c : Cursor) : Except SyntaxError Cursor :=
  match c.rest with
  | '-' :: _ => skipUnsigned c.advance
  | _ => skipUnsigned c

end FeatureFlags.Numeral
