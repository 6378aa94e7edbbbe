/-!
# Finite binary64 numbers

A finite binary64 number is a sign and a *rank*: its place among the finite magnitudes in
increasing order, zero being the first. A magnitude of rank `r` stands for the rational
`significand r * 2 ^ exponent r`, and `nearest?` goes back: it rounds a quotient of naturals to
the nearest magnitude, a tie to the even one, and answers `none` where the result would be
infinite. Products and quotients are rounded exactly in this way.
-/

namespace FeatureFlags

/-- The magnitudes of the finite binary64 numbers in increasing order: there are
`2047 * 2 ^ 52` of them. -/
abbrev Magnitude : Type := Fin 9218868437227405312

/-- A finite binary64 number. Both zeros are there, and they differ. -/
structure Binary64 where
  negative : Bool
  rank : Magnitude
  deriving DecidableEq

namespace Magnitude

/-- The integer part `m` of a magnitude `m * 2 ^ e`. -/
def significand (r : Magnitude) : Nat :=
  if r.val < Nat.pow 2 52 then r.val else Nat.pow 2 52 + r.val % Nat.pow 2 52

/-- The binary exponent `e` of a magnitude `m * 2 ^ e`. -/
def exponent (r : Magnitude) : Int :=
  if r.val < Nat.pow 2 52 then -1074 else (r.val / Nat.pow 2 52 : Nat) - 1075

/-- `m * 2 ^ e` as a quotient of naturals. -/
def scaled (m : Nat) (e : Int) : Nat × Nat :=
  if 0 ≤ e then (m * Nat.pow 2 e.toNat, 1) else (m, Nat.pow 2 (-e).toNat)

/-- The exact value as a quotient of naturals. -/
def ratio (r : Magnitude) : Nat × Nat :=
  scaled r.significand r.exponent

/-- The natural number nearest to `num / den`; a tie goes to the even neighbour. -/
def roundHalfEven (num den : Nat) : Nat :=
  let q := num / den
  let twice := 2 * (num % den)
  if den < twice ∨ (twice = den ∧ q % 2 = 1) then q + 1 else q

/-- `num / den` in units of `2 ^ e`, rounded to the nearest integer. -/
def unitsOf (e : Int) (num den : Nat) : Nat :=
  if 0 ≤ e then roundHalfEven num (den * Nat.pow 2 e.toNat)
  else roundHalfEven (num * Nat.pow 2 (-e).toNat) den

/-- The exponent at which `num / den` has 53 binary digits, or the least exponent there is. -/
def exponentFor (num den : Nat) : Int :=
  let e : Int := (num.log2 : Int) - den.log2 - 52
  let short : Bool :=
    if 0 ≤ e then num < den * Nat.pow 2 e.toNat * Nat.pow 2 52
    else num * Nat.pow 2 (-e).toNat < den * Nat.pow 2 52
  max (if short then e - 1 else e) (-1074)

/-- The magnitude nearest to `num / den`, a tie going to the even rank; `none` when that is
infinity. A rounding that carries into a further binary digit lands on the next exponent,
because ranks are consecutive. -/
def nearest? (num den : Nat) : Option Magnitude :=
  if num = 0 then some 0 else
    let e := exponentFor num den
    let rank := (e + 1074).toNat * Nat.pow 2 52 + unitsOf e num den
    if h : rank < 9218868437227405312 then some ⟨rank, h⟩ else none

def mul? (a b : Magnitude) : Option Magnitude :=
  nearest? (a.ratio.1 * b.ratio.1) (a.ratio.2 * b.ratio.2)

/-- The rounded quotient, for a divisor that is not zero. -/
def div? (a b : Magnitude) : Option Magnitude :=
  nearest? (a.ratio.1 * b.ratio.2) (a.ratio.2 * b.ratio.1)

/-- The magnitude nearest to `10 ^ k`; finite up to `k = 308`. -/
def powerOfTen? (k : Nat) : Option Magnitude :=
  nearest? (Nat.pow 10 k) 1

/-- `a / 10 ^ k`, by one rounded division for each full 308 decimal places and one for the
rest. -/
def divPowerOfTen? (a : Magnitude) (k : Nat) : Option Magnitude :=
  if k ≤ 308 then (powerOfTen? k).bind a.div?
  else if a = 0 then some 0
  else ((powerOfTen? 308).bind a.div?).bind fun b => divPowerOfTen? b (k - 308)
termination_by k

/-- `m * 10 ^ e` computed in two rounded steps: first `m` to a magnitude, then one product or
quotient with a rounded power of ten. `none` when the result leaves the finite range. -/
def ofDecimal? (m : Nat) (e : Int) : Option Magnitude :=
  (nearest? m 1).bind fun a =>
    if e < 0 then a.divPowerOfTen? (-e).toNat
    else if e.toNat ≤ 308 then (powerOfTen? e.toNat).bind a.mul?
    else if a = 0 then some 0
    else none

end Magnitude

namespace Binary64

def zero (negative : Bool) : Binary64 := ⟨negative, 0⟩

/-- A decimal with sign, integer part and power of ten, as `Magnitude.ofDecimal?` rounds it. -/
def ofDecimal? (negative : Bool) (m : Nat) (e : Int) : Option Binary64 :=
  (Magnitude.ofDecimal? m e).map (⟨negative, ·⟩)

/-- Equality of values: the two zeros are the same number. -/
def sameValue (a b : Binary64) : Bool :=
  a == b || (a.rank == 0 && b.rank == 0)

/-- The exact value as a signed numerator and a positive denominator. -/
def ratio (x : Binary64) : Int × Nat :=
  let (num, den) := x.rank.ratio
  (if x.negative then -(num : Int) else num, den)

/-- Whether the value has no fractional part. -/
def isIntegral (x : Binary64) : Bool :=
  x.rank.ratio.1 % x.rank.ratio.2 == 0

end Binary64

end FeatureFlags
