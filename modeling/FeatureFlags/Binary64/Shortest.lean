import FeatureFlags.Binary64.Basic

/-!
# Shortest decimals

`Magnitude.shortest` finds, among the decimals that round to a given magnitude, one with the
fewest digits, and of those the nearest; an exact tie goes to the even last digit.
`Binary64.text` writes it: positional from `0.00001` to below `10 ^ 16`, always with a decimal
point, otherwise with one digit before the point and a signed exponent.
-/

namespace FeatureFlags

/-- A decimal `digits * 10 ^ exponent`. -/
structure Decimal where
  digits : Nat
  exponent : Int
  deriving DecidableEq

namespace Decimal

/-- The same decimal without zeros at the end of its digits; `fuel` bounds their number. -/
def trim (fuel : Nat) (d : Decimal) : Decimal :=
  match fuel with
  | 0 => d
  | fuel + 1 =>
    if d.digits ≠ 0 ∧ d.digits % 10 = 0 then trim fuel ⟨d.digits / 10, d.exponent + 1⟩ else d

end Decimal

namespace Magnitude

/-- The `p` with `10 ^ p ≤ num / den < 10 ^ (p + 1)`, for a positive quotient. -/
def decade (num den : Nat) : Int :=
  if den ≤ num then (Nat.toDigits 10 (num / den)).length - 1
  else
    let places := (Nat.toDigits 10 (den / num)).length
    if num * Nat.pow 10 (places - 1) = den then 1 - (places : Int) else -(places : Int)

/-- Whether the decimal lies among the rationals that round to `r`. With `r = m * 2 ^ e`, these
reach half a unit up and half a unit down, or a quarter down where the spacing changes; the ends
belong to them when `m` is even. -/
def roundsFrom (r : Magnitude) (d : Decimal) : Bool :=
  let m := r.significand
  let (num, den) := scaled 1 (r.exponent - 2)
  let below := if m = Nat.pow 2 52 ∧ -1074 < r.exponent then 1 else 2
  let (dNum, dDen) :=
    if 0 ≤ d.exponent then (d.digits * Nat.pow 10 d.exponent.toNat, 1)
    else (d.digits, Nat.pow 10 (-d.exponent).toNat)
  let value := dNum * den
  let low := (4 * m - below) * num * dDen
  let high := (4 * m + 2) * num * dDen
  if m % 2 = 0 then low ≤ value && value ≤ high else low < value && value < high

/-- The better of the two decimals next to `num / den` on the grid of `10 ^ exponent`, if one of
them rounds to `r`. -/
def onGrid? (r : Magnitude) (num den : Nat) (exponent : Int) : Option Decimal :=
  let (n, d) :=
    if 0 ≤ exponent then (num, den * Nat.pow 10 exponent.toNat)
    else (num * Nat.pow 10 (-exponent).toNat, den)
  let low : Decimal := ⟨n / d, exponent⟩
  let high : Decimal := ⟨n / d + 1, exponent⟩
  match r.roundsFrom low, r.roundsFrom high with
  | true, true =>
    let twice := 2 * (n % d)
    if twice < d ∨ (twice = d ∧ low.digits % 2 = 0) then some low else some high
  | true, false => some low
  | false, true => some high
  | false, false => none

/-- The first grid, from coarse to fine, that has a decimal rounding to `r`. Seventeen digits
always suffice. -/
def firstGrid (r : Magnitude) (num den : Nat) (p : Int) : List Nat → Decimal
  | [] => ⟨0, 0⟩
  | digits :: more =>
    match r.onGrid? num den (p + 1 - digits) with
    | some d => d
    | none => firstGrid r num den p more

/-- The shortest decimal that rounds to `r`, and the nearest of those. -/
def shortest (r : Magnitude) : Decimal :=
  if r.val = 0 then ⟨0, 0⟩ else
    let (num, den) := r.ratio
    (firstGrid r num den (decade num den)
      [1, 2, 3, 4, 5, 6, 7, 8, 9, 10, 11, 12, 13, 14, 15, 16, 17]).trim 17

end Magnitude

namespace Decimal

/-- The text of `count` zeros. -/
def zeros (count : Nat) : String :=
  String.ofList (List.replicate count '0')

/-- Positional text from `10 ^ -5` to below `10 ^ 16`, scientific text elsewhere. -/
def text (d : Decimal) : String :=
  let ds := Nat.toDigits 10 d.digits
  let point : Int := d.exponent + ds.length
  if d.digits = 0 then "0.0"
  else if -5 < point ∧ point ≤ 16 then
    if (ds.length : Int) ≤ point then
      String.ofList ds ++ zeros (point.toNat - ds.length) ++ ".0"
    else if 0 < point then
      String.ofList (ds.take point.toNat) ++ "." ++ String.ofList (ds.drop point.toNat)
    else "0." ++ zeros (-point).toNat ++ String.ofList ds
  else
    let mantissa := match ds with
      | first :: second :: more => String.ofList (first :: '.' :: second :: more)
      | short => String.ofList short
    let power := point - 1
    mantissa ++ "e" ++ (if power < 0 then "-" else "+") ++ toString power.natAbs

end Decimal

/-- The shortest text that reads back as the same number. -/
def Binary64.text (x : Binary64) : String :=
  (if x.negative then "-" else "") ++ x.rank.shortest.text

end FeatureFlags
