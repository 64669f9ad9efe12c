/-! # Binary floating-point values

A binary format keeps `precision` significant bits; a finite value is `m * 2^e` with
`m < 2^precision` and `e ≥ minExp`, where `m ≥ 2^(precision - 1)` unless `e = minExp`
(subnormal values). Rounding a positive ratio to a format goes to the nearest value, a tie to
the even significand, and past the largest finite value to infinity.
-/

namespace BeanCodegen.Decimal

/-- The parameters of a binary format. -/
structure BinaryFormat where
  /-- Significant bits, the leading one included. -/
  precision : Nat
  /-- The exponent of the least subnormal value, `2^minExp`. -/
  minExp : Int
  /-- The largest exponent of a finite value with a full significand. -/
  maxExp : Int
  deriving Repr

/-- The 32-bit format: 24 significant bits, values from `2^-149` to just below `2^128`. -/
def BinaryFormat.single : BinaryFormat := ⟨24, -149, 104⟩

/-- The 64-bit format: 53 significant bits, values from `2^-1074` to just below `2^1024`. -/
def BinaryFormat.double : BinaryFormat := ⟨53, -1074, 971⟩

/-- A value of a binary format. -/
inductive BinaryValue
  | zero (negative : Bool)
  /-- `(-1)^negative * m * 2^e`. -/
  | finite (negative : Bool) (m : Nat) (e : Int)
  | infinite (negative : Bool)
  | nan
  deriving DecidableEq, Repr

/-- `a / b` rounded to the nearest integer, a tie to the even one. -/
def divRoundEven (a b : Nat) : Nat :=
  let q := a / b
  let r := a % b
  if 2 * r < b then q else if 2 * r > b then q + 1 else if q % 2 = 0 then q else q + 1

/-- The ratio `num / den` scaled by `2^-e`, as a numerator and a denominator. -/
def scaledBy (num den : Nat) (e : Int) : Nat × Nat :=
  if 0 ≤ e then (num, den * Nat.pow 2 e.toNat) else (num * Nat.pow 2 ((-e).toNat), den)

/-- The exponent that puts `num / den` into `[2^(precision-1), 2^precision)`, found from an
estimate `e` by at most `fuel` corrections. -/
def fitExponent (f : BinaryFormat) (num den : Nat) : Nat → Int → Int
  | 0, e => e
  | fuel + 1, e =>
    let (a, b) := scaledBy num den e
    let q := a / b
    if q ≥ Nat.pow 2 f.precision then fitExponent f num den fuel (e + 1)
    else if q < Nat.pow 2 (f.precision - 1) then fitExponent f num den fuel (e - 1)
    else e

/-- The value of a format nearest to `num / den` (with `num, den > 0`), with a sign. -/
def BinaryFormat.round (f : BinaryFormat) (negative : Bool) (num den : Nat) : BinaryValue :=
  let estimate : Int := (Nat.log2 num : Int) - (Nat.log2 den : Int) - (f.precision - 1 : Nat)
  let e := max (fitExponent f num den 4 estimate) f.minExp
  let (a, b) := scaledBy num den e
  let m := divRoundEven a b
  let (m, e) := if m = Nat.pow 2 f.precision then (Nat.pow 2 (f.precision - 1), e + 1) else (m, e)
  if e > f.maxExp then .infinite negative
  else if m = 0 then .zero negative
  else .finite negative m e

end BeanCodegen.Decimal
