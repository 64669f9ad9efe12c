/-! # Shortest decimals

The decimal a value is written with: among the decimals that lie in the value's rounding
interval, those with the fewest significant digits, and of these the one nearest to the value,
a tie going to the larger. The interval is `[(mant - minus) * 2^exp, (mant + plus) * 2^exp]`
around the value `mant * 2^exp`, its ends included when `inclusive` holds.

The search tries one significant digit, then two, and so on: with `n` digits the only
candidates are the value's two neighbours on the grid of `n`-digit decimals, since any other
`n`-digit decimal is further away and an interval containing it contains a neighbour too.
-/

namespace BeanCodegen.Decimal

/-- A decimal `digits * 10^exp`. -/
structure Dec where
  digits : Nat
  exp : Int
  deriving DecidableEq, Repr

/-- The rounding interval of a binary value, in units of `2^exp`. -/
structure Interval where
  mant : Nat
  minus : Nat
  plus : Nat
  exp : Int
  inclusive : Bool
  deriving Repr

/-- The number of decimal digits of a positive number. -/
def decimalLength (n : Nat) : Nat := (Nat.toDigits 10 n).length

/-- Drops trailing zero digits, raising the exponent. -/
def Dec.normalize : Nat → Dec → Dec
  | 0, d => d
  | fuel + 1, d =>
    if d.digits ≠ 0 && d.digits % 10 = 0 then Dec.normalize fuel ⟨d.digits / 10, d.exp + 1⟩
    else d

/-- The interval's value and ends over a common denominator: value, low, high, denominator. -/
def Interval.scaled (i : Interval) : Nat × Nat × Nat × Nat :=
  let k := Nat.pow 2 i.exp.toNat
  let den := Nat.pow 2 ((-i.exp).toNat)
  (i.mant * k, (i.mant - i.minus) * k, (i.mant + i.plus) * k, den)

/-- The least `E` with `value < 10^E`, for a value `v / den ≥ 1 / den`. -/
def Interval.magnitude (v den : Nat) : Int :=
  let e : Int := (decimalLength v : Int) - (decimalLength den : Int)
  -- the estimate is off by at most one
  let below (e : Int) : Bool :=  -- value < 10^e
    v * Nat.pow 10 ((-e).toNat) < den * Nat.pow 10 e.toNat
  if below e then (if below (e - 1) then e - 1 else e) else e + 1

/-- The candidate with `n` significant digits, if one lies in the interval. -/
def Interval.candidate (i : Interval) (n : Nat) : Option Dec :=
  let (v, lo, hi, den) := i.scaled
  let top := Interval.magnitude v den
  let x : Int := top - n
  -- everything is multiplied by `den * 10^(n - top)` when that exponent is positive
  let s := Nat.pow 10 ((-x).toNat)
  let step := den * Nat.pow 10 x.toNat
  let v := v * s
  let lo := lo * s
  let hi := hi * s
  let c := v / step
  let r := v % step
  let lowIn := if i.inclusive then c * step ≥ lo else c * step > lo
  let highIn := r ≠ 0 && (if i.inclusive then (c + 1) * step ≤ hi else (c + 1) * step < hi)
  if lowIn && highIn then some ⟨if 2 * r < step then c else c + 1, x⟩
  else if lowIn then some ⟨c, x⟩
  else if highIn then some ⟨c + 1, x⟩
  else none

/-- The first candidate from `n` digits on, trying `fuel` lengths. -/
def Interval.searchFrom (i : Interval) : Nat → Nat → Option Dec
  | 0, _ => none
  | fuel + 1, n =>
    match i.candidate n with
    | some d => some d
    | none => i.searchFrom fuel (n + 1)

/-- The shortest decimal in the interval, nearest to the value, without trailing zeros. Every
interval of a binary value holds a decimal of 17 digits at most, so the search stops there;
the value itself, exact in enough digits, stands behind it. -/
def Interval.shortest (i : Interval) : Dec :=
  let d := (i.searchFrom 40 1).getD ⟨i.mant, 0⟩
  d.normalize (decimalLength d.digits)

end BeanCodegen.Decimal
