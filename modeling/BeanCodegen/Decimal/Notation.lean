import BeanCodegen.Decimal.Binary
import BeanCodegen.Decimal.Shortest
/-! # Writing floating-point values

A finite value is written with its shortest decimal: positionally, with at least one digit
after the point, when it is zero or its magnitude lies in `[1e-4, 1e16)` (both bounds taken in
the value's own format), and otherwise as digits with a point after the first one (omitted for
a single digit) followed by `e` and the exponent, which has a sign only when negative. A
negative value, zero included, starts with `-`. The infinities are `inf` and `-inf`, and NaN is
`NaN`.
-/

namespace BeanCodegen.Decimal

/-- The rounding interval of a finite value of a format: the midpoints to its neighbours. The
neighbour below a significand of exactly `2^(precision-1)` is taken to be half as far as the
one above; ends are included for an even significand, and always for a subnormal value. -/
def BinaryFormat.interval (f : BinaryFormat) (m : Nat) (e : Int) : Interval :=
  if m < Nat.pow 2 (f.precision - 1) then ⟨2 * m, 1, 1, e - 1, true⟩
  else if m = Nat.pow 2 (f.precision - 1) then ⟨4 * m, 1, 2, e - 2, true⟩
  else ⟨2 * m, 1, 1, e - 1, m % 2 = 0⟩

/-- Compares `m * 2^e` with `n * 2^k`. -/
def compareBinary (m : Nat) (e : Int) (n : Nat) (k : Int) : Ordering :=
  let lo := min e k
  compare (m * Nat.pow 2 ((e - lo).toNat)) (n * Nat.pow 2 ((k - lo).toNat))

/-- Whether a positive value `m * 2^e` is written with an exponent: below `1e-4` or from
`1e16` on, each bound rounded to the format. -/
def BinaryFormat.usesExponent (f : BinaryFormat) (m : Nat) (e : Int) : Bool :=
  let below (b : BinaryValue) : Bool := match b with
    | .finite _ n k => compareBinary m e n k = .lt
    | _ => false
  below (f.round false 1 10000) || !below (f.round false (Nat.pow 10 16) 1)

/-- Positional notation of `0.ds * 10^k` with at least one digit after the point. -/
def positional (ds : List Char) (k : Int) : String :=
  if k ≤ 0 then "0." ++ String.ofList (List.replicate (-k).toNat '0' ++ ds)
  else if k.toNat < ds.length then
    String.ofList (ds.take k.toNat) ++ "." ++ String.ofList (ds.drop k.toNat)
  else String.ofList (ds ++ List.replicate (k.toNat - ds.length) '0') ++ ".0"

/-- Exponent notation of `0.ds * 10^k`. -/
def exponential (ds : List Char) (k : Int) : String :=
  match ds with
  | [] => "0e0"
  | [d] => String.ofList [d] ++ "e" ++ toString (k - 1)
  | d :: rest => String.ofList (d :: '.' :: rest) ++ "e" ++ toString (k - 1)

/-- The text of a value of a format. -/
def BinaryFormat.render (f : BinaryFormat) : BinaryValue → String
  | .nan => "NaN"
  | .infinite neg => if neg then "-inf" else "inf"
  | .zero neg => if neg then "-0.0" else "0.0"
  | .finite neg m e =>
    let d := (f.interval m e).shortest
    let ds := Nat.toDigits 10 d.digits
    let k := d.exp + ds.length
    let body := if f.usesExponent m e then exponential ds k else positional ds k
    if neg then "-" ++ body else body

end BeanCodegen.Decimal
