import BeanCodegen.Decimal.Binary
/-! # Reading decimal numbers

The decimal syntax of floating-point values: an optional sign, then `inf`, `infinity` or
`nan` in any case, or digits with an optional point (at least one digit on either side) and an
optional exponent `e` or `E` with an optional sign and at least one digit. Nothing else may
stand around it, white space included. A value is rounded to the nearest of its format.

Unsigned integers are written as digits with an optional `+`, and must fit the width.
-/

namespace BeanCodegen.Decimal

/-- The number a list of ASCII digits spells. -/
def digitsValue (ds : List Char) : Nat := ds.foldl (fun acc d => acc * 10 + (d.toNat - 48)) 0

/-- A sign and the characters after it. -/
def splitSign : List Char → Bool × List Char
  | '-' :: rest => (true, rest)
  | '+' :: rest => (false, rest)
  | cs => (false, cs)

/-- A decimal number as written: the digits of its significand and its power of ten. -/
structure DecimalNumber where
  negative : Bool
  significand : Nat
  /-- The number of significant digits, leading zeros dropped. -/
  length : Nat
  exp : Int
  deriving Repr

/-- What a floating-point text denotes. -/
inductive FloatText
  | number (d : DecimalNumber)
  | infinity (negative : Bool)
  | nan
  deriving Repr

/-- Reads the exponent part after the significand, if it is well formed. -/
def readExponent : List Char → Option Int
  | [] => some 0
  | e :: rest =>
    if e = 'e' || e = 'E' then
      let (neg, ds) := splitSign rest
      if !ds.isEmpty && ds.all Char.isDigit then
        some (if neg then -(digitsValue ds : Int) else digitsValue ds)
      else none
    else none

/-- Reads a floating-point text. -/
def FloatText.read? (s : String) : Option FloatText :=
  let (negative, body) := splitSign s.toList
  let word := String.ofList (body.map Char.toLower)
  if word = "inf" || word = "infinity" then some (.infinity negative)
  else if word = "nan" then some .nan
  else
    let whole := body.takeWhile Char.isDigit
    let rest := body.dropWhile Char.isDigit
    let (frac, rest) := match rest with
      | '.' :: more => (more.takeWhile Char.isDigit, more.dropWhile Char.isDigit)
      | _ => ([], rest)
    if whole.isEmpty && frac.isEmpty then none
    else
      (readExponent rest).map fun e =>
        let ds := (whole ++ frac).dropWhile (· = '0')
        .number { negative, significand := digitsValue ds, length := ds.length
                  exp := e - frac.length }

/-- The value of a decimal number in a format. Numbers far beyond the format's range go to
infinity or zero without computing their powers of ten. -/
def DecimalNumber.toBinary (f : BinaryFormat) (d : DecimalNumber) : BinaryValue :=
  if d.significand = 0 then .zero d.negative
  else if d.exp + d.length > 400 then .infinite d.negative
  else if d.exp + d.length < -400 then .zero d.negative
  else f.round d.negative (d.significand * Nat.pow 10 d.exp.toNat) (Nat.pow 10 ((-d.exp).toNat))

/-- The value a floating-point text denotes in a format, if the text is well formed. -/
def readFloat? (f : BinaryFormat) (s : String) : Option BinaryValue :=
  (FloatText.read? s).map fun
    | .number d => d.toBinary f
    | .infinity neg => .infinite neg
    | .nan => .nan

/-- Reads an unsigned integer below `2^bits`: digits with an optional leading `+`. -/
def readUnsigned? (bits : Nat) (s : String) : Option Nat :=
  let ds := match s.toList with
    | '+' :: rest => rest
    | cs => cs
  if !ds.isEmpty && ds.all Char.isDigit && digitsValue ds < Nat.pow 2 bits then
    some (digitsValue ds)
  else none

end BeanCodegen.Decimal
