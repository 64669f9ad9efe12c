import BeanCodegen.Decimal.Read
import BeanCodegen.Decimal.Notation
import BeanCodegen.Text.ByteEscape
import BeanCodegen.Text.Literal
import BeanCodegen.Shape.Basic
/-! # Default values as Java literals

How an explicit default of a scalar field is written in Java. Text is written as a string
literal and bytes as an array of signed bytes. Floating-point defaults are read in the field's
own width and written back with the shortest decimal that identifies them, then suffixed `f`
or `d`; the texts `inf`, `-inf` and `nan` become the class constants. Unsigned defaults keep
their bits in the signed Java type. A default that does not read as its type is copied as it
stands.
-/

namespace BeanCodegen.Shape

open BeanCodegen.Decimal BeanCodegen.Text

/-- A byte as a signed Java `byte`. -/
def signedByte (b : UInt8) : Int := if b.toNat < 128 then b.toNat else (b.toNat : Int) - 256

/-- A Java array literal of the bytes a default's escapes spell. -/
def bytesLiteral (text : String) : String :=
  "new byte[] \x7b" ++ ", ".intercalate ((unescapeBytes text.toUTF8.toList).map
    fun b => toString (signedByte b)) ++ "\x7d"

/-- A floating-point default in a format, with the Java class and literal suffix of the
format. -/
def floatLiteral (fmt : BinaryFormat) (cls : String) (suffix : String) (text : String) : String :=
  if text = "inf" then cls ++ ".POSITIVE_INFINITY"
  else if text = "-inf" then cls ++ ".NEGATIVE_INFINITY"
  else if text = "nan" then cls ++ ".NaN"
  else ((readFloat? fmt text).map fmt.render |>.getD text) ++ suffix

/-- An unsigned value of `bits` bits read as a two's-complement signed value. -/
def asSigned (bits n : Nat) : Int :=
  if n < Nat.pow 2 (bits - 1) then n else (n : Int) - Nat.pow 2 bits

/-- The Java literal of a scalar default. -/
def scalarDefault (s : Scalar) (text : String) : String :=
  match s with
  | .bool => text
  | .string => stringLiteral text
  | .bytes => bytesLiteral text
  | .float => floatLiteral .single "Float" "f" text
  | .double => floatLiteral .double "Double" "d" text
  | .int32 => text
  | .int64 => text ++ "L"
  | .uint32 => match readUnsigned? 32 text with
    | some v => toString (asSigned 32 v)
    | none => text
  | .uint64 => match readUnsigned? 64 text with
    | some v => toString (asSigned 64 v) ++ "L"
    | none => text ++ "L"

end BeanCodegen.Shape
