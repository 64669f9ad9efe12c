/-! # Writing protobuf fields

The pieces of the protobuf wire format a plugin needs to answer: varints, field keys, and
varint and length-delimited fields. A message is the concatenation of its fields' bytes,
written in field-number order; an absent optional field writes nothing.
-/

namespace BeanCodegen.Descriptor

/-- The varint bytes of a number: seven bits per byte, least significant first, the high bit
of every byte but the last set. -/
def varintBytes (n : Nat) : List UInt8 :=
  if n < 128 then [n.toUInt8]
  else (n % 128 + 128).toUInt8 :: varintBytes (n / 128)
termination_by n
decreasing_by omega

/-- The varint bytes of a 32-bit signed number: a negative number is written as its 64-bit
two's complement, in ten bytes. -/
def int32Bytes (i : Int) : List UInt8 :=
  varintBytes (if i < 0 then (i + Nat.pow 2 64).toNat else i.toNat)

/-- The key of a field: its number and wire type. -/
def keyBytes (field wire : Nat) : List UInt8 := varintBytes (field * 8 + wire)

/-- A varint field. -/
def varintField (field n : Nat) : List UInt8 := keyBytes field 0 ++ varintBytes n

/-- A length-delimited field holding the given bytes. -/
def bytesField (field : Nat) (payload : List UInt8) : List UInt8 :=
  keyBytes field 2 ++ varintBytes payload.length ++ payload

/-- A string field, holding the string's UTF-8 bytes. -/
def stringField (field : Nat) (s : String) : List UInt8 := bytesField field s.toUTF8.toList

/-- A field that is written only when present. -/
def optionalField (write : α → List UInt8) : Option α → List UInt8
  | some a => write a
  | none => []

/-- A packed repeated 32-bit signed field; an empty one is not written. -/
def packedInt32Field (field : Nat) (xs : List Int) : List UInt8 :=
  if xs.isEmpty then [] else bytesField field (xs.flatMap int32Bytes)

end BeanCodegen.Descriptor
