/-! # The protobuf binary format

The lowest layer of reading a serialized message: varints of at most ten bytes, field keys,
and the errors a reader reports. An error carries the chain of fields it happened in,
innermost first, and is shown as `failed to decode Protobuf message: ` followed by each
`Message.field: ` of the chain and the description of the problem.
-/

namespace BeanCodegen.Descriptor

/-- The six wire types of the binary format, numbered 0 to 5. -/
inductive WireType
  | varint | sixtyFourBit | lengthDelimited | startGroup | endGroup | thirtyTwoBit
  deriving DecidableEq, Inhabited, Repr

namespace WireType

/-- The wire type with a number. -/
def ofNat? : Nat → Option WireType
  | 0 => some .varint
  | 1 => some .sixtyFourBit
  | 2 => some .lengthDelimited
  | 3 => some .startGroup
  | 4 => some .endGroup
  | 5 => some .thirtyTwoBit
  | _ => none

/-- The name of a wire type in error descriptions. -/
def name : WireType → String
  | .varint => "Varint"
  | .sixtyFourBit => "SixtyFourBit"
  | .lengthDelimited => "LengthDelimited"
  | .startGroup => "StartGroup"
  | .endGroup => "EndGroup"
  | .thirtyTwoBit => "ThirtyTwoBit"

end WireType

/-- What went wrong while reading. -/
inductive DecodeProblem
  /-- A varint runs past the input, past ten bytes, or past 64 bits. -/
  | invalidVarint
  /-- A key above the 32-bit range. -/
  | invalidKey (key : Nat)
  /-- A key whose wire type is 6 or 7. -/
  | invalidWireTypeValue (value : Nat)
  /-- A key with field number 0. -/
  | invalidTag
  /-- A known field arrives with the wrong wire type. -/
  | wrongWireType (actual expected : WireType)
  /-- A length or a fixed-size value runs past the input. -/
  | bufferUnderflow
  /-- The fields of a nested message run past its declared length. -/
  | lengthExceeded
  /-- Messages nest deeper than the reader allows. -/
  | recursionLimit
  /-- A string field is not UTF-8. -/
  | notUtf8
  /-- A group ends with the wrong field number, or an end-group key stands alone. -/
  | unexpectedEndGroup
  deriving DecidableEq, Inhabited, Repr

/-- The description of a problem. -/
def DecodeProblem.description : DecodeProblem → String
  | .invalidVarint => "invalid varint"
  | .invalidKey k => "invalid key value: " ++ toString k
  | .invalidWireTypeValue v => "invalid wire type value: " ++ toString v
  | .invalidTag => "invalid tag value: 0"
  | .wrongWireType a e => "invalid wire type: " ++ a.name ++ " (expected " ++ e.name ++ ")"
  | .bufferUnderflow => "buffer underflow"
  | .lengthExceeded => "delimited length exceeded"
  | .recursionLimit => "recursion limit reached"
  | .notUtf8 => "invalid string value: data is not UTF-8 encoded"
  | .unexpectedEndGroup => "unexpected end group tag"

/-- A reading error: the problem and the fields it happened in, innermost first, each as the
message type's name and the field's name. -/
structure DecodeError where
  context : List (String × String) := []
  problem : DecodeProblem
  deriving DecidableEq, Inhabited, Repr

/-- The text of a reading error. -/
def DecodeError.message (e : DecodeError) : String :=
  "failed to decode Protobuf message: " ++
    String.join (e.context.map fun (m, f) => m ++ "." ++ f ++ ": ") ++ e.problem.description

/-- Adds an enclosing field to an error's context. -/
def DecodeError.within (msg field : String) (e : DecodeError) : DecodeError :=
  { e with context := e.context ++ [(msg, field)] }

/-- The result of a reader: a value and the position after it. -/
abbrev Read (α : Type) := Except DecodeError (α × Nat)

/-- Fails with a problem and no context. -/
def Read.fail (p : DecodeProblem) : Read α := .error { problem := p }

/-- Reads the bytes of a varint from `pos`; `left` counts the bytes it may still take. Each
byte gives seven bits, least significant first; the tenth byte may only hold one bit. -/
def varintFrom (b : ByteArray) (pos shift acc : Nat) : Nat → Read Nat
  | 0 => Read.fail .invalidVarint
  | left + 1 =>
    match b[pos]? with
    | none => Read.fail .invalidVarint
    | some byte =>
      let v := byte.toNat
      let acc := acc + (v % 128) * Nat.pow 2 shift
      if v < 128 then
        if left = 0 && v ≥ 2 then Read.fail .invalidVarint else .ok (acc, pos + 1)
      else varintFrom b (pos + 1) (shift + 7) acc left

/-- Reads a varint at a position. -/
def readVarint (b : ByteArray) (pos : Nat) : Read Nat := varintFrom b pos 0 0 10

/-- Reads a field key: the field number and the wire type. -/
def readKey (b : ByteArray) (pos : Nat) : Read (Nat × WireType) :=
  match readVarint b pos with
  | .error e => .error e
  | .ok (key, pos) =>
    if key ≥ Nat.pow 2 32 then Read.fail (.invalidKey key)
    else
      match WireType.ofNat? (key % 8) with
      | none => Read.fail (.invalidWireTypeValue (key % 8))
      | some wt =>
        if key / 8 = 0 then Read.fail .invalidTag else .ok ((key / 8, wt), pos)

/-- The signed 32-bit integer in the low bits of a varint. -/
def toInt32 (n : Nat) : Int :=
  let v : Nat := n % Nat.pow 2 32
  if v < Nat.pow 2 31 then v else (v : Int) - Nat.pow 2 32

end BeanCodegen.Descriptor
