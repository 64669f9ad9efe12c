/-! # Field types, cardinalities and wire kinds

The eighteen protobuf field types, in the order of their descriptor numbers 1 to 18, the three
cardinalities, and the wire kind that decides how a value of each type is laid out in the
binary format. A number outside the descriptor's range reads as the default: `double` for a
type and `optional` for a cardinality.
-/

namespace BeanCodegen.Schema

/-- A protobuf field type. -/
inductive FieldType
  | double | float | int64 | uint64 | int32 | fixed64 | fixed32 | bool | string | group
  | message | bytes | uint32 | enum | sfixed32 | sfixed64 | sint32 | sint64
  deriving DecidableEq, Inhabited, Repr

/-- How many values a field holds. -/
inductive Cardinality
  | optional | required | repeated
  deriving DecidableEq, Inhabited, Repr

/-- How a value is laid out in the binary format. -/
inductive WireKind
  | varint | fixed32 | fixed64 | lengthDelimited | group
  deriving DecidableEq, Inhabited, Repr

/-- The protobuf language version a file is written in. -/
inductive Dialect
  | proto2 | proto3
  deriving DecidableEq, Inhabited, Repr

namespace FieldType

/-- All field types in the order of their descriptor numbers. -/
def all : List FieldType :=
  [.double, .float, .int64, .uint64, .int32, .fixed64, .fixed32, .bool, .string, .group,
   .message, .bytes, .uint32, .enum, .sfixed32, .sfixed64, .sint32, .sint64]

/-- The field type with a descriptor number, if the number names one. -/
def ofNumber? (n : Int) : Option FieldType :=
  if 1 ≤ n then all[(n - 1).toNat]? else none

/-- The field type a descriptor number reads as: out-of-range numbers read as `double`. -/
def ofNumber (n : Int) : FieldType := (ofNumber? n).getD .double

/-- The wire kind of a type. -/
def wire : FieldType → WireKind
  | .int32 | .int64 | .uint32 | .uint64 | .sint32 | .sint64 | .bool | .enum => .varint
  | .fixed32 | .sfixed32 | .float => .fixed32
  | .fixed64 | .sfixed64 | .double => .fixed64
  | .string | .bytes | .message => .lengthDelimited
  | .group => .group

/-- Whether values of the type are messages or enums, named by a type name. -/
def isNamed : FieldType → Bool
  | .message | .group | .enum => true
  | _ => false

/-- Whether values of the type are messages. -/
def isMessage : FieldType → Bool
  | .message | .group => true
  | _ => false

/-- The keyword of the type in a `.proto` file. -/
def keyword : FieldType → String
  | .double => "double" | .float => "float" | .int64 => "int64" | .uint64 => "uint64"
  | .int32 => "int32" | .fixed64 => "fixed64" | .fixed32 => "fixed32" | .bool => "bool"
  | .string => "string" | .group => "group" | .message => "message" | .bytes => "bytes"
  | .uint32 => "uint32" | .enum => "enum" | .sfixed32 => "sfixed32"
  | .sfixed64 => "sfixed64" | .sint32 => "sint32" | .sint64 => "sint64"

end FieldType

namespace Cardinality

/-- The cardinality with a descriptor number, if the number names one. -/
def ofNumber? (n : Int) : Option Cardinality :=
  if n = 1 then some .optional else if n = 2 then some .required
  else if n = 3 then some .repeated else none

/-- The cardinality a descriptor number reads as: out-of-range numbers read as `optional`. -/
def ofNumber (n : Int) : Cardinality := (ofNumber? n).getD .optional

/-- The keyword of the cardinality in a `.proto` file. -/
def keyword : Cardinality → String
  | .optional => "optional"
  | .required => "required"
  | .repeated => "repeated"

end Cardinality

/-- The name of a wire kind in generated comments. -/
def WireKind.label : WireKind → String
  | .varint => "varint"
  | .fixed32 => "fixed32"
  | .fixed64 => "fixed64"
  | .lengthDelimited => "length-delimited"
  | .group => "group"

/-- The dialect a file's declaration names: `proto3`, and `proto2` for anything else. -/
def Dialect.parse (s : String) : Dialect := if s = "proto3" then .proto3 else .proto2

end BeanCodegen.Schema
