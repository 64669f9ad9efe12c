import BeanCodegen.Schema.Basic
/-! # Field shapes

How a field looks in Java. Its values are Java scalars, value classes of messages, or enums;
the field holds one value, a list of them, a map, one variant of a oneof, or is an extension of
another message.

The nine scalar kinds merge the protobuf types that Java represents alike: signed 32-bit types
are `int`, unsigned 32-bit types are `int` too (their values keep their bits), and so on.
-/

namespace BeanCodegen.Shape

open BeanCodegen.Schema

/-- The Java scalar kinds. -/
inductive Scalar
  | double | float | int32 | int64 | uint32 | uint64 | bool | string | bytes
  deriving DecidableEq, Inhabited, Repr

namespace Scalar

/-- The scalar kind of a field type; none for messages, groups and enums. -/
def ofFieldType : FieldType → Option Scalar
  | .double => some .double
  | .float => some .float
  | .int32 | .sint32 | .sfixed32 => some .int32
  | .int64 | .sint64 | .sfixed64 => some .int64
  | .uint32 | .fixed32 => some .uint32
  | .uint64 | .fixed64 => some .uint64
  | .bool => some .bool
  | .string => some .string
  | .bytes => some .bytes
  | .message | .group | .enum => none

/-- The Java type of a single value. -/
def primitive : Scalar → String
  | .double => "double"
  | .float => "float"
  | .int32 | .uint32 => "int"
  | .int64 | .uint64 => "long"
  | .bool => "boolean"
  | .string => "String"
  | .bytes => "byte[]"

/-- The Java type of a value that may be null or stand in a collection. -/
def boxed : Scalar → String
  | .double => "Double"
  | .float => "Float"
  | .int32 | .uint32 => "Integer"
  | .int64 | .uint64 => "Long"
  | .bool => "Boolean"
  | .string => "String"
  | .bytes => "byte[]"

/-- The Java literal of the zero value. -/
def zero : Scalar → String
  | .double => "0.0d"
  | .float => "0.0f"
  | .int32 | .uint32 => "0"
  | .int64 | .uint64 => "0L"
  | .bool => "false"
  | .string => "\"\""
  | .bytes => "null"

end Scalar

/-- The type of one value of a field. -/
inductive ValueKind
  | scalar (s : Scalar)
  | message (id : MessageId)
  | enum (id : EnumId)
  deriving DecidableEq, Inhabited, Repr

/-- How a field holds its values. -/
inductive FieldShape
  | scalar (value : Scalar) (repeated : Bool)
  | message (id : MessageId) (repeated : Bool)
  | enum (id : EnumId) (repeated : Bool)
  /-- A map field: the key's scalar kind and the value's type. -/
  | map (key : Scalar) (value : ValueKind)
  /-- A member of a non-synthetic oneof. -/
  | variant (oneof : Nat) (payload : ValueKind)
  /-- An extension of another message. -/
  | extension (extendee : MessageId) (payload : ValueKind) (repeated : Bool)
  deriving DecidableEq, Inhabited, Repr

/-- A default value as written in Java: a literal, or a value of an enum by number. -/
inductive DefaultValue
  | literal (text : String)
  | enumValue (id : EnumId) (number : Int)
  deriving DecidableEq, Inhabited, Repr

/-- A field with its shape, its wire kind, its default and whether its bean member may be null
(a proto3 optional scalar or enum). -/
structure Classified where
  field : Field
  shape : FieldShape
  wire : WireKind
  default : Option DefaultValue
  nullable : Bool
  deriving Inhabited, Repr

namespace Classified

/-- The type of the field's values; none for a map. -/
def valueKind (c : Classified) : Option ValueKind :=
  match c.shape with
  | .scalar v _ => some (.scalar v)
  | .message id _ => some (.message id)
  | .enum id _ => some (.enum id)
  | .variant _ p | .extension _ p _ => some p
  | .map .. => none

/-- Whether the field's values are bytes. -/
def isBytes (c : Classified) : Bool := c.valueKind == some (.scalar .bytes)

/-- The field as a comment line describes it: cardinality, type, name, number and wire kind,
as in `repeated string tags = 4; (length-delimited)`. Proto3 omits the cardinality of
fields that are neither repeated nor explicitly optional, and map fields show as `map`. -/
def describe (c : Classified) (dialect : Dialect) : String :=
  let f := c.field
  let label := match c.shape with
    | .map .. => ""
    | _ =>
      if f.isRepeated then "repeated "
      else if dialect = .proto3 && !f.proto3Optional then ""
      else f.cardinality.keyword
  let space := if label.isEmpty || label.endsWith " " then "" else " "
  let ty := match c.shape with
    | .map .. => "map"
    | _ =>
      if f.fieldType.isNamed then String.ofList (f.typeName.toList.dropWhile (· = '.'))
      else f.fieldType.keyword
  label ++ space ++ ty ++ " " ++ f.name ++ " = " ++ toString f.number ++ "; (" ++ c.wire.label ++ ")"

end Classified

end BeanCodegen.Shape
