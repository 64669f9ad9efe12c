import BeanCodegen.Error
import BeanCodegen.Schema.Index
import BeanCodegen.Shape.Default
/-! # Classifying fields

A field's shape follows from its type, its cardinality and where it stands. A field with an
extendee is an extension; otherwise a member of a non-synthetic oneof is a variant; otherwise a
repeated field whose message type is a map entry is a map; otherwise the field holds its
values directly. The value type is resolved first, then the extendee, then the map entry.

A map entry needs a scalar field numbered 1 for the key and a field numbered 2 for the value.
A default counts only for a field that is not repeated; a default of an enum field must name
one of the enum's values, and a default of a message field is ignored.
-/

namespace BeanCodegen.Shape

open BeanCodegen.Schema

/-- The type of a field's values, resolving message and enum type names. -/
def valueOf (idx : TypeIndex) (f : Field) : Except GenError ValueKind :=
  match Scalar.ofFieldType f.fieldType with
  | some s => .ok (.scalar s)
  | none =>
    if f.fieldType.isMessage then (ValueKind.message <$> idx.resolveMessage f.typeName).mapError .schema
    else (ValueKind.enum <$> idx.resolveEnum f.typeName).mapError .schema

/-- The shape of a map field with a given entry message. -/
def mapShape (g : Graph) (idx : TypeIndex) (entry : MessageId) : Except GenError FieldShape := do
  let m := g.message entry
  let byNumber (n : Int) := m.fields.find? (·.number = n)
  let some key := (byNumber 1).bind (Scalar.ofFieldType ·.fieldType)
    | throw (.malformedMapEntry m.fullName)
  let some valueField := byNumber 2
    | throw (.malformedMapEntry m.fullName)
  return .map key (← valueOf idx valueField)

/-- The default of a field that is not repeated, from its default text. -/
def explicitDefault (g : Graph) (f : Field) (value : ValueKind) (text : String) :
    Except GenError (Option DefaultValue) :=
  match value with
  | .message _ => .ok none
  | .enum id =>
    match (g.enumType id).valueNamed text with
    | some v => .ok (some (.enumValue id v.number))
    | none => .error (.unknownEnumDefault f.name text)
  | .scalar s => .ok (some (.literal (scalarDefault s text)))

/-- How a field holds values of type `value`: as an extension of its extendee, as a variant
of its oneof, as a map when it repeats a map entry, or directly. -/
def shapeOf (g : Graph) (idx : TypeIndex) (scope : Option Message) (f : Field)
    (value : ValueKind) : Except GenError FieldShape :=
  match f.extendee with
  | some e => do
    let target ← (idx.resolveMessage e).mapError .schema
    pure (.extension target value f.isRepeated)
  | none =>
    match scope.bind (·.variantGroup f) with
    | some grp => pure (.variant grp.index value)
    | none =>
      match value with
      | .message id =>
        if f.isRepeated && (g.message id).mapEntry then mapShape g idx id
        else pure (.message id f.isRepeated)
      | .enum id => pure (.enum id f.isRepeated)
      | .scalar s => pure (.scalar s f.isRepeated)

/-- The default of a field with values of type `value`: its default text read for that type,
unless it has none or is repeated. -/
def defaultOf (g : Graph) (f : Field) (value : ValueKind) : Except GenError (Option DefaultValue) :=
  match f.defaultValue with
  | some text => if f.isRepeated then pure none else explicitDefault g f value text
  | none => pure none

/-- Classifies a field; `scope` is the message that declares it, if any. -/
def classify (g : Graph) (idx : TypeIndex) (scope : Option Message) (f : Field) :
    Except GenError Classified := do
  let value ← valueOf idx f
  let shape ← shapeOf g idx scope f value
  let default ← defaultOf g f value
  let nullable := f.proto3Optional && (match value with | .message _ => false | _ => true)
  return { field := f, shape, wire := f.fieldType.wire, default, nullable }

end BeanCodegen.Shape
