import BeanCodegen.Schema.Basic
import BeanCodegen.Schema.Error
/-! # Resolving type names

The type index lists every message and enum of a graph under its full name: files in order,
and in each file its messages in arena order, then its enums. A name resolves to the first
entry that carries it. `checkReferences` resolves every type name and extendee that fields
mention, so that later stages can rely on them.
-/

namespace BeanCodegen.Schema

/-- The messages and enums of a graph under their full names, in resolution order. -/
structure TypeIndex where
  entries : List (String × TypeRef)
  deriving Inhabited

namespace TypeIndex

/-- The index of a graph. -/
def build (g : Graph) : TypeIndex :=
  ⟨g.files.flatMap fun u =>
    (u.messages.zipIdx.map fun (m, i) => (m.fullName, TypeRef.message ⟨u.id, i⟩)) ++
    (u.enums.zipIdx.map fun (e, i) => (e.fullName, TypeRef.enum ⟨u.id, i⟩))⟩

/-- The first type with a full name. -/
def resolve (idx : TypeIndex) (name : String) : Except SchemaError TypeRef :=
  match idx.entries.lookup name with
  | some r => .ok r
  | none => .error (.unresolvedType name)

/-- The message with a full name. -/
def resolveMessage (idx : TypeIndex) (name : String) : Except SchemaError MessageId := do
  match ← idx.resolve name with
  | .message id => return id
  | .enum _ => throw (.kindMismatch name .message)

/-- The enum with a full name. -/
def resolveEnum (idx : TypeIndex) (name : String) : Except SchemaError EnumId := do
  match ← idx.resolve name with
  | .enum id => return id
  | .message _ => throw (.kindMismatch name .enum)

/-- Resolves the type and the extendee a field names. -/
def checkField (idx : TypeIndex) (f : Field) : Except SchemaError Unit := do
  if f.fieldType.isMessage then discard <| idx.resolveMessage f.typeName
  else if f.fieldType.isNamed then discard <| idx.resolveEnum f.typeName
  if let some e := f.extendee then discard <| idx.resolveMessage e

/-- Resolves every type name and extendee of a graph: per file, the fields and then the
extensions of each message, then the file's extensions. -/
def checkReferences (idx : TypeIndex) (g : Graph) : Except SchemaError Unit :=
  g.files.forM fun u =>
    ((u.messages.flatMap fun m => m.fields ++ m.extensions) ++ u.extensions).forM idx.checkField

end TypeIndex

end BeanCodegen.Schema
