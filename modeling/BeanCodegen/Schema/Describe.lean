import BeanCodegen.Schema.Basic
import BeanCodegen.Text.Json
/-! # Describing a schema graph

A schema graph as JSON, for inspecting what a request resolves to. Every record becomes an
object with its fields in declaration order under their snake-case names; an enumeration
becomes its capitalized name, an absent value `null`, a pair an array of two, and a type
reference an object whose one key names the kind. Comments are keyed by path key, in
increasing order of the keys.
-/

namespace BeanCodegen.Schema

open BeanCodegen.Text

/-- A word with its first letter capitalized. -/
def capitalized (s : String) : String :=
  match s.toList with
  | [] => ""
  | c :: cs => String.ofList (c.toUpper :: cs)

/-- The name of a field type in a description, as `Uint64`. -/
def FieldType.title (t : FieldType) : String := capitalized t.keyword

/-- The name of a cardinality in a description, as `Optional`. -/
def Cardinality.title (c : Cardinality) : String := capitalized c.keyword

/-- The name of a dialect in a description. -/
def Dialect.title : Dialect → String
  | .proto2 => "Proto2"
  | .proto3 => "Proto3"

/-- A descriptor path. -/
def pathJson (p : List Nat) : JsonValue := .list .nat p

/-- A field. -/
def Field.toJson (f : Field) : JsonValue :=
  .obj [("name", .str f.name), ("json_name", .opt .str f.jsonName), ("number", .int f.number),
    ("cardinality", .str f.cardinality.title), ("ty", .str f.fieldType.title),
    ("type_name", .str f.typeName), ("oneof_index", .opt .nat f.oneofIndex),
    ("default_value", .opt .str f.defaultValue), ("proto3_optional", .bool f.proto3Optional),
    ("extendee", .opt .str f.extendee), ("deprecated", .bool f.deprecated),
    ("index", .nat f.index), ("path", pathJson f.path)]

/-- A oneof. -/
def Oneof.toJson (o : Oneof) : JsonValue :=
  .obj [("name", .str o.name), ("index", .nat o.index), ("path", pathJson o.path),
    ("fields", .list .nat o.fields), ("synthetic", .bool o.synthetic)]

/-- A message. -/
def Message.toJson (m : Message) : JsonValue :=
  .obj [("name", .str m.name), ("type_name", .list .str m.typeName),
    ("full_name", .str m.fullName), ("path", pathJson m.path), ("index", .nat m.index),
    ("parent", .opt .nat m.parent), ("fields", .list Field.toJson m.fields),
    ("oneofs", .list Oneof.toJson m.oneofs), ("extensions", .list Field.toJson m.extensions),
    ("nested", .list .nat m.nested), ("enums", .list .nat m.enums),
    ("declared_nested", .nat m.declaredNested), ("declared_enums", .nat m.declaredEnums),
    ("map_entry", .bool m.mapEntry), ("group", .bool m.group),
    ("deprecated", .bool m.deprecated),
    ("extension_ranges", .list (fun (s, e) => .arr [.int s, .int e]) m.extensionRanges)]

/-- An enum value. -/
def EnumValue.toJson (v : EnumValue) : JsonValue :=
  .obj [("name", .str v.name), ("number", .int v.number), ("path", pathJson v.path),
    ("deprecated", .bool v.deprecated), ("alias_of", .opt .nat v.aliasOf)]

/-- An enum. -/
def EnumType.toJson (e : EnumType) : JsonValue :=
  .obj [("name", .str e.name), ("type_name", .list .str e.typeName),
    ("full_name", .str e.fullName), ("path", pathJson e.path), ("index", .nat e.index),
    ("parent", .opt .nat e.parent), ("values", .list EnumValue.toJson e.values),
    ("deprecated", .bool e.deprecated)]

/-- A type reference, as an object naming its kind. -/
def TypeRef.toJson : TypeRef → JsonValue
  | .message id => .obj [("Message", .obj [("file", .nat id.file), ("index", .nat id.index)])]
  | .enum id => .obj [("Enum", .obj [("file", .nat id.file), ("index", .nat id.index)])]

/-- The comments of a declaration. -/
def Comments.toJson (c : Comments) : JsonValue :=
  .obj [("leading", .opt .str c.leading), ("trailing", .opt .str c.trailing)]

/-- A file of the graph. -/
def File.toJson (u : File) : JsonValue :=
  .obj [("id", .nat u.id), ("name", .str u.name), ("package", .str u.package),
    ("syntax", .str u.dialect.title),
    ("java", .obj [("package", .opt .str u.java.package),
      ("outer_classname", .opt .str u.java.outerClassname),
      ("multiple_files", .bool u.java.multipleFiles)]),
    ("deprecated", .bool u.deprecated), ("dependencies", .list .str u.dependencies),
    ("messages", .list Message.toJson u.messages), ("enums", .list EnumType.toJson u.enums),
    ("extensions", .list Field.toJson u.extensions),
    ("comments", .obj ((u.comments.mergeSort fun a b => a.1 ≤ b.1).map fun (k, c) =>
      (k, c.toJson))),
    ("reexports", .list TypeRef.toJson u.reexports)]

/-- The graph. -/
def Graph.toJson (g : Graph) : JsonValue := .obj [("units", .list File.toJson g.files)]

/-- The indented JSON text of the graph. -/
def Graph.describe (g : Graph) : String := g.toJson.pretty

end BeanCodegen.Schema
