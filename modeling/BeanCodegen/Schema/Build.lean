import BeanCodegen.Descriptor.Basic
import BeanCodegen.Schema.Basic
import BeanCodegen.Schema.Error
/-! # Building a schema graph

A file descriptor becomes a `File` of the graph in four steps: its message tree is flattened in
pre-order, each message's children are linked to it, its enums are collected (the file's own,
then those of each message in arena order) and linked, and the comments are indexed by path.
The graph then resolves public imports: a file that publicly imports another re-exports that
file's types.
-/

namespace BeanCodegen.Schema

open BeanCodegen.Descriptor

/-- A message descriptor at its place in the pre-order walk. -/
structure FlatMessage where
  raw : MessageProto
  parent : Option Nat
  index : Nat
  path : List Nat
  typeName : List String
  deriving Inhabited

/-- Appends the pre-order walk of a list of sibling messages to `out`; the siblings have parent
`parent`, and their paths extend `parentPath` by `tag` and the position, counted from `i`. -/
def flattenFrom (parent : Option Nat) (parentPath : List Nat) (parentNames : List String)
    (tag : Nat) (out : Array FlatMessage) : List MessageProto → Nat → Array FlatMessage
  | [], _ => out
  | raw :: rest, i =>
    let path := parentPath ++ [tag, i]
    let names := parentNames ++ [raw.name.getD ""]
    let me := out.size
    let out := out.push { raw, parent, index := i, path, typeName := names }
    let out := flattenFrom (some me) path names 3 out raw.nestedType 0
    flattenFrom parent parentPath parentNames tag out rest (i + 1)
termination_by l => sizeOf l
decreasing_by
  all_goals simp_wf
  all_goals first
    | omega
    | (cases raw; simp only [MessageProto.mk.sizeOf_spec]; omega)

/-- The pre-order walk of a file's message tree. -/
def flatten (messages : List MessageProto) : List FlatMessage :=
  (flattenFrom none [] [] 4 #[] messages 0).toList

/-- A field declaration at its place: position `i` under `parentPath` and `tag`. -/
def Field.ofProto (raw : FieldProto) (i : Nat) (path : List Nat) : Field where
  name := raw.name.getD ""
  jsonName := raw.jsonName
  number := raw.number.getD 0
  cardinality := Cardinality.ofNumber (raw.label.getD 1)
  fieldType := FieldType.ofNumber (raw.fieldType.getD 1)
  typeName := raw.typeName.getD ""
  oneofIndex := raw.oneofIndex.bind fun n => if 0 ≤ n then some n.toNat else none
  defaultValue := raw.defaultValue
  proto3Optional := raw.proto3Optional.getD false
  extendee := raw.extendee
  deprecated := (raw.options.bind (·.deprecated)).getD false
  index := i
  path := path

/-- A list of field declarations under a parent path and a tag. -/
def wrapFields (list : List FieldProto) (parentPath : List Nat) (tag : Nat) : List Field :=
  list.zipIdx.map fun (raw, i) => Field.ofProto raw i (parentPath ++ [tag, i])

/-- The oneofs of a message with their members among `fields`. -/
def wrapOneofs (decls : List OneofProto) (fields : List Field) (path : List Nat) : List Oneof :=
  decls.zipIdx.map fun (o, i) =>
    let members := (fields.filter (·.oneofIndex = some i)).map (·.index)
    let synthetic := !members.isEmpty &&
      members.all fun m => (fields[m]?.map (·.proto3Optional)).getD false
    { name := o.name.getD "", index := i, path := path ++ [8, i], fields := members, synthetic }

/-- The message a flattened descriptor becomes, before linking. A message is a group's body
when its parent has a field of type group whose type name is this message's full name. -/
def wrapMessage (package : String) (flat : List FlatMessage) (f : FlatMessage) : Message :=
  let name := fullName package f.typeName
  let fields := wrapFields f.raw.field f.path 2
  let group := match f.parent with
    | some p => match flat[p]? with
      | some pf => pf.raw.field.any fun fd =>
          FieldType.ofNumber (fd.fieldType.getD 1) = .group && fd.typeName.getD "" = name
      | none => false
    | none => false
  { name := f.raw.name.getD ""
    typeName := f.typeName
    fullName := name
    path := f.path
    index := f.index
    parent := f.parent
    fields
    oneofs := wrapOneofs f.raw.oneofDecl fields f.path
    extensions := wrapFields f.raw.extension f.path 6
    declaredNested := f.raw.nestedType.length
    declaredEnums := f.raw.enumType.length
    mapEntry := (f.raw.options.bind (·.mapEntry)).getD false
    group
    deprecated := (f.raw.options.bind (·.deprecated)).getD false
    extensionRanges := f.raw.extensionRange.map fun r => (r.start.getD 0, r.stop.getD 0) }

/-- The values of an enum; each value records the first earlier value with its number. -/
def wrapValues (values : List EnumValueProto) (path : List Nat) : List EnumValue :=
  values.zipIdx.map fun (v, i) =>
    let number := v.number.getD 0
    { name := v.name.getD ""
      number
      path := path ++ [2, i]
      deprecated := (v.options.bind (·.deprecated)).getD false
      aliasOf := (values.take i).findIdx? fun w => w.number.getD 0 = number }

/-- An enum declaration with its parent message, if any, and the parent's name chain. -/
def wrapEnum (raw : EnumProto) (package : String) (parent : Option (Nat × List String))
    (i : Nat) (path : List Nat) : EnumType :=
  let typeName := (parent.map Prod.snd).getD [] ++ [raw.name.getD ""]
  { name := raw.name.getD ""
    typeName
    fullName := fullName package typeName
    path
    index := i
    parent := parent.map Prod.fst
    values := wrapValues raw.value path
    deprecated := (raw.options.bind (·.deprecated)).getD false }

/-- The indices of the nodes whose parent is `i`, in order. -/
def childrenOf (parents : List (Option Nat)) (i : Nat) : List Nat :=
  (parents.zipIdx.filter fun (p, _) => p = some i).map Prod.snd

/-- The first node whose parent is out of range, with that parent. -/
def firstDangling (names : List String) (parents : List (Option Nat)) (count : Nat) :
    Option (String × Nat) :=
  (names.zip parents).findSome? fun (n, p) => match p with
    | some q => if count ≤ q then some (n, q) else none
    | none => none

/-- Links each message to the messages nested in it; each message must have as many children
as it declares. -/
def linkNested (ms : List Message) : Except SchemaError (List Message) := do
  let parents := ms.map (·.parent)
  if let some (n, p) := firstDangling (ms.map (·.fullName)) parents ms.length then
    throw (.danglingParent n p)
  ms.zipIdx.mapM fun (m, i) =>
    let nested := childrenOf parents i
    if nested.length ≠ m.declaredNested then
      .error (.nestingMismatch m.fullName m.declaredNested nested.length)
    else .ok { m with nested }

/-- Links each message to the enums nested in it; each message must have as many enums as it
declares. -/
def linkEnums (ms : List Message) (es : List EnumType) : Except SchemaError (List Message) := do
  let parents := es.map (·.parent)
  if let some (n, p) := firstDangling (es.map (·.fullName)) parents ms.length then
    throw (.danglingParent n p)
  ms.zipIdx.mapM fun (m, i) =>
    let enums := childrenOf parents i
    if enums.length ≠ m.declaredEnums then
      .error (.enumNestingMismatch m.fullName m.declaredEnums enums.length)
    else .ok { m with enums }

/-- The comments of a file by path key; only locations with a comment count, and the first
location of a path wins. -/
def indexComments (locs : List Location) : List (String × Comments) :=
  locs.foldl (fun acc loc =>
    if loc.leadingComments.isNone && loc.trailingComments.isNone then acc
    else
      let key := pathKey loc.path
      if (acc.lookup key).isSome then acc
      else acc ++ [(key, { leading := loc.leadingComments, trailing := loc.trailingComments })])
    []

/-- The graph file for the descriptor at index `id`. -/
def File.wrap (id : Nat) (raw : FileProto) : Except SchemaError File := do
  let package := raw.package.getD ""
  let flat := flatten raw.messageType
  let messages ← linkNested (flat.map (wrapMessage package flat))
  let own := raw.enumType.zipIdx.map fun (e, i) => wrapEnum e package none i [5, i]
  let nested := flat.zipIdx.flatMap fun (f, m) =>
    f.raw.enumType.zipIdx.map fun (e, i) =>
      wrapEnum e package (some (m, f.typeName)) i (f.path ++ [4, i])
  let enums := own ++ nested
  let messages ← linkEnums messages enums
  let options := raw.options
  return {
    id
    name := raw.name.getD ""
    package
    dialect := Dialect.parse (raw.dialect.getD "")
    java := { package := options.bind (·.javaPackage)
              outerClassname := options.bind (·.javaOuterClassname)
              multipleFiles := (options.bind (·.javaMultipleFiles)).getD false }
    deprecated := (options.bind (·.deprecated)).getD false
    dependencies := raw.dependency
    messages
    enums
    extensions := wrapFields raw.extension [] 7
    comments := indexComments (raw.sourceCodeInfo.getD [])
    reexports := [] }

/-- The types one public import re-exports, or why the import is unknown. -/
def reexportOf (files : List File) (raw : FileProto) (dep : Int) :
    Except SchemaError (List TypeRef) :=
  let fileName := raw.name.getD ""
  match (if 0 ≤ dep then raw.dependency[dep.toNat]? else none) with
  | none => .error (.unknownDependency fileName ("#" ++ toString dep))
  | some name =>
    match files.find? (·.name = name) with
    | none => .error (.unknownDependency fileName name)
    | some target => .ok target.exportedTypes

/-- Builds the schema graph of a list of file descriptors. -/
def Graph.build (raws : List FileProto) : Except SchemaError Graph := do
  let files ← raws.zipIdx.mapM fun (raw, i) => File.wrap i raw
  let files ← (files.zip raws).mapM fun (u, raw) => do
    let groups ← raw.publicDependency.mapM (reexportOf files raw)
    return { u with reexports := groups.flatten }
  return ⟨files⟩

end BeanCodegen.Schema
