import BeanCodegen.Schema.FieldType
/-! # Schema graphs

A schema graph holds the files of a request, each with its messages and enums flattened into
arenas. Messages are listed in pre-order: a message comes before the messages nested in it, and
these before its next sibling. Enums follow the same order, the file's own enums first. Each
node records the path of its declaration in the file descriptor, which is also the key of its
comments, and nodes refer to each other by arena index.

Declaration paths use the descriptor's field numbers: in a file 4 for messages, 5 for enums and
7 for extensions; in a message 2 for fields, 3 for nested messages, 4 for nested enums, 6 for
extensions and 8 for oneofs; in an enum 2 for values.
-/

namespace BeanCodegen.Schema

/-- A message of a graph: the index of its file and its index in the file's message arena. -/
structure MessageId where
  file : Nat
  index : Nat
  deriving DecidableEq, Inhabited, Repr

/-- An enum of a graph: the index of its file and its index in the file's enum arena. -/
structure EnumId where
  file : Nat
  index : Nat
  deriving DecidableEq, Inhabited, Repr

/-- A message or an enum of a graph. -/
inductive TypeRef
  | message (id : MessageId)
  | enum (id : EnumId)
  deriving DecidableEq, Inhabited, Repr

/-- The comments attached to a declaration. -/
structure Comments where
  leading : Option String := none
  trailing : Option String := none
  deriving Inhabited, Repr

/-- The Java options of a file. -/
structure JavaOptions where
  package : Option String := none
  outerClassname : Option String := none
  multipleFiles : Bool := false
  deriving Inhabited, Repr

/-- A field or extension. `oneofIndex` is absent for a negative index in the descriptor. -/
structure Field where
  name : String := ""
  jsonName : Option String := none
  number : Int := 0
  cardinality : Cardinality := .optional
  fieldType : FieldType := .double
  typeName : String := ""
  oneofIndex : Option Nat := none
  defaultValue : Option String := none
  proto3Optional : Bool := false
  extendee : Option String := none
  deprecated : Bool := false
  index : Nat := 0
  path : List Nat := []
  deriving Inhabited, Repr

/-- Whether a field holds a list of values. -/
def Field.isRepeated (f : Field) : Bool := f.cardinality == .repeated

/-- A oneof with the indices of its member fields. A oneof is *synthetic* when it stands for
the presence of one proto3 `optional` field: all its members are proto3 optional. -/
structure Oneof where
  name : String
  index : Nat
  path : List Nat
  fields : List Nat
  synthetic : Bool
  deriving Inhabited, Repr

/-- A message; `typeName` is the chain of simple names from the top-level message down. -/
structure Message where
  name : String := ""
  typeName : List String := []
  fullName : String := ""
  path : List Nat := []
  index : Nat := 0
  parent : Option Nat := none
  fields : List Field := []
  oneofs : List Oneof := []
  extensions : List Field := []
  nested : List Nat := []
  enums : List Nat := []
  declaredNested : Nat := 0
  declaredEnums : Nat := 0
  mapEntry : Bool := false
  group : Bool := false
  deprecated : Bool := false
  extensionRanges : List (Int × Int) := []
  deriving Inhabited, Repr

namespace Message

/-- Whether a message is declared at file level. -/
def isTopLevel (m : Message) : Bool := m.parent.isNone

/-- The oneof whose members get variant classes: the field's oneof unless it is synthetic. -/
def variantGroup (m : Message) (f : Field) : Option Oneof := do
  let i ← f.oneofIndex
  let o ← m.oneofs[i]?
  if o.synthetic then none else some o

end Message

/-- A value of an enum; `aliasOf` is the first earlier value with the same number. -/
structure EnumValue where
  name : String
  number : Int
  path : List Nat
  deprecated : Bool
  aliasOf : Option Nat
  deriving Inhabited, Repr

/-- An enum; `typeName` is the chain of simple names from the top-level message down. -/
structure EnumType where
  name : String := ""
  typeName : List String := []
  fullName : String := ""
  path : List Nat := []
  index : Nat := 0
  parent : Option Nat := none
  values : List EnumValue := []
  deprecated : Bool := false
  deriving Inhabited, Repr

/-- The first value of an enum with a name. -/
def EnumType.valueNamed (e : EnumType) (name : String) : Option EnumValue :=
  e.values.find? (·.name = name)

/-- One file of a schema graph. `comments` maps comma-joined declaration paths to comments, and
`reexports` lists the types its public imports make visible. -/
structure File where
  id : Nat
  name : String
  package : String
  dialect : Dialect
  java : JavaOptions
  deprecated : Bool
  dependencies : List String
  messages : List Message
  enums : List EnumType
  extensions : List Field
  comments : List (String × Comments)
  reexports : List TypeRef
  deriving Inhabited, Repr

/-- The comma-joined key of a declaration path. -/
def pathKey (path : List Int) : String := ",".intercalate (path.map toString)

/-- The full name of a type: a dot, the package and a dot when there is a package, and the
chain of simple names joined by dots. -/
def fullName (package : String) (typeName : List String) : String :=
  if package.isEmpty then "." ++ ".".intercalate typeName
  else "." ++ package ++ "." ++ ".".intercalate typeName

namespace File

/-- The messages declared at file level, with their arena indices. -/
def topLevelMessages (u : File) : List (Nat × Message) :=
  (u.messages.zipIdx.filter fun (m, _) => m.isTopLevel).map fun (m, i) => (i, m)

/-- The enums declared at file level, with their arena indices. -/
def topLevelEnums (u : File) : List (Nat × EnumType) :=
  (u.enums.zipIdx.filter fun (e, _) => e.parent.isNone).map fun (e, i) => (i, e)

/-- The comments of the declaration at a path. -/
def commentsAt (u : File) (path : List Nat) : Option Comments :=
  u.comments.lookup (pathKey (path.map Int.ofNat))

/-- The file name without directories and without a `.proto` extension. -/
def baseName (u : File) : String :=
  let last := String.ofList (u.name.toList.reverse.takeWhile (· ≠ '/')).reverse
  if last.endsWith ".proto" then String.ofList (last.toList.take (last.length - 6)) else last

/-- The types a public import of this file makes visible: its messages other than map
entries, then all its enums. -/
def exportedTypes (u : File) : List TypeRef :=
  ((u.messages.zipIdx.filter fun (m, _) => !m.mapEntry).map fun (_, i) =>
      TypeRef.message ⟨u.id, i⟩) ++
    (List.range u.enums.length).map fun i => TypeRef.enum ⟨u.id, i⟩

end File

/-- The files of a request as a schema graph. -/
structure Graph where
  files : List File
  deriving Inhabited

namespace Graph

/-- The first file with a name. -/
def fileNamed (g : Graph) (name : String) : Option Nat :=
  (g.files.find? (·.name = name)).map (·.id)

/-- The file with an index; the default file for an index out of range. -/
def file (g : Graph) (i : Nat) : File := g.files[i]?.getD default

/-- The message of an id; the default message for an id from elsewhere. -/
def message (g : Graph) (id : MessageId) : Message :=
  (g.file id.file).messages[id.index]?.getD default

/-- The enum of an id; the default enum for an id from elsewhere. -/
def enumType (g : Graph) (id : EnumId) : EnumType :=
  (g.file id.file).enums[id.index]?.getD default

end Graph

end BeanCodegen.Schema
