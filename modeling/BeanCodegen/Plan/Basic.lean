import BeanCodegen.Java.ClassName
import BeanCodegen.Schema.Basic
/-! # Name plans

The names chosen for everything generated from one request, before any code is written: for
each file its value-class package, its converter class, its protobuf-java package and outer
class; for each message its class, its members and converter methods; for each enum its class
and constants. Plans are listed by arena index, parallel to the schema graph.
-/

namespace BeanCodegen.Plan

open BeanCodegen.Schema BeanCodegen.Java

/-- The names of one field's members: its bean field, its number constant, its default
constant when it has one, and the stem of its protobuf-java accessors. -/
structure MemberPlan where
  field : String
  numberConst : String
  defaultConst : Option String
  protoAccessor : String
  deriving Inhabited, Repr

/-- The names for one member of a oneof: the class wrapping its value, its case constant, its
setter and getter, and its case constant in protobuf-java. -/
structure VariantPlan where
  fieldIndex : Nat
  wrapper : String
  caseConstant : String
  setter : String
  getter : String
  protoCaseConstant : String
  deriving Inhabited, Repr

/-- The names for a oneof: the bean field holding the set variant, the interface of its
variants, the enum of cases with its getter and its not-set constant, and the protobuf-java
case getter and not-set constant. -/
structure OneofPlan where
  field : String
  iface : String
  caseEnum : String
  caseGetter : String
  notSet : String
  protoCaseGetter : String
  protoNotSet : String
  variants : List VariantPlan
  deriving Inhabited, Repr

/-- The constants for an extension: its field number and the message it extends. -/
structure ExtensionPlan where
  numberConst : String
  extendeeConst : String
  deriving Inhabited, Repr

/-- The names for an enum: its class and a constant per value. -/
structure EnumPlan where
  className : String
  constants : List String
  deriving Inhabited, Repr

/-- The converter methods of a message: from protobuf-java, to protobuf-java, to bytes. -/
structure ConverterPlan where
  decode : String
  encode : String
  bytes : String
  deriving Inhabited, Repr

/-- The names for a message; `oneofs` has an entry per oneof, none for a synthetic one. -/
structure MessagePlan where
  className : String
  fields : List MemberPlan
  oneofs : List (Option OneofPlan)
  extensions : List ExtensionPlan
  converter : ConverterPlan
  deriving Inhabited, Repr

/-- The names for a file. The wrapper class exists in the per-file layout, the extensions
class when the file declares extensions, and the outer class unless protobuf-java puts each
type in a file of its own. -/
structure FilePlan where
  voPackage : String
  converterClass : String
  wrapperClass : Option String
  extensionsClass : Option String
  extensions : List ExtensionPlan
  protoPackage : String
  protoOuterClass : Option String
  messages : List MessagePlan
  enums : List EnumPlan
  deriving Inhabited, Repr

/-- The plans of every file of a graph, by file index. -/
structure Allocation where
  files : List FilePlan
  deriving Inhabited

namespace Allocation

/-- The plan of a file. -/
def file (a : Allocation) (i : Nat) : FilePlan := a.files[i]?.getD default

/-- The plan of a message. -/
def message (a : Allocation) (id : MessageId) : MessagePlan :=
  (a.file id.file).messages[id.index]?.getD default

/-- The plan of an enum. -/
def enumPlan (a : Allocation) (id : EnumId) : EnumPlan :=
  (a.file id.file).enums[id.index]?.getD default

/-- The class names of the messages enclosing a node, outermost first, behind the wrapper
class when there is one; `parent` is the node's parent and `fuel` bounds the walk up. -/
def enclosingFrom (a : Allocation) (g : Graph) (file : Nat) : Nat → Option Nat → List String
  | 0, _ => []
  | _, none => []
  | fuel + 1, some i =>
    enclosingFrom a g file fuel (g.message ⟨file, i⟩).parent ++
      [(a.message ⟨file, i⟩).className]

/-- The classes enclosing a node of a file, starting with the wrapper class. -/
def enclosing (a : Allocation) (g : Graph) (file : Nat) (parent : Option Nat) : List String :=
  (a.file file).wrapperClass.toList ++
    a.enclosingFrom g file ((g.file file).messages.length + 1) parent

/-- The value class of a message. -/
def messageClass (a : Allocation) (g : Graph) (id : MessageId) : ClassName :=
  ⟨(a.file id.file).voPackage,
   a.enclosing g id.file (g.message id).parent ++ [(a.message id).className]⟩

/-- The value class of an enum. -/
def enumClass (a : Allocation) (g : Graph) (id : EnumId) : ClassName :=
  ⟨(a.file id.file).voPackage,
   a.enclosing g id.file (g.enumType id).parent ++ [(a.enumPlan id).className]⟩

/-- The protobuf-java class of a type of a file, given its chain of simple names. -/
def protoClass (a : Allocation) (file : Nat) (typeName : List String) : ClassName :=
  ⟨(a.file file).protoPackage, (a.file file).protoOuterClass.toList ++ typeName⟩

/-- The protobuf-java class of a message. -/
def protoMessageClass (a : Allocation) (g : Graph) (id : MessageId) : ClassName :=
  a.protoClass id.file (g.message id).typeName

/-- The protobuf-java class of an enum. -/
def protoEnumClass (a : Allocation) (g : Graph) (id : EnumId) : ClassName :=
  a.protoClass id.file (g.enumType id).typeName

/-- The converter class of a file, in the converter package. -/
def converterClass (a : Allocation) (converterPackage : String) (file : Nat) : ClassName :=
  ClassName.top converterPackage (a.file file).converterClass

end Allocation

end BeanCodegen.Plan
