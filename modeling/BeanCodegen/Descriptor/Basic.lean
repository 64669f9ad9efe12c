/-! # Descriptor records

The records a protobuf compiler hands to a code generator plugin: a request naming the files
to generate, the plugin parameter, and the descriptors of those files and everything they
import. Only the parts that code generation reads are kept. A field that may be absent is an
`Option`; reading an absent field gives protobuf's default, which the `…OrDefault` accessors
spell out.
-/

namespace BeanCodegen.Descriptor

/-- Options of a field. -/
structure FieldOptions where
  deprecated : Option Bool := none
  deriving Inhabited, Repr

/-- A field or extension declaration. `label` and `fieldType` hold the numbers of the
descriptor enums as given, in range or not. -/
structure FieldProto where
  name : Option String := none
  extendee : Option String := none
  number : Option Int := none
  label : Option Int := none
  fieldType : Option Int := none
  typeName : Option String := none
  defaultValue : Option String := none
  options : Option FieldOptions := none
  oneofIndex : Option Int := none
  jsonName : Option String := none
  proto3Optional : Option Bool := none
  deriving Inhabited, Repr

/-- Options of an enum or enum value. -/
structure EnumOptions where
  deprecated : Option Bool := none
  deriving Inhabited, Repr

/-- One value of an enum. -/
structure EnumValueProto where
  name : Option String := none
  number : Option Int := none
  options : Option EnumOptions := none
  deriving Inhabited, Repr

/-- An enum declaration. -/
structure EnumProto where
  name : Option String := none
  value : List EnumValueProto := []
  options : Option EnumOptions := none
  deriving Inhabited, Repr

/-- A range of field numbers reserved for extensions, end exclusive. -/
structure ExtensionRangeProto where
  start : Option Int := none
  stop : Option Int := none
  deriving Inhabited, Repr

/-- A oneof declaration. -/
structure OneofProto where
  name : Option String := none
  deriving Inhabited, Repr

/-- Options of a message. -/
structure MessageOptions where
  mapEntry : Option Bool := none
  deprecated : Option Bool := none
  deriving Inhabited, Repr

/-- A message declaration with its nested declarations. -/
structure MessageProto where
  name : Option String := none
  field : List FieldProto := []
  extension : List FieldProto := []
  nestedType : List MessageProto := []
  enumType : List EnumProto := []
  extensionRange : List ExtensionRangeProto := []
  oneofDecl : List OneofProto := []
  options : Option MessageOptions := none
  deriving Inhabited, Repr

/-- Options of a file that concern Java. -/
structure FileOptions where
  javaPackage : Option String := none
  javaOuterClassname : Option String := none
  javaMultipleFiles : Option Bool := none
  deprecated : Option Bool := none
  deriving Inhabited, Repr

/-- A source location with the comments attached to it. -/
structure Location where
  path : List Int := []
  leadingComments : Option String := none
  trailingComments : Option String := none
  deriving Inhabited, Repr

/-- A file descriptor; `dialect` is its `proto2` or `proto3` declaration. -/
structure FileProto where
  name : Option String := none
  package : Option String := none
  dependency : List String := []
  publicDependency : List Int := []
  messageType : List MessageProto := []
  enumType : List EnumProto := []
  extension : List FieldProto := []
  options : Option FileOptions := none
  sourceCodeInfo : Option (List Location) := none
  dialect : Option String := none
  deriving Inhabited, Repr

/-- What a protobuf compiler asks of a plugin. -/
structure Request where
  fileToGenerate : List String := []
  parameter : Option String := none
  protoFile : List FileProto := []
  deriving Inhabited, Repr

end BeanCodegen.Descriptor
