/-! # The layout of descriptor messages

Which fields each message of the plugin protocol and of `descriptor.proto` has: for each field
number, its name, how its values are read, and whether it repeats. A reader needs all of them,
not only the ones generation uses, because a known field with a malformed value is an error
while an unknown field is skipped.

The layout is that of an early proto3 descriptor revision: it still has
`php_generic_services`, and it has neither `unverified_lazy` nor any of the fields editions
brought (`edition`, `features`, field retention and targets, extension declarations, the
legacy JSON conflict flags), so those are skipped like any other unknown field.

A field's name is the one errors report it under; the fields named `type` are reported as
`r#type`.
-/

namespace BeanCodegen.Descriptor

/-- The message types of the plugin protocol and the descriptors. -/
inductive MessageKind
  | request | version | file | message | field | oneof | enumType | enumValue
  | extensionRange | reservedRange | enumReservedRange | service | method
  | fileOptions | messageOptions | fieldOptions | oneofOptions | enumOptions | enumValueOptions
  | serviceOptions | methodOptions | extensionRangeOptions | uninterpretedOption | namePart
  | sourceCodeInfo | location
  deriving DecidableEq, Inhabited, Repr

/-- How the values of a field are read. -/
inductive Shape
  /-- A varint: the integer, enum and boolean fields. -/
  | varint
  /-- Eight little-endian bytes. -/
  | fixed64
  /-- UTF-8 text with a length. -/
  | text
  /-- Bytes with a length. -/
  | bytes
  /-- A nested message with a length. -/
  | message (kind : MessageKind)
  deriving DecidableEq, Inhabited, Repr

/-- A field of a message type: its name, shape and whether it repeats. -/
structure FieldSpec where
  name : String
  shape : Shape
  repeated : Bool := false
  deriving Inhabited, Repr

namespace MessageKind

/-- The name of a message type in error contexts. -/
def typeName : MessageKind → String
  | .request => "CodeGeneratorRequest"
  | .version => "Version"
  | .file => "FileDescriptorProto"
  | .message => "DescriptorProto"
  | .field => "FieldDescriptorProto"
  | .oneof => "OneofDescriptorProto"
  | .enumType => "EnumDescriptorProto"
  | .enumValue => "EnumValueDescriptorProto"
  | .extensionRange => "ExtensionRange"
  | .reservedRange => "ReservedRange"
  | .enumReservedRange => "EnumReservedRange"
  | .service => "ServiceDescriptorProto"
  | .method => "MethodDescriptorProto"
  | .fileOptions => "FileOptions"
  | .messageOptions => "MessageOptions"
  | .fieldOptions => "FieldOptions"
  | .oneofOptions => "OneofOptions"
  | .enumOptions => "EnumOptions"
  | .enumValueOptions => "EnumValueOptions"
  | .serviceOptions => "ServiceOptions"
  | .methodOptions => "MethodOptions"
  | .extensionRangeOptions => "ExtensionRangeOptions"
  | .uninterpretedOption => "UninterpretedOption"
  | .namePart => "NamePart"
  | .sourceCodeInfo => "SourceCodeInfo"
  | .location => "Location"

/-- A varint field. -/
private def num (name : String) : Option FieldSpec := some ⟨name, .varint, false⟩
/-- A repeated varint field. -/
private def nums (name : String) : Option FieldSpec := some ⟨name, .varint, true⟩
/-- A text field. -/
private def txt (name : String) : Option FieldSpec := some ⟨name, .text, false⟩
/-- A repeated text field. -/
private def txts (name : String) : Option FieldSpec := some ⟨name, .text, true⟩
/-- A nested message field. -/
private def msg (name : String) (k : MessageKind) : Option FieldSpec := some ⟨name, .message k, false⟩
/-- A repeated nested message field. -/
private def msgs (name : String) (k : MessageKind) : Option FieldSpec := some ⟨name, .message k, true⟩

/-- The field of a message type with a field number, if it has one. -/
def field? : MessageKind → Nat → Option FieldSpec
  | .request, n => match n with
    | 1 => txts "file_to_generate" | 2 => txt "parameter" | 3 => msg "compiler_version" .version
    | 15 => msgs "proto_file" .file | _ => none
  | .version, n => match n with
    | 1 => num "major" | 2 => num "minor" | 3 => num "patch" | 4 => txt "suffix" | _ => none
  | .file, n => match n with
    | 1 => txt "name" | 2 => txt "package" | 3 => txts "dependency"
    | 10 => nums "public_dependency" | 11 => nums "weak_dependency"
    | 4 => msgs "message_type" .message | 5 => msgs "enum_type" .enumType
    | 6 => msgs "service" .service | 7 => msgs "extension" .field
    | 8 => msg "options" .fileOptions | 9 => msg "source_code_info" .sourceCodeInfo
    | 12 => txt "syntax" | _ => none
  | .message, n => match n with
    | 1 => txt "name" | 2 => msgs "field" .field | 6 => msgs "extension" .field
    | 3 => msgs "nested_type" .message | 4 => msgs "enum_type" .enumType
    | 5 => msgs "extension_range" .extensionRange | 8 => msgs "oneof_decl" .oneof
    | 7 => msg "options" .messageOptions | 9 => msgs "reserved_range" .reservedRange
    | 10 => txts "reserved_name" | _ => none
  | .field, n => match n with
    | 1 => txt "name" | 3 => num "number" | 4 => num "label" | 5 => num "r#type"
    | 6 => txt "type_name" | 2 => txt "extendee" | 7 => txt "default_value"
    | 9 => num "oneof_index" | 10 => txt "json_name" | 8 => msg "options" .fieldOptions
    | 17 => num "proto3_optional" | _ => none
  | .oneof, n => match n with
    | 1 => txt "name" | 2 => msg "options" .oneofOptions | _ => none
  | .enumType, n => match n with
    | 1 => txt "name" | 2 => msgs "value" .enumValue | 3 => msg "options" .enumOptions
    | 4 => msgs "reserved_range" .enumReservedRange | 5 => txts "reserved_name" | _ => none
  | .enumValue, n => match n with
    | 1 => txt "name" | 2 => num "number" | 3 => msg "options" .enumValueOptions | _ => none
  | .extensionRange, n => match n with
    | 1 => num "start" | 2 => num "end" | 3 => msg "options" .extensionRangeOptions | _ => none
  | .reservedRange, n => match n with
    | 1 => num "start" | 2 => num "end" | _ => none
  | .enumReservedRange, n => match n with
    | 1 => num "start" | 2 => num "end" | _ => none
  | .service, n => match n with
    | 1 => txt "name" | 2 => msgs "method" .method | 3 => msg "options" .serviceOptions
    | _ => none
  | .method, n => match n with
    | 1 => txt "name" | 2 => txt "input_type" | 3 => txt "output_type"
    | 4 => msg "options" .methodOptions | 5 => num "client_streaming"
    | 6 => num "server_streaming" | _ => none
  | .fileOptions, n => match n with
    | 1 => txt "java_package" | 8 => txt "java_outer_classname"
    | 10 => num "java_multiple_files" | 20 => num "java_generate_equals_and_hash"
    | 27 => num "java_string_check_utf8" | 9 => num "optimize_for" | 11 => txt "go_package"
    | 16 => num "cc_generic_services" | 17 => num "java_generic_services"
    | 18 => num "py_generic_services" | 42 => num "php_generic_services"
    | 23 => num "deprecated"
    | 31 => num "cc_enable_arenas" | 36 => txt "objc_class_prefix"
    | 37 => txt "csharp_namespace" | 39 => txt "swift_prefix" | 40 => txt "php_class_prefix"
    | 41 => txt "php_namespace" | 44 => txt "php_metadata_namespace"
    | 45 => txt "ruby_package"
    | 999 => msgs "uninterpreted_option" .uninterpretedOption | _ => none
  | .messageOptions, n => match n with
    | 1 => num "message_set_wire_format" | 2 => num "no_standard_descriptor_accessor"
    | 3 => num "deprecated" | 7 => num "map_entry"
    | 999 => msgs "uninterpreted_option" .uninterpretedOption | _ => none
  | .fieldOptions, n => match n with
    | 1 => num "ctype" | 2 => num "packed" | 6 => num "jstype" | 5 => num "lazy"
    | 3 => num "deprecated" | 10 => num "weak"
    | 999 => msgs "uninterpreted_option" .uninterpretedOption | _ => none
  | .oneofOptions, n => match n with
    | 999 => msgs "uninterpreted_option" .uninterpretedOption | _ => none
  | .enumOptions, n => match n with
    | 2 => num "allow_alias" | 3 => num "deprecated"
    | 999 => msgs "uninterpreted_option" .uninterpretedOption | _ => none
  | .enumValueOptions, n => match n with
    | 1 => num "deprecated"
    | 999 => msgs "uninterpreted_option" .uninterpretedOption | _ => none
  | .serviceOptions, n => match n with
    | 33 => num "deprecated"
    | 999 => msgs "uninterpreted_option" .uninterpretedOption | _ => none
  | .methodOptions, n => match n with
    | 33 => num "deprecated" | 34 => num "idempotency_level"
    | 999 => msgs "uninterpreted_option" .uninterpretedOption | _ => none
  | .extensionRangeOptions, n => match n with
    | 999 => msgs "uninterpreted_option" .uninterpretedOption | _ => none
  | .uninterpretedOption, n => match n with
    | 2 => msgs "name" .namePart | 3 => txt "identifier_value"
    | 4 => num "positive_int_value" | 5 => num "negative_int_value"
    | 6 => some ⟨"double_value", .fixed64, false⟩ | 7 => some ⟨"string_value", .bytes, false⟩
    | 8 => txt "aggregate_value" | _ => none
  | .namePart, n => match n with
    | 1 => txt "name_part" | 2 => num "is_extension" | _ => none
  | .sourceCodeInfo, n => match n with
    | 1 => msgs "location" .location | _ => none
  | .location, n => match n with
    | 1 => nums "path" | 2 => nums "span" | 3 => txt "leading_comments"
    | 4 => txt "trailing_comments" | 6 => txts "leading_detached_comments" | _ => none

end MessageKind

end BeanCodegen.Descriptor
