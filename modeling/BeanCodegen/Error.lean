import BeanCodegen.Config
import BeanCodegen.Descriptor.Wire
import BeanCodegen.Schema.Error
import BeanCodegen.Java.Check
/-! # Generation errors

Everything that can stop code generation, each with the text a plugin reports for it.
-/

namespace BeanCodegen

open BeanCodegen.Schema BeanCodegen.Java BeanCodegen.Descriptor

/-- Why code generation failed. -/
inductive GenError
  /-- The parameter text is refused. -/
  | config (e : ConfigError)
  /-- The request names no file to generate. -/
  | nothingToGenerate
  /-- A file to generate is not among the request's descriptors. -/
  | unknownFile (name : String)
  /-- An enum field's default names no value of the enum. -/
  | unknownEnumDefault (field value : String)
  /-- Protobuf-java classes a converter needs lie in the unnamed package. -/
  | unnamedJavaPackage (file : String)
  /-- A map field's entry type lacks a scalar key or a value. -/
  | malformedMapEntry (name : String)
  /-- A generated file fails its check. -/
  | malformedOutput (path : String) (defect : Defect)
  /-- The serialized request cannot be read. -/
  | decode (e : DecodeError)
  /-- The schema is inconsistent or names a missing type. -/
  | schema (e : SchemaError)
  deriving Inhabited

/-- The text of a generation error. -/
def GenError.message : GenError → String
  | .config e => e.message
  | .nothingToGenerate => "no files to generate"
  | .unknownFile name => "can't find file to generate: " ++ name
  | .unknownEnumDefault field value =>
    "unknown enum value " ++ Text.diagnosticText value ++ " as default of field " ++ field
  | .unnamedJavaPackage file =>
    file ++ " has no package: its protobuf-java classes land in the unnamed package, " ++
      "which converters can't import from; set option java_package"
  | .malformedMapEntry name => "malformed map entry " ++ name
  | .malformedOutput path d =>
    "Verifier error in " ++ path ++ ", line " ++ toString d.line ++ ": " ++ d.fault.message
  | .decode e => "Request decode error: " ++ e.message
  | .schema e => e.message

end BeanCodegen
