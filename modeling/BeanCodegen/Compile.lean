import BeanCodegen.Emit.Bean
import BeanCodegen.Emit.Converter
/-! # Compiling a request

The whole pipeline from a request to its checked Java files: read the parameters, build the
schema graph, find the files to generate, resolve every type name, plan all names, make sure
converters can reach the protobuf-java classes they convert, write the value classes and then
the converters of every file to generate, and check each written file.

Each stage stops the request at its first error, so an error names the earliest stage that
refuses the request.
-/

namespace BeanCodegen

open BeanCodegen.Schema BeanCodegen.Plan BeanCodegen.Java BeanCodegen.Emit BeanCodegen.Descriptor

/-- The files whose protobuf-java classes a file's converter names: the file itself and the
files of the messages its fields hold, and of the enums too unless enums travel as numbers. -/
def referencedFiles (idx : TypeIndex) (u : File) (self : Nat) : Except GenError (List Nat) := do
  let named := (u.messages.flatMap (·.fields)).filter (·.fieldType.isNamed)
  let others ← named.filterMapM fun f => do
    match ← (idx.resolve f.typeName).mapError .schema with
    | .message id => pure (some id.file)
    | .enum id => pure (if u.dialect = .proto3 then none else some id.file)
  return self :: others

/-- Refuses a file to generate whose converter would have to name protobuf-java classes of
the unnamed package, which Java cannot import from. A file with no message to convert has
no converter and passes. -/
def checkJavaPackages (s : Session) : Except GenError Unit :=
  s.genFiles.forM fun file => do
    let u := s.graph.file file
    if u.messages.any (!·.mapEntry) then
      let refs ← referencedFiles s.index u file
      if let some bare := refs.find? fun f => (s.alloc.file f).protoPackage.isEmpty then
        throw (.unnamedJavaPackage (s.graph.file bare).name)

/-- The checked files of a session: value classes of every file to generate, then their
converters. -/
def Session.artifacts (s : Session) : Except GenError (List Artifact) := do
  let beans ← s.genFiles.flatMapM fun file => Source.beanFiles ⟨s, file⟩
  let converters ← s.genFiles.filterMapM fun file => Source.converterFile ⟨s, file⟩
  let all := beans ++ converters
  all.forM fun a =>
    match a.defect with
    | some d => throw (.malformedOutput a.path d)
    | none => pure ()
  return all

/-- The session of a request that passes the stages before the package check: its parameters
parse, its schema builds, it names files to generate and they exist, and every type name and
extendee resolves. -/
def Session.checked (r : Request) : Except GenError Session := do
  let config ← (Config.parse (r.parameter.getD "")).mapError .config
  let graph ← (Graph.build r.protoFile).mapError .schema
  if r.fileToGenerate.isEmpty then throw .nothingToGenerate
  let genFiles ← resolveFiles graph r.fileToGenerate
  let index := TypeIndex.build graph
  (index.checkReferences graph).mapError .schema
  return { config, graph, genFiles, index, alloc := allocate config graph genFiles }

/-- Compiles a request into its Java files. -/
def compileRequest (r : Request) : Except GenError (List Artifact) := do
  let s ← Session.checked r
  checkJavaPackages s
  s.artifacts

end BeanCodegen
