import BeanCodegen.Compile
import BeanCodegen.Descriptor.Decode
import BeanCodegen.Schema.Describe
import BeanCodegen.Descriptor.Encode
/-! # Plugin responses

What a code generator plugin answers a request with: the generated files, or the error that
stopped generation. Annotations travel with the files only when the parameters ask for them.
A request that cannot even be read is the one failure that is not answered with a response.

A request can also be answered with a description of its schema graph instead.
-/

namespace BeanCodegen

open BeanCodegen.Java BeanCodegen.Descriptor

/-- The feature flag announcing support for proto3 optional fields. -/
def proto3OptionalFeature : Nat := 1

/-- An annotation of a generated file: the descriptor path of an element, the descriptor
file it is in, and the byte range that names it. -/
structure CodeAnnotation where
  path : List Int
  sourceFile : String
  start : Nat
  stop : Nat
  deriving Inhabited, Repr

/-- A generated file as the response carries it. -/
structure ResponseFile where
  name : String
  content : String
  annotations : Option (List CodeAnnotation)
  deriving Inhabited, Repr

/-- The answer to a request: an error or the generated files, and the supported features. -/
structure Response where
  error : Option String
  supportedFeatures : Nat := proto3OptionalFeature
  files : List ResponseFile
  deriving Inhabited, Repr

/-- A file of a response, with its annotations when they are asked for. -/
def ResponseFile.ofArtifact (annotate : Bool) (a : Artifact) : ResponseFile :=
  { name := a.path, content := a.content
    annotations :=
      if annotate then some (a.annotations.map fun an => ⟨an.path, a.source, an.start, an.stop⟩)
      else none }

/-- Whether the parameters ask for annotations. -/
def wantsAnnotations (parameter : String) : Bool :=
  match Config.parse parameter with
  | .ok c => c.annotateCode
  | .error _ => false

/-- The response reporting an error: its message and no files. -/
def errorResponse (e : GenError) : Response := { error := some e.message, files := [] }

/-- The response to a request. -/
def generate (r : Request) : Response :=
  match compileRequest r with
  | .ok arts =>
    let annotate := wantsAnnotations (r.parameter.getD "")
    { error := none, files := arts.map (ResponseFile.ofArtifact annotate) }
  | .error e => errorResponse e

/-- The JSON description of the schema graph of a request. -/
def describe (r : Request) : Except GenError String := do
  let g ← (Schema.Graph.build r.protoFile).mapError .schema
  return g.describe

/-- The JSON description of the schema graph of a serialized request. -/
def describeBytes (b : ByteArray) : Except GenError String := do
  let r ← (Request.decode b).mapError .decode
  describe r

/-- The response to a serialized request; fails only when the request cannot be read. -/
def generateFromBytes (b : ByteArray) : Except GenError Response := do
  let r ← (Request.decode b).mapError .decode
  return generate r

/-- Whether a byte offset fits a 32-bit signed field; one that does not is left out. -/
def fitsInt32 (n : Nat) : Option Int := if n < Nat.pow 2 31 then some n else none

/-- The bytes of an annotation: path, source file, start and end. -/
def CodeAnnotation.encode (a : CodeAnnotation) : List UInt8 :=
  packedInt32Field 1 a.path ++ stringField 2 a.sourceFile ++
    optionalField (varintField 3 ∘ fun i => i.toNat) (fitsInt32 a.start) ++
    optionalField (varintField 4 ∘ fun i => i.toNat) (fitsInt32 a.stop)

/-- The bytes of a response file: name, content and, when present, its annotations. -/
def ResponseFile.encode (f : ResponseFile) : List UInt8 :=
  stringField 1 f.name ++ stringField 15 f.content ++
    optionalField (fun anns => bytesField 16 (anns.flatMap fun a => bytesField 1 a.encode))
      f.annotations

/-- The bytes of a response: error, supported features and files. -/
def Response.encode (r : Response) : ByteArray :=
  ⟨(optionalField (stringField 1) r.error ++ varintField 2 r.supportedFeatures ++
    r.files.flatMap fun f => bytesField 15 f.encode).toArray⟩

/-- The serialized response to serialized request bytes, and whether generation succeeded;
a request that cannot be read is answered with an error response. -/
def answerBytes (input : ByteArray) : ByteArray × Bool :=
  match generateFromBytes input with
  | .ok r => (r.encode, r.error.isNone)
  | .error e => ((errorResponse e).encode, false)

end BeanCodegen
