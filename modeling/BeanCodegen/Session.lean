import BeanCodegen.Error
import BeanCodegen.Descriptor.Basic
import BeanCodegen.Schema.Build
import BeanCodegen.Schema.Index
import BeanCodegen.Plan.Allocate
/-! # Generation sessions

What every stage of generation reads: the configuration, the schema graph of the request, the
files to generate, the type index and the name plans.
-/

namespace BeanCodegen

open BeanCodegen.Schema BeanCodegen.Plan BeanCodegen.Descriptor

/-- The indices of the files to generate, each the first file with its name. -/
def resolveFiles (g : Graph) (names : List String) : Except GenError (List Nat) :=
  names.mapM fun n =>
    match g.fileNamed n with
    | some i => .ok i
    | none => .error (.unknownFile n)

/-- Everything the stages of generation share. -/
structure Session where
  config : Config
  graph : Graph
  genFiles : List Nat
  index : TypeIndex
  alloc : Allocation

/-- A session for a request: its configuration, graph, files and plans. The files to generate
may be none here; references are not checked. -/
def Session.start (r : Request) : Except GenError Session := do
  let config ← (Config.parse (r.parameter.getD "")).mapError .config
  let graph ← (Graph.build r.protoFile).mapError .schema
  let genFiles ← resolveFiles graph r.fileToGenerate
  return { config, graph, genFiles, index := TypeIndex.build graph
           alloc := allocate config graph genFiles }

end BeanCodegen
