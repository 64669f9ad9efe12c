/-! # Schema errors

Why a schema graph cannot be built or a type name cannot be resolved. The nesting errors report
an inconsistent tree, which the graph builder never produces from descriptors; they guard the
linking of nodes given by hand.
-/

namespace BeanCodegen.Schema

/-- What a resolution expected to find. -/
inductive TypeKind
  | message | enum
  deriving DecidableEq, Inhabited, Repr

/-- The phrase for a kind of type, with its article. -/
def TypeKind.phrase : TypeKind → String
  | .message => "a message"
  | .enum => "an enum"

/-- A failure to build or query a schema graph. -/
inductive SchemaError
  /-- A message has a different number of children than it declares. -/
  | nestingMismatch (name : String) (declared attached : Nat)
  /-- A message has a different number of enums attached than it declares. -/
  | enumNestingMismatch (name : String) (declared attached : Nat)
  /-- A node names a parent that does not exist. -/
  | danglingParent (name : String) (parent : Nat)
  /-- No message or enum has the name. -/
  | unresolvedType (name : String)
  /-- The name belongs to a type of the other kind. -/
  | kindMismatch (name : String) (expected : TypeKind)
  /-- A public import names a dependency that is missing. -/
  | unknownDependency (file dependency : String)
  deriving DecidableEq, Inhabited, Repr

/-- The text of a schema error. -/
def SchemaError.message : SchemaError → String
  | .nestingMismatch name d a =>
    s!"internal error: nesting failure for {name} (declared {d} nested types, attached {a})"
  | .enumNestingMismatch name d a =>
    s!"internal error: enum nesting failure for {name} (declared {d} nested enums, attached {a})"
  | .danglingParent name p => s!"internal error: {name} refers to missing parent #{p}"
  | .unresolvedType name => s!"can't find object with type {name}"
  | .kindMismatch name k => s!"type {name} is not {k.phrase}"
  | .unknownDependency file dep => s!"file {file} publicly imports unknown file {dep}"

end BeanCodegen.Schema
