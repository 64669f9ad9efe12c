import BeanCodegen.Error
import BeanCodegen.Java.Writer
import BeanCodegen.Java.Imports
import BeanCodegen.Java.Header
import BeanCodegen.Naming.Package
import BeanCodegen.Schema.Basic
import BeanCodegen.Session
import BeanCodegen.Shape.Classify
/-! # Drafts of generated files

A generated file is written as a *draft*: the text written so far with its annotations, and
the imports its class names have needed so far. The generators run in `EmitM`, which threads
a draft and stops at the first `GenError`; a failure abandons the whole request, so the text
of a failed draft is never read.

A finished draft becomes an `Artifact` once its prologue is known, since the import lines
depend on every class named in the body.
-/

namespace BeanCodegen.Emit

open BeanCodegen.Java BeanCodegen.Schema BeanCodegen.Naming BeanCodegen.Plan BeanCodegen.Shape

/-- What a generator writes into a file, in the order it writes it: lines, blank lines,
comments and annotated lines at the current level, blocks one level deeper with their closing
line, and class declarations, each a header line `pre name suf` (annotated with a descriptor
path when it has one) and the block of its body closed by `}`. -/
inductive Piece where
  | line (text : String)
  | blank
  | comment (text : Option String)
  | annotated (path : List Nat) (pre name suf : String)
  | body (footer : String) (inner : List Piece)
  | decl (path : Option (List Nat)) (pre name suf : String) (inner : List Piece)
  deriving Inhabited

mutual

/-- Writes a piece as text. -/
def Piece.write (w : Writer) : Piece → Writer
  | .line t => w.line t
  | .blank => w.blank
  | .comment c => w.comment c
  | .annotated path pre name suf => w.annotated (path.map Int.ofNat) pre name suf
  | .body footer inner => (Piece.writeAll w.enter inner).leave footer
  | .decl path pre name suf inner =>
    let header := match path with
      | some p => w.annotated (p.map Int.ofNat) pre name suf
      | none => w.line (pre ++ name ++ suf)
    (Piece.writeAll header.enter inner).leave "\x7d"

/-- Writes pieces in order. -/
def Piece.writeAll (w : Writer) : List Piece → Writer
  | [] => w
  | p :: ps => Piece.writeAll (Piece.write w p) ps

end

/-- A file being written: what its body holds so far, the latest piece first, and the imports
the body has needed. -/
structure Draft where
  out : List Piece := []
  imports : Imports
  deriving Inhabited

/-- The empty draft of a file in a package, with the given classes declared there. -/
def Draft.start (pkg : String) (declared : List String) : Draft :=
  { imports := declared.foldl Imports.declare (Imports.empty pkg) }

/-- The body text of a draft. -/
def Draft.text (d : Draft) : Writer := Piece.writeAll {} d.out.reverse

/-- Generation steps: they extend a draft and may fail. -/
abbrev EmitM := StateT Draft (Except GenError)

/-- Fails with a generation error. -/
def fail (e : GenError) : EmitM α := throw e

/-- Runs a step that may fail but writes nothing. -/
def liftExcept (r : Except GenError α) : EmitM α := StateT.lift r

/-- Runs a step on the imports alone. -/
def onImports (m : StateM Imports α) : EmitM α :=
  modifyGet fun d =>
    let (a, i) := m.run d.imports
    (a, { d with imports := i })

/-- Names a class, importing it when that is possible. -/
def nameClass (c : ClassName) : EmitM String := onImports (modifyGet (·.reference c))

/-- Declares a class nested in the file's classes. -/
def declareNested (name : String) : EmitM Unit :=
  modify fun d => { d with imports := d.imports.declareNested name }

/-- Writes a piece at the current level. -/
def put (p : Piece) : EmitM Unit :=
  modify fun d => { d with out := p :: d.out }

/-- Writes a line. -/
def line (t : String) : EmitM Unit := put (.line t)

/-- Writes a separating blank line. -/
def blank : EmitM Unit := put .blank

/-- Writes an annotated line `pre name suf`, annotating `name` with a descriptor path. -/
def annotated (path : List Nat) (pre name suf : String) : EmitM Unit :=
  put (.annotated path pre name suf)

/-- Writes a comment, if there is one. -/
def comment (c : Option String) : EmitM Unit := put (.comment c)

/-- Runs steps on an empty body and gives back what they wrote, the latest piece first. -/
def inside (inner : EmitM Unit) : EmitM (List Piece) := do
  let outer ← modifyGet fun d => (d.out, { d with out := [] })
  inner
  modifyGet fun d => (d.out, { d with out := outer })

/-- Writes a body one level deeper followed by its closing line. -/
def body (footer : String) (inner : EmitM Unit) : EmitM Unit := do
  let pieces ← inside inner
  put (.body footer pieces.reverse)

/-- Writes an opening line, a body one level deeper and a closing line. -/
def block (header footer : String) (inner : EmitM Unit) : EmitM Unit := do
  line header
  body footer inner

/-- Writes `header {`, a body one level deeper and `}`. -/
def braces (header : String) (inner : EmitM Unit) : EmitM Unit :=
  block (header ++ " \x7b") "\x7d" inner

/-- Declares a class: the header line `pre name suf`, annotated with `path` when there is one,
and the class body one level deeper closed by `}`. -/
def declClass (path : Option (List Nat)) (pre name suf : String) (inner : EmitM Unit) :
    EmitM Unit := do
  let pieces ← inside inner
  put (.decl path pre name suf pieces.reverse)

/-- The leading comment of the element at a path of a file. -/
def leading (u : File) (path : List Nat) : EmitM Unit :=
  comment ((u.commentsAt path).bind (·.leading))

/-- The trailing comment of the element at a path of a file. -/
def trailing (u : File) (path : List Nat) : EmitM Unit :=
  comment ((u.commentsAt path).bind (·.trailing))

/-- A Java string literal. -/
def quote (t : String) : String := Text.stringLiteral t

/-- The finished file of a draft: the class `cls` of package `pkg`, generated from `u`. -/
def Draft.finish (d : Draft) (pkg cls : String) (u : File) : Artifact :=
  Artifact.assemble (javaPath pkg cls) u.name (prologue pkg u.name u.deprecated d.imports.lines)
    d.text

/-- Runs the steps of one file from its empty draft. -/
def draft (pkg : String) (declared : List String) (steps : EmitM Unit) : Except GenError Draft :=
  (·.2) <$> steps.run (Draft.start pkg declared)

/-- Whether a field is the first member of its oneof plan, where the oneof is written. -/
def opensOneof (op : OneofPlan) (f : Classified) : Bool :=
  op.variants.head?.map (·.fieldIndex) == some f.field.index

/-- The plan of the oneof a classified field is a member of, if it is a member of one. -/
def variantPlan (oneofs : List (Option OneofPlan)) (f : Classified) : Option OneofPlan :=
  match f.shape with
  | .variant k _ => oneofs[k]?.join
  | _ => none

/-- A descriptor file being generated, in the session it belongs to. -/
structure Source where
  session : Session
  file : Nat

namespace Source

/-- The schema of the file. -/
def unit (c : Source) : File := c.session.graph.file c.file

/-- The name plan of the file. -/
def plan (c : Source) : FilePlan := c.session.alloc.file c.file

/-- A message of the file. -/
def message (c : Source) (i : Nat) : Message := c.unit.messages[i]?.getD default

/-- The plan of a message of the file. -/
def messagePlan (c : Source) (i : Nat) : MessagePlan := c.plan.messages[i]?.getD default

/-- An enum of the file. -/
def enumType (c : Source) (i : Nat) : EnumType := c.unit.enums[i]?.getD default

/-- The plan of an enum of the file. -/
def enumPlan (c : Source) (i : Nat) : EnumPlan := c.plan.enums[i]?.getD default

/-- Classifies a field of the file; `scope` is the message declaring it, if any. -/
def classify (c : Source) (scope : Option Message) (f : Field) : EmitM Classified :=
  liftExcept (Shape.classify c.session.graph c.session.index scope f)

/-- Bounds the nesting of the file's messages: a nested message comes after its parent. -/
def depth (c : Source) : Nat := c.unit.messages.length + 1

end Source

end BeanCodegen.Emit
