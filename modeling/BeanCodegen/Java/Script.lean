import BeanCodegen.Error
/-! # Writer scripts

What a piece of generating code does with a `Writer`, as data: it writes lines, blank lines,
comments and annotated lines, opens blocks and bodies whose contents it writes one level deeper,
and may fail. A failure abandons the rest of the body it stands in; the blocks around it still
write their closing lines and pass the failure on.
-/

namespace BeanCodegen.Java

/-- One operation on a writer; a block or a body holds the operations of its contents. -/
inductive WriterOp where
  | line (text : String)
  | blank
  | comment (text : Option String)
  | annotated (path : List Int) (pre name suf : String)
  | block (header footer : String) (body : List WriterOp)
  | body (footer : String) (body : List WriterOp)
  | fail (e : GenError)
  deriving Inhabited

namespace WriterOp

mutual

/-- Runs an operation. -/
def run : WriterOp → Writer → Except GenError Unit × Writer
  | .line t, w => (.ok (), w.line t)
  | .blank, w => (.ok (), w.blank)
  | .comment t, w => (.ok (), w.comment t)
  | .annotated path pre name suf, w => (.ok (), w.annotated path pre name suf)
  | .block header footer ops, w => w.block header footer (runAll ops)
  | .body footer ops, w => w.body footer (runAll ops)
  | .fail e, w => (.error e, w)

/-- Runs operations in order up to the first that fails. -/
def runAll : List WriterOp → Writer → Except GenError Unit × Writer
  | [], w => (.ok (), w)
  | op :: ops, w =>
    match op.run w with
    | (.ok _, w') => runAll ops w'
    | (.error e, w') => (.error e, w')

end

end WriterOp

end BeanCodegen.Java
