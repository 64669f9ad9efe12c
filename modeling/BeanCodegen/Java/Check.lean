import BeanCodegen.Text.Lines
import BeanCodegen.Text.Literal
import BeanCodegen.Naming.Package
import BeanCodegen.Java.Header
import BeanCodegen.Java.Writer
/-! # Checking generated files

A generated file is checked before it is handed out:

* its first line declares a package, and the file lies directly in that package's directory;
* it carries the generated-code marker line;
* outside comments and string or character literals its brackets `()`, `[]` and `{}` nest;
* every annotation covers an identifier.

The bracket scan reads `//` comments to the end of the line and `/* */` comments to the first
`*/`; in a literal a backslash escapes the next character, and a line break ends the scan with
an unterminated literal.
-/

namespace BeanCodegen.Java

open BeanCodegen.Text BeanCodegen.Naming

/-- What is wrong with a generated file. -/
inductive Fault
  /-- The first line is not a package declaration. -/
  | noPackageLine (first : String)
  /-- The declared package is not the file's directory. -/
  | packageMismatch (pkg : String)
  /-- No line is the generated-code marker. -/
  | missingMarker
  /-- A closing bracket meets an opening bracket of another kind. -/
  | mismatched (closing opening : Char) (openedOn : Nat)
  /-- A closing bracket has no opening one. -/
  | unexpected (closing : Char)
  /-- A literal runs into a line break. -/
  | unterminatedLiteral
  /-- An opening bracket is never closed. -/
  | unclosed (opening : Char)
  /-- A block comment is never closed. -/
  | unterminatedBlockComment
  /-- An annotation covers text that is not an identifier. -/
  | notIdentifier (span : String)
  deriving DecidableEq, Repr

/-- The text of a fault. -/
def Fault.message : Fault → String
  | .noPackageLine first => "expected a package line, found " ++ diagnosticText first
  | .packageMismatch pkg => "package " ++ pkg ++ " does not match the output path"
  | .missingMarker => "missing generated-code header"
  | .mismatched c o lineNo =>
    diagnosticChar c ++ " closes " ++ diagnosticChar o ++ " opened on line " ++ toString lineNo
  | .unexpected c => "unexpected " ++ diagnosticChar c
  | .unterminatedLiteral => "unterminated literal"
  | .unclosed o => "unclosed " ++ diagnosticChar o
  | .unterminatedBlockComment => "unterminated block comment"
  | .notIdentifier span => "annotation covers " ++ diagnosticText span ++ ", not an identifier"

/-- A fault at a line of the file. -/
structure Defect where
  line : Nat
  fault : Fault
  deriving DecidableEq, Repr

/-- Where the bracket scan stands. -/
inductive ScanState
  | code | lineComment | blockComment | text | character
  deriving DecidableEq, Repr

/-- The opening bracket a closing bracket needs. -/
def openerOf : Char → Option Char
  | ')' => some '('
  | ']' => some '['
  | '}' => some '{'
  | _ => none

/-- The bracket scan from a state, with the open brackets (innermost first, each with its
line) and the current line. -/
def scanBrackets (st : ScanState) (opened : List (Char × Nat)) (line : Nat) :
    List Char → Option Defect
  | [] =>
    match opened with
    | (o, lineNo) :: _ => some ⟨lineNo, .unclosed o⟩
    | [] => if st = .blockComment then some ⟨line, .unterminatedBlockComment⟩ else none
  | c :: rest =>
    let next := if c = '\n' then line + 1 else line
    match st with
    | .code =>
      if c = '/' && rest.head? = some '/' then scanBrackets .lineComment opened next rest
      else if c = '/' && rest.head? = some '*' then scanBrackets .blockComment opened next rest.tail
      else if c = '"' then scanBrackets .text opened next rest
      else if c = '\'' then scanBrackets .character opened next rest
      else if c = '(' || c = '[' || c = '{' then scanBrackets .code ((c, line) :: opened) next rest
      else
        match openerOf c with
        | some want =>
          match opened with
          | (got, lineNo) :: outer =>
            if got = want then scanBrackets .code outer next rest
            else some ⟨line, .mismatched c got lineNo⟩
          | [] => some ⟨line, .unexpected c⟩
        | none => scanBrackets .code opened next rest
    | .lineComment => scanBrackets (if c = '\n' then .code else .lineComment) opened next rest
    | .blockComment =>
      if c = '*' && rest.head? = some '/' then scanBrackets .code opened next rest.tail
      else scanBrackets .blockComment opened next rest
    | .text | .character =>
      if c = '\\' then
        match rest with
        | d :: more => scanBrackets st opened (if d = '\n' then next + 1 else next) more
        | [] => scanBrackets st opened next []
      else if (st = .text && c = '"') || (st = .character && c = '\'') then
        scanBrackets .code opened next rest
      else if c = '\n' then some ⟨line, .unterminatedLiteral⟩
      else scanBrackets st opened next rest
termination_by l => l.length
decreasing_by all_goals (simp_all [List.length_tail]; try omega)

/-- Whether a text is a Java identifier made of ASCII letters, digits, `_` and `$`. -/
def isIdentifier (s : String) : Bool :=
  let start (c : Char) := ('A' ≤ c && c ≤ 'Z') || ('a' ≤ c && c ≤ 'z') || c = '_' || c = '$'
  match s.toList with
  | c :: rest => start c && rest.all fun d => start d || d.isDigit
  | [] => false

/-- The text between two byte offsets of UTF-8 bytes, if both lie on character boundaries
in order. -/
def byteSlice (bytes : ByteArray) (start stop : Nat) : Option String :=
  if start ≤ stop && stop ≤ bytes.size then String.fromUTF8? (bytes.extract start stop)
  else none

/-- The package a first line declares. -/
def declaredPackage (first : String) : Option String :=
  if first.startsWith "package " && first.endsWith ";" then
    let pkg := String.ofList ((first.toList.drop 8).dropLast)
    if isJavaPackage pkg then some pkg else none
  else none

/-- Whether a path is a `.java` file directly inside a directory. -/
def liesIn (path dir : String) : Bool :=
  if path.startsWith (dir ++ "/") then
    let file := String.ofList (path.toList.drop (dir.length + 1))
    !file.toList.contains '/' && file.endsWith ".java"
  else false

/-- The first fault in the text of a generated file: in its brackets, then in its annotations. -/
def Artifact.textDefect (a : Artifact) : Option Defect :=
  match scanBrackets .code [] 1 a.content.toList with
  | some d => some d
  | none =>
    let bytes := a.content.toUTF8
    a.annotations.findSome? fun an =>
      let span := (byteSlice bytes an.start an.stop).getD ""
      if isIdentifier span then none
      else
        let line := ((byteSlice bytes 0 an.start).map fun p => (lines p).length).getD 0
        some ⟨line, .notIdentifier span⟩

/-- The first fault of a generated file, with its line. -/
def Artifact.defect (a : Artifact) : Option Defect :=
  let first := (lines a.content).headD ""
  match declaredPackage first with
  | none => some ⟨1, .noPackageLine first⟩
  | some pkg =>
    let dir := String.ofList (pkg.toList.map fun c => if c = '.' then '/' else c)
    if !liesIn a.path dir then some ⟨1, .packageMismatch pkg⟩
    else if !(lines a.content).contains generatedMarker then some ⟨1, .missingMarker⟩
    else a.textDefect

end BeanCodegen.Java
