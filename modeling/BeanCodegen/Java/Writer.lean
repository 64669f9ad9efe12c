import BeanCodegen.Java.Comment
/-! # Source text with annotations

A `Writer` builds a source file line by line at a current indentation of four spaces per level.
It keeps a list of *annotations*: byte ranges of the text that name the declaration a
protobuf element became, each with the element's path in the descriptor.

Blank lines are kept sparse: a blank line is added only after text that does not already end
in a blank line or an opening brace, and closing a block removes blank lines before the
closing line. Since both only look at the end of the text, the writer keeps the final line
feeds apart from the rest of the text.

An `Artifact` is a finished file: a prologue followed by the written body, with the
annotations moved past the prologue.
-/

namespace BeanCodegen.Java

/-- A byte range `[start, stop)` of a generated file that names the element at `path`. -/
structure Annotation where
  path : List Int
  start : Nat
  stop : Nat
  deriving Inhabited, BEq, Repr

/-- The one level of indentation. -/
def indentUnit : String := "    "

/-- Source text under construction. The text is kept in two parts, its `front` and the number
of line feeds `feeds` that end it, with a front that never ends in a line feed: blank lines
are decided and trimmed by looking at `feeds` alone, and the front only ever grows. -/
structure Writer where
  front : String := ""
  feeds : Nat := 0
  depth : Nat := 0
  annotations : Array Annotation := #[]
  deriving Inhabited

/-- A run of line feeds. -/
def lineFeeds (n : Nat) : String := String.ofList (List.replicate n '\n')

/-- The number of line feeds ending a string. -/
def trailingFeeds (s : String) : Nat := (s.toList.reverse.takeWhile (· = '\n')).length

/-- A string without the line feeds ending it. -/
def withoutTrailingFeeds (s : String) : String :=
  String.ofList (s.toList.reverse.dropWhile (· = '\n')).reverse

/-- Appends a string to a text held as a front and a count of final line feeds. -/
def extendText (front : String) (feeds : Nat) (s : String) : String × Nat :=
  let core := withoutTrailingFeeds s
  if core.isEmpty then (front, feeds + trailingFeeds s)
  else (front ++ lineFeeds feeds ++ core, trailingFeeds s)

namespace Writer

/-- The text written so far. -/
def text (w : Writer) : String := w.front ++ lineFeeds w.feeds

/-- The byte length of the text written so far. -/
def size (w : Writer) : Nat := w.front.utf8ByteSize + w.feeds

/-- The indentation of a depth. -/
def indentation (depth : Nat) : String := String.join (List.replicate depth indentUnit)

/-- Appends a string to the text. -/
def append (w : Writer) (s : String) : Writer :=
  match w with
  | ⟨front, feeds, depth, annotations⟩ =>
    let (front, feeds) := extendText front feeds s
    ⟨front, feeds, depth, annotations⟩

/-- Writes a line at the current indentation; an empty line gets no indentation. -/
def line (w : Writer) (t : String) : Writer :=
  w.append ((if t.isEmpty then "" else indentation w.depth ++ t) ++ "\n")

/-- Writes a blank line, unless the text is empty or already ends in a blank line or an
opening brace. -/
def blank (w : Writer) : Writer :=
  match w with
  | ⟨front, feeds, depth, annotations⟩ =>
    if (front.isEmpty && feeds == 0) || feeds ≥ 2 || (feeds == 1 && front.endsWith "\x7b") then
      ⟨front, feeds, depth, annotations⟩
    else ⟨front, feeds + 1, depth, annotations⟩

/-- Writes `prefix name suffix` as a line and annotates the bytes of `name` with `path`. -/
def annotated (w : Writer) (path : List Int) (pre name suf : String) : Writer :=
  let w := w.append (indentation w.depth ++ pre)
  let start := w.size
  match w.append (name ++ suf ++ "\n") with
  | ⟨front, feeds, depth, annotations⟩ =>
    ⟨front, feeds, depth, annotations.push ⟨path, start, start + name.utf8ByteSize⟩⟩

/-- Writes a comment as `//` lines; nothing for an absent comment. -/
def comment (w : Writer) : Option String → Writer
  | none => w
  | some t => (commentLines t).foldl (fun w l => w.line ("//" ++ disarm l)) w

/-- Goes one level deeper. -/
def enter (w : Writer) : Writer :=
  match w with
  | ⟨front, feeds, depth, annotations⟩ => ⟨front, feeds, depth + 1, annotations⟩

/-- Comes back one level, drops blank lines before the end, and writes the closing line. -/
def leave (w : Writer) (footer : String) : Writer :=
  match w with
  | ⟨front, feeds, depth, annotations⟩ => line ⟨front, min feeds 1, depth - 1, annotations⟩ footer

/-- Writes a block: its opening line, its body one level deeper, and its closing line. The
closing line is written even when the body fails, and the body's outcome is returned. -/
def block (w : Writer) (header footer : String) (body : Writer → Except ε α × Writer) :
    Except ε α × Writer :=
  let (r, w') := body (w.line header).enter
  (r, w'.leave footer)

/-- Writes a body one level deeper and a closing line, like `block` without an opening line. -/
def body (w : Writer) (footer : String) (inner : Writer → Except ε α × Writer) :
    Except ε α × Writer :=
  let (r, w') := inner w.enter
  (r, w'.leave footer)

end Writer

/-- A generated file. -/
structure Artifact where
  path : String
  source : String
  content : String
  annotations : List Annotation
  deriving Inhabited

/-- A file made of a prologue and a written body; the annotations move past the prologue. -/
def Artifact.assemble (path source prologue : String) (w : Writer) : Artifact :=
  let offset := prologue.utf8ByteSize
  { path, source
    content := prologue ++ w.text
    annotations := w.annotations.toList.map fun a => { a with start := a.start + offset,
                                                              stop := a.stop + offset } }

end BeanCodegen.Java
