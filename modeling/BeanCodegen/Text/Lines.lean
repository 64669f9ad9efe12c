/-! # Pieces and lines of a text

A text splits at a separator character into the pieces between its occurrences: `n`
separators give `n + 1` pieces, empty ones included. A text's lines are the pieces between
line feeds, except that a final line feed ends the last line rather than starting an empty one,
and a carriage return right before a line feed belongs to the line break.
-/

namespace BeanCodegen.Text

/-- The pieces of a list of characters between occurrences of `sep`. -/
def splitChars (sep : Char) : List Char → List (List Char)
  | [] => [[]]
  | c :: cs =>
    let rest := splitChars sep cs
    if c = sep then [] :: rest else (c :: rest.headD []) :: rest.tail

/-- The pieces of a text between occurrences of a separator character. -/
def splitChar (s : String) (sep : Char) : List String :=
  (splitChars sep s.toList).map String.ofList

/-- Drops one carriage return at the end of a line. -/
def dropCarriageReturn (s : String) : String :=
  if s.endsWith "\r" then String.ofList s.toList.dropLast else s

/-- The lines of a text. -/
def lines (s : String) : List String :=
  let pieces := splitChar s '\n'
  match pieces.getLast? with
  | some "" => pieces.dropLast.map dropCarriageReturn
  | _ => (pieces.dropLast.map dropCarriageReturn) ++ [pieces.getLastD ""]

end BeanCodegen.Text
