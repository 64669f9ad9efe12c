import BeanCodegen.Text.Printable
/-! # Quoted literals

Two ways of writing a text between double quotes. A *string literal* follows the JSON rules,
which Java string literals accept as well: the quote, the backslash and the control characters
are escaped, and every other character stands as itself. A *diagnostic literal*, used inside
error messages, escapes the quote, the backslash, NUL, tab, carriage return and line feed by
letter, and every hidden character by its code point in braces.
-/

namespace BeanCodegen.Text

/-- The lowercase hexadecimal digits of a number, most significant first. -/
def hexDigits (n : Nat) : List Char := Nat.toDigits 16 n

/-- How a string literal writes one character. -/
def literalEscape (c : Char) : List Char :=
  match c with
  | '"' => ['\\', '"']
  | '\\' => ['\\', '\\']
  | '\n' => ['\\', 'n']
  | '\r' => ['\\', 'r']
  | '\t' => ['\\', 't']
  | '\x08' => ['\\', 'b']
  | '\x0c' => ['\\', 'f']
  | c =>
    if c.toNat < 0x20 then
      ['\\', 'u', '0', '0'] ++ hexDigits (c.toNat / 16) ++ hexDigits (c.toNat % 16)
    else [c]

/-- A text as a string literal, quotes included. -/
def stringLiteral (s : String) : String :=
  String.ofList ('"' :: s.toList.flatMap literalEscape ++ ['"'])

/-- How a diagnostic writes one character inside literals delimited by `delim`. -/
def diagnosticEscape (delim : Char) (c : Char) : List Char :=
  match c with
  | '\x00' => ['\\', '0']
  | '\t' => ['\\', 't']
  | '\r' => ['\\', 'r']
  | '\n' => ['\\', 'n']
  | '\\' => ['\\', '\\']
  | c =>
    if c = delim then ['\\', c]
    else if isHidden c then ['\\', 'u', '{'] ++ hexDigits c.toNat ++ ['}']
    else [c]

/-- A text as a diagnostic literal between double quotes. -/
def diagnosticText (s : String) : String :=
  String.ofList ('"' :: s.toList.flatMap (diagnosticEscape '"') ++ ['"'])

/-- A character as a diagnostic literal between single quotes. -/
def diagnosticChar (c : Char) : String :=
  String.ofList ('\'' :: diagnosticEscape '\'' c ++ ['\''])

end BeanCodegen.Text
