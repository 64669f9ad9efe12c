import BeanCodegen.Text.Literal
/-! # JSON text

JSON values and their indented text: two spaces per level, one element or member per line,
members written `"key": value`, and empty arrays and objects written `[]` and `{}`. Objects
keep their members in the order given, so a record's fields come out in declaration order.
Strings are quoted by `stringLiteral`.
-/

namespace BeanCodegen.Text

/-- A JSON value whose objects are ordered lists of members. -/
inductive JsonValue
  | null
  | bool (b : Bool)
  | int (i : Int)
  | str (s : String)
  | arr (items : List JsonValue)
  | obj (members : List (String × JsonValue))
  deriving Inhabited, Repr

namespace JsonValue

/-- A natural number. -/
def nat (n : Nat) : JsonValue := .int n

/-- An optional value, `null` when absent. -/
def opt (f : α → JsonValue) : Option α → JsonValue
  | some a => f a
  | none => .null

/-- An array of values. -/
def list (f : α → JsonValue) (xs : List α) : JsonValue := .arr (xs.map f)

/-- The indentation of a nesting depth. -/
def pad (depth : Nat) : String := String.ofList (List.replicate (2 * depth) ' ')

mutual

/-- The indented text of a value at a nesting depth; nested lines are indented one level
deeper, and the closing bracket is at the value's own depth. -/
def render (depth : Nat) : JsonValue → String
  | .null => "null"
  | .bool b => if b then "true" else "false"
  | .int i => toString i
  | .str s => stringLiteral s
  | .arr [] => "[]"
  | .arr items => "[\n" ++ renderItems (depth + 1) items ++ "\n" ++ pad depth ++ "]"
  | .obj [] => "\x7b\x7d"
  | .obj members =>
    "\x7b\n" ++ renderMembers (depth + 1) members ++ "\n" ++ pad depth ++ "\x7d"

/-- The lines of an array's elements, separated by commas. -/
def renderItems (depth : Nat) : List JsonValue → String
  | [] => ""
  | [x] => pad depth ++ render depth x
  | x :: xs => pad depth ++ render depth x ++ ",\n" ++ renderItems depth xs

/-- The lines of an object's members, separated by commas. -/
def renderMembers (depth : Nat) : List (String × JsonValue) → String
  | [] => ""
  | [m] => renderMember depth m
  | m :: ms => renderMember depth m ++ ",\n" ++ renderMembers depth ms

/-- The line of one member. -/
def renderMember (depth : Nat) : String × JsonValue → String
  | (k, v) => pad depth ++ stringLiteral k ++ ": " ++ render depth v

end

/-- The text of a value at the top level. -/
def pretty (v : JsonValue) : String := render 0 v

end JsonValue

end BeanCodegen.Text
