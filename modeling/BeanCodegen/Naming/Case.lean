/-! # Identifier case conventions

The spellings that generated Java code derives from protobuf names. Only ASCII letters change
case; every other character is kept as it stands.

* `camelCase` capitalises the first letter of each word. An underscore is dropped when a
  lowercase letter follows it, and a leading underscore becomes `X`.
* `lowerCamelCase` is `camelCase` with a first capital made small.
* `upperSnakeCase` writes constants: capitals, with an underscore before each capital that
  follows a lowercase letter or a digit. A name without lowercase letters stays as it is.
* `accessorCase` is how protobuf-java spells accessors: letters and digits only, a letter
  capitalised after a digit or a dropped character.
-/

namespace BeanCodegen.Naming

/-- Whether a list starts with an ASCII lowercase letter. -/
def startsLower : List Char → Bool
  | c :: _ => c.isLower
  | [] => false

/-- The word scan behind `camelCase`; `inWord` holds while lowercase letters continue the
word whose first letter was just written. -/
def camelScan : Bool → List Char → List Char
  | _, [] => []
  | inWord, c :: rest =>
    if inWord && c.isLower then c :: camelScan true rest
    else if c = '_' && startsLower rest then camelScan false rest
    else if c.isDigit then c :: camelScan false rest
    else c.toUpper :: camelScan true rest

/-- The camel-case form of a name, as a character list. -/
def camelChars : List Char → List Char
  | '_' :: rest => 'X' :: camelScan false rest
  | cs => camelScan false cs

/-- The camel-case form of a name: `hello_world` becomes `HelloWorld`. -/
def camelCase (s : String) : String := String.ofList (camelChars s.toList)

/-- Makes a first ASCII capital small. -/
def decapitalize : List Char → List Char
  | c :: rest => (if c.isUpper then c.toLower else c) :: rest
  | [] => []

/-- The camel-case form of a name with a small first letter: `user_id` becomes `userId`. -/
def lowerCamelCase (s : String) : String :=
  String.ofList (decapitalize (camelChars s.toList))

/-- The constant form of a name, given the character before the current one. -/
def snakeScan : Option Char → List Char → List Char
  | _, [] => []
  | prev, c :: rest =>
    let gap := c.isUpper && prev.any (fun p => p.isLower || p.isDigit)
    (if gap then ['_', c.toUpper] else [c.toUpper]) ++ snakeScan (some c) rest

/-- The constant form of a name: `userId` becomes `USER_ID`. -/
def upperSnakeCase (s : String) : String :=
  if s.toList.any Char.isLower then String.ofList (snakeScan none s.toList) else s

/-- The accessor scan; `capNext` holds after a digit, a dropped character or at the start. -/
def accessorScan : Bool → List Char → List Char
  | _, [] => []
  | capNext, c :: rest =>
    if c.isLower then (if capNext then c.toUpper else c) :: accessorScan false rest
    else if c.isUpper then c :: accessorScan false rest
    else if c.isDigit then c :: accessorScan true rest
    else accessorScan true rest

/-- The accessor stem protobuf-java derives from a field name: `foo_bar1baz` becomes
`FooBar1Baz`, and `Class`, which would clash with `getClass`, becomes `Class_`. -/
def accessorCase (s : String) : String :=
  let out := String.ofList (accessorScan true s.toList)
  if out = "Class" then "Class_" else out

end BeanCodegen.Naming
