import BeanCodegen.Text.CaseMap
import BeanCodegen.Text.Lines
import BeanCodegen.Naming.Registry
/-! # Java package names

A Java package name is a dot-separated list of segments, each a lowercase ASCII letter or an
underscore followed by lowercase letters, digits and underscores. `packageSuffix` turns a
protobuf package, or a file's base name, into such a list: each segment is lowercased, every
other character becomes an underscore, a leading digit gets an underscore in front, and a
keyword gets the number a registry of reserved names would give it.
-/

namespace BeanCodegen.Naming

open BeanCodegen.Text

/-- Whether a character may start a package segment. -/
def isSegmentStart (c : Char) : Bool := ('a' ≤ c && c ≤ 'z') || c = '_'

/-- Whether a character may continue a package segment. -/
def isSegmentChar (c : Char) : Bool := isSegmentStart c || c.isDigit

/-- Whether a text is one package segment. -/
def isPackageSegment (s : String) : Bool :=
  match s.toList with
  | c :: rest => isSegmentStart c && rest.all isSegmentChar
  | [] => false

/-- Whether a text is a Java package name with at least one segment. -/
def isJavaPackage (s : String) : Bool := (splitChar s '.').all isPackageSegment

/-- One segment of a package suffix. -/
def packageSegment (seg : String) : String :=
  let ident := (toLowerFull seg).toList.map fun c => if c.isAlphanum || c = '_' then c else '_'
  let ident := match ident with
    | c :: rest => if c.isDigit then '_' :: c :: rest else c :: rest
    | [] => []
  let name := String.ofList ident
  if javaKeywords.contains name then (Registry.withReserved.claim name).1 else name

/-- The package suffix for a protobuf package or file base name: `Foo.2bar.int` becomes
`foo._2bar.int1`. Empty segments are dropped. -/
def packageSuffix (p : String) : String :=
  ".".intercalate (((splitChar p '.').filter (· ≠ "")).map packageSegment)

/-- The path of a Java source file for a class of a package. -/
def javaPath (pkg cls : String) : String :=
  if pkg.isEmpty then cls ++ ".java"
  else String.ofList (pkg.toList.map fun c => if c = '.' then '/' else c) ++ "/" ++ cls ++ ".java"

end BeanCodegen.Naming
