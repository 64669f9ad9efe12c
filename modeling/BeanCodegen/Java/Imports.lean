import BeanCodegen.Java.ClassName
import BeanCodegen.Naming.Reserved
/-! # Imports of one source file

A file of some package refers to classes by the shortest name that is unambiguous, and imports
what that requires. The first reference to a simple name wins it: a later class with the same
top-level name from elsewhere is written qualified.

A reference is written qualified when its top-level name is a class nested in the file's own
class, or a reserved name outside the library packages. A class of the file's own package is
written relative unless an import already took its name. A top-level class of `java.lang` is
written bare unless the file declares that name itself. Any other class is imported on first
use, and written qualified when its name is taken by another import or by a class of the file.
-/

namespace BeanCodegen.Java

open BeanCodegen.Naming

/-- The packages of the Java and protobuf runtime libraries. -/
def libraryPackages : List String := ["java.lang", "java.util", "com.google.protobuf"]

/-- What one source file has in scope. -/
structure Imports where
  /-- The file's package. -/
  package : String
  /-- Top-level names of the package that the file uses or declares. -/
  declared : List String := []
  /-- Names of classes nested in the file's classes. -/
  nestedNames : List String := []
  /-- Imported top-level names with the qualified name each stands for, in first-use order. -/
  imported : List (String × String) := []
  deriving Inhabited

namespace Imports

/-- An empty scope for a package. -/
def empty (pkg : String) : Imports := { package := pkg }

/-- Records a top-level class the file declares. -/
def declare (s : Imports) (name : String) : Imports :=
  { s with declared := if s.declared.contains name then s.declared else s.declared ++ [name] }

/-- Records a class nested in one of the file's classes. -/
def declareNested (s : Imports) (name : String) : Imports :=
  { s with nestedNames :=
      if s.nestedNames.contains name then s.nestedNames else s.nestedNames ++ [name] }

/-- The name a reference to a class is written with, and the scope after it. -/
def reference (s : Imports) (c : ClassName) : String × Imports :=
  let top := c.outermost
  let library := libraryPackages.contains c.package
  let full := c.package ++ "." ++ top
  if s.nestedNames.contains top || (isReserved top && !library) then (c.qualified, s)
  else if c.package = s.package then
    match s.imported.lookup top with
    | some other => if other ≠ full then (c.qualified, s) else (c.relative, s.declare top)
    | none => (c.relative, s.declare top)
  else if c.package = "java.lang" && c.path.length = 1 && !s.declared.contains top then
    (c.relative, s)
  else
    match s.imported.lookup top with
    | some other => if other = full then (c.relative, s) else (c.qualified, s)
    | none =>
      if s.declared.contains top then (c.qualified, s)
      else (c.relative, { s with imported := s.imported ++ [(top, full)] })

/-- Inserts a name into a sorted list, before the first greater name. -/
def insertName (n : String) : List String → List String
  | [] => [n]
  | m :: ms => if n ≤ m then n :: m :: ms else m :: insertName n ms

/-- Names in increasing order, sorted by insertion so that the order evaluates by structural
recursion. -/
def sortNames : List String → List String
  | [] => []
  | n :: ns => insertName n (sortNames ns)

theorem mem_insertName {n m : String} {ms : List String} :
    m ∈ insertName n ms ↔ m = n ∨ m ∈ ms := by
  induction ms with
  | nil => simp [insertName]
  | cons k ks ih =>
    unfold insertName
    split <;> simp [ih, or_left_comm]

theorem mem_sortNames {m : String} {ns : List String} : m ∈ sortNames ns ↔ m ∈ ns := by
  induction ns with
  | nil => rfl
  | cons n ns ih => simp [sortNames, mem_insertName, ih]

/-- The import lines, sorted by the imported name. -/
def lines (s : Imports) : List String :=
  (sortNames (s.imported.map Prod.snd)).map fun full => "import " ++ full ++ ";"

end Imports

end BeanCodegen.Java
