/-! # Class names

A Java class is named by its package and the path of simple names from the top-level class
down to it. Its *relative* name joins the path with dots, its *qualified* name puts the
package in front when there is one, and its *top* name is the top-level class that an import
brings into scope.
-/

namespace BeanCodegen.Java

/-- A class: its package (empty for the unnamed package) and its path of simple names. -/
structure ClassName where
  package : String
  path : List String
  deriving Inhabited, BEq, Repr

namespace ClassName

/-- A top-level class of a package. -/
def top (pkg name : String) : ClassName := ⟨pkg, [name]⟩

/-- The class nested in this one under a simple name. -/
def nested (c : ClassName) (name : String) : ClassName := ⟨c.package, c.path ++ [name]⟩

/-- The last simple name of the path, or the empty text for an empty path. -/
def simple (c : ClassName) : String := c.path.getLastD ""

/-- The path joined by dots. -/
def relative (c : ClassName) : String := ".".intercalate c.path

/-- The first simple name of the path: the top-level class. -/
def outermost (c : ClassName) : String := c.path.headD ""

/-- The fully qualified name. -/
def qualified (c : ClassName) : String :=
  if c.package.isEmpty then c.relative else c.package ++ "." ++ c.relative

end ClassName

end BeanCodegen.Java
