/-! # File prologues

Every generated file starts with its package line, a marker saying it is generated and from
which descriptor, and its imports. Tools recognise generated files by the marker line.
-/

namespace BeanCodegen.Java

/-- The line that marks a file as generated. -/
def generatedMarker : String := "// Code generated by protoc-gen-bean. DO NOT EDIT."

/-- The prologue of a file of package `pkg` generated from the descriptor `source`: the package
line and a blank line when there is a package, the marker, the source, a deprecation notice
for a deprecated descriptor, a blank line, and the import lines followed by a blank line. -/
def prologue (pkg source : String) (deprecated : Bool) (importLines : List String) : String :=
  (if pkg.isEmpty then "" else "package " ++ pkg ++ ";\n\n") ++
  generatedMarker ++ "\n" ++
  "// source: " ++ source ++ "\n" ++
  (if deprecated then "// " ++ source ++ " is marked deprecated.\n" else "") ++
  "\n" ++
  String.join (importLines.map (· ++ "\n")) ++
  (if importLines.isEmpty then "" else "\n")

end BeanCodegen.Java
