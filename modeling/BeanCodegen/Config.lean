import BeanCodegen.Text.Blank
import BeanCodegen.Text.CaseMap
import BeanCodegen.Text.Literal
import BeanCodegen.Naming.Package
/-! # Generator configuration

The generator reads its options from one parameter text: comma-separated items, each
`key=value` or a bare `key` (value empty), with white space around keys and values ignored and
the last item of a key winning. The options are

* `vopkg`, the Java package of the value classes (required);
* `cvtpkg`, the package of the converters (default: `vopkg` followed by `.converter`);
* `layout`, `type` for a file per top-level type or `file` for a file per descriptor;
* `annotate_code`, on when bare or `true`.

Package options are lowercased and lose leading and trailing dots, and then have to be Java
package names. Unknown keys are ignored.
-/

namespace BeanCodegen

open BeanCodegen.Text BeanCodegen.Naming

/-- How value classes are split into files. -/
inductive Layout
  /-- A file per top-level message or enum. -/
  | perType
  /-- A file per descriptor, with every type nested in a wrapper class. -/
  | perFile
  deriving DecidableEq, Inhabited, Repr

/-- The generator's options. -/
structure Config where
  voPackage : String
  converterPackage : String
  layout : Layout
  annotateCode : Bool
  deriving Inhabited, Repr

/-- Why a parameter text is refused. -/
inductive ConfigError
  /-- No `vopkg`, or one that is empty after normalising. -/
  | missingVoPackage
  /-- A package option that is not a Java package name. -/
  | badPackage (key pkg : String)
  /-- A `layout` other than `type` or `file`. -/
  | unknownLayout (value : String)
  deriving DecidableEq, Repr

/-- The text of a configuration error. -/
def ConfigError.message : ConfigError → String
  | .missingVoPackage => "invalid vo package, use --bean_out=vopkg=[package.of.vo] to set"
  | .badPackage key pkg => "invalid " ++ key ++ " " ++ diagnosticText pkg ++ ": not a Java package name"
  | .unknownLayout v => "unknown layout " ++ diagnosticText v ++ ": want \"type\" or \"file\""

namespace Config

/-- One item of a parameter text as a key and a value, both trimmed. -/
def item (s : String) : String × String :=
  match splitChar s '=' with
  | [] => (trimBlank s, "")
  | [k] => (trimBlank k, "")
  | k :: rest => (trimBlank k, trimBlank ("=".intercalate rest))

/-- The items of a parameter text in order; empty items are skipped. -/
def items (parameter : String) : List (String × String) :=
  ((splitChar parameter ',').filter (· ≠ "")).map item

/-- The value of the last item with a key. -/
def valueOf (entries : List (String × String)) (key : String) : Option String :=
  entries.foldl (fun acc (k, v) => if k = key then some v else acc) none

/-- A package option lowercased, with leading and trailing dots removed. -/
def normalizePackage (s : String) : String :=
  let cs := (toLowerFull s).toList.dropWhile (· = '.')
  String.ofList (cs.reverse.dropWhile (· = '.')).reverse

/-- Accepts a package option that is a Java package name. -/
def checkPackage (key pkg : String) : Except ConfigError Unit :=
  if isJavaPackage pkg then .ok () else .error (.badPackage key pkg)

/-- Reads a `layout` option; none means the default. -/
def parseLayout : Option String → Except ConfigError Layout
  | none => pure .perType
  | some "type" => pure .perType
  | some "file" => pure .perFile
  | some other => throw (.unknownLayout other)

/-- Reads the options from a parameter text. -/
def parse (parameter : String) : Except ConfigError Config := do
  let entries := items parameter
  let vo := normalizePackage ((valueOf entries "vopkg").getD "")
  if vo.isEmpty then throw .missingVoPackage
  checkPackage "vopkg" vo
  let cvt := match (valueOf entries "cvtpkg").map normalizePackage with
    | some pkg => if pkg.isEmpty then vo ++ ".converter" else pkg
    | none => vo ++ ".converter"
  checkPackage "cvtpkg" cvt
  let layout ← parseLayout (valueOf entries "layout")
  let annotate := match valueOf entries "annotate_code" with
    | some "" => true
    | some "true" => true
    | _ => false
  return { voPackage := vo, converterPackage := cvt, layout, annotateCode := annotate }

end Config

end BeanCodegen
