import BeanCodegen.Text.Blank
import BeanCodegen.Text.Lines
/-! # Comment text

Protobuf comments are copied into generated Java as `//` lines. A comment is split into lines
after one trailing line feed is dropped, and each line loses its trailing white space.

Java reads `\u` escapes everywhere in a source file, comments included, so a comment that
contains one could end itself or break the file. `disarm` doubles the backslash in front of
every `u` that an odd number of backslashes precedes, which turns the escape into plain text,
and replaces a carriage return, which would end the comment line, by a space.
-/

namespace BeanCodegen.Java

open BeanCodegen.Text

/-- The lines of a comment: one final line feed dropped, the rest split at line feeds, and
trailing white space removed from each line. -/
def commentLines (text : String) : List String :=
  let body := if text.endsWith "\n" then String.ofList text.toList.dropLast else text
  (splitChar body '\n').map trimBlankEnd

/-- The disarming scan; `odd` holds when an odd number of backslashes precedes. -/
def disarmScan : Bool → List Char → List Char
  | _, [] => []
  | odd, c :: rest =>
    if c = '\\' then c :: disarmScan (!odd) rest
    else if c = 'u' && odd then '\\' :: 'u' :: disarmScan false rest
    else if c = '\r' then ' ' :: disarmScan false rest
    else c :: disarmScan false rest

/-- A comment line with every `\u` escape made harmless and carriage returns turned into
spaces. -/
def disarm (line : String) : String := String.ofList (disarmScan false line.toList)

end BeanCodegen.Java
