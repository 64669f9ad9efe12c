import BeanCodegen.Emit.Draft
import BeanCodegen.Shape.Render
/-! # Value classes

The value classes of a descriptor file. Each message becomes a class with one public member
per field, its field-number and default constants, accessors for its oneofs, a `toString`,
and its nested enums and messages as nested classes; each enum becomes a Java enum with a
number lookup. Extensions become constants naming their number and extended message.

A oneof is written in place of its first member: an enum of its cases, an interface, one
wrapper class per member holding the payload, and a single member of the interface type.
Map entry messages get no class, since their fields are a map member of the parent.

With a wrapper class all of a file's classes nest in one file; otherwise each top-level
message and enum, and the extension holder, is a file of its own.
-/

namespace BeanCodegen.Emit

open BeanCodegen.Java BeanCodegen.Schema BeanCodegen.Plan BeanCodegen.Shape

/-- The largest field number protobuf allows. -/
def maxFieldNumber : Int := 536870911

/-- The last field number of an extension range ending before `stop`: `stop - 1` taken in
32-bit arithmetic, as range ends are 32-bit numbers. The least one wraps to the greatest. -/
def rangeLast (stop : Int) : Int := (Int32.ofInt stop - 1).toInt

/-- The comment on an extension range `[start, stop)`; a range reaching past the greatest field
number reaches the maximum. -/
def rangeComment (start stop : Int) : String :=
  let last := rangeLast stop
  if last ≥ maxFieldNumber then "// extensions " ++ toString start ++ " to max;"
  else if last = start then "// extensions " ++ toString start ++ ";"
  else "// extensions " ++ toString start ++ " to " ++ toString last ++ ";"

/-- The Java text showing a member in `toString`: strings quoted, bytes listed. -/
def showValue (f : Classified) (expr : String) : EmitM String :=
  match f.shape with
  | .scalar .string false | .variant _ (.scalar .string) =>
    pure ("\"\x27\" + " ++ expr ++ " + \"\x27\"")
  | .scalar .bytes false | .variant _ (.scalar .bytes) => do
    let arrays ← nameClass (.top "java.util" "Arrays")
    pure (arrays ++ ".toString(" ++ expr ++ ")")
  | _ => pure expr

/-- The labels and shown values of `toString`: a member per field, and a member per oneof
at its first field; `seen` holds the oneofs already shown. -/
def showParts (oneofs : List (Option OneofPlan)) :
    List (Classified × MemberPlan) → List Nat → EmitM (List (String × String))
  | [], _ => pure []
  | (f, member) :: rest, seen =>
    match f.shape with
    | .variant k _ =>
      match oneofs[k]?.join with
      | some op =>
        if seen.contains k then showParts oneofs rest seen
        else do return (op.field, op.field) :: (← showParts oneofs rest (seen ++ [k]))
      | none => showParts oneofs rest seen
    | _ => do
      let shown ← showValue f member.field
      return (member.field, shown) :: (← showParts oneofs rest seen)

namespace Source

/-- Declares the classes nested in a message's class: the message's own class when it is
nested, its oneof types, its enums and its nested messages. -/
def declareMessage (c : Source) : Nat → Nat → Bool → EmitM Unit
  | 0, _, _ => pure ()
  | fuel + 1, i, nested => do
    let m := c.message i
    let mp := c.messagePlan i
    if nested then declareNested mp.className
    for op in mp.oneofs do
      if let some op := op then
        declareNested op.iface
        declareNested op.caseEnum
        for v in op.variants do
          declareNested v.wrapper
    for e in m.enums do
      declareNested (c.enumPlan e).className
    for n in m.nested do
      if !(c.message n).mapEntry then c.declareMessage fuel n true

/-- A member for a field: its description, its annotation and its initial value. -/
def fieldMember (c : Source) (f : Classified) (member : MemberPlan) : EmitM Unit := do
  leading c.unit f.field.path
  line ("// " ++ f.describe c.unit.dialect)
  if f.field.deprecated then line "@Deprecated"
  let ty ← onImports (f.renderType c.session)
  let init ← onImports (f.initializer c.session member.defaultConst)
  let suf := match init with
    | some v => " = " ++ v ++ ";"
    | none => ";"
  annotated f.field.path ("public " ++ ty ++ " ") member.field suf
  trailing c.unit f.field.path

/-- The types of a oneof and its member: the case enum, the interface, a wrapper class per
variant, and the member holding the set variant. -/
def oneofMembers (c : Source) (g : Oneof) (op : OneofPlan) (fields : List Classified)
    (members : List MemberPlan) : EmitM Unit := do
  let fieldAt (i : Nat) : Classified := fields[i]?.getD default
  leading c.unit g.path
  declClass none "public enum " op.caseEnum " \x7b" do
    for v in op.variants do
      line (v.caseConstant ++ "(" ++ toString (fieldAt v.fieldIndex).field.number ++ "),")
    line (op.notSet ++ "(0);")
    blank
    line "private final int number;"
    blank
    braces (op.caseEnum ++ "(int number)") (line "this.number = number;")
    blank
    braces "public int getNumber()" (line "return number;")
    blank
    braces ("public static " ++ op.caseEnum ++ " forNumber(int number)") do
      braces "switch (number)" do
        for v in op.variants do
          line ("case " ++ toString (fieldAt v.fieldIndex).field.number ++ ": return " ++
            v.caseConstant ++ ";")
        line ("case 0: return " ++ op.notSet ++ ";")
        line "default: return null;"
  blank
  declClass none "public interface " op.iface " \x7b"
    (line (op.caseEnum ++ " " ++ op.caseGetter ++ "();"))
  blank
  for v in op.variants do
    let f := fieldAt v.fieldIndex
    let payload := (members[v.fieldIndex]?.getD default).field
    let ty ← onImports (f.renderType c.session)
    let shown ← showValue f payload
    leading c.unit f.field.path
    line ("// " ++ f.describe c.unit.dialect)
    if f.field.deprecated then line "@Deprecated"
    declClass none "public static final class " v.wrapper
        (" implements " ++ op.iface ++ " \x7b") do
      annotated f.field.path ("public final " ++ ty ++ " ") payload ";"
      blank
      braces ("public " ++ v.wrapper ++ "(" ++ ty ++ " " ++ payload ++ ")")
        (line ("this." ++ payload ++ " = " ++ payload ++ ";"))
      blank
      line "@Override"
      braces ("public " ++ op.caseEnum ++ " " ++ op.caseGetter ++ "()")
        (line ("return " ++ op.caseEnum ++ "." ++ v.caseConstant ++ ";"))
      blank
      line "@Override"
      braces "public String toString()"
        (line ("return " ++ quote (v.wrapper ++ "\x7b" ++ payload ++ "=") ++ " + " ++ shown ++
          " + \"\x7d\";"))
    blank
  annotated g.path ("public " ++ op.iface ++ " ") op.field ";"

/-- The accessors of a oneof: which case is set, and a setter and getter per variant. -/
def oneofAccessors (c : Source) (g : Oneof) (op : OneofPlan) (fields : List Classified)
    (members : List MemberPlan) : EmitM Unit := do
  annotated g.path ("public " ++ op.caseEnum ++ " ") op.caseGetter "() \x7b"
  body "\x7d" do
    line ("return " ++ op.field ++ " == null ? " ++ op.caseEnum ++ "." ++ op.notSet ++ " : " ++
      op.field ++ "." ++ op.caseGetter ++ "();")
  blank
  for v in op.variants do
    let f := fields[v.fieldIndex]?.getD default
    let member := members[v.fieldIndex]?.getD default
    let ty ← onImports (f.renderType c.session)
    let fallback ← onImports (f.getterDefault c.session member.defaultConst)
    braces ("public void " ++ v.setter ++ "(" ++ ty ++ " " ++ member.field ++ ")")
      (line ("this." ++ op.field ++ " = new " ++ v.wrapper ++ "(" ++ member.field ++ ");"))
    blank
    braces ("public " ++ ty ++ " " ++ v.getter ++ "()")
      (line ("return " ++ op.field ++ " instanceof " ++ v.wrapper ++ " ? ((" ++ v.wrapper ++
        ") " ++ op.field ++ ")." ++ member.field ++ " : " ++ fallback ++ ";"))
    blank

/-- The `toString` of a class, listing its members. -/
def toStringMethod (cls : String) (fields : List Classified) (members : List MemberPlan)
    (oneofs : List (Option OneofPlan)) : EmitM Unit := do
  let parts ← showParts oneofs (fields.zip members) []
  line "@Override"
  braces "public String toString()" do
    if parts.isEmpty then
      line ("return " ++ quote (cls ++ "\x7b\x7d") ++ ";")
    else
      line ("return " ++ quote (cls ++ "\x7b"))
      for ((label, expr), i) in parts.zipIdx do
        let sep := if i = 0 then "" else ", "
        line ("    + " ++ quote (sep ++ label ++ "=") ++ " + " ++ expr)
      line "    + \"\x7d\";"

/-- A Java enum for an enum of the file, with a number lookup that skips aliases. -/
def enumeration (c : Source) (i : Nat) : EmitM Unit := do
  let e := c.enumType i
  let ep := c.enumPlan i
  leading c.unit e.path
  if e.deprecated then line "@Deprecated"
  declClass (some e.path) "public enum " ep.className " \x7b" do
    trailing c.unit e.path
    if e.values.isEmpty then line ";"
    for ((v, k), j) in (e.values.zip ep.constants).zipIdx do
      leading c.unit v.path
      if let some first := v.aliasOf then
        line ("// Duplicate value: " ++ toString v.number ++ ", alias of " ++
          ep.constants[first]?.getD "")
      if v.deprecated then line "@Deprecated"
      let stop := if j + 1 = e.values.length then ";" else ","
      annotated v.path "" k ("(" ++ toString v.number ++ ")" ++ stop)
      trailing c.unit v.path
    blank
    line "private final int number;"
    blank
    braces (ep.className ++ "(int number)") (line "this.number = number;")
    blank
    braces "public int getNumber()" (line "return number;")
    blank
    let fallback := ep.constants.head?.getD "null"
    braces ("public static " ++ ep.className ++ " forNumber(int number)") do
      braces "switch (number)" do
        for (v, k) in e.values.zip ep.constants do
          if v.aliasOf.isNone then
            line ("case " ++ toString v.number ++ ": return " ++ k ++ ";")
        line ("default: return " ++ fallback ++ ";")

/-- Constants for extensions: the field number and the full name of the extended message. -/
def extensionConstants (c : Source) (scope : Option Message) (exts : List Field)
    (plans : List ExtensionPlan) : EmitM Unit := do
  for (ext, ep) in exts.zip plans do
    let f ← c.classify scope ext
    match f.shape with
    | .extension target _ _ =>
      let full := String.ofList ((c.session.graph.message target).fullName.toList.dropWhile
        (· = '.'))
      leading c.unit ext.path
      line ("// extend " ++ full ++ " \x7b " ++ f.describe c.unit.dialect ++ " \x7d")
      annotated ext.path "public static final int " ep.numberConst
        (" = " ++ toString ext.number ++ ";")
      line ("public static final String " ++ ep.extendeeConst ++ " = " ++ quote full ++ ";")
      blank
    | _ => pure ()

/-- The class holding the file-level extension constants, if the file has one. -/
def extensionsHolder (c : Source) (modifiers : String) : EmitM Unit :=
  match c.plan.extensionsClass with
  | none => pure ()
  | some holder => do
    declClass none (modifiers ++ "final class ") holder " \x7b" do
      line ("private " ++ holder ++ "() \x7b\x7d")
      blank
      c.extensionConstants none c.unit.extensions c.plan.extensions

/-- The members a message class has for its fields, in field order: a member per field outside
oneofs, and a oneof's types and member in place of its first member. -/
def fieldMembers (c : Source) (m : Message) (mp : MessagePlan) (fields : List Classified) :
    EmitM Unit := do
  for (f, member) in fields.zip mp.fields do
    match f.shape with
    | .variant k _ =>
      if let some op := variantPlan mp.oneofs f then
        if opensOneof op f then
          c.oneofMembers (m.oneofs[k]?.getD default) op fields mp.fields
          blank
    | _ =>
      c.fieldMember f member
      blank

/-- The accessors of a message's oneofs, in oneof order. -/
def accessors (c : Source) (m : Message) (mp : MessagePlan) (fields : List Classified) :
    EmitM Unit := do
  for (g, op) in m.oneofs.zip mp.oneofs do
    if let some op := op then c.oneofAccessors g op fields mp.fields

/-- The class of a message, with its nested enums and messages. -/
def messageClass (c : Source) : Nat → Nat → String → EmitM Unit
  | 0, _, _ => pure ()
  | fuel + 1, i, modifiers => do
    let m := c.message i
    let mp := c.messagePlan i
    let fields ← m.fields.mapM (c.classify (some m))
    leading c.unit m.path
    if m.deprecated then line "@Deprecated"
    declClass (some m.path) (modifiers ++ "class ") mp.className " \x7b" do
      trailing c.unit m.path
      c.fieldMembers m mp fields
      for (f, member) in fields.zip mp.fields do
        line ("public static final int " ++ member.numberConst ++ " = " ++
          toString f.field.number ++ ";")
      for (f, member) in fields.zip mp.fields do
        if let (some k, some v) := (member.defaultConst, f.valueKind) then
          if let some lit ← onImports (f.renderDefault c.session) then
            let ty ← onImports (v.render c.session false)
            line ("public static final " ++ ty ++ " " ++ k ++ " = " ++ lit ++ ";")
      blank
      c.extensionConstants (some m) m.extensions mp.extensions
      for (start, stop) in m.extensionRanges do
        line (rangeComment start stop)
      blank
      c.accessors m mp fields
      toStringMethod mp.className fields mp.fields mp.oneofs
      blank
      for e in m.enums do
        c.enumeration e
        blank
      for n in m.nested do
        if !(c.message n).mapEntry then
          c.messageClass fuel n "public static "
          blank

/-- The wrapper class of the per-file layout, with the file's top-level messages and enums and
its extension holder nested in it. -/
def wrapperClass (c : Source) (wrapper : String) (messages enums : List Nat) : EmitM Unit :=
  declClass (some []) "public final class " wrapper " \x7b" do
    line ("private " ++ wrapper ++ "() \x7b\x7d")
    blank
    for i in messages do
      c.messageClass c.depth i "public static "
      blank
    for e in enums do
      c.enumeration e
      blank
    c.extensionsHolder "public static "

/-- The value-class files of the descriptor file, each as the class it is named after and
the draft of its body. -/
def beanDrafts (c : Source) : Except GenError (List (String × Draft)) := do
  let messages := (c.unit.topLevelMessages.filter fun (_, m) => !m.mapEntry).map (·.1)
  let enums := c.unit.topLevelEnums.map (·.1)
  let pkg := c.plan.voPackage
  match c.plan.wrapperClass with
  | some wrapper =>
    if messages.isEmpty && enums.isEmpty && c.unit.extensions.isEmpty then return []
    let d ← draft pkg [wrapper] do
      for i in messages do c.declareMessage c.depth i true
      for e in enums do declareNested (c.enumPlan e).className
      if let some holder := c.plan.extensionsClass then declareNested holder
      c.wrapperClass wrapper messages enums
    return [(wrapper, d)]
  | none =>
    let ofMessages ← messages.mapM fun i => do
      let cls := (c.messagePlan i).className
      let d ← draft pkg [cls] do
        c.declareMessage c.depth i false
        c.messageClass c.depth i "public "
      return (cls, d)
    let ofEnums ← enums.mapM fun e => do
      let cls := (c.enumPlan e).className
      let d ← draft pkg [cls] (c.enumeration e)
      return (cls, d)
    let holder ← match c.plan.extensionsClass with
      | none => pure []
      | some holder => do
        let d ← draft pkg [holder] (c.extensionsHolder "public ")
        pure [(holder, d)]
    return ofMessages ++ ofEnums ++ holder

/-- The value-class files of the descriptor file. -/
def beanFiles (c : Source) : Except GenError (List Artifact) :=
  c.beanDrafts.map (·.map fun (cls, d) => d.finish c.plan.voPackage cls c.unit)

end Source

end BeanCodegen.Emit
