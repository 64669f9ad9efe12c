import BeanCodegen.Emit.Draft
import BeanCodegen.Shape.Render
/-! # Converters

The converter class of a descriptor file: for each message that is not a map entry, a method
building its value class from the protobuf-java object and one building the object from the
value class; a top-level message also gets methods reading from and writing to bytes.

Messages of other files are converted through their own file's converter. Under proto3 an
enum is carried by its number, since a protobuf-java enum of an open enum cannot hold an
unknown value; under proto2 it goes through the protobuf-java enum class.
-/

namespace BeanCodegen.Emit

open BeanCodegen.Java BeanCodegen.Schema BeanCodegen.Plan BeanCodegen.Shape

/-- `com.google.protobuf.ByteString`. -/
def byteStringClass : ClassName := .top "com.google.protobuf" "ByteString"

/-- `com.google.protobuf.InvalidProtocolBufferException`. -/
def parseErrorClass : ClassName := .top "com.google.protobuf" "InvalidProtocolBufferException"

/-- A `switch` on a selector: each arm a case label and its statements, then `break`. -/
def switchOn (selector : String) (arms : List (String × List String)) : EmitM Unit :=
  braces ("switch (" ++ selector ++ ")") do
    for (label, stmts) in arms do
      line ("case " ++ label ++ ":")
      for st in stmts do
        line ("    " ++ st)
      line "    break;"
    line "default:"
    line "    break;"

namespace Source

/-- Whether the file's enums are open, so that values travel as numbers. -/
def openEnums (c : Source) : Bool := c.unit.dialect == .proto3

/-- The suffix of protobuf-java accessors of a value: `Value` for open enums. -/
def accessorSuffix (c : Source) : ValueKind → String
  | .enum _ => if c.openEnums then "Value" else ""
  | _ => ""

/-- The value class of a message. -/
def beanClass (c : Source) (id : MessageId) : EmitM String :=
  nameClass (c.session.alloc.messageClass c.session.graph id)

/-- The protobuf-java class of a message. -/
def protoClass (c : Source) (id : MessageId) : EmitM String :=
  nameClass (c.session.alloc.protoMessageClass c.session.graph id)

/-- A call of a converter method for a message, through its file's converter class when
the message belongs to another file. -/
def call (c : Source) (id : MessageId) (method arg : String) : EmitM String :=
  if id.file = c.file then pure (method ++ "(" ++ arg ++ ")")
  else do
    let k ← nameClass (c.session.alloc.converterClass c.session.config.converterPackage id.file)
    pure (k ++ "." ++ method ++ "(" ++ arg ++ ")")

/-- The protobuf-java type of one value. -/
def protoElement (c : Source) : ValueKind → EmitM String
  | .scalar .bytes => nameClass byteStringClass
  | .scalar s => pure s.boxed
  | .message id => c.protoClass id
  | .enum id =>
    if c.openEnums then pure "Integer"
    else nameClass (c.session.alloc.protoEnumClass c.session.graph id)

/-- A protobuf-java value converted to its value-class form. -/
def decodeValue (c : Source) (v : ValueKind) (expr : String) : EmitM String :=
  match v with
  | .scalar .bytes => pure (expr ++ ".toByteArray()")
  | .scalar _ => pure expr
  | .message id => c.call id (c.session.alloc.message id).converter.decode expr
  | .enum id => do
    let k ← nameClass (c.session.alloc.enumClass c.session.graph id)
    if c.openEnums then pure (k ++ ".forNumber(" ++ expr ++ ")")
    else pure (k ++ ".forNumber(" ++ expr ++ ".getNumber())")

/-- A value-class value converted to its protobuf-java form. -/
def encodeValue (c : Source) (v : ValueKind) (expr : String) : EmitM String :=
  match v with
  | .scalar .bytes => do
    let k ← nameClass byteStringClass
    pure (k ++ ".copyFrom(" ++ expr ++ ")")
  | .scalar _ => pure expr
  | .message id => c.call id (c.session.alloc.message id).converter.encode expr
  | .enum id =>
    if c.openEnums then pure (expr ++ ".getNumber()")
    else do
      let k ← nameClass (c.session.alloc.protoEnumClass c.session.graph id)
      pure (k ++ ".forNumber(" ++ expr ++ ".getNumber())")

/-- The classified fields of a message of the file. -/
def classified (c : Source) (id : MessageId) : EmitM (List Classified) :=
  let m := c.message id.index
  m.fields.mapM (c.classify (some m))

/-- The method reading a top-level message from bytes; a parse failure gives `null`. -/
def parseBytes (c : Source) (id : MessageId) : EmitM Unit := do
  let bean ← c.beanClass id
  let proto ← c.protoClass id
  let error ← nameClass parseErrorClass
  let method := (c.session.alloc.message id).converter.decode
  braces ("public static " ++ bean ++ " " ++ method ++ "(byte[] data)") do
    block "try \x7b" ("\x7d catch (" ++ error ++ " e) \x7b")
      (line ("return " ++ method ++ "(" ++ proto ++ ".parseFrom(data));"))
    body "\x7d" do
      line "e.printStackTrace();"
      line "return null;"

/-- Copies a single value, checking presence when it may be absent. -/
def decodeSingle (c : Source) (f : Classified) (v : ValueKind) (stem target : String) :
    EmitM Unit := do
  let expr ← c.decodeValue v ("pb.get" ++ stem ++ c.accessorSuffix v ++ "()")
  let set := "bean." ++ target ++ " = " ++ expr ++ ";"
  let present := f.nullable || (match v with | .message _ => true | _ => false)
  if present then braces ("if (pb.has" ++ stem ++ "())") (line set) else line set

/-- Copies the entries of a map whose values need converting. -/
def decodeEntries (c : Source) (key : Scalar) (value : ValueKind) (stem target : String) :
    EmitM Unit := do
  let entry ← nameClass (mapClass.nested "Entry")
  let element ← c.protoElement value
  let item ← c.decodeValue value "entry.getValue()"
  braces ("for (" ++ entry ++ "<" ++ key.boxed ++ ", " ++ element ++ "> entry : pb.get" ++
      stem ++ c.accessorSuffix value ++ "Map().entrySet())")
    (line ("bean." ++ target ++ ".put(entry.getKey(), " ++ item ++ ");"))

/-- Copies one field that is not a oneof member from `pb` into `bean`. -/
def decodeField (c : Source) (f : Classified) (member : MemberPlan) : EmitM Unit := do
  let stem := member.protoAccessor
  let target := member.field
  let each (v : ValueKind) : EmitM Unit := do
    let element ← c.protoElement v
    let item ← c.decodeValue v "item"
    braces ("for (" ++ element ++ " item : pb.get" ++ stem ++ c.accessorSuffix v ++ "List())")
      (line ("bean." ++ target ++ ".add(" ++ item ++ ");"))
  match f.shape with
  | .scalar s false => c.decodeSingle f (.scalar s) stem target
  | .message id false => c.decodeSingle f (.message id) stem target
  | .enum id false => c.decodeSingle f (.enum id) stem target
  | .scalar s true =>
    if s ≠ .bytes then line ("bean." ++ target ++ ".addAll(pb.get" ++ stem ++ "List());")
    else each (.scalar s)
  | .message id true => each (.message id)
  | .enum id true => each (.enum id)
  | .map key value =>
    match value with
    | .scalar s =>
      if s ≠ .bytes then line ("bean." ++ target ++ ".putAll(pb.get" ++ stem ++ "Map());")
      else c.decodeEntries key value stem target
    | _ => c.decodeEntries key value stem target
  | .variant .. | .extension .. => pure ()

/-- Sets the oneof variant that `pb` holds. -/
def decodeOneof (c : Source) (op : OneofPlan) (fields : List Classified)
    (members : List MemberPlan) : EmitM Unit := do
  let arms ← op.variants.filterMapM fun v => do
    match (fields[v.fieldIndex]?.getD default).valueKind with
    | none => pure none
    | some value =>
      let stem := (members[v.fieldIndex]?.getD default).protoAccessor
      let expr ← c.decodeValue value ("pb.get" ++ stem ++ c.accessorSuffix value ++ "()")
      pure (some (v.protoCaseConstant, ["bean." ++ v.setter ++ "(" ++ expr ++ ");"]))
  switchOn ("pb." ++ op.protoCaseGetter ++ "()") arms

/-- Copies the fields of a message from `pb` into `bean`, in field order: each field outside
oneofs on its own, and each oneof by a switch at its first member. -/
def decodeMembers (c : Source) (mp : MessagePlan) (fields : List Classified) : EmitM Unit := do
  for (f, member) in fields.zip mp.fields do
    match f.shape with
    | .variant .. =>
      if let some op := variantPlan mp.oneofs f then
        if opensOneof op f then c.decodeOneof op fields mp.fields
    | _ => c.decodeField f member

/-- The method building a value class from its protobuf-java object. -/
def decode (c : Source) (id : MessageId) : EmitM Unit := do
  let m := c.message id.index
  let mp := c.messagePlan id.index
  let fields ← c.classified id
  let bean ← c.beanClass id
  let proto ← c.protoClass id
  annotated m.path ("public static " ++ bean ++ " ") mp.converter.decode
    ("(" ++ proto ++ " pb) \x7b")
  body "\x7d" do
    braces "if (pb == null)" (line "return null;")
    line (bean ++ " bean = new " ++ bean ++ "();")
    c.decodeMembers mp fields
    line "return bean;"

/-- Sets a single message or enum value when it is present. -/
def encodeSingle (c : Source) (v : ValueKind) (stem source : String) : EmitM Unit := do
  let value ← c.encodeValue v source
  braces ("if (" ++ source ++ " != null)")
    (line ("builder.set" ++ stem ++ c.accessorSuffix v ++ "(" ++ value ++ ");"))
/-- Puts the entries of a map whose values need converting. -/
def encodeEntries (c : Source) (key : Scalar) (value : ValueKind) (stem source : String) :
    EmitM Unit := do
  let entry ← nameClass (mapClass.nested "Entry")
  let element ← onImports (value.render c.session true)
  let item ← c.encodeValue value "entry.getValue()"
  braces ("if (" ++ source ++ " != null)")
    (braces ("for (" ++ entry ++ "<" ++ key.boxed ++ ", " ++ element ++ "> entry : " ++
        source ++ ".entrySet())")
      (line ("builder.put" ++ stem ++ c.accessorSuffix value ++ "(entry.getKey(), " ++ item ++
        ");")))

/-- Copies one field that is not a oneof member from `bean` into `builder`. -/
def encodeField (c : Source) (f : Classified) (member : MemberPlan) : EmitM Unit := do
  let stem := member.protoAccessor
  let source := "bean." ++ member.field
  let ifPresent (inner : EmitM Unit) : EmitM Unit := braces ("if (" ++ source ++ " != null)") inner
  let each (v : ValueKind) : EmitM Unit := do
    let element ← onImports (v.render c.session true)
    let item ← c.encodeValue v "item"
    ifPresent (braces ("for (" ++ element ++ " item : " ++ source ++ ")")
      (line ("builder.add" ++ stem ++ c.accessorSuffix v ++ "(" ++ item ++ ");")))
  match f.shape with
  | .scalar s false =>
    let value ← c.encodeValue (.scalar s) source
    let set := "builder.set" ++ stem ++ "(" ++ value ++ ");"
    if !f.nullable && s ≠ .string && s ≠ .bytes then line set else ifPresent (line set)
  | .message id false => c.encodeSingle (.message id) stem source
  | .enum id false => c.encodeSingle (.enum id) stem source
  | .scalar s true =>
    if s ≠ .bytes then ifPresent (line ("builder.addAll" ++ stem ++ "(" ++ source ++ ");"))
    else each (.scalar s)
  | .message id true => each (.message id)
  | .enum id true => each (.enum id)
  | .map key value =>
    match value with
    | .scalar s =>
      if s ≠ .bytes then ifPresent (line ("builder.putAll" ++ stem ++ "(" ++ source ++ ");"))
      else c.encodeEntries key value stem source
    | _ => c.encodeEntries key value stem source
  | .variant .. | .extension .. => pure ()

/-- Sets the variant of a oneof that `bean` holds; a reference payload may be null. -/
def encodeOneof (c : Source) (op : OneofPlan) (fields : List Classified)
    (members : List MemberPlan) : EmitM Unit := do
  let arms ← op.variants.filterMapM fun v => do
    match (fields[v.fieldIndex]?.getD default).valueKind with
    | none => pure none
    | some value =>
      let stem := (members[v.fieldIndex]?.getD default).protoAccessor
      let getter := "bean." ++ v.getter ++ "()"
      let encoded ← c.encodeValue value getter
      let set := "builder.set" ++ stem ++ c.accessorSuffix value ++ "(" ++ encoded ++ ");"
      let primitive : Bool := match value with
        | .scalar s => s != .string && s != .bytes
        | _ => false
      let stmts :=
        if primitive then [set]
        else ["if (" ++ getter ++ " != null) \x7b", "    " ++ set, "\x7d"]
      pure (some (v.caseConstant, stmts))
  switchOn ("bean." ++ op.caseGetter ++ "()") arms

/-- Copies the fields of a message from `bean` into `builder`, in field order: each field
outside oneofs on its own, and each oneof by a switch at its first member. -/
def encodeMembers (c : Source) (mp : MessagePlan) (fields : List Classified) : EmitM Unit := do
  for (f, member) in fields.zip mp.fields do
    match f.shape with
    | .variant .. =>
      if let some op := variantPlan mp.oneofs f then
        if opensOneof op f then c.encodeOneof op fields mp.fields
    | _ => c.encodeField f member

/-- The method building a protobuf-java object from its value class. -/
def encode (c : Source) (id : MessageId) : EmitM Unit := do
  let mp := c.messagePlan id.index
  let fields ← c.classified id
  let bean ← c.beanClass id
  let proto ← c.protoClass id
  braces ("public static " ++ proto ++ " " ++ mp.converter.encode ++ "(" ++ bean ++ " bean)") do
    braces "if (bean == null)" (line "return null;")
    line (proto ++ ".Builder builder = " ++ proto ++ ".newBuilder();")
    c.encodeMembers mp fields
    line "return builder.build();"

/-- The method writing a top-level message's value class as bytes. -/
def encodeBytes (c : Source) (id : MessageId) : EmitM Unit := do
  let bean ← c.beanClass id
  let conv := (c.session.alloc.message id).converter
  braces ("public static byte[] " ++ conv.bytes ++ "(" ++ bean ++ " bean)")
    (line ("return bean == null ? null : " ++ conv.encode ++ "(bean).toByteArray();"))

/-- The converter file of the descriptor file; none when it has no message to convert. -/
def converterFile (c : Source) : Except GenError (Option Artifact) := do
  let messages := (List.range c.unit.messages.length).filter fun i => !(c.message i).mapEntry
  if messages.isEmpty then return none
  let cls := c.session.alloc.converterClass c.session.config.converterPackage c.file
  let d ← draft cls.package [cls.simple] do
    annotated [] "public class " cls.simple " \x7b"
    body "\x7d" do
      for i in messages do
        let id : MessageId := ⟨c.file, i⟩
        let top := (c.message i).isTopLevel
        if top then
          c.parseBytes id
          blank
        c.decode id
        blank
        c.encode id
        blank
        if top then
          c.encodeBytes id
          blank
  return some (d.finish cls.package cls.simple c.unit)

end Source

end BeanCodegen.Emit
