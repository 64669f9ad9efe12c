import BeanCodegen.Descriptor.Basic
import BeanCodegen.Descriptor.Wire
import BeanCodegen.Descriptor.Layout
/-! # Reading a serialized request

A serialized message is read into a tree of field values by the layout of its message type,
then the tree is turned into descriptor records.

Reading follows the binary format's rules. A known field must come with the wire type of its
shape; a repeated varint field may also come packed. A nested message declares its length, and
its fields must end exactly there. Unknown fields are skipped, groups included. Messages nest at
most 100 deep. Every step consumes input, so a budget of four steps per byte bounds the reading.

When a field occurs several times, the last value counts, repeated fields collect every value,
and the occurrences of a nested message merge.
-/

namespace BeanCodegen.Descriptor

/-- A field value read from the binary format. -/
inductive Value
  /-- A varint or fixed-size number. -/
  | num (n : Nat)
  /-- A text. -/
  | text (s : String)
  /-- Raw bytes. -/
  | bytes (b : ByteArray)
  /-- A nested message: its fields in the order read. -/
  | node (fields : List (Nat × Value))
  deriving Inhabited

/-- The fields of a message in the order read, by field number. -/
abbrev Fields := List (Nat × Value)

/-- Fails unless a field came with the wire type its shape needs. -/
def expectWire (actual expected : WireType) : Except DecodeError Unit :=
  if actual = expected then .ok () else .error { problem := .wrongWireType actual expected }

/-- Reads a length and checks that that many bytes remain. -/
def readLength (b : ByteArray) (pos : Nat) : Read Nat :=
  match readVarint b pos with
  | .error e => .error e
  | .ok (len, pos) => if len > b.size - pos then Read.fail .bufferUnderflow else .ok (len, pos)

/-- The little-endian number in `count` bytes from a position. -/
def littleEndian (b : ByteArray) (pos count : Nat) : Nat :=
  (List.range count).foldr (fun i acc => acc * 256 + (b[pos + i]?.map (·.toNat)).getD 0) 0

/-- Reads packed varints up to `stop`. -/
def readPacked (b : ByteArray) (stop : Nat) : Nat → Nat → List Value → Read (List Value)
  | 0, _, _ => Read.fail .recursionLimit
  | fuel + 1, pos, acc =>
    if pos < stop then
      match readVarint b pos with
      | .error e => .error e
      | .ok (n, pos) => readPacked b stop fuel pos (acc ++ [.num n])
    else if pos = stop then .ok (acc, pos) else Read.fail .lengthExceeded

mutual

/-- Skips an unknown field with a given number and wire type; `depth` is how many more levels
of nesting are allowed. -/
def skipField (b : ByteArray) (depth tag : Nat) (wt : WireType) : Nat → Nat → Read Unit
  | 0, _ => Read.fail .recursionLimit
  | fuel + 1, pos =>
    if depth = 0 then Read.fail .recursionLimit
    else
      let skip (len pos : Nat) : Read Unit :=
        if len > b.size - pos then Read.fail .bufferUnderflow else .ok ((), pos + len)
      match wt with
      | .varint =>
        match readVarint b pos with
        | .error e => .error e
        | .ok (_, pos) => .ok ((), pos)
      | .thirtyTwoBit => skip 4 pos
      | .sixtyFourBit => skip 8 pos
      | .lengthDelimited =>
        match readVarint b pos with
        | .error e => .error e
        | .ok (len, pos) => skip len pos
      | .startGroup => skipGroup b depth tag fuel pos
      | .endGroup => Read.fail .unexpectedEndGroup

/-- Skips the fields of a group up to its end key, which must carry the group's number. -/
def skipGroup (b : ByteArray) (depth tag : Nat) : Nat → Nat → Read Unit
  | 0, _ => Read.fail .recursionLimit
  | fuel + 1, pos =>
    match readKey b pos with
    | .error e => .error e
    | .ok ((inner, wt), pos) =>
      if wt = .endGroup then
        if inner = tag then .ok ((), pos) else Read.fail .unexpectedEndGroup
      else
        match skipField b (depth - 1) inner wt fuel pos with
        | .error e => .error e
        | .ok ((), pos) => skipGroup b depth tag fuel pos

/-- Reads the values of one occurrence of a known field. -/
def readValue (b : ByteArray) (spec : FieldSpec) (depth : Nat) (wt : WireType) :
    Nat → Nat → Read (List Value)
  | 0, _ => Read.fail .recursionLimit
  | fuel + 1, pos =>
    match spec.shape with
    | .varint =>
      if spec.repeated && wt = .lengthDelimited then
        match readLength b pos with
        | .error e => .error e
        | .ok (len, pos) => readPacked b (pos + len) fuel pos []
      else
        match expectWire wt .varint with
        | .error e => .error e
        | .ok () =>
          match readVarint b pos with
          | .error e => .error e
          | .ok (n, pos) => .ok ([.num n], pos)
    | .fixed64 =>
      match expectWire wt .sixtyFourBit with
      | .error e => .error e
      | .ok () =>
        if b.size - pos < 8 then Read.fail .bufferUnderflow
        else .ok ([.num (littleEndian b pos 8)], pos + 8)
    | .text =>
      match expectWire wt .lengthDelimited with
      | .error e => .error e
      | .ok () =>
        match readLength b pos with
        | .error e => .error e
        | .ok (len, pos) =>
          match String.fromUTF8? (b.extract pos (pos + len)) with
          | some s => .ok ([.text s], pos + len)
          | none => Read.fail .notUtf8
    | .bytes =>
      match expectWire wt .lengthDelimited with
      | .error e => .error e
      | .ok () =>
        match readLength b pos with
        | .error e => .error e
        | .ok (len, pos) => .ok ([.bytes (b.extract pos (pos + len))], pos + len)
    | .message kind =>
      match expectWire wt .lengthDelimited with
      | .error e => .error e
      | .ok () =>
        if depth = 0 then Read.fail .recursionLimit
        else
          match readLength b pos with
          | .error e => .error e
          | .ok (len, pos) =>
            match readFields b kind (depth - 1) (pos + len) fuel pos [] with
            | .error e => .error e
            | .ok (fields, after) =>
              if after = pos + len then .ok ([.node fields], after)
              else Read.fail .lengthExceeded

/-- Reads the fields of a message of type `kind` while the position is before `stop`. -/
def readFields (b : ByteArray) (kind : MessageKind) (depth stop : Nat) :
    Nat → Nat → Fields → Read Fields
  | 0, _, _ => Read.fail .recursionLimit
  | fuel + 1, pos, acc =>
    if pos < stop then
      match readKey b pos with
      | .error e => .error e
      | .ok ((tag, wt), pos) =>
        match kind.field? tag with
        | none =>
          match skipField b depth tag wt fuel pos with
          | .error e => .error e
          | .ok ((), pos) => readFields b kind depth stop fuel pos acc
        | some spec =>
          match readValue b spec depth wt fuel pos with
          | .error e => .error (e.within kind.typeName spec.name)
          | .ok (vs, pos) => readFields b kind depth stop fuel pos (acc ++ vs.map (tag, ·))
    else .ok (acc, pos)

end

namespace Fields

/-- The texts of a field, in order. -/
def texts (fs : Fields) (n : Nat) : List String :=
  fs.filterMap fun (k, v) => if k = n then (match v with | .text s => some s | _ => none) else none

/-- The last text of a field. -/
def text? (fs : Fields) (n : Nat) : Option String := (fs.texts n).getLast?

/-- The numbers of a field, in order. -/
def nums (fs : Fields) (n : Nat) : List Nat :=
  fs.filterMap fun (k, v) => if k = n then (match v with | .num x => some x | _ => none) else none

/-- The last number of a field as a 32-bit integer. -/
def int32? (fs : Fields) (n : Nat) : Option Int := (fs.nums n).getLast?.map toInt32

/-- The last number of a field as a boolean. -/
def bool? (fs : Fields) (n : Nat) : Option Bool := (fs.nums n).getLast?.map (· ≠ 0)

/-- The occurrences of a message field, in order. -/
def nodes (fs : Fields) (n : Nat) : List Fields :=
  fs.filterMap fun (k, v) => if k = n then (match v with | .node x => some x | _ => none) else none

/-- All occurrences of a message field merged into one. -/
def node? (fs : Fields) (n : Nat) : Option Fields :=
  match fs.nodes n with
  | [] => none
  | occurrences => some occurrences.flatten

end Fields

/-- A field declaration from its fields. -/
def FieldProto.ofFields (fs : Fields) : FieldProto where
  name := fs.text? 1
  extendee := fs.text? 2
  number := fs.int32? 3
  label := fs.int32? 4
  fieldType := fs.int32? 5
  typeName := fs.text? 6
  defaultValue := fs.text? 7
  options := (fs.node? 8).map fun o => { deprecated := o.bool? 3 }
  oneofIndex := fs.int32? 9
  jsonName := fs.text? 10
  proto3Optional := fs.bool? 17

/-- An enum declaration from its fields. -/
def EnumProto.ofFields (fs : Fields) : EnumProto where
  name := fs.text? 1
  value := (fs.nodes 2).map fun v =>
    { name := v.text? 1, number := v.int32? 2
      options := (v.node? 3).map fun o => { deprecated := o.bool? 1 } }
  options := (fs.node? 3).map fun o => { deprecated := o.bool? 3 }

/-- A message declaration from its fields; `levels` bounds the nesting that is followed,
which the reader's own limit keeps below 101. -/
def MessageProto.ofFields : Nat → Fields → MessageProto
  | 0, _ => {}
  | levels + 1, fs =>
    { name := fs.text? 1
      field := (fs.nodes 2).map FieldProto.ofFields
      extension := (fs.nodes 6).map FieldProto.ofFields
      nestedType := (fs.nodes 3).map (MessageProto.ofFields levels)
      enumType := (fs.nodes 4).map EnumProto.ofFields
      extensionRange := (fs.nodes 5).map fun r => { start := r.int32? 1, stop := r.int32? 2 }
      oneofDecl := (fs.nodes 8).map fun o => { name := o.text? 1 }
      options := (fs.node? 7).map fun o => { mapEntry := o.bool? 7, deprecated := o.bool? 3 } }

/-- A file descriptor from its fields. -/
def FileProto.ofFields (fs : Fields) : FileProto where
  name := fs.text? 1
  package := fs.text? 2
  dependency := fs.texts 3
  publicDependency := (fs.nums 10).map toInt32
  messageType := (fs.nodes 4).map (MessageProto.ofFields 101)
  enumType := (fs.nodes 5).map EnumProto.ofFields
  extension := (fs.nodes 7).map FieldProto.ofFields
  options := (fs.node? 8).map fun o =>
    { javaPackage := o.text? 1, javaOuterClassname := o.text? 8
      javaMultipleFiles := o.bool? 10, deprecated := o.bool? 23 }
  sourceCodeInfo := (fs.node? 9).map fun info =>
    (info.nodes 1).map fun l =>
      { path := (l.nums 1).map toInt32, leadingComments := l.text? 3
        trailingComments := l.text? 4 }
  dialect := fs.text? 12

/-- Reads a serialized plugin request. -/
def Request.decode (b : ByteArray) : Except DecodeError Request :=
  match readFields b .request 100 b.size (4 * b.size + 8) 0 [] with
  | .error e => .error e
  | .ok (fs, _) =>
    .ok { fileToGenerate := fs.texts 1
          parameter := fs.text? 2
          protoFile := (fs.nodes 15).map FileProto.ofFields }

end BeanCodegen.Descriptor
