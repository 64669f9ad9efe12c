import BeanCodegen.Config
import BeanCodegen.Naming.Case
import BeanCodegen.Naming.Package
import BeanCodegen.Text.CaseMap
import BeanCodegen.Plan.Basic
/-! # Choosing names

Names are claimed from registries, one per scope in which Java needs them distinct:

* value-class packages and converter classes are unique across the request;
* top-level classes are unique within their file;
* the classes nested in a message (nested messages and enums, oneof interfaces, case enums and
  variant classes) are unique within the message and differ from its enclosing classes;
* the members of a message class (fields, oneof accessors, constants) are unique within the
  class and avoid the methods of every object;
* converter methods are unique within their converter class;
* case constants and enum constants are unique within their enum and avoid enum members.

Files are planned in the order they are generated, then the rest in request order, so a file
to generate gets the first claim on a contested name. Within a file, messages are planned in
pre-order, so a message names its children before they are planned.
-/

namespace BeanCodegen.Plan

open BeanCodegen.Schema BeanCodegen.Naming BeanCodegen.Text

/-- Claims a name in the registry held as state. -/
def claimName (base : String) : StateM Registry String := modifyGet (·.claim base)

/-- A registry where the reserved names and `extra` are taken. -/
def reservedWith (extra : List String) : Registry := Registry.withReserved.reserve extra

/-- The constants of an extension: its field number and its extendee. -/
def extensionPlan (ext : Field) : StateM Registry ExtensionPlan := do
  let c := upperSnakeCase ext.name
  let numberConst ← claimName (c ++ "_FIELD_NUMBER")
  let extendeeConst ← claimName (c ++ "_EXTENDEE")
  return { numberConst, extendeeConst }

/-- The two registries of a message: its nested classes and its members. -/
structure MessageScopes where
  classes : Registry
  members : Registry

/-- Runs a claim on the registry of nested classes. -/
def onClasses (x : StateM Registry α) : StateM MessageScopes α := fun s =>
  let (a, r) := x.run s.classes
  (a, { s with classes := r })

/-- Runs a claim on the registry of members. -/
def onMembers (x : StateM Registry α) : StateM MessageScopes α := fun s =>
  let (a, r) := x.run s.members
  (a, { s with members := r })

/-- The plan of a oneof before its members are seen: its interface and case enum. -/
def startOneof (o : Oneof) : StateM MessageScopes (Option OneofPlan) :=
  if o.synthetic then pure none
  else do
    let stem := camelCase o.name
    let iface ← onClasses (claimName stem)
    let caseEnum ← onClasses (claimName (stem ++ "Case"))
    return some { field := "", iface, caseEnum, caseGetter := "", notSet := ""
                  protoCaseGetter := "get" ++ accessorCase o.name ++ "Case"
                  protoNotSet := toUpperFull o.name ++ "_NOT_SET", variants := [] }

/-- Names a field's bean member. A member of a oneof adds a variant to the oneof's plan, and
the first member also names the oneof's field and case getter; the member's own identifier is
then needed only inside its variant class. -/
def nameField (m : Message) (f : Field) (oneofs : List (Option OneofPlan)) :
    StateM MessageScopes (String × List (Option OneofPlan)) := do
  let plain : StateM MessageScopes (String × List (Option OneofPlan)) := do
    return (← onMembers (claimName (lowerCamelCase f.name)), oneofs)
  match m.variantGroup f with
  | none => plain
  | some g =>
    match oneofs[g.index]? with
    | some (some plan) =>
      let stem := camelCase g.name
      let plan ← if plan.variants.isEmpty then do
          let field ← onMembers (claimName (lowerCamelCase g.name))
          let caseGetter ← onMembers (claimName ("get" ++ stem ++ "Case"))
          pure { plan with field, caseGetter }
        else pure plan
      let fieldStem := camelCase f.name
      let wrapper ← onClasses (claimName (stem ++ fieldStem))
      let setter ← onMembers (claimName ("set" ++ fieldStem))
      let getter ← onMembers (claimName ("get" ++ fieldStem))
      let v : VariantPlan := { fieldIndex := f.index, wrapper, caseConstant := "", setter, getter
                               protoCaseConstant := toUpperFull f.name }
      return ((Registry.withReserved.claim (lowerCamelCase f.name)).1,
        oneofs.set g.index (some { plan with variants := plan.variants ++ [v] }))
    | _ => plain

/-- Names fields in order, each seeing the oneof plans as the fields before it left them. -/
def nameFields (m : Message) : List Field → List (Option OneofPlan) →
    StateM MessageScopes (List String × List (Option OneofPlan))
  | [], oneofs => pure ([], oneofs)
  | f :: fs, oneofs => do
    let (ident, next) ← nameField m f oneofs
    let (idents, last) ← nameFields m fs next
    return (ident :: idents, last)

/-- Names the case constants of a oneof's enum, in a registry of their own. -/
def nameCases (m : Message) (o : Oneof) (plan : OneofPlan) : OneofPlan :=
  let cases : StateM Registry OneofPlan := do
    let variants ← plan.variants.mapM fun v => do
      let name := (m.fields[v.fieldIndex]?.map (·.name)).getD ""
      return { v with caseConstant := ← claimName (upperSnakeCase name) }
    let notSet ← claimName (upperSnakeCase o.name ++ "_NOT_SET")
    return { plan with variants, notSet }
  (Id.run (cases.run (reservedWith enumMembers))).1

/-- The member plans of a message: field identifiers in field order, then number constants,
then default constants, then extension constants, and last the case constants of oneofs. -/
def planMembers (m : Message) :
    StateM MessageScopes (List MemberPlan × List (Option OneofPlan) × List ExtensionPlan) := do
  let (idents, started) ← nameFields m m.fields (← m.oneofs.mapM startOneof)
  let numberConsts ← m.fields.mapM fun f =>
    onMembers (claimName (upperSnakeCase f.name ++ "_FIELD_NUMBER"))
  let defaultConsts ← m.fields.mapM fun f =>
    if f.defaultValue.isSome && !f.isRepeated then
      some <$> onMembers (claimName ("DEFAULT_" ++ upperSnakeCase f.name))
    else pure none
  let extensions ← m.extensions.mapM fun ext => onMembers (extensionPlan ext)
  let fields := ((m.fields.zip idents).zip (numberConsts.zip defaultConsts)).map
    fun ((f, ident), (numberConst, defaultConst)) =>
      ({ field := ident, numberConst, defaultConst, protoAccessor := accessorCase f.name } :
        MemberPlan)
  let oneofs := (m.oneofs.zip started).map fun (o, plan) => plan.map (nameCases m o)
  return (fields, oneofs, extensions)

/-- The names of a message and its ancestors, each as planned so far or as declared. -/
def ancestorNames (u : Schema.File) (names : Array (Option String)) : Nat → Option Nat → List String
  | 0, _ => []
  | _, none => []
  | fuel + 1, some i =>
    let m := u.messages[i]?.getD default
    (names[i]?.join.getD m.name) :: ancestorNames u names fuel m.parent

/-- The base of a file's converter class name: the Java outer class name, else the last
segment of the package, else the file's base name, without a leading `pb` in any case. -/
def converterBase (u : Schema.File) : String :=
  let last := (splitChar u.package '.').getLastD ""
  let base := u.java.outerClassname.getD (if last.isEmpty then u.baseName else last)
  match base.toList with
  | p :: b :: rest =>
    if base.utf8ByteSize > 2 && (p = 'p' || p = 'P') && (b = 'b' || b = 'B') then String.ofList rest
    else base
  | _ => base

/-- The outer class protobuf-java wraps a file's types in: none when each type gets a file of
its own, else the Java outer class name, else the file's base name in accessor case with
`OuterClass` appended when a message or enum already has that name. -/
def outerClass (u : Schema.File) : Option String :=
  if u.java.multipleFiles then none
  else
    some <| u.java.outerClassname.getD <|
      let outer := accessorCase u.baseName
      if u.messages.any (·.name = outer) || u.enums.any (·.name = outer) then outer ++ "OuterClass"
      else outer

/-- The registries shared by all files of a request. -/
structure SharedNames where
  packages : Registry := Registry.empty
  converters : Registry := Registry.withReserved

/-- The value-class package a file asks for: the configured package followed by the file's
package, or its base name, made into a package suffix. -/
def voPackageBase (cfg : Config) (u : Schema.File) : String :=
  let suffix := packageSuffix (if u.package.isEmpty then u.baseName else u.package)
  if suffix.isEmpty then cfg.voPackage else cfg.voPackage ++ "." ++ suffix

/-- Claims a name in a registry and records it as the name of node `i`. -/
def claimFor (r : Registry) (names : Array (Option String)) (i : Nat) (base : String) :
    Registry × Array (Option String) :=
  let (n, r) := r.claim base
  (r, names.set! i (some n))

/-- Claims, in order, the names of the nodes among `xs` that `keep` admits, recording each as
the name of node `idx x`. -/
def claimNodes (keep : α → Bool) (idx : α → Nat) (base : α → String) (xs : List α)
    (acc : Registry × Array (Option String)) : Registry × Array (Option String) :=
  xs.foldl (fun acc x => if keep x then claimFor acc.1 acc.2 (idx x) (base x) else acc) acc

/-- Claims a name when `present` holds. -/
def claimIf (present : Bool) (r : Registry) (base : String) : Option String × Registry :=
  if present then
    let (n, r) := r.claim base
    (some n, r)
  else (none, r)

/-- The classes at the top of a file and the names chosen for them, claimed in this order in
one registry where the reserved names are taken: its messages other than map entries, its
enums, the extension holder when it has extensions, and the wrapper class in the per-file
layout. -/
structure TopClasses where
  registry : Registry
  messageNames : Array (Option String)
  enumNames : Array (Option String)
  extensionsClass : Option String
  wrapperClass : Option String

/-- Claims the top-level classes of a file. -/
def topClasses (cfg : Config) (u : Schema.File) : TopClasses :=
  let (top, messageNames) := claimNodes (fun x => !x.2.mapEntry) (·.1) (·.2.name)
    u.topLevelMessages (Registry.withReserved, Array.replicate u.messages.length none)
  let (top, enumNames) := claimNodes (fun _ => true) (·.1) (·.2.name)
    u.topLevelEnums (top, Array.replicate u.enums.length none)
  let (extensionsClass, top) :=
    claimIf (!u.extensions.isEmpty) top (camelCase u.baseName ++ "Extensions")
  let (wrapperClass, top) := claimIf (cfg.layout = .perFile) top (camelCase u.baseName ++ "Beans")
  { registry := top, messageNames, enumNames, extensionsClass, wrapperClass }

/-- Claims, in the registry of a message's nested classes, the names of its nested messages
other than map entries and then of its enums. -/
def claimChildren (u : Schema.File) (m : Message) (classes : Registry)
    (messageNames enumNames : Array (Option String)) :
    Registry × Array (Option String) × Array (Option String) :=
  let child (n : Nat) := u.messages[n]?.getD default
  let (classes, messageNames) := claimNodes (fun n => !(child n).mapEntry) id
    (fun n => (child n).name) m.nested (classes, messageNames)
  let (classes, enumNames) := claimNodes (fun _ => true) id
    (fun e => (u.enums[e]?.getD default).name) m.enums (classes, enumNames)
  (classes, messageNames, enumNames)

/-- What planning a file's messages in arena order carries from one message to the next: the
names chosen so far for messages and enums, the converter's methods, and the plans so far. -/
structure MessageWalk where
  messageNames : Array (Option String)
  enumNames : Array (Option String)
  methods : Registry
  plans : List MessagePlan

/-- Plans the message at arena index `i`: its class keeps the name its parent chose, its
nested classes are claimed in a registry where its own and its ancestors' names are taken,
and its converter methods in the converter's registry. -/
def planMessage (u : Schema.File) (w : MessageWalk) (m : Message) (i : Nat) : MessageWalk :=
  let className := w.messageNames[i]?.join.getD m.name
  let scope := reservedWith (ancestorNames u w.messageNames (u.messages.length + 1) (some i))
  let (classes, messageNames, enumNames) := claimChildren u m scope w.messageNames w.enumNames
  let ((fields, oneofs, exts), _) :=
    (planMembers m).run { classes, members := reservedWith objectMethods } |>.run
  let stem := camelCase (String.join m.typeName)
  let (decode, r1) := w.methods.claim ("to" ++ stem)
  let (encode, r2) := r1.claim ("to" ++ stem ++ "Pb")
  let (bytes, r3) := r2.claim ("to" ++ stem ++ "Bytes")
  { messageNames, enumNames, methods := r3
    plans := w.plans ++
      [{ className, fields, oneofs, extensions := exts, converter := { decode, encode, bytes } }] }

/-- Plans one file, claiming its package and converter class in the shared registries. -/
def planFile (cfg : Config) (u : Schema.File) : StateM SharedNames FilePlan := do
  let shared ← get
  let (voPackage, packages) := shared.packages.claim (voPackageBase cfg u)
  let (converterClass, converters) :=
    shared.converters.claim (camelCase (converterBase u) ++ "Converter")
  set { packages, converters : SharedNames }
  let top := topClasses cfg u
  let walk := u.messages.zipIdx.foldl (fun w (m, i) => planMessage u w m i)
    { messageNames := top.messageNames, enumNames := top.enumNames
      methods := reservedWith objectMethods, plans := [] }
  let enums := u.enums.zipIdx.map fun (e, i) =>
    { className := walk.enumNames[i]?.join.getD e.name
      constants :=
        (Id.run ((e.values.mapM fun v => claimName v.name).run (reservedWith enumMembers))).1 }
  return { voPackage, converterClass, wrapperClass := top.wrapperClass
           extensionsClass := top.extensionsClass
           extensions := (Id.run ((u.extensions.mapM extensionPlan).run Registry.withReserved)).1
           protoPackage := u.java.package.getD u.package, protoOuterClass := outerClass u
           messages := walk.plans, enums }

/-- Plans every file of a graph: first the files to generate, in the order given, then the
others in request order. A file listed twice is planned twice, and its last plan counts. -/
def allocate (cfg : Config) (g : Graph) (genFiles : List Nat) : Allocation :=
  let order := genFiles ++ (g.files.map (·.id)).filter (!genFiles.contains ·)
  let step (acc : Array (Option FilePlan) × SharedNames) (i : Nat) :=
    let (plan, shared) := (planFile cfg (g.file i)).run acc.2 |>.run
    (acc.1.set! i (some plan), shared)
  let (plans, _) := order.foldl step (Array.replicate g.files.length none, {})
  ⟨plans.toList.filterMap id⟩

end BeanCodegen.Plan
