import BeanCodegen.Java.Imports
import BeanCodegen.Session
import BeanCodegen.Shape.Basic
/-! # Java types and initial values of fields

The Java text for a classified field: its type, its default, the initial value of its bean
member and the value its getter falls back to. Naming a class goes through the file's imports,
which decide whether the name is written short or qualified, so these texts depend on what was
named before them.

A single scalar is primitive unless it may be null; lists and maps hold boxed values; a
oneof variant holds the primitive. Repeated and map members start as empty collections,
strings as the empty string, and enums as their first constant.
-/

namespace BeanCodegen.Shape

open BeanCodegen.Java BeanCodegen.Schema

/-- Names a class in the file's imports. -/
def refer (c : ClassName) : StateM Imports String := modifyGet (·.reference c)

/-- `java.util.List`. -/
def listClass : ClassName := .top "java.util" "List"
/-- `java.util.Map`. -/
def mapClass : ClassName := .top "java.util" "Map"
/-- `java.util.ArrayList`. -/
def arrayListClass : ClassName := .top "java.util" "ArrayList"
/-- `java.util.HashMap`. -/
def hashMapClass : ClassName := .top "java.util" "HashMap"

/-- The Java type of a value, boxed or not. -/
def ValueKind.render (s : Session) (boxed : Bool) : ValueKind → StateM Imports String
  | .scalar k => pure (if boxed then k.boxed else k.primitive)
  | .message id => refer (s.alloc.messageClass s.graph id)
  | .enum id => refer (s.alloc.enumClass s.graph id)

/-- The first constant of an enum, qualified by its class; `null` for an enum without values. -/
def firstConstant (s : Session) (id : EnumId) : StateM Imports String :=
  match (s.alloc.enumPlan id).constants.head? with
  | some c => do return (← refer (s.alloc.enumClass s.graph id)) ++ "." ++ c
  | none => pure "null"

/-- The zero value of a type. -/
def ValueKind.zero (s : Session) : ValueKind → StateM Imports String
  | .scalar k => pure k.zero
  | .message _ => pure "null"
  | .enum id => firstConstant s id

/-- A list type of an element type; the list class is named after the element. -/
def listOf (item : String) : StateM Imports String := do
  return (← refer listClass) ++ "<" ++ item ++ ">"

namespace Classified

/-- The Java type of the field's bean member. -/
def renderType (s : Session) (c : Classified) : StateM Imports String :=
  let named (v : ValueKind) (rep : Bool) : StateM Imports String := do
    let cls ← v.render s true
    if rep then listOf cls else pure cls
  match c.shape with
  | .scalar v false => (ValueKind.scalar v).render s c.nullable
  | .scalar v true => listOf v.boxed
  | .message id rep => named (.message id) rep
  | .extension _ (.message id) rep => named (.message id) rep
  | .enum id rep => named (.enum id) rep
  | .extension _ (.enum id) rep => named (.enum id) rep
  | .extension _ (.scalar v) rep => if rep then listOf v.boxed else pure v.primitive
  | .map key value => do
    let m ← refer mapClass
    let v ← value.render s true
    return m ++ "<" ++ key.boxed ++ ", " ++ v ++ ">"
  | .variant _ payload => payload.render s false

/-- The Java text of the field's default, if it has one. -/
def renderDefault (s : Session) (c : Classified) : StateM Imports (Option String) :=
  match c.default with
  | none => pure none
  | some (.literal t) => pure (some t)
  | some (.enumValue id n) => do
    return some ((← refer (s.alloc.enumClass s.graph id)) ++ ".forNumber(" ++ toString n ++ ")")

/-- A default constant as a value: bytes are copied, since arrays are mutable. -/
def constantValue (c : Classified) (k : String) : String :=
  if c.isBytes then k ++ ".clone()" else k

/-- The initial value of the field's bean member, if it gets one. -/
def initializer (s : Session) (c : Classified) (defaultConst : Option String) :
    StateM Imports (Option String) :=
  match defaultConst with
  | some k => pure (some (c.constantValue k))
  | none =>
    if c.nullable then pure none
    else
      match c.shape with
      | .scalar _ true | .message _ true | .enum _ true => do
        discard (refer arrayListClass)
        pure (some "new ArrayList<>()")
      | .map .. => do
        discard (refer hashMapClass)
        pure (some "new HashMap<>()")
      | .scalar .string _ => pure (some "\"\"")
      | .enum id false => some <$> firstConstant s id
      | _ => pure none

/-- The value a getter returns when the field is not set. -/
def getterDefault (s : Session) (c : Classified) (defaultConst : Option String) :
    StateM Imports String :=
  match defaultConst with
  | some k => pure (c.constantValue k)
  | none =>
    match c.shape with
    | .variant _ p => p.zero s
    | _ => pure "null"

end Classified

end BeanCodegen.Shape
