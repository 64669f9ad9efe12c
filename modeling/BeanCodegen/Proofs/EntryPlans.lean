import Mathlib
import BeanCodegen.Proofs.MapFields
/-! # What the plans of map entries decide

The allocator plans names for every message, map entries included, but the generators never
read an entry's plan. When every field of an entry type is a map field of a message that is no
entry, and entries declare no types, the files a session writes stay the same whatever the
plans of its map entries say (`Session.artifacts_ignore_entry_plans`): no file declares a class
or a converter method for an entry, and none names an entry's class, since each would spell a
name the entry's plan chooses.

Two allocations `AgreesOff` the entries when they plan every file and every other message
alike. The generators are then compared step by step: each step is the same program under both
allocations as long as the values it handles are of no entry type.
-/

namespace BeanCodegen.Schema

open BeanCodegen.Shape

section Parents

variable {g : Graph} {k : Nat} (hL : (g.file k).Linked) (hnest : g.EntriesNestNothing)
include hL hnest

/-- A message that has a parent sits in its parent's nested messages, so the parent is no map
entry. -/
theorem Graph.parent_notEntry {i q : Nat} (hq : (g.message ⟨k, i⟩).parent = some q) :
    (g.message ⟨k, q⟩).mapEntry = false := by
  cases he : (g.message ⟨k, q⟩).mapEntry with
  | false => rfl
  | true =>
    cases hi : (g.file k).messages[i]? with
    | none =>
      simp only [Graph.message, hi, Option.getD_none] at hq
      cases hq
    | some mi =>
      cases hmq : (g.file k).messages[q]? with
      | none =>
        simp only [Graph.message, hmq, Option.getD_none] at he
        cases he
      | some mq =>
        have hin : i ∈ mq.nested := (hL.nested_iff q mq hmq i).2 (by
          simp only [Graph.message, hi, Option.getD_some] at hq
          simp [hi, hq])
        have hempty := (hnest ⟨k, q⟩ he).1
        simp only [Graph.message, hmq, Option.getD_some] at hempty
        rw [hempty] at hin
        cases hin

/-- The parent of an enum declares it among its enums, so is no map entry. -/
theorem Graph.enumParent_notEntry {e q : Nat} (hq : (g.enumType ⟨k, e⟩).parent = some q) :
    (g.message ⟨k, q⟩).mapEntry = false := by
  cases he : (g.message ⟨k, q⟩).mapEntry with
  | false => rfl
  | true =>
    cases hen : (g.file k).enums[e]? with
    | none =>
      simp only [Graph.enumType, hen, Option.getD_none] at hq
      cases hq
    | some en =>
      cases hmq : (g.file k).messages[q]? with
      | none =>
        simp only [Graph.message, hmq, Option.getD_none] at he
        cases he
      | some mq =>
        have hin : e ∈ mq.enums := (hL.enums_iff q mq hmq e).2 (by
          simp only [Graph.enumType, hen, Option.getD_some] at hq
          simp [hen, hq])
        have hempty := (hnest ⟨k, q⟩ he).2
        simp only [Graph.message, hmq, Option.getD_some] at hempty
        rw [hempty] at hin
        cases hin

end Parents

/-- A file with no message is linked: there is nothing to link. -/
theorem File.linked_of_messages_nil {u : File} (hm : u.messages = []) : u.Linked where
  parent_lt j p h := by
    rw [hm, List.getElem?_nil, Option.getD_none] at h
    cases h
  nested_iff i m h := by simp [hm] at h
  enums_iff i m h := by simp [hm] at h
  nested_nodup m h := by simp [hm] at h
  enums_nodup m h := by simp [hm] at h

/-- Every file of a built graph is linked, also at an index past the last file, where the
graph reads the empty default file. -/
theorem Graph.build_linked_all {raws : List Descriptor.FileProto} {g : Graph}
    (h : Graph.build raws = .ok g) (k : Nat) : (g.file k).Linked := by
  by_cases hk : k < g.files.length
  · exact (Graph.build_linked h k hk).1
  · apply File.linked_of_messages_nil
    rw [Graph.file, List.getElem?_eq_none (Nat.le_of_not_lt hk), Option.getD_none]
    rfl

/-! ### Checking a property of every message -/

/-- Whether every message a graph holds passes a test. -/
def Graph.allMessages (g : Graph) (p : Message → Bool) : Bool :=
  (List.range g.files.length).all fun k =>
    (List.range (g.file k).messages.length).all fun i => p (g.message ⟨k, i⟩)

/-- A test passed by every message of a graph and by the default message holds of every id:
an id out of range reads the default message. -/
theorem Graph.allMessages_spec {g : Graph} {p : Message → Bool} (hdef : p default = true)
    (h : g.allMessages p = true) (id : MessageId) : p (g.message id) = true := by
  obtain ⟨k, i⟩ := id
  simp only [Graph.allMessages, List.all_eq_true, List.mem_range] at h
  by_cases hi : i < (g.file k).messages.length
  · have hk : k < g.files.length := by
      by_contra hk
      rw [Graph.file, List.getElem?_eq_none (Nat.le_of_not_lt hk), Option.getD_none] at hi
      exact Nat.not_lt_zero i hi
    exact h k hk i hi
  · rw [Graph.message, List.getElem?_eq_none (Nat.le_of_not_lt hi), Option.getD_none]
    exact hdef

/-- The map test of one message: each field of an entry type is repeated, no extension, no
oneof member, and the message holding it is no entry. -/
def Message.foldsMaps (g : Graph) (idx : TypeIndex) (m : Message) : Bool :=
  m.fields.all fun f => !Shape.entryTyped g (Shape.valueOf idx f) ||
    (f.isRepeated && f.extendee.isNone && (m.variantGroup f).isNone && !m.mapEntry)

/-- The nesting test of one message: an entry declares no nested message and no enum. -/
def Message.entryLeaf (m : Message) : Bool := !m.mapEntry || (m.nested.isEmpty && m.enums.isEmpty)

theorem Graph.mapsFolded_of_allMessages {g : Graph} {idx : TypeIndex}
    (h : g.allMessages (Message.foldsMaps g idx) = true) : g.MapsFolded idx := by
  intro id f hf hentry
  have hm := Graph.allMessages_spec (by rfl) h id
  simp only [Message.foldsMaps, List.all_eq_true] at hm
  have hf := hm f hf
  simp only [hentry, Bool.not_true, Bool.false_or, Bool.and_eq_true, Option.isNone_iff_eq_none,
    Bool.not_eq_true'] at hf
  exact ⟨hf.1.1.1, hf.1.1.2, by rw [hf.1.2]; rfl, hf.2⟩

theorem Graph.entriesNestNothing_of_allMessages {g : Graph}
    (h : g.allMessages Message.entryLeaf = true) : g.EntriesNestNothing := by
  intro id hentry
  have hm := Graph.allMessages_spec (by rfl) h id
  simp only [Message.entryLeaf, hentry, Bool.not_true, Bool.false_or, Bool.and_eq_true,
    List.isEmpty_iff] at hm
  exact hm

end BeanCodegen.Schema

namespace BeanCodegen.Plan

open BeanCodegen.Schema

/-- `a'` plans every file as `a` does, and every message that is no map entry; the plans of map
entries may differ. -/
structure Allocation.AgreesOff (g : Graph) (a a' : Allocation) : Prop where
  file : ∀ k, a'.file k = { a.file k with messages := (a'.file k).messages }
  message : ∀ id : MessageId, (g.message id).mapEntry = false → a'.message id = a.message id

/-- The allocation with one message planned under another class name. -/
def Allocation.renameMessage (a : Allocation) (id : MessageId) (name : String) : Allocation :=
  { a with files := a.files.modify id.file fun fp =>
      { fp with messages := fp.messages.modify id.index fun mp => { mp with className := name } } }

/-- Renaming a map entry changes nothing the other plans say. -/
theorem Allocation.agreesOff_renameMessage {g : Graph} (a : Allocation) {id : MessageId}
    (hid : (g.message id).mapEntry = true) (name : String) :
    a.AgreesOff g (a.renameMessage id name) where
  file k := by
    simp only [Allocation.file, Allocation.renameMessage, List.getElem?_modify]
    split <;> cases a.files[k]? <;> rfl
  message id' hid' := by
    have hne : id' ≠ id := by
      rintro rfl
      rw [hid] at hid'
      cases hid'
    obtain ⟨k, i⟩ := id'
    obtain ⟨k₀, i₀⟩ := id
    simp only [Allocation.message, Allocation.file, Allocation.renameMessage, List.getElem?_modify]
    by_cases hk : k₀ = k
    · subst hk
      have hi : i₀ ≠ i := fun hi => hne (hi ▸ rfl)
      cases a.files[k₀]? <;> simp [hi]
    · simp [hk]

namespace Allocation.AgreesOff

variable {g : Graph} {a a' : Allocation} (h : a.AgreesOff g a')
include h

theorem voPackage (k : Nat) : (a'.file k).voPackage = (a.file k).voPackage := by rw [h.file k]

theorem converterClass (k : Nat) : (a'.file k).converterClass = (a.file k).converterClass := by
  rw [h.file k]

theorem wrapperClass (k : Nat) : (a'.file k).wrapperClass = (a.file k).wrapperClass := by
  rw [h.file k]

theorem extensionsClass (k : Nat) : (a'.file k).extensionsClass = (a.file k).extensionsClass := by
  rw [h.file k]

theorem extensions (k : Nat) : (a'.file k).extensions = (a.file k).extensions := by rw [h.file k]

theorem enumPlan (id : EnumId) : a'.enumPlan id = a.enumPlan id := by
  unfold Allocation.enumPlan
  rw [h.file id.file]

theorem protoClass (k : Nat) (typeName : List String) :
    a'.protoClass k typeName = a.protoClass k typeName := by
  unfold Allocation.protoClass
  rw [h.file k]

theorem converterClassName (pkg : String) (k : Nat) :
    a'.converterClass pkg k = a.converterClass pkg k := by
  unfold Allocation.converterClass
  rw [h.converterClass k]

variable (hL : ∀ k, (g.file k).Linked) (hnest : g.EntriesNestNothing)
include hL hnest

/-- The classes around a node agree when its parent is no map entry: every message above it
nests something, so none is an entry. -/
theorem enclosingFrom (k : Nat) :
    ∀ fuel p, (∀ i, p = some i → (g.message ⟨k, i⟩).mapEntry = false) →
      a'.enclosingFrom g k fuel p = a.enclosingFrom g k fuel p
  | 0, _, _ => rfl
  | _ + 1, none, _ => rfl
  | fuel + 1, some i, hp => by
    rw [Allocation.enclosingFrom, Allocation.enclosingFrom, h.message ⟨k, i⟩ (hp i rfl),
      enclosingFrom k fuel _ fun q hq => Graph.parent_notEntry (hL k) hnest hq]

theorem messageClass {id : MessageId} (hid : (g.message id).mapEntry = false) :
    a'.messageClass g id = a.messageClass g id := by
  unfold Allocation.messageClass Allocation.enclosing
  rw [h.voPackage, h.wrapperClass, h.message id hid,
    h.enclosingFrom hL hnest _ _ _ fun q hq => Graph.parent_notEntry (hL id.file) hnest hq]

theorem enumClass (id : EnumId) : a'.enumClass g id = a.enumClass g id := by
  unfold Allocation.enumClass Allocation.enclosing
  rw [h.voPackage, h.wrapperClass, h.enumPlan,
    h.enclosingFrom hL hnest _ _ _ fun q hq => Graph.enumParent_notEntry (hL id.file) hnest hq]

end Allocation.AgreesOff

end BeanCodegen.Plan

namespace BeanCodegen

open BeanCodegen.Schema BeanCodegen.Plan

/-- The session with names planned by another allocation. -/
def Session.withAlloc (s : Session) (a : Allocation) : Session := { s with alloc := a }

@[simp] theorem Session.withAlloc_alloc (s : Session) (a : Allocation) :
    (s.withAlloc a).alloc = a := rfl

@[simp] theorem Session.withAlloc_graph (s : Session) (a : Allocation) :
    (s.withAlloc a).graph = s.graph := rfl

@[simp] theorem Session.withAlloc_config (s : Session) (a : Allocation) :
    (s.withAlloc a).config = s.config := rfl

@[simp] theorem Session.withAlloc_genFiles (s : Session) (a : Allocation) :
    (s.withAlloc a).genFiles = s.genFiles := rfl

@[simp] theorem Session.withAlloc_index (s : Session) (a : Allocation) :
    (s.withAlloc a).index = s.index := rfl

end BeanCodegen

namespace BeanCodegen.Shape

open BeanCodegen.Schema BeanCodegen.Plan

/-! ## Java texts under two allocations -/

section Fields

variable {g : Graph}

@[simp] theorem ValueKind.notEntry_scalar (s : Scalar) : (ValueKind.scalar s).NotEntry g := trivial

@[simp] theorem ValueKind.notEntry_enum (id : EnumId) : (ValueKind.enum id).NotEntry g := trivial

@[simp] theorem ValueKind.notEntry_message (id : MessageId) :
    (ValueKind.message id).NotEntry g ↔ (g.message id).mapEntry = false := Iff.rfl

theorem valueKind_notEntry {cf : Classified} (hf : cf.shape.NotEntry g) {v : ValueKind}
    (hv : cf.valueKind = some v) : v.NotEntry g := by
  obtain ⟨field, shape, wire, dv, nullable⟩ := cf
  cases shape <;> simp only [Classified.valueKind, Option.some.injEq, reduceCtorEq] at hv <;>
    subst hv <;> exact hf

/-- A position past the end of a list of fields reads the default field, a scalar. -/
theorem getD_notEntry {cs : List Classified} (hall : ∀ cf ∈ cs, cf.shape.NotEntry g) (i : Nat) :
    (cs[i]?.getD default).shape.NotEntry g := by
  cases h : cs[i]? with
  | none => trivial
  | some cf => exact hall cf (List.mem_of_getElem? h)

/-- Whether a field's values resolve to a given type: `valueOf` as a test. -/
def valueIs (idx : TypeIndex) (f : Field) (v : ValueKind) : Bool :=
  match valueOf idx f with
  | .ok w => w == v
  | .error _ => false

theorem valueIs_iff {idx : TypeIndex} {f : Field} {v : ValueKind} :
    valueIs idx f v = true ↔ valueOf idx f = .ok v := by
  unfold valueIs
  cases valueOf idx f with
  | ok w => simp
  | error e => simp

/-- Under folded maps, every field a message classifies to holds no map entry. -/
theorem classifyAll_notEntry {idx : TypeIndex} (hfold : g.MapsFolded idx) (id : MessageId)
    {cs : List Classified}
    (h : (g.message id).fields.mapM (classify g idx (some (g.message id))) = .ok cs) :
    ∀ cf ∈ cs, cf.shape.NotEntry g := by
  intro cf hcf
  obtain ⟨f, hf, hcls⟩ :=
    Emit.exists_of_forall₂_left (Emit.forall₂_of_mapM_eq_ok h).flip cf hcf
  exact classify_notEntry hfold hf hcls

end Fields

section Render

variable {s : Session} {a' : Allocation} (hA : s.alloc.AgreesOff s.graph a')
  (hL : ∀ k, (s.graph.file k).Linked) (hnest : s.graph.EntriesNestNothing)
include hA hL hnest

theorem render_agree {v : ValueKind} (hv : v.NotEntry s.graph) (boxed : Bool) :
    v.render (s.withAlloc a') boxed = v.render s boxed := by
  cases v with
  | scalar _ => rfl
  | message id =>
    simp only [ValueKind.render, Session.withAlloc_alloc, Session.withAlloc_graph,
      hA.messageClass hL hnest hv]
  | enum id =>
    simp only [ValueKind.render, Session.withAlloc_alloc, Session.withAlloc_graph,
      hA.enumClass hL hnest]

theorem firstConstant_agree (id : EnumId) : firstConstant (s.withAlloc a') id = firstConstant s id := by
  simp only [firstConstant, Session.withAlloc_alloc, Session.withAlloc_graph, hA.enumPlan,
    hA.enumClass hL hnest]

theorem zero_agree (v : ValueKind) : v.zero (s.withAlloc a') = v.zero s := by
  cases v with
  | enum id => exact firstConstant_agree hA hL hnest id
  | scalar _ => rfl
  | message _ => rfl

theorem renderType_agree {f : Classified} (hf : f.shape.NotEntry s.graph) :
    f.renderType (s.withAlloc a') = f.renderType s := by
  obtain ⟨field, shape, wire, default, nullable⟩ := f
  dsimp only at hf
  -- every named value type is rendered through `render`, which agrees off the entries
  cases shape with
  | scalar v rep => cases rep <;> rfl
  | message id rep =>
    simp only [Classified.renderType,
      render_agree hA hL hnest (show ValueKind.NotEntry s.graph (.message id) from hf)]
  | enum id rep =>
    simp only [Classified.renderType,
      render_agree hA hL hnest (show ValueKind.NotEntry s.graph (.enum id) from trivial)]
  | map key value =>
    simp only [Classified.renderType, render_agree hA hL hnest (show value.NotEntry s.graph from hf)]
  | variant k p =>
    simp only [Classified.renderType, render_agree hA hL hnest (show p.NotEntry s.graph from hf)]
  | extension t p rep =>
    cases p with
    | scalar v => rfl
    | message id =>
      simp only [Classified.renderType,
        render_agree hA hL hnest (show ValueKind.NotEntry s.graph (.message id) from hf)]
    | enum id =>
      simp only [Classified.renderType,
        render_agree hA hL hnest (show ValueKind.NotEntry s.graph (.enum id) from trivial)]

theorem renderDefault_agree (f : Classified) :
    f.renderDefault (s.withAlloc a') = f.renderDefault s := by
  unfold Classified.renderDefault
  split
  · rfl
  · rfl
  · simp only [Session.withAlloc_alloc, Session.withAlloc_graph, hA.enumClass hL hnest]

theorem initializer_agree (f : Classified) (k : Option String) :
    f.initializer (s.withAlloc a') k = f.initializer s k := by
  unfold Classified.initializer
  simp only [firstConstant_agree hA hL hnest]

theorem getterDefault_agree (f : Classified) (k : Option String) :
    f.getterDefault (s.withAlloc a') k = f.getterDefault s k := by
  unfold Classified.getterDefault
  simp only [zero_agree hA hL hnest]

theorem renderType_getD_agree {cs : List Classified}
    (hall : ∀ cf ∈ cs, cf.shape.NotEntry s.graph) (i : Nat) :
    (cs[i]?.getD default).renderType (s.withAlloc a') = (cs[i]?.getD default).renderType s :=
  renderType_agree hA hL hnest (getD_notEntry hall i)

end Render

end BeanCodegen.Shape

namespace BeanCodegen.Emit

open BeanCodegen.Java BeanCodegen.Schema BeanCodegen.Plan BeanCodegen.Shape

/-! ## Programs that agree -/

section Congr

variable {m : Type → Type} [Monad m] [LawfulMonad m]

omit [LawfulMonad m] in
/-- Loops agree when their bodies agree on the elements they visit. -/
theorem forIn_congr_mem {β γ : Type} {f f' : β → γ → m (ForInStep γ)} :
    ∀ (xs : List β) (b : γ), (∀ x ∈ xs, f x = f' x) → forIn xs b f = forIn xs b f'
  | [], _, _ => rfl
  | x :: xs, b, h => by
    have ih := fun b => forIn_congr_mem xs b fun y hy => h y (List.mem_cons_of_mem x hy)
    simp only [List.forIn_cons, h x List.mem_cons_self, ih]

theorem filterMapM_congr_mem {β γ : Type} {f f' : β → m (Option γ)} :
    ∀ xs : List β, (∀ x ∈ xs, f x = f' x) → xs.filterMapM f = xs.filterMapM f'
  | [], _ => rfl
  | x :: xs, h => by
    simp only [List.filterMapM_cons, h x List.mem_cons_self,
      filterMapM_congr_mem xs fun y hy => h y (List.mem_cons_of_mem x hy)]

theorem mapM_congr_mem {β γ : Type} {f f' : β → m γ} :
    ∀ xs : List β, (∀ x ∈ xs, f x = f' x) → xs.mapM f = xs.mapM f'
  | [], _ => rfl
  | x :: xs, h => by
    simp only [List.mapM_cons, h x List.mem_cons_self,
      mapM_congr_mem xs fun y hy => h y (List.mem_cons_of_mem x hy)]

end Congr

/-- A step followed by continuations that agree on every result it can give. -/
theorem bind_congr_of_runs {p : EmitM α} {f f' : α → EmitM β} {P : α → Prop}
    {R : Draft → Draft → Prop} (hp : Runs p P R) (h : ∀ a, P a → f a = f' a) :
    p >>= f = p >>= f' := by
  ext d
  rw [StateT.run_bind, StateT.run_bind]
  cases hrun : p.run d with
  | error e => rfl
  | ok r =>
    obtain ⟨a, d'⟩ := r
    show (f a).run d' = (f' a).run d'
    rw [h a (hp d a d' hrun).1]

/-- A file of the session, with names planned by another allocation. -/
def Source.withAlloc (c : Source) (a : Allocation) : Source := ⟨c.session.withAlloc a, c.file⟩

namespace Source

section Views

variable (c : Source) (a : Allocation)

@[simp] theorem withAlloc_session : (c.withAlloc a).session = c.session.withAlloc a := rfl

@[simp] theorem withAlloc_unit : (c.withAlloc a).unit = c.unit := rfl

@[simp] theorem withAlloc_message (i : Nat) : (c.withAlloc a).message i = c.message i := rfl

@[simp] theorem withAlloc_enumType (i : Nat) : (c.withAlloc a).enumType i = c.enumType i := rfl

@[simp] theorem withAlloc_classify : (c.withAlloc a).classify = c.classify := rfl

@[simp] theorem withAlloc_file : (c.withAlloc a).file = c.file := rfl

@[simp] theorem withAlloc_depth : (c.withAlloc a).depth = c.depth := rfl

@[simp] theorem withAlloc_openEnums : (c.withAlloc a).openEnums = c.openEnums := rfl

@[simp] theorem withAlloc_accessorSuffix (v : ValueKind) :
    (c.withAlloc a).accessorSuffix v = c.accessorSuffix v := rfl

/-- Extension constants name numbers and extended messages only, never a planned class. -/
theorem extensionConstants_agree (scope : Option Message) (exts : List Field)
    (plans : List ExtensionPlan) :
    (c.withAlloc a).extensionConstants scope exts plans = c.extensionConstants scope exts plans :=
  rfl

end Views

/-- Top-level messages with a value class are no map entries. -/
theorem topMessages_notEntry (c : Source) {i : Nat} (hi : i ∈ c.topMessages) :
    (c.message i).mapEntry = false := by
  simp only [Source.topMessages, List.mem_map, List.mem_filter] at hi
  obtain ⟨x, ⟨hx, hnot⟩, rfl⟩ := hi
  have hm := (Plan.mem_topLevelMessages hx).1
  simp only [Source.message, hm, Option.getD_some]
  simpa using hnot

section Agree

variable {c : Source} {a' : Allocation} (hA : c.session.alloc.AgreesOff c.session.graph a')
include hA

theorem messagePlan_agree {i : Nat} (hi : (c.message i).mapEntry = false) :
    (c.withAlloc a').messagePlan i = c.messagePlan i :=
  hA.message ⟨c.file, i⟩ hi

theorem enumPlan_agree (e : Nat) : (c.withAlloc a').enumPlan e = c.enumPlan e :=
  hA.enumPlan ⟨c.file, e⟩

theorem plan_voPackage_agree : (c.withAlloc a').plan.voPackage = c.plan.voPackage :=
  hA.voPackage c.file

theorem plan_wrapperClass_agree : (c.withAlloc a').plan.wrapperClass = c.plan.wrapperClass :=
  hA.wrapperClass c.file

theorem plan_extensionsClass_agree :
    (c.withAlloc a').plan.extensionsClass = c.plan.extensionsClass :=
  hA.extensionsClass c.file

theorem plan_extensions_agree : (c.withAlloc a').plan.extensions = c.plan.extensions :=
  hA.extensions c.file

theorem enumeration_agree (i : Nat) : (c.withAlloc a').enumeration i = c.enumeration i := by
  unfold Source.enumeration
  rw [enumPlan_agree hA]
  rfl

theorem extensionsHolder_agree (modifiers : String) :
    (c.withAlloc a').extensionsHolder modifiers = c.extensionsHolder modifiers := by
  simp only [Source.extensionsHolder, plan_extensionsClass_agree hA, plan_extensions_agree hA,
    extensionConstants_agree, withAlloc_unit]

/-- The declarations ahead of a class never read the plan of a map entry: nested entries are
skipped. -/
theorem declareMessage_agree : ∀ fuel i nested, (c.message i).mapEntry = false →
    (c.withAlloc a').declareMessage fuel i nested = c.declareMessage fuel i nested
  | 0, _, _, _ => rfl
  | fuel + 1, i, nested, hi => by
    have ih := declareMessage_agree fuel
    simp +contextual only [Source.declareMessage, withAlloc_message, messagePlan_agree hA hi,
      enumPlan_agree hA, Bool.not_eq_true', ih]

variable (hL : ∀ k, (c.session.graph.file k).Linked) (hnest : c.session.graph.EntriesNestNothing)
include hL hnest

theorem fieldMember_agree {f : Classified} (hf : f.shape.NotEntry c.session.graph)
    (member : MemberPlan) : (c.withAlloc a').fieldMember f member = c.fieldMember f member := by
  simp only [Source.fieldMember, withAlloc_unit, withAlloc_session, renderType_agree hA hL hnest hf,
    initializer_agree hA hL hnest]

theorem oneofMembers_agree {fields : List Classified}
    (hall : ∀ cf ∈ fields, cf.shape.NotEntry c.session.graph) (g : Oneof) (op : OneofPlan)
    (members : List MemberPlan) :
    (c.withAlloc a').oneofMembers g op fields members = c.oneofMembers g op fields members := by
  simp only [Source.oneofMembers, withAlloc_unit, withAlloc_session,
    renderType_getD_agree hA hL hnest hall]

theorem oneofAccessors_agree {fields : List Classified}
    (hall : ∀ cf ∈ fields, cf.shape.NotEntry c.session.graph) (g : Oneof) (op : OneofPlan)
    (members : List MemberPlan) :
    (c.withAlloc a').oneofAccessors g op fields members = c.oneofAccessors g op fields members := by
  simp only [Source.oneofAccessors, withAlloc_session, renderType_getD_agree hA hL hnest hall,
    getterDefault_agree hA hL hnest]

theorem fieldMembers_agree {fields : List Classified}
    (hall : ∀ cf ∈ fields, cf.shape.NotEntry c.session.graph) (m : Message) (mp : MessagePlan) :
    (c.withAlloc a').fieldMembers m mp fields = c.fieldMembers m mp fields := by
  have hzip : ∀ x ∈ fields.zip mp.fields, x.1.shape.NotEntry c.session.graph :=
    fun x hx => hall x.1 (List.of_mem_zip hx).1
  simp +contextual only [Source.fieldMembers, ← forIn'_eq_forIn,
    oneofMembers_agree hA hL hnest hall, fieldMember_agree hA hL hnest, hzip]

theorem accessors_agree {fields : List Classified}
    (hall : ∀ cf ∈ fields, cf.shape.NotEntry c.session.graph) (m : Message) (mp : MessagePlan) :
    (c.withAlloc a').accessors m mp fields = c.accessors m mp fields := by
  simp only [Source.accessors, oneofAccessors_agree hA hL hnest hall]

variable (hfold : c.session.graph.MapsFolded c.session.index)
include hfold

theorem messageClass_agree : ∀ fuel i modifiers, (c.message i).mapEntry = false →
    (c.withAlloc a').messageClass fuel i modifiers = c.messageClass fuel i modifiers
  | 0, _, _, _ => rfl
  | fuel + 1, i, modifiers, hi => by
    have ih := messageClass_agree fuel
    rw [Source.messageClass, Source.messageClass, messagePlan_agree hA hi]
    apply bind_congr_of_runs (c.emits_classifyAll _ _)
    intro fields hfields
    have hall := classifyAll_notEntry hfold ⟨c.file, i⟩ hfields
    have hzip : ∀ x ∈ fields.zip (c.messagePlan i).fields, x.1.shape.NotEntry c.session.graph :=
      fun x hx => hall x.1 (List.of_mem_zip hx).1
    simp +contextual only [← forIn'_eq_forIn, extensionConstants_agree, enumeration_agree hA,
      fieldMembers_agree hA hL hnest hall, accessors_agree hA hL hnest hall,
      withAlloc_session, withAlloc_message, withAlloc_unit,
      renderDefault_agree hA hL hnest, Bool.not_eq_true', ih]
    refine bind_congr fun _ => ?_
    by_cases hdep : (c.message i).deprecated = true
    on_goal 1 =>
      rw [if_pos hdep, if_pos hdep]
      refine bind_congr fun _ => ?_
    on_goal 2 => rw [if_neg hdep, if_neg hdep]
    all_goals
      refine congrArg (declClass _ _ _ _) ?_
      refine bind_congr fun _ => ?_
      refine bind_congr fun _ => ?_
      refine bind_congr fun _ => ?_
      refine congrArg (· >>= _) ?_
      refine List.forIn'_congr rfl rfl fun x hmem _ => ?_
      split
      next k v heq =>
        have hv := valueKind_notEntry (hzip x hmem) (Prod.mk.inj heq).2
        simp only [render_agree hA hL hnest hv]
      next => rfl

theorem wrapperClass_agree (wrapper : String) {messages : List Nat}
    (hms : ∀ i ∈ messages, (c.message i).mapEntry = false) (enums : List Nat) :
    (c.withAlloc a').wrapperClass wrapper messages enums = c.wrapperClass wrapper messages enums := by
  simp +contextual only [Source.wrapperClass, ← forIn'_eq_forIn, withAlloc_depth, hms,
    messageClass_agree hA hL hnest hfold, enumeration_agree hA, extensionsHolder_agree hA]

theorem beanDrafts_agree : (c.withAlloc a').beanDrafts = c.beanDrafts := by
  have hms : ∀ i ∈ c.topMessages, (c.message i).mapEntry = false := fun _ => c.topMessages_notEntry
  simp only [Source.topMessages] at hms
  unfold Source.beanDrafts
  simp +contextual only [← forIn'_eq_forIn, withAlloc_unit, withAlloc_depth, hms,
    plan_wrapperClass_agree hA, plan_voPackage_agree hA, plan_extensionsClass_agree hA,
    enumPlan_agree hA, declareMessage_agree hA, enumeration_agree hA, extensionsHolder_agree hA,
    wrapperClass_agree hA hL hnest hfold _ hms]
  split
  next => rfl
  next =>
    -- one file per message: the drafts of the messages are made in a map, out of simp's reach
    refine congrArg (· >>= _) (mapM_congr_mem _ fun i hi => ?_)
    simp only [messagePlan_agree hA (hms i hi), declareMessage_agree hA _ _ _ (hms i hi),
      messageClass_agree hA hL hnest hfold _ _ _ (hms i hi)]

theorem beanFiles_agree : (c.withAlloc a').beanFiles = c.beanFiles := by
  simp only [Source.beanFiles, beanDrafts_agree hA hL hnest hfold, plan_voPackage_agree hA,
    withAlloc_unit]

end Agree

/-! ## Converters -/

section Converters

variable {c : Source} {a' : Allocation} (hA : c.session.alloc.AgreesOff c.session.graph a')
include hA

theorem protoClass_agree (id : MessageId) : (c.withAlloc a').protoClass id = c.protoClass id := by
  simp only [Source.protoClass, withAlloc_session, Session.withAlloc_alloc,
    Session.withAlloc_graph, Allocation.protoMessageClass, hA.protoClass]

theorem call_agree (id : MessageId) (method arg : String) :
    (c.withAlloc a').call id method arg = c.call id method arg := by
  simp only [Source.call, withAlloc_file, withAlloc_session, Session.withAlloc_alloc,
    Session.withAlloc_config, hA.converterClassName]

theorem protoElement_agree (v : ValueKind) : (c.withAlloc a').protoElement v = c.protoElement v := by
  cases v with
  | scalar s => cases s <;> rfl
  | message id => exact protoClass_agree hA id
  | enum id =>
    simp only [Source.protoElement, withAlloc_openEnums, withAlloc_session,
      Session.withAlloc_alloc, Session.withAlloc_graph, Allocation.protoEnumClass, hA.protoClass]

theorem encodeValue_agree {v : ValueKind} (hv : v.NotEntry c.session.graph) (expr : String) :
    (c.withAlloc a').encodeValue v expr = c.encodeValue v expr := by
  cases v with
  | scalar s => cases s <;> rfl
  | message id =>
    simp only [Source.encodeValue, withAlloc_session, Session.withAlloc_alloc,
      hA.message id hv, call_agree hA]
  | enum id =>
    simp only [Source.encodeValue, withAlloc_session, Session.withAlloc_alloc,
      Session.withAlloc_graph, Allocation.protoEnumClass, hA.protoClass, withAlloc_openEnums]

theorem encodeSingle_agree {v : ValueKind} (hv : v.NotEntry c.session.graph) (stem source : String) :
    (c.withAlloc a').encodeSingle v stem source = c.encodeSingle v stem source := by
  simp only [Source.encodeSingle, encodeValue_agree hA hv, withAlloc_accessorSuffix]

theorem encodeOneof_agree {fields : List Classified}
    (hall : ∀ cf ∈ fields, cf.shape.NotEntry c.session.graph) (op : OneofPlan)
    (members : List MemberPlan) :
    (c.withAlloc a').encodeOneof op fields members = c.encodeOneof op fields members := by
  unfold Source.encodeOneof
  refine congrArg (· >>= _) (filterMapM_congr_mem _ fun v _ => ?_)
  split
  next => rfl
  next value hvk =>
    simp -zeta only [encodeValue_agree hA (valueKind_notEntry (getD_notEntry hall _) hvk),
      withAlloc_accessorSuffix]

variable (hL : ∀ k, (c.session.graph.file k).Linked) (hnest : c.session.graph.EntriesNestNothing)
include hL hnest

theorem beanClass_agree (id : MessageId) (hid : (c.session.graph.message id).mapEntry = false) :
    (c.withAlloc a').beanClass id = c.beanClass id := by
  simp only [Source.beanClass, withAlloc_session, Session.withAlloc_alloc,
    Session.withAlloc_graph, hA.messageClass hL hnest hid]

theorem decodeValue_agree {v : ValueKind} (hv : v.NotEntry c.session.graph) (expr : String) :
    (c.withAlloc a').decodeValue v expr = c.decodeValue v expr := by
  cases v with
  | scalar s => cases s <;> rfl
  | message id =>
    simp only [Source.decodeValue, withAlloc_session, Session.withAlloc_alloc,
      hA.message id hv, call_agree hA]
  | enum id =>
    simp only [Source.decodeValue, withAlloc_session, Session.withAlloc_alloc,
      Session.withAlloc_graph, hA.enumClass hL hnest]
    rfl

theorem parseBytes_agree {i : Nat} (hi : (c.message i).mapEntry = false) :
    (c.withAlloc a').parseBytes ⟨c.file, i⟩ = c.parseBytes ⟨c.file, i⟩ := by
  simp only [Source.parseBytes, beanClass_agree hA hL hnest ⟨c.file, i⟩ hi, protoClass_agree hA,
    withAlloc_session, Session.withAlloc_alloc, hA.message ⟨c.file, i⟩ hi]

theorem encodeBytes_agree {i : Nat} (hi : (c.message i).mapEntry = false) :
    (c.withAlloc a').encodeBytes ⟨c.file, i⟩ = c.encodeBytes ⟨c.file, i⟩ := by
  simp only [Source.encodeBytes, beanClass_agree hA hL hnest ⟨c.file, i⟩ hi, withAlloc_session,
    Session.withAlloc_alloc, hA.message ⟨c.file, i⟩ hi]

theorem decodeSingle_agree (f : Classified) {v : ValueKind} (hv : v.NotEntry c.session.graph)
    (stem target : String) :
    (c.withAlloc a').decodeSingle f v stem target = c.decodeSingle f v stem target := by
  simp only [Source.decodeSingle, decodeValue_agree hA hL hnest hv, withAlloc_accessorSuffix]

theorem decodeEntries_agree (key : Scalar) {value : ValueKind}
    (hv : value.NotEntry c.session.graph) (stem target : String) :
    (c.withAlloc a').decodeEntries key value stem target = c.decodeEntries key value stem target := by
  simp only [Source.decodeEntries, protoElement_agree hA, decodeValue_agree hA hL hnest hv,
    withAlloc_accessorSuffix]

theorem encodeEntries_agree (key : Scalar) {value : ValueKind}
    (hv : value.NotEntry c.session.graph) (stem source : String) :
    (c.withAlloc a').encodeEntries key value stem source = c.encodeEntries key value stem source := by
  simp only [Source.encodeEntries, withAlloc_session, render_agree hA hL hnest hv,
    encodeValue_agree hA hv, withAlloc_accessorSuffix]

/-- A field copy reads only the plans of the values its shape holds. -/
theorem decodeField_agree {f : Classified} (hf : f.shape.NotEntry c.session.graph)
    (member : MemberPlan) : (c.withAlloc a').decodeField f member = c.decodeField f member := by
  obtain ⟨field, shape, wire, dv, nullable⟩ := f
  rcases shape with ⟨s, _ | _⟩ | ⟨id, _ | _⟩ | ⟨id, _ | _⟩ | ⟨key, value⟩ | ⟨k, payload⟩ |
      ⟨e, payload, rep⟩ <;> simp only [FieldShape.NotEntry] at hf <;>
    simp only [Source.decodeField, decodeSingle_agree hA hL hnest, decodeEntries_agree hA hL hnest,
      protoElement_agree hA, decodeValue_agree hA hL hnest, withAlloc_accessorSuffix,
      ValueKind.notEntry_scalar, ValueKind.notEntry_enum, ValueKind.notEntry_message, hf]

theorem encodeField_agree {f : Classified} (hf : f.shape.NotEntry c.session.graph)
    (member : MemberPlan) : (c.withAlloc a').encodeField f member = c.encodeField f member := by
  obtain ⟨field, shape, wire, dv, nullable⟩ := f
  rcases shape with ⟨s, _ | _⟩ | ⟨id, _ | _⟩ | ⟨id, _ | _⟩ | ⟨key, value⟩ | ⟨k, payload⟩ |
      ⟨e, payload, rep⟩ <;> simp only [FieldShape.NotEntry] at hf <;>
    simp only [Source.encodeField, encodeSingle_agree hA, encodeEntries_agree hA hL hnest,
      withAlloc_session, render_agree hA hL hnest, encodeValue_agree hA, withAlloc_accessorSuffix,
      ValueKind.notEntry_scalar, ValueKind.notEntry_enum, ValueKind.notEntry_message, hf]

theorem decodeOneof_agree {fields : List Classified}
    (hall : ∀ cf ∈ fields, cf.shape.NotEntry c.session.graph) (op : OneofPlan)
    (members : List MemberPlan) :
    (c.withAlloc a').decodeOneof op fields members = c.decodeOneof op fields members := by
  unfold Source.decodeOneof
  refine congrArg (· >>= _) (filterMapM_congr_mem _ fun v _ => ?_)
  -- the value a variant decodes is bound by a match, so its kind is read off the split
  split
  next => rfl
  next value hvk =>
    simp only [decodeValue_agree hA hL hnest (valueKind_notEntry (getD_notEntry hall _) hvk),
      withAlloc_accessorSuffix]

theorem decodeMembers_agree {fields : List Classified}
    (hall : ∀ cf ∈ fields, cf.shape.NotEntry c.session.graph) (mp : MessagePlan) :
    (c.withAlloc a').decodeMembers mp fields = c.decodeMembers mp fields := by
  have hzip : ∀ x ∈ fields.zip mp.fields, x.1.shape.NotEntry c.session.graph :=
    fun x hx => hall x.1 (List.of_mem_zip hx).1
  simp +contextual only [Source.decodeMembers, ← forIn'_eq_forIn,
    decodeOneof_agree hA hL hnest hall, decodeField_agree hA hL hnest, hzip]

theorem encodeMembers_agree {fields : List Classified}
    (hall : ∀ cf ∈ fields, cf.shape.NotEntry c.session.graph) (mp : MessagePlan) :
    (c.withAlloc a').encodeMembers mp fields = c.encodeMembers mp fields := by
  have hzip : ∀ x ∈ fields.zip mp.fields, x.1.shape.NotEntry c.session.graph :=
    fun x hx => hall x.1 (List.of_mem_zip hx).1
  simp +contextual only [Source.encodeMembers, ← forIn'_eq_forIn,
    encodeOneof_agree hA hall, encodeField_agree hA hL hnest, hzip]

variable (hfold : c.session.graph.MapsFolded c.session.index)
include hfold

theorem decode_agree {i : Nat} (hi : (c.message i).mapEntry = false) :
    (c.withAlloc a').decode ⟨c.file, i⟩ = c.decode ⟨c.file, i⟩ := by
  unfold Source.decode Source.classified
  rw [messagePlan_agree hA hi]
  apply bind_congr_of_runs (c.emits_classifyAll _ _)
  intro fields hfields
  have hall := classifyAll_notEntry hfold ⟨c.file, i⟩ hfields
  simp only [beanClass_agree hA hL hnest ⟨c.file, i⟩ hi, protoClass_agree hA,
    decodeMembers_agree hA hL hnest hall, withAlloc_message]

theorem encode_agree {i : Nat} (hi : (c.message i).mapEntry = false) :
    (c.withAlloc a').encode ⟨c.file, i⟩ = c.encode ⟨c.file, i⟩ := by
  unfold Source.encode Source.classified
  rw [messagePlan_agree hA hi]
  apply bind_congr_of_runs (c.emits_classifyAll _ _)
  intro fields hfields
  have hall := classifyAll_notEntry hfold ⟨c.file, i⟩ hfields
  simp only [beanClass_agree hA hL hnest ⟨c.file, i⟩ hi, protoClass_agree hA,
    encodeMembers_agree hA hL hnest hall]

theorem converterFile_agree : (c.withAlloc a').converterFile = c.converterFile := by
  have hms : ∀ i ∈ (List.range c.unit.messages.length).filter fun i => !(c.message i).mapEntry,
      (c.message i).mapEntry = false := fun i hi => by
    simpa using (List.mem_filter.1 hi).2
  unfold Source.converterFile
  simp +contextual only [← forIn'_eq_forIn, withAlloc_unit, withAlloc_message, withAlloc_session,
    withAlloc_file, Session.withAlloc_alloc, Session.withAlloc_config, hA.converterClassName, hms,
    parseBytes_agree hA hL hnest, decode_agree hA hL hnest hfold, encode_agree hA hL hnest hfold,
    encodeBytes_agree hA hL hnest]

end Converters

end Source

end BeanCodegen.Emit

namespace BeanCodegen

open BeanCodegen.Schema BeanCodegen.Plan BeanCodegen.Emit

/-- The files a session writes stay the same whatever the plans of its map entries say, when map
entries are only ever the values of map fields and nest nothing. The allocator plans a class and
converter methods for every entry, but no generator reads them, so no written file names them. -/
theorem Session.artifacts_ignore_entry_plans {s : Session} {a' : Allocation}
    (hA : s.alloc.AgreesOff s.graph a') (hL : ∀ k, (s.graph.file k).Linked)
    (hnest : s.graph.EntriesNestNothing) (hfold : s.graph.MapsFolded s.index) :
    (s.withAlloc a').artifacts = s.artifacts := by
  have hbeans : ∀ file, Source.beanFiles ⟨s.withAlloc a', file⟩ = Source.beanFiles ⟨s, file⟩ :=
    fun file => @Source.beanFiles_agree ⟨s, file⟩ a' hA hL hnest hfold
  have hconverters :
      ∀ file, Source.converterFile ⟨s.withAlloc a', file⟩ = Source.converterFile ⟨s, file⟩ :=
    fun file => @Source.converterFile_agree ⟨s, file⟩ a' hA hL hnest hfold
  unfold Session.artifacts
  simp only [Session.withAlloc_genFiles, hbeans, hconverters]

theorem Session.checked_linked {r : Descriptor.Request} {s : Session}
    (hs : Session.checked r = .ok s) (k : Nat) : (s.graph.file k).Linked :=
  Graph.build_linked_all (Session.checked_parts hs).1 k

/-- Map fields in a checked session. A repeated field of an entry type, neither an extension nor
a oneof member, classifies as a map from the scalar kind of the entry's field 1 to the type of its
field 2, and fails exactly when the entry lacks a scalar key or a value field. Its bean member is
declared as a `Map` of the boxed key and value types, starting as an empty `HashMap`. When
entries are only the values of map fields and nest nothing, the written files do not depend on
the plans of map entries. -/
theorem Session.entries_fold_into_maps {r : Descriptor.Request} {s : Session}
    (hs : Session.checked r = .ok s) :
    (∀ (m : Message) (f : Field) (e : MessageId), f.isRepeated = true → f.extendee = none →
      m.variantGroup f = none → Shape.valueOf s.index f = .ok (.message e) →
      (s.graph.message e).mapEntry = true →
      (∀ key vf v, (s.graph.message e).mapKey = some key → (s.graph.message e).mapValue = some vf →
          Shape.valueOf s.index vf = .ok v →
          Shape.classify s.graph s.index (some m) f =
            .ok ⟨f, .map key v, f.fieldType.wire, none, false⟩) ∧
        ((∃ n, Shape.classify s.graph s.index (some m) f = .error (.malformedMapEntry n)) ↔
          (s.graph.message e).mapKey = none ∨ (s.graph.message e).mapValue = none)) ∧
    (∀ (k i j : Nat) (m : Message) (f : Field) (member : MemberPlan) (key : Shape.Scalar)
        (v : Shape.ValueKind) (d : Draft),
      k < s.graph.files.length → (s.graph.file k).messages[i]? = some m → m.fields[j]? = some f →
      (s.alloc.message ⟨k, i⟩).fields[j]? = some member → f.isRepeated = true →
      let mc := d.imports.reference Shape.mapClass
      let vc := (v.render s true).run mc.2
      ∃ d', ((Source.mk s k).fieldMember ⟨f, .map key v, f.fieldType.wire, none, false⟩ member).run d =
          .ok ((), d') ∧
        Piece.annotated f.path ("public " ++ (mc.1 ++ "<" ++ key.boxed ++ ", " ++ vc.1 ++ ">") ++ " ")
          member.field " = new HashMap<>();" ∈ d'.out) ∧
    (s.graph.MapsFolded s.index → s.graph.EntriesNestNothing →
      ∀ a', s.alloc.AgreesOff s.graph a' → (s.withAlloc a').artifacts = s.artifacts) := by
  refine ⟨?_, ?_, ?_⟩
  · intro m f e hrep hext hgrp hval hentry
    exact Shape.classify_map_field hrep hext hgrp hval hentry
  · intro k i j m f member key v d hk hm hf hmember hrep
    -- a repeated field gets no default constant, so its member starts as an empty map
    have hdef : member.defaultConst = none := by
      have hj := congrArg (·[j]?) (Session.checked_defaultConsts hs hk hm)
      simp only [List.getElem?_map, hmember, hf, hrep, Option.map_some, Bool.not_true,
        Bool.and_false, Option.some.injEq, Option.isSome_eq_false_iff,
        Option.isNone_iff_eq_none] at hj
      exact hj
    exact (Source.mk s k).fieldMember_map rfl rfl hdef d
  · intro hfold hnest a' hA
    exact Session.artifacts_ignore_entry_plans hA (Session.checked_linked hs) hnest hfold

/-- The map of the tests: `demo.proto` (package `demo`, proto3) whose message `Stats` maps
strings to 32-bit integers through its entry `CountsEntry`. -/
def statsRequest : Descriptor.Request :=
  { fileToGenerate := ["demo.proto"], parameter := some "vopkg=com.acme.vo"
    protoFile := [
      { name := some "demo.proto", package := some "demo", dialect := some "proto3"
        messageType := [
          { name := some "Stats"
            field := [{ name := some "counts", number := some 1, label := some 3, fieldType := some 11
                        typeName := some ".demo.Stats.CountsEntry" }]
            nestedType := [
              { name := some "CountsEntry"
                field := [
                  { name := some "key", number := some 1, label := some 1, fieldType := some 9 },
                  { name := some "value", number := some 2, label := some 1, fieldType := some 5 }]
                options := some { mapEntry := some true } }] }] }] }

/-- A map entry `MEntry` of `A` (file `a.proto`, package `a`, proto3) that declares a message `N`
and an enum `X`; the field `x` of `A` holds an `X`. Only `m` is of the entry type. -/
def nestedEntryRequest : Descriptor.Request :=
  { fileToGenerate := ["a.proto"], parameter := some "vopkg=v"
    protoFile := [
      { name := some "a.proto", package := some "a", dialect := some "proto3"
        messageType := [
          { name := some "A"
            field := [
              { name := some "m", number := some 1, label := some 3, fieldType := some 11
                typeName := some ".a.A.MEntry" },
              { name := some "x", number := some 2, label := some 1, fieldType := some 14
                typeName := some ".a.A.MEntry.X" }]
            nestedType := [
              { name := some "MEntry"
                field := [
                  { name := some "key", number := some 1, label := some 1, fieldType := some 9 },
                  { name := some "value", number := some 2, label := some 1, fieldType := some 5 }]
                nestedType := [{ name := some "N" }]
                enumType := [{ name := some "X", value := [{ name := some "X_ZERO", number := some 0 }] }]
                options := some { mapEntry := some true } }] }] }] }

/-- Both requests check. In the first, maps are folded and entries nest nothing, and its field
`counts` is a repeated field of the entry type whose key is a string and value an `int32`. In
the second, maps are folded too, but the bean type of `x` is written through the class of the
entry: `A.MEntry.X`, and `A.Renamed.X` once the entry is planned as `Renamed`. -/
theorem entryRequests_evaluated :
    ((match Session.checked statsRequest with
      | .ok s =>
        s.graph.allMessages (Message.foldsMaps s.graph s.index) &&
          s.graph.allMessages Message.entryLeaf &&
          (match (s.graph.message ⟨0, 0⟩).fields with
            | [f] => f.isRepeated && f.extendee.isNone &&
                ((s.graph.message ⟨0, 0⟩).variantGroup f).isNone &&
                Shape.valueIs s.index f (.message ⟨0, 1⟩) && (s.graph.message ⟨0, 1⟩).mapEntry &&
                (s.graph.message ⟨0, 1⟩).mapKey == some .string &&
                (match (s.graph.message ⟨0, 1⟩).mapValue with
                  | some vf => Shape.valueIs s.index vf (.scalar .int32)
                  | none => false)
            | _ => false)
      | .error _ => false) &&
    (match Session.checked nestedEntryRequest with
      | .ok s =>
        s.graph.allMessages (Message.foldsMaps s.graph s.index) &&
          (s.graph.message ⟨0, 1⟩).mapEntry &&
          (match Shape.classify s.graph s.index (some (s.graph.message ⟨0, 0⟩))
              ((s.graph.message ⟨0, 0⟩).fields.getD 1 default) with
            | .ok cx =>
              ((cx.renderType s).run (Draft.start "v.a" ["A"]).imports).1 == "A.MEntry.X" &&
                ((cx.renderType (s.withAlloc (s.alloc.renameMessage ⟨0, 1⟩ "Renamed"))).run
                  (Draft.start "v.a" ["A"]).imports).1 == "A.Renamed.X"
            | .error _ => false)
      | .error _ => false)) = true := by
  decide +kernel

/-- The map of the tests folds: `counts` classifies as a map from strings to `int32` values,
and the files of the request stay the same whatever the plan of `CountsEntry`. -/
theorem statsRequest_entries_fold :
    ∃ s f, Session.checked statsRequest = .ok s ∧ (s.graph.message ⟨0, 0⟩).fields = [f] ∧
      Shape.classify s.graph s.index (some (s.graph.message ⟨0, 0⟩)) f =
        .ok ⟨f, .map .string (.scalar .int32), f.fieldType.wire, none, false⟩ ∧
      s.graph.MapsFolded s.index ∧ s.graph.EntriesNestNothing ∧
      ∀ a', s.alloc.AgreesOff s.graph a' → (s.withAlloc a').artifacts = s.artifacts := by
  have h := entryRequests_evaluated
  rw [Bool.and_eq_true] at h
  obtain ⟨h, -⟩ := h
  cases hs : Session.checked statsRequest with
  | error e =>
    rw [hs] at h
    cases h
  | ok s =>
    rw [hs] at h
    simp only [Bool.and_eq_true] at h
    obtain ⟨⟨hfold, hnest⟩, hstats⟩ := h
    have hfold := Graph.mapsFolded_of_allMessages hfold
    have hnest := Graph.entriesNestNothing_of_allMessages hnest
    split at hstats
    next f hfields =>
      simp only [Bool.and_eq_true, Option.isNone_iff_eq_none, beq_iff_eq, Shape.valueIs_iff] at hstats
      obtain ⟨⟨⟨⟨⟨⟨hrep, hext⟩, hgrp⟩, hval⟩, hentry⟩, hkey⟩, hvalue⟩ := hstats
      split at hvalue
      next vf hvf =>
        have hthm := Session.entries_fold_into_maps hs
        exact ⟨s, f, rfl, hfields,
          (hthm.1 _ f ⟨0, 1⟩ hrep hext hgrp hval hentry).1 .string vf (.scalar .int32) hkey hvf
            (Shape.valueIs_iff.1 hvalue),
          hfold, hnest, hthm.2.2 hfold hnest⟩
      next => cases hvalue
    next => cases hstats

/-- An entry that declares a type: maps are folded, yet the bean type of `x` names the class of
the entry `MEntry`, and renaming that entry alone, which changes no other plan, changes it. -/
theorem nestedEntryRequest_names_entry :
    ∃ s, Session.checked nestedEntryRequest = .ok s ∧ s.graph.MapsFolded s.index ∧
      (s.graph.message ⟨0, 1⟩).mapEntry = true ∧
      s.alloc.AgreesOff s.graph (s.alloc.renameMessage ⟨0, 1⟩ "Renamed") ∧
      ∃ cx, Shape.classify s.graph s.index (some (s.graph.message ⟨0, 0⟩))
          ((s.graph.message ⟨0, 0⟩).fields.getD 1 default) = .ok cx ∧
        ((cx.renderType s).run (Draft.start "v.a" ["A"]).imports).1 = "A.MEntry.X" ∧
        ((cx.renderType (s.withAlloc (s.alloc.renameMessage ⟨0, 1⟩ "Renamed"))).run
          (Draft.start "v.a" ["A"]).imports).1 = "A.Renamed.X" := by
  have h := entryRequests_evaluated
  rw [Bool.and_eq_true] at h
  obtain ⟨-, h⟩ := h
  cases hs : Session.checked nestedEntryRequest with
  | error e =>
    rw [hs] at h
    cases h
  | ok s =>
    rw [hs] at h
    simp only [Bool.and_eq_true] at h
    obtain ⟨⟨hfold, hentry⟩, hx⟩ := h
    split at hx
    next cx hcx =>
      simp only [Bool.and_eq_true, beq_iff_eq] at hx
      exact ⟨s, rfl, Graph.mapsFolded_of_allMessages hfold, hentry,
        s.alloc.agreesOff_renameMessage hentry "Renamed", cx, hcx, hx.1, hx.2⟩
    next => cases hx

end BeanCodegen
