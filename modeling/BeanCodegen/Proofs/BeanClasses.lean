import Mathlib
import BeanCodegen.Emit.Bean
import BeanCodegen.Proofs.Declarations
import BeanCodegen.Proofs.ClassScopes
import BeanCodegen.Proofs.Arena
/-! # Classes of the value-class files

What each step of the value-class generator declares. Members, accessors, constants and
`toString` declare no class. A oneof written at its first member declares its case enum, its
interface and a wrapper class per variant; an enum declares itself; the extension holder
declares itself. A message declares its class and, inside it, the oneofs its fields open, its
enums and its nested messages other than map entries, each with what it declares in turn
(`Source.messageDecls`).

Registering the nested classes of a message walks the same tree (`Source.messageNames`): the
message's class when it is nested, the classes of every oneof plan, its enums, and its nested
messages other than map entries.
-/

namespace BeanCodegen.Emit

open BeanCodegen.Java BeanCodegen.Schema BeanCodegen.Plan BeanCodegen.Shape

/-- The classes of a oneof, declared where the oneof is written: its case enum, its interface
and a wrapper class per variant. -/
def oneofDecls (op : OneofPlan) : List Decl :=
  ([op.caseEnum], none) :: ([op.iface], none) :: op.variants.map fun v => ([v.wrapper], none)

/-- The classes written at a field: its oneof's, when the field is the oneof's first member. -/
def openedDecls (oneofs : List (Option OneofPlan)) (f : Classified) : List Decl :=
  match variantPlan oneofs f with
  | some op => if opensOneof op f then oneofDecls op else []
  | none => []

theorem variantPlan_of_not_variant {oneofs : List (Option OneofPlan)} {f : Classified}
    (h : ∀ k payload, f.shape = .variant k payload → False) : variantPlan oneofs f = none := by
  unfold variantPlan
  split
  · exact absurd ‹_› (h _ _)
  · rfl

theorem Emits.leading (u : File) (path : List Nat) :
    Emits (leading u path) (fun _ => True) [] := Emits.comment _

theorem Emits.trailing (u : File) (path : List Nat) :
    Emits (trailing u path) (fun _ => True) [] := Emits.comment _

theorem Emits.showValue (f : Classified) (expr : String) :
    Emits (showValue f expr) (fun _ => True) [] := by
  unfold Emit.showValue
  split <;> first
    | exact Emits.pure trivial
    | exact (Emits.nameClass _).seq fun _ => Emits.pure trivial

theorem Emits.showParts (oneofs : List (Option OneofPlan)) :
    ∀ (xs : List (Classified × MemberPlan)) (seen : List Nat),
      Emits (showParts oneofs xs seen) (fun _ => True) []
  | [], _ => Emits.pure trivial
  | (f, member) :: rest, seen => by
    unfold Emit.showParts
    split
    · split
      · split
        · exact Emits.showParts oneofs rest seen
        · exact (Emits.showParts oneofs rest _).seq fun _ => Emits.pure trivial
      · exact Emits.showParts oneofs rest seen
    · exact (Emits.showValue f _).seq fun _ =>
        (Emits.showParts oneofs rest seen).seq fun _ => Emits.pure trivial

/-- One line per variant: the constants of a case enum and the cases of its switch. -/
theorem Emits.variantLines {line : VariantPlan → String} (vs : List VariantPlan) :
    Emits (ForIn.forIn vs PUnit.unit fun v _ => do
        Emit.line (line v)
        Pure.pure (ForInStep.yield PUnit.unit))
      (fun _ => True) [] :=
  Emits.forIn_quiet vs fun _ _ => (Emits.line _).seq fun _ => Emits.yield

theorem Emits.toStringMethod (cls : String) (fields : List Classified)
    (members : List MemberPlan) (oneofs : List (Option OneofPlan)) :
    Emits (Source.toStringMethod cls fields members oneofs) (fun _ => True) [] := by
  unfold Source.toStringMethod
  refine (Emits.showParts _ _ _).seq fun parts => (Emits.line _).seq fun _ => Emits.braces _ ?_
  split
  · exact Emits.line _
  · refine (Emits.line _).seq fun _ => (Emits.forIn_quiet _ fun x _ => ?_).seq fun _ =>
      Emits.line _
    obtain ⟨⟨label, expr⟩, j⟩ := x
    exact (Emits.line _).seq fun _ => Emits.yield

namespace Source

variable (c : Source)

/-- Classifying the fields of a message in a generation step: it declares nothing and gives
what classifying them outright gives. -/
theorem emits_classifyAll (scope : Option Message) :
    ∀ fs : List Field, Emits (fs.mapM (c.classify scope))
      (fun cs => fs.mapM (Shape.classify c.session.graph c.session.index scope) = .ok cs) []
  | [] => Emits.pure rfl
  | fd :: fs => by
    rw [List.mapM_cons]
    refine (Emits.liftExcept _).bind fun a ha =>
      (emits_classifyAll scope fs).bind fun as has => Emits.pure ?_
    rw [List.mapM_cons, ha, has]
    rfl

theorem emits_fieldMember (f : Classified) (member : MemberPlan) :
    Emits (c.fieldMember f member) (fun _ => True) [] := by
  unfold Source.fieldMember
  dsimp only
  refine (Emits.leading _ _).seq fun _ => (Emits.line _).seq fun _ => ?_
  refine Emits.optLine _ _ fun _ => ?_
  refine (Emits.onImports (Refers.renderType _ _)).seq fun _ => ?_
  refine (Emits.onImports (Refers.initializer _ _ _)).seq fun _ => ?_
  exact (Emits.annotated _ _ _ _).seq fun _ => Emits.trailing _ _

theorem emits_oneofMembers (g : Oneof) (op : OneofPlan) (fields : List Classified)
    (members : List MemberPlan) :
    Emits (c.oneofMembers g op fields members) (fun _ => True) (oneofDecls op) := by
  unfold Source.oneofMembers
  dsimp only
  apply Emits.of_eq
  · apply (Emits.leading _ _).seq; intro _
    -- the case enum: its constants, its number and its lookup by number
    apply Emits.bind
    · apply Emits.declLeaf
      refine (Emits.variantLines _).seq fun _ => (Emits.line _).seq fun _ => ?_
      refine Emits.blank.seq fun _ => (Emits.line _).seq fun _ => Emits.blank.seq fun _ => ?_
      refine (Emits.braces _ (Emits.line _)).seq fun _ => Emits.blank.seq fun _ => ?_
      refine (Emits.braces _ (Emits.line _)).seq fun _ => Emits.blank.seq fun _ => ?_
      refine Emits.braces _ (Emits.braces _ ?_)
      exact (Emits.variantLines _).seq fun _ => (Emits.line _).seq fun _ => Emits.line _
    intro _ _
    apply Emits.blank.seq; intro _
    apply Emits.bind (Emits.declLeaf none _ _ _ (Emits.line _))
    intro _ _
    apply Emits.blank.seq; intro _
    -- a wrapper class per variant
    apply Emits.bind (Emits.forIn (fun v : VariantPlan => [([v.wrapper], none)]) _ fun v _ => ?_)
    · intro _ _
      exact Emits.annotated _ _ _ _
    · apply (Emits.onImports (Refers.renderType _ _)).seq; intro _
      apply (Emits.showValue _ _).seq; intro _
      apply (Emits.leading _ _).seq; intro _
      apply (Emits.line _).seq; intro _
      apply Emits.optLine; intro _
      refine (Emits.declLeaf none _ _ _ ?_).bind fun _ _ => Emits.blank.seq fun _ => Emits.yield
      refine (Emits.annotated _ _ _ _).seq fun _ => Emits.blank.seq fun _ => ?_
      refine (Emits.braces _ (Emits.line _)).seq fun _ => Emits.blank.seq fun _ => ?_
      refine (Emits.line _).seq fun _ => (Emits.braces _ (Emits.line _)).seq fun _ => ?_
      refine Emits.blank.seq fun _ => (Emits.line _).seq fun _ => ?_
      exact Emits.braces _ (Emits.line _)
  · simp [oneofDecls, List.map_eq_flatMap]

theorem emits_oneofAccessors (g : Oneof) (op : OneofPlan) (fields : List Classified)
    (members : List MemberPlan) :
    Emits (c.oneofAccessors g op fields members) (fun _ => True) [] := by
  unfold Source.oneofAccessors
  dsimp only
  refine (Emits.annotated _ _ _ _).seq fun _ => (Emits.body _ (Emits.line _)).seq fun _ => ?_
  refine Emits.blank.seq fun _ => (Emits.forIn_quiet _ fun v _ => ?_).seq fun _ =>
    Emits.pure trivial
  -- a setter and a getter per variant
  refine (Emits.onImports (Refers.renderType _ _)).seq fun _ => ?_
  refine (Emits.onImports (Refers.getterDefault _ _ _)).seq fun _ => ?_
  refine (Emits.braces _ (Emits.line _)).seq fun _ => Emits.blank.seq fun _ => ?_
  exact (Emits.braces _ (Emits.line _)).seq fun _ => Emits.blank.seq fun _ => Emits.yield

/-- The declaration of an enum's class. -/
def enumDecl (e : Nat) : Decl := ([(c.enumPlan e).className], some (c.enumType e).path)

theorem emits_enumeration (i : Nat) :
    Emits (c.enumeration i) (fun _ => True) [c.enumDecl i] := by
  unfold Source.enumeration
  dsimp only
  refine (Emits.leading _ _).seq fun _ => Emits.optLine _ _ fun _ => ?_
  refine Emits.declLeaf _ _ _ _ ?_
  refine (Emits.trailing _ _).seq fun _ => Emits.optLine _ _ fun _ => ?_
  refine (Emits.forIn_quiet _ fun x _ => ?_).seq fun _ => ?_
  · -- a constant per value, an alias marked as such
    obtain ⟨⟨v, k⟩, j⟩ := x
    refine (Emits.leading _ _).seq fun _ => ?_
    split <;> try refine (Emits.line _).seq fun _ => ?_
    all_goals exact Emits.optLine _ _ fun _ => (Emits.annotated _ _ _ _).seq fun _ =>
      (Emits.trailing _ _).seq fun _ => Emits.yield
  refine Emits.blank.seq fun _ => (Emits.line _).seq fun _ => Emits.blank.seq fun _ => ?_
  refine (Emits.braces _ (Emits.line _)).seq fun _ => Emits.blank.seq fun _ => ?_
  refine (Emits.braces _ (Emits.line _)).seq fun _ => Emits.blank.seq fun _ => ?_
  refine Emits.braces _ (Emits.braces _ ((Emits.forIn_quiet _ fun x _ => ?_).seq fun _ =>
    Emits.line _))
  -- the lookup skips aliases
  obtain ⟨v, k⟩ := x
  split
  · exact (Emits.line _).seq fun _ => Emits.yield
  · exact Emits.yield

theorem emits_extensionConstants (scope : Option Message) (exts : List Field)
    (plans : List ExtensionPlan) :
    Emits (c.extensionConstants scope exts plans) (fun _ => True) [] := by
  unfold Source.extensionConstants
  refine (Emits.forIn_quiet _ fun x _ => ?_).seq fun _ => Emits.pure trivial
  obtain ⟨ext, ep⟩ := x
  refine (Emits.liftExcept _).bind fun f _ => ?_
  split
  · refine (Emits.leading _ _).seq fun _ => (Emits.line _).seq fun _ => ?_
    refine (Emits.annotated _ _ _ _).seq fun _ => (Emits.line _).seq fun _ => ?_
    exact Emits.blank.seq fun _ => Emits.yield
  · exact Emits.yield

theorem emits_extensionsHolder (modifiers : String) :
    Emits (c.extensionsHolder modifiers) (fun _ => True)
      (c.plan.extensionsClass.toList.map fun holder => ([holder], none)) := by
  unfold Source.extensionsHolder
  split
  · rename_i h
    rw [h]
    exact Emits.pure trivial
  · rename_i holder h
    rw [h]
    refine Emits.declLeaf none _ _ _ ?_
    exact (Emits.line _).seq fun _ => Emits.blank.seq fun _ => c.emits_extensionConstants _ _ _

/-- The fields of message `i` as classified in it, when they all classify. -/
def fieldsOf (i : Nat) : List Classified :=
  (((c.message i).fields.mapM
    (Shape.classify c.session.graph c.session.index (some (c.message i)))).toOption).getD []

/-- The classes the value class of message `i` declares, its own first, with `fuel` bounding
the depth of nesting. -/
def messageDecls : Nat → Nat → List Decl
  | 0, _ => []
  | fuel + 1, i =>
    ([(c.messagePlan i).className], some (c.message i).path) ::
      (((c.fieldsOf i).zip (c.messagePlan i).fields).flatMap
          (fun x => openedDecls (c.messagePlan i).oneofs x.1) ++
        (c.message i).enums.map c.enumDecl ++
        (c.message i).nested.flatMap
          (fun n => if (!(c.message n).mapEntry) = true then messageDecls fuel n else [])).map
        (Decl.within (c.messagePlan i).className)

/-- The nested class names registered for message `i`: its own class when it is nested, the
classes of its oneof plans, its enums, and its nested messages other than map entries. -/
def messageNames : Nat → Nat → Bool → List String
  | 0, _, _ => []
  | fuel + 1, i, nested =>
    (if nested = true then [(c.messagePlan i).className] else []) ++
      (oneofClasses (c.messagePlan i).oneofs ++
        (c.message i).enums.map (fun e => (c.enumPlan e).className) ++
        (c.message i).nested.flatMap
          (fun n => if (!(c.message n).mapEntry) = true then messageNames fuel n true else []))

/-- The fields of message `i` classify, and so do those of its nested messages other than map
entries, down to depth `fuel`. -/
def ClassifiesBelow : Nat → Nat → Prop
  | 0, _ => True
  | fuel + 1, i =>
    (∃ fields, (c.message i).fields.mapM
      (Shape.classify c.session.graph c.session.index (some (c.message i))) = .ok fields) ∧
    ∀ n ∈ (c.message i).nested, (!(c.message n).mapEntry) = true → ClassifiesBelow fuel n

/-- The members for a message's fields declare the classes of the oneofs they open. -/
theorem emits_fieldMembers (m : Message) (mp : MessagePlan) (fields : List Classified) :
    Emits (c.fieldMembers m mp fields) (fun _ => True)
      ((fields.zip mp.fields).flatMap fun x => openedDecls mp.oneofs x.1) := by
  unfold Source.fieldMembers
  refine (Emits.bind (Emits.forIn (fun x : Classified × MemberPlan => openedDecls mp.oneofs x.1)
    _ ?field) fun _ _ => Emits.pure trivial).of_eq (List.append_nil _)
  case field =>
    -- a oneof is written at its first member, any other field as a member of its own
    rintro ⟨f, member⟩ -
    dsimp only
    split
    · cases hvp : variantPlan mp.oneofs f with
      | none => exact Emits.yield.of_eq (by simp [openedDecls, hvp])
      | some op =>
        refine (Emits.ite _ ((c.emits_oneofMembers _ op _ _).bind fun _ _ =>
          Emits.blank.seq fun _ => Emits.yield) Emits.yield).of_eq ?_
        simp [openedDecls, hvp]
    · rename_i hshape
      refine (c.emits_fieldMember f member).seq fun _ => Emits.blank.seq fun _ => ?_
      exact Emits.yield.of_eq (by simp [openedDecls, variantPlan_of_not_variant hshape])

/-- The accessors of a message's oneofs declare no class. -/
theorem emits_accessors (m : Message) (mp : MessagePlan) (fields : List Classified) :
    Emits (c.accessors m mp fields) (fun _ => True) [] := by
  unfold Source.accessors
  refine (Emits.forIn_quiet _ ?accessor).seq fun _ => Emits.pure trivial
  case accessor =>
    rintro ⟨g, _ | op⟩ -
    · exact Emits.yield
    · exact (c.emits_oneofAccessors g op _ _).seq fun _ => Emits.yield

/-- The class of a message declares its tree of classes; writing it needs every field below it
to classify. -/
theorem emits_messageClass : ∀ fuel i modifiers,
    Emits (c.messageClass fuel i modifiers) (fun _ => c.ClassifiesBelow fuel i)
      (c.messageDecls fuel i)
  | 0, _, _ => Emits.pure trivial
  | fuel + 1, i, modifiers => by
    rw [Source.messageClass]
    refine (c.emits_classifyAll _ _).bind fun fields hfields => ?_
    have hof : c.fieldsOf i = fields := by
      simp [Source.fieldsOf, hfields, Except.toOption]
    apply Emits.of_eq
    · apply (Emits.leading _ _).seq; intro _
      apply Emits.optLine; intro _
      apply Emits.declClass
      apply (Emits.trailing _ _).seq; intro _
      apply Emits.bind (c.emits_fieldMembers _ _ _)
      intro _ _
      -- the constants, the extension ranges, the accessors and `toString` declare nothing
      apply (Emits.forIn_quiet _ ?number).seq
      case number =>
        rintro ⟨f, member⟩ -
        exact (Emits.line _).seq fun _ => Emits.yield
      intro _
      apply (Emits.forIn_quiet _ ?default).seq
      case default =>
        rintro ⟨f, member⟩ -
        dsimp only
        split
        · refine (Emits.onImports (Refers.renderDefault _ _)).seq fun lit => ?_
          split
          · exact (Emits.onImports (Refers.render _ _ _)).seq fun _ =>
              (Emits.line _).seq fun _ => Emits.yield
          · exact Emits.yield
        · exact Emits.yield
      intro _
      apply Emits.blank.seq; intro _
      apply (c.emits_extensionConstants _ _ _).seq; intro _
      apply (Emits.forIn_quiet _ ?range).seq
      case range =>
        rintro ⟨start, stop⟩ -
        exact (Emits.line _).seq fun _ => Emits.yield
      intro _
      apply Emits.blank.seq; intro _
      apply (c.emits_accessors _ _ _).seq
      intro _
      apply (Emits.toStringMethod _ _ _ _).seq; intro _
      apply Emits.blank.seq; intro _
      -- the enums and the nested messages declare their classes
      apply Emits.bind (Emits.forIn (fun e : Nat => [c.enumDecl e]) _ ?enum)
      case enum =>
        intro e _
        exact (c.emits_enumeration e).bind fun _ _ => Emits.blank.seq fun _ => Emits.yield
      intro _ _
      apply Emits.bind (Emits.forAll
        (fun n : Nat => if (!(c.message n).mapEntry) = true then c.messageDecls fuel n else [])
        (fun n => (!(c.message n).mapEntry) = true → c.ClassifiesBelow fuel n) _ ?nested)
      case nested =>
        intro n _
        split
        · exact ((emits_messageClass fuel n _).bind fun _ hc => Emits.blank.seq fun _ =>
            Emits.pure ⟨rfl, fun _ => hc⟩).of_eq (by simp)
        · rename_i hn
          exact (Emits.pure ⟨rfl, fun h => absurd h hn⟩).of_eq (by simp)
      intro _ hnested
      exact Emits.pure ⟨⟨fields, hfields⟩, hnested⟩
    · simp [hof, List.map_eq_flatMap]

theorem registers_declareMessage : ∀ fuel i nested,
    Registers (c.declareMessage fuel i nested) (fun _ => True) (c.messageNames fuel i nested)
  | 0, _, _ => Registers.pure trivial
  | fuel + 1, i, nested => by
    rw [Source.declareMessage]
    apply Registers.of_eq
    · apply Registers.optNested; intro _
      apply Registers.bind (Registers.forIn
        (fun op : Option OneofPlan => (op.map OneofPlan.classes).getD []) _ ?oneof)
      case oneof =>
        -- every oneof plan registers its interface, its case enum and its wrappers
        rintro (_ | op) -
        · exact Registers.yield
        · refine (((Registers.declareNested _).bind fun _ _ =>
            (Registers.declareNested _).bind fun _ _ =>
              (Registers.forIn (fun v : VariantPlan => [v.wrapper]) _ fun _ _ =>
                (Registers.declareNested _).bind fun _ _ => Registers.yield).bind fun _ _ =>
                  Registers.yield)).of_eq ?_
          simp [OneofPlan.classes, List.map_eq_flatMap]
      intro _ _
      apply Registers.bind (Registers.forIn (fun e : Nat => [(c.enumPlan e).className]) _ ?enum)
      case enum =>
        intro e _
        exact (Registers.declareNested _).bind fun _ _ => Registers.yield
      intro _ _
      apply Registers.bind (Registers.forIn
        (fun n : Nat => if (!(c.message n).mapEntry) = true then c.messageNames fuel n true else [])
        _ ?nested)
      case nested =>
        intro n _
        exact (Registers.ite _ ((registers_declareMessage fuel n true).bind fun _ _ =>
          Registers.yield) Registers.yield).of_eq (by simp)
      intro _ _
      exact Registers.pure trivial
    · simp [Source.messageNames, oneofClasses, List.map_eq_flatMap]

/-- The top-level messages of the file other than map entries: each has a value class. -/
def topMessages : List Nat :=
  (c.unit.topLevelMessages.filter fun (_, m) => !m.mapEntry).map (·.1)

/-- The top-level enums of the file. -/
def topEnums : List Nat := c.unit.topLevelEnums.map (·.1)

/-- The value-class files of the file, each as the class it is named after, the classes it
declares and the nested class names it registers. With a wrapper class everything is nested in
it; otherwise each top-level message, each top-level enum and the extension holder has a file
of its own. -/
def beanLayout : List (String × List Decl × List String) :=
  match c.plan.wrapperClass with
  | some wrapper =>
    if (c.topMessages.isEmpty && c.topEnums.isEmpty && c.unit.extensions.isEmpty) = true then []
    else
      [(wrapper,
        ([wrapper], some []) :: (c.topMessages.flatMap (c.messageDecls c.depth) ++
          c.topEnums.map c.enumDecl ++
          c.plan.extensionsClass.toList.map (fun h => ([h], none))).map (Decl.within wrapper),
        c.topMessages.flatMap (fun i => c.messageNames c.depth i true) ++
          c.topEnums.map (fun e => (c.enumPlan e).className) ++ c.plan.extensionsClass.toList)]
  | none =>
    c.topMessages.map (fun i =>
        ((c.messagePlan i).className, c.messageDecls c.depth i, c.messageNames c.depth i false)) ++
      c.topEnums.map (fun e => ((c.enumPlan e).className, [c.enumDecl e], [])) ++
      c.plan.extensionsClass.toList.map (fun h => (h, [([h], none)], []))

end Source

/-- A drafted file agrees with its layout entry: same class, the classes it lists, the nested
class names it lists, and that class declared first. -/
def Draft.Matches (x : String × Draft) (z : String × List Decl × List String) : Prop :=
  x.1 = z.1 ∧ x.2.classes = z.2.1 ∧ (∀ n, n ∈ x.2.imports.nestedNames ↔ n ∈ z.2.2) ∧
    [x.1] <+: x.2.imports.declared

theorem forall₂_of_mapM_eq_ok {α β ε : Type} {f : α → Except ε β} :
    ∀ {xs : List α} {ys : List β}, xs.mapM f = .ok ys → List.Forall₂ (fun x y => f x = .ok y) xs ys
  | [], ys, h => by
    cases h
    exact List.Forall₂.nil
  | x :: xs, ys, h => by
    rw [List.mapM_cons] at h
    cases hx : f x with
    | error e =>
      rw [hx] at h
      cases h
    | ok y =>
      rw [hx] at h
      cases hxs : xs.mapM f with
      | error e =>
        rw [hxs] at h
        cases h
      | ok ys' =>
        rw [hxs] at h
        cases h
        exact List.Forall₂.cons hx (forall₂_of_mapM_eq_ok hxs)

theorem exists_of_forall₂_left {α β : Type} {R : α → β → Prop} :
    ∀ {xs : List α} {ys : List β}, List.Forall₂ R xs ys → ∀ x ∈ xs, ∃ y ∈ ys, R x y
  | _, _, List.Forall₂.nil, _, hx => absurd hx List.not_mem_nil
  | _, _, List.Forall₂.cons hxy hrest, x, hx => by
    rcases List.mem_cons.1 hx with rfl | hx
    · exact ⟨_, List.mem_cons_self, hxy⟩
    · obtain ⟨y, hy, hr⟩ := exists_of_forall₂_left hrest x hx
      exact ⟨y, List.mem_cons_of_mem _ hy, hr⟩

namespace Source

variable (c : Source)

/-- The wrapper class declares itself with the top-level classes nested in it. -/
theorem emits_wrapperClass (wrapper : String) (messages enums : List Nat) :
    Emits (c.wrapperClass wrapper messages enums)
      (fun _ => ∀ i ∈ messages, c.ClassifiesBelow c.depth i)
      (([wrapper], some []) :: (messages.flatMap (c.messageDecls c.depth) ++
        enums.map c.enumDecl ++
        c.plan.extensionsClass.toList.map (fun h => ([h], none))).map (Decl.within wrapper)) := by
  unfold Source.wrapperClass
  apply Emits.of_eq
  · apply Emits.declClass
    apply (Emits.line _).seq; intro _
    apply Emits.blank.seq; intro _
    apply Emits.bind (Emits.forAll (c.messageDecls c.depth) (c.ClassifiesBelow c.depth) _ ?message)
    case message =>
      intro i _
      exact ((c.emits_messageClass _ _ _).bind fun _ hc =>
        Emits.blank.seq fun _ => Emits.pure ⟨rfl, hc⟩).of_eq (List.append_nil _)
    intro _ hmessages
    apply Emits.bind (Emits.forIn (fun e : Nat => [c.enumDecl e]) _ ?enum)
    case enum =>
      intro e _
      exact (c.emits_enumeration e).bind fun _ _ => Emits.blank.seq fun _ => Emits.yield
    intro _ _
    exact (c.emits_extensionsHolder _).mono fun _ _ => hmessages
  · simp [List.map_eq_flatMap]

/-- A file of its own for a top-level message: its class, with the message's nested classes
registered first. -/
theorem builds_messageFile (i : Nat) :
    Builds (do c.declareMessage c.depth i false; c.messageClass c.depth i "public ")
      (fun _ => c.ClassifiesBelow c.depth i) (c.messageDecls c.depth i)
      (c.messageNames c.depth i false) :=
  ((Builds.of_registers (c.registers_declareMessage _ _ _)).bind fun _ _ =>
    Builds.of_emits (c.emits_messageClass _ _ _)).of_eq rfl (List.append_nil _)

/-- The value-class files of a descriptor file are laid out as `beanLayout` says, and the
fields of every message with a value class classify. -/
theorem beanDrafts_layout {drafts : List (String × Draft)} (h : c.beanDrafts = .ok drafts) :
    (∀ t ∈ c.topMessages, c.ClassifiesBelow c.depth t) ∧
      List.Forall₂ Draft.Matches drafts c.beanLayout := by
  unfold Source.beanDrafts at h
  unfold Source.beanLayout
  cases hw : c.plan.wrapperClass with
  | some wrapper =>
    -- one file: the wrapper class, with everything nested in it
    rw [hw] at h
    dsimp only at h ⊢
    split at h
    · rename_i hempty
      cases h
      have hnone : c.topMessages = [] := by
        simp only [Bool.and_eq_true, List.isEmpty_iff] at hempty
        exact hempty.1.1
      rw [if_pos (show (c.topMessages.isEmpty && c.topEnums.isEmpty &&
        c.unit.extensions.isEmpty) = true from hempty), hnone]
      exact ⟨fun _ h => absurd h List.not_mem_nil, List.Forall₂.nil⟩
    rename_i hempty
    rw [if_neg (show ¬(c.topMessages.isEmpty && c.topEnums.isEmpty &&
      c.unit.extensions.isEmpty) = true from hempty)]
    obtain ⟨d, hd, h⟩ := except_bind_eq_ok h
    cases h
    refine And.imp id (fun h => List.Forall₂.cons ⟨rfl, h⟩ List.Forall₂.nil) (Builds.draft ?_ hd)
    apply Builds.of_eq
    · apply Builds.bind (Builds.of_registers
        (Registers.forIn (fun i => c.messageNames c.depth i true) _ ?message))
      case message =>
        intro i _
        exact ((c.registers_declareMessage _ _ _).bind fun _ _ =>
          Registers.yield).of_eq (List.append_nil _)
      intro _ _
      apply Builds.bind (Builds.of_registers
        (Registers.forIn (fun e : Nat => [(c.enumPlan e).className]) _ ?enum))
      case enum =>
        intro e _
        exact (Registers.declareNested _).bind fun _ _ => Registers.yield
      intro _ _
      -- the extension holder, when there is one, is registered before the wrapper is written
      show Builds _ _ _ c.plan.extensionsClass.toList
      cases c.plan.extensionsClass with
      | some holder =>
        exact (Builds.of_registers (Registers.declareNested holder)).bind fun _ _ =>
          Builds.of_emits (c.emits_wrapperClass _ _ _)
      | none => exact Builds.of_emits (c.emits_wrapperClass _ _ _)
    · simp [Source.topMessages, Source.topEnums, List.map_eq_flatMap]
    · simp [Source.topMessages, Source.topEnums, List.map_eq_flatMap]
  | none =>
    -- a file for each top-level message, each top-level enum and the extension holder
    rw [hw] at h
    dsimp only at h ⊢
    obtain ⟨ofMessages, hm, h⟩ := except_bind_eq_ok h
    obtain ⟨ofEnums, he, h⟩ := except_bind_eq_ok h
    have hfiles := forall₂_of_mapM_eq_ok hm
    have hclassifies : ∀ t ∈ c.topMessages, c.ClassifiesBelow c.depth t := by
      intro t ht
      obtain ⟨x, -, hx⟩ := exists_of_forall₂_left hfiles t ht
      obtain ⟨d, hd, -⟩ := except_bind_eq_ok hx
      exact (Builds.draft (c.builds_messageFile t) hd).1
    have hmessages : List.Forall₂ Draft.Matches ofMessages (c.topMessages.map fun i =>
        ((c.messagePlan i).className, c.messageDecls c.depth i, c.messageNames c.depth i false)) := by
      rw [List.forall₂_map_right_iff]
      refine List.Forall₂.imp ?_ hfiles.flip
      intro x i hx
      obtain ⟨d, hd, hx⟩ := except_bind_eq_ok hx
      cases hx
      exact ⟨rfl, (Builds.draft (c.builds_messageFile i) hd).2⟩
    have henums : List.Forall₂ Draft.Matches ofEnums (c.topEnums.map fun e =>
        ((c.enumPlan e).className, [c.enumDecl e], [])) := by
      rw [List.forall₂_map_right_iff]
      refine List.Forall₂.imp ?_ (forall₂_of_mapM_eq_ok he).flip
      intro x e hx
      obtain ⟨d, hd, hx⟩ := except_bind_eq_ok hx
      cases hx
      exact ⟨rfl, (Builds.draft (Builds.of_emits (c.emits_enumeration e)) hd).2⟩
    refine ⟨hclassifies, ?_⟩
    cases hx : c.plan.extensionsClass with
    | none =>
      rw [hx] at h
      cases h
      exact List.rel_append (List.rel_append hmessages henums) List.Forall₂.nil
    | some holder =>
      rw [hx] at h
      obtain ⟨d, hd, h⟩ := except_bind_eq_ok h
      cases h
      have hholder : Builds (c.extensionsHolder "public ") (fun _ => True) [([holder], none)] [] :=
        Builds.of_emits ((c.emits_extensionsHolder _).of_eq (by rw [hx]; rfl))
      exact List.rel_append (List.rel_append hmessages henums)
        (List.Forall₂.cons ⟨rfl, (Builds.draft hholder hd).2⟩ List.Forall₂.nil)

end Source

end BeanCodegen.Emit
