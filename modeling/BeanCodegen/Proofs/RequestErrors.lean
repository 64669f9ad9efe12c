import Mathlib
import BeanCodegen.Compile
import BeanCodegen.Proofs.LateErrors
/-! # Errors of a checked request

Once the stages before the package check pass, a request fails only with an error that
`GenError.IsLate` admits (`compileRequest_late_errors`). The generators fail only where they
classify a field, and every field they classify is a field or extension of a message of the
graph, or an extension of a file, which the reference check has resolved; the package check
resolves the type names of message fields, which the check has resolved too.

Generation steps are followed by `FailsOnly`, with one rule per way the generators compose
their steps and one lemma per generator.
-/

namespace BeanCodegen.Emit

open BeanCodegen.Java BeanCodegen.Schema BeanCodegen.Plan BeanCodegen.Shape

/-- From any draft, `p` fails only with errors satisfying `P`. -/
def FailsOnly (P : GenError → Prop) (p : EmitM α) : Prop := ∀ d, ErrorsIn P (p.run d)

section FailsOnly

variable {P : GenError → Prop} {α β : Type} {p : EmitM α}

theorem FailsOnly.pure (a : α) : FailsOnly P (Pure.pure a : EmitM α) := fun d => ErrorsIn.ok (a, d)

theorem FailsOnly.bind {f : α → EmitM β} (hp : FailsOnly P p) (hf : ∀ a, FailsOnly P (f a)) :
    FailsOnly P (p >>= f) := fun d => by
  rw [StateT.run_bind]
  exact (hp d).bind fun r _ => hf r.1 r.2

theorem FailsOnly.modifyGet (f : Draft → α × Draft) : FailsOnly P (modifyGet f : EmitM α) :=
  fun d => ErrorsIn.ok (f d)

theorem FailsOnly.put (p : Piece) : FailsOnly P (put p) := FailsOnly.modifyGet _

theorem FailsOnly.line (t : String) : FailsOnly P (line t) := FailsOnly.put _

theorem FailsOnly.blank : FailsOnly P blank := FailsOnly.put _

theorem FailsOnly.annotated (path : List Nat) (pre name suf : String) :
    FailsOnly P (annotated path pre name suf) := FailsOnly.put _

theorem FailsOnly.comment (t : Option String) : FailsOnly P (comment t) := FailsOnly.put _

theorem FailsOnly.leading (u : File) (path : List Nat) : FailsOnly P (leading u path) :=
  FailsOnly.comment _

theorem FailsOnly.trailing (u : File) (path : List Nat) : FailsOnly P (trailing u path) :=
  FailsOnly.comment _

theorem FailsOnly.onImports (m : StateM Imports α) : FailsOnly P (onImports m) :=
  FailsOnly.modifyGet _

theorem FailsOnly.nameClass (c : ClassName) : FailsOnly P (nameClass c) := FailsOnly.onImports _

theorem FailsOnly.declareNested (n : String) : FailsOnly P (declareNested n) :=
  FailsOnly.modifyGet _

theorem FailsOnly.liftExcept {r : Except GenError α} (h : ErrorsIn P r) :
    FailsOnly P (liftExcept r) := fun d => by
  show ErrorsIn P (r >>= fun a => Pure.pure (a, d))
  exact h.bind fun _ _ => ErrorsIn.pure _

theorem FailsOnly.ite (c : Prop) [Decidable c] {q : EmitM α} (hp : FailsOnly P p)
    (hq : FailsOnly P q) : FailsOnly P (if c then p else q) := by
  split
  · exact hp
  · exact hq

/-- A step taken only when `c` holds, before the same rest either way. -/
theorem FailsOnly.ite_seq (c : Prop) [Decidable c] {r : EmitM α} (hp : FailsOnly P p)
    (hr : FailsOnly P r) : FailsOnly P (if c then p >>= fun _ => r else r) :=
  FailsOnly.ite c (hp.bind fun _ => hr) hr

/-- A line written only when `b` holds, before the rest. -/
theorem FailsOnly.optLine (b : Bool) (t : String) {k : Unit → EmitM α}
    (hk : ∀ u, FailsOnly P (k u)) :
    FailsOnly P (if b = true then (do let r ← Emit.line t; k r) else k ()) := by
  split
  · exact (FailsOnly.line t).bind hk
  · exact hk ()

theorem FailsOnly.forIn {γ : Type} {f : β → γ → EmitM (ForInStep γ)} :
    ∀ (xs : List β) (b : γ), (∀ x ∈ xs, ∀ b, FailsOnly P (f x b)) → FailsOnly P (forIn xs b f)
  | [], b, _ => by
    rw [List.forIn_nil]
    exact FailsOnly.pure b
  | x :: xs, b, h => by
    rw [List.forIn_cons]
    refine (h x List.mem_cons_self b).bind fun r => ?_
    cases r with
    | done b' => exact FailsOnly.pure b'
    | yield b' => exact FailsOnly.forIn xs b' fun y hy => h y (List.mem_cons_of_mem x hy)

theorem FailsOnly.mapM {f : β → EmitM α} :
    ∀ {l : List β}, (∀ a ∈ l, FailsOnly P (f a)) → FailsOnly P (l.mapM f)
  | [], _ => FailsOnly.pure _
  | a :: l, h => by
    rw [List.mapM_cons]
    exact (h a List.mem_cons_self).bind fun _ =>
      (FailsOnly.mapM fun b hb => h b (List.mem_cons_of_mem a hb)).bind fun _ => FailsOnly.pure _

theorem FailsOnly.filterMapM {f : β → EmitM (Option α)} :
    ∀ {l : List β}, (∀ a ∈ l, FailsOnly P (f a)) → FailsOnly P (l.filterMapM f)
  | [], _ => FailsOnly.pure _
  | a :: l, h => by
    rw [List.filterMapM_cons]
    have hl : FailsOnly P (l.filterMapM f) :=
      FailsOnly.filterMapM fun b hb => h b (List.mem_cons_of_mem a hb)
    refine (h a List.mem_cons_self).bind fun r => ?_
    cases r with
    | none => exact hl
    | some b => exact hl.bind fun _ => FailsOnly.pure _

theorem FailsOnly.inside {inner : EmitM Unit} (h : FailsOnly P inner) :
    FailsOnly P (inside inner) :=
  (FailsOnly.modifyGet _).bind fun _ => h.bind fun _ => FailsOnly.modifyGet _

theorem FailsOnly.body {inner : EmitM Unit} (footer : String) (h : FailsOnly P inner) :
    FailsOnly P (body footer inner) :=
  (FailsOnly.inside h).bind fun _ => FailsOnly.put _

theorem FailsOnly.block {inner : EmitM Unit} (header footer : String) (h : FailsOnly P inner) :
    FailsOnly P (block header footer inner) :=
  (FailsOnly.line _).bind fun _ => FailsOnly.body footer h

theorem FailsOnly.braces {inner : EmitM Unit} (header : String) (h : FailsOnly P inner) :
    FailsOnly P (braces header inner) :=
  FailsOnly.block _ _ h

theorem FailsOnly.declClass {inner : EmitM Unit} (path : Option (List Nat)) (pre name suf : String)
    (h : FailsOnly P inner) : FailsOnly P (declClass path pre name suf inner) :=
  (FailsOnly.inside h).bind fun _ => FailsOnly.put _

/-- A file drafted by steps that fail only with `P` fails only with `P`. -/
theorem FailsOnly.draft {steps : EmitM Unit} (pkg : String) (declared : List String)
    (h : FailsOnly P steps) : ErrorsIn P (draft pkg declared steps) :=
  (h _).map _

end FailsOnly

/-! ## Steps that never fail -/

section Total

variable {P : GenError → Prop}

/-- One line per variant: the constants of a case enum and the cases of its switch. -/
theorem FailsOnly.variantLines {line : VariantPlan → String} (vs : List VariantPlan) :
    FailsOnly P (ForIn.forIn vs PUnit.unit fun v _ => do
      Emit.line (line v)
      Pure.pure (ForInStep.yield PUnit.unit)) :=
  FailsOnly.forIn vs _ fun _ _ _ => (FailsOnly.line _).bind fun _ => FailsOnly.pure _

theorem FailsOnly.showValue (f : Classified) (expr : String) :
    FailsOnly P (showValue f expr) := by
  unfold Emit.showValue
  split <;> first
    | exact FailsOnly.pure _
    | exact (FailsOnly.nameClass _).bind fun _ => FailsOnly.pure _

theorem FailsOnly.showParts (oneofs : List (Option OneofPlan)) :
    ∀ (xs : List (Classified × MemberPlan)) (seen : List Nat),
      FailsOnly P (showParts oneofs xs seen)
  | [], _ => FailsOnly.pure _
  | (f, member) :: rest, seen => by
    unfold Emit.showParts
    split
    · split
      · split
        · exact FailsOnly.showParts oneofs rest seen
        · exact (FailsOnly.showParts oneofs rest _).bind fun _ => FailsOnly.pure _
      · exact FailsOnly.showParts oneofs rest seen
    · exact (FailsOnly.showValue f _).bind fun _ =>
        (FailsOnly.showParts oneofs rest seen).bind fun _ => FailsOnly.pure _

theorem FailsOnly.toStringMethod (cls : String) (fields : List Classified)
    (members : List MemberPlan) (oneofs : List (Option OneofPlan)) :
    FailsOnly P (Source.toStringMethod cls fields members oneofs) := by
  unfold Source.toStringMethod
  refine (FailsOnly.showParts _ _ _).bind fun parts => (FailsOnly.line _).bind fun _ => ?_
  refine FailsOnly.braces _ ?_
  split
  · exact FailsOnly.line _
  · refine (FailsOnly.line _).bind fun _ => (FailsOnly.forIn _ _ fun x _ _ => ?_).bind fun _ =>
      FailsOnly.line _
    obtain ⟨⟨label, expr⟩, j⟩ := x
    exact (FailsOnly.line _).bind fun _ => FailsOnly.pure _

theorem FailsOnly.switchOn (selector : String) (arms : List (String × List String)) :
    FailsOnly P (switchOn selector arms) := by
  unfold Emit.switchOn
  refine FailsOnly.braces _ ((FailsOnly.forIn _ _ fun x _ _ => ?_).bind fun _ =>
    (FailsOnly.line _).bind fun _ => FailsOnly.line _)
  obtain ⟨label, stmts⟩ := x
  refine (FailsOnly.line _).bind fun _ => (FailsOnly.forIn _ _ fun _ _ _ => ?_).bind fun _ =>
    (FailsOnly.line _).bind fun _ => FailsOnly.pure _
  exact (FailsOnly.line _).bind fun _ => FailsOnly.pure _

namespace Source

variable (c : Source)

theorem failsOnly_declareMessage :
    ∀ fuel i nested, FailsOnly P (c.declareMessage fuel i nested)
  | 0, _, _ => FailsOnly.pure _
  | fuel + 1, i, nested => by
    rw [Source.declareMessage]
    dsimp only
    -- a nested class declares its own name first; the members are declared either way
    refine FailsOnly.ite_seq _ (FailsOnly.declareNested _) ?_
    refine (FailsOnly.forIn _ _ fun op _ _ => ?_).bind fun _ => ?_
    · split
      · refine (FailsOnly.declareNested _).bind fun _ =>
          (FailsOnly.declareNested _).bind fun _ => ?_
        exact (FailsOnly.forIn _ _ fun _ _ _ => (FailsOnly.declareNested _).bind fun _ =>
          FailsOnly.pure _).bind fun _ => FailsOnly.pure _
      · exact FailsOnly.pure _
    refine (FailsOnly.forIn _ _ fun _ _ _ => (FailsOnly.declareNested _).bind fun _ =>
      FailsOnly.pure _).bind fun _ => ?_
    refine (FailsOnly.forIn _ _ fun n _ _ => ?_).bind fun _ => FailsOnly.pure _
    split
    · exact (failsOnly_declareMessage fuel n true).bind fun _ => FailsOnly.pure _
    · exact FailsOnly.pure _

theorem failsOnly_fieldMember (f : Classified) (member : MemberPlan) :
    FailsOnly P (c.fieldMember f member) := by
  unfold Source.fieldMember
  dsimp only
  refine (FailsOnly.leading _ _).bind fun _ => (FailsOnly.line _).bind fun _ => ?_
  refine FailsOnly.optLine _ _ fun _ => ?_
  refine (FailsOnly.onImports _).bind fun _ => (FailsOnly.onImports _).bind fun _ => ?_
  exact (FailsOnly.annotated _ _ _ _).bind fun _ => FailsOnly.trailing _ _

theorem failsOnly_oneofMembers (g : Oneof) (op : OneofPlan) (fields : List Classified)
    (members : List MemberPlan) : FailsOnly P (c.oneofMembers g op fields members) := by
  unfold Source.oneofMembers
  dsimp only
  refine (FailsOnly.leading _ _).bind fun _ => ?_
  -- the case enum: its constants, its number and its lookup by number
  refine (FailsOnly.declClass _ _ _ _ ?_).bind fun _ => ?_
  · refine (FailsOnly.variantLines _).bind fun _ => (FailsOnly.line _).bind fun _ => ?_
    refine FailsOnly.blank.bind fun _ => (FailsOnly.line _).bind fun _ => ?_
    refine FailsOnly.blank.bind fun _ => (FailsOnly.braces _ (FailsOnly.line _)).bind fun _ => ?_
    refine FailsOnly.blank.bind fun _ => (FailsOnly.braces _ (FailsOnly.line _)).bind fun _ => ?_
    refine FailsOnly.blank.bind fun _ => FailsOnly.braces _ (FailsOnly.braces _ ?_)
    exact (FailsOnly.variantLines _).bind fun _ => (FailsOnly.line _).bind fun _ =>
      FailsOnly.line _
  refine FailsOnly.blank.bind fun _ =>
    (FailsOnly.declClass _ _ _ _ (FailsOnly.line _)).bind fun _ => FailsOnly.blank.bind fun _ => ?_
  refine (FailsOnly.forIn _ _ fun v _ _ => ?_).bind fun _ => FailsOnly.annotated _ _ _ _
  -- a wrapper class per variant
  refine (FailsOnly.onImports _).bind fun _ => (FailsOnly.showValue _ _).bind fun _ => ?_
  refine (FailsOnly.leading _ _).bind fun _ => (FailsOnly.line _).bind fun _ => ?_
  refine FailsOnly.optLine _ _ fun _ => ?_
  refine (FailsOnly.declClass _ _ _ _ ?_).bind fun _ => FailsOnly.blank.bind fun _ =>
    FailsOnly.pure _
  refine (FailsOnly.annotated _ _ _ _).bind fun _ => FailsOnly.blank.bind fun _ => ?_
  refine (FailsOnly.braces _ (FailsOnly.line _)).bind fun _ => FailsOnly.blank.bind fun _ => ?_
  refine (FailsOnly.line _).bind fun _ => (FailsOnly.braces _ (FailsOnly.line _)).bind fun _ => ?_
  refine FailsOnly.blank.bind fun _ => (FailsOnly.line _).bind fun _ => ?_
  exact FailsOnly.braces _ (FailsOnly.line _)

theorem failsOnly_oneofAccessors (g : Oneof) (op : OneofPlan) (fields : List Classified)
    (members : List MemberPlan) : FailsOnly P (c.oneofAccessors g op fields members) := by
  unfold Source.oneofAccessors
  dsimp only
  refine (FailsOnly.annotated _ _ _ _).bind fun _ =>
    (FailsOnly.body _ (FailsOnly.line _)).bind fun _ => ?_
  refine FailsOnly.blank.bind fun _ => (FailsOnly.forIn _ _ fun v _ _ => ?_).bind fun _ =>
    FailsOnly.pure _
  -- a setter and a getter per variant
  refine (FailsOnly.onImports _).bind fun _ => (FailsOnly.onImports _).bind fun _ => ?_
  refine (FailsOnly.braces _ (FailsOnly.line _)).bind fun _ => FailsOnly.blank.bind fun _ => ?_
  exact (FailsOnly.braces _ (FailsOnly.line _)).bind fun _ => FailsOnly.blank.bind fun _ =>
    FailsOnly.pure _

theorem failsOnly_enumeration (i : Nat) : FailsOnly P (c.enumeration i) := by
  unfold Source.enumeration
  dsimp only
  refine (FailsOnly.leading _ _).bind fun _ => FailsOnly.optLine _ _ fun _ => ?_
  refine FailsOnly.declClass _ _ _ _ ?_
  refine (FailsOnly.trailing _ _).bind fun _ => FailsOnly.optLine _ _ fun _ => ?_
  refine (FailsOnly.forIn _ _ fun x _ _ => ?_).bind fun _ => ?_
  · -- a constant per value, an alias marked as such
    obtain ⟨⟨v, k⟩, j⟩ := x
    refine (FailsOnly.leading _ _).bind fun _ => ?_
    split <;> try refine (FailsOnly.line _).bind fun _ => ?_
    all_goals exact FailsOnly.optLine _ _ fun _ => (FailsOnly.annotated _ _ _ _).bind fun _ =>
      (FailsOnly.trailing _ _).bind fun _ => FailsOnly.pure _
  refine FailsOnly.blank.bind fun _ => (FailsOnly.line _).bind fun _ => ?_
  refine FailsOnly.blank.bind fun _ => (FailsOnly.braces _ (FailsOnly.line _)).bind fun _ => ?_
  refine FailsOnly.blank.bind fun _ => (FailsOnly.braces _ (FailsOnly.line _)).bind fun _ => ?_
  refine FailsOnly.blank.bind fun _ => FailsOnly.braces _ (FailsOnly.braces _ ?_)
  refine (FailsOnly.forIn _ _ fun x _ _ => ?_).bind fun _ => FailsOnly.line _
  obtain ⟨v, k⟩ := x
  split
  · exact (FailsOnly.line _).bind fun _ => FailsOnly.pure _
  · exact FailsOnly.pure _

theorem failsOnly_beanClass (id : MessageId) : FailsOnly P (c.beanClass id) :=
  FailsOnly.nameClass _

theorem failsOnly_protoClass (id : MessageId) : FailsOnly P (c.protoClass id) :=
  FailsOnly.nameClass _

theorem failsOnly_call (id : MessageId) (method arg : String) :
    FailsOnly P (c.call id method arg) := by
  unfold Source.call
  split
  · exact FailsOnly.pure _
  · exact (FailsOnly.nameClass _).bind fun _ => FailsOnly.pure _

theorem failsOnly_protoElement (v : ValueKind) : FailsOnly P (c.protoElement v) := by
  unfold Source.protoElement
  split
  · exact FailsOnly.nameClass _
  · exact FailsOnly.pure _
  · exact c.failsOnly_protoClass _
  · split
    · exact FailsOnly.pure _
    · exact FailsOnly.nameClass _

theorem failsOnly_decodeValue (v : ValueKind) (expr : String) :
    FailsOnly P (c.decodeValue v expr) := by
  unfold Source.decodeValue
  split
  · exact FailsOnly.pure _
  · exact FailsOnly.pure _
  · exact c.failsOnly_call _ _ _
  · refine (FailsOnly.nameClass _).bind fun _ => ?_
    split <;> exact FailsOnly.pure _

theorem failsOnly_encodeValue (v : ValueKind) (expr : String) :
    FailsOnly P (c.encodeValue v expr) := by
  unfold Source.encodeValue
  split
  · exact (FailsOnly.nameClass _).bind fun _ => FailsOnly.pure _
  · exact FailsOnly.pure _
  · exact c.failsOnly_call _ _ _
  · split
    · exact FailsOnly.pure _
    · exact (FailsOnly.nameClass _).bind fun _ => FailsOnly.pure _

theorem failsOnly_parseBytes (id : MessageId) : FailsOnly P (c.parseBytes id) := by
  unfold Source.parseBytes
  refine (c.failsOnly_beanClass _).bind fun _ => (c.failsOnly_protoClass _).bind fun _ => ?_
  refine (FailsOnly.nameClass _).bind fun _ => FailsOnly.braces _ ?_
  exact (FailsOnly.block _ _ (FailsOnly.line _)).bind fun _ =>
    FailsOnly.body _ ((FailsOnly.line _).bind fun _ => FailsOnly.line _)

theorem failsOnly_decodeSingle (f : Classified) (v : ValueKind) (stem target : String) :
    FailsOnly P (c.decodeSingle f v stem target) := by
  unfold Source.decodeSingle
  exact (c.failsOnly_decodeValue _ _).bind fun _ =>
    FailsOnly.ite _ (FailsOnly.braces _ (FailsOnly.line _)) (FailsOnly.line _)

theorem failsOnly_decodeEntries (key : Scalar) (value : ValueKind) (stem target : String) :
    FailsOnly P (c.decodeEntries key value stem target) := by
  unfold Source.decodeEntries
  refine (FailsOnly.nameClass _).bind fun _ => (c.failsOnly_protoElement _).bind fun _ => ?_
  exact (c.failsOnly_decodeValue _ _).bind fun _ => FailsOnly.braces _ (FailsOnly.line _)

theorem failsOnly_decodeField (f : Classified) (member : MemberPlan) :
    FailsOnly P (c.decodeField f member) := by
  unfold Source.decodeField
  dsimp only
  -- the loop copying the elements of a repeated field
  have each : ∀ (v : ValueKind) (header : String → String) (body : String → String),
      FailsOnly P (do
        let element ← c.protoElement v
        let item ← c.decodeValue v "item"
        braces (header element) (line (body item))) := fun v _ _ =>
    (c.failsOnly_protoElement v).bind fun _ => (c.failsOnly_decodeValue _ _).bind fun _ =>
      FailsOnly.braces _ (FailsOnly.line _)
  split
  · exact c.failsOnly_decodeSingle _ _ _ _
  · exact c.failsOnly_decodeSingle _ _ _ _
  · exact c.failsOnly_decodeSingle _ _ _ _
  · split
    · exact FailsOnly.line _
    · exact each _ _ _
  · exact each _ _ _
  · exact each _ _ _
  · split
    · split
      · exact FailsOnly.line _
      · exact c.failsOnly_decodeEntries _ _ _ _
    · exact c.failsOnly_decodeEntries _ _ _ _
  · exact FailsOnly.pure _
  · exact FailsOnly.pure _

theorem failsOnly_decodeOneof (op : OneofPlan) (fields : List Classified)
    (members : List MemberPlan) : FailsOnly P (c.decodeOneof op fields members) := by
  unfold Source.decodeOneof
  refine (FailsOnly.filterMapM fun v _ => ?_).bind fun _ => FailsOnly.switchOn _ _
  split
  · exact FailsOnly.pure _
  · exact (c.failsOnly_decodeValue _ _).bind fun _ => FailsOnly.pure _

theorem failsOnly_encodeSingle (v : ValueKind) (stem source : String) :
    FailsOnly P (c.encodeSingle v stem source) :=
  (c.failsOnly_encodeValue _ _).bind fun _ => FailsOnly.braces _ (FailsOnly.line _)

theorem failsOnly_encodeEntries (key : Scalar) (value : ValueKind) (stem source : String) :
    FailsOnly P (c.encodeEntries key value stem source) := by
  unfold Source.encodeEntries
  refine (FailsOnly.nameClass _).bind fun _ => (FailsOnly.onImports _).bind fun _ => ?_
  exact (c.failsOnly_encodeValue _ _).bind fun _ =>
    FailsOnly.braces _ (FailsOnly.braces _ (FailsOnly.line _))

theorem failsOnly_encodeField (f : Classified) (member : MemberPlan) :
    FailsOnly P (c.encodeField f member) := by
  unfold Source.encodeField
  dsimp only
  -- the loop copying the elements of a repeated field, under a null check
  have each : ∀ (v : ValueKind) (header : String → String) (body : String → String)
      (check : String), FailsOnly P (do
        let element ← onImports (v.render c.session true)
        let item ← c.encodeValue v "item"
        braces check (braces (header element) (line (body item)))) := fun v _ _ _ =>
    (FailsOnly.onImports _).bind fun _ => (c.failsOnly_encodeValue v _).bind fun _ =>
      FailsOnly.braces _ (FailsOnly.braces _ (FailsOnly.line _))
  split
  · refine (c.failsOnly_encodeValue _ _).bind fun _ => ?_
    split
    · exact FailsOnly.line _
    · exact FailsOnly.braces _ (FailsOnly.line _)
  · exact c.failsOnly_encodeSingle _ _ _
  · exact c.failsOnly_encodeSingle _ _ _
  · split
    · exact FailsOnly.braces _ (FailsOnly.line _)
    · exact each _ _ _ _
  · exact each _ _ _ _
  · exact each _ _ _ _
  · split
    · split
      · exact FailsOnly.braces _ (FailsOnly.line _)
      · exact c.failsOnly_encodeEntries _ _ _ _
    · exact c.failsOnly_encodeEntries _ _ _ _
  · exact FailsOnly.pure _
  · exact FailsOnly.pure _

theorem failsOnly_encodeOneof (op : OneofPlan) (fields : List Classified)
    (members : List MemberPlan) : FailsOnly P (c.encodeOneof op fields members) := by
  unfold Source.encodeOneof
  refine (FailsOnly.filterMapM fun v _ => ?_).bind fun _ => FailsOnly.switchOn _ _
  split
  · exact FailsOnly.pure _
  · exact (c.failsOnly_encodeValue _ _).bind fun _ => FailsOnly.pure _

theorem failsOnly_encodeBytes (id : MessageId) : FailsOnly P (c.encodeBytes id) :=
  (c.failsOnly_beanClass _).bind fun _ => FailsOnly.braces _ (FailsOnly.line _)

theorem failsOnly_fieldMembers (m : Message) (mp : MessagePlan) (fields : List Classified) :
    FailsOnly P (c.fieldMembers m mp fields) := by
  unfold Source.fieldMembers
  refine (FailsOnly.forIn _ _ fun x _ _ => ?_).bind fun _ => FailsOnly.pure _
  obtain ⟨f, member⟩ := x
  dsimp only
  -- a oneof is written at its first member, any other field as a member of its own
  split
  · split
    · split
      · exact (c.failsOnly_oneofMembers _ _ _ _).bind fun _ => FailsOnly.blank.bind fun _ =>
          FailsOnly.pure _
      · exact FailsOnly.pure _
    · exact FailsOnly.pure _
  · exact (c.failsOnly_fieldMember _ _).bind fun _ => FailsOnly.blank.bind fun _ =>
      FailsOnly.pure _

theorem failsOnly_accessors (m : Message) (mp : MessagePlan) (fields : List Classified) :
    FailsOnly P (c.accessors m mp fields) := by
  unfold Source.accessors
  refine (FailsOnly.forIn _ _ ?_).bind fun _ => FailsOnly.pure _
  rintro ⟨g, _ | op⟩ - _
  · exact FailsOnly.pure _
  · exact (c.failsOnly_oneofAccessors g op _ _).bind fun _ => FailsOnly.pure _

theorem failsOnly_decodeMembers (mp : MessagePlan) (fields : List Classified) :
    FailsOnly P (c.decodeMembers mp fields) := by
  unfold Source.decodeMembers
  refine (FailsOnly.forIn _ _ fun x _ _ => ?_).bind fun _ => FailsOnly.pure _
  obtain ⟨f, member⟩ := x
  dsimp only
  split
  · split
    · split
      · exact (c.failsOnly_decodeOneof _ _ _).bind fun _ => FailsOnly.pure _
      · exact FailsOnly.pure _
    · exact FailsOnly.pure _
  · exact (c.failsOnly_decodeField _ _).bind fun _ => FailsOnly.pure _

theorem failsOnly_encodeMembers (mp : MessagePlan) (fields : List Classified) :
    FailsOnly P (c.encodeMembers mp fields) := by
  unfold Source.encodeMembers
  refine (FailsOnly.forIn _ _ fun x _ _ => ?_).bind fun _ => FailsOnly.pure _
  obtain ⟨f, member⟩ := x
  dsimp only
  split
  · split
    · split
      · exact (c.failsOnly_encodeOneof _ _ _).bind fun _ => FailsOnly.pure _
      · exact FailsOnly.pure _
    · exact FailsOnly.pure _
  · exact (c.failsOnly_encodeField _ _).bind fun _ => FailsOnly.pure _

end Source

end Total

/-! ## Steps that classify fields -/

namespace Source

variable (c : Source)

theorem field_mem_checkedFields {i : Nat} {f : Field} (hf : f ∈ (c.message i).fields) :
    f ∈ c.session.graph.checkedFields :=
  Graph.mem_checkedFields_of_message (List.mem_append_left _ hf)

theorem extension_mem_checkedFields {i : Nat} {f : Field} (hf : f ∈ (c.message i).extensions) :
    f ∈ c.session.graph.checkedFields :=
  Graph.mem_checkedFields_of_message (List.mem_append_right _ hf)

theorem unitExtension_mem_checkedFields {f : Field} (hf : f ∈ c.unit.extensions) :
    f ∈ c.session.graph.checkedFields :=
  Graph.mem_checkedFields_of_file hf

section Checked

variable (hc : c.session.index.Resolves c.session.graph)
include hc

theorem failsOnly_classify (scope : Option Message) {f : Field}
    (hf : f ∈ c.session.graph.checkedFields) : FailsOnly GenError.IsLate (c.classify scope f) :=
  FailsOnly.liftExcept (classify_errorsIn hc scope hf)

theorem failsOnly_classifyFields (i : Nat) :
    FailsOnly GenError.IsLate ((c.message i).fields.mapM (c.classify (some (c.message i)))) :=
  FailsOnly.mapM fun _ hf => c.failsOnly_classify hc _ (c.field_mem_checkedFields hf)

theorem failsOnly_extensionConstants (scope : Option Message) (exts : List Field)
    (plans : List ExtensionPlan) (hexts : ∀ f ∈ exts, f ∈ c.session.graph.checkedFields) :
    FailsOnly GenError.IsLate (c.extensionConstants scope exts plans) := by
  unfold Source.extensionConstants
  refine (FailsOnly.forIn _ _ fun x hx _ => ?_).bind fun _ => FailsOnly.pure _
  obtain ⟨ext, ep⟩ := x
  refine (c.failsOnly_classify hc scope (hexts ext (List.of_mem_zip hx).1)).bind fun f => ?_
  split
  · refine (FailsOnly.leading _ _).bind fun _ => (FailsOnly.line _).bind fun _ => ?_
    refine (FailsOnly.annotated _ _ _ _).bind fun _ => (FailsOnly.line _).bind fun _ => ?_
    exact FailsOnly.blank.bind fun _ => FailsOnly.pure _
  · exact FailsOnly.pure _

theorem failsOnly_extensionsHolder (modifiers : String) :
    FailsOnly GenError.IsLate (c.extensionsHolder modifiers) := by
  unfold Source.extensionsHolder
  split
  · exact FailsOnly.pure _
  · refine FailsOnly.declClass _ _ _ _ ((FailsOnly.line _).bind fun _ => FailsOnly.blank.bind
      fun _ => ?_)
    exact c.failsOnly_extensionConstants hc _ _ _ fun _ hf => c.unitExtension_mem_checkedFields hf

/-- The class of a message fails only where it classifies a field or an extension of the
message or of a message nested in it. -/
theorem failsOnly_messageClass :
    ∀ fuel i modifiers, FailsOnly GenError.IsLate (c.messageClass fuel i modifiers)
  | 0, _, _ => FailsOnly.pure _
  | fuel + 1, i, modifiers => by
    rw [Source.messageClass]
    refine (c.failsOnly_classifyFields hc i).bind fun fields => ?_
    refine (FailsOnly.leading _ _).bind fun _ => FailsOnly.optLine _ _ fun _ => ?_
    refine FailsOnly.declClass _ _ _ _ ?_
    refine (FailsOnly.trailing _ _).bind fun _ => (c.failsOnly_fieldMembers _ _ _).bind fun _ => ?_
    refine (FailsOnly.forIn _ _ fun _ _ _ => (FailsOnly.line _).bind fun _ =>
      FailsOnly.pure _).bind fun _ => (FailsOnly.forIn _ _ ?default).bind fun _ => ?_
    case default =>
      rintro ⟨f, member⟩ - _
      dsimp only
      split
      · refine (FailsOnly.onImports _).bind fun lit => ?_
        split
        · exact (FailsOnly.onImports _).bind fun _ => (FailsOnly.line _).bind fun _ =>
            FailsOnly.pure _
        · exact FailsOnly.pure _
      · exact FailsOnly.pure _
    refine FailsOnly.blank.bind fun _ => (c.failsOnly_extensionConstants hc _ _ _
      fun _ hf => c.extension_mem_checkedFields hf).bind fun _ => ?_
    refine (FailsOnly.forIn _ _ fun _ _ _ => (FailsOnly.line _).bind fun _ =>
      FailsOnly.pure _).bind fun _ => FailsOnly.blank.bind fun _ => ?_
    refine (c.failsOnly_accessors _ _ _).bind fun _ => ?_
    refine (FailsOnly.toStringMethod _ _ _ _).bind fun _ => FailsOnly.blank.bind fun _ => ?_
    refine (FailsOnly.forIn _ _ fun e _ _ => (c.failsOnly_enumeration e).bind fun _ =>
      FailsOnly.blank.bind fun _ => FailsOnly.pure _).bind fun _ => ?_
    -- the nested messages, with one less level of fuel
    refine (FailsOnly.forIn _ _ fun n _ _ => ?_).bind fun _ => FailsOnly.pure _
    split
    · exact (failsOnly_messageClass fuel n _).bind fun _ => FailsOnly.blank.bind fun _ =>
        FailsOnly.pure _
    · exact FailsOnly.pure _

theorem failsOnly_wrapperClass (wrapper : String) (messages enums : List Nat) :
    FailsOnly GenError.IsLate (c.wrapperClass wrapper messages enums) := by
  unfold Source.wrapperClass
  refine FailsOnly.declClass _ _ _ _ ((FailsOnly.line _).bind fun _ => FailsOnly.blank.bind
    fun _ => ?_)
  refine (FailsOnly.forIn _ _ fun _ _ _ => (c.failsOnly_messageClass hc _ _ _).bind fun _ =>
    FailsOnly.blank.bind fun _ => FailsOnly.pure _).bind fun _ => ?_
  refine (FailsOnly.forIn _ _ fun e _ _ => (c.failsOnly_enumeration e).bind fun _ =>
    FailsOnly.blank.bind fun _ => FailsOnly.pure _).bind fun _ => ?_
  exact c.failsOnly_extensionsHolder hc _

theorem beanDrafts_errorsIn : ErrorsIn GenError.IsLate c.beanDrafts := by
  unfold Source.beanDrafts
  dsimp only
  split
  · -- one wrapper class holding everything
    split
    · exact ErrorsIn.pure _
    · refine (FailsOnly.draft _ _ ?_).bind fun _ _ => ErrorsIn.pure _
      refine (FailsOnly.forIn _ _ fun _ _ _ => (c.failsOnly_declareMessage _ _ _).bind fun _ =>
        FailsOnly.pure _).bind fun _ => ?_
      refine (FailsOnly.forIn _ _ fun _ _ _ => (FailsOnly.declareNested _).bind fun _ =>
        FailsOnly.pure _).bind fun _ => ?_
      split
      · exact (FailsOnly.declareNested _).bind fun _ => c.failsOnly_wrapperClass hc _ _ _
      · exact c.failsOnly_wrapperClass hc _ _ _
  · -- a file per top-level message and enum, and one for the extension holder
    refine (ErrorsIn.mapM fun i _ => ?_).bind fun _ _ => (ErrorsIn.mapM fun e _ => ?_).bind
      fun _ _ => ?_
    · exact (FailsOnly.draft _ _ ((c.failsOnly_declareMessage _ _ _).bind fun _ =>
        c.failsOnly_messageClass hc _ _ _)).bind fun _ _ => ErrorsIn.pure _
    · exact (FailsOnly.draft _ _ (c.failsOnly_enumeration e)).bind fun _ _ => ErrorsIn.pure _
    split
    · exact (ErrorsIn.pure _).bind fun _ _ => ErrorsIn.pure _
    · exact (FailsOnly.draft _ _ (c.failsOnly_extensionsHolder hc _)).bind fun _ _ =>
        (ErrorsIn.pure _).bind fun _ _ => ErrorsIn.pure _

theorem beanFiles_errorsIn : ErrorsIn GenError.IsLate c.beanFiles :=
  (c.beanDrafts_errorsIn hc).map _

theorem failsOnly_classified (id : MessageId) : FailsOnly GenError.IsLate (c.classified id) :=
  c.failsOnly_classifyFields hc id.index

theorem failsOnly_decode (id : MessageId) : FailsOnly GenError.IsLate (c.decode id) := by
  unfold Source.decode
  refine (c.failsOnly_classified hc id).bind fun fields => (c.failsOnly_beanClass _).bind
    fun _ => (c.failsOnly_protoClass _).bind fun _ => ?_
  refine (FailsOnly.annotated _ _ _ _).bind fun _ => FailsOnly.body _ ?_
  refine (FailsOnly.braces _ (FailsOnly.line _)).bind fun _ => (FailsOnly.line _).bind fun _ => ?_
  exact (c.failsOnly_decodeMembers _ _).bind fun _ => FailsOnly.line _

theorem failsOnly_encode (id : MessageId) : FailsOnly GenError.IsLate (c.encode id) := by
  unfold Source.encode
  refine (c.failsOnly_classified hc id).bind fun fields => (c.failsOnly_beanClass _).bind
    fun _ => (c.failsOnly_protoClass _).bind fun _ => FailsOnly.braces _ ?_
  refine (FailsOnly.braces _ (FailsOnly.line _)).bind fun _ => (FailsOnly.line _).bind fun _ => ?_
  exact (c.failsOnly_encodeMembers _ _).bind fun _ => FailsOnly.line _

theorem converterFile_errorsIn : ErrorsIn GenError.IsLate c.converterFile := by
  unfold Source.converterFile
  dsimp only
  split
  · exact ErrorsIn.pure _
  · refine (FailsOnly.draft _ _ ?_).bind fun _ _ => ErrorsIn.pure _
    refine (FailsOnly.annotated _ _ _ _).bind fun _ => FailsOnly.body _ ?_
    refine (FailsOnly.forIn _ _ fun i _ _ => ?_).bind fun _ => FailsOnly.pure _
    -- a top-level message also reads from and writes to bytes
    split
    · refine (c.failsOnly_parseBytes _).bind fun _ => FailsOnly.blank.bind fun _ => ?_
      refine (c.failsOnly_decode hc _).bind fun _ => FailsOnly.blank.bind fun _ => ?_
      refine (c.failsOnly_encode hc _).bind fun _ => FailsOnly.blank.bind fun _ => ?_
      exact (c.failsOnly_encodeBytes _).bind fun _ => FailsOnly.blank.bind fun _ =>
        FailsOnly.pure _
    · refine (c.failsOnly_decode hc _).bind fun _ => FailsOnly.blank.bind fun _ => ?_
      exact (c.failsOnly_encode hc _).bind fun _ => FailsOnly.blank.bind fun _ => FailsOnly.pure _

end Checked

end Source

end BeanCodegen.Emit

namespace BeanCodegen

open BeanCodegen.Schema BeanCodegen.Shape BeanCodegen.Emit BeanCodegen.Descriptor

/-- The files a converter names never fail to resolve: the check has resolved the type name of
every field of every message of the file. -/
theorem referencedFiles_errorsIn {P : GenError → Prop} {g : Graph} {idx : TypeIndex}
    (hidx : idx.Resolves g) (k : Nat) : ErrorsIn P (referencedFiles idx (g.file k) k) := by
  unfold referencedFiles
  refine (ErrorsIn.filterMapM fun f hf => ?_).bind fun _ _ => ErrorsIn.pure _
  obtain ⟨hmf, hn⟩ := List.mem_filter.1 hf
  obtain ⟨m, hm, hfm⟩ := List.mem_flatMap.1 hmf
  obtain ⟨t, ht⟩ := TypeIndex.resolve_of_isNamed
    (hidx f (Graph.mem_checkedFields_of_mem hm (List.mem_append_left _ hfm))) hn
  rw [ht]
  refine ErrorsIn.bind (ErrorsIn.ok t) fun _ _ => ?_
  split <;> exact ErrorsIn.pure _

/-- The package check fails only for a converter that would need the unnamed package. -/
theorem checkJavaPackages_errorsIn {s : Session} (hs : s.index.Resolves s.graph) :
    ErrorsIn GenError.IsLate (checkJavaPackages s) := by
  unfold checkJavaPackages
  refine ErrorsIn.forM fun file _ => ?_
  dsimp only
  split
  · refine (referencedFiles_errorsIn hs file).bind fun _ _ => ?_
    split
    · exact ErrorsIn.throw trivial
    · exact ErrorsIn.pure _
  · exact ErrorsIn.pure _

/-- Writing the files of a session whose references resolve fails only where classifying a
field does, or where a written file fails its check. -/
theorem Session.artifacts_errorsIn {s : Session} (hs : s.index.Resolves s.graph) :
    ErrorsIn GenError.IsLate s.artifacts := by
  unfold Session.artifacts
  refine (ErrorsIn.flatMapM fun file _ => Source.beanFiles_errorsIn ⟨s, file⟩ hs).bind
    fun _ _ => (ErrorsIn.filterMapM fun file _ => Source.converterFile_errorsIn ⟨s, file⟩ hs).bind
      fun _ _ => ?_
  refine (ErrorsIn.forM fun a _ => ?_).bind fun _ _ => ErrorsIn.pure _
  split
  · exact ErrorsIn.throw trivial
  · exact ErrorsIn.pure _

/-- A checked session is built from the request: its graph, its files to generate, its plans,
its configuration, and an index that resolves every reference. -/
theorem Session.checked_parts {r : Request} {s : Session} (hs : Session.checked r = .ok s) :
    Graph.build r.protoFile = .ok s.graph ∧
      resolveFiles s.graph r.fileToGenerate = .ok s.genFiles ∧
      s.alloc = Plan.allocate s.config s.graph s.genFiles ∧
      Config.parse (r.parameter.getD "") = .ok s.config ∧
      s.index.checkReferences s.graph = .ok () := by
  unfold Session.checked at hs
  obtain ⟨config, hc, hs⟩ := except_bind_eq_ok hs
  obtain ⟨graph, hg, hs⟩ := except_bind_eq_ok hs
  simp only at hs
  split at hs
  · -- no file to generate
    obtain ⟨_, hthrow, -⟩ := except_bind_eq_ok hs
    cases hthrow
  obtain ⟨genFiles, hgen, hs⟩ := except_bind_eq_ok hs
  obtain ⟨u, hchk, hs⟩ := except_bind_eq_ok hs
  cases hs
  exact ⟨mapError_eq_ok hg, hgen, rfl, mapError_eq_ok hc, mapError_eq_ok hchk⟩

/-- A checked session has passed the reference check. -/
theorem Session.checked_resolves {r : Request} {s : Session} (hs : Session.checked r = .ok s) :
    s.index.Resolves s.graph :=
  TypeIndex.resolves_of_checkReferences (Session.checked_parts hs).2.2.2.2

/-- Once a request passes the reference check, every field of its graph resolves as the later
stages ask: its value type for classifying it, its type name as the kind its field type names
for the package check, and its extendee as a message. The request then fails, if at all, only
for a converter needing the unnamed package, an enum default naming no value, a malformed map
entry, or a generated file failing its check. -/
theorem compileRequest_late_errors {r : Request} {s : Session} (hs : Session.checked r = .ok s) :
    (∀ f ∈ s.graph.checkedFields,
      (∃ v, valueOf s.index f = .ok v) ∧
      (f.fieldType.isMessage → ∃ id, s.index.resolve f.typeName = .ok (.message id)) ∧
      (f.fieldType.isMessage = false → f.fieldType.isNamed →
        ∃ id, s.index.resolve f.typeName = .ok (.enum id)) ∧
      ∀ e, f.extendee = some e → ∃ id, s.index.resolve e = .ok (.message id)) ∧
    ∀ e, compileRequest r = .error e → e.IsLate := by
  have hres := Session.checked_resolves hs
  refine ⟨fun f hf => ⟨valueOf_of_checkField (hres f hf), TypeIndex.resolve_of_checkField (hres f hf)⟩,
    ?_⟩
  show ErrorsIn GenError.IsLate (compileRequest r)
  unfold compileRequest
  rw [hs]
  exact (checkJavaPackages_errorsIn hres).bind fun _ _ => Session.artifacts_errorsIn hres

/-- The file `a.proto` of package `p`, whose message `A` holds a message `B`, generated with
value classes under `v`. -/
def messageRefRequest : Request :=
  { fileToGenerate := ["a.proto"], parameter := some "vopkg=v"
    protoFile := [
      { name := some "a.proto", package := some "p"
        messageType := [
          { name := some "A"
            field := [{ name := some "b", number := some 1, label := some 1, fieldType := some 11
                        typeName := some ".p.B" }] },
          { name := some "B" }] }] }

theorem messageRefRequest_late_errors :
    ∃ s, Session.checked messageRefRequest = .ok s ∧
      ∀ e, compileRequest messageRefRequest = .error e → e.IsLate := by
  have hok : (Session.checked messageRefRequest).isOk = true := by with_unfolding_all decide
  cases hs : Session.checked messageRefRequest with
  | error e =>
    rw [hs] at hok
    cases hok
  | ok s => exact ⟨s, rfl, (compileRequest_late_errors hs).2⟩

end BeanCodegen
