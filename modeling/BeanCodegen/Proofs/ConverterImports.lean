import Mathlib
import BeanCodegen.Compile
import BeanCodegen.Proofs.Declarations
import BeanCodegen.Proofs.Imports
import BeanCodegen.Proofs.LateErrors
import BeanCodegen.Proofs.TypeResolution
import BeanCodegen.Proofs.FileHeaders
/-! # Classes a converter names

A converter names value classes, protobuf-java classes and converter classes, and none of
them can be imported from the unnamed package. The package check refuses a file to generate
when a file its converter reads protobuf-java classes of has no protobuf package: the file
itself, and the files of the types its messages' fields hold (for enums only when they travel
as protobuf-java enums).

The converter of a map field whose values need converting names the protobuf-java class of the
map's values. The check covers it through the fields of the map's entry message, which are
fields of the file when the entry is declared there, as a protobuf compiler declares it beside
the map field. So when every map field holds an entry of its own file, every class the
converter names has a package (`Source.converterFile_refers_packaged`). An entry declared in
another file lets a class of the unnamed package through, as the last request of this module
shows.

`NamesOnly P p post` says that the import scope after `p` is the one before it after
references to classes with `P`, one after another.
-/

namespace BeanCodegen.Java

/-- A class of a named package, which an import line can name. -/
def ClassName.Packaged (c : ClassName) : Prop := c.package ≠ ""

namespace Imports

theorem referenceAll_append (s : Imports) :
    ∀ cs cs' : List ClassName,
      (s.referenceAll (cs ++ cs')).2 = ((s.referenceAll cs).2.referenceAll cs').2
  | [], _ => rfl
  | c :: cs, cs' => referenceAll_append (s.reference c).2 cs cs'

/-- Every import of the scope names a class of a named package: its line reads
`pkg.Top` after the keyword, with `pkg` not empty. -/
def ImportsPackaged (s : Imports) : Prop :=
  ∀ e ∈ s.imported, ∃ pkg, pkg ≠ "" ∧ e.2 = pkg ++ "." ++ e.1

/-- A reference to a class of a named package imports, if anything, that class. -/
theorem importsPackaged_reference {s : Imports} (hs : s.ImportsPackaged) {c : ClassName}
    (hc : c.Packaged) : (s.reference c).2.ImportsPackaged := by
  unfold reference
  dsimp only
  split
  · exact hs
  split
  · split
    · split
      · exact hs
      · exact hs
    · exact hs
  split
  · exact hs
  split
  · split <;> exact hs
  · split
    · exact hs
    · intro e he
      rcases List.mem_append.1 he with he | he
      · exact hs e he
      · rw [List.mem_singleton.1 he]
        exact ⟨c.package, hc, rfl⟩

theorem importsPackaged_referenceAll {s : Imports} (hs : s.ImportsPackaged) :
    ∀ cs : List ClassName, (∀ c ∈ cs, c.Packaged) → (s.referenceAll cs).2.ImportsPackaged
  | [], _ => hs
  | c :: cs, hcs => importsPackaged_referenceAll
      (importsPackaged_reference hs (hcs c List.mem_cons_self)) cs
      fun c' hc' => hcs c' (List.mem_cons_of_mem c hc')

/-- No import of such a scope is of a class of the unnamed package. -/
theorem ImportsPackaged.not_mem_bare {s : Imports} (hs : s.ImportsPackaged) (top : String) :
    (top, "." ++ top) ∉ s.imported := by
  intro hmem
  obtain ⟨pkg, hpkg, heq⟩ := hs _ hmem
  have hlen := congrArg String.length heq
  simp only [String.length_append] at hlen
  exact hpkg (String.length_eq_zero_iff.1 (by omega))

end Imports

end BeanCodegen.Java

namespace BeanCodegen.Emit

open BeanCodegen.Java BeanCodegen.Schema BeanCodegen.Plan BeanCodegen.Shape

/-! ## Steps that name only some classes -/

/-- `d'` has the import scope of `d` after references to classes with `P`, one after another. -/
def Draft.RefersFrom (P : ClassName → Prop) (d d' : Draft) : Prop :=
  ∃ cs : List ClassName, (∀ c ∈ cs, P c) ∧ d'.imports = (d.imports.referenceAll cs).2

/-- Whenever it succeeds, `p` gives a result with `post` and changes the import scope only by
references to classes with `P`. -/
def NamesOnly (P : ClassName → Prop) (p : EmitM α) (post : α → Prop) : Prop :=
  Runs p post (Draft.RefersFrom P)

/-- A step on the import scope alone that only references classes with `P`. -/
def RefersOnly (P : ClassName → Prop) (m : StateM Imports α) : Prop :=
  ∀ s, ∃ cs : List ClassName, (∀ c ∈ cs, P c) ∧ (m.run s).2 = (s.referenceAll cs).2

section NamesOnly

variable {P : ClassName → Prop} {p : EmitM α} {Q : α → Prop}

theorem Draft.RefersFrom.refl {d d' : Draft} (h : d'.imports = d.imports) :
    Draft.RefersFrom P d d' :=
  ⟨[], by simp, h⟩

theorem Draft.RefersFrom.trans {d₁ d₂ d₃ : Draft} (h₁ : Draft.RefersFrom P d₁ d₂)
    (h₂ : Draft.RefersFrom P d₂ d₃) : Draft.RefersFrom P d₁ d₃ := by
  obtain ⟨cs₁, hcs₁, he₁⟩ := h₁
  obtain ⟨cs₂, hcs₂, he₂⟩ := h₂
  refine ⟨cs₁ ++ cs₂, fun c hc => ?_, ?_⟩
  · rcases List.mem_append.1 hc with hc | hc
    · exact hcs₁ c hc
    · exact hcs₂ c hc
  · rw [he₂, he₁, Imports.referenceAll_append]

theorem NamesOnly.bind {f : α → EmitM β} {R : β → Prop} (hp : NamesOnly P p Q)
    (hf : ∀ a, Q a → NamesOnly P (f a) R) : NamesOnly P (p >>= f) R :=
  (Runs.bind _ hp hf).mono (fun _ h => h) fun _ _ ⟨_, h₁, h₂⟩ => h₁.trans h₂

/-- A step with no result to speak of, followed by others. -/
theorem NamesOnly.seq {f : α → EmitM β} {R : β → Prop} (hp : NamesOnly P p fun _ => True)
    (hf : ∀ a, NamesOnly P (f a) R) : NamesOnly P (p >>= f) R :=
  hp.bind fun a _ => hf a

theorem NamesOnly.pure {a : α} (ha : Q a) : NamesOnly P (Pure.pure a : EmitM α) Q :=
  Runs.pure ha fun _ => Draft.RefersFrom.refl rfl

/-- A result, with nothing to say of it. -/
theorem NamesOnly.ret (a : α) : NamesOnly P (Pure.pure a : EmitM α) fun _ => True :=
  NamesOnly.pure trivial

theorem NamesOnly.mono {R : α → Prop} (h : NamesOnly P p Q) (hQ : ∀ a, Q a → R a) :
    NamesOnly P p R :=
  Runs.mono h hQ fun _ _ h => h

theorem NamesOnly.ite (b : Prop) [Decidable b] {q : EmitM α} (hp : NamesOnly P p Q)
    (hq : NamesOnly P q Q) : NamesOnly P (if b then p else q) Q := by
  split
  · exact hp
  · exact hq

theorem NamesOnly.put (pc : Piece) : NamesOnly P (put pc) fun _ => True := by
  intro d a d' hrun
  cases hrun
  exact ⟨trivial, Draft.RefersFrom.refl rfl⟩

theorem NamesOnly.line (t : String) : NamesOnly P (line t) fun _ => True := NamesOnly.put _

theorem NamesOnly.annotated (path : List Nat) (pre name suf : String) :
    NamesOnly P (annotated path pre name suf) fun _ => True := NamesOnly.put _

theorem NamesOnly.liftExcept (r : Except GenError α) :
    NamesOnly P (liftExcept r) fun a => r = .ok a := by
  intro d a d' hrun
  cases r with
  | error e => cases hrun
  | ok b =>
    cases hrun
    exact ⟨rfl, Draft.RefersFrom.refl rfl⟩

theorem NamesOnly.onImports {m : StateM Imports α} (hm : RefersOnly P m) :
    NamesOnly P (onImports m) fun _ => True := by
  intro d a d' hrun
  cases hrun
  obtain ⟨cs, hcs, heq⟩ := hm d.imports
  exact ⟨trivial, cs, hcs, heq⟩

theorem RefersOnly.pure (a : α) : RefersOnly P (Pure.pure a : StateM Imports α) :=
  fun _ => ⟨[], by simp, rfl⟩

theorem RefersOnly.refer {c : ClassName} (hc : P c) : RefersOnly P (refer c) :=
  fun s => ⟨[c], by simpa using hc, rfl⟩

theorem NamesOnly.nameClass {c : ClassName} (hc : P c) : NamesOnly P (nameClass c) fun _ => True :=
  NamesOnly.onImports (RefersOnly.refer hc)

/-- Steps run on an empty body keep the references they make. -/
theorem NamesOnly.inside {inner : EmitM Unit} (h : NamesOnly P inner fun _ => True) :
    NamesOnly P (inside inner) fun _ => True := by
  intro d qs d' hrun
  obtain ⟨outer, d₁, h₁, hrun⟩ := run_bind_eq_ok hrun
  obtain ⟨u, d₂, h₂, h₃⟩ := run_bind_eq_ok hrun
  cases h₁
  cases h₃
  exact ⟨trivial, (h _ u d₂ h₂).2⟩

theorem NamesOnly.body {inner : EmitM Unit} (footer : String)
    (h : NamesOnly P inner fun _ => True) : NamesOnly P (body footer inner) fun _ => True :=
  (NamesOnly.inside h).seq fun _ => NamesOnly.put _

theorem NamesOnly.block {inner : EmitM Unit} (header footer : String)
    (h : NamesOnly P inner fun _ => True) : NamesOnly P (block header footer inner) fun _ => True :=
  (NamesOnly.line _).seq fun _ => NamesOnly.body _ h

theorem NamesOnly.braces {inner : EmitM Unit} (header : String)
    (h : NamesOnly P inner fun _ => True) : NamesOnly P (braces header inner) fun _ => True :=
  NamesOnly.block _ _ h

/-- A loop whose body goes on after naming only classes with `P`. -/
theorem NamesOnly.forIn {β : Type} {f : β → PUnit → EmitM (ForInStep PUnit)} (xs : List β)
    (h : ∀ x ∈ xs, NamesOnly P (f x ⟨⟩) (· = .yield ⟨⟩)) :
    NamesOnly P (forIn xs ⟨⟩ f) fun _ => True :=
  Runs.forIn (fun _ => Draft.RefersFrom P) (fun _ => Draft.RefersFrom.refl rfl)
    (fun _ _ _ _ _ h₁ h₂ => h₁.trans h₂) xs h

theorem NamesOnly.switchOn (selector : String) (arms : List (String × List String)) :
    NamesOnly P (switchOn selector arms) fun _ => True := by
  unfold Emit.switchOn
  refine NamesOnly.braces _ ((NamesOnly.forIn _ fun x _ => ?_).seq fun _ =>
    (NamesOnly.line _).seq fun _ => NamesOnly.line _)
  obtain ⟨label, stmts⟩ := x
  refine (NamesOnly.line _).seq fun _ => (NamesOnly.forIn _ fun _ _ => ?_).seq fun _ =>
    (NamesOnly.line _).seq fun _ => NamesOnly.pure rfl
  exact (NamesOnly.line _).seq fun _ => NamesOnly.pure rfl

/-- A file drafted by steps that name only classes with `P` has the scope of its empty draft
after references to such classes. -/
theorem NamesOnly.draft {steps : EmitM Unit} {pkg : String} {declared : List String}
    (h : NamesOnly P steps fun _ => True) {d : Draft} (hd : draft pkg declared steps = .ok d) :
    Draft.RefersFrom P (Draft.start pkg declared) d := by
  unfold Emit.draft at hd
  cases hrun : steps.run (Draft.start pkg declared) with
  | error e =>
    rw [hrun] at hd
    cases hd
  | ok r =>
    rw [hrun] at hd
    cases hd
    exact (h _ r.1 r.2 hrun).2

theorem NamesOnly.filterMapM {β γ : Type} {f : β → EmitM (Option γ)} :
    ∀ {xs : List β}, (∀ x ∈ xs, NamesOnly P (f x) fun _ => True) →
      NamesOnly P (xs.filterMapM f) fun _ => True
  | [], _ => NamesOnly.ret _
  | x :: xs, h => by
    rw [List.filterMapM_cons]
    have hrest : NamesOnly P (xs.filterMapM f) fun _ => True :=
      NamesOnly.filterMapM fun y hy => h y (List.mem_cons_of_mem x hy)
    refine (h x List.mem_cons_self).seq fun r => ?_
    cases r with
    | none => exact hrest
    | some y => exact hrest.seq fun _ => NamesOnly.ret _

end NamesOnly

/-! ## The steps of a converter -/

/-- A library class has a package. -/
theorem ClassName.packaged_library (pkg name : String) (hpkg : pkg ∈ libraryPackages) :
    (ClassName.top pkg name).Packaged := by
  simp only [libraryPackages, List.mem_cons, List.not_mem_nil, or_false] at hpkg
  rcases hpkg with rfl | rfl | rfl <;> simp [ClassName.Packaged, ClassName.top]

namespace Source

variable (c : Source)

/-- The classes a converter names for values of a kind have packages: the file of the type has
a value package, and a protobuf package where the converter names the protobuf-java class. -/
def KindPackaged : ValueKind → Prop
  | .scalar _ => True
  | .message id => (c.session.alloc.file id.file).voPackage ≠ "" ∧
      (c.session.alloc.file id.file).protoPackage ≠ ""
  | .enum id => (c.session.alloc.file id.file).voPackage ≠ "" ∧
      (c.openEnums = false → (c.session.alloc.file id.file).protoPackage ≠ "")

/-- The same for the values a field holds. -/
def ShapePackaged : FieldShape → Prop
  | .scalar .. => True
  | .message id _ => c.KindPackaged (.message id)
  | .enum id _ => c.KindPackaged (.enum id)
  | .map _ v | .variant _ v | .extension _ v _ => c.KindPackaged v

/-- What the converter of a file needs for every class it names to have a package: a converter
package, a value and a protobuf package for the file itself, and packaged values for every
field its messages classify. -/
structure ConverterPackages : Prop where
  converter : c.session.config.converterPackage ≠ ""
  ownValues : (c.session.alloc.file c.file).voPackage ≠ ""
  ownProto : (c.session.alloc.file c.file).protoPackage ≠ ""
  fields : ∀ (i : Nat), ∀ fd ∈ (c.message i).fields, ∀ cf : Classified,
    Shape.classify c.session.graph c.session.index (some (c.message i)) fd = .ok cf →
      c.ShapePackaged cf.shape

variable {c}

theorem kindPackaged_of_valueKind {f : Classified} (hf : c.ShapePackaged f.shape)
    {v : ValueKind} (hv : f.valueKind = some v) : c.KindPackaged v := by
  unfold Classified.valueKind at hv
  cases hs : f.shape with
  | scalar s rep => rw [hs] at hv; cases hv; trivial
  | message id rep => rw [hs] at hv hf; cases hv; exact hf
  | enum id rep => rw [hs] at hv hf; cases hv; exact hf
  | map key value => rw [hs] at hv; cases hv
  | variant k p => rw [hs] at hv hf; cases hv; exact hf
  | extension t p rep => rw [hs] at hv hf; cases hv; exact hf

theorem namesOnly_protoElement {v : ValueKind} (hv : c.KindPackaged v) :
    NamesOnly ClassName.Packaged (c.protoElement v) fun _ => True := by
  unfold Source.protoElement
  split
  · exact NamesOnly.nameClass (ClassName.packaged_library "com.google.protobuf" _ (by decide))
  · exact NamesOnly.ret _
  · exact NamesOnly.nameClass hv.2
  · split
    · exact NamesOnly.ret _
    · rename_i hopen
      exact NamesOnly.nameClass (hv.2 (by simpa using hopen))

theorem refersOnly_render {v : ValueKind} (hv : c.KindPackaged v) (boxed : Bool) :
    RefersOnly ClassName.Packaged (v.render c.session boxed) := by
  unfold ValueKind.render
  split
  · exact RefersOnly.pure _
  · exact RefersOnly.refer hv.1
  · exact RefersOnly.refer hv.1

variable (hcvt : c.session.config.converterPackage ≠ "")
include hcvt

theorem namesOnly_call (id : MessageId) (method arg : String) :
    NamesOnly ClassName.Packaged (c.call id method arg) fun _ => True := by
  unfold Source.call
  split
  · exact NamesOnly.ret _
  · exact (NamesOnly.nameClass hcvt).seq fun _ => NamesOnly.ret _

theorem namesOnly_decodeValue {v : ValueKind} (hv : c.KindPackaged v) (expr : String) :
    NamesOnly ClassName.Packaged (c.decodeValue v expr) fun _ => True := by
  unfold Source.decodeValue
  split
  · exact NamesOnly.ret _
  · exact NamesOnly.ret _
  · exact namesOnly_call hcvt _ _ _
  · refine (NamesOnly.nameClass hv.1).seq fun _ => ?_
    split <;> exact NamesOnly.ret _

theorem namesOnly_encodeValue {v : ValueKind} (hv : c.KindPackaged v) (expr : String) :
    NamesOnly ClassName.Packaged (c.encodeValue v expr) fun _ => True := by
  unfold Source.encodeValue
  split
  · exact (NamesOnly.nameClass (ClassName.packaged_library "com.google.protobuf" _
      (by decide))).seq fun _ => NamesOnly.ret _
  · exact NamesOnly.ret _
  · exact namesOnly_call hcvt _ _ _
  · split
    · exact NamesOnly.ret _
    · rename_i hopen
      exact (NamesOnly.nameClass (hv.2 (by simpa using hopen))).seq fun _ => NamesOnly.ret _

theorem namesOnly_decodeSingle (f : Classified) {v : ValueKind} (hv : c.KindPackaged v)
    (stem target : String) :
    NamesOnly ClassName.Packaged (c.decodeSingle f v stem target) fun _ => True := by
  unfold Source.decodeSingle
  exact (namesOnly_decodeValue hcvt hv _).seq fun _ =>
    NamesOnly.ite _ (NamesOnly.braces _ (NamesOnly.line _)) (NamesOnly.line _)

theorem namesOnly_decodeEntries (key : Scalar) {value : ValueKind} (hv : c.KindPackaged value)
    (stem target : String) :
    NamesOnly ClassName.Packaged (c.decodeEntries key value stem target) fun _ => True := by
  unfold Source.decodeEntries
  refine (NamesOnly.nameClass (show (mapClass.nested "Entry").Packaged from
    ClassName.packaged_library "java.util" "Map" (by decide))).seq fun _ => ?_
  refine (namesOnly_protoElement hv).seq fun _ => (namesOnly_decodeValue hcvt hv _).seq fun _ => ?_
  exact NamesOnly.braces _ (NamesOnly.line _)

theorem namesOnly_decodeField {f : Classified} (hf : c.ShapePackaged f.shape)
    (member : MemberPlan) :
    NamesOnly ClassName.Packaged (c.decodeField f member) fun _ => True := by
  obtain ⟨field, shape, wire, default, nullable⟩ := f
  unfold Source.decodeField
  dsimp only
  -- the loop copying the elements of a repeated field
  have each : ∀ {v : ValueKind}, c.KindPackaged v → ∀ (header body : String → String),
      NamesOnly ClassName.Packaged (do
        let element ← c.protoElement v
        let item ← c.decodeValue v "item"
        braces (header element) (line (body item))) fun _ => True := fun hv _ _ =>
    (namesOnly_protoElement hv).seq fun _ => (namesOnly_decodeValue hcvt hv _).seq fun _ =>
      NamesOnly.braces _ (NamesOnly.line _)
  split
  · exact namesOnly_decodeSingle hcvt _ (by trivial) _ _
  · exact namesOnly_decodeSingle hcvt _ (by exact hf) _ _
  · exact namesOnly_decodeSingle hcvt _ (by exact hf) _ _
  · split
    · exact NamesOnly.line _
    · exact each (by trivial) _ _
  · exact each (by exact hf) _ _
  · exact each (by exact hf) _ _
  · split
    · split
      · exact NamesOnly.line _
      · exact namesOnly_decodeEntries hcvt _ (by exact hf) _ _
    · exact namesOnly_decodeEntries hcvt _ (by exact hf) _ _
  · exact NamesOnly.ret _
  · exact NamesOnly.ret _

/-- The fields a oneof's arms read come from classified fields with packaged values. -/
theorem namesOnly_decodeOneof (op : OneofPlan) {fields : List Classified}
    (hfields : ∀ f ∈ fields, c.ShapePackaged f.shape) (members : List MemberPlan) :
    NamesOnly ClassName.Packaged (c.decodeOneof op fields members) fun _ => True := by
  unfold Source.decodeOneof
  refine (NamesOnly.filterMapM fun v _ => ?_).seq fun _ => NamesOnly.switchOn _ _
  split
  · exact NamesOnly.ret _
  · rename_i value hvalue
    have hv : c.KindPackaged value := by
      rcases getD_mem_or_default fields v.fieldIndex with hmem | hdef
      · exact kindPackaged_of_valueKind (hfields _ hmem) hvalue
      · rw [hdef] at hvalue
        cases hvalue
        trivial
    exact (namesOnly_decodeValue hcvt hv _).seq fun _ => NamesOnly.ret _

theorem namesOnly_encodeSingle {v : ValueKind} (hv : c.KindPackaged v) (stem source : String) :
    NamesOnly ClassName.Packaged (c.encodeSingle v stem source) fun _ => True :=
  (namesOnly_encodeValue hcvt hv _).seq fun _ => NamesOnly.braces _ (NamesOnly.line _)

theorem namesOnly_encodeEntries (key : Scalar) {value : ValueKind} (hv : c.KindPackaged value)
    (stem source : String) :
    NamesOnly ClassName.Packaged (c.encodeEntries key value stem source) fun _ => True := by
  unfold Source.encodeEntries
  refine (NamesOnly.nameClass (show (mapClass.nested "Entry").Packaged from
    ClassName.packaged_library "java.util" "Map" (by decide))).seq fun _ => ?_
  refine (NamesOnly.onImports (refersOnly_render hv _)).seq fun _ => ?_
  exact (namesOnly_encodeValue hcvt hv _).seq fun _ =>
    NamesOnly.braces _ (NamesOnly.braces _ (NamesOnly.line _))

theorem namesOnly_encodeField {f : Classified} (hf : c.ShapePackaged f.shape)
    (member : MemberPlan) :
    NamesOnly ClassName.Packaged (c.encodeField f member) fun _ => True := by
  obtain ⟨field, shape, wire, default, nullable⟩ := f
  unfold Source.encodeField
  dsimp only
  -- the loop copying the elements of a repeated field, under a null check
  have each : ∀ {v : ValueKind}, c.KindPackaged v → ∀ (header body : String → String)
      (check : String), NamesOnly ClassName.Packaged (do
        let element ← onImports (v.render c.session true)
        let item ← c.encodeValue v "item"
        braces check (braces (header element) (line (body item)))) fun _ => True :=
    fun hv _ _ _ => (NamesOnly.onImports (refersOnly_render hv _)).seq fun _ =>
      (namesOnly_encodeValue hcvt hv _).seq fun _ =>
        NamesOnly.braces _ (NamesOnly.braces _ (NamesOnly.line _))
  split
  · refine (namesOnly_encodeValue hcvt (by trivial) _).seq fun _ => ?_
    split
    · exact NamesOnly.line _
    · exact NamesOnly.braces _ (NamesOnly.line _)
  · exact namesOnly_encodeSingle hcvt (by exact hf) _ _
  · exact namesOnly_encodeSingle hcvt (by exact hf) _ _
  · split
    · exact NamesOnly.braces _ (NamesOnly.line _)
    · exact each (by trivial) _ _ _
  · exact each (by exact hf) _ _ _
  · exact each (by exact hf) _ _ _
  · split
    · split
      · exact NamesOnly.braces _ (NamesOnly.line _)
      · exact namesOnly_encodeEntries hcvt _ (by exact hf) _ _
    · exact namesOnly_encodeEntries hcvt _ (by exact hf) _ _
  · exact NamesOnly.ret _
  · exact NamesOnly.ret _

theorem namesOnly_encodeOneof (op : OneofPlan) {fields : List Classified}
    (hfields : ∀ f ∈ fields, c.ShapePackaged f.shape) (members : List MemberPlan) :
    NamesOnly ClassName.Packaged (c.encodeOneof op fields members) fun _ => True := by
  unfold Source.encodeOneof
  refine (NamesOnly.filterMapM fun v _ => ?_).seq fun _ => NamesOnly.switchOn _ _
  split
  · exact NamesOnly.ret _
  · rename_i value hvalue
    have hv : c.KindPackaged value := by
      rcases getD_mem_or_default fields v.fieldIndex with hmem | hdef
      · exact kindPackaged_of_valueKind (hfields _ hmem) hvalue
      · rw [hdef] at hvalue
        cases hvalue
        trivial
    exact (namesOnly_encodeValue hcvt hv _).seq fun _ => NamesOnly.ret _

theorem namesOnly_decodeMembers (mp : MessagePlan) {fields : List Classified}
    (hfields : ∀ f ∈ fields, c.ShapePackaged f.shape) :
    NamesOnly ClassName.Packaged (c.decodeMembers mp fields) fun _ => True := by
  unfold Source.decodeMembers
  refine (NamesOnly.forIn _ fun x hx => ?_).seq fun _ => NamesOnly.pure trivial
  obtain ⟨f, member⟩ := x
  have hf : c.ShapePackaged f.shape := hfields f (List.of_mem_zip hx).1
  dsimp only
  -- a oneof is read at its first member, every other field on its own
  split
  · split
    · split
      · exact (namesOnly_decodeOneof hcvt _ hfields _).seq fun _ => NamesOnly.pure rfl
      · exact NamesOnly.pure rfl
    · exact NamesOnly.pure rfl
  · exact (namesOnly_decodeField hcvt hf _).seq fun _ => NamesOnly.pure rfl

theorem namesOnly_encodeMembers (mp : MessagePlan) {fields : List Classified}
    (hfields : ∀ f ∈ fields, c.ShapePackaged f.shape) :
    NamesOnly ClassName.Packaged (c.encodeMembers mp fields) fun _ => True := by
  unfold Source.encodeMembers
  refine (NamesOnly.forIn _ fun x hx => ?_).seq fun _ => NamesOnly.pure trivial
  obtain ⟨f, member⟩ := x
  have hf : c.ShapePackaged f.shape := hfields f (List.of_mem_zip hx).1
  dsimp only
  split
  · split
    · split
      · exact (namesOnly_encodeOneof hcvt _ hfields _).seq fun _ => NamesOnly.pure rfl
      · exact NamesOnly.pure rfl
    · exact NamesOnly.pure rfl
  · exact (namesOnly_encodeField hcvt hf _).seq fun _ => NamesOnly.pure rfl

omit hcvt in
theorem namesOnly_classifyAll (scope : Option Message) :
    ∀ fs : List Field, NamesOnly ClassName.Packaged (fs.mapM (c.classify scope))
      fun cs => fs.mapM (Shape.classify c.session.graph c.session.index scope) = .ok cs
  | [] => NamesOnly.pure rfl
  | fd :: fs => by
    rw [List.mapM_cons]
    refine (NamesOnly.liftExcept _).bind fun a ha =>
      (namesOnly_classifyAll scope fs).bind fun as has => NamesOnly.pure ?_
    rw [List.mapM_cons, ha, has]
    rfl

omit hcvt in
theorem namesOnly_classified (h : c.ConverterPackages) (id : MessageId) :
    NamesOnly ClassName.Packaged (c.classified id) fun fields =>
      ∀ f ∈ fields, c.ShapePackaged f.shape := by
  unfold Source.classified
  refine (namesOnly_classifyAll _ _).mono fun cs hcs f hf => ?_
  have hpairs := forall₂_of_mapM_eq_ok hcs
  obtain ⟨fd, hfd, hcl⟩ := exists_of_forall₂_left
    (show List.Forall₂ (flip fun x y => Shape.classify c.session.graph c.session.index
      (some (c.message id.index)) x = .ok y) cs _ from List.Forall₂.flip hpairs) f hf
  exact h.fields id.index fd hfd f hcl

omit hcvt in
theorem namesOnly_parseBytes (h : c.ConverterPackages) (i : Nat) :
    NamesOnly ClassName.Packaged (c.parseBytes ⟨c.file, i⟩) fun _ => True := by
  unfold Source.parseBytes
  refine (NamesOnly.nameClass h.ownValues).seq fun _ =>
    (NamesOnly.nameClass h.ownProto).seq fun _ => ?_
  refine (NamesOnly.nameClass (ClassName.packaged_library "com.google.protobuf" _
    (by decide))).seq fun _ => NamesOnly.braces _ ?_
  exact (NamesOnly.block _ _ (NamesOnly.line _)).seq fun _ =>
    NamesOnly.body _ ((NamesOnly.line _).seq fun _ => NamesOnly.line _)

omit hcvt in
theorem namesOnly_decode (h : c.ConverterPackages) (i : Nat) :
    NamesOnly ClassName.Packaged (c.decode ⟨c.file, i⟩) fun _ => True := by
  unfold Source.decode
  refine (namesOnly_classified h _).bind fun fields hfields => ?_
  refine (NamesOnly.nameClass h.ownValues).seq fun _ =>
    (NamesOnly.nameClass h.ownProto).seq fun _ => ?_
  refine (NamesOnly.annotated _ _ _ _).seq fun _ => NamesOnly.body _ ?_
  refine (NamesOnly.braces _ (NamesOnly.line _)).seq fun _ => (NamesOnly.line _).seq fun _ => ?_
  exact (namesOnly_decodeMembers h.converter _ hfields).seq fun _ => NamesOnly.line _

omit hcvt in
theorem namesOnly_encode (h : c.ConverterPackages) (i : Nat) :
    NamesOnly ClassName.Packaged (c.encode ⟨c.file, i⟩) fun _ => True := by
  unfold Source.encode
  refine (namesOnly_classified h _).bind fun fields hfields => ?_
  refine (NamesOnly.nameClass h.ownValues).seq fun _ =>
    (NamesOnly.nameClass h.ownProto).seq fun _ => NamesOnly.braces _ ?_
  refine (NamesOnly.braces _ (NamesOnly.line _)).seq fun _ => (NamesOnly.line _).seq fun _ => ?_
  exact (namesOnly_encodeMembers h.converter _ hfields).seq fun _ => NamesOnly.line _

omit hcvt in
theorem namesOnly_encodeBytes (h : c.ConverterPackages) (i : Nat) :
    NamesOnly ClassName.Packaged (c.encodeBytes ⟨c.file, i⟩) fun _ => True :=
  (NamesOnly.nameClass h.ownValues).seq fun _ => NamesOnly.braces _ (NamesOnly.line _)

omit hcvt in
/-- The converter of a file, when it has one, is drafted from the empty scope of its class by
references to classes of named packages only. -/
theorem converterFile_refers_packaged (h : c.ConverterPackages) {a : Artifact}
    (ha : c.converterFile = .ok (some a)) :
    ∃ d : Draft, Draft.RefersFrom ClassName.Packaged
        (Draft.start (c.session.alloc.converterClass c.session.config.converterPackage c.file).package
          [(c.session.alloc.converterClass c.session.config.converterPackage c.file).simple]) d ∧
      a = d.finish (c.session.alloc.converterClass c.session.config.converterPackage c.file).package
        (c.session.alloc.converterClass c.session.config.converterPackage c.file).simple c.unit := by
  unfold Source.converterFile at ha
  dsimp only at ha
  split at ha
  · cases ha
  obtain ⟨d, hd, ha⟩ := except_bind_eq_ok ha
  cases ha
  refine ⟨d, NamesOnly.draft ?_ hd, rfl⟩
  refine (NamesOnly.annotated _ _ _ _).seq fun _ => NamesOnly.body _ ?_
  refine (NamesOnly.forIn _ fun i _ => ?_).seq fun _ => NamesOnly.ret _
  -- a top-level message also reads from and writes to bytes
  split
  · refine (namesOnly_parseBytes h _).seq fun _ => (NamesOnly.put _).seq fun _ => ?_
    refine (namesOnly_decode h _).seq fun _ => (NamesOnly.put _).seq fun _ => ?_
    refine (namesOnly_encode h _).seq fun _ => (NamesOnly.put _).seq fun _ => ?_
    exact (namesOnly_encodeBytes h _).seq fun _ => (NamesOnly.put _).seq fun _ =>
      NamesOnly.pure rfl
  · refine (namesOnly_decode h _).seq fun _ => (NamesOnly.put _).seq fun _ => ?_
    exact (namesOnly_encode h _).seq fun _ => (NamesOnly.put _).seq fun _ => NamesOnly.pure rfl

end Source

end BeanCodegen.Emit

namespace BeanCodegen

open BeanCodegen.Java BeanCodegen.Schema BeanCodegen.Shape BeanCodegen.Plan BeanCodegen.Emit
  BeanCodegen.Naming BeanCodegen.Descriptor

/-! ## Packages of a checked session -/

theorem ne_empty_of_isJavaPackage {q : String} (hq : isJavaPackage q = true) : q ≠ "" := by
  rintro rfl
  exact absurd hq (by decide)

theorem numbered_ne_empty (base : String) (k : Nat) : base ++ toString k ≠ "" := by
  intro h
  have hlen := congrArg String.length h
  have hk : (toString k).length ≠ 0 := fun h0 => Nat.repr_ne_empty (String.length_eq_zero_iff.1 h0)
  simp only [String.length_append, String.length_empty] at hlen
  omega

theorem Naming.Registry.numberedFrom_ne_empty (r : Registry) (base : String) :
    ∀ fuel n, r.numberedFrom base fuel n ≠ ""
  | 0, n => numbered_ne_empty base n
  | fuel + 1, n => by
    simp only [Registry.numberedFrom]
    split
    · exact Registry.numberedFrom_ne_empty r base fuel (n + 1)
    · exact numbered_ne_empty base n

/-- A claimed name is never empty when its base is not. -/
theorem Naming.Registry.fresh_ne_empty (r : Registry) {base : String} (hbase : base ≠ "") :
    r.fresh base ≠ "" := by
  unfold Registry.fresh
  split
  · exact r.numberedFrom_ne_empty base _ _
  · exact hbase

theorem voPackageBase_ne_empty {cfg : Config} (hvo : cfg.voPackage ≠ "") (u : File) :
    voPackageBase cfg u ≠ "" := by
  unfold voPackageBase
  generalize packageSuffix (if u.package.isEmpty = true then u.baseName else u.package) = suffix
  dsimp only
  split
  · exact hvo
  · intro h
    have hlen := congrArg String.length h
    simp only [String.length_append, String.length_empty] at hlen
    have : ".".length = 1 := rfl
    omega

section Checked

variable {r : Request} {s : Session} (hs : Session.checked r = .ok s)
include hs

theorem Session.checked_index : s.index = TypeIndex.build s.graph := by
  unfold Session.checked at hs
  obtain ⟨config, -, hs⟩ := except_bind_eq_ok hs
  obtain ⟨graph, -, hs⟩ := except_bind_eq_ok hs
  simp only at hs
  split at hs
  · obtain ⟨_, hthrow, -⟩ := except_bind_eq_ok hs
    cases hthrow
  obtain ⟨genFiles, -, hs⟩ := except_bind_eq_ok hs
  obtain ⟨u, -, hs⟩ := except_bind_eq_ok hs
  cases hs
  rfl

theorem Session.checked_converterPackage : s.config.converterPackage ≠ "" :=
  ne_empty_of_isJavaPackage (Config.parse_packages (Session.checked_parts hs).2.2.2.1).2

/-- Every file of a checked session has a value package. -/
theorem Session.checked_voPackage {f : Nat} (hf : f < s.graph.files.length) :
    (s.alloc.file f).voPackage ≠ "" := by
  obtain ⟨-, -, sn, hp⟩ := Session.checked_plan hs hf
  rw [hp, planFile_voPackage, Registry.claim_fst]
  exact Registry.fresh_ne_empty _ (voPackageBase_ne_empty
    (ne_empty_of_isJavaPackage (Config.parse_packages (Session.checked_parts hs).2.2.2.1).1) _)

/-- A name resolves in a checked session to a type of one of its files. -/
theorem Session.checked_resolve_mem {n : String} {t : TypeRef} (h : s.index.resolve n = .ok t) :
    t ∈ s.graph.typeRefs := by
  rw [Session.checked_index hs] at h
  exact List.mem_of_find?_eq_some
    ((TypeIndex.resolve_eq_ok_iff (Graph.build_filesIndexed (Session.checked_parts hs).1)).1 h)

end Checked

theorem Graph.file_lt_of_message_mem {g : Graph} {id : MessageId}
    (h : TypeRef.message id ∈ g.typeRefs) : id.file < g.files.length := by
  simp only [Graph.typeRefs, List.mem_flatMap, List.mem_range, List.mem_append,
    List.mem_map] at h
  obtain ⟨f, hf, ⟨i, -, heq⟩ | ⟨i, -, heq⟩⟩ := h
  · cases heq
    exact hf
  · cases heq

theorem Graph.file_lt_of_enum_mem {g : Graph} {id : EnumId}
    (h : TypeRef.enum id ∈ g.typeRefs) : id.file < g.files.length := by
  simp only [Graph.typeRefs, List.mem_flatMap, List.mem_range, List.mem_append,
    List.mem_map] at h
  obtain ⟨f, hf, ⟨i, -, heq⟩ | ⟨i, -, heq⟩⟩ := h
  · cases heq
  · cases heq
    exact hf

/-! ## What the package check reads -/

theorem mem_of_filterMapM_eq_ok {α β ε : Type} {g : α → Except ε (Option β)} :
    ∀ {xs : List α} {ys : List β}, xs.filterMapM g = .ok ys →
      ∀ x ∈ xs, ∀ y, g x = .ok (some y) → y ∈ ys
  | [], _, _, _, hx, _, _ => absurd hx List.not_mem_nil
  | x :: xs, ys, h, z, hz, y, hy => by
    rw [List.filterMapM_cons] at h
    obtain ⟨r, hr, h⟩ := except_bind_eq_ok h
    rcases List.mem_cons.1 hz with rfl | hz
    · rw [hy] at hr
      cases hr
      obtain ⟨ys', -, h⟩ := except_bind_eq_ok h
      cases h
      exact List.mem_cons_self
    cases r with
    | none => exact mem_of_filterMapM_eq_ok h z hz y hy
    | some b =>
      obtain ⟨ys', hys', h⟩ := except_bind_eq_ok h
      cases h
      exact List.mem_cons_of_mem _ (mem_of_filterMapM_eq_ok hys' z hz y hy)

/-- The files a converter is checked against: the file itself, and the file of every type a
field of its messages names, for an enum unless the file's enums are open. -/
theorem mem_referencedFiles {idx : TypeIndex} {u : File} {self : Nat} {refs : List Nat}
    (h : referencedFiles idx u self = .ok refs) :
    self ∈ refs ∧ ∀ m ∈ u.messages, ∀ fd ∈ m.fields, fd.fieldType.isNamed = true →
      (∀ id, idx.resolve fd.typeName = .ok (.message id) → id.file ∈ refs) ∧
      (∀ id, idx.resolve fd.typeName = .ok (.enum id) → u.dialect ≠ .proto3 → id.file ∈ refs) := by
  unfold referencedFiles at h
  obtain ⟨others, hothers, h⟩ := except_bind_eq_ok h
  cases h
  refine ⟨List.mem_cons_self, fun m hm fd hfd hn => ⟨fun id hid => ?_, fun id hid hd => ?_⟩⟩
  all_goals
    have hnamed : fd ∈ (u.messages.flatMap (·.fields)).filter (·.fieldType.isNamed) :=
      List.mem_filter.2 ⟨List.mem_flatMap.2 ⟨m, hm, hfd⟩, hn⟩
    refine List.mem_cons_of_mem _ (mem_of_filterMapM_eq_ok hothers fd hnamed _ ?_)
    rw [hid]
  · rfl
  · show (Pure.pure (if u.dialect = .proto3 then none else some id.file) : Except GenError _) = _
    rw [if_neg hd]
    rfl

/-- A file to generate with a converter passes the package check only when every file the
check reads for it has a protobuf package. -/
theorem protoPackage_of_checkJavaPackages {s : Session} (h : checkJavaPackages s = .ok ())
    {k : Nat} (hk : k ∈ s.genFiles) (hany : (s.graph.file k).messages.any (!·.mapEntry) = true) :
    ∃ refs, referencedFiles s.index (s.graph.file k) k = .ok refs ∧
      ∀ f ∈ refs, (s.alloc.file f).protoPackage ≠ "" := by
  have hfile := forM_eq_ok h k hk
  dsimp only at hfile
  rw [if_pos hany] at hfile
  obtain ⟨refs, hrefs, hfile⟩ := except_bind_eq_ok hfile
  refine ⟨refs, hrefs, fun f hf hempty => ?_⟩
  split at hfile
  · cases hfile
  · rename_i hnone
    cases hfind : refs.find? (fun f => (s.alloc.file f).protoPackage.isEmpty) with
    | none =>
      have hne := List.find?_eq_none.1 hfind f hf
      simp [hempty] at hne
    | some bare => exact hnone bare hfind

/-- The value kind of a field: a scalar, or the type its type name resolves to. -/
theorem valueOf_eq_ok {idx : TypeIndex} {fd : Field} {v : ValueKind} (h : valueOf idx fd = .ok v) :
    (∃ sc, v = .scalar sc) ∨ fd.fieldType.isNamed = true ∧
      ((∃ id, v = .message id ∧ idx.resolve fd.typeName = .ok (.message id)) ∨
        (∃ id, v = .enum id ∧ idx.resolve fd.typeName = .ok (.enum id))) := by
  unfold valueOf at h
  split at h
  · cases h
    exact Or.inl ⟨_, rfl⟩
  rename_i hscalar
  -- no scalar kind: the field holds messages, groups or enums, all named types
  have hn : fd.fieldType.isNamed = true := by
    cases hty : fd.fieldType <;> simp_all [Scalar.ofFieldType, FieldType.isNamed]
  refine Or.inr ⟨hn, ?_⟩
  split at h
  · cases hm : idx.resolveMessage fd.typeName with
    | error e =>
      rw [hm] at h
      cases h
    | ok id =>
      rw [hm] at h
      cases h
      exact Or.inl ⟨id, rfl, TypeIndex.resolve_of_resolveMessage hm⟩
  · cases he : idx.resolveEnum fd.typeName with
    | error e =>
      rw [he] at h
      cases h
    | ok id =>
      rw [he] at h
      cases h
      exact Or.inr ⟨id, rfl, TypeIndex.resolve_of_resolveEnum he⟩

/-- The values of a map are those of its entry message's second field. -/
theorem mapShape_value {g : Graph} {idx : TypeIndex} {entry : MessageId} {sh : FieldShape}
    (h : mapShape g idx entry = .ok sh) :
    ∃ key value, sh = .map key value ∧
      ∃ vf ∈ (g.message entry).fields, valueOf idx vf = .ok value := by
  unfold mapShape at h
  dsimp only at h
  split at h
  · split at h
    · rename_i vf hvf
      obtain ⟨value, hvalue, h⟩ := except_bind_eq_ok h
      cases h
      exact ⟨_, _, rfl, vf, List.mem_of_find?_eq_some hvf, hvalue⟩
    · cases h
  · cases h

/-! ## The converter of a checked file -/

/-- Whether every field of the messages of file `k` that holds map entry messages holds entries
declared in file `k`, as a protobuf compiler declares the entry of a map beside its field. -/
def Session.entriesLocal (s : Session) (k : Nat) : Bool :=
  (s.graph.file k).messages.all fun m => m.fields.all fun fd =>
    match s.index.resolve fd.typeName with
    | .ok (.message id) => !(s.graph.message id).mapEntry || id.file == k
    | _ => true

theorem Session.entriesLocal_file {s : Session} {k : Nat} (h : s.entriesLocal k = true)
    {m : Message} (hm : m ∈ (s.graph.file k).messages) {fd : Field} (hfd : fd ∈ m.fields)
    {id : MessageId} (hid : s.index.resolve fd.typeName = .ok (.message id))
    (hentry : (s.graph.message id).mapEntry = true) : id.file = k := by
  have hfield := List.all_eq_true.1 (List.all_eq_true.1 h m hm) fd hfd
  simp only [hid, hentry, Bool.not_true, Bool.false_or, beq_iff_eq] at hfield
  exact hfield

section Checked

variable {r : Request} {s : Session} (hs : Session.checked r = .ok s) {k : Nat}
  {refs : List Nat} (hrefs : referencedFiles s.index (s.graph.file k) k = .ok refs)
  (hproto : ∀ f ∈ refs, (s.alloc.file f).protoPackage ≠ "")
include hs hrefs hproto

/-- A field of the file holds values whose classes have packages. -/
theorem kindPackaged_of_valueOf {m : Message} (hm : m ∈ (s.graph.file k).messages) {fd : Field}
    (hfd : fd ∈ m.fields) {v : ValueKind} (hv : valueOf s.index fd = .ok v) :
    (Source.mk s k).KindPackaged v := by
  obtain ⟨-, hmem⟩ := mem_referencedFiles hrefs
  rcases valueOf_eq_ok hv with ⟨sc, rfl⟩ | ⟨hn, ⟨id, rfl, hid⟩ | ⟨id, rfl, hid⟩⟩
  · trivial
  · exact ⟨Session.checked_voPackage hs
      (Graph.file_lt_of_message_mem (Session.checked_resolve_mem hs hid)),
      hproto _ ((hmem m hm fd hfd hn).1 id hid)⟩
  · refine ⟨Session.checked_voPackage hs
      (Graph.file_lt_of_enum_mem (Session.checked_resolve_mem hs hid)), fun hopen => ?_⟩
    -- closed enums travel as protobuf-java enums, and the check reads their files
    have hdialect : (s.graph.file k).dialect ≠ .proto3 := by
      simpa [Source.openEnums, Source.unit] using hopen
    exact hproto _ ((hmem m hm fd hfd hn).2 id hid hdialect)

/-- A field of the file, classified, holds values whose classes have packages, a map's
values included when its entry is declared in the file. -/
theorem shapePackaged_of_classify (hloc : s.entriesLocal k = true) {m : Message}
    (hm : m ∈ (s.graph.file k).messages) {fd : Field} (hfd : fd ∈ m.fields) {cf : Classified}
    (hcl : classify s.graph s.index (some m) fd = .ok cf) :
    (Source.mk s k).ShapePackaged cf.shape := by
  unfold classify at hcl
  obtain ⟨value, hvalue, hcl⟩ := except_bind_eq_ok hcl
  obtain ⟨shape, hshape, hcl⟩ := except_bind_eq_ok hcl
  obtain ⟨default, -, hcl⟩ := except_bind_eq_ok hcl
  cases hcl
  have hkind := kindPackaged_of_valueOf hs hrefs hproto hm hfd hvalue
  unfold shapeOf at hshape
  split at hshape
  · obtain ⟨target, -, hshape⟩ := except_bind_eq_ok hshape
    cases hshape
    exact hkind
  split at hshape
  · cases hshape
    exact hkind
  rcases valueOf_eq_ok hvalue with ⟨sc, rfl⟩ | ⟨-, ⟨id, rfl, hid⟩ | ⟨id, rfl, hid⟩⟩
  · cases hshape
    trivial
  · dsimp only at hshape
    split at hshape
    · -- a map: its entry is a message of the file, whose value field the check reads
      rename_i hmap
      obtain ⟨key, v, rfl, vf, hvf, hv⟩ := mapShape_value hshape
      have hfile := Session.entriesLocal_file hloc hm hfd hid (by simp_all)
      have hentry : s.graph.message id ∈ (s.graph.file k).messages := by
        rcases getD_mem_or_default (s.graph.file id.file).messages id.index with h | h
        · rw [← hfile]
          exact h
        · unfold Graph.message at hvf
          rw [h] at hvf
          cases hvf
      exact kindPackaged_of_valueOf hs hrefs hproto hentry hvf hv
    · cases hshape
      exact hkind
  · cases hshape
    exact hkind

end Checked

/-- A file has a converter only when one of its messages is not a map entry. -/
theorem Source.any_of_converterFile {c : Source} {a : Artifact}
    (ha : c.converterFile = .ok (some a)) : c.unit.messages.any (!·.mapEntry) = true := by
  unfold Source.converterFile at ha
  dsimp only at ha
  split at ha
  · cases ha
  rename_i hne
  obtain ⟨i, hlt, hentry⟩ : ∃ i < c.unit.messages.length, (c.message i).mapEntry = false := by
    simpa using hne
  refine List.any_eq_true.2 ⟨_, List.getElem_mem hlt, ?_⟩
  simpa [Source.message, List.getElem?_eq_getElem hlt] using hentry

/-- A file to generate of a checked session that passes the package check, with its map
entries declared beside their fields, gives its converter every package it needs. -/
theorem Session.converterPackages {r : Request} {s : Session} (hs : Session.checked r = .ok s)
    (hpk : checkJavaPackages s = .ok ()) {k : Nat} (hk : k ∈ s.genFiles)
    (hloc : s.entriesLocal k = true)
    (hany : (s.graph.file k).messages.any (!·.mapEntry) = true) :
    (Source.mk s k).ConverterPackages := by
  obtain ⟨refs, hrefs, hproto⟩ := protoPackage_of_checkJavaPackages hpk hk hany
  refine ⟨Session.checked_converterPackage hs,
    Session.checked_voPackage hs (Session.checked_genFiles_lt hs hk),
    hproto k (mem_referencedFiles hrefs).1, fun i fd hfd cf hcl => ?_⟩
  rcases getD_mem_or_default (s.graph.file k).messages i with hm | hm
  · exact shapePackaged_of_classify hs hrefs hproto hloc hm hfd hcl
  · have hnil : (Source.mk s k).message i = default := hm
    rw [hnil] at hfd
    cases hfd

theorem Imports.imported_foldl_declare :
    ∀ (s : Imports) (names : List String), (names.foldl Imports.declare s).imported = s.imported
  | _, [] => rfl
  | s, n :: names => Imports.imported_foldl_declare (s.declare n) names

/-- An empty draft imports nothing. -/
theorem Draft.start_importsPackaged (pkg : String) (declared : List String) :
    (Draft.start pkg declared).imports.ImportsPackaged := by
  intro e he
  rw [Draft.start, Imports.imported_foldl_declare] at he
  cases he

/-- For a request that passes the package check, the converter of a file to generate whose
map fields hold entries declared in the file names classes of named packages only: its import
scope is the one of its empty draft after references to such classes, and each of its import
lines is `import pkg.Top;` with `pkg` not empty. -/
theorem Session.converter_names_packaged {r : Request} {s : Session}
    (hs : Session.checked r = .ok s) (hpk : checkJavaPackages s = .ok ()) {k : Nat}
    (hk : k ∈ s.genFiles) (hloc : s.entriesLocal k = true) {a : Artifact}
    (ha : (Source.mk s k).converterFile = .ok (some a)) :
    let cls := s.alloc.converterClass s.config.converterPackage k
    ∃ d : Draft, a = d.finish cls.package cls.simple (s.graph.file k) ∧
      Draft.RefersFrom ClassName.Packaged (Draft.start cls.package [cls.simple]) d ∧
      d.imports.ImportsPackaged := by
  intro cls
  have hpkgs := Session.converterPackages hs hpk hk hloc (Source.any_of_converterFile ha)
  obtain ⟨d, ⟨cs, hcs, himports⟩, rfl⟩ := Source.converterFile_refers_packaged hpkgs ha
  refine ⟨d, rfl, ⟨cs, hcs, himports⟩, ?_⟩
  rw [himports]
  exact Imports.importsPackaged_referenceAll (Draft.start_importsPackaged _ _) cs hcs

/-- A map entry message `name` from strings to the message `typeName`. -/
def mapEntryProto (name typeName : String) : MessageProto :=
  { name := some name
    field := [{ name := some "key", number := some 1, label := some 1, fieldType := some 9 },
      { name := some "value", number := some 2, label := some 1, fieldType := some 11
        typeName := some typeName }]
    options := some { mapEntry := some true } }

/-- The file `a.proto` of package `a`, whose message `A` maps strings to the message `V` of
`c.proto` (package `c`) through an entry declared in `A`. -/
def localEntryRequest : Request :=
  { fileToGenerate := ["a.proto"], parameter := some "vopkg=v"
    protoFile := [
      { name := some "c.proto", package := some "c", messageType := [{ name := some "V" }] },
      { name := some "a.proto", package := some "a"
        messageType := [
          { name := some "A"
            field := [{ name := some "m", number := some 1, label := some 3, fieldType := some 11
                        typeName := some ".a.A.MEntry" }]
            nestedType := [mapEntryProto "MEntry" ".c.V"] }] }] }

/-- The same map with its entry declared in `b.proto` (package `b`) and `V` in a `c.proto`
with no package. -/
def foreignEntryRequest : Request :=
  { fileToGenerate := ["a.proto"], parameter := some "vopkg=v"
    protoFile := [
      { name := some "c.proto", messageType := [{ name := some "V" }] },
      { name := some "b.proto", package := some "b", messageType := [mapEntryProto "E" ".V"] },
      { name := some "a.proto", package := some "a"
        messageType := [
          { name := some "A"
            field := [{ name := some "m", number := some 1, label := some 3, fieldType := some 11
                        typeName := some ".b.E" }] }] }] }

/-- Both requests pass the package check. The first has a converter and its entry beside its
map; in the second, reading `A` imports the class `C` of the unnamed package. -/
theorem mapRequests_evaluated :
    ((match Session.checked localEntryRequest with
      | .ok s => (checkJavaPackages s).toBool && s.genFiles == [1] && s.entriesLocal 1 &&
          (match (Source.mk s 1).converterFile with
            | .ok (some _) => true
            | _ => false)
      | .error _ => false) &&
    (match Session.checked foreignEntryRequest with
      | .ok s => (checkJavaPackages s).toBool &&
          (match ((Source.mk s 2).decode ⟨2, 0⟩).run (Draft.start "v.converter" ["AConverter"]) with
            | .ok (_, d) => d.imports.lines.contains "import .C;" &&
                d.imports.imported.contains ("C", ".C")
            | .error _ => false)
      | .error _ => false)) = true := by
  decide +kernel

theorem checkJavaPackages_eq_ok_of_toBool {s : Session} (h : (checkJavaPackages s).toBool = true) :
    checkJavaPackages s = .ok () := by
  cases hc : checkJavaPackages s with
  | error e =>
    rw [hc] at h
    cases h
  | ok u => rfl

theorem localEntryRequest_names_packaged :
    ∃ s, Session.checked localEntryRequest = .ok s ∧ checkJavaPackages s = .ok () ∧
      1 ∈ s.genFiles ∧ s.entriesLocal 1 = true ∧ ∃ a,
        (Source.mk s 1).converterFile = .ok (some a) ∧
        let cls := s.alloc.converterClass s.config.converterPackage 1
        ∃ d : Draft, a = d.finish cls.package cls.simple (s.graph.file 1) ∧
          Draft.RefersFrom ClassName.Packaged (Draft.start cls.package [cls.simple]) d ∧
          d.imports.ImportsPackaged := by
  have hboth := mapRequests_evaluated
  rw [Bool.and_eq_true] at hboth
  obtain ⟨hlocal, -⟩ := hboth
  cases hs : Session.checked localEntryRequest with
  | error e =>
    rw [hs] at hlocal
    cases hlocal
  | ok s =>
    rw [hs] at hlocal
    simp only [Bool.and_eq_true, beq_iff_eq] at hlocal
    obtain ⟨⟨⟨hpk, hgen⟩, hloc⟩, hconv⟩ := hlocal
    have hpk := checkJavaPackages_eq_ok_of_toBool hpk
    have hk : 1 ∈ s.genFiles := by simp [hgen]
    cases ha : (Source.mk s 1).converterFile with
    | error e =>
      rw [ha] at hconv
      cases hconv
    | ok o =>
      cases o with
      | none =>
        rw [ha] at hconv
        cases hconv
      | some a =>
        exact ⟨s, rfl, hpk, hk, hloc, a, ha, Session.converter_names_packaged hs hpk hk hloc ha⟩

/-- With the map's entry declared in another file, the package check passes while the
converter's reading of `A` imports the class `C` of the unnamed package, as the line that
names `.C`: the converter names a class the check does not cover. -/
theorem foreignEntryRequest_imports_bare :
    ∃ s, Session.checked foreignEntryRequest = .ok s ∧ checkJavaPackages s = .ok () ∧
      (∃ d, ((Source.mk s 2).decode ⟨2, 0⟩).run (Draft.start "v.converter" ["AConverter"]) =
        .ok ((), d) ∧ "import .C;" ∈ d.imports.lines) ∧
      ¬ NamesOnly ClassName.Packaged ((Source.mk s 2).decode ⟨2, 0⟩) fun _ => True := by
  have hboth := mapRequests_evaluated
  rw [Bool.and_eq_true] at hboth
  obtain ⟨-, hforeign⟩ := hboth
  cases hs : Session.checked foreignEntryRequest with
  | error e =>
    rw [hs] at hforeign
    cases hforeign
  | ok s =>
    rw [hs] at hforeign
    simp only [Bool.and_eq_true] at hforeign
    obtain ⟨hpk, hrun⟩ := hforeign
    cases hd : ((Source.mk s 2).decode ⟨2, 0⟩).run (Draft.start "v.converter" ["AConverter"]) with
    | error e =>
      rw [hd] at hrun
      cases hrun
    | ok r =>
      obtain ⟨u, d⟩ := r
      rw [hd] at hrun
      simp only [Bool.and_eq_true, List.contains_iff_mem] at hrun
      obtain ⟨hline, hbare⟩ := hrun
      refine ⟨s, rfl, checkJavaPackages_eq_ok_of_toBool hpk, ⟨d, hd, hline⟩, fun hnames => ?_⟩
      -- a scope reached by references to classes of named packages imports no bare class
      obtain ⟨-, cs, hcs, himports⟩ := hnames _ () d hd
      have hpacked := Imports.importsPackaged_referenceAll
        (Draft.start_importsPackaged "v.converter" ["AConverter"]) cs hcs
      rw [← himports] at hpacked
      exact hpacked.not_mem_bare "C" hbare

end BeanCodegen
