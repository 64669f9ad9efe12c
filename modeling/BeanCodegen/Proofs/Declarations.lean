import Mathlib
import BeanCodegen.Emit.Draft
import BeanCodegen.Shape.Render
import BeanCodegen.Proofs.Imports
/-! # Classes a draft declares

The pieces of a draft are read as the class declarations they make: each declaration with the
chain of class names from the outermost class of the file down to it, and the descriptor path
its header is annotated with. A class declared inside a block that is not a class (a method
body) adds nothing to the chain, since Java does not name it through that block.

The generation steps are then specified by what they do to a draft when they succeed
(`Runs`): a relation between the draft before and after. Two relations matter here. `Adds`
writes pieces that declare given classes, keeps the file's nested class names and may only append
to its declared top-level names (a reference to a class of the file's own package declares
it); `Registers` writes nothing and adds given nested class names. The rules for binding, looping, branching
and the writing primitives let each generator's effect be read off its code.
-/

namespace BeanCodegen.Emit

open BeanCodegen.Java BeanCodegen.Shape

/-- A declared class: the simple names from the outermost declared class down to it, and the
descriptor path its header is annotated with, if any. -/
abbrev Decl := List String × Option (List Nat)

/-- A declaration seen from inside a class named `name`. -/
def Decl.within (name : String) (c : Decl) : Decl := (name :: c.1, c.2)

mutual

/-- The classes a piece declares. -/
def Piece.classes : Piece → List Decl
  | .decl path _ name _ inner => ([name], path) :: (Piece.classesAll inner).map (Decl.within name)
  | .body _ inner => Piece.classesAll inner
  | .line _ => []
  | .blank => []
  | .comment _ => []
  | .annotated .. => []

/-- The classes pieces declare, in order. -/
def Piece.classesAll : List Piece → List Decl
  | [] => []
  | p :: ps => Piece.classes p ++ Piece.classesAll ps

end

@[simp] theorem Piece.classesAll_nil : Piece.classesAll [] = [] := rfl

@[simp] theorem Piece.classesAll_cons (p : Piece) (ps : List Piece) :
    Piece.classesAll (p :: ps) = p.classes ++ Piece.classesAll ps := rfl

@[simp] theorem Piece.classesAll_append (ps qs : List Piece) :
    Piece.classesAll (ps ++ qs) = Piece.classesAll ps ++ Piece.classesAll qs := by
  induction ps with
  | nil => rfl
  | cons p ps ih => rw [List.cons_append, classesAll_cons, classesAll_cons, ih, List.append_assoc]

/-! ## Effects on a draft -/

/-- `d'` is `d` with pieces declaring the classes `cls` written after its own, the same
nested class names, and its declared names extended. -/
def Draft.Adds (cls : List Decl) (d d' : Draft) : Prop :=
  ∃ ps, d'.out = ps.reverse ++ d.out ∧ Piece.classesAll ps = cls ∧
    d'.imports.nestedNames = d.imports.nestedNames ∧ d.imports.declared <+: d'.imports.declared

/-- `d'` is `d` with nothing written, the same declared names, and the nested class names
`names` added. -/
def Draft.Registers (names : List String) (d d' : Draft) : Prop :=
  d'.out = d.out ∧ d'.imports.declared = d.imports.declared ∧
    ∀ n, n ∈ d'.imports.nestedNames ↔ n ∈ d.imports.nestedNames ∨ n ∈ names

theorem Draft.Adds.refl (d : Draft) : Draft.Adds [] d d :=
  ⟨[], rfl, rfl, rfl, List.prefix_refl _⟩

theorem Draft.Adds.trans {c₁ c₂ : List Decl} {d d' d'' : Draft} (h : Draft.Adds c₁ d d')
    (h' : Draft.Adds c₂ d' d'') : Draft.Adds (c₁ ++ c₂) d d'' := by
  obtain ⟨ps, hout, hcls, hnest, hdecl⟩ := h
  obtain ⟨qs, hout', hcls', hnest', hdecl'⟩ := h'
  refine ⟨ps ++ qs, ?_, by rw [Piece.classesAll_append, hcls, hcls'], hnest'.trans hnest,
    hdecl.trans hdecl'⟩
  rw [hout', hout, List.reverse_append, List.append_assoc]

theorem Draft.Registers.refl (d : Draft) : Draft.Registers [] d d :=
  ⟨rfl, rfl, fun _ => by simp⟩

theorem Draft.Registers.trans {n₁ n₂ : List String} {d d' d'' : Draft}
    (h : Draft.Registers n₁ d d') (h' : Draft.Registers n₂ d' d'') :
    Draft.Registers (n₁ ++ n₂) d d'' := by
  refine ⟨h'.1.trans h.1, h'.2.1.trans h.2.1, fun n => ?_⟩
  rw [h'.2.2, h.2.2, List.mem_append]
  tauto

/-- What `p` does whenever it succeeds: from a draft `d` it gives a result with `post` and a
draft `d'` with `R d d'`. -/
def Runs (p : EmitM α) (post : α → Prop) (R : Draft → Draft → Prop) : Prop :=
  ∀ d a d', p.run d = .ok (a, d') → post a ∧ R d d'

theorem run_bind_eq_ok {p : EmitM α} {f : α → EmitM β} {d d'' : Draft} {b : β}
    (h : (p >>= f).run d = .ok (b, d'')) :
    ∃ a d', p.run d = .ok (a, d') ∧ (f a).run d' = .ok (b, d'') := by
  rw [StateT.run_bind] at h
  cases hp : p.run d with
  | error e =>
    rw [hp] at h
    cases h
  | ok r =>
    rw [hp] at h
    exact ⟨r.1, r.2, rfl, h⟩

section Runs

variable {p : EmitM α} {P Q : α → Prop} {R S : Draft → Draft → Prop}

theorem Runs.mono (h : Runs p P R) (hP : ∀ a, P a → Q a) (hR : ∀ d d', R d d' → S d d') :
    Runs p Q S := fun d a d' hrun =>
  ⟨hP a (h d a d' hrun).1, hR d d' (h d a d' hrun).2⟩

theorem Runs.bind {f : α → EmitM β} {Q : β → Prop} (R₂ : Draft → Draft → Prop)
    (hp : Runs p P R) (hf : ∀ a, P a → Runs (f a) Q R₂) :
    Runs (p >>= f) Q (Relation.Comp R R₂) := by
  intro d b d'' hrun
  obtain ⟨a, d', h₁, h₂⟩ := run_bind_eq_ok hrun
  obtain ⟨ha, hR⟩ := hp d a d' h₁
  obtain ⟨hb, hR₂⟩ := hf a ha d' b d'' h₂
  exact ⟨hb, d', hR, hR₂⟩

theorem Runs.pure {a : α} (ha : P a) (hR : ∀ d, R d d) : Runs (Pure.pure a : EmitM α) P R := by
  intro d b d' hrun
  cases hrun
  exact ⟨ha, hR d⟩

theorem Runs.ite (c : Prop) [Decidable c] {q : EmitM α} (hp : Runs p P R) (hq : Runs q P S) :
    Runs (if c then p else q) P (fun d d' => if c then R d d' else S d d') := by
  by_cases hc : c
  · simpa only [hc, if_true] using hp
  · simpa only [hc, if_false] using hq

/-- A loop over a list whose body always goes on has the effect of its body once per element,
chained in order: `T xs` is that chain over `xs`. -/
theorem Runs.forIn {β : Type} {f : β → PUnit → EmitM (ForInStep PUnit)}
    {R : β → Draft → Draft → Prop} (T : List β → Draft → Draft → Prop)
    (hnil : ∀ d, T [] d d) (hcons : ∀ x xs d d' d'', R x d d' → T xs d' d'' → T (x :: xs) d d'') :
    ∀ xs : List β, (∀ x ∈ xs, Runs (f x ⟨⟩) (· = .yield ⟨⟩) (R x)) →
      Runs (forIn xs ⟨⟩ f) (fun _ => True) (T xs)
  | [], _ => by
    rw [List.forIn_nil]
    exact Runs.pure trivial hnil
  | x :: xs, h => by
    rw [List.forIn_cons]
    have hrest := Runs.forIn T hnil hcons xs fun y hy => h y (List.mem_cons_of_mem x hy)
    -- the body yields, so the loop goes on with the rest of the list
    refine (Runs.bind (T xs) (h x List.mem_cons_self) fun r hr => ?_).mono (fun _ h => h) ?_
    · subst hr
      exact hrest
    · rintro d d'' ⟨d', h₁, h₂⟩
      exact hcons x xs d d' d'' h₁ h₂

end Runs

/-! ## Steps on the imports -/

/-- A step on the import scope that only resolves references: it keeps the names of the
file's nested classes and may only append to its declared names. -/
def Refers (m : StateM Imports α) : Prop :=
  ∀ i, (m.run i).2.nestedNames = i.nestedNames ∧ i.declared <+: (m.run i).2.declared

theorem Imports.declare_refers (s : Imports) (n : String) :
    (s.declare n).nestedNames = s.nestedNames ∧ s.declared <+: (s.declare n).declared := by
  refine ⟨rfl, ?_⟩
  unfold Imports.declare
  split
  · exact List.prefix_refl _
  · exact List.prefix_append _ _

/-- A reference keeps the scope, declares a class of the file's own package, or imports a
class of another. -/
theorem Imports.reference_refers (s : Imports) (c : ClassName) :
    (s.reference c).2.nestedNames = s.nestedNames ∧
      s.declared <+: (s.reference c).2.declared := by
  unfold Imports.reference
  dsimp only
  split
  · exact ⟨rfl, List.prefix_refl _⟩
  split
  · split
    · split
      · exact ⟨rfl, List.prefix_refl _⟩
      · exact Imports.declare_refers s _
    · exact Imports.declare_refers s _
  split
  · exact ⟨rfl, List.prefix_refl _⟩
  split
  · split <;> exact ⟨rfl, List.prefix_refl _⟩
  · split <;> exact ⟨rfl, List.prefix_refl _⟩

section Refers

variable {m : StateM Imports α}

theorem Refers.pure (a : α) : Refers (Pure.pure a : StateM Imports α) := fun _ =>
  ⟨rfl, List.prefix_refl _⟩

theorem Refers.bind {f : α → StateM Imports β} (hm : Refers m)
    (hf : ∀ a, Refers (f a)) : Refers (m >>= f) := fun i =>
  ⟨(hf (m.run i).1 (m.run i).2).1.trans (hm i).1, (hm i).2.trans (hf (m.run i).1 (m.run i).2).2⟩

theorem Refers.map (f : α → β) (hm : Refers m) : Refers (f <$> m) := hm

theorem Refers.refer (c : ClassName) : Refers (refer c) := fun i =>
  Imports.reference_refers i c

theorem Refers.render (s : Session) (boxed : Bool) (v : ValueKind) :
    Refers (v.render s boxed) := by
  cases v with
  | scalar k => exact Refers.pure _
  | message id => exact Refers.refer _
  | enum id => exact Refers.refer _

theorem Refers.firstConstant (s : Session) (id : Schema.EnumId) :
    Refers (firstConstant s id) := by
  unfold Shape.firstConstant
  split
  · exact (Refers.refer _).bind fun _ => Refers.pure _
  · exact Refers.pure _

theorem Refers.zero (s : Session) (v : ValueKind) : Refers (v.zero s) := by
  cases v with
  | scalar k => exact Refers.pure _
  | message id => exact Refers.pure _
  | enum id => exact Refers.firstConstant s id

theorem Refers.listOf (item : String) : Refers (listOf item) :=
  (Refers.refer _).bind fun _ => Refers.pure _

theorem Refers.renderType (s : Session) (f : Classified) :
    Refers (f.renderType s) := by
  have hnamed : ∀ (v : ValueKind) (rep : Bool), Refers (do
      let cls ← v.render s true
      if rep then Shape.listOf cls else Pure.pure cls : StateM Imports String) := fun v rep =>
    (Refers.render s true v).bind fun cls => by
      cases rep
      · exact Refers.pure _
      · exact Refers.listOf cls
  unfold Classified.renderType
  split
  · exact Refers.render _ _ _
  · exact Refers.listOf _
  · exact hnamed _ _
  · exact hnamed _ _
  · exact hnamed _ _
  · exact hnamed _ _
  · split
    · exact Refers.listOf _
    · exact Refers.pure _
  · exact (Refers.refer _).bind fun _ => (Refers.render _ _ _).bind fun _ =>
      Refers.pure _
  · exact Refers.render _ _ _

theorem Refers.renderDefault (s : Session) (f : Classified) :
    Refers (f.renderDefault s) := by
  unfold Classified.renderDefault
  split
  · exact Refers.pure _
  · exact Refers.pure _
  · exact (Refers.refer _).bind fun _ => Refers.pure _

theorem Refers.initializer (s : Session) (f : Classified) (k : Option String) :
    Refers (f.initializer s k) := by
  unfold Classified.initializer
  split
  · exact Refers.pure _
  · split
    · exact Refers.pure _
    · -- the collections name their implementation class, an enum its first constant
      split <;> first
        | exact Refers.pure _
        | exact ((Refers.refer _).map _).bind fun _ => Refers.pure _
        | exact (Refers.firstConstant _ _).map _

theorem Refers.getterDefault (s : Session) (f : Classified) (k : Option String) :
    Refers (f.getterDefault s k) := by
  unfold Classified.getterDefault
  split
  · exact Refers.pure _
  · split
    · exact Refers.zero _ _
    · exact Refers.pure _

end Refers


/-! ## Declaring classes -/

/-- `p` declares the classes `cls` whenever it succeeds, with a result satisfying `post`. -/
def Emits (p : EmitM α) (post : α → Prop) (cls : List Decl) : Prop := Runs p post (Draft.Adds cls)

section Emits

variable {p : EmitM α} {P : α → Prop} {c c' c₁ c₂ : List Decl}

theorem Emits.of_eq (h : Emits p P c) (hc : c = c') : Emits p P c' := hc ▸ h

theorem Emits.bind {f : α → EmitM β} {Q : β → Prop} (hp : Emits p P c₁)
    (hf : ∀ a, P a → Emits (f a) Q c₂) : Emits (p >>= f) Q (c₁ ++ c₂) :=
  (Runs.bind (Draft.Adds c₂) hp hf).mono (fun _ h => h) fun _ _ ⟨_, h₁, h₂⟩ => h₁.trans h₂

theorem Emits.pure {a : α} (ha : P a) : Emits (Pure.pure a : EmitM α) P [] :=
  Runs.pure ha Draft.Adds.refl

/-- The end of a loop's body. -/
theorem Emits.yield : Emits (Pure.pure (ForInStep.yield PUnit.unit) : EmitM (ForInStep PUnit))
    (· = .yield PUnit.unit) [] :=
  Emits.pure rfl

/-- A step that declares nothing, followed by others. -/
theorem Emits.seq {f : α → EmitM β} {Q : β → Prop} (hp : Emits p (fun _ => True) [])
    (hf : ∀ a, Emits (f a) Q c) : Emits (p >>= f) Q c :=
  Emits.bind hp fun a _ => hf a

theorem Emits.mono {Q : α → Prop} (h : Emits p P c) (hP : ∀ a, P a → Q a) : Emits p Q c :=
  Runs.mono h hP fun _ _ h => h

theorem Emits.ite (b : Prop) [Decidable b] {q : EmitM α} (hp : Emits p P c₁)
    (hq : Emits q P c₂) : Emits (if b then p else q) P (if b then c₁ else c₂) := by
  by_cases hb : b
  · simpa only [hb, if_true] using hp
  · simpa only [hb, if_false] using hq

theorem Emits.forIn {β : Type} {f : β → PUnit → EmitM (ForInStep PUnit)} (F : β → List Decl)
    (xs : List β) (h : ∀ x ∈ xs, Emits (f x ⟨⟩) (· = .yield ⟨⟩) (F x)) :
    Emits (forIn xs ⟨⟩ f) (fun _ => True) (xs.flatMap F) :=
  Runs.forIn (fun ys => Draft.Adds (ys.flatMap F)) Draft.Adds.refl
    (fun _ _ _ _ _ h₁ h₂ => h₁.trans h₂) xs h

/-- A loop whose body declares `F x` and establishes `Q x` for each element. -/
theorem Emits.forAll {β : Type} {f : β → PUnit → EmitM (ForInStep PUnit)} (F : β → List Decl)
    (Q : β → Prop) (xs : List β)
    (h : ∀ x ∈ xs, Emits (f x ⟨⟩) (fun r => r = .yield ⟨⟩ ∧ Q x) (F x)) :
    Emits (ForIn.forIn xs PUnit.unit f) (fun _ => ∀ x ∈ xs, Q x) (xs.flatMap F) := by
  -- the facts ride along the relation, where the loop rule chains them
  have hbody : ∀ x ∈ xs, Runs (f x ⟨⟩) (· = .yield ⟨⟩)
      (fun d d' => Draft.Adds (F x) d d' ∧ Q x) := fun x hx d a d' hrun =>
    ⟨(h x hx d a d' hrun).1.1, (h x hx d a d' hrun).2, (h x hx d a d' hrun).1.2⟩
  have hloop := Runs.forIn (fun ys d d' => Draft.Adds (ys.flatMap F) d d' ∧ ∀ y ∈ ys, Q y)
    (fun d => ⟨Draft.Adds.refl d, by simp⟩)
    (fun y ys _ _ _ h₁ h₂ => ⟨h₁.1.trans h₂.1, by simpa using ⟨h₁.2, h₂.2⟩⟩) xs hbody
  exact fun d a d' hrun => ⟨(hloop d a d' hrun).2.2, (hloop d a d' hrun).2.1⟩

/-- A loop whose body declares nothing. -/
theorem Emits.forIn_quiet {β : Type} {f : β → PUnit → EmitM (ForInStep PUnit)} (xs : List β)
    (h : ∀ x ∈ xs, Emits (f x ⟨⟩) (· = .yield ⟨⟩) []) :
    Emits (ForIn.forIn xs PUnit.unit f) (fun _ => True) [] :=
  (Emits.forIn (fun _ => []) xs h).of_eq (by simp)

theorem Emits.put (p : Piece) : Emits (put p) (fun _ => True) p.classes := by
  intro d a d' hrun
  have hput : (Emit.put p).run d = .ok ((), { d with out := p :: d.out }) := rfl
  rw [hput] at hrun
  cases hrun
  exact ⟨trivial, [p], rfl, by simp, rfl, List.prefix_refl _⟩

theorem Emits.line (t : String) : Emits (line t) (fun _ => True) [] := Emits.put _

/-- A line written only when `b` holds, before the rest, as `if b then line t` elaborates in a
`do` block. -/
theorem Emits.optLine (b : Bool) (t : String) {k : Unit → EmitM α} (hk : ∀ u, Emits (k u) P c) :
    Emits (if b = true then (do let r ← Emit.line t; k r) else k ()) P c := by
  split
  · exact (Emits.line t).seq hk
  · exact hk ()

theorem Emits.blank : Emits blank (fun _ => True) [] := Emits.put _

theorem Emits.annotated (path : List Nat) (pre name suf : String) :
    Emits (annotated path pre name suf) (fun _ => True) [] := Emits.put _

theorem Emits.comment (t : Option String) : Emits (comment t) (fun _ => True) [] := Emits.put _

/-- A step on the imports that only resolves references declares nothing. -/
theorem Emits.onImports {m : StateM Imports α} (hm : Refers m) :
    Emits (onImports m) (fun _ => True) [] := by
  intro d a d' hrun
  have hstep : (Emit.onImports m).run d =
      .ok ((m.run d.imports).1, { d with imports := (m.run d.imports).2 }) := rfl
  rw [hstep] at hrun
  cases hrun
  exact ⟨trivial, [], rfl, rfl, (hm d.imports).1, (hm d.imports).2⟩

theorem Emits.liftExcept (r : Except GenError α) : Emits (liftExcept r) (fun a => r = .ok a) [] := by
  intro d a d' hrun
  cases r with
  | error e => cases hrun
  | ok b =>
    cases hrun
    exact ⟨rfl, Draft.Adds.refl d⟩

/-- Steps run on an empty body keep the draft and give back what they wrote. -/
theorem Emits.inside {C : Prop} {inner : EmitM Unit} (h : Emits inner (fun _ => C) c) :
    Emits (inside inner) (fun qs => C ∧ Piece.classesAll qs.reverse = c) [] := by
  intro d qs d' hrun
  obtain ⟨outer, d₁, h₁, hrun⟩ := run_bind_eq_ok hrun
  obtain ⟨u, d₂, h₂, h₃⟩ := run_bind_eq_ok hrun
  have hd₁ : outer = d.out ∧ d₁ = { d with out := [] } := by
    cases h₁
    exact ⟨rfl, rfl⟩
  obtain ⟨rfl, rfl⟩ := hd₁
  have hd' : qs = d₂.out ∧ d' = { d₂ with out := d.out } := by
    cases h₃
    exact ⟨rfl, rfl⟩
  obtain ⟨rfl, rfl⟩ := hd'
  obtain ⟨hC, ps, hout, hcls, hnest, hdecl⟩ := h _ u d₂ h₂
  have hout' : d₂.out = ps.reverse := by simpa using hout
  refine ⟨⟨hC, ?_⟩, [], rfl, rfl, hnest, hdecl⟩
  show Piece.classesAll d₂.out.reverse = c
  rw [hout', List.reverse_reverse, hcls]

theorem Emits.body {inner : EmitM Unit} (footer : String) (h : Emits inner (fun _ => True) c) :
    Emits (body footer inner) (fun _ => True) c := by
  have hput : ∀ qs : List Piece, True ∧ Piece.classesAll qs.reverse = c →
      Emits (Emit.put (.body footer qs.reverse)) (fun _ => True) c := by
    rintro qs ⟨-, hqs⟩
    have hp := Emits.put (Piece.body footer qs.reverse)
    simp only [Piece.classes, hqs] at hp
    exact hp
  exact Emits.bind (Emits.inside h) hput

theorem Emits.block {inner : EmitM Unit} (header footer : String)
    (h : Emits inner (fun _ => True) c) : Emits (block header footer inner) (fun _ => True) c :=
  Emits.bind (Emits.line header) fun _ _ => Emits.body footer h

theorem Emits.braces {inner : EmitM Unit} (header : String) (h : Emits inner (fun _ => True) c) :
    Emits (braces header inner) (fun _ => True) c :=
  Emits.block _ _ h

/-- A class declaration declares its class, and what its body declares inside it; what its
body establishes holds after it. -/
theorem Emits.declClass {C : Prop} {inner : EmitM Unit} (path : Option (List Nat))
    (pre name suf : String) (h : Emits inner (fun _ => C) c) :
    Emits (declClass path pre name suf inner) (fun _ => C)
      (([name], path) :: c.map (Decl.within name)) := by
  have hput : ∀ qs : List Piece, C ∧ Piece.classesAll qs.reverse = c →
      Emits (Emit.put (.decl path pre name suf qs.reverse)) (fun _ => C)
        (([name], path) :: c.map (Decl.within name)) := by
    rintro qs ⟨hC, hqs⟩
    have hp := Emits.put (Piece.decl path pre name suf qs.reverse)
    simp only [Piece.classes, hqs] at hp
    exact hp.mono fun _ _ => hC
  exact Emits.bind (Emits.inside h) hput

/-- A class with nothing declared inside it. -/
theorem Emits.declLeaf {inner : EmitM Unit} (path : Option (List Nat)) (pre name suf : String)
    (h : Emits inner (fun _ => True) []) :
    Emits (Emit.declClass path pre name suf inner) (fun _ => True) [([name], path)] :=
  Emits.declClass path pre name suf h

end Emits

theorem Emits.nameClass (c : ClassName) : Emits (nameClass c) (fun _ => True) [] :=
  Emits.onImports (Refers.refer c)

/-! ## Registering nested classes -/

/-- `p` writes nothing and adds the nested class names `names` whenever it succeeds, with a
result satisfying `post`. -/
def Registers (p : EmitM α) (post : α → Prop) (names : List String) : Prop :=
  Runs p post (Draft.Registers names)

section Registers

variable {p : EmitM α} {P : α → Prop} {n n' n₁ n₂ : List String}

theorem Registers.of_eq (h : Registers p P n) (hn : n = n') : Registers p P n' := hn ▸ h

theorem Registers.bind {f : α → EmitM β} {Q : β → Prop} (hp : Registers p P n₁)
    (hf : ∀ a, P a → Registers (f a) Q n₂) : Registers (p >>= f) Q (n₁ ++ n₂) :=
  (Runs.bind (Draft.Registers n₂) hp hf).mono (fun _ h => h) fun _ _ ⟨_, h₁, h₂⟩ => h₁.trans h₂

theorem Registers.pure {a : α} (ha : P a) : Registers (Pure.pure a : EmitM α) P [] :=
  Runs.pure ha Draft.Registers.refl

theorem Registers.yield :
    Registers (Pure.pure (ForInStep.yield PUnit.unit) : EmitM (ForInStep PUnit))
      (· = .yield PUnit.unit) [] :=
  Registers.pure rfl

theorem Registers.ite (b : Prop) [Decidable b] {q : EmitM α} (hp : Registers p P n₁)
    (hq : Registers q P n₂) : Registers (if b then p else q) P (if b then n₁ else n₂) := by
  by_cases hb : b
  · simpa only [hb, if_true] using hp
  · simpa only [hb, if_false] using hq

theorem Registers.forIn {β : Type} {f : β → PUnit → EmitM (ForInStep PUnit)}
    (N : β → List String) (xs : List β) (h : ∀ x ∈ xs, Registers (f x ⟨⟩) (· = .yield ⟨⟩) (N x)) :
    Registers (forIn xs ⟨⟩ f) (fun _ => True) (xs.flatMap N) :=
  Runs.forIn (fun ys => Draft.Registers (ys.flatMap N)) Draft.Registers.refl
    (fun _ _ _ _ _ h₁ h₂ => h₁.trans h₂) xs h

theorem Registers.declareNested (n : String) :
    Registers (declareNested n) (fun _ => True) [n] := by
  intro d a d' hrun
  have hstep : (Emit.declareNested n).run d =
      .ok ((), { d with imports := d.imports.declareNested n }) := rfl
  rw [hstep] at hrun
  cases hrun
  refine ⟨trivial, rfl, rfl, fun m => ?_⟩
  rw [Imports.mem_declareNested_nestedNames, List.mem_singleton]

/-- A name registered only when `b` holds, before the rest. -/
theorem Registers.optNested (b : Bool) (name : String) {k : Unit → EmitM α}
    (hk : ∀ u, Registers (k u) P n) :
    Registers (if b = true then (do let r ← Emit.declareNested name; k r) else k ())
      P ((if b = true then [name] else []) ++ n) := by
  split
  · exact (Registers.declareNested name).bind fun u _ => hk u
  · exact hk ()

end Registers

/-! ## Drafting a file -/

/-- The classes a draft declares, in the order they are written. -/
def Draft.classes (d : Draft) : List Decl := Piece.classesAll d.out.reverse

/-- `d'` is `d` with pieces declaring `cls` written after its own, the nested class names
`names` added and its declared names extended: registering and writing together. -/
def Draft.Builds (cls : List Decl) (names : List String) (d d' : Draft) : Prop :=
  ∃ ps, d'.out = ps.reverse ++ d.out ∧ Piece.classesAll ps = cls ∧
    (∀ n, n ∈ d'.imports.nestedNames ↔ n ∈ d.imports.nestedNames ∨ n ∈ names) ∧
    d.imports.declared <+: d'.imports.declared

theorem Draft.Builds.trans {c₁ c₂ : List Decl} {n₁ n₂ : List String} {d d' d'' : Draft}
    (h : Draft.Builds c₁ n₁ d d') (h' : Draft.Builds c₂ n₂ d' d'') :
    Draft.Builds (c₁ ++ c₂) (n₁ ++ n₂) d d'' := by
  obtain ⟨ps, hout, hcls, hnest, hdecl⟩ := h
  obtain ⟨qs, hout', hcls', hnest', hdecl'⟩ := h'
  refine ⟨ps ++ qs, ?_, by rw [Piece.classesAll_append, hcls, hcls'], fun n => ?_,
    hdecl.trans hdecl'⟩
  · rw [hout', hout, List.reverse_append, List.append_assoc]
  · rw [hnest', hnest, List.mem_append]
    tauto

/-- `p` registers the nested class names `names` and declares the classes `cls`. -/
def Builds (p : EmitM α) (post : α → Prop) (cls : List Decl) (names : List String) : Prop :=
  Runs p post (Draft.Builds cls names)

section Builds

variable {p : EmitM α} {P : α → Prop} {c c' c₁ c₂ : List Decl} {n n' n₁ n₂ : List String}

theorem Builds.of_emits (h : Emits p P c) : Builds p P c [] :=
  Runs.mono h (fun _ h => h) fun _ _ ⟨ps, hout, hcls, hnest, hdecl⟩ =>
    ⟨ps, hout, hcls, fun m => by simp [hnest], hdecl⟩

theorem Builds.of_registers (h : Registers p P n) : Builds p P [] n :=
  Runs.mono h (fun _ h => h) fun _ _ ⟨hout, hdecl, hnest⟩ =>
    ⟨[], by simp [hout], rfl, hnest, by rw [hdecl]⟩

theorem Builds.bind {f : α → EmitM β} {Q : β → Prop} (hp : Builds p P c₁ n₁)
    (hf : ∀ a, P a → Builds (f a) Q c₂ n₂) : Builds (p >>= f) Q (c₁ ++ c₂) (n₁ ++ n₂) :=
  (Runs.bind (Draft.Builds c₂ n₂) hp hf).mono (fun _ h => h) fun _ _ ⟨_, h₁, h₂⟩ => h₁.trans h₂

theorem Builds.of_eq (h : Builds p P c n) (hc : c = c') (hn : n = n') : Builds p P c' n' :=
  hc ▸ hn ▸ h

/-- A file drafted from its top-level class `top`: what the steps establish holds, the draft
declares what they declare, its nested class names are those they register, and it declares
`top` first. -/
theorem Builds.draft {C : Prop} {steps : EmitM Unit} {pkg top : String} {d : Draft}
    (h : Builds steps (fun _ => C) c n) (hd : draft pkg [top] steps = .ok d) :
    C ∧ d.classes = c ∧ (∀ m, m ∈ d.imports.nestedNames ↔ m ∈ n) ∧
      [top] <+: d.imports.declared := by
  unfold Emit.draft at hd
  cases hrun : steps.run (Draft.start pkg [top]) with
  | error e =>
    rw [hrun] at hd
    cases hd
  | ok r =>
    rw [hrun] at hd
    obtain rfl : r.2 = d := by injection hd
    obtain ⟨hC, ps, hout, hcls, hnest, hdecl⟩ := h _ _ _ hrun
    have hstart : (Draft.start pkg [top]).out = [] ∧
        (Draft.start pkg [top]).imports.nestedNames = [] ∧
        (Draft.start pkg [top]).imports.declared = [top] := by
      simp [Draft.start, Imports.declare, Imports.empty]
    refine ⟨hC, ?_, fun m => ?_, ?_⟩
    · rw [Draft.classes, hout, hstart.1, List.append_nil, List.reverse_reverse, hcls]
    · simp [hnest, hstart.2.1]
    · rw [← hstart.2.2]
      exact hdecl

end Builds

end BeanCodegen.Emit
