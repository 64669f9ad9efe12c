import Mathlib
import BeanCodegen.Emit.Converter
import BeanCodegen.Proofs.BeanClasses
/-! # The pieces at the top of a file

A step writes its pieces at the level it runs at; a class declaration runs the steps of its body
on an empty level and writes them inside the declaration, leaving the outer pieces as they were.
So what lies at the top of a draft is what the file's own steps write there, and a relation on
drafts that only looks at the outer pieces (`Draft.Appends`) follows the top-level steps and
skips every class body.

The value classes write at their top level only comments, `@Deprecated` lines and class
declarations (`Source.beanDrafts_top`), and the converter writes its annotated class header and
then the body of the class (`Source.converterFile_top`): no file starts with the body of a class.
-/

namespace BeanCodegen.Emit

open BeanCodegen.Java BeanCodegen.Schema BeanCodegen.Plan BeanCodegen.Shape

/-- Whether a piece is a body, indented under a header written before it. -/
def Piece.isBody : Piece → Bool
  | .body .. => true
  | _ => false

/-- `d'` is `d` with pieces satisfying `P` written after its own. -/
def Draft.Appends (P : Piece → Prop) (d d' : Draft) : Prop :=
  ∃ ps, d'.out = ps ++ d.out ∧ ∀ p ∈ ps, P p

section Appends

variable {P : Piece → Prop} {p : EmitM α} {Q : α → Prop}

theorem Draft.Appends.of_out_eq {d d' : Draft} (h : d'.out = d.out) : Draft.Appends P d d' :=
  ⟨[], h, by simp⟩

theorem Draft.Appends.trans {d d' d'' : Draft} (h : Draft.Appends P d d')
    (h' : Draft.Appends P d' d'') : Draft.Appends P d d'' := by
  obtain ⟨ps, hout, hps⟩ := h
  obtain ⟨qs, hout', hqs⟩ := h'
  refine ⟨qs ++ ps, by rw [hout', hout, List.append_assoc], fun x hx => ?_⟩
  rcases List.mem_append.1 hx with hx | hx
  · exact hqs x hx
  · exact hps x hx

theorem Runs.put_out (x : Piece) : Runs (put x) (fun _ => True) (fun d d' => d'.out = x :: d.out) := by
  intro d a d' hrun
  have hput : (Emit.put x).run d = .ok ((), { d with out := x :: d.out }) := rfl
  rw [hput] at hrun
  cases hrun
  exact ⟨trivial, rfl⟩

/-- Steps run on an empty level leave the outer pieces as they were. -/
theorem Runs.inside_out (inner : EmitM Unit) :
    Runs (inside inner) (fun _ => True) (fun d d' => d'.out = d.out) := by
  intro d qs d' hrun
  obtain ⟨outer, d₁, h₁, hrun⟩ := run_bind_eq_ok hrun
  obtain ⟨u, d₂, -, h₃⟩ := run_bind_eq_ok hrun
  have hd₁ : outer = d.out := by
    cases h₁
    rfl
  have hd' : d'.out = outer := by
    cases h₃
    rfl
  exact ⟨trivial, hd'.trans hd₁⟩

theorem Runs.appends_pure {a : α} : Runs (Pure.pure a : EmitM α) (fun _ => True) (Draft.Appends P) :=
  Runs.pure trivial fun _ => .of_out_eq rfl

theorem Runs.appends_bind {f : α → EmitM β} {Q' : β → Prop} (hp : Runs p Q (Draft.Appends P))
    (hf : ∀ a, Q a → Runs (f a) Q' (Draft.Appends P)) : Runs (p >>= f) Q' (Draft.Appends P) :=
  (Runs.bind _ hp hf).mono (fun _ h => h) fun _ _ ⟨_, h₁, h₂⟩ => h₁.trans h₂

theorem Runs.appends_put {x : Piece} (hx : P x) : Runs (put x) (fun _ => True) (Draft.Appends P) :=
  (Runs.put_out x).mono (fun _ h => h) fun _ _ hout => ⟨[x], hout, by simpa using hx⟩

/-- A class declaration is one piece at the level it is written at, whatever its body writes. -/
theorem Runs.appends_declClass {path : Option (List Nat)} {pre name suf : String}
    {inner : EmitM Unit} (hx : ∀ qs, P (.decl path pre name suf qs)) :
    Runs (declClass path pre name suf inner) (fun _ => True) (Draft.Appends P) :=
  Runs.appends_bind ((Runs.inside_out inner).mono (fun _ h => h) fun _ _ => .of_out_eq)
    fun _ _ => Runs.appends_put (hx _)

theorem Runs.appends_liftExcept (r : Except GenError α) :
    Runs (liftExcept r) (fun _ => True) (Draft.Appends P) := by
  intro d a d' hrun
  cases r with
  | error e => cases hrun
  | ok b =>
    cases hrun
    exact ⟨trivial, .of_out_eq rfl⟩

theorem Runs.appends_of_registers {names : List String} (h : Registers p Q names) :
    Runs p Q (Draft.Appends P) :=
  h.mono (fun _ h => h) fun _ _ hreg => .of_out_eq hreg.1

theorem Runs.appends_mapM {β γ : Type} {f : β → EmitM γ} (hf : ∀ x, Runs (f x) (fun _ => True) (Draft.Appends P)) :
    ∀ xs : List β, Runs (xs.mapM f) (fun _ => True) (Draft.Appends P)
  | [] => Runs.appends_pure
  | x :: xs => by
    rw [List.mapM_cons]
    exact Runs.appends_bind (hf x) fun _ _ => Runs.appends_bind (Runs.appends_mapM hf xs)
      fun _ _ => Runs.appends_pure

theorem Runs.appends_forIn {β : Type} {f : β → PUnit → EmitM (ForInStep PUnit)} (xs : List β)
    (h : ∀ x ∈ xs, Runs (f x ⟨⟩) (· = .yield ⟨⟩) (Draft.Appends P)) :
    Runs (ForIn.forIn xs PUnit.unit f) (fun _ => True) (Draft.Appends P) :=
  Runs.forIn (fun _ => Draft.Appends P) (fun _ => Draft.Appends.of_out_eq rfl)
    (fun _ _ _ _ _ h₁ h₂ => Draft.Appends.trans h₁ h₂) xs h

/-- A line written only when `b` holds, before the rest, as `if b then line t` elaborates in a
`do` block. -/
theorem Runs.appends_optLine (b : Bool) (t : String) {k : Unit → EmitM α} (ht : P (.line t))
    (hk : ∀ u, Runs (k u) Q (Draft.Appends P)) :
    Runs (if b = true then (do let r ← Emit.line t; k r) else k ()) Q (Draft.Appends P) := by
  split
  · exact Runs.appends_bind (Runs.appends_put ht) fun u _ => hk u
  · exact hk ()

/-- What a file's steps do to the empty draft they start from. -/
theorem Runs.of_draft {R : Draft → Draft → Prop} {steps : EmitM Unit} {pkg : String}
    {declared : List String} {d : Draft} (h : Runs steps (fun _ => True) R)
    (hd : draft pkg declared steps = .ok d) : R (Draft.start pkg declared) d := by
  unfold Emit.draft at hd
  cases hrun : steps.run (Draft.start pkg declared) with
  | error e =>
    rw [hrun] at hd
    cases hd
  | ok r =>
    rw [hrun] at hd
    obtain rfl : r.2 = d := by injection hd
    exact (h _ _ _ hrun).2

/-- A file drafted by steps that write pieces satisfying `P` at their level has only such pieces
at its top. -/
theorem Runs.draft_out {steps : EmitM Unit} {pkg : String} {declared : List String} {d : Draft}
    (h : Runs steps (fun _ => True) (Draft.Appends P)) (hd : draft pkg declared steps = .ok d) :
    ∀ x ∈ d.out, P x := by
  obtain ⟨ps, hout, hps⟩ := Runs.of_draft h hd
  have hstart : (Draft.start pkg declared).out = [] := rfl
  rwa [hout, hstart, List.append_nil]

end Appends

/-- A body is one piece at the level it is written at, whatever it holds. -/
theorem Runs.body_out (footer : String) (inner : EmitM Unit) :
    Runs (body footer inner) (fun _ => True) (fun d d' => ∃ qs, d'.out = .body footer qs :: d.out) := by
  have hput : ∀ qs : List Piece, True → Runs (put (.body footer qs.reverse)) (fun _ => True)
      (fun d d' => ∃ qs, d'.out = .body footer qs :: d.out) := fun qs _ =>
    (Runs.put_out _).mono (fun _ h => h) fun _ _ h => ⟨qs.reverse, h⟩
  refine (Runs.bind _ (Runs.inside_out inner) hput).mono (fun _ h => h) ?_
  rintro d d'' ⟨d', h₁, qs, h₂⟩
  exact ⟨qs, by rw [h₂, h₁]⟩

/-- A header piece followed by a body. -/
theorem Runs.put_body_out (x : Piece) (footer : String) (inner : EmitM Unit) :
    Runs (do put x; body footer inner) (fun _ => True)
      (fun d d' => ∃ qs, d'.out = .body footer qs :: x :: d.out) := by
  refine (Runs.bind _ (Runs.put_out x) fun _ _ => Runs.body_out footer inner).mono
    (fun _ h => h) ?_
  rintro d d'' ⟨d', h₁, qs, h₂⟩
  exact ⟨qs, by rw [h₂, h₁]⟩

namespace Source

variable (c : Source)

/-- A message's class, with its leading comment and its deprecation mark, is one class
declaration at the level it is written at. -/
theorem top_messageClass : ∀ fuel i modifiers,
    Runs (c.messageClass fuel i modifiers) (fun _ => True) (Draft.Appends (·.isBody = false))
  | 0, _, _ => Runs.appends_pure
  | fuel + 1, i, modifiers => by
    rw [Source.messageClass]
    refine Runs.appends_bind (Runs.appends_mapM (fun _ => Runs.appends_liftExcept _) _)
      fun _ _ => Runs.appends_bind (Runs.appends_put rfl) fun _ _ => ?_
    exact Runs.appends_optLine _ _ rfl fun _ => Runs.appends_declClass fun _ => rfl

theorem top_enumeration (i : Nat) :
    Runs (c.enumeration i) (fun _ => True) (Draft.Appends (·.isBody = false)) := by
  unfold Source.enumeration
  dsimp only
  refine Runs.appends_bind (Runs.appends_put rfl) fun _ _ => ?_
  exact Runs.appends_optLine _ _ rfl fun _ => Runs.appends_declClass fun _ => rfl

theorem top_extensionsHolder (modifiers : String) :
    Runs (c.extensionsHolder modifiers) (fun _ => True) (Draft.Appends (·.isBody = false)) := by
  unfold Source.extensionsHolder
  split
  · exact Runs.appends_pure
  · exact Runs.appends_declClass fun _ => rfl

/-- The wrapper class of the per-file layout is one declaration, with everything nested in it. -/
theorem top_wrapperClass (wrapper : String) (messages enums : List Nat) :
    Runs (c.wrapperClass wrapper messages enums) (fun _ => True)
      (Draft.Appends (·.isBody = false)) :=
  Runs.appends_declClass fun _ => rfl

/-- Registering a message's nested classes and then writing its class. -/
theorem top_messageFile (i : Nat) (nested : Bool) (modifiers : String) :
    Runs (do c.declareMessage c.depth i nested; c.messageClass c.depth i modifiers)
      (fun _ => True) (Draft.Appends (·.isBody = false)) :=
  Runs.appends_bind (Runs.appends_of_registers (c.registers_declareMessage _ _ _)) fun _ _ =>
    c.top_messageClass _ _ _

/-- The value-class files have no body at their top: only the comments, deprecation marks and
declarations of their classes. -/
theorem beanDrafts_top {drafts : List (String × Draft)} (h : c.beanDrafts = .ok drafts) :
    ∀ x ∈ drafts, ∀ p ∈ x.2.out, p.isBody = false := by
  unfold Source.beanDrafts at h
  cases hw : c.plan.wrapperClass with
  | some wrapper =>
    -- registering the nested classes writes nothing; the wrapper is one declaration
    rw [hw] at h
    dsimp only at h
    split at h
    · cases h
      exact fun x hx => absurd hx List.not_mem_nil
    obtain ⟨d, hd, h⟩ := except_bind_eq_ok h
    cases h
    intro x hx
    obtain rfl := List.mem_singleton.1 hx
    have hyield : Runs (Pure.pure (ForInStep.yield PUnit.unit) : EmitM (ForInStep PUnit))
        (· = .yield PUnit.unit) (Draft.Appends (·.isBody = false)) :=
      Runs.pure rfl fun _ => .of_out_eq rfl
    refine Runs.draft_out ?_ hd
    refine Runs.appends_bind (Runs.appends_forIn _ fun i _ => Runs.appends_bind
      (Runs.appends_of_registers (c.registers_declareMessage _ _ _)) fun _ _ => hyield)
      fun _ _ => ?_
    refine Runs.appends_bind (Runs.appends_forIn _ fun e _ => Runs.appends_bind
      (Runs.appends_of_registers (Registers.declareNested _)) fun _ _ => hyield) fun _ _ => ?_
    split
    · exact Runs.appends_bind (Runs.appends_of_registers (Registers.declareNested _))
        fun _ _ => c.top_wrapperClass _ _ _
    · exact c.top_wrapperClass _ _ _
  | none =>
    -- a file for each top-level message, each top-level enum and the extension holder
    rw [hw] at h
    dsimp only at h
    obtain ⟨ofMessages, hm, h⟩ := except_bind_eq_ok h
    obtain ⟨ofEnums, he, h⟩ := except_bind_eq_ok h
    have hfiles : ∀ holders : List (String × Draft), (∀ x ∈ holders, ∀ p ∈ x.2.out, p.isBody = false) →
        ∀ x ∈ ofMessages ++ ofEnums ++ holders, ∀ p ∈ x.2.out, p.isBody = false := by
      intro holders hholders x hx
      rcases List.mem_append.1 hx with hx | hx
      rcases List.mem_append.1 hx with hx | hx
      · obtain ⟨i, -, hi⟩ := exists_of_forall₂_left (forall₂_of_mapM_eq_ok hm).flip x hx
        obtain ⟨d, hd, hi⟩ := except_bind_eq_ok hi
        cases hi
        exact Runs.draft_out (c.top_messageFile _ _ _) hd
      · obtain ⟨e, -, he⟩ := exists_of_forall₂_left (forall₂_of_mapM_eq_ok he).flip x hx
        obtain ⟨d, hd, he⟩ := except_bind_eq_ok he
        cases he
        exact Runs.draft_out (c.top_enumeration _) hd
      · exact hholders x hx
    split at h
    · cases h
      exact hfiles [] fun _ hx => absurd hx List.not_mem_nil
    · obtain ⟨d, hd, h⟩ := except_bind_eq_ok h
      cases h
      refine hfiles _ fun x hx => ?_
      obtain rfl := List.mem_singleton.1 hx
      exact Runs.draft_out (c.top_extensionsHolder _) hd

/-- The converter's top is its annotated class header followed by the body of its class. -/
theorem converterFile_top {a : Artifact} (h : c.converterFile = .ok (some a)) :
    ∃ (d : Draft) (pkg cls : String) (qs : List Piece), a = d.finish pkg cls c.unit ∧
      d.out.reverse = [.annotated [] "public class " cls " \x7b", .body "\x7d" qs] := by
  unfold Source.converterFile at h
  dsimp only at h
  split at h
  · cases h
  obtain ⟨d, hd, h⟩ := except_bind_eq_ok h
  cases h
  obtain ⟨qs, hout⟩ := Runs.of_draft (Runs.put_body_out _ _ _) hd
  refine ⟨d, _, _, qs, rfl, ?_⟩
  rw [hout]
  rfl

end Source


end BeanCodegen.Emit
