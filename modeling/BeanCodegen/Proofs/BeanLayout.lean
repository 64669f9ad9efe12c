import Mathlib
import BeanCodegen.Proofs.BeanClasses
import BeanCodegen.Proofs.OneofPlans
import BeanCodegen.Proofs.ClassNames
/-! # Where value classes are declared

The allocator names the class of a message by walking up its parents, and the value-class
generator declares it by walking down from the top-level messages; a third walk registers the
nested class names of each file. The walks meet when map entries nest no types: everything a
message other than a map entry declares is declared inside the class of a top-level message,
behind exactly the classes the allocator puts around the message (`messageDecls_within_top`),
and the nested names a message registers are those of the classes it opens when every oneof
with variant classes has members without an extendee (`mem_messageNames_iff`).
-/

namespace BeanCodegen.Plan

open BeanCodegen.Schema

/-- One more step of fuel changes no chain of enclosing classes whose walk up ends in time. -/
theorem Allocation.enclosingFrom_succ (a : Allocation) {g : Graph} {f : Nat} (hL : (g.file f).Linked) :
    ∀ (fuel : Nat) (q : Option Nat), (∀ p, q = some p → p < fuel) →
      a.enclosingFrom g f (fuel + 1) q = a.enclosingFrom g f fuel q
  | 0, none, _ => rfl
  | _ + 1, none, _ => rfl
  | 0, some p, h => absurd (h p rfl) (Nat.not_lt_zero p)
  | fuel + 1, some p, h => by
    rw [Allocation.enclosingFrom, Allocation.enclosingFrom,
      Allocation.enclosingFrom_succ a hL fuel _ fun p' hp' => ?_]
    have := hL.parent_lt p p' hp'
    have := h p rfl
    omega

/-- The classes enclosing a nested message's class: those enclosing its parent's, then the
parent's own. -/
theorem Allocation.enclosingFrom_some (a : Allocation) {g : Graph} {f : Nat}
    (hL : (g.file f).Linked) {p : Nat} (hp : p < (g.file f).messages.length) :
    a.enclosingFrom g f ((g.file f).messages.length + 1) (some p) =
      a.enclosingFrom g f ((g.file f).messages.length + 1) (g.message ⟨f, p⟩).parent ++
        [(a.message ⟨f, p⟩).className] := by
  rw [Allocation.enclosingFrom, a.enclosingFrom_succ hL _ (g.message ⟨f, p⟩).parent
    fun p' hp' => (hL.parent_lt p p' hp').trans hp]

end BeanCodegen.Plan

namespace BeanCodegen.Emit

open BeanCodegen.Java BeanCodegen.Schema BeanCodegen.Plan BeanCodegen.Shape

/-- The simple names of declared classes: the last name of each path. -/
def declNames (xs : List Decl) : List String := xs.filterMap fun x => x.1.getLast?

section Names

theorem mem_declNames {xs : List Decl} {n : String} :
    n ∈ declNames xs ↔ ∃ x ∈ xs, x.1.getLast? = some n := List.mem_filterMap

@[simp] theorem declNames_append (xs ys : List Decl) :
    declNames (xs ++ ys) = declNames xs ++ declNames ys := List.filterMap_append

theorem mem_declNames_flatMap {α : Type} {xs : List α} {F : α → List Decl} {n : String} :
    n ∈ declNames (xs.flatMap F) ↔ ∃ x ∈ xs, n ∈ declNames (F x) := by
  simp only [mem_declNames, List.mem_flatMap]
  constructor
  · rintro ⟨y, ⟨x, hx, hy⟩, hn⟩
    exact ⟨x, hx, y, hy, hn⟩
  · rintro ⟨x, hx, y, hy, hn⟩
    exact ⟨y, ⟨x, hx, hy⟩, hn⟩

/-- Declaring classes inside another keeps their simple names. -/
theorem declNames_map_within {xs : List Decl} (name : String) (h : ∀ x ∈ xs, x.1 ≠ []) :
    declNames (xs.map (Decl.within name)) = declNames xs := by
  unfold declNames
  rw [List.filterMap_map]
  refine List.filterMap_congr fun x hx => ?_
  obtain ⟨a, l, hx'⟩ := List.exists_cons_of_ne_nil (h x hx)
  simp [Decl.within, hx', List.getLast?_cons_cons]

theorem mem_oneofClasses {plans : List (Option OneofPlan)} {n : String} :
    n ∈ oneofClasses plans ↔ ∃ op, some op ∈ plans ∧ n ∈ op.classes := by
  simp only [oneofClasses, List.mem_flatMap]
  constructor
  · rintro ⟨_ | op, hop, hn⟩
    · simp at hn
    · exact ⟨op, hop, hn⟩
  · rintro ⟨op, hop, hn⟩
    exact ⟨some op, hop, hn⟩

theorem mem_of_variantPlan {oneofs : List (Option OneofPlan)} {f : Classified} {op : OneofPlan}
    (h : variantPlan oneofs f = some op) : some op ∈ oneofs := by
  unfold variantPlan at h
  split at h
  · exact List.mem_of_getElem? (Option.join_eq_some_iff.1 h)
  · cases h

theorem declNames_oneofDecls (op : OneofPlan) :
    declNames (oneofDecls op) = op.caseEnum :: op.iface :: op.variants.map (·.wrapper) := by
  simp [declNames, oneofDecls, List.filterMap_map, Function.comp_def]

theorem mem_declNames_oneofDecls {op : OneofPlan} {n : String} :
    n ∈ declNames (oneofDecls op) ↔ n ∈ op.classes := by
  rw [declNames_oneofDecls, OneofPlan.classes]
  exact (List.Perm.swap _ _ _).mem_iff

/-- A field declares the classes of its oneof, when it opens it. -/
theorem mem_declNames_openedDecls {oneofs : List (Option OneofPlan)} {f : Classified}
    {n : String} : n ∈ declNames (openedDecls oneofs f) ↔
      ∃ op, variantPlan oneofs f = some op ∧ opensOneof op f = true ∧ n ∈ op.classes := by
  unfold openedDecls
  cases hvp : variantPlan oneofs f with
  | none => simp [declNames]
  | some op =>
    dsimp only
    cases hop : opensOneof op f
    · simp [declNames, hop]
    · simp [mem_declNames_oneofDecls, hop]

theorem ne_nil_of_mem_openedDecls {oneofs : List (Option OneofPlan)} {f : Classified}
    {x : Decl} (hx : x ∈ openedDecls oneofs f) : x.1 ≠ [] := by
  unfold openedDecls at hx
  split at hx
  · split at hx
    · simp only [oneofDecls, List.mem_cons, List.mem_map] at hx
      rcases hx with rfl | rfl | ⟨v, -, rfl⟩ <;> simp
    · simp at hx
  · simp at hx

end Names

namespace Source

variable (c : Source)

/-- The fields of message `i` classify. -/
def Classifies (i : Nat) : Prop :=
  ∃ fields, (c.message i).fields.mapM
    (Shape.classify c.session.graph c.session.index (some (c.message i))) = .ok fields

/-- When the fields of message `i` classify, every oneof plan of the message is opened at one of
them. -/
def OneofsOpen (i : Nat) : Prop :=
  c.Classifies i → ∀ op, some op ∈ (c.messagePlan i).oneofs →
    ∃ x ∈ (c.fieldsOf i).zip (c.messagePlan i).fields,
      variantPlan (c.messagePlan i).oneofs x.1 = some op ∧ opensOneof op x.1 = true

theorem ne_nil_of_mem_messageDecls {fuel i : Nat} {x : Decl} (hx : x ∈ c.messageDecls fuel i) :
    x.1 ≠ [] := by
  cases fuel with
  | zero => simp [messageDecls] at hx
  | succ fuel =>
    rw [messageDecls, List.mem_cons, List.mem_map] at hx
    rcases hx with rfl | ⟨y, -, rfl⟩ <;> simp [Decl.within]

/-- The oneof classes a message declares are those of its plans, when each plan is opened. -/
theorem mem_declNames_opened {i : Nat} (hopen : c.OneofsOpen i) (hc : c.Classifies i)
    (n : String) :
    n ∈ declNames (((c.fieldsOf i).zip (c.messagePlan i).fields).flatMap
        fun x => openedDecls (c.messagePlan i).oneofs x.1) ↔
      n ∈ oneofClasses (c.messagePlan i).oneofs := by
  rw [mem_declNames_flatMap, mem_oneofClasses]
  constructor
  · rintro ⟨x, -, hn⟩
    obtain ⟨op, hvp, -, hn⟩ := mem_declNames_openedDecls.1 hn
    exact ⟨op, mem_of_variantPlan hvp, hn⟩
  · rintro ⟨op, hop, hn⟩
    obtain ⟨x, hx, hvp, hopens⟩ := hopen hc op hop
    exact ⟨x, hx, mem_declNames_openedDecls.2 ⟨op, hvp, hopens, hn⟩⟩

/-- The classes message `i` declares inside its own class, with paths relative to it. -/
def innerDecls (fuel i : Nat) : List Decl :=
  ((c.fieldsOf i).zip (c.messagePlan i).fields).flatMap
      (fun x => openedDecls (c.messagePlan i).oneofs x.1) ++
    (c.message i).enums.map c.enumDecl ++
    (c.message i).nested.flatMap
      (fun n => if (!(c.message n).mapEntry) = true then c.messageDecls fuel n else [])

theorem messageDecls_succ (fuel i : Nat) :
    c.messageDecls (fuel + 1) i =
      ([(c.messagePlan i).className], some (c.message i).path) ::
        (c.innerDecls fuel i).map (Decl.within (c.messagePlan i).className) := rfl

theorem ne_nil_of_mem_innerDecls {fuel i : Nat} {x : Decl} (hx : x ∈ c.innerDecls fuel i) :
    x.1 ≠ [] := by
  simp only [innerDecls, List.mem_append, List.mem_flatMap, List.mem_map] at hx
  rcases hx with (⟨y, -, hy⟩ | ⟨e, -, rfl⟩) | ⟨j, -, hx⟩
  · exact ne_nil_of_mem_openedDecls hy
  · simp [enumDecl]
  · split at hx
    · exact c.ne_nil_of_mem_messageDecls hx
    · simp at hx

/-- Inside its class a message declares, by simple name, exactly what it registers as nested
besides its own class. -/
theorem mem_messageNames_false_iff (hopen : ∀ j, c.OneofsOpen j) {fuel : Nat}
    (ih : ∀ j, c.ClassifiesBelow fuel j →
      ∀ n, n ∈ c.messageNames fuel j true ↔ n ∈ declNames (c.messageDecls fuel j))
    {i : Nat} (hc : c.ClassifiesBelow (fuel + 1) i) (n : String) :
    n ∈ c.messageNames (fuel + 1) i false ↔ n ∈ declNames (c.innerDecls fuel i) := by
  have henums : declNames ((c.message i).enums.map c.enumDecl) =
      (c.message i).enums.map fun e => (c.enumPlan e).className := by
    simp [declNames, enumDecl, Function.comp_def]
  -- a nested message other than a map entry declares what it registers
  have hnested : n ∈ declNames ((c.message i).nested.flatMap fun j =>
        if (!(c.message j).mapEntry) = true then c.messageDecls fuel j else []) ↔
      n ∈ (c.message i).nested.flatMap fun j =>
        if (!(c.message j).mapEntry) = true then c.messageNames fuel j true else [] := by
    rw [mem_declNames_flatMap, List.mem_flatMap]
    refine exists_congr fun j => and_congr_right fun hj => ?_
    split
    · exact (ih j (hc.2 j hj ‹_›) n).symm
    · simp [declNames]
  simp only [messageNames, innerDecls, Bool.false_eq_true, if_false, List.nil_append,
    declNames_append, List.mem_append, c.mem_declNames_opened (hopen i) hc.1, henums, hnested]

/-- A message registers, its own class included, exactly the simple names of the classes it
declares. -/
theorem mem_messageNames_iff (hopen : ∀ j, c.OneofsOpen j) :
    ∀ fuel i, c.ClassifiesBelow fuel i →
      ∀ n, n ∈ c.messageNames fuel i true ↔ n ∈ declNames (c.messageDecls fuel i)
  | 0, _, _, _ => by simp [messageNames, messageDecls, declNames]
  | fuel + 1, i, hc, n => by
    have hnames : c.messageNames (fuel + 1) i true =
        (c.messagePlan i).className :: c.messageNames (fuel + 1) i false := by
      simp [messageNames]
    have hdecls : declNames (c.messageDecls (fuel + 1) i) =
        (c.messagePlan i).className :: declNames (c.innerDecls fuel i) := by
      rw [messageDecls_succ, declNames, List.filterMap_cons, ← declNames,
        declNames_map_within _ fun _ => c.ne_nil_of_mem_innerDecls]
      rfl
    rw [hnames, hdecls, List.mem_cons, List.mem_cons,
      c.mem_messageNames_false_iff hopen (mem_messageNames_iff hopen fuel) hc n]

/-! ## Where a class is declared -/

/-- More fuel declares at least as much. -/
theorem messageDecls_mono : ∀ {fuel fuel' : Nat} (i : Nat), fuel ≤ fuel' →
    c.messageDecls fuel i ⊆ c.messageDecls fuel' i
  | 0, _, _, _ => List.nil_subset _
  | _ + 1, 0, _, h => absurd h (Nat.not_succ_le_zero _)
  | fuel + 1, fuel' + 1, i, h => by
    intro x hx
    rw [messageDecls, List.mem_cons, List.mem_map] at hx ⊢
    rcases hx with rfl | ⟨y, hy, rfl⟩
    · exact Or.inl rfl
    · refine Or.inr ⟨y, ?_, rfl⟩
      simp only [List.mem_append, List.mem_flatMap] at hy ⊢
      rcases hy with hy | ⟨n, hn, hy⟩
      · exact Or.inl hy
      · refine Or.inr ⟨n, hn, ?_⟩
        split at hy
        · rw [if_pos ‹_›]
          exact messageDecls_mono n (by omega) hy
        · simp at hy

theorem head_of_mem_messageDecls {fuel i : Nat} {x : Decl} (hx : x ∈ c.messageDecls fuel i) :
    x.1.head? = some (c.messagePlan i).className := by
  cases fuel with
  | zero => simp [messageDecls] at hx
  | succ fuel =>
    rw [messageDecls, List.mem_cons, List.mem_map] at hx
    rcases hx with rfl | ⟨y, -, rfl⟩ <;> rfl

/-- The classes a nested message declares are declared inside its parent's class. -/
theorem within_mem_messageDecls {fuel p n : Nat} (hn : n ∈ (c.message p).nested)
    (hmap : (c.message n).mapEntry = false) {x : Decl} (hx : x ∈ c.messageDecls fuel n) :
    x.within (c.messagePlan p).className ∈ c.messageDecls (fuel + 1) p := by
  rw [messageDecls]
  refine List.mem_cons_of_mem _ (List.mem_map_of_mem ?_)
  simp only [List.mem_append, List.mem_flatMap]
  exact Or.inr ⟨n, hn, by simpa [hmap] using hx⟩

/-- A message's enums are declared inside its class. -/
theorem enumDecl_within_mem_messageDecls {fuel p e : Nat} (he : e ∈ (c.message p).enums) :
    (c.enumDecl e).within (c.messagePlan p).className ∈ c.messageDecls (fuel + 1) p := by
  rw [messageDecls]
  refine List.mem_cons_of_mem _ (List.mem_map_of_mem ?_)
  simp only [List.mem_append, List.mem_map]
  exact Or.inl (Or.inr ⟨e, he, rfl⟩)

theorem getElem?_message {j : Nat} (hj : j < c.unit.messages.length) :
    c.unit.messages[j]? = some (c.message j) := by
  simp [Source.message, List.getElem?_eq_getElem hj]

theorem mem_topMessages {j : Nat} (hj : j < c.unit.messages.length)
    (htop : (c.message j).parent = none) (hmap : (c.message j).mapEntry = false) :
    j ∈ c.topMessages := by
  have hmem : (c.message j, j) ∈ c.unit.messages.zipIdx :=
    List.mem_zipIdx_iff_getElem?.2 (c.getElem?_message hj)
  simp only [topMessages, File.topLevelMessages, List.mem_map, List.mem_filter, Prod.exists]
  exact ⟨j, c.message j, ⟨⟨c.message j, j, ⟨hmem, by simp [Message.isTopLevel, htop]⟩, rfl⟩,
    by simp [hmap]⟩, rfl⟩

theorem mem_topEnums {e : Nat} (he : e < c.unit.enums.length)
    (htop : (c.enumType e).parent = none) : e ∈ c.topEnums := by
  have hmem : (c.enumType e, e) ∈ c.unit.enums.zipIdx :=
    List.mem_zipIdx_iff_getElem?.2 (by simp [Source.enumType, List.getElem?_eq_getElem he])
  simp only [topEnums, File.topLevelEnums, List.mem_map, List.mem_filter, Prod.exists]
  exact ⟨e, c.enumType e, ⟨c.enumType e, e, ⟨hmem, by simp [htop]⟩, rfl⟩, rfl⟩

section Linked

variable {c} (hL : c.unit.Linked)
  (hmapEntry : ∀ m ∈ c.unit.messages, m.mapEntry = true → m.nested = [] ∧ m.enums = [])

include hL in
theorem parent_spec {j p : Nat} (hj : j < c.unit.messages.length)
    (hp : (c.message j).parent = some p) : p < j ∧ j ∈ (c.message p).nested := by
  have hpj : p < j := hL.parent_lt j p hp
  refine ⟨hpj, (hL.nested_iff p _ (c.getElem?_message (by omega)) j).2 ?_⟩
  simp [c.getElem?_message hj, hp]

include hmapEntry in
/-- A message that nests a message or an enum is no map entry. -/
theorem not_mapEntry_of_nests {p : Nat} (hp : p < c.unit.messages.length)
    (h : (c.message p).nested ≠ [] ∨ (c.message p).enums ≠ []) :
    (c.message p).mapEntry = false := by
  cases hmap : (c.message p).mapEntry with
  | false => rfl
  | true =>
    obtain ⟨hn, he⟩ := hmapEntry _ (List.mem_of_getElem? (c.getElem?_message hp)) hmap
    rcases h with h | h
    · exact absurd hn h
    · exact absurd he h

include hL hmapEntry in
/-- Everything a message other than a map entry declares is declared inside the class of a
top-level message, behind the classes the allocator puts around the message. -/
theorem messageDecls_within_top :
    ∀ j < c.unit.messages.length, (c.message j).mapEntry = false →
      ∃ t ∈ c.topMessages, ∀ fuel x, x ∈ c.messageDecls fuel j →
        (c.session.alloc.enclosingFrom c.session.graph c.file (c.unit.messages.length + 1)
          (c.message j).parent ++ x.1, x.2) ∈ c.messageDecls (fuel + j) t := by
  intro j
  induction j using Nat.strong_induction_on with
  | _ j ih =>
    intro hj hmap
    cases hp : (c.message j).parent with
    | none =>
      refine ⟨j, c.mem_topMessages hj hp hmap, fun fuel x hx => ?_⟩
      exact c.messageDecls_mono j (Nat.le_add_right fuel j) hx
    | some p =>
      -- the parent's declarations hold the message's, inside the parent's class
      obtain ⟨hpj, hjp⟩ := parent_spec hL hj hp
      have hpmap := not_mapEntry_of_nests hmapEntry (show p < _ by omega)
        (Or.inl (List.ne_nil_of_mem hjp))
      obtain ⟨t, ht, hemb⟩ := ih p hpj (by omega) hpmap
      refine ⟨t, ht, fun fuel x hx => ?_⟩
      have h := hemb (fuel + 1) _ (c.within_mem_messageDecls hjp hmap hx)
      have hE : c.session.alloc.enclosingFrom c.session.graph c.file
          (c.unit.messages.length + 1) (some p) =
          c.session.alloc.enclosingFrom c.session.graph c.file (c.unit.messages.length + 1)
            (c.message p).parent ++ [(c.messagePlan p).className] :=
        c.session.alloc.enclosingFrom_some hL (show p < c.unit.messages.length by omega)
      rw [hE, List.append_assoc]
      exact c.messageDecls_mono t (by omega) h

end Linked

end Source

end BeanCodegen.Emit
