import Mathlib
import BeanCodegen.Java.Imports
/-! # Names a source file writes

A reference is written relative only where the file's scope makes that name mean the class.
The file's own package binds a name the file declares or uses and imports nothing under, and
an import binds its name to one top-level class of another package. The imports of a scope stay
distinct and clear of the file's classes and nested classes (`Imports.Wf`), every reference
keeps that invariant and only adds to the scope (`Imports.Grows`), and a binding, once made,
holds for the rest of the file. Over a whole file the relative names are therefore
unambiguous, and each one that is not in the file's package comes with its import line.

The exception is the implicit scope of `java.lang`. Its top-level classes are written bare and
the name is not recorded, so a later class of the file's package or a later import may take
the same name; its nested classes are imported through their top-level class like any other.
-/

namespace BeanCodegen.Java

open BeanCodegen.Naming

/-- A top-level class of `java.lang` seen from a file of another package, which has it in scope
without an import. -/
def ClassName.LangImplicit (c : ClassName) (pkg : String) : Prop :=
  c.package ≠ pkg ∧ c.package = "java.lang" ∧ c.path.length = 1

theorem ClassName.relative_ne_qualified {c : ClassName} (h : c.package ≠ "") :
    c.relative ≠ c.qualified := by
  have hlen : c.package.length ≠ 0 := fun h0 => h (String.length_eq_zero_iff.1 h0)
  intro heq
  have hsize := congrArg String.length heq
  simp only [ClassName.qualified, String.isEmpty_iff, h, if_false, String.length_append] at hsize
  omega

theorem lookup_eq_none_iff_not_mem :
    ∀ {l : List (String × String)} {a : String}, l.lookup a = none ↔ a ∉ l.map Prod.fst
  | [], _ => by simp
  | (k, b) :: l, a => by
    by_cases h : a = k
    · subst h
      simp [List.lookup]
    · have hb : (a == k) = false := beq_false_of_ne h
      simp only [List.lookup, hb, List.map_cons, List.mem_cons, h, false_or]
      exact lookup_eq_none_iff_not_mem

theorem mem_of_lookup_eq_some :
    ∀ {l : List (String × String)} {a b : String}, l.lookup a = some b → (a, b) ∈ l
  | [], _, _, h => by simp at h
  | (k, v) :: l, a, b, h => by
    by_cases hk : a = k
    · subst hk
      simp only [List.lookup, beq_self_eq_true, Option.some.injEq] at h
      subst h
      exact List.mem_cons_self
    · have hb : (a == k) = false := beq_false_of_ne hk
      simp only [List.lookup, hb] at h
      exact List.mem_cons_of_mem _ (mem_of_lookup_eq_some h)

namespace Imports

/-- One call that prepares a scope before any reference: a top-level class the file declares
(`inl`) or a class nested in one of its classes (`inr`). -/
def prepare (s : Imports) (call : String ⊕ String) : Imports :=
  call.elim s.declare s.declareNested

/-- References made one after another: the names written, in order, and the scope after. -/
def referenceAll (s : Imports) : List ClassName → List String × Imports
  | [] => ([], s)
  | c :: cs =>
    let (r, s') := s.reference c
    let (rs, s'') := s'.referenceAll cs
    (r :: rs, s'')

/-- A file of package `pkg` that prepares its scope by `calls` and then refers to the classes
`cs`: the names it writes and its final scope. -/
def session (pkg : String) (calls : List (String ⊕ String)) (cs : List ClassName) :
    List String × Imports :=
  (calls.foldl prepare (empty pkg)).referenceAll cs

/-- The simple names the import lines bring into scope. -/
def importedNames (s : Imports) : List String := s.imported.map Prod.fst

/-- The imports name distinct top-level classes of other packages, none named like a class of
the file or a nested class. -/
structure Wf (s : Imports) : Prop where
  nodup : s.importedNames.Nodup
  not_declared : ∀ n ∈ s.importedNames, n ∉ s.declared
  not_nested : ∀ n ∈ s.importedNames, n ∉ s.nestedNames
  foreign : ∀ p ∈ s.imported, ∃ pkg, pkg ≠ s.package ∧ p.2 = pkg ++ "." ++ p.1

/-- The scope binds the top-level name of `c` to the package of `c`: either it is the file's
package, which declares or uses the name and imports nothing under it, or the scope imports the
class. -/
def Binds (s : Imports) (c : ClassName) : Prop :=
  (c.package = s.package ∧ c.outermost ∈ s.declared ∧ c.outermost ∉ s.importedNames) ∨
    (c.outermost, c.package ++ "." ++ c.outermost) ∈ s.imported

/-- `s'` is `s` after references: the package and the nested classes are the same, and the
declared names and the imports have only grown. -/
structure Grows (s s' : Imports) : Prop where
  package : s'.package = s.package
  nested : s'.nestedNames = s.nestedNames
  declared : s.declared ⊆ s'.declared
  imported : s.imported ⊆ s'.imported

theorem Grows.refl (s : Imports) : s.Grows s :=
  ⟨rfl, rfl, List.Subset.refl _, List.Subset.refl _⟩

theorem Grows.trans {s s' s'' : Imports} (h : s.Grows s') (h' : s'.Grows s'') : s.Grows s'' :=
  ⟨h'.package.trans h.package, h'.nested.trans h.nested,
    List.Subset.trans h.declared h'.declared, List.Subset.trans h.imported h'.imported⟩

theorem mem_declare_declared {s : Imports} {n m : String} :
    n ∈ (s.declare m).declared ↔ n ∈ s.declared ∨ n = m := by
  unfold declare
  by_cases hm : m ∈ s.declared
  · simp only [List.contains_iff_mem, hm, if_true]
    constructor
    · exact Or.inl
    · rintro (h | rfl)
      · exact h
      · exact hm
  · simp [hm]

theorem mem_declareNested_nestedNames {s : Imports} {n m : String} :
    n ∈ (s.declareNested m).nestedNames ↔ n ∈ s.nestedNames ∨ n = m := by
  unfold declareNested
  by_cases hm : m ∈ s.nestedNames
  · simp only [List.contains_iff_mem, hm, if_true]
    constructor
    · exact Or.inl
    · rintro (h | rfl)
      · exact h
      · exact hm
  · simp [hm]

/-! ## The scope a file prepares -/

section Prepare

variable (calls : List (String ⊕ String))

theorem foldl_prepare_package : ∀ s : Imports, (calls.foldl prepare s).package = s.package := by
  induction calls with
  | nil => exact fun _ => rfl
  | cons call calls ih =>
    intro s
    cases call <;> exact ih _

theorem foldl_prepare_imported : ∀ s : Imports, (calls.foldl prepare s).imported = s.imported := by
  induction calls with
  | nil => exact fun _ => rfl
  | cons call calls ih =>
    intro s
    cases call <;> exact ih _

theorem mem_foldl_prepare_declared (n : String) :
    ∀ s : Imports, n ∈ (calls.foldl prepare s).declared ↔ n ∈ s.declared ∨ .inl n ∈ calls := by
  induction calls with
  | nil => simp
  | cons call calls ih =>
    intro s
    cases call with
    | inl m =>
      rw [List.foldl_cons, ih, prepare, Sum.elim_inl, mem_declare_declared]
      simp only [List.mem_cons, Sum.inl.injEq]
      tauto
    | inr m =>
      rw [List.foldl_cons, ih]
      simp [prepare, declareNested]

theorem mem_foldl_prepare_nestedNames (n : String) :
    ∀ s : Imports, n ∈ (calls.foldl prepare s).nestedNames ↔ n ∈ s.nestedNames ∨ .inr n ∈ calls := by
  induction calls with
  | nil => simp
  | cons call calls ih =>
    intro s
    cases call with
    | inl m =>
      rw [List.foldl_cons, ih]
      simp [prepare, declare]
    | inr m =>
      rw [List.foldl_cons, ih, prepare, Sum.elim_inr, mem_declareNested_nestedNames]
      simp only [List.mem_cons, Sum.inr.injEq]
      tauto

theorem wf_of_imported_eq_nil {s : Imports} (h : s.imported = []) : s.Wf := by
  refine ⟨?_, ?_, ?_, ?_⟩ <;> simp [importedNames, h]

theorem wf_foldl_prepare (pkg : String) : (calls.foldl prepare (empty pkg)).Wf :=
  wf_of_imported_eq_nil (by rw [foldl_prepare_imported]; rfl)

end Prepare

/-! ## One reference -/

section Step

variable {s : Imports}

/-- No import stands for a class of the file's own package. -/
theorem Wf.own_not_imported (hs : s.Wf) (n : String) : (n, s.package ++ "." ++ n) ∉ s.imported := by
  intro hmem
  obtain ⟨pkg, hne, heq⟩ := hs.foreign _ hmem
  exact hne ((String.append_left_inj ".").1 ((String.append_left_inj n).1 heq.symm))

theorem Wf.declare (hs : s.Wf) {n : String} (hn : n ∉ s.importedNames) : (s.declare n).Wf where
  nodup := hs.nodup
  not_declared m hm := by
    rw [mem_declare_declared]
    rintro (hd | rfl)
    · exact hs.not_declared m hm hd
    · exact hn hm
  not_nested := hs.not_nested
  foreign := hs.foreign

theorem Wf.addImport (hs : s.Wf) {n pkg : String} (hn : n ∉ s.importedNames)
    (hd : n ∉ s.declared) (hnest : n ∉ s.nestedNames) (hpkg : pkg ≠ s.package) :
    ({ s with imported := s.imported ++ [(n, pkg ++ "." ++ n)] } : Imports).Wf where
  nodup := by
    simp only [importedNames, List.map_append, List.map_cons, List.map_nil]
    refine List.nodup_append.2 ⟨hs.nodup, List.nodup_singleton n, fun a ha b hb hab => ?_⟩
    rw [List.mem_singleton.1 hb] at hab
    exact hn (hab ▸ ha)
  not_declared m hm := by
    simp only [importedNames, List.map_append, List.mem_append, List.map_cons, List.map_nil,
      List.mem_singleton] at hm
    rcases hm with hm | rfl
    · exact hs.not_declared m hm
    · exact hd
  not_nested m hm := by
    simp only [importedNames, List.map_append, List.mem_append, List.map_cons, List.map_nil,
      List.mem_singleton] at hm
    rcases hm with hm | rfl
    · exact hs.not_nested m hm
    · exact hnest
  foreign p hp := by
    rcases List.mem_append.1 hp with hp | hp
    · exact hs.foreign p hp
    · rw [List.mem_singleton.1 hp]
      exact ⟨pkg, hpkg, rfl⟩

theorem Grows.declare (s : Imports) (n : String) : s.Grows (s.declare n) :=
  ⟨rfl, rfl, fun _ hm => mem_declare_declared.2 (Or.inl hm), List.Subset.refl _⟩

theorem Grows.addImport (s : Imports) (p : String × String) :
    s.Grows { s with imported := s.imported ++ [p] } :=
  ⟨rfl, rfl, List.Subset.refl _, List.subset_append_left _ _⟩

/-- A binding survives the references that follow it. -/
theorem Binds.mono {s' : Imports} {c : ClassName} (h : s.Binds c) (hg : s.Grows s') (hs' : s'.Wf) :
    s'.Binds c := by
  rcases h with ⟨hp, hd, -⟩ | hi
  · have hd' := hg.declared hd
    exact Or.inl ⟨hp.trans hg.package.symm, hd', fun hi => hs'.not_declared _ hi hd'⟩
  · exact Or.inr (hg.imported hi)

/-- A scope binds each name to at most one package. -/
theorem Wf.binds_unique (hs : s.Wf) {c c' : ClassName} (h : s.Binds c) (h' : s.Binds c')
    (htop : c.outermost = c'.outermost) : c.package = c'.package := by
  rcases h with ⟨hp, -, hn⟩ | hi <;> rcases h' with ⟨hp', -, hn'⟩ | hi'
  · exact hp.trans hp'.symm
  · exact absurd (List.mem_map.2 ⟨_, hi', rfl⟩) (htop ▸ hn)
  · exact absurd (List.mem_map.2 ⟨_, hi, rfl⟩) (htop ▸ hn')
  · have hpair := List.inj_on_of_nodup_map hs.nodup hi hi' htop
    simp only [Prod.mk.injEq, htop, true_and] at hpair
    exact (String.append_left_inj ".").1 ((String.append_left_inj c'.outermost).1 hpair)

/-- A name the scope binds to the file's package is imported from nowhere. -/
theorem Wf.not_imported_of_binds (hs : s.Wf) {c : ClassName} (h : s.Binds c)
    (hp : c.package = s.package) : c.outermost ∉ s.importedNames := by
  rcases h with ⟨-, -, hn⟩ | hi
  · exact hn
  · exact absurd (hp ▸ hi) (hs.own_not_imported c.outermost)

/-- One reference keeps the scope well formed and only adds to it. The name is written
qualified, or relative when the new scope binds it to the class or the class is an implicit
`java.lang` one; never relative under a nested class's name. -/
theorem reference_spec (hs : s.Wf) (c : ClassName) :
    (s.reference c).2.Wf ∧ s.Grows (s.reference c).2 ∧
      ((s.reference c).1 = c.qualified ∨
        ((s.reference c).1 = c.relative ∧ c.outermost ∉ s.nestedNames ∧
          ((s.reference c).2.Binds c ∨ c.LangImplicit s.package))) := by
  unfold reference
  dsimp only
  split
  · exact ⟨hs, Grows.refl s, Or.inl rfl⟩
  rename_i hq
  have hnest : c.outermost ∉ s.nestedNames := by
    intro hmem
    simp [hmem] at hq
  split
  · -- a class of the file's own package
    rename_i hpkg
    split
    · rename_i other hother
      split
      · exact ⟨hs, Grows.refl s, Or.inl rfl⟩
      · rename_i hfull
        have hmem := mem_of_lookup_eq_some hother
        rw [not_not.1 hfull, hpkg] at hmem
        exact absurd hmem (hs.own_not_imported c.outermost)
    · rename_i hnone
      have hn := lookup_eq_none_iff_not_mem.1 hnone
      exact ⟨hs.declare hn, Grows.declare s _, Or.inr ⟨rfl, hnest,
        Or.inl (Or.inl ⟨hpkg, mem_declare_declared.2 (Or.inr rfl), hn⟩)⟩⟩
  rename_i hpkg
  split
  · -- a top-level class of `java.lang`, written bare
    rename_i hlang
    simp only [Bool.and_eq_true, decide_eq_true_eq] at hlang
    exact ⟨hs, Grows.refl s, Or.inr ⟨rfl, hnest, Or.inr ⟨hpkg, hlang.1.1, hlang.1.2⟩⟩⟩
  split
  · rename_i other hother
    split
    · rename_i hfull
      have hmem := mem_of_lookup_eq_some hother
      rw [hfull] at hmem
      exact ⟨hs, Grows.refl s, Or.inr ⟨rfl, hnest, Or.inl (Or.inr hmem)⟩⟩
    · exact ⟨hs, Grows.refl s, Or.inl rfl⟩
  · rename_i hnone
    split
    · exact ⟨hs, Grows.refl s, Or.inl rfl⟩
    · rename_i hd
      have hn := lookup_eq_none_iff_not_mem.1 hnone
      have hd' : c.outermost ∉ s.declared := by simpa using hd
      exact ⟨hs.addImport hn hd' hnest hpkg, Grows.addImport s _,
        Or.inr ⟨rfl, hnest, Or.inl (Or.inr (List.mem_append_right _ (List.mem_singleton_self _)))⟩⟩

end Step

/-! ## A run of references -/

theorem referenceAll_nil (s : Imports) : s.referenceAll [] = ([], s) := rfl

theorem referenceAll_cons (s : Imports) (c : ClassName) (cs : List ClassName) :
    s.referenceAll (c :: cs) =
      ((s.reference c).1 :: ((s.reference c).2.referenceAll cs).1,
        ((s.reference c).2.referenceAll cs).2) := rfl

/-- Over a run of references from a well-formed scope, the scope stays well formed and only
grows. Each name is written qualified, or relative when the final scope binds it to the class
or the class is an implicit `java.lang` one, and never relative under a nested class's name. -/
theorem referenceAll_spec : ∀ (cs : List ClassName) {s : Imports}, s.Wf →
    (s.referenceAll cs).2.Wf ∧ s.Grows (s.referenceAll cs).2 ∧
      ∀ p ∈ cs.zip (s.referenceAll cs).1, p.2 = p.1.qualified ∨
        (p.2 = p.1.relative ∧ p.1.outermost ∉ s.nestedNames ∧
          ((s.referenceAll cs).2.Binds p.1 ∨ p.1.LangImplicit s.package))
  | [], s, hs => ⟨hs, Grows.refl s, by simp [referenceAll_nil]⟩
  | c :: cs, s, hs => by
    obtain ⟨hwf, hgrow, hans⟩ := reference_spec hs c
    obtain ⟨hwf', hgrow', hans'⟩ := referenceAll_spec cs hwf
    rw [referenceAll_cons]
    refine ⟨hwf', hgrow.trans hgrow', fun p hp => ?_⟩
    rcases List.mem_cons.1 (List.zip_cons_cons ▸ hp) with rfl | hp
    · -- the first reference: its binding survives the rest of the run
      rcases hans with hq | ⟨hr, hn, hb | hl⟩
      · exact Or.inl hq
      · exact Or.inr ⟨hr, hn, Or.inl (hb.mono hgrow' hwf')⟩
      · exact Or.inr ⟨hr, hn, Or.inr hl⟩
    · rcases hans' p hp with hq | ⟨hr, hn, hbl⟩
      · exact Or.inl hq
      · rw [hgrow.nested] at hn
        rw [hgrow.package] at hbl
        exact Or.inr ⟨hr, hn, hbl⟩

/-- An import of a class gives its import line. -/
theorem mem_lines {s : Imports} {p : String × String}
    (hp : p ∈ s.imported) : "import " ++ p.2 ++ ";" ∈ s.lines := by
  unfold lines
  refine List.mem_map.2 ⟨p.2, ?_, rfl⟩
  exact mem_sortNames.2 (List.mem_map.2 ⟨p, hp, rfl⟩)

/-! ## A whole file -/

section Session

variable {P : String} {calls : List (String ⊕ String)} {cs : List ClassName}

theorem session_wf : (session P calls cs).2.Wf :=
  (referenceAll_spec cs (wf_foldl_prepare calls P)).1

theorem session_grows : (calls.foldl prepare (empty P)).Grows (session P calls cs).2 :=
  (referenceAll_spec cs (wf_foldl_prepare calls P)).2.1

theorem session_package : (session P calls cs).2.package = P :=
  session_grows.package.trans (foldl_prepare_package calls _)

/-- Each name a file writes is qualified, or relative with the top-level name not one of the
file's nested classes and bound to the class by the final scope, unless the class is an
implicit `java.lang` one. -/
theorem session_answer {p : ClassName × String} (hp : p ∈ cs.zip (session P calls cs).1) :
    p.2 = p.1.qualified ∨ (p.2 = p.1.relative ∧ .inr p.1.outermost ∉ calls ∧
      ((session P calls cs).2.Binds p.1 ∨ p.1.LangImplicit P)) := by
  obtain ⟨-, -, hans⟩ := referenceAll_spec cs (wf_foldl_prepare calls P)
  rcases hans p hp with hq | ⟨hr, hn, hbl⟩
  · exact Or.inl hq
  · rw [mem_foldl_prepare_nestedNames] at hn
    rw [foldl_prepare_package] at hbl
    exact Or.inr ⟨hr, fun hc => hn (Or.inr hc), hbl⟩

/-- A name written relative, for a class of a named package. -/
theorem session_relative {p : ClassName × String} (hp : p ∈ cs.zip (session P calls cs).1)
    (hpkg : p.1.package ≠ "") (hrel : p.2 = p.1.relative) :
    .inr p.1.outermost ∉ calls ∧ ((session P calls cs).2.Binds p.1 ∨ p.1.LangImplicit P) := by
  rcases session_answer hp with hq | ⟨-, hn, hbl⟩
  · exact absurd (hrel.symm.trans hq) (ClassName.relative_ne_qualified hpkg)
  · exact ⟨hn, hbl⟩

end Session

/-- The file of `com.acme.vo.demo` declares `Hello`. -/
def demoCalls : List (String ⊕ String) := [.inl "Hello"]

/-- Its references: a class of its own package, two library classes and a class named like the
declared one. -/
def demoReferences : List ClassName :=
  [⟨"com.acme.vo.demo", ["Other", "Inner"]⟩, ⟨"java.util", ["List"]⟩, ⟨"java.lang", ["String"]⟩,
    ⟨"com.acme.vo.other", ["Hello"]⟩]

end Imports

end BeanCodegen.Java
