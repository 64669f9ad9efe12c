import Mathlib
import BeanCodegen.Compile
import BeanCodegen.Proofs.RequestErrors
import BeanCodegen.Proofs.BeanClasses
import BeanCodegen.Proofs.ClassNames
/-! # Paths of the generated files

A generated file that passes its check declares on its first line the package it lies in. For a
file assembled from a prologue naming its package, that is the prologue's package, and the
path splits back into that package and the class: the package is not empty and neither it nor
the class has a slash (`Artifact.pathParts_of_defect`). Two checked files of different packages
or classes therefore get different paths (`javaPath_inj`).

Every file of a request is written under such a key: a value-class file under its file's
value-class package and a class of the file's layout, a converter under the converter package
and the file's converter class (`Session.artifacts_writtenAt`). The keys are distinct when the
request names each file to generate once and no value-class package is the converter package,
so the paths are too (`compileRequest_paths_nodup`).
-/

namespace BeanCodegen.Text

theorem splitChars_ne_nil (sep : Char) : ∀ l : List Char, splitChars sep l ≠ []
  | [] => List.cons_ne_nil _ _
  | c :: l => by
    unfold splitChars
    split <;> exact List.cons_ne_nil _ _

/-- A separator ends the first piece. -/
theorem splitChars_append_sep {sep : Char} : ∀ {l : List Char}, sep ∉ l → ∀ m : List Char,
    splitChars sep (l ++ sep :: m) = l :: splitChars sep m
  | [], _, m => by simp [splitChars]
  | c :: l, h, m => by
    have hc : c ≠ sep := fun hc => h (hc ▸ List.mem_cons_self)
    rw [List.cons_append, splitChars,
      splitChars_append_sep (fun hl => h (List.mem_cons_of_mem c hl)) m]
    simp [hc]

/-- The first piece of a text is a prefix of it. -/
theorem splitChars_headD_isPrefix (sep : Char) :
    ∀ l : List Char, (splitChars sep l).headD [] <+: l
  | [] => List.nil_prefix
  | c :: l => by
    unfold splitChars
    split
    · exact List.nil_prefix
    · show c :: (splitChars sep l).headD [] <+: c :: l
      exact List.cons_prefix_cons.2 ⟨rfl, splitChars_headD_isPrefix sep l⟩

theorem dropCarriageReturn_isPrefix (s : String) : (dropCarriageReturn s).toList <+: s.toList := by
  unfold dropCarriageReturn
  split
  · rw [String.toList_ofList]
    exact List.dropLast_prefix _
  · exact List.prefix_refl _

/-- The first line of a text is a prefix of it. -/
theorem lines_headD_isPrefix (s : String) : ((lines s).headD "").toList <+: s.toList := by
  have hfirst : (String.ofList ((splitChars '\n' s.toList).headD [])).toList <+: s.toList := by
    rw [String.toList_ofList]
    exact splitChars_headD_isPrefix _ _
  obtain ⟨p, rest, hp⟩ : ∃ p rest, splitChars '\n' s.toList = p :: rest := by
    cases h : splitChars '\n' s.toList with
    | nil => exact absurd h (splitChars_ne_nil _ _)
    | cons p rest => exact ⟨p, rest, rfl⟩
  rw [hp] at hfirst
  -- the first line is the first piece, less a carriage return when more pieces follow
  simp only [lines, splitChar, hp]
  cases rest with
  | nil =>
    simp only [List.map_cons, List.map_nil, List.getLast?_singleton, List.dropLast_singleton,
      List.nil_append]
    split
    · exact List.nil_prefix
    · exact hfirst
  | cons q rest =>
    simp only [List.map_cons, List.dropLast_cons_cons]
    split <;> exact (dropCarriageReturn_isPrefix _).trans hfirst

end BeanCodegen.Text

namespace BeanCodegen.Naming

open BeanCodegen.Text

theorem mem_splitChars {sep c : Char} : ∀ {l : List Char}, c ∈ l →
    c = sep ∨ ∃ p ∈ splitChars sep l, c ∈ p
  | d :: l, h => by
    unfold splitChars
    rcases List.mem_cons.1 h with rfl | h
    · split
      · exact Or.inl ‹_›
      · exact Or.inr ⟨_, List.mem_cons_self, List.mem_cons_self⟩
    · rcases mem_splitChars h with hc | ⟨p, hp, hcp⟩
      · exact Or.inl hc
      -- a character of a later piece stays in its piece; one of the first joins `d`'s piece
      · split
        · exact Or.inr ⟨p, List.mem_cons_of_mem _ hp, hcp⟩
        · cases hl : splitChars sep l with
          | nil => exact absurd hl (splitChars_ne_nil _ _)
          | cons q rest =>
            rw [hl] at hp
            rcases List.mem_cons.1 hp with rfl | hp
            · exact Or.inr ⟨_, List.mem_cons_self, List.mem_cons_of_mem _ hcp⟩
            · exact Or.inr ⟨p, List.mem_cons_of_mem _ hp, hcp⟩

/-- Every character of a Java package is a dot or may continue a segment. -/
theorem isSegmentChar_of_isJavaPackage {q : String} (hq : isJavaPackage q = true) {c : Char}
    (hc : c ∈ q.toList) : c = '.' ∨ isSegmentChar c = true := by
  rcases mem_splitChars hc with hdot | ⟨p, hp, hcp⟩
  · exact Or.inl hdot
  · have hseg : isPackageSegment (String.ofList p) = true :=
      List.all_eq_true.1 hq _ (List.mem_map.2 ⟨p, hp, rfl⟩)
    unfold isPackageSegment at hseg
    rw [String.toList_ofList] at hseg
    cases p with
    | nil => cases hcp
    | cons d rest =>
      simp only [Bool.and_eq_true, List.all_eq_true] at hseg
      rcases List.mem_cons.1 hcp with rfl | hc
      · exact Or.inr (by simp [isSegmentChar, hseg.1])
      · exact Or.inr (hseg.2 c hc)

/-- A character that is neither a dot nor a segment character is not in a Java package. -/
theorem not_mem_of_isJavaPackage {q : String} (hq : isJavaPackage q = true) {c : Char}
    (hdot : c ≠ '.') (hc : isSegmentChar c = false) : c ∉ q.toList := fun hmem => by
  rcases isSegmentChar_of_isJavaPackage hq hmem with h | h
  · exact hdot h
  · rw [hc] at h
    cases h

/-- A package and a class that a path names apart: the package is not empty, and neither the
package nor the class contains a slash. -/
structure PathParts (pkg cls : String) : Prop where
  package_ne : pkg ≠ ""
  package_slash : '/' ∉ pkg.toList
  class_slash : '/' ∉ cls.toList

/-- The directory of a package: its dots become slashes. -/
def slashDots (c : Char) : Char := if c = '.' then '/' else c

theorem javaPath_toList {pkg cls : String} (h : pkg ≠ "") :
    (javaPath pkg cls).toList =
      pkg.toList.map slashDots ++ '/' :: (cls.toList ++ ".java".toList) := by
  simp [javaPath, h, slashDots]

/-- The parts around the first occurrence of a separator are determined. -/
theorem append_cons_eq_of_not_mem {α : Type} {a : α} :
    ∀ {x₁ x₂ z₁ z₂ : List α}, a ∉ x₁ → a ∉ x₂ →
      x₁ ++ a :: z₁ = x₂ ++ a :: z₂ →
      x₁ = x₂ ∧ z₁ = z₂
  | [], [], _, _, _, _, h => ⟨rfl, List.cons_injective h⟩
  | [], b :: _, _, _, _, h₂, h => absurd ((List.cons_eq_cons.1 h).1 ▸ List.mem_cons_self) h₂
  | b :: _, [], _, _, h₁, _, h => absurd ((List.cons_eq_cons.1 h).1 ▸ List.mem_cons_self) h₁
  | b :: x₁, c :: x₂, z₁, z₂, h₁, h₂, h => by
    simp only [List.cons_append, List.cons.injEq] at h
    obtain ⟨rfl, hrest⟩ := h
    obtain ⟨rfl, rfl⟩ := append_cons_eq_of_not_mem (fun hm => h₁ (List.mem_cons_of_mem _ hm))
      (fun hm => h₂ (List.mem_cons_of_mem _ hm)) hrest
    exact ⟨rfl, rfl⟩

theorem map_slashDots_injective {p p' : List Char} (hp : '/' ∉ p) (hp' : '/' ∉ p')
    (h : p.map slashDots = p'.map slashDots) : p = p' := by
  -- turning the slashes back into dots undoes `slashDots` on a text without slashes
  have hback : ∀ l : List Char, '/' ∉ l →
      (l.map slashDots).map (fun c => if c = '/' then '.' else c) = l := by
    intro l hl
    rw [List.map_map]
    conv_rhs => rw [← List.map_id l]
    refine List.map_congr_left fun c hc => ?_
    have : c ≠ '/' := fun e => hl (e ▸ hc)
    by_cases hd : c = '.' <;> simp [slashDots, hd, this]
  rw [← hback p hp, ← hback p' hp', h]

/-- Paths of packages and classes named apart are equal only for the same package and class. -/
theorem javaPath_inj {pkg pkg' cls cls' : String} (h : PathParts pkg cls) (h' : PathParts pkg' cls')
    (heq : javaPath pkg cls = javaPath pkg' cls') : pkg = pkg' ∧ cls = cls' := by
  have hl := congrArg String.toList heq
  rw [javaPath_toList h.package_ne, javaPath_toList h'.package_ne] at hl
  -- the last slash of the path ends the directory: compare the reversed texts at their first
  have hfile : ∀ c : String, '/' ∉ c.toList →
      '/' ∉ (c.toList ++ ".java".toList).reverse := by
    intro c hc hm
    rw [List.mem_reverse, List.mem_append] at hm
    rcases hm with hm | hm
    · exact hc hm
    · revert hm
      decide
  have hrev : (cls.toList ++ ".java".toList).reverse ++ '/' :: (pkg.toList.map slashDots).reverse =
      (cls'.toList ++ ".java".toList).reverse ++ '/' :: (pkg'.toList.map slashDots).reverse := by
    simpa only [List.reverse_append, List.reverse_cons, List.append_assoc,
      List.singleton_append] using congrArg List.reverse hl
  obtain ⟨hcls, hpkg⟩ := append_cons_eq_of_not_mem (hfile cls h.class_slash)
    (hfile cls' h'.class_slash) hrev
  refine ⟨String.toList_inj.1 (map_slashDots_injective h.package_slash h'.package_slash
    (List.reverse_injective hpkg)), String.toList_inj.1 ?_⟩
  exact List.append_cancel_right (List.reverse_injective hcls)

end BeanCodegen.Naming

namespace BeanCodegen.Java

open BeanCodegen.Text BeanCodegen.Naming

/-- A first line declaring package `q` reads `package q;`, and `q` is a Java package. -/
theorem declaredPackage_eq_some {first q : String} (h : declaredPackage first = some q) :
    first.toList = "package ".toList ++ q.toList ++ [';'] ∧ isJavaPackage q = true := by
  unfold declaredPackage at h
  split at h
  · rename_i hcond
    simp only [Bool.and_eq_true] at hcond
    obtain ⟨hstart, hend⟩ := hcond
    dsimp only at h
    split at h
    · rename_i hjava
      obtain rfl := Option.some.inj h
      refine ⟨?_, hjava⟩
      obtain ⟨X, hX⟩ : "package ".toList <+: first.toList := by simpa using hstart
      have hsuffix : ";".toList <:+ first.toList := by
        rw [String.endsWith_eq_endsWith_toSlice] at hend
        simpa using String.Slice.endsWith_string_iff.1 hend
      -- what follows `package ` ends with the semicolon
      have hlast : X.getLast? = some ';' := by
        obtain ⟨Y, hY⟩ := hsuffix
        have := congrArg List.getLast? (hX.trans hY.symm)
        have hsemi : ";".toList.getLast? = some ';' := by decide
        rw [List.getLast?_append, List.getLast?_append, hsemi, Option.some_or] at this
        cases hXl : X.getLast? with
        | none =>
          have hspace : "package ".toList.getLast? = some ' ' := by decide
          rw [hXl, Option.none_or, hspace] at this
          exact absurd this (by decide)
        | some c =>
          rw [hXl, Option.some_or] at this
          exact this
      have hdrop : first.toList.drop 8 = X := by
        rw [← hX]
        exact List.drop_left' (by decide)
      rw [String.toList_ofList, hdrop, ← hX, List.append_assoc]
      refine congrArg ("package ".toList ++ ·) ?_
      obtain ⟨ys, rfl⟩ := List.getLast?_eq_some_iff.1 hlast
      rw [List.dropLast_concat, String.toList_ofList]
    · cases h
  · cases h

/-- A package `q` read back from a text that starts with `pkg;`, where `q` has no semicolon:
`q` is `pkg`, or `q;` starts `pkg`. -/
theorem eq_or_prefix_of_semicolon {q pkg T : List Char} (hq : ';' ∉ q)
    (h : q ++ [';'] <+: pkg ++ ';' :: T) : q = pkg ∨ q ++ [';'] <+: pkg := by
  have hpkg : pkg ++ [';'] <+: pkg ++ ';' :: T := by
    simp
  rcases List.prefix_or_prefix_of_prefix h hpkg with h₁ | h₁
  · rcases List.prefix_concat_iff.1 h₁ with h₂ | h₂
    · exact Or.inl (List.append_cancel_right h₂)
    · exact Or.inr h₂
  · rcases List.prefix_concat_iff.1 h₁ with h₂ | h₂
    · exact Or.inl (List.append_cancel_right h₂).symm
    · exact absurd (h₂.subset (List.mem_append_right _ (List.mem_singleton_self _))) hq

/-- A file assembled from a prologue for package `pkg`, at the path of class `cls` of `pkg`,
passes its check only if the path names them apart: its first line then declares `pkg` itself,
a Java package, and the file lies directly in that package's directory. -/
theorem Artifact.pathParts_of_defect {pkg cls src : String} {dep : Bool} {imps : List String}
    {w : Writer}
    (h : (Artifact.assemble (javaPath pkg cls) src (prologue pkg src dep imps) w).defect = none) :
    PathParts pkg cls := by
  unfold Artifact.defect at h
  dsimp only [Artifact.assemble] at h
  split at h
  · cases h
  rename_i q hq
  obtain ⟨hfirst, hjava⟩ := declaredPackage_eq_some hq
  have hprefix := lines_headD_isPrefix (prologue pkg src dep imps ++ w.text)
  rw [hfirst] at hprefix
  -- the file lies in the directory of the declared package
  have hlies : liesIn (javaPath pkg cls) (String.ofList (q.toList.map slashDots)) = true := by
    cases hl : liesIn (javaPath pkg cls) (String.ofList (q.toList.map slashDots)) with
    | true => rfl
    | false =>
      have hl' : liesIn (javaPath pkg cls)
          (String.ofList (q.toList.map fun c => if c = '.' then '/' else c)) = false := hl
      simp only [hl', Bool.not_false, if_true] at h
      cases h
  by_cases hpkg : pkg = ""
  · -- without a package the file starts with the marker, not with a package line
    subst hpkg
    obtain ⟨t, ht⟩ := hprefix
    have hm : generatedMarker.toList.head? = some '/' := by decide
    have := congrArg List.head? ht
    simp [prologue, List.head?_append, hm] at this
  have hcontent : ∃ T, (prologue pkg src dep imps ++ w.text).toList =
      "package ".toList ++ (pkg.toList ++ ';' :: T) := by
    simp [prologue, hpkg]
  obtain ⟨T, hT⟩ := hcontent
  rw [hT, List.append_assoc, List.prefix_append_right_inj] at hprefix
  have hsemi : ';' ∉ q.toList := not_mem_of_isJavaPackage hjava (by decide) (by decide)
  -- the directory the file lies in
  unfold liesIn at hlies
  split at hlies
  · rename_i hstart
    have hdir : q.toList.map slashDots ++ ['/'] <+:
        pkg.toList.map slashDots ++ '/' :: (cls.toList ++ ".java".toList) := by
      simpa [javaPath_toList hpkg] using hstart
    have hq : q.toList = pkg.toList := by
      rcases eq_or_prefix_of_semicolon hsemi hprefix with hq | hq
      · exact hq
      · -- `q;` starting the package would put a semicolon where the directory has a slash
        have h₁ : q.toList.map slashDots ++ [';'] <+:
            pkg.toList.map slashDots ++ '/' :: (cls.toList ++ ".java".toList) := by
          have := hq.map slashDots
          simp only [List.map_append, List.map_cons, List.map_nil] at this
          exact this.trans (List.prefix_append _ _)
        have := (List.prefix_of_prefix_length_le h₁ hdir (by simp)).eq_of_length (by simp)
        simp at this
    obtain rfl : q = pkg := String.toList_inj.1 hq
    refine ⟨hpkg, not_mem_of_isJavaPackage hjava (by decide) (by decide), ?_⟩
    -- after the directory comes the file of the class, which has no slash
    have hdrop : (javaPath q cls).toList.drop
        ((String.ofList (q.toList.map slashDots)).length + 1) = cls.toList ++ ".java".toList := by
      rw [javaPath_toList hpkg, ← List.singleton_append, ← List.append_assoc]
      exact List.drop_left' (by simp)
    dsimp only at hlies
    simp only [Bool.and_eq_true, Bool.not_eq_true', String.toList_ofList, hdrop] at hlies
    simpa using hlies.1
  · cases hlies

/-- A file written for class `key.2` of package `key.1`: assembled at the class's path, from a
prologue for the package. -/
def Artifact.WrittenAt (a : Artifact) (key : String × String) : Prop :=
  ∃ src dep imps w,
    a = Artifact.assemble (javaPath key.1 key.2) src (prologue key.1 src dep imps) w

theorem Artifact.WrittenAt.path {a : Artifact} {key : String × String} (h : a.WrittenAt key) :
    a.path = javaPath key.1 key.2 := by
  obtain ⟨src, dep, imps, w, rfl⟩ := h
  rfl

theorem Artifact.WrittenAt.pathParts {a : Artifact} {key : String × String} (h : a.WrittenAt key)
    (hd : a.defect = none) : PathParts key.1 key.2 := by
  obtain ⟨src, dep, imps, w, rfl⟩ := h
  exact Artifact.pathParts_of_defect hd

theorem paths_of_writtenAt {arts : List Artifact} {keys : List (String × String)}
    (hw : List.Forall₂ Artifact.WrittenAt arts keys) :
    arts.map (·.path) = keys.map fun key => javaPath key.1 key.2 := by
  induction hw with
  | nil => rfl
  | cons ha _ ih => rw [List.map_cons, List.map_cons, ha.path, ih]

/-- Checked files written under distinct keys have distinct paths. -/
theorem paths_nodup_of_keys {arts : List Artifact} {keys : List (String × String)}
    (hw : List.Forall₂ Artifact.WrittenAt arts keys) (hd : ∀ a ∈ arts, a.defect = none)
    (hk : keys.Nodup) : (arts.map (·.path)).Nodup := by
  have hparts : ∀ key ∈ keys, PathParts key.1 key.2 := by
    intro key hkey
    obtain ⟨a, ha, hwa⟩ := Emit.exists_of_forall₂_left hw.flip key hkey
    exact Artifact.WrittenAt.pathParts hwa (hd a ha)
  rw [paths_of_writtenAt hw]
  exact hk.map_on fun x hx y hy h =>
    Prod.ext_iff.2 (javaPath_inj (hparts x hx) (hparts y hy) h)

end BeanCodegen.Java

/-! ## The files of a request -/

namespace BeanCodegen

open BeanCodegen.Schema BeanCodegen.Plan BeanCodegen.Java BeanCodegen.Emit BeanCodegen.Naming
  BeanCodegen.Descriptor

theorem forall₂_flatMapM {α β γ ε : Type} {R : β → γ → Prop}
    {f : α → Except ε (List β)}
    {g : α → List γ} (hf : ∀ x ys, f x = .ok ys → List.Forall₂ R ys (g x)) :
    ∀ {l : List α} {ys : List β}, l.flatMapM f = .ok ys → List.Forall₂ R ys (l.flatMap g)
  | [], ys, h => by
    cases h
    exact List.Forall₂.nil
  | x :: l, ys, h => by
    rw [List.flatMapM_cons] at h
    obtain ⟨zs, hx, h⟩ := except_bind_eq_ok h
    obtain ⟨rest, hl, h⟩ := except_bind_eq_ok h
    cases h
    rw [List.flatMap_cons]
    exact List.rel_append (hf x zs hx) (forall₂_flatMapM hf hl)

theorem forall₂_filterMapM {α β γ ε : Type} {R : β → γ → Prop}
    {f : α → Except ε (Option β)}
    {g : α → γ} (hf : ∀ x b, f x = .ok (some b) → R b (g x)) :
    ∀ {l : List α} {ys : List β}, l.filterMapM f = .ok ys →
      ∃ zs, List.Sublist zs (l.map g) ∧ List.Forall₂ R ys zs
  | [], ys, h => by
    cases h
    exact ⟨[], List.Sublist.slnil, List.Forall₂.nil⟩
  | x :: l, ys, h => by
    rw [List.filterMapM_cons] at h
    obtain ⟨r, hx, h⟩ := except_bind_eq_ok h
    cases r with
    | none =>
      obtain ⟨zs, hsub, hR⟩ := forall₂_filterMapM hf h
      exact ⟨zs, hsub.cons _, hR⟩
    | some b =>
      obtain ⟨rest, hl, h⟩ := except_bind_eq_ok h
      cases h
      obtain ⟨zs, hsub, hR⟩ := forall₂_filterMapM hf hl
      exact ⟨g x :: zs, hsub.cons_cons _, List.Forall₂.cons (hf x b hx) hR⟩

namespace Emit

theorem Draft.finish_writtenAt (d : Draft) (pkg cls : String) (u : File) :
    (d.finish pkg cls u).WrittenAt (pkg, cls) :=
  ⟨_, _, _, _, rfl⟩

namespace Source

variable (c : Source)

/-- The keys of the value-class files of a descriptor file: its value-class package with the
class of each file of its layout. -/
def beanKeys : List (String × String) :=
  c.beanLayout.map fun z => (c.plan.voPackage, z.1)

/-- The key of the converter of a descriptor file. -/
def converterKey : String × String :=
  (c.session.config.converterPackage, c.plan.converterClass)

theorem beanFiles_writtenAt {bs : List Artifact} (h : c.beanFiles = .ok bs) :
    List.Forall₂ Artifact.WrittenAt bs c.beanKeys := by
  unfold Source.beanFiles at h
  cases hd : c.beanDrafts with
  | error e =>
    rw [hd] at h
    cases h
  | ok drafts =>
    rw [hd] at h
    obtain rfl := Except.ok.inj h
    rw [beanKeys, List.forall₂_map_left_iff, List.forall₂_map_right_iff]
    refine ((c.beanDrafts_layout hd).2).imp fun x z hm => ?_
    obtain ⟨cls, d⟩ := x
    rw [show z.1 = cls from hm.1.symm]
    exact d.finish_writtenAt _ _ _

theorem converterFile_writtenAt {a : Artifact} (h : c.converterFile = .ok (some a)) :
    a.WrittenAt c.converterKey := by
  unfold Source.converterFile at h
  dsimp only at h
  split at h
  · cases h
  obtain ⟨d, -, h⟩ := except_bind_eq_ok h
  cases h
  exact d.finish_writtenAt _ _ _

/-- The value-class files of a planned file are named for distinct classes. -/
theorem beanLayout_names_nodup {cfg : Config} {sn : SharedNames} (hL : c.unit.Linked)
    (hp : c.plan = ((planFile cfg c.unit).run sn).1) : (c.beanLayout.map (·.1)).Nodup := by
  unfold Source.beanLayout
  cases hw : c.plan.wrapperClass with
  | some wrapper =>
    -- at most the wrapper's own file
    dsimp only
    split <;> simp
  | none =>
    -- one file for each class at the top of the file, and no wrapper among them
    have htop := (topLevelClasses_of_planFile (a := c.session.alloc) (g := c.session.graph)
      (f := c.file) hL hp).1
    have hw' : (c.session.alloc.file c.file).wrapperClass = none := hw
    simpa [Allocation.topLevelClasses, Source.topMessages, Source.topEnums, Source.messagePlan,
      Source.enumPlan, Source.plan, Source.unit, Allocation.message, Allocation.enumPlan, hw',
      Function.comp_def] using htop

theorem beanKeys_nodup {cfg : Config} {sn : SharedNames} (hL : c.unit.Linked)
    (hp : c.plan = ((planFile cfg c.unit).run sn).1) : c.beanKeys.Nodup := by
  have hmap : c.beanKeys = (c.beanLayout.map (·.1)).map (Prod.mk c.plan.voPackage) := by
    simp [beanKeys]
  rw [hmap]
  exact (c.beanLayout_names_nodup hL hp).map (Prod.mk_right_injective _)

theorem fst_of_mem_beanKeys {key : String × String} (h : key ∈ c.beanKeys) :
    key.1 = c.plan.voPackage := by
  obtain ⟨z, -, rfl⟩ := List.mem_map.1 h
  rfl

end Source

end Emit

/-- The files of a session, when written, are its value-class files, each written under its key,
then converters written under the keys of some of the files to generate; all are checked. -/
theorem Session.artifacts_writtenAt {s : Session} {arts : List Artifact}
    (h : s.artifacts = .ok arts) :
    ∃ cvts, List.Sublist cvts (s.genFiles.map fun k => Source.converterKey ⟨s, k⟩) ∧
      List.Forall₂ Artifact.WrittenAt arts
        (s.genFiles.flatMap (fun k => Source.beanKeys ⟨s, k⟩) ++ cvts) ∧
      ∀ a ∈ arts, a.defect = none := by
  unfold Session.artifacts at h
  obtain ⟨beans, hb, h⟩ := except_bind_eq_ok h
  obtain ⟨converters, hc, h⟩ := except_bind_eq_ok h
  obtain ⟨u, hcheck, h⟩ := except_bind_eq_ok h
  cases h
  obtain ⟨cvts, hsub, hcw⟩ := forall₂_filterMapM
    (fun k _ hk => Source.converterFile_writtenAt ⟨s, k⟩ hk) hc
  refine ⟨cvts, hsub, List.rel_append
    (forall₂_flatMapM (fun k _ hk => Source.beanFiles_writtenAt ⟨s, k⟩ hk) hb) hcw,
    fun a ha => ?_⟩
  have := forM_eq_ok hcheck a ha
  split at this
  · cases this
  · assumption

/-! ## The plans of the files to generate -/

theorem Schema.Graph.fileNamed_eq_some {g : Graph} (hid : ∀ i < g.files.length, (g.file i).id = i)
    {n : String} {i : Nat} (h : g.fileNamed n = some i) :
    i < g.files.length ∧ (g.file i).name = n := by
  obtain ⟨u, hu, rfl⟩ := Option.map_eq_some_iff.1 h
  obtain ⟨j, hj, rfl⟩ := List.getElem_of_mem (List.mem_of_find?_eq_some hu)
  have hfile : g.file j = g.files[j] := by
    simp [Graph.file, List.getElem?_eq_getElem hj]
  have hname := List.find?_some hu
  rw [← hfile, hid j hj]
  exact ⟨hj, by simpa [hfile] using hname⟩

/-- Each file a request names resolves to the first file of the graph with that name. -/
theorem resolveFiles_forall₂ {g : Graph} {names : List String} {ks : List Nat}
    (h : resolveFiles g names = .ok ks) :
    List.Forall₂ (fun n k => g.fileNamed n = some k) names ks :=
  (Emit.forall₂_of_mapM_eq_ok h).imp fun n k hk => by
    split at hk
    · rename_i i hi
      cases hk
      exact hi
    · cases hk

/-- The files a request names are files of the graph, named as the request names them. -/
theorem resolveFiles_eq_ok {g : Graph} (hid : ∀ i < g.files.length, (g.file i).id = i)
    {names : List String} {ks : List Nat} (h : resolveFiles g names = .ok ks) :
    ks.map (fun k => (g.file k).name) = names ∧ ∀ k ∈ ks, k < g.files.length := by
  have hnamed := resolveFiles_forall₂ h
  refine ⟨?_, fun k hk => ?_⟩
  · clear h
    induction hnamed with
    | nil => rfl
    | cons hk _ ih => rw [List.map_cons, ih, (g.fileNamed_eq_some hid hk).2]
  · obtain ⟨n, -, hn⟩ := Emit.exists_of_forall₂_left hnamed.flip k hk
    exact (g.fileNamed_eq_some hid hn).1

/-- Plans of different files differ in a field whose values are pairwise distinct. -/
theorem Plan.Allocation.file_inj {a : Allocation} {field : FilePlan → String}
    (hnodup : (a.files.map field).Nodup) {k k' : Nat} (hk : k < a.files.length)
    (hk' : k' < a.files.length) (h : field (a.file k) = field (a.file k')) : k = k' := by
  have hget : ∀ {i}, i < a.files.length →
      (a.files.map field)[i]? = some (field (a.file i)) := by
    intro i hi
    simp [Allocation.file, List.getElem?_eq_getElem hi]
  exact (List.getElem?_inj (by simpa using hk) hnodup).1 (by rw [hget hk, hget hk', h])

section Checked

variable {r : Request} {s : Session} (hs : Session.checked r = .ok s)
include hs

theorem Session.checked_ids : ∀ i < s.graph.files.length, (s.graph.file i).id = i :=
  fun i hi => (Graph.build_linked (Session.checked_parts hs).1 i hi).2

/-- Each file of a checked session is planned from its own schema, which is linked. -/
theorem Session.checked_plan {k : Nat} (hk : k < s.graph.files.length) :
    (s.graph.file k).Linked ∧ k < s.alloc.files.length ∧
      ∃ sn, s.alloc.file k = ((planFile s.config (s.graph.file k)).run sn).1 := by
  obtain ⟨hg, -, halloc, -, -⟩ := Session.checked_parts hs
  obtain ⟨sn, hsn⟩ := getElem?_allocate_files s.config (Session.checked_ids hs) s.genFiles hk
  refine ⟨(Graph.build_linked hg k hk).1, ?_, sn, ?_⟩
  · rw [halloc]
    exact (List.getElem?_eq_some_iff.1 hsn).1
  · rw [halloc, Allocation.file, hsn]
    rfl

/-- The files to generate are distinct when the request names each once. -/
theorem Session.checked_genFiles_nodup (hnames : r.fileToGenerate.Nodup) : s.genFiles.Nodup := by
  obtain ⟨hnamed, -⟩ :=
    resolveFiles_eq_ok (Session.checked_ids hs) (Session.checked_parts hs).2.1
  exact List.Nodup.of_map _ (hnamed ▸ hnames)

theorem Session.checked_genFiles_lt {k : Nat} (hk : k ∈ s.genFiles) : k < s.graph.files.length :=
  (resolveFiles_eq_ok (Session.checked_ids hs) (Session.checked_parts hs).2.1).2 k hk

/-- Distinct files of a checked session get distinct plans in a field the allocation keeps
unique. -/
theorem Session.checked_file_inj {field : FilePlan → String}
    (hnodup : (s.alloc.files.map field).Nodup)
    {k k' : Nat} (hk : k < s.graph.files.length) (hk' : k' < s.graph.files.length)
    (h : field (s.alloc.file k) = field (s.alloc.file k')) : k = k' :=
  Allocation.file_inj hnodup (Session.checked_plan hs hk).2.1 (Session.checked_plan hs hk').2.1 h

end Checked

/-! ## Distinct paths -/

theorem Session.artifacts_of_compileRequest {r : Request} {s : Session} {arts : List Artifact}
    (hs : Session.checked r = .ok s) (hok : compileRequest r = .ok arts) :
    s.artifacts = .ok arts := by
  unfold compileRequest at hok
  obtain ⟨s', hs', hok⟩ := except_bind_eq_ok hok
  rw [hs] at hs'
  cases hs'
  obtain ⟨_, -, hart⟩ := except_bind_eq_ok hok
  exact hart

/-- A request that names each file to generate once, and whose value-class packages are all other
than the converter package, compiles to files with pairwise distinct paths. The value-class files
of one descriptor file are named for distinct classes of one package; two descriptor files get
distinct value-class packages, and converter classes distinct from each other. -/
theorem compileRequest_paths_nodup {r : Request} {s : Session} {arts : List Artifact}
    (hs : Session.checked r = .ok s) (hok : compileRequest r = .ok arts)
    (hnames : r.fileToGenerate.Nodup)
    (hcvt : ∀ k ∈ s.genFiles, (s.alloc.file k).voPackage ≠ s.config.converterPackage) :
    (arts.map (·.path)).Nodup := by
  obtain ⟨cvts, hsub, hw, hd⟩ :=
    Session.artifacts_writtenAt (Session.artifacts_of_compileRequest hs hok)
  have hgen := Session.checked_genFiles_nodup hs hnames
  have hlt : ∀ k ∈ s.genFiles, k < s.graph.files.length := fun k hk =>
    Session.checked_genFiles_lt hs hk
  have hvo : ∀ k ∈ s.genFiles, ∀ k' ∈ s.genFiles,
      (s.alloc.file k).voPackage = (s.alloc.file k').voPackage → k = k' := by
    intro k hk k' hk' h
    refine Session.checked_file_inj hs ?_ (hlt k hk) (hlt k' hk') h
    rw [(Session.checked_parts hs).2.2.1]
    exact allocate_voPackages_nodup _ _ _
  refine paths_nodup_of_keys hw hd (List.nodup_append.2 ⟨?beans, ?converters, ?apart⟩)
  case beans =>
    -- within a file by class, across files by package
    refine List.nodup_flatMap.2 ⟨fun k hk => ?_, hgen.imp_of_mem fun {k k'} hk hk' hne => ?_⟩
    · obtain ⟨hL, -, sn, hp⟩ := Session.checked_plan hs (hlt k hk)
      exact Source.beanKeys_nodup ⟨s, k⟩ hL hp
    · intro key hkey hkey'
      exact hne (hvo k hk k' hk' ((Source.fst_of_mem_beanKeys ⟨s, k⟩ hkey).symm.trans
        (Source.fst_of_mem_beanKeys ⟨s, k'⟩ hkey')))
  case converters =>
    refine List.Nodup.sublist hsub (hgen.map_on fun k hk k' hk' h => ?_)
    refine Session.checked_file_inj hs (?_ : (s.alloc.files.map FilePlan.converterClass).Nodup)
      (hlt k hk) (hlt k' hk') (congrArg Prod.snd h)
    rw [(Session.checked_parts hs).2.2.1]
    exact allocate_converterClasses_nodup _ _ _
  case apart =>
    intro key hkey key' hkey' heq
    obtain ⟨k, hk, hkey⟩ := List.mem_flatMap.1 hkey
    obtain ⟨k', -, rfl⟩ := List.mem_map.1 (hsub.subset hkey')
    exact hcvt k hk
      ((Source.fst_of_mem_beanKeys ⟨s, k⟩ hkey).symm.trans (congrArg Prod.fst heq))

/-- The file `c.proto` of package `p`, holding one enum, generated with value classes under `a`. -/
def enumFile : FileProto :=
  { name := some "c.proto", package := some "p"
    enumType := [{ name := some "E", value := [{ name := some "X", number := some 0 }] }] }

def enumRequest : Request :=
  { fileToGenerate := ["c.proto"], parameter := some "vopkg=a", protoFile := [enumFile] }

theorem enumRequest_paths_nodup :
    ∃ s arts, Session.checked enumRequest = .ok s ∧ compileRequest enumRequest = .ok arts ∧
      (arts.map (·.path)).Nodup := by
  have hplans : (match Session.checked enumRequest with
      | .ok s => s.genFiles.all fun k => (s.alloc.file k).voPackage != s.config.converterPackage
      | .error _ => false) = true := by
    with_unfolding_all decide
  have hok : (compileRequest enumRequest).isOk = true := by decide +kernel
  cases hs : Session.checked enumRequest with
  | error e =>
    rw [hs] at hplans
    cases hplans
  | ok s =>
    cases harts : compileRequest enumRequest with
    | error e =>
      rw [harts] at hok
      cases hok
    | ok arts =>
      rw [hs] at hplans
      refine ⟨s, arts, rfl, rfl, compileRequest_paths_nodup hs harts (by decide) fun k hk => ?_⟩
      simpa using List.all_eq_true.1 hplans k hk

/-- The same request naming `c.proto` twice. -/
def enumTwiceRequest : Request :=
  { enumRequest with fileToGenerate := ["c.proto", "c.proto"] }

/-- A file named twice among the files to generate is generated twice, at one path. -/
theorem enumTwiceRequest_paths_dup :
    ∃ arts, compileRequest enumTwiceRequest = .ok arts ∧
      arts.map (·.path) = ["a/p1/E.java", "a/p1/E.java"] := by
  have hpaths : (compileRequest enumTwiceRequest).toOption.map (·.map (·.path)) =
      some ["a/p1/E.java", "a/p1/E.java"] := by
    decide +kernel
  cases harts : compileRequest enumTwiceRequest with
  | error e =>
    rw [harts] at hpaths
    cases hpaths
  | ok arts => exact ⟨arts, rfl, Option.some.inj (by rw [harts] at hpaths; exact hpaths)⟩

end BeanCodegen
