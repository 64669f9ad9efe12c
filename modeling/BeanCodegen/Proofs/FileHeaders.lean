import Mathlib
import BeanCodegen.Compile
import BeanCodegen.Proofs.ArtifactPaths
/-! # The header of a generated file

Every file the generators write starts with a prologue: the package line, a blank line, the
generated-code marker, the source line and the imports. For a class of a Java package whose
name has no slash, the check of such a file passes its first two stages: the first line
declares the file's package, the file lies in that package's directory, and the marker is
there (`Artifact.defect_assemble`). What can still be wrong lies in the text's brackets and
annotations (`Artifact.textDefect`).
-/

namespace BeanCodegen.Text

/-- The lines of a text split at its first line break: that line, then the lines of the rest. -/
theorem lines_append_newline {l : List Char} (h : '\n' ∉ l) (m : List Char) :
    lines (String.ofList (l ++ '\n' :: m)) =
      dropCarriageReturn (String.ofList l) :: lines (String.ofList m) := by
  obtain ⟨x, rest, hm⟩ : ∃ x rest, splitChars '\n' m = x :: rest := by
    cases hm : splitChars '\n' m with
    | nil => exact absurd hm (splitChars_ne_nil _ _)
    | cons x rest => exact ⟨x, rest, rfl⟩
  have hsplit : splitChars '\n' (l ++ '\n' :: m) = l :: x :: rest := by
    rw [splitChars_append_sep h, hm]
  simp only [lines, splitChar, String.toList_ofList, hsplit, hm, List.map_cons,
    List.dropLast_cons_cons, List.getLast?_cons_cons]
  split <;> simp_all

theorem dropCarriageReturn_of_getLast {s : String} (h : s.toList.getLast? ≠ some '\r') :
    dropCarriageReturn s = s := by
  unfold dropCarriageReturn
  split
  · rename_i hend
    rw [String.endsWith_eq_endsWith_toSlice] at hend
    have hsuffix : "\r".toList <:+ s.toList := by
      simpa using String.Slice.endsWith_string_iff.1 hend
    obtain ⟨t, ht⟩ := hsuffix
    refine absurd ?_ h
    rw [← ht]
    simp
  · rfl

end BeanCodegen.Text

namespace BeanCodegen.Java

open BeanCodegen.Text BeanCodegen.Naming

/-- The package line of a Java package declares that package. -/
theorem declaredPackage_packageLine {pkg : String} (h : isJavaPackage pkg = true) :
    declaredPackage ("package " ++ pkg ++ ";") = some pkg := by
  have hchars : ("package " ++ pkg ++ ";").toList = "package ".toList ++ pkg.toList ++ [';'] := by
    simp
  have hstart : ("package " ++ pkg ++ ";").startsWith "package " = true := by
    rw [String.startsWith_string_iff, hchars, List.append_assoc]
    exact List.prefix_append _ _
  have hend : ("package " ++ pkg ++ ";").endsWith ";" = true := by
    rw [String.endsWith_eq_endsWith_toSlice]
    exact String.Slice.endsWith_string_iff.2 ⟨"package ".toList ++ pkg.toList, by simp⟩
  have hpkg : String.ofList ((("package " ++ pkg ++ ";").toList.drop 8).dropLast) = pkg := by
    rw [hchars, List.append_assoc, List.drop_left' (by rfl), List.dropLast_concat,
      String.ofList_toList]
  unfold declaredPackage
  simp only [hstart, hend, Bool.and_self, if_true, hpkg, h]

/-- The path of a class of a package lies in the package's directory. -/
theorem liesIn_javaPath {pkg cls : String} (hpkg : pkg ≠ "") (hcls : '/' ∉ cls.toList) :
    liesIn (javaPath pkg cls) (String.ofList (pkg.toList.map slashDots)) = true := by
  have hfile : (javaPath pkg cls).toList.drop
      ((String.ofList (pkg.toList.map slashDots)).length + 1) = cls.toList ++ ".java".toList := by
    rw [javaPath_toList hpkg, ← List.singleton_append, ← List.append_assoc]
    exact List.drop_left' (by simp)
  have hstart : (javaPath pkg cls).startsWith (String.ofList (pkg.toList.map slashDots) ++ "/") =
      true := by
    rw [String.startsWith_string_iff, javaPath_toList hpkg]
    simp
  unfold liesIn
  rw [if_pos hstart]
  have hend : (String.ofList (cls.toList ++ ".java".toList)).endsWith ".java" = true := by
    rw [String.endsWith_eq_endsWith_toSlice]
    exact String.Slice.endsWith_string_iff.2 ⟨cls.toList, by simp⟩
  have hslash : '/' ∉ cls.toList ++ ".java".toList := by
    simp only [List.mem_append, not_or]
    exact ⟨hcls, by decide⟩
  simp only [hfile, hend, String.toList_ofList, Bool.and_true, Bool.not_eq_true',
    List.contains_eq_mem, decide_eq_false_iff_not]
  exact hslash

/-- A file of a package starts with its package line, a blank line and the marker line. -/
theorem lines_prologue {pkg : String} (hpkg : pkg ≠ "") (hnl : '\n' ∉ pkg.toList) (src : String)
    (dep : Bool) (imps : List String) (t : String) :
    ∃ rest, lines (prologue pkg src dep imps ++ t) =
      ("package " ++ pkg ++ ";") :: "" :: generatedMarker :: rest := by
  obtain ⟨R, hR⟩ : ∃ R, (prologue pkg src dep imps ++ t).toList =
      ("package " ++ pkg ++ ";").toList ++
        '\n' :: ([] ++ '\n' :: (generatedMarker.toList ++ '\n' :: R)) := by
    simp [prologue, hpkg]
  have hline : '\n' ∉ ("package " ++ pkg ++ ";").toList := by
    simp only [String.toList_append, List.mem_append, not_or]
    exact ⟨⟨by decide, hnl⟩, by decide⟩
  have hmarker : '\n' ∉ generatedMarker.toList := by decide
  have hcr : ("package " ++ pkg ++ ";").toList.getLast? ≠ some '\r' := by
    rw [String.toList_append, List.getLast?_append]
    simp
  refine ⟨lines (String.ofList R), ?_⟩
  rw [← String.ofList_toList (s := prologue pkg src dep imps ++ t), hR,
    lines_append_newline hline, lines_append_newline List.not_mem_nil,
    lines_append_newline hmarker, String.ofList_toList, String.ofList_toList,
    dropCarriageReturn_of_getLast hcr,
    dropCarriageReturn_of_getLast (s := generatedMarker) (by decide),
    dropCarriageReturn_of_getLast (s := String.ofList []) (by simp)]

/-- A file assembled for a class of a Java package, the class's name free of slashes, passes
the package-line and marker checks: its check comes down to its text. -/
theorem Artifact.defect_assemble {pkg cls src : String} {dep : Bool} {imps : List String}
    {w : Writer} (hpkg : isJavaPackage pkg = true) (hcls : '/' ∉ cls.toList) :
    (Artifact.assemble (javaPath pkg cls) src (prologue pkg src dep imps) w).defect =
      (Artifact.assemble (javaPath pkg cls) src (prologue pkg src dep imps) w).textDefect := by
  have hne : pkg ≠ "" := by
    rintro rfl
    exact absurd hpkg (by decide)
  have hnl : '\n' ∉ pkg.toList := not_mem_of_isJavaPackage hpkg (by decide) (by decide)
  obtain ⟨rest, hlines⟩ := lines_prologue hne hnl src dep imps w.text
  have hlies : liesIn (javaPath pkg cls)
      (String.ofList (pkg.toList.map fun c => if c = '.' then '/' else c)) = true :=
    liesIn_javaPath hne hcls
  unfold Artifact.defect
  have hmarker : (("package " ++ pkg ++ ";") :: "" :: generatedMarker :: rest).contains
      generatedMarker = true := by
    simp
  simp only [Artifact.assemble, hlines, List.headD_cons, declaredPackage_packageLine hpkg, hlies,
    hmarker, Bool.not_true, Bool.false_eq_true, if_false]

end BeanCodegen.Java

namespace BeanCodegen.Config

open BeanCodegen.Naming BeanCodegen.Schema

theorem checkPackage_eq_ok {key pkg : String} {u : Unit} (h : checkPackage key pkg = .ok u) :
    isJavaPackage pkg = true := by
  unfold checkPackage at h
  split at h
  · assumption
  · cases h

/-- A parsed configuration names Java packages for the value classes and the converters. -/
theorem parse_packages {p : String} {cfg : Config} (h : parse p = .ok cfg) :
    isJavaPackage cfg.voPackage = true ∧ isJavaPackage cfg.converterPackage = true := by
  unfold parse at h
  dsimp only at h
  split at h
  · obtain ⟨_, hthrow, -⟩ := except_bind_eq_ok h
    cases hthrow
  obtain ⟨_, hvo, h⟩ := except_bind_eq_ok h
  obtain ⟨_, hcvt, h⟩ := except_bind_eq_ok h
  obtain ⟨layout, -, h⟩ := except_bind_eq_ok h
  obtain rfl : _ = cfg := Except.ok.inj h
  exact ⟨checkPackage_eq_ok hvo, checkPackage_eq_ok hcvt⟩

end BeanCodegen.Config

namespace BeanCodegen

open BeanCodegen.Schema BeanCodegen.Java BeanCodegen.Emit BeanCodegen.Naming BeanCodegen.Descriptor

theorem Java.Artifact.WrittenAt.defect_eq {a : Artifact} {key : String × String}
    (h : a.WrittenAt key) (hpkg : isJavaPackage key.1 = true) (hcls : '/' ∉ key.2.toList) :
    a.defect = a.textDefect := by
  obtain ⟨src, dep, imps, w, rfl⟩ := h
  exact Artifact.defect_assemble hpkg hcls

/-- The files written for a descriptor file pass the package-line and marker checks: each one's
check comes down to its text. -/
def Emit.Source.HeadersPass (c : Source) : Prop :=
  (∀ bs, c.beanFiles = .ok bs → ∀ a ∈ bs, a.defect = a.textDefect) ∧
    ∀ a, c.converterFile = .ok (some a) → a.defect = a.textDefect

/-- The file `my-file.proto` of package `demo` with one message `A`, generated with value classes
under `a` in the per-file layout. -/
def dashedFileRequest : Request :=
  { fileToGenerate := ["my-file.proto"], parameter := some "vopkg=a,layout=file"
    protoFile := [{ name := some "my-file.proto", package := some "demo"
                    messageType := [{ name := some "A" }] }] }

/-- The two requests of the examples below evaluated: the message-reference request plans a Java
package for its value classes and keys without slashes, and the dashed file fails its check on
the annotation of its wrapper class. -/
theorem headerExamples_evaluated :
    ((match Session.checked messageRefRequest with
      | .ok s => isJavaPackage (s.alloc.file 0).voPackage &&
          (Source.converterKey ⟨s, 0⟩ :: Source.beanKeys ⟨s, 0⟩).all fun key =>
            !key.2.toList.contains '/'
      | .error _ => false) &&
      (match compileRequest dashedFileRequest with
        | .error (.malformedOutput p d) =>
          decide (p = "a/demo/My-fileBeans.java" ∧ d = ⟨6, .notIdentifier "My-fileBeans"⟩)
        | _ => false)) = true := by
  decide +kernel

end BeanCodegen
