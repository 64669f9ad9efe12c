import Mathlib
import BeanCodegen.Proofs.FileHeaders
import BeanCodegen.Proofs.JavaNames
/-! # Value-class packages are Java packages

`packageSuffix` turns any text, a protobuf package or a file's base name, into dot-separated
segments `[a-z_][a-z0-9_]*`, none of them a Java keyword. Lowercasing may turn one character
into several, but never into an ASCII capital, and it never empties a segment; every other
character becomes an underscore, a leading digit gets one in front, and a keyword gets a number.
A suffix is its own suffix again.

The package a file's value classes get is the configured package, followed by that suffix
when it is not empty, and possibly by a number from the registry of packages taken. The
configured package is a Java package, so the result is one too, and its only keyword segments
are those of the configured package: the suffix has none, and a segment with a number appended
holds a digit, which no keyword does.
-/

namespace BeanCodegen.Text

/-! ## Splitting at a separator -/

theorem splitChars_of_not_mem {sep : Char} : ∀ {l : List Char}, sep ∉ l → splitChars sep l = [l]
  | [], _ => rfl
  | c :: l, h => by
    have hc : c ≠ sep := fun hc => h (hc ▸ List.mem_cons_self)
    rw [splitChars, splitChars_of_not_mem (fun hl => h (List.mem_cons_of_mem c hl))]
    simp [hc]

/-- Text joined at a separator splits into the pieces of both sides. -/
theorem splitChars_append_cons_sep (sep : Char) : ∀ l m : List Char,
    splitChars sep (l ++ sep :: m) = splitChars sep l ++ splitChars sep m
  | [], m => by simp [splitChars]
  | c :: l, m => by
    obtain ⟨p, ps, hp⟩ := List.exists_cons_of_ne_nil (splitChars_ne_nil sep l)
    simp only [List.cons_append, splitChars, splitChars_append_cons_sep sep l m, hp]
    split <;> simp

/-- Text without the separator, appended, lengthens the last piece. -/
theorem splitChars_append_of_not_mem {sep : Char} {m : List Char} (hm : sep ∉ m) :
    ∀ l : List Char, ∃ init last, splitChars sep l = init ++ [last] ∧
      splitChars sep (l ++ m) = init ++ [last ++ m]
  | [] => ⟨[], [], rfl, by simp [splitChars_of_not_mem hm]⟩
  | c :: l => by
    obtain ⟨init, last, hl, hlm⟩ := splitChars_append_of_not_mem hm l
    simp only [List.cons_append, splitChars, hl, hlm]
    split
    · exact ⟨[] :: init, last, rfl, rfl⟩
    · -- `c` joins the first piece, which is the last one when there is only one
      cases init with
      | nil => exact ⟨[], c :: last, rfl, by simp⟩
      | cons i is => exact ⟨(c :: i) :: is, last, rfl, rfl⟩

theorem splitChar_append_dot (a b : String) :
    splitChar (a ++ "." ++ b) '.' = splitChar a '.' ++ splitChar b '.' := by
  simp only [splitChar, String.toList_append, List.append_assoc]
  rw [show String.toList "." = ['.'] from rfl, List.singleton_append,
    splitChars_append_cons_sep, List.map_append]

theorem splitChar_append_of_not_mem {m : String} (hm : '.' ∉ m.toList) (a : String) :
    ∃ init last, splitChar a '.' = init ++ [last] ∧ splitChar (a ++ m) '.' = init ++ [last ++ m] := by
  obtain ⟨init, last, ha, ham⟩ := splitChars_append_of_not_mem hm a.toList
  refine ⟨init.map String.ofList, String.ofList last, ?_, ?_⟩
  · simp [splitChar, ha]
  · simp [splitChar, String.toList_append, ham, String.ofList_append]

/-- Pieces without the separator, joined by it, split back into themselves. -/
theorem splitChar_intercalate : ∀ {segs : List String}, segs ≠ [] →
    (∀ s ∈ segs, '.' ∉ s.toList) → splitChar (".".intercalate segs) '.' = segs
  | [s], _, h => by
    simp [String.intercalate_singleton, splitChar, splitChars_of_not_mem (h s (by simp))]
  | s :: t :: rest, _, h => by
    rw [String.intercalate_cons_cons, splitChar_append_dot,
      splitChar_intercalate (List.cons_ne_nil t rest) fun x hx => h x (List.mem_cons_of_mem s hx)]
    simp [splitChar, splitChars_of_not_mem (h s List.mem_cons_self)]

/-! ## Lowercasing never writes a capital -/

theorem lowerRuns_eq_cons : lowerRuns = (0x41, 26, 1, 32) :: lowerRuns.tail := rfl

set_option maxRecDepth 20000 in
/-- Every run after the ASCII capitals starts above the ASCII range. -/
theorem lowerRuns_tail_start : ∀ r ∈ lowerRuns.tail, 0xC0 ≤ r.1 := by decide

set_option maxRecDepth 20000 in
/-- Every run maps its first code point, and so all of them, to a small letter or above. -/
theorem lowerRuns_image_ge : ∀ r ∈ lowerRuns, (97 : Int) ≤ r.1 + r.2.2.2 := by decide

/-- A code point a table maps lies at or above the least image of its runs' first points. -/
theorem le_of_lookupRuns {runs : List (Nat × Nat × Nat × Int)} {B : Int}
    (hB : ∀ r ∈ runs, B ≤ r.1 + r.2.2.2) {c n : Nat} (h : lookupRuns runs c = some n) :
    B ≤ n := by
  obtain ⟨⟨first, count, stride, shift⟩, hr, hrun⟩ := List.exists_of_findSome?_eq_some h
  dsimp only at hrun
  split at hrun
  · rename_i hcov
    obtain rfl := Option.some.inj hrun
    have hfirst := hB _ hr
    dsimp only at hfirst
    have hc : (first : Int) ≤ c := by exact_mod_cast hcov.1
    exact (show B ≤ (c : Int) + shift by omega).trans (Int.self_le_toNat _)
  · cases hrun

theorem lookupRuns_eq_none_of_lt {runs : List (Nat × Nat × Nat × Int)} {c : Nat}
    (h : ∀ r ∈ runs, c < r.1) : lookupRuns runs c = none := by
  refine List.findSome?_eq_none_iff.2 fun ⟨first, count, stride, shift⟩ hr => ?_
  have := h _ hr
  dsimp only at this ⊢
  rw [if_neg (by omega)]

/-- Only ASCII capitals fall in the first run of the lowercase table. -/
theorem lookupRuns_lower_of_isUpper {c : Char} (h : c.isUpper = true) :
    ∃ n, lookupRuns lowerRuns c.toNat = some n := by
  have hr := Naming.isUpper_iff_range.1 h
  refine ⟨c.toNat + 32, ?_⟩
  rw [lookupRuns, lowerRuns_eq_cons, List.findSome?_cons]
  dsimp only
  rw [if_pos (by omega), Option.some.injEq]
  omega

theorem isUpper_ofNat_of_ge {n : Nat} (h : 91 ≤ n) : (Char.ofNat n).isUpper = false := by
  rw [Bool.eq_false_iff, ne_eq, Naming.isUpper_iff_range, Char.toNat_ofNat]
  split <;> omega

theorem lowerChar_not_upper (c : Char) : ∀ d ∈ lowerChar c, d.isUpper = false := by
  unfold lowerChar mapWith
  split
  · -- the one several-character image: `i` and a combining dot
    rename_i cs hcs
    have hcs' : cs = [0x69, 0x307] := by
      unfold lowerSpecial at hcs
      simp only [List.lookup_cons, List.lookup_nil] at hcs
      split at hcs
      · exact (Option.some.inj hcs).symm
      · cases hcs
    subst hcs'
    intro d hd
    simp only [List.map_cons, List.map_nil, List.mem_cons, List.not_mem_nil, or_false] at hd
    rcases hd with rfl | rfl <;> exact isUpper_ofNat_of_ge (by norm_num)
  · split
    · rename_i n hn
      have := le_of_lookupRuns lowerRuns_image_ge hn
      simp only [List.mem_singleton, forall_eq]
      exact isUpper_ofNat_of_ge (by omega)
    · rename_i hn
      simp only [List.mem_singleton, forall_eq]
      cases hu : c.isUpper with
      | false => rfl
      | true =>
        obtain ⟨n, hsome⟩ := lookupRuns_lower_of_isUpper hu
        rw [hsome] at hn
        cases hn

theorem lowerChar_ne_nil (c : Char) : lowerChar c ≠ [] := by
  unfold lowerChar mapWith
  split
  · rename_i cs hcs
    unfold lowerSpecial at hcs
    simp only [List.lookup_cons, List.lookup_nil] at hcs
    split at hcs
    · rw [← Option.some.inj hcs]
      simp
    · cases hcs
  · split <;> simp

/-- A small ASCII letter, a digit or an underscore is its own lowercase form. -/
theorem lowerChar_of_ascii {c : Char} (h : c.toNat < 0xC0) (hu : c.isUpper = false) :
    lowerChar c = [c] := by
  have hr : ¬(65 ≤ c.toNat ∧ c.toNat ≤ 90) := fun hr => by
    rw [Naming.isUpper_iff_range.2 hr] at hu
    cases hu
  unfold lowerChar mapWith
  have hspecial : lowerSpecial.lookup c.toNat = none := by
    have h304 : (c.toNat == 0x130) = false := beq_eq_false_iff_ne.2 (by omega)
    simp only [lowerSpecial, List.lookup_cons, List.lookup_nil, h304]
  have hruns : lookupRuns lowerRuns c.toNat = none := by
    rw [lookupRuns, lowerRuns_eq_cons, List.findSome?_cons]
    dsimp only
    rw [if_neg (by omega)]
    exact lookupRuns_eq_none_of_lt fun r hr => by
      have := lowerRuns_tail_start r hr
      omega
  rw [hspecial]
  dsimp only
  rw [hruns]

theorem lowerList_not_upper : ∀ (before l : List Char), ∀ d ∈ lowerList before l, d.isUpper = false
  | _, [] => by simp [lowerList]
  | before, c :: rest => by
    simp only [lowerList, List.mem_append]
    rintro d (hd | hd)
    · -- a capital sigma becomes a small final or medial sigma
      split at hd
      · split at hd <;> (simp only [List.mem_singleton] at hd; subst hd; decide)
      · exact lowerChar_not_upper c d hd
    · exact lowerList_not_upper (c :: before) rest d hd

theorem lowerList_ne_nil (before : List Char) {l : List Char} (h : l ≠ []) :
    lowerList before l ≠ [] := by
  obtain ⟨c, rest, rfl⟩ := List.exists_cons_of_ne_nil h
  simp only [lowerList, ne_eq, List.append_eq_nil_iff, not_and]
  intro himage
  split at himage
  · split at himage <;> cases himage
  · exact absurd himage (lowerChar_ne_nil c)

theorem lowerList_of_ascii : ∀ (before l : List Char),
    (∀ c ∈ l, c.toNat < 0xC0 ∧ c.isUpper = false) → lowerList before l = l
  | _, [], _ => rfl
  | before, c :: rest, h => by
    obtain ⟨⟨hlt, hu⟩, hrest⟩ := List.forall_mem_cons.1 h
    simp only [lowerList, if_neg (show c.toNat ≠ 0x3A3 by omega), lowerChar_of_ascii hlt hu,
      List.singleton_append, lowerList_of_ascii (c :: before) rest hrest]

end BeanCodegen.Text

namespace BeanCodegen.Naming

open BeanCodegen.Text BeanCodegen.Plan

/-! ## Segments -/

section Segments

variable {c : Char} {s : String}

theorem isSegmentChar_iff_range :
    isSegmentChar c = true ↔ (97 ≤ c.toNat ∧ c.toNat ≤ 122) ∨ (48 ≤ c.toNat ∧ c.toNat ≤ 57) ∨
      c.toNat = 95 := by
  simp only [isSegmentChar, isSegmentStart, Bool.or_eq_true, Bool.and_eq_true, decide_eq_true_eq,
    Char.le_def, UInt32.le_iff_toNat_le, Char.toNat_val, isDigit_iff_range, ← Char.toNat_inj]
  show ((97 ≤ c.toNat ∧ c.toNat ≤ 122) ∨ c.toNat = 95) ∨ (48 ≤ c.toNat ∧ c.toNat ≤ 57) ↔ _
  tauto

theorem isSegmentStart_iff_range :
    isSegmentStart c = true ↔ (97 ≤ c.toNat ∧ c.toNat ≤ 122) ∨ c.toNat = 95 := by
  simp only [isSegmentStart, Bool.or_eq_true, Bool.and_eq_true, decide_eq_true_eq,
    Char.le_def, UInt32.le_iff_toNat_le, Char.toNat_val, ← Char.toNat_inj]
  rfl

theorem isPackageSegment_iff :
    isPackageSegment s = true ↔
      ∃ c rest, s.toList = c :: rest ∧ isSegmentStart c = true ∧
        ∀ d ∈ rest, isSegmentChar d = true := by
  unfold isPackageSegment
  split <;> simp_all

theorem isJavaPackage_iff : isJavaPackage s = true ↔ ∀ seg ∈ splitChar s '.', isPackageSegment seg = true := by
  simp [isJavaPackage]

theorem dot_not_mem_of_isPackageSegment (h : isPackageSegment s = true) : '.' ∉ s.toList := by
  obtain ⟨c, rest, hs, hc, hrest⟩ := isPackageSegment_iff.1 h
  rw [hs]
  rintro (_ | ⟨_, hd⟩)
  · rw [isSegmentStart_iff_range] at hc
    simp at hc
  · have := isSegmentChar_iff_range.1 (hrest _ hd)
    simp at this

theorem toList_toString_isDigit (k : Nat) : ∀ d ∈ (toString k).toList, d.isDigit = true :=
  fun _ hd => Nat.isDigit_of_mem_toDigits (by decide) (by decide) (Nat.toList_repr ▸ hd)

theorem isPackageSegment_numbered (h : isPackageSegment s = true) (k : Nat) :
    isPackageSegment (s ++ toString k) = true := by
  obtain ⟨c, rest, hs, hc, hrest⟩ := isPackageSegment_iff.1 h
  refine isPackageSegment_iff.2 ⟨c, rest ++ (toString k).toList, by simp [hs], hc, fun d hd => ?_⟩
  rcases List.mem_append.1 hd with hd | hd
  · exact hrest d hd
  · have := isDigit_iff_range.1 (toList_toString_isDigit k d hd)
    rw [isSegmentChar_iff_range]
    omega

/-- No keyword holds a digit. -/
theorem keywords_digitFree : javaKeywords.all (fun k => k.toList.all (fun c => !c.isDigit)) = true :=
  rfl

/-- A name with a number appended is no keyword. -/
theorem numbered_not_keyword (s : String) (k : Nat) : s ++ toString k ∉ javaKeywords := by
  intro hk
  obtain ⟨d, hd⟩ := List.exists_mem_of_ne_nil (toString k).toList (by simp)
  have hfree := List.all_eq_true.1 (List.all_eq_true.1 keywords_digitFree _ hk) d
    (by rw [String.toList_append]; exact List.mem_append_right _ hd)
  rw [toList_toString_isDigit k d hd] at hfree
  cases hfree

theorem keyword_of_contains {name : String} (h : javaKeywords.contains name = true) :
    name ∈ javaKeywords := by
  simpa using h

/-- The characters of a segment before its first one is fixed: lowercase, with every other
character than a letter, a digit or an underscore made an underscore. -/
theorem isSegmentChar_of_lowered {d : Char} (hu : d.isUpper = false) :
    isSegmentChar (if d.isAlphanum || d = '_' then d else '_') = true := by
  split
  · rename_i h
    rw [isSegmentChar_iff_range]
    simp only [Char.isAlphanum, Char.isAlpha, Bool.or_eq_true, isUpper_iff_range,
      isLower_iff_range, isDigit_iff_range, decide_eq_true_eq] at h
    have hr : ¬(65 ≤ d.toNat ∧ d.toNat ≤ 90) := fun hr => by
      rw [isUpper_iff_range.2 hr] at hu
      cases hu
    rcases h with h | h
    · omega
    · subst h
      decide
  · decide

/-- A segment that is a keyword is renamed by the registry of reserved names; what comes out
is a segment and no keyword. -/
theorem renamed_valid {name : String} (h : isPackageSegment name = true) :
    isPackageSegment (if javaKeywords.contains name = true then (Registry.withReserved.claim name).1
      else name) = true ∧
    (if javaKeywords.contains name = true then (Registry.withReserved.claim name).1 else name) ∉
      javaKeywords := by
  split
  · rw [Registry.claim_fst]
    refine ⟨?_, fun hk => ?_⟩
    · unfold Registry.fresh
      split
      · obtain ⟨k, hk⟩ :=
          numberedFrom_numbered Registry.withReserved name Registry.withReserved.taken.length 1
        rw [hk]
        exact isPackageSegment_numbered h k
      · exact h
    · have hres := Plan.reserving_withReserved.fresh name
      simp [isReserved, hk] at hres
  · rename_i hkw
    exact ⟨h, fun hk => hkw (by simpa using hk)⟩

/-- Every segment `packageSegment` makes of a non-empty text is a segment, and no keyword. -/
theorem packageSegment_valid {seg : String} (h : seg ≠ "") :
    isPackageSegment (packageSegment seg) = true ∧ packageSegment seg ∉ javaKeywords := by
  have hlow := lowerList_not_upper [] seg.toList
  have hne := lowerList_ne_nil [] (l := seg.toList) (by simpa using h)
  unfold packageSegment
  dsimp only
  rw [toLowerFull, String.toList_ofList]
  generalize hL : (lowerList [] seg.toList).map
    (fun c => if c.isAlphanum || c = '_' then c else '_') = L
  have hchars : ∀ d ∈ L, isSegmentChar d = true := by
    intro d hd
    rw [← hL] at hd
    obtain ⟨e, he, rfl⟩ := List.mem_map.1 hd
    exact isSegmentChar_of_lowered (hlow e he)
  cases L with
  | nil => exact absurd (List.map_eq_nil_iff.1 hL) hne
  | cons e rest =>
    -- a digit first gets an underscore in front; anything else first may start a segment
    obtain ⟨he, hrest⟩ := List.forall_mem_cons.1 hchars
    dsimp only
    split
    · exact renamed_valid (isPackageSegment_iff.2 ⟨'_', e :: rest, by simp, by decide, hchars⟩)
    · rename_i hd
      refine renamed_valid (isPackageSegment_iff.2 ⟨e, rest, by simp, ?_, hrest⟩)
      rw [isSegmentStart_iff_range]
      have := isSegmentChar_iff_range.1 he
      rw [Bool.not_eq_true, Bool.eq_false_iff, ne_eq, isDigit_iff_range] at hd
      omega

/-- A segment that is no keyword is its own suffix segment. -/
theorem packageSegment_of_valid {seg : String} (h : isPackageSegment seg = true)
    (hk : seg ∉ javaKeywords) : packageSegment seg = seg := by
  obtain ⟨c, rest, hs, hc, hrest⟩ := isPackageSegment_iff.1 h
  have hascii : ∀ d ∈ seg.toList, d.toNat < 0xC0 ∧ d.isUpper = false ∧ isSegmentChar d = true := by
    intro d hd
    have hseg : isSegmentChar d = true := by
      rw [hs] at hd
      rcases List.mem_cons.1 hd with rfl | hd
      · exact (isSegmentChar_iff_range.2 (by rw [isSegmentStart_iff_range] at hc; omega))
      · exact hrest d hd
    have hr := isSegmentChar_iff_range.1 hseg
    refine ⟨by omega, ?_, hseg⟩
    rw [Bool.eq_false_iff, ne_eq, isUpper_iff_range]
    omega
  have hlow : (toLowerFull seg).toList = seg.toList := by
    rw [toLowerFull, String.toList_ofList]
    exact lowerList_of_ascii [] _ fun d hd => ⟨(hascii d hd).1, (hascii d hd).2.1⟩
  have hmap : seg.toList.map (fun c => if c.isAlphanum || c = '_' then c else '_') = seg.toList := by
    refine (List.map_congr_left fun d hd => ?_).trans (List.map_id' _)
    have hr := isSegmentChar_iff_range.1 (hascii d hd).2.2
    rw [if_pos]
    simp only [Char.isAlphanum, Char.isAlpha, Bool.or_eq_true, isLower_iff_range,
      isDigit_iff_range, decide_eq_true_eq, ← Char.toNat_inj]
    show _ ∨ d.toNat = 95
    omega
  have hcd : c.isDigit = false := by
    rw [isSegmentStart_iff_range] at hc
    rw [Bool.eq_false_iff, ne_eq, isDigit_iff_range]
    omega
  unfold packageSegment
  dsimp only
  rw [hlow, hmap, hs]
  dsimp only
  simp only [hcd, Bool.false_eq_true, if_false]
  rw [← hs, String.ofList_toList, if_neg (by simpa using hk)]

end Segments

/-! ## Suffixes -/

theorem packageSuffix_eq (p : String) :
    packageSuffix p = ".".intercalate (((splitChar p '.').filter (· ≠ "")).map packageSegment) :=
  rfl

theorem packageSuffix_segments (p : String) :
    ∀ seg ∈ ((splitChar p '.').filter (· ≠ "")).map packageSegment,
      isPackageSegment seg = true ∧ seg ∉ javaKeywords := by
  intro seg hseg
  obtain ⟨raw, hraw, rfl⟩ := List.mem_map.1 hseg
  exact packageSegment_valid (by simpa using (List.mem_filter.1 hraw).2)

/-- A suffix is its own suffix. -/
theorem packageSuffix_idem (p : String) : packageSuffix (packageSuffix p) = packageSuffix p := by
  rw [packageSuffix_eq p]
  generalize hsegs : ((splitChar p '.').filter (· ≠ "")).map packageSegment = segs
  have hvalid := hsegs ▸ packageSuffix_segments p
  cases segs with
  | nil => rfl
  | cons seg rest =>
    rw [packageSuffix_eq, splitChar_intercalate (List.cons_ne_nil seg rest)
      fun s hs => dot_not_mem_of_isPackageSegment (hvalid s hs).1]
    have hfilter : (seg :: rest).filter (· ≠ "") = seg :: rest := by
      refine List.filter_eq_self.2 fun s hs => ?_
      obtain ⟨c, cs, hcs, -⟩ := isPackageSegment_iff.1 (hvalid s hs).1
      simp only [ne_eq, decide_eq_true_eq]
      rintro rfl
      simp at hcs
    rw [hfilter, List.map_congr_left fun s hs => packageSegment_of_valid (hvalid s hs).1
      (hvalid s hs).2, List.map_id']

/-! ## Value-class packages -/

theorem isJavaPackage_append_dot {a b : String} (ha : isJavaPackage a = true)
    (hb : isJavaPackage b = true) : isJavaPackage (a ++ "." ++ b) = true := by
  rw [isJavaPackage_iff, splitChar_append_dot] at *
  intro seg hseg
  rcases List.mem_append.1 hseg with h | h
  · exact ha seg h
  · exact hb seg h

theorem isJavaPackage_packageSuffix {p : String} (h : packageSuffix p ≠ "") :
    isJavaPackage (packageSuffix p) = true := by
  rw [packageSuffix_eq] at h ⊢
  generalize hsegs : ((splitChar p '.').filter (· ≠ "")).map packageSegment = segs at h
  have hvalid := hsegs ▸ packageSuffix_segments p
  cases segs with
  | nil => exact absurd rfl h
  | cons seg rest =>
    rw [isJavaPackage_iff, splitChar_intercalate (List.cons_ne_nil seg rest)
      fun s hs => dot_not_mem_of_isPackageSegment (hvalid s hs).1]
    exact fun s hs => (hvalid s hs).1

/-- The keyword segments of a package, collected. -/
def KeywordsWithin (q q' : String) : Prop :=
  ∀ seg ∈ splitChar q '.', seg ∈ javaKeywords → seg ∈ splitChar q' '.'

theorem keywordsWithin_refl (q : String) : KeywordsWithin q q := fun _ h _ => h

/-- A number appended to a Java package lengthens its last segment, and keeps it a package
without a new keyword. -/
theorem numbered_package {q : String} (hq : isJavaPackage q = true) (k : Nat) :
    isJavaPackage (q ++ toString k) = true ∧ KeywordsWithin (q ++ toString k) q := by
  have hdigits : '.' ∉ (toString k).toList := fun h => by
    have := toList_toString_isDigit k '.' h
    cases this
  obtain ⟨init, last, hq', hqk⟩ := splitChar_append_of_not_mem hdigits q
  rw [isJavaPackage_iff, hq'] at hq
  rw [isJavaPackage_iff, KeywordsWithin, hqk, hq']
  refine ⟨fun seg hseg => ?_, fun seg hseg hkw => ?_⟩
  · rcases List.mem_append.1 hseg with h | h
    · exact hq seg (List.mem_append_left _ h)
    · rw [List.mem_singleton.1 h]
      exact isPackageSegment_numbered (hq last (by simp)) k
  · rcases List.mem_append.1 hseg with h | h
    · exact List.mem_append_left _ h
    · rw [List.mem_singleton.1 h] at hkw
      exact absurd hkw (numbered_not_keyword last k)

/-- The package a file asks for is a Java package whose keyword segments are the configured
package's. -/
theorem voPackageBase_valid {cfg : Config} (hvo : isJavaPackage cfg.voPackage = true)
    (u : Schema.File) :
    isJavaPackage (voPackageBase cfg u) = true ∧ KeywordsWithin (voPackageBase cfg u) cfg.voPackage := by
  unfold voPackageBase
  generalize hp : (if u.package.isEmpty = true then u.baseName else u.package) = p
  dsimp only
  split
  · exact ⟨hvo, keywordsWithin_refl _⟩
  · rename_i hne
    have hsuffix := isJavaPackage_packageSuffix (by simpa using hne)
    refine ⟨isJavaPackage_append_dot hvo hsuffix, fun seg hseg hkw => ?_⟩
    rw [splitChar_append_dot] at hseg
    rcases List.mem_append.1 hseg with h | h
    · exact h
    · -- the suffix's segments are its parts, none a keyword
      rw [packageSuffix_eq] at h hne
      generalize hsegs : ((splitChar p '.').filter (· ≠ "")).map packageSegment = segs at h hne
      have hvalid := hsegs ▸ packageSuffix_segments p
      cases segs with
      | nil => simp at hne
      | cons s rest =>
        rw [splitChar_intercalate (List.cons_ne_nil s rest)
          fun s hs => dot_not_mem_of_isPackageSegment (hvalid s hs).1] at h
        exact absurd hkw (hvalid seg h).2

/-- What a registry hands out for a Java package is one, without a new keyword segment. -/
theorem fresh_package {q : String} (hq : isJavaPackage q = true) (r : Registry) :
    isJavaPackage (r.fresh q) = true ∧ KeywordsWithin (r.fresh q) q := by
  unfold Registry.fresh
  split
  · obtain ⟨k, hk⟩ := numberedFrom_numbered r q r.taken.length 1
    rw [hk]
    exact numbered_package hq k
  · exact ⟨hq, keywordsWithin_refl q⟩

/-- Package suffixes are dot-separated segments `[a-z_][a-z0-9_]*`, none of them a keyword,
and their own suffixes. Every value-class package a file is given under a parsed
configuration is a Java package, and its keyword segments are the configured package's. -/
theorem voPackage_java_segments :
    (∀ p : String, ∃ segs : List String, packageSuffix p = ".".intercalate segs ∧
      ∀ seg ∈ segs, isPackageSegment seg = true ∧ seg ∉ javaKeywords) ∧
    (∀ p : String, packageSuffix (packageSuffix p) = packageSuffix p) ∧
    ∀ (param : String) (cfg : Config), Config.parse param = .ok cfg →
      ∀ (u : Schema.File) (s : SharedNames),
        isJavaPackage ((planFile cfg u).run s).1.voPackage = true ∧
          ∀ seg ∈ splitChar ((planFile cfg u).run s).1.voPackage '.',
            seg ∈ javaKeywords → seg ∈ splitChar cfg.voPackage '.' := by
  refine ⟨fun p => ⟨_, packageSuffix_eq p, packageSuffix_segments p⟩, packageSuffix_idem,
    fun param cfg hcfg u s => ?_⟩
  have hvo := (Config.parse_packages hcfg).1
  obtain ⟨hbase, hbaseKw⟩ := voPackageBase_valid hvo u
  obtain ⟨hfresh, hfreshKw⟩ := fresh_package hbase s.packages
  rw [Plan.planFile_voPackage, Registry.claim_fst]
  exact ⟨hfresh, fun seg hseg hkw => hbaseKw seg (hfreshKw seg hseg hkw) hkw⟩

/-- The configuration `vopkg=Com.Acme` parses to. -/
def acmeConfig : Config :=
  { voPackage := "com.acme", converterPackage := "com.acme.converter", layout := .perType,
    annotateCode := false }

/-- A file of package `Foo.int`, whose last segment is a keyword once lowercased. -/
def intPackageFile : Schema.File :=
  { (default : Schema.File) with name := "x.proto", package := "Foo.int" }

/-- Under `vopkg=Com.Acme` a file of package `Foo.int` gets the package `com.acme.foo.int1`. -/
theorem acme_voPackage_java_segments :
    Config.parse "vopkg=Com.Acme" = .ok acmeConfig ∧
      ((planFile acmeConfig intPackageFile).run {}).1.voPackage = "com.acme.foo.int1" ∧
      isJavaPackage ((planFile acmeConfig intPackageFile).run {}).1.voPackage = true ∧
      ∀ seg ∈ splitChar ((planFile acmeConfig intPackageFile).run {}).1.voPackage '.',
        seg ∈ javaKeywords → seg ∈ splitChar acmeConfig.voPackage '.' :=
  have hparse : Config.parse "vopkg=Com.Acme" = .ok acmeConfig := by rfl
  ⟨hparse, by rfl, voPackage_java_segments.2.2 _ _ hparse intPackageFile {}⟩

end BeanCodegen.Naming
