import Mathlib
import BeanCodegen.Java.Check
import BeanCodegen.Naming.Case
/-! # Protobuf identifiers stay identifiers

A protobuf identifier is an ASCII letter or `_` followed by ASCII letters, digits and `_`. Each
is a Java identifier, and the spellings that generated names are built with keep it one:
`camelCase`, `lowerCamelCase` and `upperSnakeCase` change the case of letters and drop
underscores, but the first character stays a letter or `_`; a registry's numbered candidates
only append digits; and appending another identifier gives an identifier.
-/

namespace BeanCodegen.Naming

/-- Whether a character may start a protobuf identifier: an ASCII letter or `_`. -/
def isProtoStart (c : Char) : Bool := c.isAlpha || c = '_'

/-- Whether a character may continue a protobuf identifier: an ASCII letter, a digit or `_`. -/
def isProtoChar (c : Char) : Bool := c.isAlphanum || c = '_'

/-- Whether a character list spells a protobuf identifier. -/
def protoIdentChars : List Char → Bool
  | c :: rest => isProtoStart c && rest.all isProtoChar
  | [] => false

/-- Whether a text is a protobuf identifier, `[A-Za-z_][A-Za-z0-9_]*`. -/
def isProtoIdent (s : String) : Bool := protoIdentChars s.toList

/-! ## Characters -/

section Chars

variable {c : Char}

theorem isUpper_iff_range : c.isUpper = true ↔ 65 ≤ c.toNat ∧ c.toNat ≤ 90 := by
  simp only [Char.isUpper, ge_iff_le, decide_eq_true_eq, UInt32.le_iff_toNat_le, Char.toNat_val]
  rfl

theorem isLower_iff_range : c.isLower = true ↔ 97 ≤ c.toNat ∧ c.toNat ≤ 122 := by
  simp only [Char.isLower, ge_iff_le, Bool.and_eq_true, decide_eq_true_eq,
    UInt32.le_iff_toNat_le, Char.toNat_val]
  rfl

theorem isDigit_iff_range : c.isDigit = true ↔ 48 ≤ c.toNat ∧ c.toNat ≤ 57 :=
  Char.isDigit_iff_toNat

theorem isProtoStart_iff_range :
    isProtoStart c = true ↔ (65 ≤ c.toNat ∧ c.toNat ≤ 90) ∨ (97 ≤ c.toNat ∧ c.toNat ≤ 122) ∨
      c.toNat = 95 := by
  rw [isProtoStart, Bool.or_eq_true, Char.isAlpha, Bool.or_eq_true, isUpper_iff_range,
    isLower_iff_range, decide_eq_true_iff, ← Char.toNat_inj]
  exact or_assoc

theorem isProtoChar_iff_range :
    isProtoChar c = true ↔ (65 ≤ c.toNat ∧ c.toNat ≤ 90) ∨ (97 ≤ c.toNat ∧ c.toNat ≤ 122) ∨
      (48 ≤ c.toNat ∧ c.toNat ≤ 57) ∨ c.toNat = 95 := by
  rw [isProtoChar, Bool.or_eq_true, Char.isAlphanum, Bool.or_eq_true, Char.isAlpha,
    Bool.or_eq_true, isUpper_iff_range, isLower_iff_range, isDigit_iff_range,
    decide_eq_true_iff, ← Char.toNat_inj]
  tauto

theorem isProtoChar_of_isProtoStart (h : isProtoStart c = true) : isProtoChar c = true := by
  rw [isProtoStart_iff_range] at h
  rw [isProtoChar_iff_range]
  omega

theorem isProtoChar_of_isDigit (h : c.isDigit = true) : isProtoChar c = true := by
  rw [isDigit_iff_range] at h
  rw [isProtoChar_iff_range]
  exact Or.inr (Or.inr (Or.inl h))

theorem toUpper_eq_self (h : c.isLower = false) : c.toUpper = c := by
  unfold Char.toUpper
  rw [dif_neg]
  simpa [Char.isLower] using h

/-- Capitalising a small letter moves it 32 code points down, onto a capital. -/
theorem toNat_toUpper (h : c.isLower = true) : c.toUpper.toNat = c.toNat - 32 := by
  have hl := isLower_iff_range.1 h
  unfold Char.toUpper
  rw [dif_pos (by simpa [Char.isLower] using h)]
  show (c.val + ('A'.val - 'a'.val)).toNat = _
  have ha : 'a'.val.toNat = 97 := rfl
  have hA : 'A'.val.toNat = 65 := rfl
  rw [UInt32.toNat_add, UInt32.toNat_sub, ha, hA, Char.toNat_val]
  omega

theorem toLower_eq_self (h : c.isUpper = false) : c.toLower = c := by
  unfold Char.toLower
  rw [dif_neg]
  simpa [Char.isUpper] using h

/-- Making a capital small moves it 32 code points up, onto a small letter. -/
theorem toNat_toLower (h : c.isUpper = true) : c.toLower.toNat = c.toNat + 32 := by
  have hu := isUpper_iff_range.1 h
  unfold Char.toLower
  rw [dif_pos (by simpa [Char.isUpper] using h)]
  show (c.val + ('a'.val - 'A'.val)).toNat = _
  have ha : 'a'.val.toNat = 97 := rfl
  have hA : 'A'.val.toNat = 65 := rfl
  rw [UInt32.toNat_add, UInt32.toNat_sub, ha, hA, Char.toNat_val]
  omega

theorem isProtoStart_toUpper (h : isProtoStart c = true) : isProtoStart c.toUpper = true := by
  cases hl : c.isLower with
  | false => rwa [toUpper_eq_self hl]
  | true =>
    have hl' := isLower_iff_range.1 hl
    rw [isProtoStart_iff_range, toNat_toUpper hl]
    omega

theorem isProtoChar_toUpper (h : isProtoChar c = true) : isProtoChar c.toUpper = true := by
  cases hl : c.isLower with
  | false => rwa [toUpper_eq_self hl]
  | true =>
    have hl' := isLower_iff_range.1 hl
    rw [isProtoChar_iff_range, toNat_toUpper hl]
    omega

theorem isProtoStart_toLower (h : isProtoStart c = true) : isProtoStart c.toLower = true := by
  cases hu : c.isUpper with
  | false => rwa [toLower_eq_self hu]
  | true =>
    have hu' := isUpper_iff_range.1 hu
    rw [isProtoStart_iff_range, toNat_toLower hu]
    omega

end Chars

/-! ## Character lists -/

section Lists

variable {l l' : List Char}

theorem protoIdentChars_iff :
    protoIdentChars l = true ↔
      ∃ c rest, l = c :: rest ∧ isProtoStart c = true ∧ ∀ d ∈ rest, isProtoChar d = true := by
  cases l with
  | nil => simp [protoIdentChars]
  | cons c rest => simp [protoIdentChars]

theorem isProtoChar_of_protoIdentChars (h : protoIdentChars l = true) :
    ∀ d ∈ l, isProtoChar d = true := by
  obtain ⟨c, rest, rfl, hc, hrest⟩ := protoIdentChars_iff.1 h
  exact List.forall_mem_cons.2 ⟨isProtoChar_of_isProtoStart hc, hrest⟩

theorem protoIdentChars_append (h : protoIdentChars l = true) (h' : ∀ d ∈ l', isProtoChar d = true) :
    protoIdentChars (l ++ l') = true := by
  obtain ⟨c, rest, rfl, hc, hrest⟩ := protoIdentChars_iff.1 h
  refine protoIdentChars_iff.2 ⟨c, rest ++ l', rfl, hc, fun d hd => ?_⟩
  rcases List.mem_append.1 hd with hd | hd
  · exact hrest d hd
  · exact h' d hd

theorem camelScan_nil (inWord : Bool) : camelScan inWord [] = [] := rfl

theorem camelScan_cons (inWord : Bool) (c : Char) (rest : List Char) :
    camelScan inWord (c :: rest) =
      if inWord && c.isLower then c :: camelScan true rest
      else if c = '_' && startsLower rest then camelScan false rest
      else if c.isDigit then c :: camelScan false rest
      else c.toUpper :: camelScan true rest := rfl

/-- The camel-case scan keeps every character a protobuf identifier may hold. -/
theorem camelScan_protoChars (hl : ∀ d ∈ l, isProtoChar d = true) (inWord : Bool) :
    ∀ d ∈ camelScan inWord l, isProtoChar d = true := by
  induction l generalizing inWord with
  | nil => simp [camelScan_nil]
  | cons c rest ih =>
    obtain ⟨hc, hrest⟩ := List.forall_mem_cons.1 hl
    -- each branch writes `c`, its capital or nothing, and scans on
    rw [camelScan_cons]
    split_ifs
    · exact List.forall_mem_cons.2 ⟨hc, ih hrest true⟩
    · exact ih hrest false
    · exact List.forall_mem_cons.2 ⟨hc, ih hrest false⟩
    · exact List.forall_mem_cons.2 ⟨isProtoChar_toUpper hc, ih hrest true⟩

/-- A scan that starts on a letter writes that letter, capitalised unless it continues a word. -/
theorem camelScan_alpha {c : Char} (hc : c.isAlpha = true) (inWord : Bool) (rest : List Char) :
    ∃ d, camelScan inWord (c :: rest) = d :: camelScan true rest ∧ isProtoStart d = true := by
  have hstart : isProtoStart c = true := by simp [isProtoStart, hc]
  have hdigit : c.isDigit = false := by
    rw [Char.isAlpha, Bool.or_eq_true, isUpper_iff_range, isLower_iff_range] at hc
    rw [Bool.eq_false_iff, ne_eq, isDigit_iff_range]
    omega
  have hunder : c ≠ '_' := by
    rintro rfl
    simp at hc
  rw [camelScan_cons]
  by_cases hl : (inWord && c.isLower) = true
  · exact ⟨c, by rw [if_pos hl], hstart⟩
  · refine ⟨c.toUpper, ?_, isProtoStart_toUpper hstart⟩
    simp [hl, hunder, hdigit]

theorem protoIdentChars_camelChars (h : protoIdentChars l = true) :
    protoIdentChars (camelChars l) = true := by
  obtain ⟨c, rest, rfl, hc, hrest⟩ := protoIdentChars_iff.1 h
  by_cases hu : c = '_'
  · -- a leading underscore becomes `X`
    subst hu
    exact protoIdentChars_iff.2 ⟨'X', _, rfl, by decide, camelScan_protoChars hrest false⟩
  · have halpha : c.isAlpha = true := by simpa [isProtoStart, hu] using hc
    obtain ⟨d, hscan, hd⟩ := camelScan_alpha halpha false rest
    have hchars : camelChars (c :: rest) = camelScan false (c :: rest) := by
      simp [camelChars, hu]
    rw [hchars, hscan]
    exact protoIdentChars_iff.2 ⟨d, _, rfl, hd, camelScan_protoChars hrest true⟩

theorem protoIdentChars_decapitalize (h : protoIdentChars l = true) :
    protoIdentChars (decapitalize l) = true := by
  obtain ⟨c, rest, rfl, hc, hrest⟩ := protoIdentChars_iff.1 h
  refine protoIdentChars_iff.2 ⟨_, rest, rfl, ?_, hrest⟩
  split
  · exact isProtoStart_toLower hc
  · exact hc

/-- The constant scan writes capitals and underscores only. -/
theorem snakeScan_protoChars (hl : ∀ d ∈ l, isProtoChar d = true) (prev : Option Char) :
    ∀ d ∈ snakeScan prev l, isProtoChar d = true := by
  induction l generalizing prev with
  | nil => simp [snakeScan]
  | cons c rest ih =>
    obtain ⟨hc, hrest⟩ := List.forall_mem_cons.1 hl
    have hup := isProtoChar_toUpper hc
    unfold snakeScan
    refine List.forall_mem_append.2 ⟨?_, ih hrest (some c)⟩
    split
    · exact List.forall_mem_cons.2 ⟨by decide, List.forall_mem_singleton.2 hup⟩
    · exact List.forall_mem_singleton.2 hup

theorem protoIdentChars_snakeScan (h : protoIdentChars l = true) :
    protoIdentChars (snakeScan none l) = true := by
  obtain ⟨c, rest, rfl, hc, hrest⟩ := protoIdentChars_iff.1 h
  -- the first character has no predecessor, so no underscore goes before it
  have hfirst : snakeScan none (c :: rest) = c.toUpper :: snakeScan (some c) rest := by
    simp [snakeScan]
  rw [hfirst]
  exact protoIdentChars_iff.2 ⟨_, _, rfl, isProtoStart_toUpper hc,
    snakeScan_protoChars hrest (some c)⟩

end Lists

/-! ## Texts -/

section Texts

variable {s t : String}

theorem isProtoIdent_camelCase (h : isProtoIdent s = true) : isProtoIdent (camelCase s) = true := by
  rw [isProtoIdent, camelCase, String.toList_ofList]
  exact protoIdentChars_camelChars h

theorem isProtoIdent_lowerCamelCase (h : isProtoIdent s = true) :
    isProtoIdent (lowerCamelCase s) = true := by
  rw [isProtoIdent, lowerCamelCase, String.toList_ofList]
  exact protoIdentChars_decapitalize (protoIdentChars_camelChars h)

theorem isProtoIdent_upperSnakeCase (h : isProtoIdent s = true) :
    isProtoIdent (upperSnakeCase s) = true := by
  unfold upperSnakeCase
  split
  · rw [isProtoIdent, String.toList_ofList]
    exact protoIdentChars_snakeScan h
  · exact h

theorem isProtoIdent_append (h : isProtoIdent s = true) (h' : isProtoIdent t = true) :
    isProtoIdent (s ++ t) = true := by
  rw [isProtoIdent, String.toList_append]
  exact protoIdentChars_append h (isProtoChar_of_protoIdentChars h')

/-- Names joined one after another, the first a protobuf identifier, spell one. -/
theorem isProtoIdent_join {names : List String} (hne : names ≠ [])
    (h : ∀ n ∈ names, isProtoIdent n = true) : isProtoIdent (String.join names) = true := by
  obtain ⟨n, rest, rfl⟩ := List.exists_cons_of_ne_nil hne
  obtain ⟨hn, hrest⟩ := List.forall_mem_cons.1 h
  rw [isProtoIdent, String.toList_join, List.flatMap_cons]
  refine protoIdentChars_append hn fun d hd => ?_
  obtain ⟨m, hm, hdm⟩ := List.mem_flatMap.1 hd
  exact isProtoChar_of_protoIdentChars (hrest m hm) d hdm

/-- A numbered name appends the digits of its number. -/
theorem isProtoIdent_numbered (h : isProtoIdent s = true) (k : Nat) :
    isProtoIdent (s ++ toString k) = true := by
  rw [isProtoIdent, String.toList_append]
  refine protoIdentChars_append h fun d hd => isProtoChar_of_isDigit ?_
  exact Nat.isDigit_of_mem_toDigits (by decide) (by decide) (Nat.toList_repr ▸ hd)

theorem numberedFrom_numbered (r : Registry) (base : String) :
    ∀ fuel n, ∃ k : Nat, r.numberedFrom base fuel n = base ++ toString k
  | 0, n => ⟨n, rfl⟩
  | fuel + 1, n => by
    simp only [Registry.numberedFrom]
    split
    · exact numberedFrom_numbered r base fuel (n + 1)
    · exact ⟨n, rfl⟩

/-- A claim of a protobuf identifier gives one. -/
theorem isProtoIdent_fresh (r : Registry) (h : isProtoIdent s = true) :
    isProtoIdent (r.fresh s) = true := by
  unfold Registry.fresh
  split
  · obtain ⟨k, hk⟩ := numberedFrom_numbered r s r.taken.length 1
    rw [hk]
    exact isProtoIdent_numbered h k
  · exact h

/-- The characters a Java identifier may start with, by code point: ASCII letters, `_` and
`$`. -/
theorem javaStart_iff_range {d : Char} :
    (('A' ≤ d && d ≤ 'Z') || ('a' ≤ d && d ≤ 'z') || d = '_' || d = '$') = true ↔
      (65 ≤ d.toNat ∧ d.toNat ≤ 90) ∨ (97 ≤ d.toNat ∧ d.toNat ≤ 122) ∨ d.toNat = 95 ∨
        d.toNat = 36 := by
  simp only [Bool.or_eq_true, Bool.and_eq_true, decide_eq_true_eq, Char.le_def,
    UInt32.le_iff_toNat_le, Char.toNat_val, ← Char.toNat_inj]
  show ((65 ≤ d.toNat ∧ d.toNat ≤ 90 ∨ 97 ≤ d.toNat ∧ d.toNat ≤ 122) ∨ d.toNat = 95) ∨
    d.toNat = 36 ↔ _
  tauto

/-- Every protobuf identifier is a Java identifier. -/
theorem isIdentifier_of_isProtoIdent (h : isProtoIdent s = true) : Java.isIdentifier s = true := by
  obtain ⟨c, rest, hs, hc, hrest⟩ := protoIdentChars_iff.1 h
  unfold Java.isIdentifier
  rw [hs]
  simp only [Bool.and_eq_true, List.all_eq_true]
  refine ⟨javaStart_iff_range.2 ?_, fun d hd => ?_⟩
  · rw [isProtoStart_iff_range] at hc
    omega
  · have hd' := isProtoChar_iff_range.1 (hrest d hd)
    rw [Bool.or_eq_true]
    by_cases hdigit : 48 ≤ d.toNat ∧ d.toNat ≤ 57
    · exact Or.inr (isDigit_iff_range.2 hdigit)
    · exact Or.inl (javaStart_iff_range.2 (by omega))

end Texts

end BeanCodegen.Naming
