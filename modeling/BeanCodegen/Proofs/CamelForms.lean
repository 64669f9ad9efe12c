import Mathlib
import BeanCodegen.Proofs.Identifiers
/-! # Camel case is a normal form

`camelCase` writes text of one shape (`CamelShaped`): it does not start with an underscore, and
an ASCII small letter stands only right after a character that is neither a digit nor an
underscore, so never first. The scan leaves text of that shape as it is, and text of any other
shape it changes, so the shape is exactly the set of fixed points and camel-casing twice
changes nothing. `lowerCamelCase` only makes a first capital small, which the scan capitalises
back, so it is idempotent too.

This holds for every text, whatever characters it holds: only ASCII letters change case, and
every other character is either kept or, for an underscore before a small letter, dropped.
-/

namespace BeanCodegen.Naming

/-! ## Characters -/

section Chars

variable {c : Char}

@[simp] theorem isLower_toUpper (c : Char) : c.toUpper.isLower = false := by
  cases hl : c.isLower with
  | false => rw [toUpper_eq_self hl, hl]
  | true =>
    have hr := isLower_iff_range.1 hl
    rw [Bool.eq_false_iff, ne_eq, isLower_iff_range, toNat_toUpper hl]
    omega

theorem isDigit_toUpper (c : Char) : c.toUpper.isDigit = c.isDigit := by
  cases hl : c.isLower with
  | false => rw [toUpper_eq_self hl]
  | true =>
    have hr := isLower_iff_range.1 hl
    have hd : c.isDigit = false := by
      rw [Bool.eq_false_iff, ne_eq, isDigit_iff_range]
      omega
    rw [hd, Bool.eq_false_iff, ne_eq, isDigit_iff_range, toNat_toUpper hl]
    omega

theorem toUpper_eq_underscore_iff : c.toUpper = '_' ↔ c = '_' := by
  cases hl : c.isLower with
  | false => rw [toUpper_eq_self hl]
  | true =>
    have hr := isLower_iff_range.1 hl
    rw [← Char.toNat_inj, ← Char.toNat_inj, toNat_toUpper hl]
    show c.toNat - 32 = 95 ↔ c.toNat = 95
    omega

theorem isLower_toLower (h : c.isUpper = true) : c.toLower.isLower = true := by
  have hr := isUpper_iff_range.1 h
  rw [isLower_iff_range, toNat_toLower h]
  omega

/-- Making a capital small and capitalising it again gives the capital back. -/
theorem toUpper_toLower (h : c.isUpper = true) : c.toLower.toUpper = c := by
  have hr := isUpper_iff_range.1 h
  rw [← Char.toNat_inj, toNat_toUpper (isLower_toLower h), toNat_toLower h]
  omega

end Chars

/-! ## The shape of camel-case text -/

/-- A small letter may follow `a` only when `a` is neither a digit nor an underscore. -/
def SmallAfter (a b : Char) : Prop := b.isLower = true → a.isDigit = false ∧ a ≠ '_'

/-- The shape of camel-case text: no underscore and no small letter first, and no small letter
right after a digit or an underscore. -/
structure CamelShaped (l : List Char) : Prop where
  head : ∀ c ∈ l.head?, c ≠ '_' ∧ c.isLower = false
  chain : l.IsChain SmallAfter

theorem smallAfter_of_isLower {a b : Char} (hb : b.isLower = false) : SmallAfter a b :=
  fun h => absurd h (by simp [hb])

theorem startsLower_cons (c : Char) (rest : List Char) : startsLower (c :: rest) = c.isLower :=
  rfl

/-- Text of the shape, read from a digit or an underscore, does not go on with a small letter. -/
theorem startsLower_eq_false_of_chain {c : Char} {rest : List Char}
    (h : (c :: rest).IsChain SmallAfter) (hc : c.isDigit = true ∨ c = '_') :
    startsLower rest = false := by
  cases rest with
  | nil => rfl
  | cons d more =>
    rw [startsLower_cons, Bool.eq_false_iff]
    intro hd
    have hcd := (List.isChain_cons_cons.1 h).1 hd
    rcases hc with hc | hc
    · rw [hcd.1] at hc
      cases hc
    · exact hcd.2 hc

/-! ## The scan on shaped text -/

/-- The scan keeps shaped text, provided it does not start on a small letter outside a word. -/
theorem camelScan_eq_self : ∀ (inWord : Bool) {l : List Char}, l.IsChain SmallAfter →
    (inWord = false → startsLower l = false) → camelScan inWord l = l
  | _, [], _, _ => rfl
  | inWord, c :: rest, hchain, hstart => by
    have hrest : rest.IsChain SmallAfter := hchain.tail
    rw [camelScan_cons]
    by_cases hword : (inWord && c.isLower) = true
    · rw [if_pos hword, camelScan_eq_self true hrest (by simp)]
    · -- outside a word `c` is not small, and inside one it is not small either
      have hc : c.isLower = false := by
        cases inWord with
        | false => exact hstart rfl
        | true => simpa using hword
      have hskip : (c = '_' && startsLower rest) = false := by
        by_cases hu : c = '_'
        · simp [startsLower_eq_false_of_chain hchain (Or.inr hu)]
        · simp [hu]
      rw [if_neg hword, hskip, if_neg Bool.false_ne_true]
      split
      · rename_i hd
        rw [camelScan_eq_self false hrest fun _ => startsLower_eq_false_of_chain hchain (Or.inl hd)]
      · rw [toUpper_eq_self hc, camelScan_eq_self true hrest (by simp)]

/-- What the scan writes after `prev` keeps the shape, provided a word goes on only after a
character that a small letter may follow, or does not go on at all. -/
theorem camelScan_isChain : ∀ (inWord : Bool) (prev : Char) (l : List Char),
    (inWord = true → (prev.isDigit = false ∧ prev ≠ '_') ∨ startsLower l = false) →
    (prev :: camelScan inWord l).IsChain SmallAfter
  | _, prev, [], _ => List.IsChain.singleton prev
  | inWord, prev, c :: rest, h => by
    rw [camelScan_cons]
    split_ifs with hword hskip hdigit
    · -- `c` continues the word: it is small, so it may follow `prev` and be followed
      obtain ⟨hin, hc⟩ := Bool.and_eq_true_iff.1 hword
      have hprev : prev.isDigit = false ∧ prev ≠ '_' := by
        rcases h hin with hp | hs
        · exact hp
        · rw [startsLower_cons, hc] at hs
          cases hs
      have hcd : c.isDigit = false := by
        have := isLower_iff_range.1 hc
        rw [Bool.eq_false_iff, ne_eq, isDigit_iff_range]
        omega
      have hcu : c ≠ '_' := by
        rintro rfl
        cases hc
      exact List.isChain_cons_cons.2 ⟨fun _ => hprev,
        camelScan_isChain true c rest fun _ => Or.inl ⟨hcd, hcu⟩⟩
    · exact camelScan_isChain false prev rest (by simp)
    · have hc : c.isLower = false := by
        have := isDigit_iff_range.1 hdigit
        rw [Bool.eq_false_iff, ne_eq, isLower_iff_range]
        omega
      exact List.isChain_cons_cons.2 ⟨smallAfter_of_isLower hc,
        camelScan_isChain false c rest (by simp)⟩
    · -- a capital starts a word; after an underscore no small letter comes
      refine List.isChain_cons_cons.2 ⟨smallAfter_of_isLower (isLower_toUpper c),
        camelScan_isChain true c.toUpper rest fun _ => ?_⟩
      by_cases hu : c = '_'
      · subst hu
        exact Or.inr (by simpa using hskip)
      · exact Or.inl ⟨by simpa [isDigit_toUpper] using hdigit,
          fun h => hu (toUpper_eq_underscore_iff.1 h)⟩

theorem decapitalize_nil : decapitalize [] = [] := rfl

theorem decapitalize_cons (c : Char) (rest : List Char) :
    decapitalize (c :: rest) = (if c.isUpper then c.toLower else c) :: rest := rfl

theorem camelChars_nil : camelChars [] = [] := rfl

theorem camelChars_underscore (rest : List Char) :
    camelChars ('_' :: rest) = 'X' :: camelScan false rest := rfl

theorem camelChars_of_ne {c : Char} (hc : c ≠ '_') (rest : List Char) :
    camelChars (c :: rest) = camelScan false (c :: rest) := by
  rw [camelChars.eq_2]
  intro r h
  exact hc (List.cons.inj h).1

/-- Camel case has the shape. -/
theorem camelChars_shaped : ∀ l : List Char, CamelShaped (camelChars l)
  | [] => ⟨by simp [camelChars_nil], List.IsChain.nil⟩
  | c :: rest => by
    by_cases hu : c = '_'
    · subst hu
      rw [camelChars_underscore]
      exact ⟨by simp, camelScan_isChain false 'X' rest (by simp)⟩
    · -- outside a word the first character is kept or capitalised, never dropped
      rw [camelChars_of_ne hu, camelScan_cons]
      have hskip : ¬(c = '_' && startsLower rest) = true := by simp [hu]
      rw [if_neg (by simp), if_neg hskip]
      split
      · rename_i hd
        have hc : c.isLower = false := by
          have := isDigit_iff_range.1 hd
          rw [Bool.eq_false_iff, ne_eq, isLower_iff_range]
          omega
        exact ⟨by simp [hu, hc], camelScan_isChain false c rest (by simp)⟩
      · rename_i hd
        have hup : c.toUpper ≠ '_' := fun h => hu (toUpper_eq_underscore_iff.1 h)
        exact ⟨by simp [hup], camelScan_isChain true c.toUpper rest fun _ =>
          Or.inl ⟨by simpa [isDigit_toUpper] using hd, hup⟩⟩

/-- Camel case leaves shaped text as it is. -/
theorem camelChars_eq_self {l : List Char} (h : CamelShaped l) : camelChars l = l := by
  cases l with
  | nil => rfl
  | cons c rest =>
    obtain ⟨hu, hc⟩ := h.head c rfl
    rw [camelChars_of_ne hu]
    exact camelScan_eq_self false h.chain fun _ => hc

/-- The texts camel case leaves alone are exactly the shaped ones. -/
theorem camelChars_eq_self_iff {l : List Char} : camelChars l = l ↔ CamelShaped l :=
  ⟨fun h => h ▸ camelChars_shaped l, camelChars_eq_self⟩

/-- A first capital made small is capitalised back. -/
theorem camelChars_decapitalize {l : List Char} (h : CamelShaped l) :
    camelChars (decapitalize l) = l := by
  cases l with
  | nil => rfl
  | cons c rest =>
    by_cases hup : c.isUpper = true
    · have hl := isLower_toLower hup
      have hu : c.toLower ≠ '_' := by
        rintro h
        rw [h] at hl
        cases hl
      have hd : c.toLower.isDigit = false := by
        have := isLower_iff_range.1 hl
        rw [Bool.eq_false_iff, ne_eq, isDigit_iff_range]
        omega
      simp only [decapitalize_cons, if_pos hup]
      rw [camelChars_of_ne hu, camelScan_cons, if_neg (by simp), if_neg (by simp [hu]),
        if_neg (by simp [hd]), toUpper_toLower hup,
        camelScan_eq_self true (List.isChain_cons.1 h.chain).2 (by simp)]
    · simp only [decapitalize_cons, if_neg hup]
      exact camelChars_eq_self h

theorem decapitalize_head (l : List Char) : ∀ c ∈ (decapitalize l).head?, c.isUpper = false := by
  cases l with
  | nil => simp [decapitalize_nil]
  | cons c rest =>
    intro d hd
    simp only [decapitalize_cons, List.head?_cons, Option.mem_def, Option.some.injEq] at hd
    subst hd
    split
    · rename_i hup
      have := isLower_iff_range.1 (isLower_toLower hup)
      rw [Bool.eq_false_iff, ne_eq, isUpper_iff_range]
      omega
    · rename_i hup
      simpa using hup

/-- Camel case and lower camel case are idempotent on every text. Camel case never starts with
an underscore and never writes an underscore right before a small letter; lower camel case
never starts with a capital. -/
theorem camelCase_normal_form (s : String) :
    camelCase (camelCase s) = camelCase s ∧ (camelCase s).toList.head? ≠ some '_' ∧
      (∀ c, c.isLower = true → ¬['_', c] <:+: (camelCase s).toList) ∧
      lowerCamelCase (lowerCamelCase s) = lowerCamelCase s ∧
      ∀ c ∈ (lowerCamelCase s).toList.head?, c.isUpper = false := by
  have hshape := camelChars_shaped s.toList
  simp only [camelCase, lowerCamelCase, String.toList_ofList]
  refine ⟨by rw [camelChars_eq_self hshape], fun h => (hshape.head '_' h).1 rfl,
    fun c hc hinf => ?_, by rw [camelChars_decapitalize hshape], decapitalize_head _⟩
  have hpair := List.IsChain.infix hshape.chain hinf
  exact (List.isChain_pair.1 hpair hc).2 rfl

end BeanCodegen.Naming
