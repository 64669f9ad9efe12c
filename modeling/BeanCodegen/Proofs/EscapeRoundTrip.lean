import Mathlib
import BeanCodegen.Shape.Default
/-! # Reading back escaped bytes

protoc writes the default of a `bytes` field with protobuf's `CEscape`: the line feed, carriage
return, tab, double quote, quote and backslash get letter escapes, every other byte below the
space or from DEL up gets a three-digit octal escape, and the rest stand for themselves.

Reading the escapes back gives the bytes again (`unescapeBytes_cEscape`), for every byte string:
an octal escape is always written with three digits, so the reader, which takes at most three,
never runs into a digit that follows the escape. The Java array literal of such a default
therefore lists exactly the default's bytes (`bytesLiteral_cEscape`).
-/

namespace BeanCodegen.Text

/-- The character of an octal digit. -/
def octalDigit (d : Nat) : Char := Char.ofNat (0x30 + d)

/-- The text `CEscape` writes for one byte. -/
def cEscapeChars (b : UInt8) : List Char :=
  match b.toNat with
  | 0x0a => ['\\', 'n']
  | 0x0d => ['\\', 'r']
  | 0x09 => ['\\', 't']
  | 0x22 => ['\\', '"']
  | 0x27 => ['\\', Char.ofNat 0x27]
  | 0x5c => ['\\', '\\']
  | n =>
    if n < 0x20 ∨ 0x7f ≤ n then
      ['\\', octalDigit (n / 64), octalDigit (n / 8 % 8), octalDigit (n % 8)]
    else [Char.ofNat n]

/-- A byte string as `CEscape` writes it. -/
def cEscape (bs : List UInt8) : String := String.ofList (bs.flatMap cEscapeChars)

/-! ## The bytes of ASCII text -/

theorem toNat_ofNat_ascii {n : Nat} (h : n < 128) : (Char.ofNat n).toNat = n := by
  have hv : n.isValidChar := Or.inl (by omega)
  simp [Char.ofNat, hv, Char.ofNatAux, Char.toNat]

theorem toNat_toUInt8_ofNat {n : Nat} (h : n < 128) : (Char.ofNat n).toUInt8.toNat = n := by
  have hv : n.isValidChar := Or.inl (by omega)
  simp [Char.ofNat, hv, Char.ofNatAux, Char.toUInt8]
  omega

theorem utf8EncodeChar_ascii {c : Char} (h : c.toNat < 128) :
    String.utf8EncodeChar c = [c.toUInt8] := by
  have hc : c.utf8Size = 1 := by
    rw [Char.utf8Size_eq_one_iff, UInt32.le_iff_toNat_le]
    exact Nat.le_of_lt_succ h
  rw [String.utf8EncodeChar_eq_singleton hc, Char.toUInt8_val]

theorem toList_loop_eq (bs : ByteArray) (i : Nat) (r : List UInt8) :
    ByteArray.toList.loop bs i r = r.reverse ++ bs.data.toList.drop i := by
  fun_induction ByteArray.toList.loop bs i r with
  | case1 i r h ih =>
    have hi : i < bs.data.toList.length := by simpa using h
    rw [ih, List.drop_eq_getElem_cons hi]
    simp [ByteArray.get!, h]
  | case2 i r h =>
    rw [List.drop_eq_nil_of_le (by simpa using Nat.le_of_not_lt h)]
    simp

theorem toList_eq_data_toList (bs : ByteArray) : bs.toList = bs.data.toList := by
  simp [ByteArray.toList, toList_loop_eq]

theorem toList_toUTF8_ofList (l : List Char) :
    (String.ofList l).toUTF8.toList = l.flatMap String.utf8EncodeChar := by
  rw [String.toUTF8_eq_toByteArray, String.toByteArray_ofList, toList_eq_data_toList,
    List.utf8Encode, List.toList_data_toByteArray]

theorem flatMap_utf8EncodeChar_ascii {l : List Char} (h : ∀ c ∈ l, c.toNat < 128) :
    l.flatMap String.utf8EncodeChar = l.map Char.toUInt8 := by
  induction l with
  | nil => rfl
  | cons c l ih =>
    rw [List.flatMap_cons, utf8EncodeChar_ascii (h c List.mem_cons_self), List.map_cons,
      ih fun d hd => h d (List.mem_cons_of_mem c hd)]
    rfl

/-! ## The escapes of one byte -/

theorem toNat_octalDigit {k : Nat} (hk : k < 8) : (octalDigit k).toNat = 0x30 + k :=
  toNat_ofNat_ascii (by omega)

theorem toNat_toUInt8_octalDigit {k : Nat} (hk : k < 8) :
    (octalDigit k).toUInt8.toNat = 0x30 + k :=
  toNat_toUInt8_ofNat (by omega)

/-- `CEscape` writes ASCII only. -/
theorem cEscapeChars_ascii (b : UInt8) : ∀ c ∈ cEscapeChars b, c.toNat < 128 := by
  have hb := b.toNat_lt
  unfold cEscapeChars
  split
  case h_7 n h1 h2 h3 h4 h5 h6 =>
    split
    · simp only [List.mem_cons, List.not_mem_nil, or_false]
      rintro c (rfl | rfl | rfl | rfl)
      · decide
      all_goals rw [toNat_octalDigit (by omega)]; omega
    · simp only [List.mem_singleton]
      rintro c rfl
      rw [toNat_ofNat_ascii (by omega)]
      omega
  all_goals simp

theorem isOctalByte_octalDigit {k : Nat} (hk : k < 8) : isOctalByte (octalDigit k).toUInt8 := by
  have h := toNat_toUInt8_octalDigit hk
  simp only [isOctalByte, Bool.and_eq_true, decide_eq_true_eq, UInt8.le_iff_toNat_le, h,
    UInt8.reduceToNat]
  omega

/-! ## Reading escapes

One lemma per branch of the reader that `CEscape`'s output reaches: a byte that is no
backslash, a letter escape, and an octal escape of three digits. -/

theorem toNat_of_isOctalByte {d : UInt8} (h : isOctalByte d) :
    0x30 ≤ d.toNat ∧ d.toNat ≤ 0x37 := by
  simp only [isOctalByte, Bool.and_eq_true, decide_eq_true_eq] at h
  exact ⟨UInt8.le_iff_toNat_le.1 h.1, UInt8.le_iff_toNat_le.1 h.2⟩

theorem unescapeBytes_cons_of_ne {b : UInt8} (h : b ≠ 0x5c) (rest : List UInt8) :
    unescapeBytes (b :: rest) = b :: unescapeBytes rest := by
  rw [unescapeBytes.eq_def]
  dsimp only
  rw [if_neg h]

theorem unescapeBytes_letter {e v : UInt8} (h : letterEscape e = some v) (rest : List UInt8) :
    unescapeBytes (0x5c :: e :: rest) = v :: unescapeBytes rest := by
  rw [unescapeBytes.eq_def]
  dsimp only
  rw [if_pos rfl]
  simp only [h]

theorem unescapeBytes_octal {d₁ d₂ d₃ : UInt8} (h₁ : isOctalByte d₁) (h₂ : isOctalByte d₂)
    (h₃ : isOctalByte d₃) (hv : digitsValue 8 (fun d => d.toNat - 0x30) [d₁, d₂, d₃] ≤ 255)
    (rest : List UInt8) :
    unescapeBytes (0x5c :: d₁ :: d₂ :: d₃ :: rest) =
      (digitsValue 8 (fun d => d.toNat - 0x30) [d₁, d₂, d₃]).toUInt8 :: unescapeBytes rest := by
  have hd := toNat_of_isOctalByte h₁
  -- an octal digit is neither a letter escape nor the `x` of a hexadecimal one
  have hl : letterEscape d₁ = none := by
    unfold letterEscape
    split <;> simp_all
  have hx : (d₁ = 0x78 || d₁ = 0x58) = false := by
    simp only [Bool.or_eq_false_iff, decide_eq_false_iff_not]
    constructor <;> rintro rfl <;> simp at hd
  rw [unescapeBytes.eq_def]
  dsimp only
  rw [if_pos rfl]
  simp only [hl, hx, Bool.false_eq_true, if_false, h₁, if_true]
  -- the reader takes the three digits and stops, whatever follows them
  simp [List.takeWhile, h₁, h₂, h₃, hv]

/-- The escape of a byte reads back as that byte, whatever text follows it. -/
theorem unescapeBytes_cEscapeChars (b : UInt8) (rest : List UInt8) :
    unescapeBytes ((cEscapeChars b).map Char.toUInt8 ++ rest) = b :: unescapeBytes rest := by
  have hb := b.toNat_lt
  unfold cEscapeChars
  split
  case h_1 h => rw [show b = 0x0a from UInt8.toNat_inj.1 h]; exact unescapeBytes_letter rfl rest
  case h_2 h => rw [show b = 0x0d from UInt8.toNat_inj.1 h]; exact unescapeBytes_letter rfl rest
  case h_3 h => rw [show b = 0x09 from UInt8.toNat_inj.1 h]; exact unescapeBytes_letter rfl rest
  case h_4 h => rw [show b = 0x22 from UInt8.toNat_inj.1 h]; exact unescapeBytes_letter rfl rest
  case h_5 h => rw [show b = 0x27 from UInt8.toNat_inj.1 h]; exact unescapeBytes_letter rfl rest
  case h_6 h => rw [show b = 0x5c from UInt8.toNat_inj.1 h]; exact unescapeBytes_letter rfl rest
  case h_7 n h1 h2 h3 h4 h5 h6 =>
    split
    · -- three octal digits spell the byte
      have hdigits : digitsValue 8 (fun d => d.toNat - 0x30)
          [(octalDigit (b.toNat / 64)).toUInt8, (octalDigit (b.toNat / 8 % 8)).toUInt8,
            (octalDigit (b.toNat % 8)).toUInt8] = b.toNat := by
        simp only [digitsValue, List.foldl_cons, List.foldl_nil,
          toNat_toUInt8_octalDigit (show b.toNat / 64 < 8 by omega),
          toNat_toUInt8_octalDigit (show b.toNat / 8 % 8 < 8 by omega),
          toNat_toUInt8_octalDigit (show b.toNat % 8 < 8 by omega)]
        omega
      have h := unescapeBytes_octal (isOctalByte_octalDigit (show b.toNat / 64 < 8 by omega))
        (isOctalByte_octalDigit (show b.toNat / 8 % 8 < 8 by omega))
        (isOctalByte_octalDigit (show b.toNat % 8 < 8 by omega)) (by omega) rest
      rw [hdigits, show b.toNat.toUInt8 = b from UInt8.ofNat_toNat] at h
      exact h
    · -- a printable byte other than the backslash stands for itself
      have hc : (Char.ofNat b.toNat).toUInt8 = b :=
        UInt8.toNat_inj.1 (toNat_toUInt8_ofNat (by omega))
      have hne : b ≠ 0x5c := fun h => h6 (by rw [h]; rfl)
      rw [List.map_singleton, hc]
      exact unescapeBytes_cons_of_ne hne rest

/-! ## Round trip -/

theorem unescapeBytes_flatMap_cEscapeChars (bs rest : List UInt8) :
    unescapeBytes ((bs.flatMap cEscapeChars).map Char.toUInt8 ++ rest) =
      bs ++ unescapeBytes rest := by
  induction bs with
  | nil => rfl
  | cons b bs ih =>
    rw [List.flatMap_cons, List.map_append, List.append_assoc, unescapeBytes_cEscapeChars, ih,
      List.cons_append]

/-- The UTF-8 bytes of an escaped byte string are its characters. -/
theorem toList_toUTF8_cEscape (bs : List UInt8) :
    (cEscape bs).toUTF8.toList = (bs.flatMap cEscapeChars).map Char.toUInt8 := by
  rw [cEscape, toList_toUTF8_ofList, flatMap_utf8EncodeChar_ascii]
  intro c hc
  obtain ⟨b, -, hb⟩ := List.mem_flatMap.1 hc
  exact cEscapeChars_ascii b c hb

/-- Reading back what `CEscape` writes gives every byte string again. -/
theorem unescapeBytes_cEscape (bs : List UInt8) :
    unescapeBytes (cEscape bs).toUTF8.toList = bs := by
  have h := unescapeBytes_flatMap_cEscapeChars bs []
  rw [List.append_nil] at h
  rw [toList_toUTF8_cEscape, h, unescapeBytes.eq_def, List.append_nil]

/-- The Java literal of an escaped `bytes` default lists the default's bytes as signed bytes. -/
theorem bytesLiteral_cEscape (bs : List UInt8) :
    Shape.bytesLiteral (cEscape bs) =
      "new byte[] \x7b" ++ ", ".intercalate (bs.map fun b => toString (Shape.signedByte b)) ++
        "\x7d" := by
  have h := unescapeBytes_flatMap_cEscapeChars bs []
  rw [List.append_nil] at h
  rw [Shape.bytesLiteral, toList_toUTF8_cEscape, h, unescapeBytes.eq_def, List.append_nil]

end BeanCodegen.Text
