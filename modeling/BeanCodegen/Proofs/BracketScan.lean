import Mathlib
import BeanCodegen.Java.Check
/-! # What the bracket scan reads

The bracket check reads a text as whole pieces: code characters, `//` comments up to their line
feed, `/* */` comments up to the first `*/`, and string and character literals, in which a
backslash escapes the character after it. `Reads` gives the pieces of a text and the brackets of
its code, each with its line; `Nest` matches the brackets, each closing bracket against the
innermost open one.

The scan accepts a text exactly when it is whole pieces followed by an open ending (nothing, a
line comment, or a literal never closed) and its brackets nest (`scanBrackets_eq_none_iff`).
Otherwise it reports the first fault, on `1` plus the line feeds before the character at fault,
on the line of the innermost open bracket when one is never closed, and on the last line when a
block comment is never closed (`scanBrackets_eq_some_iff`).
-/

namespace BeanCodegen.Java

/-- Whether a character opens a bracket pair. -/
def isOpener (c : Char) : Bool := c = '(' || c = '[' || c = '{'

/-- Whether a character is a bracket the scan matches. -/
def isBracket (c : Char) : Bool := isOpener c || (openerOf c).isSome

/-- Whether a character starts a literal. -/
def isQuote (c : Char) : Bool := c = '"' || c = '\''

/-- The text of a literal between its quotes `q`: characters other than `q`, a backslash or a
line feed, and backslashes each with the character they escape. -/
inductive LiteralText (q : Char) : List Char → Prop
  | nil : LiteralText q []
  | plain {c : Char} {t : List Char} :
      c ≠ q → c ≠ '\\' → c ≠ '\n' → LiteralText q t → LiteralText q (c :: t)
  | escape {d : Char} {t : List Char} : LiteralText q t → LiteralText q ('\\' :: d :: t)

/-- `Reads n cs rest bs`: the text `cs`, read from line `n` and followed by `rest`, is a run of
whole pieces, and `bs` are the brackets of its code, each with its line. A `/` is code only when
the text after it starts with neither `/` nor `*`; each piece moves the line on by its line
feeds. -/
inductive Reads : Nat → List Char → List Char → List (Char × Nat) → Prop
  | nil {n : Nat} {rest : List Char} : Reads n [] rest []
  | plain {n : Nat} {c : Char} {cs rest : List Char} {bs : List (Char × Nat)} :
      isQuote c = false → isBracket c = false →
      (c = '/' → (cs ++ rest).head? ≠ some '/' ∧ (cs ++ rest).head? ≠ some '*') →
      Reads (if c = '\n' then n + 1 else n) cs rest bs → Reads n (c :: cs) rest bs
  | bracket {n : Nat} {c : Char} {cs rest : List Char} {bs : List (Char × Nat)} :
      isBracket c = true → Reads n cs rest bs → Reads n (c :: cs) rest ((c, n) :: bs)
  | lineComment {n : Nat} {body cs rest : List Char} {bs : List (Char × Nat)} :
      '\n' ∉ body → Reads (n + 1) cs rest bs →
      Reads n ('/' :: '/' :: (body ++ '\n' :: cs)) rest bs
  | blockComment {n : Nat} {body cs rest : List Char} {bs : List (Char × Nat)} :
      ¬ ['*', '/'] <:+: body → Reads (n + body.count '\n') cs rest bs →
      Reads n ('/' :: '*' :: (body ++ '*' :: '/' :: cs)) rest bs
  | literal {n : Nat} {q : Char} {body cs rest : List Char} {bs : List (Char × Nat)} :
      isQuote q = true → LiteralText q body → Reads (n + body.count '\n') cs rest bs →
      Reads n (q :: (body ++ q :: cs)) rest bs

/-- `Nest s bs s'`: with the brackets `s` open (innermost first, each with its line), the
brackets `bs` leave `s'` open; each closing bracket closes the innermost open one, which must be
of its kind. -/
inductive Nest : List (Char × Nat) → List (Char × Nat) → List (Char × Nat) → Prop
  | nil {s : List (Char × Nat)} : Nest s [] s
  | push {s bs s' : List (Char × Nat)} {o : Char} {l : Nat} :
      isOpener o = true → Nest ((o, l) :: s) bs s' → Nest s ((o, l) :: bs) s'
  | pop {s bs s' : List (Char × Nat)} {o c : Char} {l l' : Nat} :
      openerOf c = some o → Nest s bs s' → Nest ((o, l) :: s) ((c, l') :: bs) s'

/-- How a text may end after its whole pieces with no fault: at once, inside a line comment, or
inside a literal, possibly right after a backslash. -/
def OpenEnding (e : List Char) : Prop :=
  e = [] ∨ (∃ body, e = '/' :: '/' :: body ∧ '\n' ∉ body) ∨
    ∃ q body, isQuote q = true ∧ (e = q :: body ∨ e = q :: (body ++ ['\\'])) ∧ LiteralText q body

/-- A block comment that the text ends in. -/
def OpenComment (e : List Char) : Prop :=
  ∃ body, e = '/' :: '*' :: body ∧ ¬ ['*', '/'] <:+: body

/-- A text the bracket check accepts: whole pieces with nested brackets, then an open ending. -/
def Accepted (cs : List Char) : Prop :=
  ∃ pre e bs, cs = pre ++ e ∧ Reads 1 pre e bs ∧ OpenEnding e ∧ Nest [] bs []

/-- The first fault of a text, on the line the check reports: `1` plus the line feeds before the
character at fault; for a bracket never closed, the line of the innermost one; for a block
comment never closed, the last line. -/
inductive FirstFault (cs : List Char) : Defect → Prop
  | mismatched {pre rest : List Char} {bs s : List (Char × Nat)} {c w o : Char} {l : Nat} :
      cs = pre ++ c :: rest → Reads 1 pre (c :: rest) bs → Nest [] bs ((o, l) :: s) →
      openerOf c = some w → w ≠ o → FirstFault cs ⟨1 + pre.count '\n', .mismatched c o l⟩
  | unexpected {pre rest : List Char} {bs : List (Char × Nat)} {c w : Char} :
      cs = pre ++ c :: rest → Reads 1 pre (c :: rest) bs → Nest [] bs [] →
      openerOf c = some w → FirstFault cs ⟨1 + pre.count '\n', .unexpected c⟩
  | brokenLiteral {pre body rest : List Char} {bs s : List (Char × Nat)} {q : Char} :
      cs = pre ++ q :: (body ++ '\n' :: rest) → Reads 1 pre (q :: (body ++ '\n' :: rest)) bs →
      Nest [] bs s → isQuote q = true → LiteralText q body →
      FirstFault cs ⟨1 + (pre ++ q :: body).count '\n', .unterminatedLiteral⟩
  | unclosed {pre e : List Char} {bs s : List (Char × Nat)} {o : Char} {l : Nat} :
      cs = pre ++ e → Reads 1 pre e bs → OpenEnding e ∨ OpenComment e →
      Nest [] bs ((o, l) :: s) → FirstFault cs ⟨l, .unclosed o⟩
  | openComment {pre e : List Char} {bs : List (Char × Nat)} :
      cs = pre ++ e → Reads 1 pre e bs → OpenComment e → Nest [] bs [] →
      FirstFault cs ⟨1 + cs.count '\n', .unterminatedBlockComment⟩

/-! ## One step of the scan -/

/-- The scan state inside a literal that the quote `q` opened. -/
def literalState (q : Char) : ScanState := if q = '"' then .text else .character

/-- What the scan reports at the end of the text outside a block comment. -/
def unclosedDefect (s : List (Char × Nat)) : Option Defect :=
  s.head?.map fun p => ⟨p.2, .unclosed p.1⟩

-- The step lemmas below each rewrite with the equations of `scanBrackets`: generate them once,
-- here, rather than in each of those proofs.
section
attribute [local simp] scanBrackets
end

section Steps

variable {s : List (Char × Nat)} {n : Nat} {c : Char} {rest : List Char}

theorem scan_nil {st : ScanState} (h : st ≠ .blockComment) :
    scanBrackets st s n [] = unclosedDefect s := by
  rcases s with _ | ⟨⟨o, l⟩, s⟩ <;> simp [scanBrackets, unclosedDefect, h]

theorem scan_nil_blockComment :
    scanBrackets .blockComment s n [] =
      some ((unclosedDefect s).getD ⟨n, .unterminatedBlockComment⟩) := by
  rcases s with _ | ⟨⟨o, l⟩, s⟩ <;> simp [scanBrackets, unclosedDefect]

theorem scan_code_plain (hq : isQuote c = false) (hb : isBracket c = false)
    (hs : c = '/' → rest.head? ≠ some '/' ∧ rest.head? ≠ some '*') :
    scanBrackets .code s n (c :: rest) =
      scanBrackets .code s (if c = '\n' then n + 1 else n) rest := by
  have hq' : c ≠ '"' ∧ c ≠ '\'' := by simpa [isQuote] using hq
  have ho : ((c ≠ '(' ∧ c ≠ '[') ∧ c ≠ '{') ∧ openerOf c = none := by
    simpa [isBracket, isOpener] using hb
  have hslash : ¬ (c = '/' ∧ rest.head? = some '/') ∧ ¬ (c = '/' ∧ rest.head? = some '*') := by
    constructor <;> rintro ⟨rfl, h⟩ <;> simp_all
  rw [scanBrackets.eq_3]
  simp [hq', ho, hslash]

theorem openerOf_eq_some_iff {w : Char} :
    openerOf c = some w ↔ c = ')' ∧ w = '(' ∨ c = ']' ∧ w = '[' ∨ c = '}' ∧ w = '{' := by
  unfold openerOf
  split <;> simp_all <;> exact eq_comm

theorem isOpener_of_openerOf {w : Char} (hw : openerOf c = some w) : isOpener w = true := by
  rcases openerOf_eq_some_iff.1 hw with ⟨-, rfl⟩ | ⟨-, rfl⟩ | ⟨-, rfl⟩ <;> rfl

theorem scan_code_open (ho : isOpener c = true) :
    scanBrackets .code s n (c :: rest) = scanBrackets .code ((c, n) :: s) n rest := by
  have hc : (c = '(' ∨ c = '[') ∨ c = '{' := by simpa [isOpener] using ho
  rcases hc with (rfl | rfl) | rfl <;> simp [scanBrackets.eq_3]

theorem scan_code_close {w : Char} {l : Nat} (hw : openerOf c = some w) :
    scanBrackets .code ((w, l) :: s) n (c :: rest) = scanBrackets .code s n rest := by
  rcases openerOf_eq_some_iff.1 hw with ⟨rfl, rfl⟩ | ⟨rfl, rfl⟩ | ⟨rfl, rfl⟩ <;>
    simp [scanBrackets.eq_3, openerOf]

/-- A closing bracket that does not close the innermost open bracket is the fault. -/
theorem scan_code_closer {w : Char} (hw : openerOf c = some w)
    (hs : s.head?.map Prod.fst ≠ some w) :
    scanBrackets .code s n (c :: rest) =
      some ⟨n, (s.head?.map fun p => Fault.mismatched c p.1 p.2).getD (.unexpected c)⟩ := by
  rcases openerOf_eq_some_iff.1 hw with ⟨rfl, rfl⟩ | ⟨rfl, rfl⟩ | ⟨rfl, rfl⟩ <;>
    rcases s with _ | ⟨⟨o, l⟩, s⟩ <;> simp_all [scanBrackets.eq_3, openerOf]

theorem scan_code_lineComment :
    scanBrackets .code s n ('/' :: '/' :: rest) = scanBrackets .lineComment s n ('/' :: rest) := by
  simp [scanBrackets.eq_3]

theorem scan_lineComment_append {body : List Char} (h : '\n' ∉ body) :
    scanBrackets .lineComment s n (body ++ rest) = scanBrackets .lineComment s n rest := by
  induction body with
  | nil => rfl
  | cons d body ih =>
    have hd : d ≠ '\n' := fun hd => h (hd ▸ List.mem_cons_self)
    rw [List.cons_append, scanBrackets.eq_4, if_neg hd, if_neg hd]
    exact ih (fun hm => h (List.mem_cons_of_mem d hm))

theorem scan_lineComment_newline :
    scanBrackets .lineComment s n ('\n' :: rest) = scanBrackets .code s (n + 1) rest := by
  simp [scanBrackets.eq_4]

theorem scan_code_blockComment :
    scanBrackets .code s n ('/' :: '*' :: rest) = scanBrackets .blockComment s n rest := by
  simp [scanBrackets.eq_3]

theorem starSlash_infix_cons {d : Char} {t : List Char} :
    ['*', '/'] <:+: d :: t ↔ d = '*' ∧ t.head? = some '/' ∨ ['*', '/'] <:+: t := by
  rw [List.infix_cons_iff]
  apply or_congr_left
  cases t with
  | nil => simp
  | cons e t =>
    simp only [List.cons_prefix_cons, List.nil_prefix, and_true, List.head?_cons,
      Option.some.injEq]
    exact and_congr eq_comm eq_comm

/-- Inside a block comment, text with no `*/`, even across its end, only moves the line on. -/
theorem scan_blockComment_append {body : List Char} (h : ¬ ['*', '/'] <:+: body ++ rest.take 1) :
    scanBrackets .blockComment s n (body ++ rest) =
      scanBrackets .blockComment s (n + body.count '\n') rest := by
  induction body generalizing n with
  | nil => rfl
  | cons d body ih =>
    have hhead : (body ++ rest.take 1).head? = (body ++ rest).head? := by
      cases body <;> cases rest <;> rfl
    have hclose : ¬ (d = '*' ∧ (body ++ rest).head? = some '/') := by
      rw [← hhead]
      exact fun hc => h (starSlash_infix_cons.2 (.inl hc))
    rw [List.cons_append, scanBrackets.eq_5]
    simp only [Bool.and_eq_true, decide_eq_true_eq, if_neg hclose]
    rw [ih fun hi => h (by rw [List.cons_append]; exact starSlash_infix_cons.2 (.inr hi))]
    congr 1
    by_cases hd : d = '\n'
    · simp [hd]; omega
    · simp [hd]

theorem scan_blockComment_close :
    scanBrackets .blockComment s n ('*' :: '/' :: rest) = scanBrackets .code s n rest := by
  simp [scanBrackets.eq_5]

theorem scan_code_quote (hq : isQuote c = true) :
    scanBrackets .code s n (c :: rest) = scanBrackets (literalState c) s n rest := by
  rcases (show c = '"' ∨ c = '\'' by simpa [isQuote] using hq) with rfl | rfl <;>
    simp [scanBrackets.eq_3, literalState]

theorem literalState_ne_blockComment (q : Char) : literalState q ≠ .blockComment := by
  unfold literalState
  split <;> simp

section Literal

variable {q : Char}

theorem scan_literal_plain (hq : isQuote q = true) (hcq : c ≠ q) (hcb : c ≠ '\\')
    (hcn : c ≠ '\n') :
    scanBrackets (literalState q) s n (c :: rest) = scanBrackets (literalState q) s n rest := by
  rcases (show q = '"' ∨ q = '\'' by simpa [isQuote] using hq) with rfl | rfl <;>
    cases rest <;> simp [scanBrackets, literalState, hcq, hcb, hcn]

theorem scan_literal_escape (hq : isQuote q = true) {d : Char} :
    scanBrackets (literalState q) s n ('\\' :: d :: rest) =
      scanBrackets (literalState q) s (if d = '\n' then n + 1 else n) rest := by
  rcases (show q = '"' ∨ q = '\'' by simpa [isQuote] using hq) with rfl | rfl <;>
    simp [scanBrackets, literalState]

theorem scan_literal_quote (hq : isQuote q = true) :
    scanBrackets (literalState q) s n (q :: rest) = scanBrackets .code s n rest := by
  rcases (show q = '"' ∨ q = '\'' by simpa [isQuote] using hq) with rfl | rfl <;>
    cases rest <;> simp [scanBrackets, literalState]

theorem scan_literal_newline (hq : isQuote q = true) :
    scanBrackets (literalState q) s n ('\n' :: rest) = some ⟨n, .unterminatedLiteral⟩ := by
  rcases (show q = '"' ∨ q = '\'' by simpa [isQuote] using hq) with rfl | rfl <;>
    cases rest <;> simp [scanBrackets, literalState]

theorem scan_literal_backslash (hq : isQuote q = true) :
    scanBrackets (literalState q) s n ['\\'] = unclosedDefect s := by
  rcases (show q = '"' ∨ q = '\'' by simpa [isQuote] using hq) with rfl | rfl <;>
    simp [scanBrackets.eq_7, scanBrackets.eq_9, literalState, scan_nil]

/-- Inside a literal, its text only moves the line on. -/
theorem scan_literal_append (hq : isQuote q = true) {body : List Char} (h : LiteralText q body) :
    scanBrackets (literalState q) s n (body ++ rest) =
      scanBrackets (literalState q) s (n + body.count '\n') rest := by
  induction h generalizing n with
  | nil => rfl
  | plain hcq hcb hcn _ ih =>
    rw [List.cons_append, scan_literal_plain hq hcq hcb hcn, ih]
    simp [hcn]
  | @escape d t _ ih =>
    rw [List.cons_append, List.cons_append, scan_literal_escape hq, ih]
    congr 1
    by_cases hd : d = '\n'
    · simp [hd]; omega
    · simp [hd]

end Literal

end Steps

/-! ## Whole pieces and where the scan stops -/

section Pieces

variable {s : List (Char × Nat)} {n : Nat} {rest : List Char}

theorem starSlash_infix_append_star {body : List Char} :
    ['*', '/'] <:+: body ++ ['*'] ↔ ['*', '/'] <:+: body := by
  induction body with
  | nil => simp [List.IsInfix, List.append_eq_cons_iff]
  | cons d body ih =>
    rw [List.cons_append, starSlash_infix_cons, starSlash_infix_cons, ih]
    cases body <;> simp

theorem scan_lineComment {body : List Char} (h : '\n' ∉ body) :
    scanBrackets .code s n ('/' :: '/' :: (body ++ '\n' :: rest)) =
      scanBrackets .code s (n + 1) rest := by
  rw [scan_code_lineComment, ← List.cons_append, scan_lineComment_append (by simp [h]),
    scan_lineComment_newline]

theorem scan_blockComment {body : List Char} (h : ¬ ['*', '/'] <:+: body) :
    scanBrackets .code s n ('/' :: '*' :: (body ++ '*' :: '/' :: rest)) =
      scanBrackets .code s (n + body.count '\n') rest := by
  have hbody : ¬ ['*', '/'] <:+: body ++ ('*' :: '/' :: rest).take 1 := by
    simpa [starSlash_infix_append_star] using h
  rw [scan_code_blockComment, scan_blockComment_append hbody, scan_blockComment_close]

theorem scan_literal {q : Char} {body : List Char} (hq : isQuote q = true)
    (h : LiteralText q body) :
    scanBrackets .code s n (q :: (body ++ q :: rest)) =
      scanBrackets .code s (n + body.count '\n') rest := by
  rw [scan_code_quote hq, scan_literal_append hq h, scan_literal_quote hq]

theorem ne_newline_of_isBracket {c : Char} (h : isBracket c = true) : c ≠ '\n' := by
  rintro rfl
  simp [isBracket, isOpener, openerOf] at h

theorem ne_newline_of_isQuote {c : Char} (h : isQuote c = true) : c ≠ '\n' := by
  rintro rfl
  simp [isQuote] at h

/-- The line after a piece: the line feeds of its text. -/
theorem count_cons_newline (c : Char) (cs : List Char) :
    n + (c :: cs).count '\n' = (if c = '\n' then n + 1 else n) + cs.count '\n' := by
  by_cases hc : c = '\n'
  · simp [hc]; omega
  · simp [hc]

theorem count_lineComment {body cs : List Char} (h : '\n' ∉ body) :
    n + ('/' :: '/' :: (body ++ '\n' :: cs)).count '\n' = n + 1 + cs.count '\n' := by
  simp [List.count_eq_zero_of_not_mem h]; omega

theorem count_blockComment {body cs : List Char} :
    n + ('/' :: '*' :: (body ++ '*' :: '/' :: cs)).count '\n' =
      n + body.count '\n' + cs.count '\n' := by
  simp; omega

theorem count_literal {q : Char} {body cs : List Char} (hq : isQuote q = true) :
    n + (q :: (body ++ q :: cs)).count '\n' = n + body.count '\n' + cs.count '\n' := by
  simp [ne_newline_of_isQuote hq]; omega

/-- Whole pieces take the scan from code to code: the brackets they open and close are those
`Nest` matches, and the line moves on by their line feeds. -/
theorem Reads.scan {pre : List Char} {bs : List (Char × Nat)} (h : Reads n pre rest bs)
    {s' : List (Char × Nat)} (hn : Nest s bs s') :
    scanBrackets .code s n (pre ++ rest) =
      scanBrackets .code s' (n + pre.count '\n') rest := by
  induction h generalizing s with
  | nil =>
    cases hn
    rfl
  | @plain n c cs rest bs hq hb hs _ ih =>
    rw [List.cons_append, scan_code_plain hq hb hs, ih hn, count_cons_newline]
  | @bracket n c cs rest bs hb _ ih =>
    have hc := ne_newline_of_isBracket hb
    cases hn with
    | push ho hn => rw [List.cons_append, scan_code_open ho, ih hn, count_cons_newline, if_neg hc]
    | pop hw hn => rw [List.cons_append, scan_code_close hw, ih hn, count_cons_newline, if_neg hc]
  | lineComment hb _ ih =>
    simp only [List.cons_append, List.append_assoc]
    rw [scan_lineComment hb, ih hn, count_lineComment hb]
  | blockComment hb _ ih =>
    simp only [List.cons_append, List.append_assoc]
    rw [scan_blockComment hb, ih hn, count_blockComment]
  | literal hq hl _ ih =>
    simp only [List.cons_append, List.append_assoc]
    rw [scan_literal hq hl, ih hn, count_literal hq]

theorem Reads.append {p pre : List Char} {bs bs' : List (Char × Nat)}
    (h : Reads n p (pre ++ rest) bs) (h' : Reads (n + p.count '\n') pre rest bs') :
    Reads n (p ++ pre) rest (bs ++ bs') := by
  generalize hr : pre ++ rest = r at h
  induction h with
  | nil => simpa using h'
  | @plain n c cs _ bs hq hb hs _ ih =>
    subst hr
    rw [count_cons_newline] at h'
    exact .plain hq hb (by simpa using hs) (ih h' rfl)
  | @bracket n c cs _ bs hb _ ih =>
    rw [count_cons_newline, if_neg (ne_newline_of_isBracket hb)] at h'
    exact .bracket hb (ih h' hr)
  | lineComment hb _ ih =>
    rw [count_lineComment hb] at h'
    simpa using Reads.lineComment hb (ih h' hr)
  | blockComment hb _ ih =>
    rw [count_blockComment] at h'
    simpa using Reads.blockComment hb (ih h' hr)
  | literal hq hl _ ih =>
    rw [count_literal hq] at h'
    simpa using Reads.literal hq hl (ih h' hr)

theorem Nest.append {s₁ s' : List (Char × Nat)} {bs bs' : List (Char × Nat)}
    (h : Nest s bs s₁) (h' : Nest s₁ bs' s') : Nest s (bs ++ bs') s' := by
  induction h with
  | nil => exact h'
  | push ho _ ih => exact .push ho (ih h')
  | pop hw _ ih => exact .pop hw (ih h')

end Pieces

/-! ## Every text is whole pieces, then a stop -/

/-- Where a scan in code stops reading whole pieces, with the brackets `s` open: at a closing
bracket that does not close the innermost open one, at a line feed inside a literal, or at the
end of the text. -/
inductive Stop (s : List (Char × Nat)) : List Char → Prop
  | closer {c w : Char} {rest : List Char} :
      openerOf c = some w → s.head?.map Prod.fst ≠ some w → Stop s (c :: rest)
  | brokenLiteral {q : Char} {body rest : List Char} :
      isQuote q = true → LiteralText q body → Stop s (q :: (body ++ '\n' :: rest))
  | ending {e : List Char} : OpenEnding e → Stop s e
  | openComment {e : List Char} : OpenComment e → Stop s e

theorem lineComment_split (m : List Char) :
    '\n' ∉ m ∨ ∃ body r, m = body ++ '\n' :: r ∧ '\n' ∉ body := by
  induction m with
  | nil => exact .inl List.not_mem_nil
  | cons d m ih =>
    by_cases hd : d = '\n'
    · exact .inr ⟨[], m, by rw [hd]; rfl, List.not_mem_nil⟩
    rcases ih with hm | ⟨body, r, rfl, hb⟩
    · exact .inl (by simp [hm, Ne.symm hd])
    · exact .inr ⟨d :: body, r, rfl, by simp [hb, Ne.symm hd]⟩

theorem blockComment_split (m : List Char) :
    ¬ ['*', '/'] <:+: m ∨ ∃ body r, m = body ++ '*' :: '/' :: r ∧ ¬ ['*', '/'] <:+: body := by
  induction m with
  | nil => exact .inl (by simp [List.IsInfix])
  | cons d m ih =>
    by_cases hd : d = '*' ∧ m.head? = some '/'
    · obtain ⟨rfl, hm⟩ := hd
      obtain ⟨r, rfl⟩ : ∃ r, m = '/' :: r := by
        cases m <;> simp_all
      exact .inr ⟨[], r, rfl, by simp [List.IsInfix]⟩
    rcases ih with hm | ⟨body, r, rfl, hb⟩
    · exact .inl fun hi => (starSlash_infix_cons.1 hi).elim hd hm
    · refine .inr ⟨d :: body, r, rfl, fun hi => ?_⟩
      rcases starSlash_infix_cons.1 hi with ⟨rfl, hbody⟩ | hi
      · cases body <;> simp_all
      · exact hb hi

/-- The text after a quote: a literal closed by the quote, a literal cut by a line feed, or a
literal that runs to the end, possibly after a backslash. -/
theorem literal_split (q : Char) (m : List Char) :
    (∃ body r, m = body ++ q :: r ∧ LiteralText q body) ∨
      (∃ body r, m = body ++ '\n' :: r ∧ LiteralText q body) ∨
      ∃ body, (m = body ∨ m = body ++ ['\\']) ∧ LiteralText q body := by
  induction hlen : m.length using Nat.strong_induction_on generalizing m with
  | _ k ih =>
  rcases m with _ | ⟨c, m⟩
  · exact .inr (.inr ⟨[], .inl rfl, .nil⟩)
  by_cases hcq : c = q
  · exact .inl ⟨[], m, by rw [hcq]; rfl, .nil⟩
  by_cases hcn : c = '\n'
  · exact .inr (.inl ⟨[], m, by rw [hcn]; rfl, .nil⟩)
  by_cases hcb : c = '\\'
  · subst hcb
    rcases m with _ | ⟨d, m⟩
    · exact .inr (.inr ⟨[], .inr rfl, .nil⟩)
    have hlt : m.length < k := by rw [← hlen]; simp
    rcases ih _ hlt m rfl with ⟨body, r, rfl, hb⟩ | ⟨body, r, rfl, hb⟩ | ⟨body, hm, hb⟩
    · exact .inl ⟨'\\' :: d :: body, r, rfl, .escape hb⟩
    · exact .inr (.inl ⟨'\\' :: d :: body, r, rfl, .escape hb⟩)
    · have hm' := hm.imp (congrArg fun x => '\\' :: d :: x) (congrArg fun x => '\\' :: d :: x)
      exact .inr (.inr ⟨'\\' :: d :: body, hm', .escape hb⟩)
  have hlt : m.length < k := by rw [← hlen]; simp
  rcases ih _ hlt m rfl with ⟨body, r, rfl, hb⟩ | ⟨body, r, rfl, hb⟩ | ⟨body, hm, hb⟩
  · exact .inl ⟨c :: body, r, rfl, .plain hcq hcb hcn hb⟩
  · exact .inr (.inl ⟨c :: body, r, rfl, .plain hcq hcb hcn hb⟩)
  · exact .inr (.inr ⟨c :: body, hm.imp (congrArg _) (congrArg _), .plain hcq hcb hcn hb⟩)

/-- A text that is not empty starts with a whole piece, or the scan stops at its start. -/
theorem piece_or_stop (s : List (Char × Nat)) (n : Nat) (c : Char) (more : List Char) :
    (∃ p r bs s', p ≠ [] ∧ c :: more = p ++ r ∧ Reads n p r bs ∧ Nest s bs s') ∨
      Stop s (c :: more) := by
  -- the cases follow the scan in code: comments, literals, brackets, then the rest
  by_cases hline : c = '/' ∧ more.head? = some '/'
  · obtain ⟨rfl, hm⟩ := hline
    obtain ⟨m, rfl⟩ : ∃ m, more = '/' :: m := by cases more <;> simp_all
    rcases lineComment_split m with hm | ⟨body, r, rfl, hb⟩
    · exact .inr (.ending (.inr (.inl ⟨m, rfl, hm⟩)))
    · exact .inl ⟨'/' :: '/' :: (body ++ ['\n']), r, [], s, by simp, by simp,
        .lineComment hb .nil, .nil⟩
  by_cases hblock : c = '/' ∧ more.head? = some '*'
  · obtain ⟨rfl, hm⟩ := hblock
    obtain ⟨m, rfl⟩ : ∃ m, more = '*' :: m := by cases more <;> simp_all
    rcases blockComment_split m with hm | ⟨body, r, rfl, hb⟩
    · exact .inr (.openComment ⟨m, rfl, hm⟩)
    · exact .inl ⟨'/' :: '*' :: (body ++ ['*', '/']), r, [], s, by simp, by simp,
        .blockComment hb .nil, .nil⟩
  by_cases hq : isQuote c = true
  · rcases literal_split c more with ⟨body, r, rfl, hb⟩ | ⟨body, r, rfl, hb⟩ | ⟨body, hm, hb⟩
    · exact .inl ⟨c :: (body ++ [c]), r, [], s, by simp, by simp, .literal hq hb .nil, .nil⟩
    · exact .inr (.brokenLiteral hq hb)
    · exact .inr (.ending (.inr (.inr ⟨c, body, hq, hm.imp (congrArg _) (congrArg _), hb⟩)))
  by_cases ho : isOpener c = true
  · have hb : isBracket c = true := by simp [isBracket, ho]
    exact .inl ⟨[c], more, [(c, n)], (c, n) :: s, by simp, rfl, .bracket hb .nil, .push ho .nil⟩
  cases hw : openerOf c with
  | some w =>
    have hb : isBracket c = true := by simp [isBracket, hw]
    by_cases htop : s.head?.map Prod.fst = some w
    · obtain ⟨⟨o, l⟩, s₁, rfl, rfl⟩ : ∃ p s₁, s = p :: s₁ ∧ p.1 = w := by
        cases s <;> simp_all
      exact .inl ⟨[c], more, [(c, n)], s₁, by simp, rfl, .bracket hb .nil, .pop hw .nil⟩
    · exact .inr (.closer hw htop)
  | none =>
    have hb : isBracket c = false := by simp [isBracket, hw, ho]
    have hs : c = '/' → ([] ++ more).head? ≠ some '/' ∧ ([] ++ more).head? ≠ some '*' := by
      rintro rfl
      exact ⟨fun h => hline ⟨rfl, h⟩, fun h => hblock ⟨rfl, h⟩⟩
    exact .inl ⟨[c], more, [], s, by simp, rfl, .plain (by simpa using hq) hb hs .nil, .nil⟩

/-- Every text is whole pieces with nested brackets, then a place where the scan stops. -/
theorem exists_reads_stop (s : List (Char × Nat)) (n : Nat) (cs : List Char) :
    ∃ pre rest bs s', cs = pre ++ rest ∧ Reads n pre rest bs ∧ Nest s bs s' ∧ Stop s' rest := by
  induction hlen : cs.length using Nat.strong_induction_on generalizing s n cs with
  | _ k ih =>
  rcases cs with _ | ⟨c, more⟩
  · exact ⟨[], [], [], s, rfl, .nil, .nil, .ending (.inl rfl)⟩
  rcases piece_or_stop s n c more with ⟨p, r, bs, s₁, hp, heq, hr, hn⟩ | hstop
  · have hlt : r.length < k := by
      have hpos := List.length_pos_of_ne_nil hp
      rw [← hlen, heq, List.length_append]
      omega
    obtain ⟨pre, rest, bs', s', rfl, hr', hn', hstop⟩ := ih _ hlt s₁ (n + p.count '\n') r rfl
    exact ⟨p ++ pre, rest, bs ++ bs', s', by rw [heq, List.append_assoc], hr.append hr',
      hn.append hn', hstop⟩
  · exact ⟨[], c :: more, [], s, rfl, .nil, .nil, hstop⟩

/-! ## What the scan reports where it stops -/

section Ends

variable {s : List (Char × Nat)} {n : Nat}

theorem scan_openEnding {e : List Char} (he : OpenEnding e) :
    scanBrackets .code s n e = unclosedDefect s := by
  rcases he with rfl | ⟨body, rfl, hb⟩ | ⟨q, body, hq, he, hl⟩
  · exact scan_nil (by decide)
  · calc scanBrackets .code s n ('/' :: '/' :: body)
        = scanBrackets .lineComment s n (('/' :: body) ++ []) := by
          rw [List.append_nil]; exact scan_code_lineComment
      _ = scanBrackets .lineComment s n [] := scan_lineComment_append (by simp [hb])
      _ = unclosedDefect s := scan_nil (by decide)
  · rcases he with rfl | rfl
    · calc scanBrackets .code s n (q :: body)
          = scanBrackets (literalState q) s n (body ++ []) := by
            rw [List.append_nil]; exact scan_code_quote hq
        _ = scanBrackets (literalState q) s (n + body.count '\n') [] := scan_literal_append hq hl
        _ = unclosedDefect s := scan_nil (literalState_ne_blockComment q)
    · rw [scan_code_quote hq, scan_literal_append hq hl, scan_literal_backslash hq]

theorem scan_openComment {e : List Char} (he : OpenComment e) :
    scanBrackets .code s n e =
      some ((unclosedDefect s).getD ⟨n + e.count '\n', .unterminatedBlockComment⟩) := by
  obtain ⟨body, rfl, hb⟩ := he
  calc scanBrackets .code s n ('/' :: '*' :: body)
      = scanBrackets .blockComment s n (body ++ []) := by
        rw [List.append_nil]; exact scan_code_blockComment
    _ = scanBrackets .blockComment s (n + body.count '\n') [] :=
        scan_blockComment_append (by simpa using hb)
    _ = _ := by simp [scan_nil_blockComment]

theorem scan_brokenLiteral {q : Char} {body rest : List Char} (hq : isQuote q = true)
    (hl : LiteralText q body) :
    scanBrackets .code s n (q :: (body ++ '\n' :: rest)) =
      some ⟨n + body.count '\n', .unterminatedLiteral⟩ := by
  rw [scan_code_quote hq, scan_literal_append hq hl, scan_literal_newline hq]

end Ends

/-! ## The bracket check -/

/-- The scan accepts a text exactly when the text is whole pieces with nested brackets followed
by an open ending. -/
theorem scanBrackets_eq_none_iff (cs : List Char) :
    scanBrackets .code [] 1 cs = none ↔ Accepted cs := by
  constructor
  · intro h
    obtain ⟨pre, rest, bs, s', rfl, hr, hn, hstop⟩ := exists_reads_stop [] 1 cs
    rw [hr.scan hn] at h
    cases hstop with
    | closer hw htop => simp [scan_code_closer hw htop] at h
    | brokenLiteral hq hl => simp [scan_brokenLiteral hq hl] at h
    | ending he =>
      rw [scan_openEnding he] at h
      obtain rfl : s' = [] := by cases s' <;> simp_all [unclosedDefect]
      exact ⟨pre, rest, bs, rfl, hr, he, hn⟩
    | openComment he => simp [scan_openComment he] at h
  · rintro ⟨pre, e, bs, rfl, hr, he, hn⟩
    rw [hr.scan hn, scan_openEnding he]
    rfl

/-- Otherwise the scan reports the first fault of the text, on its line. -/
theorem scanBrackets_eq_some_iff (cs : List Char) (d : Defect) :
    scanBrackets .code [] 1 cs = some d ↔ FirstFault cs d := by
  constructor
  · intro h
    obtain ⟨pre, rest, bs, s', rfl, hr, hn, hstop⟩ := exists_reads_stop [] 1 cs
    rw [hr.scan hn] at h
    cases hstop with
    | @closer c w rest hw htop =>
      rw [scan_code_closer hw htop] at h
      cases h
      rcases s' with _ | ⟨⟨o, l⟩, s'⟩
      · exact .unexpected rfl hr hn hw
      · exact .mismatched rfl hr hn hw (fun hwo => htop (by simp [hwo]))
    | @brokenLiteral q body rest hq hl =>
      rw [scan_brokenLiteral hq hl] at h
      cases h
      have hline : 1 + pre.count '\n' + body.count '\n' = 1 + (pre ++ q :: body).count '\n' := by
        simp [ne_newline_of_isQuote hq]; omega
      rw [hline]
      exact .brokenLiteral rfl hr hn hq hl
    | ending he =>
      rw [scan_openEnding he] at h
      rcases s' with _ | ⟨⟨o, l⟩, s'⟩
      · simp [unclosedDefect] at h
      · cases h
        exact .unclosed rfl hr (.inl he) hn
    | openComment he =>
      rw [scan_openComment he] at h
      rcases s' with _ | ⟨⟨o, l⟩, s'⟩
      · cases h
        have hline : 1 + pre.count '\n' + rest.count '\n' = 1 + (pre ++ rest).count '\n' := by
          simp; omega
        rw [hline]
        exact .openComment rfl hr he hn
      · cases h
        exact .unclosed rfl hr (.inr he) hn
  · intro h
    cases h with
    | mismatched heq hr hn hw hwo =>
      subst heq
      rw [hr.scan hn, scan_code_closer hw (by simpa using Ne.symm hwo)]
      simp
    | unexpected heq hr hn hw =>
      subst heq
      rw [hr.scan hn, scan_code_closer hw (by simp)]
      simp
    | @brokenLiteral pre body rest bs s q heq hr hn hq hl =>
      subst heq
      rw [hr.scan hn, scan_brokenLiteral hq hl]
      simp [ne_newline_of_isQuote hq]
      omega
    | unclosed heq hr he hn =>
      subst heq
      rw [hr.scan hn]
      rcases he with he | he
      · rw [scan_openEnding he]
        rfl
      · rw [scan_openComment he]
        rfl
    | openComment heq hr he hn =>
      subst heq
      rw [hr.scan hn, scan_openComment he]
      simp [unclosedDefect, Nat.add_assoc]

/-- The bracket check of a file's text passes exactly when the text is whole pieces with nested
brackets and an open ending; otherwise it reports the first fault, on its line. -/
theorem bracket_check_first_fault (content : String) :
    (scanBrackets .code [] 1 content.toList = none ↔ Accepted content.toList) ∧
      ∀ d, scanBrackets .code [] 1 content.toList = some d ↔ FirstFault content.toList d :=
  ⟨scanBrackets_eq_none_iff _, scanBrackets_eq_some_iff _⟩

/-- A `]` on the second line that meets the `(` of a call from the first is the first fault,
reported on the second line. -/
theorem call_bracket_mismatch :
    FirstFault "g(a,\n  b];\n".toList ⟨2, .mismatched ']' '(' 1⟩ :=
  ((bracket_check_first_fault _).2 _).1 (by simp [scanBrackets, openerOf])

/-- A file whose text ends inside a string literal passes the bracket check. -/
theorem open_string_passes :
    scanBrackets .code [] 1
      "package a;\n// Code generated by protoc-gen-bean. DO NOT EDIT.\nString s = \"abc".toList =
      none := by
  simp [scanBrackets, openerOf]

end BeanCodegen.Java
