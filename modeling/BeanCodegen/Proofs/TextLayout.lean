import Mathlib
import BeanCodegen.Proofs.Annotations
/-! # Blank lines and indentation

The text a writer produces is read as rows: lines of text, each at the depth it was written at
and marked when it closes a block or a body, and empty lines. The writer keeps empty lines
sparse (`Row.Sparse`): the text never starts with one, never has two in a row, never has one
right after a line ending in `{` and never has one right before the closing line of a block or
a body. `blank` decides from the final line feeds alone, and closing a block drops them down to
one, so sparseness is an invariant of every writing step (`Writer.Shows`).

For every script of writer operations whose lines, headers, footers and annotated lines are each
one non-empty line, the finished text is the rows the script writes, in order, each indented by
four spaces per level of its depth, with empty lines only where sparseness allows
(`WriterOp.runAll_layout`, stated with `Row.Layout`). Read as characters, such a text does not
start with a line feed and holds neither three line feeds in a row nor `{` followed by two.
-/

namespace BeanCodegen.Java

/-- A text that is one line: not empty, and without a line feed. -/
def oneLine (t : String) : Bool := !t.isEmpty && !t.toList.contains '\n'

theorem oneLine_iff {t : String} : oneLine t = true ↔ t ≠ "" ∧ '\n' ∉ t.toList := by
  simp [oneLine]

/-- The indentation of depth `d` is `4 * d` spaces. -/
theorem Writer.toList_indentation (d : Nat) :
    (Writer.indentation d).toList = List.replicate (4 * d) ' ' := by
  induction d with
  | zero => rfl
  | succ d ih =>
    have h : Writer.indentation (d + 1) = indentUnit ++ Writer.indentation d := by
      simp [Writer.indentation, List.replicate_succ]
    rw [h, String.toList_append, ih, Nat.mul_succ, Nat.add_comm, List.replicate_add]
    rfl

/-- A row of written text: a line of text at an indentation depth, marked when it closes a block
or a body, or an empty line. -/
inductive Row where
  | text (depth : Nat) (body : String) (closes : Bool)
  | gap
  deriving DecidableEq

namespace Row

/-- The characters of a row, without its line feed. -/
def render : Row → String
  | text d s _ => Writer.indentation d ++ s
  | gap => ""

def isGap : Row → Bool
  | text .. => false
  | gap => true

/-- Whether a row is a line of text ending in an opening brace. -/
def opens : Row → Bool
  | text _ s _ => s.toList.getLast? == some '\x7b'
  | gap => false

/-- Whether a row is the closing line of a block or a body. -/
def closes : Row → Bool
  | text _ _ c => c
  | gap => false

/-- Whether a row of text holds one non-empty line. -/
def fits : Row → Bool
  | text _ s _ => oneLine s
  | gap => true

/-- The text of rows, each ended by a line feed. -/
def join (rows : List Row) : String := String.join (rows.map fun r => r.render ++ "\n")

/-- An empty line may stand between two rows: never two empty lines in a row, none right after
a line that opens a brace, none right before a closing line. -/
def Follows (a b : Row) : Prop :=
  ¬ (a.isGap ∧ b.isGap) ∧ ¬ (a.opens ∧ b.isGap) ∧ ¬ (a.isGap ∧ b.closes)

instance (a b : Row) : Decidable (Follows a b) := inferInstanceAs (Decidable (_ ∧ _ ∧ _))

/-- Rows whose empty lines are sparse: the first row is not one, and each stands where
`Follows` allows it. -/
def Sparse (rows : List Row) : Prop := rows.head? ≠ some gap ∧ rows.IsChain Follows

instance (rows : List Row) : Decidable (Sparse rows) := inferInstanceAs (Decidable (_ ∧ _))

/-- The rows of text, the empty lines left out. -/
def texts (rows : List Row) : List Row := rows.filter fun r => !r.isGap

@[simp] theorem join_nil : join [] = "" := rfl

@[simp] theorem join_append (rows rows' : List Row) : join (rows ++ rows') = join rows ++ join rows' := by
  simp [join]

@[simp] theorem join_cons (r : Row) (rows : List Row) :
    join (r :: rows) = r.render ++ "\n" ++ join rows := by
  simp [join, String.append_assoc]

@[simp] theorem texts_nil : texts [] = [] := rfl

@[simp] theorem texts_append (rows rows' : List Row) : texts (rows ++ rows') = texts rows ++ texts rows' :=
  List.filter_append ..

@[simp] theorem texts_text (d : Nat) (s : String) (c : Bool) : texts [text d s c] = [text d s c] := rfl

@[simp] theorem texts_gap : texts [gap] = [] := rfl

/-- A row of text at depth `d` renders to `4 * d` spaces followed by its body. -/
theorem render_text_toList (d : Nat) (s : String) (c : Bool) :
    (text d s c).render.toList = List.replicate (4 * d) ' ' ++ s.toList := by
  simp [render, Writer.toList_indentation]

/-- A fitting row of text renders to a non-empty line whose last character is its body's. -/
theorem getLast?_render {d : Nat} {s : String} {c : Bool} (h : (text d s c).fits = true) :
    (text d s c).render.toList.getLast? = s.toList.getLast? ∧ s.toList ≠ [] ∧
      '\n' ∉ (text d s c).render.toList := by
  obtain ⟨hne, hlf⟩ := oneLine_iff.1 h
  have hne' : s.toList ≠ [] := by simpa using hne
  refine ⟨by rw [render_text_toList, List.getLast?_append_of_ne_nil _ hne'], hne', ?_⟩
  rw [render_text_toList, List.mem_append, not_or]
  exact ⟨fun h => absurd (List.eq_of_mem_replicate h) (by decide), hlf⟩

/-- A text ending in a fitting row of text ends in that row's last character. -/
theorem getLast?_join_append_render {pre : List Row} {d : Nat} {s : String} {c : Bool}
    (h : (text d s c).fits = true) :
    (join pre ++ (text d s c).render).toList.getLast? = s.toList.getLast? := by
  obtain ⟨hl, hne, -⟩ := getLast?_render h
  have hne' : (text d s c).render.toList ≠ [] := by simp [render_text_toList, hne]
  rw [String.toList_append, List.getLast?_append_of_ne_nil _ hne', hl]

/-! ## Sparse rows -/

section Sparse

variable {rows : List Row} {d : Nat} {s : String} {c : Bool}

/-- Sparse rows end in at most one empty line, and only after a row of text. -/
theorem Sparse.ends (h : Sparse rows) :
    rows = [] ∨ (∃ pre d s c, rows = pre ++ [text d s c]) ∨
      ∃ pre d s c, rows = pre ++ [text d s c, gap] := by
  rcases List.eq_nil_or_concat rows with rfl | ⟨init, last, rfl⟩
  · exact .inl rfl
  cases last with
  | text d s c => exact .inr (.inl ⟨init, d, s, c, by simp⟩)
  | gap =>
    rcases List.eq_nil_or_concat init with rfl | ⟨pre, prev, rfl⟩
    · exact absurd rfl h.1
    cases prev with
    | text d s c => exact .inr (.inr ⟨pre, d, s, c, by simp⟩)
    | gap =>
      -- two empty lines in a row
      have hchain := h.2
      simp only [List.concat_eq_append, List.append_assoc, List.singleton_append,
        List.isChain_append, List.isChain_cons_cons] at hchain
      exact absurd hchain.2.1.1 (by simp [Follows, isGap])

/-- A row of text may follow sparse rows, a closing one only when they do not end empty. -/
theorem Sparse.push_text (h : Sparse rows) (hc : c = true → rows.getLast? ≠ some gap) :
    Sparse (rows ++ [text d s c]) := by
  refine ⟨?_, h.2.append (List.isChain_singleton _) fun x hx y hy => ?_⟩
  · cases rows with
    | nil => simp
    | cons r rs => simpa using h.1
  · obtain rfl : text d s c = y := by simpa using hy
    refine ⟨by simp [isGap], by simp [isGap], fun ⟨hgap, hcl⟩ => ?_⟩
    cases x with
    | gap => exact hc (by simpa [closes] using hcl) (by simpa using hx)
    | text _ _ _ => simp [isGap] at hgap

/-- An empty line may follow sparse rows that end in a row of text not opening a brace. -/
theorem Sparse.push_gap {pre : List Row} (h : Sparse (pre ++ [text d s c]))
    (hopen : (text d s c).opens = false) : Sparse (pre ++ [text d s c] ++ [gap]) := by
  refine ⟨?_, h.2.append (List.isChain_singleton _) fun x hx y hy => ?_⟩
  · cases pre with
    | nil => simp
    | cons r rs => simpa using h.1
  · obtain rfl : text d s c = x := by simpa using hx
    obtain rfl : gap = y := by simpa using hy
    simp [Follows, isGap, hopen]

/-- Dropping a final empty line keeps rows sparse. -/
theorem Sparse.drop_gap {pre : List Row} (h : Sparse (pre ++ [text d s c, gap])) :
    Sparse (pre ++ [text d s c]) := by
  refine ⟨?_, List.IsChain.infix h.2 ⟨[], [gap], by simp⟩⟩
  cases pre with
  | nil => simp
  | cons r rs => simpa using h.1

end Sparse

/-! ## Sparse rows read as characters -/

/-- A pattern that starts with a character a text lacks is found after the text, if at all. -/
theorem infix_append_of_not_mem {a : Char} {p : List Char} :
    ∀ {R M : List Char}, a ∉ R → a :: p <:+: R ++ M → a :: p <:+: M
  | [], _, _, h => h
  | c :: R, M, hR, h => by
    rw [List.cons_append, List.infix_cons_iff] at h
    rcases h with h | h
    · exact absurd ((List.cons_prefix_cons.1 h).1 ▸ List.mem_cons_self) hR
    · exact infix_append_of_not_mem (fun h' => hR (List.mem_cons_of_mem _ h')) h

/-- `{` and two line feeds, found in a text without line feeds followed by a line feed: either
after all of it, or the text ends in `{` and the rest starts with a line feed. -/
theorem brace_infix_append {M : List Char} :
    ∀ {R : List Char}, '\n' ∉ R → ['\x7b', '\n', '\n'] <:+: R ++ '\n' :: M →
      ['\x7b', '\n', '\n'] <:+: M ∨ (R.getLast? = some '\x7b' ∧ M.head? = some '\n')
  | [], _, h => by
    rw [List.nil_append, List.infix_cons_iff] at h
    rcases h with h | h
    · exact absurd (List.cons_prefix_cons.1 h).1 (by decide)
    · exact .inl h
  | c :: R, hR, h => by
    rw [List.cons_append, List.infix_cons_iff] at h
    rcases h with h | h
    · -- the pattern starts at `c`, so `c` is the last character of the text
      obtain ⟨rfl, hrest⟩ := List.cons_prefix_cons.1 h
      cases R with
      | nil =>
        obtain ⟨-, hM⟩ := List.cons_prefix_cons.1 hrest
        obtain ⟨t, rfl⟩ := hM
        exact .inr ⟨rfl, rfl⟩
      | cons c' R =>
        obtain ⟨rfl, -⟩ := List.cons_prefix_cons.1 hrest
        exact absurd (List.mem_cons_of_mem _ List.mem_cons_self) hR
    · rcases brace_infix_append (fun h' => hR (List.mem_cons_of_mem _ h')) h with h | ⟨hl, hm⟩
      · exact .inl h
      · have hne : R ≠ [] := by
          rintro rfl
          simp at hl
        exact .inr ⟨by rw [List.getLast?_cons_of_ne_nil hne, hl], hm⟩

/-- Characters whose line feeds are sparse: no three in a row, none after `{` and another line
feed, and not two at the start. -/
def SparseFeeds (l : List Char) : Prop :=
  ¬ ['\n', '\n', '\n'] <:+: l ∧ ¬ ['\x7b', '\n', '\n'] <:+: l ∧ ¬ ['\n', '\n'] <+: l

/-- An empty line before text that does not start with a line feed. -/
theorem sparseFeeds_feed_cons {M : List Char} (h : SparseFeeds M) (hM : M.head? ≠ some '\n') :
    SparseFeeds ('\n' :: M) := by
  obtain ⟨hA, hB, -⟩ := h
  refine ⟨fun h => ?_, fun h => ?_, fun h => ?_⟩
  · rcases List.infix_cons_iff.1 h with h | h
    · obtain ⟨-, t, ht⟩ := List.cons_prefix_cons.1 h
      exact hM (by simp [← ht])
    · exact hA h
  · rcases List.infix_cons_iff.1 h with h | h
    · exact absurd (List.cons_prefix_cons.1 h).1 (by decide)
    · exact hB h
  · obtain ⟨-, t, ht⟩ := List.cons_prefix_cons.1 h
    exact hM (by simp [← ht])

/-- A non-empty line without line feeds, ended by one, before text whose line feeds are sparse:
the line feeds stay sparse unless the line ends in `{` and the text starts with a line feed. -/
theorem sparseFeeds_line_cons {R M : List Char} (hR : '\n' ∉ R) (hne : R ≠ [])
    (h : SparseFeeds M) (hbrace : R.getLast? = some '\x7b' → M.head? ≠ some '\n') :
    SparseFeeds (R ++ '\n' :: M) := by
  obtain ⟨hA, hB, hC⟩ := h
  obtain ⟨x, R', rfl⟩ := List.exists_cons_of_ne_nil hne
  have hx : x ≠ '\n' := fun hx => hR (hx ▸ List.mem_cons_self)
  refine ⟨fun h => ?_, fun h => ?_, fun h => ?_⟩
  · -- three line feeds can only start after the line, at its own line feed
    rcases List.infix_cons_iff.1 (infix_append_of_not_mem hR h) with h | h
    · exact hC (List.cons_prefix_cons.1 h).2
    · exact hA h
  · rcases brace_infix_append hR h with h | ⟨hopen, hfeed⟩
    · exact hB h
    · exact hbrace hopen hfeed
  · rw [List.cons_append] at h
    exact hx (List.cons_prefix_cons.1 h).1.symm

/-- Rows that follow each other, with single lines of text, read as characters: their line feeds
are sparse, and the text starts with no line feed unless the first row is empty. -/
theorem chars_of_chain : ∀ {rows : List Row}, rows.IsChain Follows →
    (∀ r ∈ rows, r.fits = true) →
    SparseFeeds (join rows).toList ∧ (rows.head? ≠ some gap → (join rows).toList.head? ≠ some '\n')
  | [], _, _ => by simp [SparseFeeds]
  | r :: rs, hchain, hfits => by
    obtain ⟨hfollow, hrest⟩ := List.isChain_cons.1 hchain
    obtain ⟨hsparse, hhead⟩ := chars_of_chain hrest fun r' hr' =>
      hfits r' (List.mem_cons_of_mem _ hr')
    have hjoin : (join (r :: rs)).toList = r.render.toList ++ '\n' :: (join rs).toList := by
      simp
    rw [hjoin]
    cases r with
    | gap =>
      -- an empty line is followed by a row of text, which starts with no line feed
      have hnext : (join rs).toList.head? ≠ some '\n' := hhead fun hg =>
        (hfollow _ hg).1 ⟨rfl, rfl⟩
      exact ⟨sparseFeeds_feed_cons hsparse hnext, fun h => absurd rfl h⟩
    | text d s c =>
      obtain ⟨hl, hne, hlf⟩ := getLast?_render (d := d) (s := s) (c := c)
        (hfits _ List.mem_cons_self)
      have hne' : (text d s c).render.toList ≠ [] := by simp [render_text_toList, hne]
      refine ⟨sparseFeeds_line_cons hlf hne' hsparse fun hopen hfeed => ?_, fun _ => ?_⟩
      · -- the line opens a brace, so the next row is a row of text
        cases rs with
        | nil => simp at hfeed
        | cons r' rs' =>
          cases r' with
          | gap => exact (hfollow gap (by simp)).2.1 ⟨by simpa [opens, ← hl] using hopen, rfl⟩
          | text d' s' c' => exact hhead (by simp) hfeed
      · obtain ⟨x, R, hR⟩ := List.exists_cons_of_ne_nil hne'
        have hx : x ≠ '\n' := fun hx => hlf (hR ▸ hx ▸ List.mem_cons_self)
        simp [hR, hx]

/-- Sparse rows of single lines read as characters: the text does not start with a line feed
and holds neither three line feeds in a row nor `{` followed by two line feeds. -/
theorem Sparse.chars {rows : List Row} (h : Sparse rows) (hfits : ∀ r ∈ rows, r.fits = true) :
    (join rows).toList.head? ≠ some '\n' ∧ ¬ ['\n', '\n', '\n'] <:+: (join rows).toList ∧
      ¬ ['\x7b', '\n', '\n'] <:+: (join rows).toList := by
  obtain ⟨⟨hA, hB, -⟩, hD⟩ := chars_of_chain h.2 hfits
  exact ⟨hD h.1, hA, hB⟩

/-- `text` is laid out as the rows of text `texts`: it is the join of rows, each one line, whose
rows of text are `texts` in order and whose empty lines are sparse. Read as characters, it does
not start with a line feed and holds neither three line feeds in a row nor `{` followed by two. -/
def Layout (text : String) (texts : List Row) : Prop :=
  ∃ rows, text = join rows ∧ Row.texts rows = texts ∧ Sparse rows ∧ (∀ r ∈ rows, r.fits = true) ∧
    text.toList.head? ≠ some '\n' ∧ ¬ ['\n', '\n', '\n'] <:+: text.toList ∧
    ¬ ['\x7b', '\n', '\n'] <:+: text.toList

theorem layout_join {rows : List Row} (h : Sparse rows) (hfits : ∀ r ∈ rows, r.fits = true) :
    Layout (join rows) (texts rows) :=
  ⟨rows, rfl, rfl, h, hfits, h.chars hfits⟩

end Row

/-! ## The final line feeds of a writer -/

namespace Writer

variable {w : Writer}

/-- Two lists behind runs of one element, neither starting with it, agree with their runs. -/
theorem replicate_append_inj {a : Char} :
    ∀ {m n : Nat} {l l' : List Char}, List.replicate m a ++ l = List.replicate n a ++ l' →
      l.head? ≠ some a → l'.head? ≠ some a → m = n ∧ l = l'
  | 0, 0, _, _, h, _, _ => ⟨rfl, by simpa using h⟩
  | 0, n + 1, _, _, h, hl, _ => by
    simp only [List.replicate_zero, List.nil_append] at h
    simp [h, List.replicate_succ] at hl
  | m + 1, 0, _, _, h, _, hl' => by
    simp only [List.replicate_zero, List.nil_append] at h
    simp [← h, List.replicate_succ] at hl'
  | m + 1, n + 1, _, _, h, hl, hl' => by
    simp only [List.replicate_succ, List.cons_append, List.cons.injEq, true_and] at h
    obtain ⟨hmn, hll⟩ := replicate_append_inj h hl hl'
    exact ⟨by omega, hll⟩

/-- A writer whose front does not end in a line feed holds a text `x` followed by `k` line
feeds, `x` not ending in one, as the front `x` and `k` final line feeds. -/
theorem front_feeds_of_text (hw : w.front.toList.getLast? ≠ some '\n') {x : String} {k : Nat}
    (hx : x.toList.getLast? ≠ some '\n') (h : w.text = x ++ lineFeeds k) :
    w.front = x ∧ w.feeds = k := by
  have hrev := congrArg (fun t : String => t.toList.reverse) h
  simp only [text, String.toList_append, toList_lineFeeds, List.reverse_append,
    List.reverse_replicate] at hrev
  obtain ⟨hk, hfront⟩ := replicate_append_inj hrev (by rwa [List.head?_reverse])
    (by rwa [List.head?_reverse])
  exact ⟨String.toList_inj.1 (List.reverse_inj.1 hfront), hk⟩

/-- The part of a text before its final line feeds does not end in one. -/
theorem getLast?_withoutTrailingFeeds (s : String) :
    (withoutTrailingFeeds s).toList.getLast? ≠ some '\n' := by
  rw [withoutTrailingFeeds, String.toList_ofList, List.getLast?_reverse]
  have h := List.head?_dropWhile_not (· = '\n') s.toList.reverse
  intro hc
  rw [hc] at h
  simp at h

/-- Appending keeps the front free of final line feeds. -/
theorem getLast?_front_append (hw : w.front.toList.getLast? ≠ some '\n') (s : String) :
    (w.append s).front.toList.getLast? ≠ some '\n' := by
  rw [append_front, extendText]
  split
  · exact hw
  · next hcore =>
    have hne : (withoutTrailingFeeds s).toList ≠ [] := by simpa using hcore
    simp only [String.toList_append, List.getLast?_append_of_ne_nil _ hne]
    exact getLast?_withoutTrailingFeeds s

/-! ## Writing steps keep rows sparse -/

/-- `w` has written the rows `rows`: its text is theirs, its front holds none of the final line
feeds, and the rows are sparse, each of them one line. -/
structure Shows (w : Writer) (rows : List Row) : Prop where
  text_eq : w.text = Row.join rows
  clean : w.front.toList.getLast? ≠ some '\n'
  sparse : Row.Sparse rows
  fits : ∀ r ∈ rows, r.fits = true

theorem shows_empty : ({} : Writer).Shows [] :=
  ⟨rfl, by simp, ⟨by simp, List.isChain_nil⟩, by simp⟩

variable {rows : List Row}

theorem lineFeeds_one : lineFeeds 1 = "\n" := rfl

theorem lineFeeds_two : lineFeeds 2 = "\n\n" := rfl

/-- The rows of a writer end in nothing, in a line of text, or in a line of text and one empty
line; its front is the text up to that line, and it keeps 0, 1 or 2 final line feeds. -/
theorem Shows.ends (h : w.Shows rows) :
    (rows = [] ∧ w.front = "" ∧ w.feeds = 0) ∨
    (∃ pre d s c, rows = pre ++ [.text d s c] ∧
      w.front = Row.join pre ++ (Row.text d s c).render ∧ w.feeds = 1) ∨
    (∃ pre d s c, rows = pre ++ [.text d s c, .gap] ∧
      w.front = Row.join pre ++ (Row.text d s c).render ∧ w.feeds = 2) := by
  -- a front that ends in a line of text does not end in a line feed
  have hlast : ∀ pre d s c, (Row.text d s c).fits = true →
      (Row.join pre ++ (Row.text d s c).render).toList.getLast? ≠ some '\n' := by
    intro pre d s c hfit hc
    rw [Row.getLast?_join_append_render hfit] at hc
    exact (oneLine_iff.1 hfit).2 (List.mem_of_getLast? hc)
  rcases h.sparse.ends with rfl | ⟨pre, d, s, c, rfl⟩ | ⟨pre, d, s, c, rfl⟩
  · have := front_feeds_of_text h.clean (x := "") (k := 0) (by simp) (by rw [h.text_eq]; rfl)
    exact .inl ⟨rfl, this⟩
  · refine .inr (.inl ⟨pre, d, s, c, rfl, front_feeds_of_text h.clean
      (hlast pre d s c (h.fits _ (by simp))) ?_⟩)
    rw [h.text_eq, lineFeeds_one]
    simp [String.append_assoc]
  · refine .inr (.inr ⟨pre, d, s, c, rfl, front_feeds_of_text h.clean
      (hlast pre d s c (h.fits _ (by simp))) ?_⟩)
    rw [h.text_eq, lineFeeds_two]
    simp [String.append_assoc, Row.render]

/-- A writer whose text grew by one line of text keeps its rows with that line added; a closing
line only comes after rows that do not end empty. -/
theorem Shows.push {w' : Writer} {d : Nat} {t : String} {c : Bool} (h : w.Shows rows)
    (hclean : w'.front.toList.getLast? ≠ some '\n')
    (htext : w'.text = w.text ++ (Row.text d t c).render ++ "\n") (ht : oneLine t = true)
    (hc : c = true → rows.getLast? ≠ some .gap) : w'.Shows (rows ++ [.text d t c]) where
  text_eq := by simp [htext, h.text_eq, String.append_assoc]
  clean := hclean
  sparse := h.sparse.push_text hc
  fits r hr := by
    rcases List.mem_append.1 hr with hr | hr
    · exact h.fits r hr
    · obtain rfl : r = .text d t c := by simpa using hr
      exact ht

/-- A line is written as a row of text at the writer's depth; it may be read as a closing line
when the rows before it do not end empty. -/
theorem Shows.line {t : String} {c : Bool} (h : w.Shows rows) (ht : oneLine t = true)
    (hc : c = true → rows.getLast? ≠ some .gap) :
    (w.line t).Shows (rows ++ [.text w.depth t c]) := by
  have hne : t.isEmpty = false := by simpa [oneLine] using (oneLine_iff.1 ht).1
  refine h.push (getLast?_front_append h.clean _) ?_ ht hc
  rw [text_line, hne]
  simp [Row.render, String.append_assoc]

theorem text_annotated (w : Writer) (path : List Int) (pre name suf : String) :
    (w.annotated path pre name suf).text =
      w.text ++ (indentation w.depth ++ pre) ++ (name ++ suf ++ "\n") := by
  have h : (w.annotated path pre name suf).text =
      ((w.append (indentation w.depth ++ pre)).append (name ++ suf ++ "\n")).text := by
    unfold annotated text
    dsimp only
  rw [h, text_append, text_append]

/-- An annotated line is written as the line of its prefix, name and suffix. -/
theorem Shows.annotated {path : List Int} {pre name suf : String} (h : w.Shows rows)
    (ht : oneLine (pre ++ name ++ suf) = true) :
    (w.annotated path pre name suf).Shows (rows ++ [.text w.depth (pre ++ name ++ suf) false]) := by
  refine h.push ?_ ?_ ht (by simp)
  · rw [annotated_front]
    exact getLast?_front_append (getLast?_front_append h.clean _) _
  · rw [text_annotated]
    simp [Row.render, String.append_assoc]

/-- The rows a comment is written as: one per line of the comment, disarmed behind `//`. -/
def commentRows (d : Nat) : Option String → List Row
  | none => []
  | some t => (commentLines t).map fun l => .text d ("//" ++ disarm l) false

/-- A comment line, disarmed behind `//`, is one line. -/
theorem oneLine_comment {t l : String} (hl : l ∈ commentLines t) : oneLine ("//" ++ disarm l) = true := by
  refine oneLine_iff.2 ⟨fun h => by simpa using congrArg String.length h, ?_⟩
  have hchars : ("//" ++ disarm l).toList = ['/', '/'] ++ disarmScan false l.toList := by
    simp [disarm]
  rw [hchars, List.mem_append, not_or]
  refine ⟨by decide, fun h => ?_⟩
  rcases (mem_disarmScan h).2 with h | h | h
  · exact lineFeed_not_mem_of_mem_commentLines hl h
  · exact absurd h (by decide)
  · exact absurd h (by decide)

theorem Shows.foldl_line {f : String → String} :
    ∀ (ls : List String) {w : Writer} {rows : List Row}, w.Shows rows →
      (∀ l ∈ ls, oneLine (f l) = true) →
      (ls.foldl (fun w l => w.line (f l)) w).Shows
        (rows ++ ls.map fun l => .text w.depth (f l) false)
  | [], _, _, h, _ => by simpa using h
  | l :: ls, w, rows, h, hls => by
    rw [List.foldl_cons]
    have h' := Shows.foldl_line ls (h.line (c := false) (hls l List.mem_cons_self) (by simp))
      fun l' hl' => hls l' (List.mem_cons_of_mem _ hl')
    rw [depth_line] at h'
    simpa using h'

theorem Shows.comment (h : w.Shows rows) (t : Option String) :
    (w.comment t).Shows (rows ++ commentRows w.depth t) := by
  cases t with
  | none => simpa [Writer.comment, commentRows] using h
  | some t =>
    rw [comment_some, commentRows]
    exact Shows.foldl_line _ h fun l hl => oneLine_comment hl

theorem Shows.enter (h : w.Shows rows) : w.enter.Shows rows := by
  obtain ⟨front, feeds, depth, annotations⟩ := w
  exact ⟨h.text_eq, h.clean, h.sparse, h.fits⟩

theorem blank_eq_ite (w : Writer) : w.blank =
    if (w.front.isEmpty && w.feeds == 0) || w.feeds ≥ 2 || (w.feeds == 1 && w.front.endsWith "\x7b")
    then w else ⟨w.front, w.feeds + 1, w.depth, w.annotations⟩ := by
  obtain ⟨front, feeds, depth, annotations⟩ := w
  rfl

theorem endsWith_brace_iff (s : String) : s.endsWith "\x7b" = true ↔ s.toList.getLast? = some '\x7b' := by
  rw [String.endsWith_eq_endsWith_toSlice, String.Slice.endsWith_string_iff,
    List.getLast?_eq_some_iff]
  simp only [List.IsSuffix, String.copy_toSlice]
  exact ⟨fun ⟨t, ht⟩ => ⟨t, ht.symm⟩, fun ⟨t, ht⟩ => ⟨t, ht.symm⟩⟩

/-- One more final line feed after a line of text that does not open a brace is an empty line. -/
theorem Shows.push_gap {pre : List Row} {d : Nat} {s : String} {c : Bool}
    (h : w.Shows (pre ++ [.text d s c]))
    (hfront : w.front = Row.join pre ++ (Row.text d s c).render) (hfeeds : w.feeds = 1)
    (hopen : (Row.text d s c).opens = false) :
    (⟨w.front, w.feeds + 1, w.depth, w.annotations⟩ : Writer).Shows
      (pre ++ [.text d s c] ++ [.gap]) where
  text_eq := by
    simp only [text, hfeeds, hfront]
    simp [String.append_assoc, Row.render, lineFeeds_two]
  clean := h.clean
  sparse := h.sparse.push_gap hopen
  fits r hr := by
    rcases List.mem_append.1 hr with hr | hr
    · exact h.fits r hr
    · obtain rfl : r = .gap := by simpa using hr
      rfl

/-- A blank line is written only after a line of text that does not open a brace; otherwise the
writer stays as it is. -/
theorem Shows.blank (h : w.Shows rows) :
    ∃ rows', w.blank.Shows rows' ∧ Row.texts rows' = Row.texts rows := by
  rcases h.ends with ⟨rfl, hfront, hfeeds⟩ | ⟨pre, d, s, c, rfl, hfront, hfeeds⟩ |
    ⟨pre, d, s, c, rfl, hfront, hfeeds⟩
  · refine ⟨[], ?_, rfl⟩
    rw [blank_eq_ite, hfront, hfeeds, if_pos (by decide)]
    exact h
  · have hfit : (Row.text d s c).fits = true := h.fits _ (by simp)
    have hne := (Row.getLast?_render hfit).2.1
    -- the front ends in the last character of the line
    have hlast : w.front.toList.getLast? = s.toList.getLast? := by
      rw [hfront, Row.getLast?_join_append_render hfit]
    have hnonempty : w.front.isEmpty = false := by
      rw [Bool.eq_false_iff]
      intro hemp
      rw [String.isEmpty_iff.1 hemp] at hlast
      obtain ⟨x, hx⟩ := List.getLast?_isSome.2 hne |> Option.isSome_iff_exists.1
      simp [hx] at hlast
    by_cases hopen : s.toList.getLast? = some '\x7b'
    · refine ⟨_, ?_, rfl⟩
      rw [blank_eq_ite, if_pos]
      · exact h
      · simp [hfeeds, (endsWith_brace_iff _).2 (hlast.trans hopen)]
    · have hends : w.front.endsWith "\x7b" = false := by
        rw [Bool.eq_false_iff, ne_eq, endsWith_brace_iff, hlast]
        exact hopen
      have hblank : w.blank = ⟨w.front, w.feeds + 1, w.depth, w.annotations⟩ := by
        rw [blank_eq_ite, if_neg (by simp [hfeeds, hnonempty, hends])]
      exact ⟨_, hblank ▸ h.push_gap hfront hfeeds (by simpa [Row.opens] using hopen),
        by simp [Row.texts, Row.isGap]⟩
  · refine ⟨_, ?_, rfl⟩
    rw [blank_eq_ite, if_pos (by simp [hfeeds])]
    exact h

/-- Closing drops a final empty line and writes the closing line one level up. -/
theorem Shows.leave {footer : String} (h : w.Shows rows) (hf : oneLine footer = true) :
    ∃ rows', (w.leave footer).Shows rows' ∧
      Row.texts rows' = Row.texts rows ++ [.text (w.depth - 1) footer true] := by
  -- the writer the closing line goes to keeps at most one final line feed
  set w₀ : Writer := ⟨w.front, min w.feeds 1, w.depth - 1, w.annotations⟩ with hw₀
  obtain ⟨rows₀, h₀, htexts, hlast⟩ : ∃ rows₀, w₀.Shows rows₀ ∧
      Row.texts rows₀ = Row.texts rows ∧ rows₀.getLast? ≠ some .gap := by
    rcases h.ends with ⟨rfl, hfront, hfeeds⟩ | ⟨pre, d, s, c, rfl, hfront, hfeeds⟩ |
      ⟨pre, d, s, c, rfl, hfront, hfeeds⟩
    · refine ⟨[], ⟨?_, h.clean, h.sparse, h.fits⟩, rfl, by simp⟩
      simp only [hw₀, text, hfront, hfeeds]
      rfl
    · refine ⟨_, ⟨?_, h.clean, h.sparse, h.fits⟩, rfl, by simp⟩
      simp only [hw₀, text, hfeeds, min_self]
      rw [← hfeeds]
      exact h.text_eq
    · refine ⟨pre ++ [.text d s c], ⟨?_, h.clean, h.sparse.drop_gap, fun r hr => h.fits r ?_⟩,
        by simp [Row.texts, Row.isGap], by simp⟩
      · simp only [hw₀, text, hfront, hfeeds]
        simp [String.append_assoc, lineFeeds_one]
      · simpa using Or.imp_right Or.inl (List.mem_append.1 hr)
  refine ⟨rows₀ ++ [.text w₀.depth footer true], ?_, by simp [htexts, hw₀]⟩
  rw [leave_eq]
  exact h₀.line hf fun _ => hlast

/-! ## Writing functions that keep rows sparse -/

theorem texts_commentRows (d : Nat) (t : Option String) :
    Row.texts (commentRows d t) = commentRows d t := by
  cases t with
  | none => rfl
  | some t => simp [commentRows, Row.texts, List.filter_map, Function.comp_def, Row.isGap]

/-- `run` keeps rows sparse and writes `rows`: from a writer that shows sparse rows it leaves
one that shows sparse rows again, with the rows of text `rows d` added, `d` the writer's
depth. -/
def Keeps (run : Writer → Writer) (rows : Nat → List Row) : Prop :=
  ∀ (w : Writer) (rs : List Row), w.Shows rs →
    ∃ rs', (run w).Shows rs' ∧ Row.texts rs' = Row.texts rs ++ rows w.depth

theorem keeps_line {t : String} (h : oneLine t = true) :
    Keeps (·.line t) fun d => [.text d t false] :=
  fun _ _ hw => ⟨_, hw.line (c := false) h (by simp), by simp⟩

theorem keeps_blank : Keeps Writer.blank fun _ => [] := fun _ _ hw => by
  obtain ⟨rs', h', ht⟩ := hw.blank
  exact ⟨rs', h', by simp [ht]⟩

theorem keeps_comment (t : Option String) : Keeps (·.comment t) (commentRows · t) :=
  fun _ _ hw => ⟨_, hw.comment t, by simp [texts_commentRows]⟩

theorem keeps_annotated {path : List Int} {pre name suf : String}
    (h : oneLine (pre ++ name ++ suf) = true) :
    Keeps (·.annotated path pre name suf) fun d => [.text d (pre ++ name ++ suf) false] :=
  fun _ _ hw => ⟨_, hw.annotated h, by simp⟩

/-- One writing function after another, the first keeping the depth: the rows of the first,
then those of the second. -/
theorem Keeps.comp {f g : Writer → Writer} {R S : Nat → List Row} (hf : Keeps f R)
    (hg : Keeps g S) (hd : ∀ w, (f w).depth = w.depth) : Keeps (g ∘ f) fun d => R d ++ S d := by
  intro w rs hw
  obtain ⟨rs₁, h₁, ht₁⟩ := hf w rs hw
  obtain ⟨rs₂, h₂, ht₂⟩ := hg _ rs₁ h₁
  exact ⟨rs₂, h₂, by rw [ht₂, ht₁, hd, List.append_assoc]⟩

/-- Contents written one level deeper, keeping the depth, then a closing line: the rows of the
contents one level deeper, then the closing line. -/
theorem Keeps.nest {inner : Writer → Writer} {R : Nat → List Row} {footer : String}
    (h : Keeps inner R) (hd : ∀ w, (inner w).depth = w.depth) (hf : oneLine footer = true) :
    Keeps (fun w => (inner w.enter).leave footer) fun d => R (d + 1) ++ [.text d footer true] := by
  intro w rs hw
  obtain ⟨rs₁, h₁, ht₁⟩ := h _ _ hw.enter
  obtain ⟨rs₂, h₂, ht₂⟩ := h₁.leave hf
  refine ⟨rs₂, h₂, ?_⟩
  rw [ht₂, ht₁, hd, depth_enter]
  simp

end Writer

/-! ## Scripts -/

namespace WriterOp

open Writer

mutual

/-- Whether every line an operation writes is one non-empty line: its lines, the headers and
footers of its blocks and bodies, and each annotated line's prefix, name and suffix together.
Comments need nothing, since they are written line by line behind `//`. -/
def oneLines : WriterOp → Bool
  | .line t => oneLine t
  | .blank => true
  | .comment _ => true
  | .annotated _ pre name suf => oneLine (pre ++ name ++ suf)
  | .block header footer ops => oneLine header && oneLine footer && oneLinesAll ops
  | .body footer ops => oneLine footer && oneLinesAll ops
  | .fail _ => true

/-- Whether every line the operations write is one non-empty line. -/
def oneLinesAll : List WriterOp → Bool
  | [] => true
  | op :: ops => op.oneLines && oneLinesAll ops

end

mutual

/-- The rows of text an operation writes at depth `d`, in order, up to its first failure; a block
writes its header and closing line at `d` and its contents one level deeper. The empty lines it
asks for are left out: whether one is written depends on the text before it. -/
def rows : WriterOp → Nat → List Row
  | .line t, d => [.text d t false]
  | .blank, _ => []
  | .comment t, d => commentRows d t
  | .annotated _ pre name suf, d => [.text d (pre ++ name ++ suf) false]
  | .block header footer ops, d =>
    .text d header false :: rowsAll ops (d + 1) ++ [.text d footer true]
  | .body footer ops, d => rowsAll ops (d + 1) ++ [.text d footer true]
  | .fail _, _ => []

/-- The rows of text operations write at depth `d`, up to the first failure. -/
def rowsAll : List WriterOp → Nat → List Row
  | [], _ => []
  | op :: ops, d => if op.fails then op.rows d else op.rows d ++ rowsAll ops d

end

theorem rows_block (header footer : String) (ops : List WriterOp) (d : Nat) :
    (WriterOp.block header footer ops).rows d =
      .text d header false :: rowsAll ops (d + 1) ++ [.text d footer true] := rfl

theorem rows_body (footer : String) (ops : List WriterOp) (d : Nat) :
    (WriterOp.body footer ops).rows d = rowsAll ops (d + 1) ++ [.text d footer true] := rfl

theorem rows_fail (e : GenError) (d : Nat) : (WriterOp.fail e).rows d = [] := rfl

theorem rowsAll_nil (d : Nat) : rowsAll [] d = [] := rfl

theorem rowsAll_cons (op : WriterOp) (ops : List WriterOp) (d : Nat) :
    rowsAll (op :: ops) d = if op.fails then op.rows d else op.rows d ++ rowsAll ops d := rfl

theorem keeps_run_line {t : String} (h : oneLine t = true) :
    Keeps (fun w => ((WriterOp.line t).run w).2) (WriterOp.line t).rows := by
  simp only [run]
  exact Writer.keeps_line h

theorem keeps_run_blank : Keeps (fun w => (WriterOp.blank.run w).2) WriterOp.blank.rows := by
  simp only [run]
  exact Writer.keeps_blank

theorem keeps_run_comment (t : Option String) :
    Keeps (fun w => ((WriterOp.comment t).run w).2) (WriterOp.comment t).rows := by
  simp only [run]
  exact Writer.keeps_comment t

theorem keeps_run_annotated {path : List Int} {pre name suf : String}
    (h : oneLine (pre ++ name ++ suf) = true) :
    Keeps (fun w => ((WriterOp.annotated path pre name suf).run w).2)
      (WriterOp.annotated path pre name suf).rows := by
  simp only [run]
  exact Writer.keeps_annotated h

/-- A block writes its header, its contents one level deeper and its closing line. -/
theorem keeps_run_block {header footer : String} {ops : List WriterOp} (hh : oneLine header = true)
    (hf : oneLine footer = true) (hops : Keeps (fun w => (runAll ops w).2) (rowsAll ops)) :
    Keeps (fun w => ((WriterOp.block header footer ops).run w).2)
      (WriterOp.block header footer ops).rows := by
  have h := (Writer.keeps_line hh).comp (hops.nest (depth_runAll ops) hf) (depth_line · header)
  intro w rs hw
  simpa [run_block, rows_block] using h w rs hw

/-- A body writes its contents one level deeper and its closing line. -/
theorem keeps_run_body {footer : String} {ops : List WriterOp} (hf : oneLine footer = true)
    (hops : Keeps (fun w => (runAll ops w).2) (rowsAll ops)) :
    Keeps (fun w => ((WriterOp.body footer ops).run w).2) (WriterOp.body footer ops).rows := by
  have h := hops.nest (depth_runAll ops) hf
  intro w rs hw
  simpa [run_body, rows_body] using h w rs hw

theorem keeps_run_fail (e : GenError) :
    Keeps (fun w => ((WriterOp.fail e).run w).2) (WriterOp.fail e).rows :=
  fun _ rs hw => ⟨rs, hw, by simp [rows_fail]⟩

theorem keeps_runAll_nil : Keeps (fun w => (runAll [] w).2) (rowsAll []) :=
  fun _ rs hw => ⟨rs, hw, by simp [rowsAll_nil]⟩

/-- Operations in order: the rest runs from where the first left the writer, unless it failed. -/
theorem keeps_runAll_cons {op : WriterOp} {ops : List WriterOp}
    (hop : Keeps (fun w => (op.run w).2) op.rows)
    (hops : Keeps (fun w => (runAll ops w).2) (rowsAll ops)) :
    Keeps (fun w => (runAll (op :: ops) w).2) (rowsAll (op :: ops)) := by
  intro w rs hw
  obtain ⟨rs₁, h₁, ht₁⟩ := hop w rs hw
  have hfails := isOk_run op w
  beta_reduce at h₁ ⊢
  rw [runAll_cons, rowsAll_cons]
  split
  · next hok =>
    have hf : op.fails = false := by simpa [hok] using hfails
    obtain ⟨rs₂, h₂, ht₂⟩ := hops _ _ h₁
    refine ⟨rs₂, h₂, ?_⟩
    rw [if_neg (by simp [hf]), ht₂, ht₁, depth_run, List.append_assoc]
  · next hok =>
    have hf : op.fails = true := by simpa [hok] using hfails
    rw [if_pos hf]
    exact ⟨rs₁, h₁, ht₁⟩

mutual

/-- Every operation whose lines are one line each keeps the writer's rows sparse and adds the
rows of text it writes. -/
theorem keeps_run : ∀ (op : WriterOp), op.oneLines = true →
    Keeps (fun w => (op.run w).2) op.rows
  | .line _, h => keeps_run_line h
  | .blank, _ => keeps_run_blank
  | .comment t, _ => keeps_run_comment t
  | .annotated .., h => keeps_run_annotated h
  | .block _ _ ops, h => by
    simp only [oneLines, Bool.and_eq_true] at h
    exact keeps_run_block h.1.1 h.1.2 (keeps_runAll ops h.2)
  | .body _ ops, h => by
    simp only [oneLines, Bool.and_eq_true] at h
    exact keeps_run_body h.1 (keeps_runAll ops h.2)
  | .fail e, _ => keeps_run_fail e

/-- Operations whose lines are one line each keep the writer's rows sparse and add the rows of
text they write up to the first failure. -/
theorem keeps_runAll : ∀ (ops : List WriterOp), oneLinesAll ops = true →
    Keeps (fun w => (runAll ops w).2) (rowsAll ops)
  | [], _ => keeps_runAll_nil
  | op :: ops, h => by
    rw [oneLinesAll, Bool.and_eq_true] at h
    exact keeps_runAll_cons (keeps_run op h.1) (keeps_runAll ops h.2)

end

/-- Writer scripts keep empty lines sparse and lines indented. Run from an empty writer, a script
whose lines, headers, footers and annotated lines are each one non-empty line leaves a text laid
out as the rows of text the script writes: in order, each indented by four spaces per level of
the depth it was written at, closing lines marked, with empty lines only where sparseness allows:
none first, never two in a row, none right after a line ending in `{`, none right before a
closing line. -/
theorem runAll_layout {ops : List WriterOp} (h : oneLinesAll ops = true) :
    Row.Layout (runAll ops {}).2.text (rowsAll ops 0) := by
  obtain ⟨rows, hshows, htexts⟩ := keeps_runAll ops h {} [] Writer.shows_empty
  rw [hshows.text_eq, show rowsAll ops 0 = Row.texts rows by simpa using htexts.symm]
  exact Row.layout_join hshows.sparse hshows.fits

end WriterOp

end BeanCodegen.Java
