import Mathlib
import BeanCodegen.Java.Script
import BeanCodegen.Plugin
import BeanCodegen.Proofs.InertComments
/-! # Annotations stay on their names

An annotated line records the byte range of its name. Later writes only ever append to the
front of the text, the part before its final line feeds, and closing a block only drops final
line feeds. A range therefore stays on its name as long as the name lies in the front, which it
does when the text after the name on its line ends in a character other than a line feed
(`Writer.continues_annotated`).

For every script of writer operations whose annotated lines end that way, nested blocks and
failing bodies included, each annotation of the finished text spans exactly the name of its
call, in the order of the calls made, and each block and body leaves the depth as it found it.
An assembled artifact shifts the ranges by its prologue and keeps them on their names, and a
response file carries them unchanged as 32-bit offsets when the content is shorter than `2^31`
bytes (`WriterOp.runAll_annotations_exact`).
-/

namespace BeanCodegen.Java

open BeanCodegen.Descriptor

/-- `a` marks `name` in `text`: the text reads `pre ++ name ++ post`, and `a` spans the bytes of
`name` there. -/
def Annotation.Marks (a : Annotation) (text name : String) : Prop :=
  ∃ pre post, text = pre ++ name ++ post ∧ a.start = pre.utf8ByteSize ∧
    a.stop = pre.utf8ByteSize + name.utf8ByteSize

namespace Annotation

variable {a : Annotation} {text name : String}

theorem Marks.append (h : a.Marks text name) (t : String) : a.Marks (text ++ t) name := by
  obtain ⟨pre, post, rfl, hstart, hstop⟩ := h
  exact ⟨pre, post ++ t, by simp only [String.append_assoc], hstart, hstop⟩

/-- Moved past a prologue, an annotation marks its name in the prologue and the text. -/
theorem Marks.prepend (h : a.Marks text name) (p : String) :
    ({ a with start := a.start + p.utf8ByteSize, stop := a.stop + p.utf8ByteSize } :
      Annotation).Marks (p ++ text) name := by
  obtain ⟨pre, post, rfl, hstart, hstop⟩ := h
  refine ⟨p ++ pre, post, by simp only [String.append_assoc], ?_, ?_⟩
  · simp only [hstart, String.utf8ByteSize_append]
    omega
  · simp only [hstop, String.utf8ByteSize_append]
    omega

theorem Marks.le (h : a.Marks text name) : a.start ≤ a.stop ∧ a.stop ≤ text.utf8ByteSize := by
  obtain ⟨pre, post, rfl, hstart, hstop⟩ := h
  simp only [hstart, hstop, String.utf8ByteSize_append]
  omega

theorem isValid_utf8ByteSize (pre rest : String) :
    (⟨pre.utf8ByteSize⟩ : String.Pos.Raw).IsValid (pre ++ rest) :=
  String.Pos.Raw.isValid_rawEndPos.append_right rest

/-- Both ends of a marking annotation fall on character boundaries of the text. -/
theorem Marks.isValid (h : a.Marks text name) :
    (⟨a.start⟩ : String.Pos.Raw).IsValid text ∧ (⟨a.stop⟩ : String.Pos.Raw).IsValid text := by
  obtain ⟨pre, post, rfl, hstart, hstop⟩ := h
  have hstop' : a.stop = (pre ++ name).utf8ByteSize := by
    rw [hstop, String.utf8ByteSize_append]
  refine ⟨?_, ?_⟩
  · rw [hstart, String.append_assoc]
    exact isValid_utf8ByteSize pre _
  · rw [hstop']
    exact isValid_utf8ByteSize (pre ++ name) post

theorem fromUTF8?_toByteArray (s : String) : String.fromUTF8? s.toByteArray = some s := by
  simp only [String.fromUTF8?, dif_pos s.isValidUTF8]
  rfl

/-- The bytes a marking annotation spans decode to its name, as the file check reads them. -/
theorem Marks.byteSlice (h : a.Marks text name) :
    byteSlice text.toUTF8 a.start a.stop = some name := by
  obtain ⟨hle, hsize⟩ := h.le
  obtain ⟨pre, post, rfl, hstart, hstop⟩ := h
  have hbytes : (pre ++ name ++ post).toUTF8 =
      pre.toByteArray ++ (name.toByteArray ++ post.toByteArray) := by
    simp only [String.toUTF8_eq_toByteArray, String.toByteArray_append, ByteArray.append_assoc]
  have hslice : (pre ++ name ++ post).toUTF8.extract a.start a.stop = name.toByteArray := by
    rw [hbytes, hstart, hstop, ← String.size_toByteArray, ← String.size_toByteArray,
      ← Nat.add_zero pre.toByteArray.size, Nat.add_assoc, Nat.zero_add,
      ByteArray.extract_append_size_add, ByteArray.extract_append_eq_left rfl]
  have hin : (a.start ≤ a.stop && a.stop ≤ (pre ++ name ++ post).toUTF8.size) = true := by
    simp only [String.toUTF8_eq_toByteArray, String.size_toByteArray, Bool.and_eq_true,
      decide_eq_true_eq]
    exact ⟨hle, hsize⟩
  rw [Java.byteSlice, if_pos hin, hslice, fromUTF8?_toByteArray]

/-- The annotations mark, in order, the names of `names` in `text`. -/
def MarkAll (text : String) (anns : List Annotation) (names : List String) : Prop :=
  List.Forall₂ (fun a n => a.Marks text n) anns names

theorem MarkAll.append {anns : List Annotation} {names : List String}
    (h : MarkAll text anns names) (t : String) : MarkAll (text ++ t) anns names :=
  h.imp fun _ _ hm => hm.append t

theorem MarkAll.le {anns : List Annotation} {names : List String}
    (h : MarkAll text anns names) : ∀ a ∈ anns, a.start ≤ a.stop ∧ a.stop ≤ text.utf8ByteSize := by
  induction h with
  | nil => simp
  | cons hm _ ih =>
    intro a ha
    rcases List.mem_cons.1 ha with rfl | ha
    · exact hm.le
    · exact ih a ha

end Annotation

/-- A suffix ending in a character other than a line feed: the line it ends keeps its text when
a block closes after it. -/
def endsText (suf : String) : Bool := suf.toList.getLast?.any fun c => c != '\n'

namespace Writer

variable {w w' w'' : Writer} {names names' : List String}

/-- Every annotation of `w` marks, in order, a name of `names` within the front of the text,
the part later writes keep. -/
def Marked (w : Writer) (names : List String) : Prop :=
  Annotation.MarkAll w.front w.annotations.toList names

/-- `w'` continues `w`: its front extends that of `w`, and it adds annotations marking
`names` in its front. -/
structure Continues (w w' : Writer) (names : List String) : Prop where
  front : ∃ t, w'.front = w.front ++ t
  annotations : ∃ new, w'.annotations.toList = w.annotations.toList ++ new ∧
    Annotation.MarkAll w'.front new names

theorem Continues.of_front (h : ∃ t, w'.front = w.front ++ t)
    (ha : w'.annotations = w.annotations) : Continues w w' [] :=
  ⟨h, ⟨[], by rw [ha, List.append_nil], .nil⟩⟩

theorem Continues.refl (w : Writer) : Continues w w [] :=
  .of_front ⟨"", String.append_empty.symm⟩ rfl

theorem Continues.trans (h : Continues w w' names) (h' : Continues w' w'' names') :
    Continues w w'' (names ++ names') := by
  obtain ⟨t, ht⟩ := h.front
  obtain ⟨t', ht'⟩ := h'.front
  obtain ⟨new, hnew, hmarks⟩ := h.annotations
  obtain ⟨new', hnew', hmarks'⟩ := h'.annotations
  refine ⟨⟨t ++ t', by rw [ht', ht, String.append_assoc]⟩, ⟨new ++ new', ?_, ?_⟩⟩
  · rw [hnew', hnew, List.append_assoc]
  · rw [ht'] at hmarks' ⊢
    exact List.rel_append (hmarks.append t') hmarks'

/-- Marks kept through a continuation, followed by the marks it adds. -/
theorem Marked.continues (hw : w.Marked names) (h : Continues w w' names') :
    w'.Marked (names ++ names') := by
  obtain ⟨t, ht⟩ := h.front
  obtain ⟨new, hnew, hmarks⟩ := h.annotations
  unfold Marked
  rw [hnew, ht]
  rw [ht] at hmarks
  exact List.rel_append (hw.append t) hmarks

/-! ## The writing steps -/

theorem append_front (w : Writer) (s : String) :
    (w.append s).front = (extendText w.front w.feeds s).1 := by
  obtain ⟨front, feeds, depth, annotations⟩ := w
  dsimp only [append]

theorem append_annotations (w : Writer) (s : String) :
    (w.append s).annotations = w.annotations := by
  obtain ⟨front, feeds, depth, annotations⟩ := w
  dsimp only [append]

theorem blank_eq (w : Writer) :
    w.blank = w ∨ w.blank = ⟨w.front, w.feeds + 1, w.depth, w.annotations⟩ := by
  obtain ⟨front, feeds, depth, annotations⟩ := w
  simp only [blank]
  split
  · exact .inl rfl
  · exact .inr rfl

theorem leave_eq (w : Writer) (footer : String) :
    w.leave footer = (⟨w.front, min w.feeds 1, w.depth - 1, w.annotations⟩ : Writer).line footer :=
  rfl

theorem annotated_front (w : Writer) (path : List Int) (pre name suf : String) :
    (w.annotated path pre name suf).front =
      ((w.append (indentation w.depth ++ pre)).append (name ++ suf ++ "\n")).front := by
  unfold annotated
  dsimp only

theorem annotated_annotations (w : Writer) (path : List Int) (pre name suf : String) :
    (w.annotated path pre name suf).annotations = w.annotations.push
      ⟨path, (w.append (indentation w.depth ++ pre)).size,
        (w.append (indentation w.depth ++ pre)).size + name.utf8ByteSize⟩ := by
  unfold annotated
  dsimp only
  rw [append_annotations, append_annotations]

theorem depth_annotated (w : Writer) (path : List Int) (pre name suf : String) :
    (w.annotated path pre name suf).depth = w.depth := by
  unfold annotated
  dsimp only
  rw [depth_append, depth_append]

theorem utf8ByteSize_lineFeeds (n : Nat) : (lineFeeds n).utf8ByteSize = n := by
  induction n with
  | zero => rfl
  | succ n ih =>
    rw [lineFeeds_add, String.utf8ByteSize_append, ih]
    rfl

theorem size_eq (w : Writer) : w.size = w.text.utf8ByteSize := by
  rw [size, text, String.utf8ByteSize_append, utf8ByteSize_lineFeeds]

/-- Appending text that is not only line feeds puts the old text, final line feeds included,
and the new text without its own final line feeds in front. -/
theorem append_front_of_core (w : Writer) {s : String}
    (hs : (withoutTrailingFeeds s).isEmpty = false) :
    (w.append s).front = w.text ++ withoutTrailingFeeds s := by
  rw [append_front, extendText]
  simp only [hs, Bool.false_eq_true, if_false, text]

theorem continues_append (w : Writer) (s : String) : Continues w (w.append s) [] := by
  refine .of_front ?_ (append_annotations w s)
  cases hs : (withoutTrailingFeeds s).isEmpty with
  | true => exact ⟨"", by simp [append_front, extendText, hs]⟩
  | false =>
    exact ⟨lineFeeds w.feeds ++ withoutTrailingFeeds s,
      by rw [append_front_of_core w hs, text, String.append_assoc]⟩

theorem continues_line (w : Writer) (t : String) : Continues w (w.line t) [] :=
  continues_append w _

theorem continues_blank (w : Writer) : Continues w w.blank [] := by
  rcases blank_eq w with h | h <;> rw [h]
  · exact .refl w
  · exact .of_front ⟨"", String.append_empty.symm⟩ rfl

theorem continues_foldl_line (f : String → String) :
    ∀ (ls : List String) (w : Writer), Continues w (ls.foldl (fun w l => w.line (f l)) w) []
  | [], w => .refl w
  | l :: ls, w => by
    rw [List.foldl_cons]
    exact (continues_line w (f l)).trans (continues_foldl_line f ls (w.line (f l)))

theorem comment_some (w : Writer) (t : String) :
    w.comment (some t) = (commentLines t).foldl (fun w l => w.line ("//" ++ disarm l)) w := rfl

theorem continues_comment (w : Writer) (t : Option String) : Continues w (w.comment t) [] := by
  cases t with
  | none => exact .refl w
  | some t =>
    rw [comment_some]
    exact continues_foldl_line (fun l => "//" ++ disarm l) (commentLines t) w

theorem depth_enter (w : Writer) : w.enter.depth = w.depth + 1 := rfl

theorem continues_enter (w : Writer) : Continues w w.enter [] :=
  .of_front ⟨"", String.append_empty.symm⟩ rfl

theorem continues_leave (w : Writer) (footer : String) : Continues w (w.leave footer) [] := by
  rw [leave_eq]
  -- the writer the closing line is written to has the front and annotations of `w`
  have h := continues_line ⟨w.front, min w.feeds 1, w.depth - 1, w.annotations⟩ footer
  exact ⟨h.front, h.annotations⟩

/-- A text that does not end in a line feed, followed by one line feed, keeps the text as its
part before the final line feeds. -/
theorem withoutTrailingFeeds_append_lineFeed {t : String}
    (ht : t.toList.getLast? ≠ some '\n') : withoutTrailingFeeds (t ++ "\n") = t := by
  rw [withoutTrailingFeeds, String.toList_append, show "\n".toList = ['\n'] from rfl,
    List.reverse_append, List.reverse_singleton, List.singleton_append,
    List.dropWhile_cons_of_pos (by simp)]
  cases hrev : t.toList.reverse with
  | nil =>
    rw [List.reverse_eq_nil_iff] at hrev
    simp [← String.toList_inj, hrev]
  | cons c rest =>
    have hc : c ≠ '\n' := by
      intro hc
      apply ht
      rw [← List.head?_reverse, hrev, hc, List.head?_cons]
    rw [List.dropWhile_cons_of_neg (by simpa using hc), ← hrev, List.reverse_reverse,
      String.ofList_toList]

/-- An annotated line whose suffix ends in text leaves the name in the front: the front becomes
the text before the name, the name and the suffix, and the new annotation marks the name. -/
theorem continues_annotated (w : Writer) (path : List Int) (pre name : String) {suf : String}
    (hsuf : endsText suf = true) :
    Continues w (w.annotated path pre name suf) [name] := by
  obtain ⟨c, hlast, hc⟩ : ∃ c, suf.toList.getLast? = some c ∧ c ≠ '\n' := by
    simpa [endsText, Option.any_eq_true] using hsuf
  have hsuf_ne : suf.toList ≠ [] := fun h => by simp [h] at hlast
  have hcore : withoutTrailingFeeds (name ++ suf ++ "\n") = name ++ suf := by
    refine withoutTrailingFeeds_append_lineFeed ?_
    rw [String.toList_append, List.getLast?_append_of_ne_nil _ hsuf_ne, hlast]
    simpa using hc
  have hne : (withoutTrailingFeeds (name ++ suf ++ "\n")).isEmpty = false := by
    rw [hcore, String.isEmpty_eq_false_iff, ne_eq, ← String.toList_inj, String.toList_append]
    simpa using fun _ => hsuf_ne
  -- the line is written in two appends: indentation and prefix, then name, suffix and feed
  obtain ⟨t, ht⟩ := (continues_append w (indentation w.depth ++ pre)).front
  set w₁ := w.append (indentation w.depth ++ pre) with hw₁
  have hfront : (w.annotated path pre name suf).front = w₁.text ++ name ++ suf := by
    rw [annotated_front, ← hw₁, append_front_of_core w₁ hne, hcore, String.append_assoc]
  refine ⟨⟨t ++ lineFeeds w₁.feeds ++ name ++ suf, ?_⟩,
    ⟨[⟨path, w₁.size, w₁.size + name.utf8ByteSize⟩], ?_, ?_⟩⟩
  · rw [hfront, text, ht]
    simp only [String.append_assoc]
  · rw [annotated_annotations, ← hw₁, Array.toList_push]
  · exact .cons ⟨w₁.text, suf, hfront, size_eq w₁, by rw [size_eq]⟩ .nil

end Writer

/-! ## Scripts -/

namespace WriterOp

mutual

/-- Whether every annotated line of an operation ends in a character other than a line feed. -/
def wellEnded : WriterOp → Bool
  | .line _ => true
  | .blank => true
  | .comment _ => true
  | .annotated _ _ _ suf => endsText suf
  | .block _ _ ops => wellEndedAll ops
  | .body _ ops => wellEndedAll ops
  | .fail _ => true

/-- Whether every annotated line of the operations ends in a character other than a line
feed. -/
def wellEndedAll : List WriterOp → Bool
  | [] => true
  | op :: ops => op.wellEnded && wellEndedAll ops

end

mutual

/-- Whether an operation fails. -/
def fails : WriterOp → Bool
  | .line _ => false
  | .blank => false
  | .comment _ => false
  | .annotated .. => false
  | .block _ _ ops => failsAll ops
  | .body _ ops => failsAll ops
  | .fail _ => true

/-- Whether one of the operations fails. -/
def failsAll : List WriterOp → Bool
  | [] => false
  | op :: ops => op.fails || failsAll ops

end

mutual

/-- The names an operation annotates, in order, up to its first failure. -/
def names : WriterOp → List String
  | .line _ => []
  | .blank => []
  | .comment _ => []
  | .annotated _ _ name _ => [name]
  | .block _ _ ops => namesAll ops
  | .body _ ops => namesAll ops
  | .fail _ => []

/-- The names the operations annotate, in order, up to the first failure. -/
def namesAll : List WriterOp → List String
  | [] => []
  | op :: ops => if op.fails then op.names else op.names ++ namesAll ops

end

open Writer

theorem run_block (header footer : String) (ops : List WriterOp) (w : Writer) :
    (WriterOp.block header footer ops).run w =
      ((runAll ops (w.line header).enter).1, (runAll ops (w.line header).enter).2.leave footer) :=
  rfl

theorem run_body (footer : String) (ops : List WriterOp) (w : Writer) :
    (WriterOp.body footer ops).run w =
      ((runAll ops w.enter).1, (runAll ops w.enter).2.leave footer) := rfl

theorem runAll_cons (op : WriterOp) (ops : List WriterOp) (w : Writer) :
    runAll (op :: ops) w =
      if (op.run w).1.isOk then runAll ops (op.run w).2 else (op.run w) := by
  rw [runAll]
  split
  · next w' heq => simp [heq, Except.isOk, Except.toBool]
  · next e w' heq => simp [heq, Except.isOk, Except.toBool]

theorem depth_comment (w : Writer) (t : Option String) : (w.comment t).depth = w.depth := by
  cases t with
  | none => rfl
  | some t =>
    rw [comment_some]
    suffices h : ∀ (ls : List String) (w : Writer),
        (ls.foldl (fun w l => w.line ("//" ++ disarm l)) w).depth = w.depth from h _ w
    intro ls
    induction ls with
    | nil => exact fun w => rfl
    | cons l ls ih =>
      intro w
      rw [List.foldl_cons]
      exact (ih (w.line ("//" ++ disarm l))).trans (depth_line w ("//" ++ disarm l))

mutual

/-- Every operation leaves the depth as it found it. -/
theorem depth_run : ∀ (op : WriterOp) (w : Writer), (op.run w).2.depth = w.depth
  | .line t, w => depth_line w t
  | .blank, w => by rcases blank_eq w with h | h <;> simp only [run, h]
  | .comment t, w => depth_comment w t
  | .annotated path pre name suf, w => depth_annotated w path pre name suf
  | .block header footer ops, w => by
    rw [run_block, leave_eq, depth_line, depth_runAll, depth_enter, depth_line]
    rfl
  | .body footer ops, w => by
    rw [run_body, leave_eq, depth_line, depth_runAll, depth_enter]
    rfl
  | .fail _, w => rfl

/-- A run of operations leaves the depth as it found it. -/
theorem depth_runAll : ∀ (ops : List WriterOp) (w : Writer), (runAll ops w).2.depth = w.depth
  | [], w => rfl
  | op :: ops, w => by
    rw [runAll_cons]
    split
    · rw [depth_runAll ops, depth_run op w]
    · exact depth_run op w

end

mutual

/-- An operation ends in an error exactly when a failure is among the operations it runs. -/
theorem isOk_run : ∀ (op : WriterOp) (w : Writer), (op.run w).1.isOk = !op.fails
  | .line _, _ => rfl
  | .blank, _ => rfl
  | .comment _, _ => rfl
  | .annotated .., _ => rfl
  | .block header footer ops, w => by rw [run_block, fails, isOk_runAll]
  | .body footer ops, w => by rw [run_body, fails, isOk_runAll]
  | .fail _, _ => rfl

/-- A run of operations ends in an error exactly when one of them fails. -/
theorem isOk_runAll : ∀ (ops : List WriterOp) (w : Writer), (runAll ops w).1.isOk = !failsAll ops
  | [], _ => rfl
  | op :: ops, w => by
    have hop := isOk_run op w
    rw [runAll_cons, failsAll, Bool.not_or, ← hop]
    split
    · next hok => rw [isOk_runAll ops, hok, Bool.true_and]
    · next hok => simp [hok]

end

mutual

/-- Running a well-ended operation continues the writer by annotations marking the names it
annotates. -/
theorem continues_run : ∀ (op : WriterOp), op.wellEnded = true →
    ∀ w : Writer, Continues w (op.run w).2 op.names
  | .line t, _, w => continues_line w t
  | .blank, _, w => continues_blank w
  | .comment t, _, w => continues_comment w t
  | .annotated path pre name suf, h, w => continues_annotated w path pre name h
  | .block header footer ops, h, w => by
    -- opening line, one level deeper, the body, closing line
    have hrun := ((continues_line w header).trans (continues_enter _)).trans
      ((continues_runAll ops h _).trans (continues_leave _ footer))
    rwa [List.nil_append, List.nil_append, List.append_nil] at hrun
  | .body footer ops, h, w => by
    have hrun := (continues_enter w).trans
      ((continues_runAll ops h _).trans (continues_leave _ footer))
    rwa [List.nil_append, List.append_nil] at hrun
  | .fail _, _, w => .refl w

/-- Running well-ended operations continues the writer by annotations marking the names they
annotate up to the first failure. -/
theorem continues_runAll : ∀ (ops : List WriterOp), wellEndedAll ops = true →
    ∀ w : Writer, Continues w (runAll ops w).2 (namesAll ops)
  | [], _, w => .refl w
  | op :: ops, h, w => by
    rw [wellEndedAll, Bool.and_eq_true] at h
    have hop := continues_run op h.1 w
    have hfails := isOk_run op w
    rw [runAll_cons, namesAll]
    split
    · next hok =>
      -- the operation went on: the rest of the run continues from where it left the writer
      have hf : op.fails = false := by simpa [hok] using hfails
      rw [if_neg (by simp [hf])]
      exact hop.trans (continues_runAll ops h.2 _)
    · next hok =>
      have hf : op.fails = true := by simpa [hok] using hfails
      rw [if_pos hf]
      exact hop

end

end WriterOp

/-! ## Finished files -/

/-- An assembled file's annotations mark in its content the names the writer's annotations mark
in its front. -/
theorem Writer.Marked.assemble {w : Writer} {names : List String} (hw : w.Marked names)
    (path source prologue : String) :
    Annotation.MarkAll (Artifact.assemble path source prologue w).content
      (Artifact.assemble path source prologue w).annotations names := by
  unfold Artifact.assemble Annotation.MarkAll
  rw [List.forall₂_map_left_iff]
  exact (hw.append (lineFeeds w.feeds)).imp fun _ _ hm => hm.prepend prologue

/-- An offset below `2^31` fits a 32-bit field as it is. -/
theorem fitsInt32_of_lt {n : Nat} (h : n < Nat.pow 2 31) : fitsInt32 n = some (n : Int) := by
  rw [fitsInt32, if_pos h]

/-- An annotation whose offsets fit 32 bits is written with its path, its file and both
offsets. -/
theorem CodeAnnotation.encode_of_lt (a : CodeAnnotation) (hstart : a.start < Nat.pow 2 31)
    (hstop : a.stop < Nat.pow 2 31) :
    a.encode = packedInt32Field 1 a.path ++ stringField 2 a.sourceFile ++ varintField 3 a.start ++
      varintField 4 a.stop := by
  rw [ CodeAnnotation.encode, fitsInt32_of_lt hstart, fitsInt32_of_lt hstop]
  rfl

namespace WriterOp

/-- Writer scripts keep annotations on their names. Run from a writer whose annotations mark
`names`, a script whose annotated lines all end in a character other than a line feed leaves
every annotation marking, in order, a name of `names` followed by the names of the annotated
calls it made, and leaves the depth as it found it. Assembled behind any prologue, the file's
annotations are the writer's shifted by the prologue's length and mark the same names in its
content, and a response file carries each one with both offsets unchanged when the content is
shorter than `2^31` bytes. -/
theorem runAll_annotations_exact {ops : List WriterOp} (hops : wellEndedAll ops = true)
    {w : Writer} {names : List String} (hw : w.Marked names) :
    let w' := (runAll ops w).2
    Annotation.MarkAll w'.text w'.annotations.toList (names ++ namesAll ops) ∧
      w'.depth = w.depth ∧
      ∀ path source prologue : String,
        let a := Artifact.assemble path source prologue w'
        a.annotations = w'.annotations.toList.map (fun an => { an with
          start := an.start + prologue.utf8ByteSize, stop := an.stop + prologue.utf8ByteSize }) ∧
        Annotation.MarkAll a.content a.annotations (names ++ namesAll ops) ∧
        (a.content.utf8ByteSize < Nat.pow 2 31 →
          ((ResponseFile.ofArtifact true a).annotations.getD []).map CodeAnnotation.encode =
            a.annotations.map fun an => packedInt32Field 1 an.path ++ stringField 2 source ++
              varintField 3 an.start ++ varintField 4 an.stop) := by
  intro w'
  have hmarked : w'.Marked (names ++ namesAll ops) := hw.continues (continues_runAll ops hops w)
  refine ⟨hmarked.append (lineFeeds w'.feeds), depth_runAll ops w, fun path source prologue => ?_⟩
  dsimp only
  have hmarks := hmarked.assemble path source prologue
  refine ⟨rfl, hmarks, fun hsize => ?_⟩
  -- every offset lies within the content, so below `2^31`
  have hfit : ∀ an ∈ (Artifact.assemble path source prologue w').annotations,
      an.start < Nat.pow 2 31 ∧ an.stop < Nat.pow 2 31 := by
    intro an han
    have := hmarks.le an han
    omega
  simp only [ResponseFile.ofArtifact, if_true, Option.getD_some, List.map_map]
  refine List.map_congr_left fun an han => ?_
  exact CodeAnnotation.encode_of_lt _ (hfit an han).1 (hfit an han).2

/-- A class written as an annotated header and a body that annotates a member, then fails
before its last line. -/
def failingClassScript : List WriterOp :=
  [.annotated [4, 0] "public class " "A" " \x7b",
   .body "\x7d" [.annotated [4, 0, 2, 0] "public int " "x" ";", .fail .nothingToGenerate,
     .line "int skipped;"]]

theorem failingClassScript_annotations_exact :
    wellEndedAll failingClassScript = true ∧ ({} : Writer).Marked [] ∧
      let w' := (runAll failingClassScript {}).2
      Annotation.MarkAll w'.text w'.annotations.toList ([] ++ namesAll failingClassScript) ∧
        w'.depth = ({} : Writer).depth ∧
        ∀ path source prologue : String,
          let a := Artifact.assemble path source prologue w'
          a.annotations = w'.annotations.toList.map (fun an => { an with
            start := an.start + prologue.utf8ByteSize, stop := an.stop + prologue.utf8ByteSize }) ∧
          Annotation.MarkAll a.content a.annotations ([] ++ namesAll failingClassScript) ∧
          (a.content.utf8ByteSize < Nat.pow 2 31 →
            ((ResponseFile.ofArtifact true a).annotations.getD []).map CodeAnnotation.encode =
              a.annotations.map fun an => packedInt32Field 1 an.path ++ stringField 2 source ++
                varintField 3 an.start ++ varintField 4 an.stop) :=
  ⟨by decide, .nil, runAll_annotations_exact (by decide) .nil⟩

end WriterOp

end BeanCodegen.Java
