import Mathlib
import BeanCodegen.Compile
/-! # Comments that Java reads as written

Java translates Unicode escapes before it reads a source file, comments included (JLS §3.3),
and a `//` comment ends at a line feed or a carriage return. A backslash begins an escape when a
`u` follows it and an even number of backslashes precede it, that is, when a `u` follows an odd
run of backslashes. A generated comment line holding a line break or such a run ends early,
and what follows it is read as code.

Comments taken from the descriptor are written through `disarm`, which inserts a backslash
before every `u` that follows an odd run and turns carriage returns into spaces. Its effect is
described here character by character (`disarm_toList`), and every line the writer emits for a
comment is inert (`InertComment`). The prologue's comment lines show the descriptor's file name
as it is, so they are inert exactly when that name is.
-/

namespace BeanCodegen.Java

/-- The number of backslashes that end a text. -/
def backslashRun (cs : List Char) : Nat := (cs.reverse.takeWhile (· = '\\')).length

/-- Whether a `u` right after the text would begin a Unicode escape: the text ends in an odd
run of backslashes. -/
def opensEscape (cs : List Char) : Bool := backslashRun cs % 2 = 1

/-- A text in which no `u` follows an odd run of backslashes, so that Java's translation of
Unicode escapes leaves it as it is. -/
def EscapeFree (cs : List Char) : Prop :=
  ∀ pre post, cs = pre ++ 'u' :: post → opensEscape pre = false

/-- A comment line that Java reads as one comment holding the text as written: it contains no
line feed, no carriage return and no Unicode escape. -/
def InertComment (line : String) : Prop :=
  '\n' ∉ line.toList ∧ '\r' ∉ line.toList ∧ EscapeFree line.toList

/-- What `disarm` makes of a character `c` that follows the text `pre` of its line: a carriage
return becomes a space, a `u` that would begin an escape gets a backslash before it, and any
other character stays. -/
def disarmChar (pre : List Char) (c : Char) : List Char :=
  if c = '\r' then [' '] else if c = 'u' ∧ opensEscape pre = true then ['\\', 'u'] else [c]

section Runs

variable {cs p : List Char} {c : Char}

@[simp] theorem opensEscape_nil : opensEscape [] = false := rfl

theorem backslashRun_append_singleton (cs : List Char) (c : Char) :
    backslashRun (cs ++ [c]) = if c = '\\' then backslashRun cs + 1 else 0 := by
  by_cases hc : c = '\\' <;> simp [backslashRun, hc]

theorem opensEscape_append_singleton (cs : List Char) (c : Char) :
    opensEscape (cs ++ [c]) = (c = '\\' && !opensEscape cs) := by
  unfold opensEscape
  rw [backslashRun_append_singleton]
  by_cases hc : c = '\\'
  · rcases Nat.mod_two_eq_zero_or_one (backslashRun cs) with h | h <;> simp [hc, h, Nat.add_mod]
  · simp [hc]

theorem opensEscape_of_not_mem (h : '\\' ∉ cs) : opensEscape cs = false := by
  induction cs using List.reverseRecOn with
  | nil => rfl
  | append_singleton cs d _ =>
    have hd : d ≠ '\\' := fun hd => h (by simp [hd])
    simp [opensEscape_append_singleton, hd]

/-- Behind a text that ends in no odd run, a text opens an escape exactly when it does alone. -/
theorem opensEscape_append (hp : opensEscape p = false) (cs : List Char) :
    opensEscape (p ++ cs) = opensEscape cs := by
  induction cs using List.reverseRecOn with
  | nil => simpa using hp
  | append_singleton cs d ih =>
    rw [← List.append_assoc, opensEscape_append_singleton, ih, opensEscape_append_singleton]

end Runs

section EscapeFree

variable {cs p out : List Char} {c : Char}

@[simp] theorem escapeFree_nil : EscapeFree [] := by
  intro pre post h
  simp at h

/-- A text followed by a character is escape-free when the text is and the character is no
`u` after an odd run. -/
theorem escapeFree_append_singleton :
    EscapeFree (cs ++ [c]) ↔ EscapeFree cs ∧ (c = 'u' → opensEscape cs = false) := by
  constructor
  · intro h
    refine ⟨fun pre post hcs => h pre (post ++ [c]) (by simp [hcs]), ?_⟩
    rintro rfl
    exact h cs [] rfl
  · rintro ⟨hcs, hc⟩ pre post heq
    rcases List.eq_nil_or_concat post with rfl | ⟨post', d, rfl⟩
    · -- the `u` is the last character
      obtain ⟨rfl, hu⟩ := List.append_inj' heq rfl
      exact hc (List.singleton_inj.1 hu)
    · have heq' : cs ++ [c] = (pre ++ 'u' :: post') ++ [d] := by simpa using heq
      exact hcs pre post' (List.append_inj' heq' rfl).1

/-- Escape-freedom read position by position: an even run of backslashes precedes every `u`. -/
theorem escapeFree_iff_getElem (cs : List Char) :
    EscapeFree cs ↔
      ∀ i (h : i < cs.length), cs[i] = 'u' → opensEscape (cs.take i) = false := by
  constructor
  · intro hfree i hi hu
    apply hfree (cs.take i) (cs.drop (i + 1))
    rw [← hu, ← List.drop_eq_getElem_cons hi, List.take_append_drop]
  · intro h pre post hcs
    have hi : pre.length < cs.length := by simp [hcs]
    have hget : cs[pre.length] = 'u' := by simp [hcs]
    have htake : cs.take pre.length = pre := by simp [hcs]
    rw [← htake]
    exact h _ hi hget

instance : DecidablePred EscapeFree := fun cs =>
  decidable_of_iff _ (escapeFree_iff_getElem cs).symm

theorem escapeFree_of_not_mem (h : '\\' ∉ cs) : EscapeFree cs := by
  rintro pre post rfl
  exact opensEscape_of_not_mem fun hb => h (by simp [hb])

/-- Behind an escape-free text that ends in no odd run, a text keeps its escapes. -/
theorem escapeFree_append (hp : EscapeFree p) (hend : opensEscape p = false) (cs : List Char) :
    EscapeFree (p ++ cs) ↔ EscapeFree cs := by
  induction cs using List.reverseRecOn with
  | nil => simp [hp]
  | append_singleton cs d ih =>
    rw [← List.append_assoc, escapeFree_append_singleton, escapeFree_append_singleton, ih,
      opensEscape_append hend]

/-- A text with no `u` adds no escape behind another. -/
theorem escapeFree_append_of_not_mem (h : 'u' ∉ cs) (p : List Char) :
    EscapeFree (p ++ cs) ↔ EscapeFree p := by
  induction cs using List.reverseRecOn with
  | nil => simp
  | append_singleton cs d ih =>
    have hd : d ≠ 'u' := fun hd => h (by simp [hd])
    rw [← List.append_assoc, escapeFree_append_singleton, ih fun hu => h (by simp [hu])]
    simp [hd]

end EscapeFree

section Disarm

variable {pre out cs : List Char} {c d : Char} {b : Bool}

/-- One step of the scan: its flag is whether the text before opens an escape. -/
theorem disarmScan_cons (pre : List Char) (c : Char) (cs : List Char) :
    disarmScan (opensEscape pre) (c :: cs) =
      disarmChar pre c ++ disarmScan (opensEscape (pre ++ [c])) cs := by
  rw [opensEscape_append_singleton]
  by_cases hb : c = '\\'
  · subst hb
    simp [disarmScan, disarmChar]
  by_cases hu : c = 'u'
  · subst hu
    cases h : opensEscape pre <;> simp [disarmScan, disarmChar, h]
  by_cases hr : c = '\r'
  · subst hr
    simp [disarmScan, disarmChar]
  · simp [disarmScan, disarmChar, hb, hu, hr]

/-- From any text `pre`, the scan writes each character `c` of a line as `disarmChar` makes
it after `pre` and the characters before `c`. -/
theorem disarmScan_eq_flatten (pre cs : List Char) :
    disarmScan (opensEscape pre) cs =
      (List.zipWith (fun p c => disarmChar (pre ++ p) c) cs.inits cs).flatten := by
  induction cs generalizing pre with
  | nil => rfl
  | cons c cs ih =>
    rw [disarmScan_cons, ih, List.inits_cons, List.zipWith_cons_cons, List.zipWith_map_left]
    simp

/-- `disarm` writes every character of a line as `disarmChar` makes it after the text before
it: carriage returns become spaces, a backslash goes before every `u` that follows an odd run
of backslashes, and nothing else changes. -/
theorem disarm_toList (l : String) :
    (disarm l).toList = (List.zipWith disarmChar l.toList.inits l.toList).flatten := by
  simpa only [disarm, String.toList_ofList, opensEscape_nil, List.nil_append] using
    disarmScan_eq_flatten [] l.toList

/-- The scan writes the characters of its input, spaces and backslashes, and no carriage
return. -/
theorem mem_disarmScan (h : d ∈ disarmScan b cs) :
    d ≠ '\r' ∧ (d ∈ cs ∨ d = ' ' ∨ d = '\\') := by
  fun_induction disarmScan b cs with
  | case1 => simp at h
  | case2 odd rest ih =>
    rcases List.mem_cons.1 h with rfl | h
    · exact ⟨by decide, .inl List.mem_cons_self⟩
    · obtain ⟨hr, hd⟩ := ih h
      exact ⟨hr, hd.imp_left (List.mem_cons_of_mem _)⟩
  | case3 odd c rest _ hu ih =>
    simp only [Bool.and_eq_true, decide_eq_true_eq] at hu
    simp only [List.mem_cons] at h
    rcases h with rfl | rfl | h
    · exact ⟨by decide, .inr (.inr rfl)⟩
    · exact ⟨by decide, .inl (by simp [hu.1])⟩
    · obtain ⟨hr, hd⟩ := ih h
      exact ⟨hr, hd.imp_left (List.mem_cons_of_mem _)⟩
  | case4 odd rest _ _ ih =>
    rcases List.mem_cons.1 h with rfl | h
    · exact ⟨by decide, .inr (.inl rfl)⟩
    · obtain ⟨hr, hd⟩ := ih h
      exact ⟨hr, hd.imp_left (List.mem_cons_of_mem _)⟩
  | case5 odd c rest _ _ hr ih =>
    rcases List.mem_cons.1 h with rfl | h
    · exact ⟨hr, .inl List.mem_cons_self⟩
    · obtain ⟨hr', hd⟩ := ih h
      exact ⟨hr', hd.imp_left (List.mem_cons_of_mem _)⟩

/-- Read on its output, the scan's flag is whether the text written so far opens an escape. -/
theorem opensEscape_append_disarmChar (out : List Char) (c : Char) :
    opensEscape (out ++ disarmChar out c) = opensEscape (out ++ [c]) := by
  unfold disarmChar
  split_ifs with hr hu
  · subst hr
    simp [opensEscape_append_singleton]
  · -- both texts end in a `u`
    obtain ⟨rfl, -⟩ := hu
    rw [show out ++ ['\\', 'u'] = out ++ ['\\'] ++ ['u'] by simp]
    simp only [opensEscape_append_singleton]
    simp
  · rfl

/-- A disarmed character keeps escape-free the text written before it. -/
theorem escapeFree_append_disarmChar (h : EscapeFree out) (c : Char) :
    EscapeFree (out ++ disarmChar out c) := by
  unfold disarmChar
  split_ifs with hr hu
  · exact escapeFree_append_singleton.2 ⟨h, by simp⟩
  · obtain ⟨rfl, hodd⟩ := hu
    rw [show out ++ ['\\', 'u'] = out ++ ['\\'] ++ ['u'] by simp]
    have hback : EscapeFree (out ++ ['\\']) := escapeFree_append_singleton.2 ⟨h, by simp⟩
    refine escapeFree_append_singleton.2 ⟨hback, fun _ => ?_⟩
    simp [opensEscape_append_singleton, hodd]
  · refine escapeFree_append_singleton.2 ⟨h, fun hc => ?_⟩
    subst hc
    simpa using hu

/-- The scan continues an escape-free text, its flag read from that text, without an escape. -/
theorem escapeFree_append_disarmScan (h : EscapeFree out) (cs : List Char) :
    EscapeFree (out ++ disarmScan (opensEscape out) cs) := by
  induction cs generalizing out with
  | nil => simpa [disarmScan] using h
  | cons c cs ih =>
    rw [disarmScan_cons, ← opensEscape_append_disarmChar, ← List.append_assoc]
    exact ih (escapeFree_append_disarmChar h c)

end Disarm

instance : DecidablePred InertComment := fun _ => inferInstanceAs (Decidable (_ ∧ _ ∧ _))

/-- A text with no backslash and no line break: Java reads it as written in any comment. -/
def PlainText (s : String) : Prop := '\\' ∉ s.toList ∧ '\n' ∉ s.toList ∧ '\r' ∉ s.toList

section Lines

variable {pre l p : String}

/-- A line of a comment, disarmed behind an inert start that opens no escape, is inert. -/
theorem inertComment_append_disarm (hpre : InertComment pre)
    (hend : opensEscape pre.toList = false) (hl : '\n' ∉ l.toList) :
    InertComment (pre ++ disarm l) := by
  obtain ⟨hlf, hcr, hfree⟩ := hpre
  have hchars : (pre ++ disarm l).toList =
      pre.toList ++ disarmScan (opensEscape pre.toList) l.toList := by
    simp [disarm, hend]
  refine ⟨?_, ?_, hchars ▸ escapeFree_append_disarmScan hfree _⟩
  · rw [hchars, List.mem_append, not_or]
    refine ⟨hlf, fun h => ?_⟩
    rcases (mem_disarmScan h).2 with hd | hd | hd
    · exact hl hd
    · exact absurd hd (by decide)
    · exact absurd hd (by decide)
  · rw [hchars, List.mem_append, not_or]
    exact ⟨hcr, fun h => (mem_disarmScan h).1 rfl⟩

/-- A text with no backslash and no line break is inert and opens no escape. -/
theorem PlainText.inert (h : PlainText p) : InertComment p ∧ opensEscape p.toList = false :=
  ⟨⟨h.2.1, h.2.2, escapeFree_of_not_mem h.1⟩, opensEscape_of_not_mem h.1⟩

theorem PlainText.ite {b : Prop} [Decidable b] {q : String} (hp : PlainText p)
    (hq : PlainText q) : PlainText (if b then p else q) := by
  split
  · exact hp
  · exact hq

theorem PlainText.append {q : String} (hp : PlainText p) (hq : PlainText q) :
    PlainText (p ++ q) := by
  simp only [PlainText, String.toList_append, List.mem_append, not_or] at *
  exact ⟨⟨hp.1, hq.1⟩, ⟨hp.2.1, hq.2.1⟩, hp.2.2, hq.2.2⟩

/-- Behind an inert text that opens no escape, a text is inert exactly when it is alone. -/
theorem inertComment_append_iff (hp : InertComment p) (hend : opensEscape p.toList = false)
    (s : String) : InertComment (p ++ s) ↔ InertComment s := by
  obtain ⟨hlf, hcr, hfree⟩ := hp
  simp only [InertComment, String.toList_append, List.mem_append, not_or, hlf, hcr,
    not_false_eq_true, true_and, escapeFree_append hfree hend]

/-- After an inert text, a plain text that starts with a space gives an inert text that opens
no escape: the space ends any run of backslashes. -/
theorem inertComment_append_spaced {q : String} (hp : InertComment p) (hq : PlainText q)
    (hstart : q.toList.head? = some ' ') :
    InertComment (p ++ q) ∧ opensEscape (p ++ q).toList = false := by
  obtain ⟨rest, hrest⟩ : ∃ rest, q.toList = ' ' :: rest := by
    cases h : q.toList with
    | nil => simp [h] at hstart
    | cons c rest =>
      rw [h] at hstart
      exact ⟨rest, by simpa using hstart⟩
  have hplain : '\\' ∉ rest := fun h => hq.1 (by simp [hrest, h])
  have hspace : EscapeFree (p.toList ++ [' ']) :=
    escapeFree_append_singleton.2 ⟨hp.2.2, by simp⟩
  have hend : opensEscape (p.toList ++ [' ']) = false := by simp [opensEscape_append_singleton]
  have hchars : (p ++ q).toList = (p.toList ++ [' ']) ++ rest := by simp [hrest]
  refine ⟨⟨?_, ?_, ?_⟩, ?_⟩
  · simpa [String.toList_append] using ⟨hp.1, hq.2.1⟩
  · simpa [String.toList_append] using ⟨hp.2.1, hq.2.2⟩
  · rw [hchars, escapeFree_append hspace hend]
    exact escapeFree_of_not_mem hplain
  · rw [hchars, opensEscape_append hend]
    exact opensEscape_of_not_mem hplain

/-- A text with no line break and no `u` leaves a line as inert as it was. -/
theorem inertComment_append_plain_iff {s : String} (hlf : '\n' ∉ s.toList)
    (hcr : '\r' ∉ s.toList) (hu : 'u' ∉ s.toList) (p : String) :
    InertComment (p ++ s) ↔ InertComment p := by
  simp only [InertComment, String.toList_append, List.mem_append, not_or, hlf, hcr,
    not_false_eq_true, and_true, escapeFree_append_of_not_mem hu]

/-- The prologue's source line is inert exactly when the file name is. -/
theorem inertComment_sourceLine (src : String) :
    InertComment ("// source: " ++ src) ↔ InertComment src :=
  inertComment_append_iff (PlainText.inert (by simp [PlainText])).1
    (PlainText.inert (by simp [PlainText])).2 src

/-- The prologue's deprecation line is inert exactly when the file name is. -/
theorem inertComment_deprecatedLine (src : String) :
    InertComment ("// " ++ src ++ " is marked deprecated.") ↔ InertComment src := by
  rw [inertComment_append_plain_iff (by simp) (by simp) (by simp)]
  exact inertComment_append_iff (PlainText.inert (by simp [PlainText])).1
    (PlainText.inert (by simp [PlainText])).2 src

end Lines

end BeanCodegen.Java

namespace BeanCodegen.Text

/-- No piece of a split holds the separator. -/
theorem not_mem_of_mem_splitChars {sep : Char} :
    ∀ {l p : List Char}, p ∈ splitChars sep l → sep ∉ p
  | [], p, h => by
    simp only [splitChars, List.mem_singleton] at h
    simp [h]
  | c :: cs, p, h => by
    have ih : ∀ q ∈ splitChars sep cs, sep ∉ q := fun q hq => not_mem_of_mem_splitChars hq
    unfold splitChars at h
    split at h
    · rcases List.mem_cons.1 h with rfl | h
      · simp
      · exact ih p h
    · rename_i hc
      rcases List.mem_cons.1 h with rfl | h
      · -- the first piece: `c`, then the first piece of the rest
        have hhead : sep ∉ (splitChars sep cs).headD [] := by
          cases hs : splitChars sep cs with
          | nil => simp
          | cons q qs => exact ih q (by simp [hs])
        simp only [List.mem_cons, not_or]
        exact ⟨fun h => hc h.symm, hhead⟩
      · exact ih p (List.mem_of_mem_tail h)

/-- Trimming the end of a text keeps a prefix of it. -/
theorem toList_trimBlankEnd_isPrefix (s : String) : (trimBlankEnd s).toList <+: s.toList := by
  simp only [trimBlankEnd, dropBlankEnd, String.toList_ofList]
  exact List.reverse_suffix.1 (by simpa using List.dropWhile_suffix isBlank)

end BeanCodegen.Text

namespace BeanCodegen.Java

open BeanCodegen.Text

/-- The lines of a comment hold no line feed. -/
theorem lineFeed_not_mem_of_mem_commentLines {t l : String} (h : l ∈ commentLines t) :
    '\n' ∉ l.toList := by
  simp only [commentLines, splitChar, List.map_map, List.mem_map, Function.comp_apply] at h
  obtain ⟨p, hp, rfl⟩ := h
  intro hl
  have hmem : '\n' ∈ p := by
    simpa using (toList_trimBlankEnd_isPrefix (String.ofList p)).subset hl
  exact not_mem_of_mem_splitChars hp hmem

namespace Writer

theorem toList_lineFeeds (n : Nat) : (lineFeeds n).toList = List.replicate n '\n' := by
  simp [lineFeeds]

theorem lineFeeds_add (m n : Nat) : lineFeeds (m + n) = lineFeeds m ++ lineFeeds n := by
  simp only [lineFeeds, List.replicate_add, String.ofList_append]

/-- A text is its part before its final line feeds, followed by those line feeds. -/
theorem withoutTrailingFeeds_append_lineFeeds (s : String) :
    withoutTrailingFeeds s ++ lineFeeds (trailingFeeds s) = s := by
  have hfeeds : s.toList.reverse.takeWhile (· = '\n') =
      List.replicate (trailingFeeds s) '\n' := by
    rw [List.eq_replicate_iff]
    exact ⟨rfl, fun c hc => by simpa using List.mem_takeWhile_imp hc⟩
  rw [← String.toList_inj, String.toList_append, toList_lineFeeds, withoutTrailingFeeds,
    String.toList_ofList]
  calc (s.toList.reverse.dropWhile (· = '\n')).reverse ++ List.replicate (trailingFeeds s) '\n'
      = (s.toList.reverse.dropWhile (· = '\n')).reverse ++
          (s.toList.reverse.takeWhile (· = '\n')).reverse := by
        rw [hfeeds, List.reverse_replicate]
    _ = s.toList := by
        rw [← List.reverse_append, List.takeWhile_append_dropWhile, List.reverse_reverse]

/-- Appending writes the text as given: keeping the final line feeds apart only decides where
blank lines go. -/
theorem text_append (w : Writer) (s : String) : (w.append s).text = w.text ++ s := by
  obtain ⟨front, feeds, depth, annotations⟩ := w
  have hs := withoutTrailingFeeds_append_lineFeeds s
  by_cases hcore : (withoutTrailingFeeds s).isEmpty = true
  · -- the text is line feeds only, and they join the final ones
    rw [String.isEmpty_iff.1 hcore, String.empty_append] at hs
    simp only [append, extendText, hcore, if_true, text]
    rw [lineFeeds_add, String.append_assoc, hs]
  · simp only [append, extendText, hcore, Bool.false_eq_true, if_false, text]
    rw [String.append_assoc, hs]

@[simp] theorem depth_append (w : Writer) (s : String) : (w.append s).depth = w.depth := by
  obtain ⟨front, feeds, depth, annotations⟩ := w
  simp only [append]

theorem text_line (w : Writer) (t : String) :
    (w.line t).text = w.text ++ (if t.isEmpty then "" else indentation w.depth ++ t) ++ "\n" := by
  rw [line, text_append, String.append_assoc]

@[simp] theorem depth_line (w : Writer) (t : String) : (w.line t).depth = w.depth :=
  depth_append _ _

/-- Nonempty lines written one after another, each at the writer's indentation. -/
theorem text_foldl_line (f : String → String) (hf : ∀ l, (f l).isEmpty = false) :
    ∀ (ls : List String) (w : Writer), (ls.foldl (fun w l => w.line (f l)) w).text =
      w.text ++ String.join (ls.map fun l => indentation w.depth ++ f l ++ "\n")
  | [], w => by simp
  | l :: ls, w => by
    rw [List.foldl_cons, text_foldl_line f hf ls, text_line, depth_line, hf]
    simp [String.append_assoc]

/-- A comment is written as its lines, each disarmed behind `//` at the writer's indentation. -/
theorem text_comment (w : Writer) (t : String) :
    (w.comment (some t)).text = w.text ++ String.join ((commentLines t).map fun l =>
      indentation w.depth ++ "//" ++ disarm l ++ "\n") := by
  rw [comment, text_foldl_line (fun l => "//" ++ disarm l) (fun l => by simp)]
  simp [String.append_assoc]

theorem eq_space_of_mem_indentation {d : Nat} {c : Char} (h : c ∈ (indentation d).toList) :
    c = ' ' := by
  simp only [indentation, String.toList_join, List.mem_flatMap, List.mem_replicate] at h
  obtain ⟨u, ⟨-, rfl⟩, hc⟩ := h
  simpa [indentUnit] using hc

/-- The start of a written comment line, its indentation and `//`, is inert and opens no
escape. -/
theorem inertComment_indentation_slashes (d : Nat) :
    InertComment (indentation d ++ "//") ∧
      opensEscape (indentation d ++ "//").toList = false := by
  have hchars : ∀ c ∈ (indentation d ++ "//").toList, c = ' ' ∨ c = '/' := by
    intro c hc
    rw [String.toList_append, List.mem_append] at hc
    rcases hc with hc | hc
    · exact .inl (eq_space_of_mem_indentation hc)
    · exact .inr (by simpa using hc)
  exact PlainText.inert ⟨fun h => by simpa using hchars _ h, fun h => by simpa using hchars _ h,
    fun h => by simpa using hchars _ h⟩

end Writer

end BeanCodegen.Java

namespace BeanCodegen.Java

/-- The decimal text of an integer is plain. -/
theorem plainText_toString_int (n : Int) : PlainText (toString n) := by
  have hchars : ∀ c ∈ (toString n).toList, c.isDigit = true ∨ c = '-' := by
    intro c hc
    cases n with
    | ofNat m =>
      simp [toString, Int.repr, Nat.repr] at hc
      exact .inl (Nat.isDigit_of_mem_toDigits (by decide) (by decide) hc)
    | negSucc m =>
      simp [toString, Int.repr, Nat.repr] at hc
      rcases hc with rfl | hc
      · exact .inr rfl
      · exact .inl (Nat.isDigit_of_mem_toDigits (by decide) (by decide) hc)
  refine ⟨fun h => ?_, fun h => ?_, fun h => ?_⟩ <;>
    rcases hchars _ h with h | h <;> revert h <;> decide

/-- Dropping the dots that start a type name keeps it inert. -/
theorem inertComment_dropDots {s : String} (h : InertComment s) :
    InertComment (String.ofList (s.toList.dropWhile (· = '.'))) := by
  obtain ⟨hlf, hcr, hfree⟩ := h
  have hsplit := (List.takeWhile_append_dropWhile (p := (· = '.')) (l := s.toList)).symm
  have hdots : '\\' ∉ s.toList.takeWhile (· = '.') := fun h => by
    simpa using List.mem_takeWhile_imp h
  rw [hsplit, escapeFree_append (escapeFree_of_not_mem hdots) (opensEscape_of_not_mem hdots)]
    at hfree
  refine ⟨fun h => hlf ?_, fun h => hcr ?_, by simpa using hfree⟩ <;>
    exact (List.dropWhile_suffix _).subset (by simpa using h)

end BeanCodegen.Java

namespace BeanCodegen.Shape

open BeanCodegen.Java BeanCodegen.Schema

theorem plainText_cardinality_keyword (k : Cardinality) : PlainText k.keyword := by
  cases k <;> simp [PlainText, Cardinality.keyword]

theorem plainText_fieldType_keyword (t : FieldType) : PlainText t.keyword := by
  cases t <;> simp [PlainText, FieldType.keyword]

theorem plainText_wireKind_label (k : WireKind) : PlainText k.label := by
  cases k <;> simp [PlainText, WireKind.label]

/-- The description of a field shows its name and type name as they are, between plain texts:
its line is inert when they are. -/
theorem inertComment_describe (c : Classified) (d : Dialect) (hname : InertComment c.field.name)
    (hty : InertComment c.field.typeName) : InertComment ("// " ++ c.describe d) := by
  obtain ⟨label, space, ty, hlabel, hspace, hshown, hdesc⟩ : ∃ label space ty,
      PlainText label ∧ PlainText space ∧ InertComment ty ∧
      c.describe d = label ++ space ++ ty ++ " " ++ c.field.name ++ " = " ++
        toString c.field.number ++ "; (" ++ c.wire.label ++ ")" := by
    refine ⟨_, _, _, ?_, ?_, ?_, rfl⟩
    · split
      · simp [PlainText]
      · exact .ite (by simp [PlainText])
          (.ite (by simp [PlainText]) (plainText_cardinality_keyword _))
    · exact .ite (by simp [PlainText]) (by simp [PlainText])
    · split
      · exact (PlainText.inert (by simp [PlainText])).1
      · split
        · exact inertComment_dropDots hty
        · exact (PlainText.inert (plainText_fieldType_keyword _)).1
  -- the text before the type name is plain, and a space follows each name
  have hstart : PlainText ("// " ++ label ++ space) :=
    ((by simp [PlainText] : PlainText "// ").append hlabel).append hspace
  have hshown' : InertComment ("// " ++ label ++ space ++ ty) :=
    (inertComment_append_iff hstart.inert.1 hstart.inert.2 ty).2 hshown
  obtain ⟨hsp, hsp_end⟩ := inertComment_append_spaced (q := " ") hshown' (by simp [PlainText])
    (by simp)
  have hnamed := (inertComment_append_iff hsp hsp_end c.field.name).2 hname
  have htail : PlainText (" = " ++ toString c.field.number ++ "; (" ++ c.wire.label ++ ")") :=
    ((((by simp [PlainText] : PlainText " = ").append (plainText_toString_int _)).append
      (by simp [PlainText])).append (plainText_wireKind_label _)).append (by simp [PlainText])
  have hline := (inertComment_append_spaced hnamed htail (by simp)).1
  rw [hdesc]
  simpa only [String.append_assoc] using hline

end BeanCodegen.Shape

namespace BeanCodegen.Emit

open BeanCodegen.Java

/-- The comment on an extension range shows numbers only. -/
theorem inertComment_rangeComment (start stop : Int) : InertComment (rangeComment start stop) := by
  have hstart := plainText_toString_int start
  have hlast := plainText_toString_int (rangeLast stop)
  unfold rangeComment
  dsimp only
  split_ifs
  · exact (((by simp [PlainText] : PlainText "// extensions ").append hstart).append
      (by simp [PlainText])).inert.1
  · exact (((by simp [PlainText] : PlainText "// extensions ").append hstart).append
      (by simp [PlainText])).inert.1
  · exact (((((by simp [PlainText] : PlainText "// extensions ").append hstart).append
      (by simp [PlainText])).append hlast).append (by simp [PlainText])).inert.1

end BeanCodegen.Emit

namespace BeanCodegen

open BeanCodegen.Java BeanCodegen.Shape BeanCodegen.Emit BeanCodegen.Schema BeanCodegen.Text
  BeanCodegen.Descriptor

/-- The file `a\u000a.proto` of package `p` with one enum `E`, generated with value classes
under `v`: the file's name holds the Unicode escape of a line feed. -/
def escapedNameRequest : Request :=
  { fileToGenerate := ["a\\u000a.proto"], parameter := some "vopkg=v"
    protoFile := [{ name := some "a\\u000a.proto", package := some "p"
                    enumType := [{ name := some "E"
                                   value := [{ name := some "A", number := some 0 }] }] }] }

/-- The two texts of the examples below evaluated: the comment with an escape keeps its middle
line, and the request for the file with an escaped name compiles to a file that holds the source
line with the escape as a line of its own. -/
theorem escapeExamples_evaluated :
    (decide (" a \\u000a b\r c" ∈ commentLines " a \\u000a b\r c\n") &&
      decide ((compileRequest escapedNameRequest).toOption.map (fun arts => arts.any fun a =>
        decide ("\n// source: a\\u000a.proto\n".toList <:+: a.content.toList)) = some true)) =
      true := by
  decide +kernel

end BeanCodegen
