import Mathlib
import BeanCodegen.Proofs.TextLayout
import BeanCodegen.Proofs.ArtifactPaths
/-! # Layout of generated files

The pieces of a draft are written as a writer script: lines, blank lines, comments and
annotated lines as they are, a body as a body, and a class declaration as its header line
followed by the body of the class closed by `}` (`Piece.writtenAsOpsAll`). Their layout is
therefore the layout of scripts.

A generated file is its prologue followed by the text of its draft. The prologue is rows of
text at depth 0, with an empty line after the package line, after the source or deprecation
line and after the imports; its last row is empty, and a draft's text starts with a line of
text. So the whole file keeps the layout of its draft, as long as the prologue's lines are one
line each, the line before the prologue's empty line does not end in `{`, and the draft's first
line does not close a block (`Draft.finish_layout`). The prologue writes the file name as it
is, so a name holding a line feed, or ending in `{` without a deprecation notice after it,
breaks the layout of a file that is otherwise laid out. Every file a request compiles to is such
a finished draft (`compileRequest_finished`); `generated_text_layout` puts the two together.
-/

namespace BeanCodegen.Java.WriterOp

/-- Operations after operations that succeed run from where those left the writer. -/
theorem runAll_append {xs : List WriterOp} {w w' : Writer} (h : runAll xs w = (.ok (), w'))
    (ys : List WriterOp) : runAll (xs ++ ys) w = runAll ys w' := by
  induction xs generalizing w with
  | nil =>
    cases h
    rfl
  | cons x xs ih =>
    rw [runAll_cons] at h
    rw [List.cons_append, runAll_cons]
    split
    · next hok =>
      rw [if_pos hok] at h
      exact ih h
    · next hok =>
      rw [if_neg hok] at h
      rw [h] at hok
      exact absurd rfl hok

end BeanCodegen.Java.WriterOp

namespace BeanCodegen.Emit

open BeanCodegen.Java WriterOp

/-- The header line of a class declaration, annotated with the class's descriptor path when it
has one. -/
def headerOp : Option (List Nat) → String → String → String → WriterOp
  | some path, pre, name, suf => .annotated (path.map Int.ofNat) pre name suf
  | none, pre, name, suf => .line (pre ++ name ++ suf)

mutual

/-- The writer operations a piece stands for: a class declaration is its header line and the
body of the class closed by `}`. -/
def Piece.ops : Piece → List WriterOp
  | .line t => [.line t]
  | .blank => [.blank]
  | .comment t => [.comment t]
  | .annotated path pre name suf => [.annotated (path.map Int.ofNat) pre name suf]
  | .body footer inner => [.body footer (Piece.opsAll inner)]
  | .decl path pre name suf inner => [headerOp path pre name suf, .body "\x7d" (Piece.opsAll inner)]

/-- The writer operations of pieces in order. -/
def Piece.opsAll : List Piece → List WriterOp
  | [] => []
  | p :: ps => p.ops ++ Piece.opsAll ps

end

/-- What it means for pieces to be written as their operations, none of which fails. -/
def WrittenAsOps (ops : List WriterOp) (write : Writer → Writer) : Prop :=
  ∀ w, runAll ops w = (.ok (), write w)

theorem writtenAsOps_body {footer : String} {inner : List Piece}
    (h : WrittenAsOps (Piece.opsAll inner) (Piece.writeAll · inner)) :
    WrittenAsOps (Piece.body footer inner).ops (Piece.write · (.body footer inner)) := by
  intro w
  rw [Piece.ops, runAll_cons, run_body, h]
  rfl

theorem writtenAsOps_decl {path : Option (List Nat)} {pre name suf : String} {inner : List Piece}
    (h : WrittenAsOps (Piece.opsAll inner) (Piece.writeAll · inner)) :
    WrittenAsOps (Piece.decl path pre name suf inner).ops
      (Piece.write · (.decl path pre name suf inner)) := by
  intro w
  -- the header line never fails, so the body runs from the writer it leaves
  cases path with
  | some p =>
    have hheader : runAll [headerOp (some p) pre name suf] w =
        (.ok (), w.annotated (p.map Int.ofNat) pre name suf) := rfl
    rw [Piece.ops, ← List.singleton_append, runAll_append hheader, runAll_cons, run_body, h]
    simp only [Piece.write]
    rfl
  | none =>
    have hheader : runAll [headerOp none pre name suf] w = (.ok (), w.line (pre ++ name ++ suf)) :=
      rfl
    rw [Piece.ops, ← List.singleton_append, runAll_append hheader, runAll_cons, run_body, h]
    simp only [Piece.write]
    rfl

theorem writtenAsOps_cons {p : Piece} {ps : List Piece} (hp : WrittenAsOps p.ops (Piece.write · p))
    (hps : WrittenAsOps (Piece.opsAll ps) (Piece.writeAll · ps)) :
    WrittenAsOps (Piece.opsAll (p :: ps)) (Piece.writeAll · (p :: ps)) := by
  intro w
  rw [Piece.opsAll, runAll_append (hp w), hps]
  rfl

mutual

/-- A piece is written as its operations, and they never fail. -/
theorem Piece.writtenAsOps : ∀ p : Piece, WrittenAsOps p.ops (Piece.write · p)
  | .line _ => fun _ => rfl
  | .blank => fun _ => rfl
  | .comment _ => fun _ => rfl
  | .annotated .. => fun _ => rfl
  | .body _ inner => writtenAsOps_body (Piece.writtenAsOpsAll inner)
  | .decl _ _ _ _ inner => writtenAsOps_decl (Piece.writtenAsOpsAll inner)

/-- Pieces are written as their operations in order, and they never fail. -/
theorem Piece.writtenAsOpsAll : ∀ ps : List Piece, WrittenAsOps (Piece.opsAll ps) (Piece.writeAll · ps)
  | [] => fun _ => rfl
  | p :: ps => writtenAsOps_cons (Piece.writtenAsOps p) (Piece.writtenAsOpsAll ps)

end

/-- The text of a draft is what the operations of its pieces write from an empty writer. -/
theorem Draft.text_eq_runAll (d : Draft) : d.text = (runAll (Piece.opsAll d.out.reverse) {}).2 := by
  rw [Piece.writtenAsOpsAll]
  rfl

end BeanCodegen.Emit

/-! ## The prologue -/

namespace BeanCodegen.Java

/-- The rows of a prologue up to the empty line after its source: the package line and an empty
line when there is a package, the marker, the source line, and the deprecation notice of a
deprecated descriptor. -/
def headerRows (pkg source : String) (deprecated : Bool) : List Row :=
  (if pkg.isEmpty then [] else [.text 0 ("package " ++ pkg ++ ";") false, .gap]) ++
  [.text 0 generatedMarker false, .text 0 ("// source: " ++ source) false] ++
  (if deprecated then [.text 0 ("// " ++ source ++ " is marked deprecated.") false] else [])

/-- The import lines of a prologue, followed by an empty line when there are any. -/
def importRows (importLines : List String) : List Row :=
  importLines.map (.text 0 · false) ++ (if importLines.isEmpty then [] else [.gap])

/-- The rows of a prologue, all at depth 0: its header, an empty line, and its imports. -/
def prologueRows (pkg source : String) (deprecated : Bool) (importLines : List String) :
    List Row :=
  headerRows pkg source deprecated ++ .gap :: importRows importLines

theorem render_text_zero (s : String) (c : Bool) : (Row.text 0 s c).render = s := by
  simp [Row.render, Writer.indentation]

theorem join_map_text_zero (ls : List String) :
    Row.join (ls.map (Row.text 0 · false)) = String.join (ls.map (· ++ "\n")) := by
  induction ls with
  | nil => rfl
  | cons l ls ih => simp [ih, render_text_zero]

/-- The prologue is the text of its rows. -/
theorem join_prologueRows (pkg source : String) (deprecated : Bool) (importLines : List String) :
    Row.join (prologueRows pkg source deprecated importLines) =
      prologue pkg source deprecated importLines := by
  have h0 : Writer.indentation 0 = "" := rfl
  unfold prologueRows headerRows importRows prologue
  simp only [Row.join_append, Row.join_cons, join_map_text_zero, apply_ite Row.join]
  simp [h0, Row.render, String.append_assoc]
  rw [← String.append_assoc]
  rfl

theorem Row.opens_text_of_getLast {d : Nat} {s : String} {c : Bool} {x : Char}
    (h : s.toList.getLast? = some x) (hx : x ≠ '\x7b') : (Row.text d s c).opens = false := by
  simp [Row.opens, h, hx]

theorem Row.follows_text_text {d d' : Nat} {s s' : String} {c c' : Bool} :
    Row.Follows (.text d s c) (.text d' s' c') := by
  simp [Row.Follows, Row.isGap]

/-- An empty line may come before sparse rows that do not start with a closing line. -/
theorem Row.Sparse.gap_follows {rows : List Row} (h : Row.Sparse rows)
    (hfirst : ∀ r ∈ rows.head?, r.closes = false) : ∀ b ∈ rows.head?, Row.Follows .gap b := by
  intro b hb
  cases b with
  | text d s c => simpa [Row.Follows, Row.isGap, Row.closes] using hfirst _ hb
  | gap => exact absurd hb h.1

/-- The rows of a prologue's header follow each other: the package line ends in `;`. -/
theorem isChain_headerRows (pkg source : String) (deprecated : Bool) :
    (headerRows pkg source deprecated).IsChain Row.Follows := by
  have hpkg : (Row.text 0 ("package " ++ pkg ++ ";") false).opens = false :=
    Row.opens_text_of_getLast (x := ';') (by simp [List.getLast?_cons, List.getLast?_append])
      (by decide)
  by_cases hp : pkg = "" <;> cases deprecated <;>
    simp [headerRows, hp, Row.Follows, Row.isGap, Row.closes, hpkg]

/-- The empty line after a prologue's header may follow its last line: the deprecation notice
ends in `.`, and the source line is assumed not to end in `{`. -/
theorem follows_getLast_headerRows {pkg source : String} {deprecated : Bool}
    (hsource : deprecated = true ∨ source.toList.getLast? ≠ some '\x7b') :
    ∀ x ∈ (headerRows pkg source deprecated).getLast?, Row.Follows x .gap := by
  intro x hx
  cases deprecated with
  | true =>
    have hdep : (Row.text 0 ("// " ++ source ++ " is marked deprecated.") false).opens = false :=
      Row.opens_text_of_getLast (x := '.') (by simp [List.getLast?_cons, List.getLast?_append])
        (by decide)
    obtain rfl : x = .text 0 ("// " ++ source ++ " is marked deprecated.") false := by
      simpa [headerRows] using hx.symm
    simp [Row.Follows, Row.isGap, hdep]
  | false =>
    have hend : ("// source: " ++ source).toList.getLast? ≠ some '\x7b' := by
      rw [String.toList_append, List.getLast?_append]
      cases hs : source.toList.getLast? with
      | none => simp
      | some c => simpa [hs] using hsource.resolve_left (by decide)
    obtain rfl : x = .text 0 ("// source: " ++ source) false := by
      simpa [headerRows] using hx.symm
    simpa [Row.Follows, Row.isGap, Row.opens] using hend

theorem isChain_map_text (ls : List String) : (ls.map (Row.text 0 · false)).IsChain Row.Follows :=
  (List.pairwise_map.2 (List.pairwise_of_forall fun _ _ => Row.follows_text_text)).isChain

/-- Import lines not ending in `{`, then rows that may follow an empty line: they follow each
other, and may themselves follow an empty line. -/
theorem isChain_importRows_append {importLines : List String} {rows : List Row}
    (himports : ∀ l ∈ importLines, l.toList.getLast? ≠ some '\x7b')
    (hrows : rows.IsChain Row.Follows) (hlink : ∀ b ∈ rows.head?, Row.Follows .gap b) :
    (importRows importLines ++ rows).IsChain Row.Follows ∧
      ∀ y ∈ (importRows importLines ++ rows).head?, Row.Follows .gap y := by
  cases importLines with
  | nil => simpa [importRows] using ⟨hrows, hlink⟩
  | cons l ls =>
    -- the empty line after the imports may follow the last of them
    have himport : ∀ x ∈ ((l :: ls).map (Row.text 0 · false)).getLast?, Row.Follows x .gap := by
      intro x hx
      rw [List.getLast?_map] at hx
      obtain ⟨m, hm, rfl⟩ := Option.mem_map.1 hx
      simpa [Row.Follows, Row.isGap, Row.opens] using himports m (List.mem_of_getLast? hm)
    refine ⟨?_, by simp [importRows, Row.Follows, Row.isGap, Row.closes]⟩
    rw [importRows, if_neg (by simp), List.append_assoc]
    exact (isChain_map_text _).append (List.isChain_cons.2 ⟨hlink, hrows⟩)
      (by simpa using himport)

/-- A prologue ends in an empty line; what follows it keeps its rows sparse when it starts with a
line that does not close a block. -/
theorem sparse_prologueRows_append {pkg source : String} {deprecated : Bool}
    {importLines : List String} {rows : List Row} (hrows : Row.Sparse rows)
    (hfirst : ∀ r ∈ rows.head?, r.closes = false)
    (hsource : deprecated = true ∨ source.toList.getLast? ≠ some '\x7b')
    (himports : ∀ l ∈ importLines, l.toList.getLast? ≠ some '\x7b') :
    Row.Sparse (prologueRows pkg source deprecated importLines ++ rows) := by
  obtain ⟨hpost, hhead⟩ :=
    isChain_importRows_append himports hrows.2 (hrows.gap_follows hfirst)
  refine ⟨?_, ?_⟩
  · by_cases hp : pkg = "" <;> simp [prologueRows, headerRows, hp]
  · rw [prologueRows, List.append_assoc, List.cons_append]
    exact (isChain_headerRows pkg source deprecated).append (List.isChain_cons.2 ⟨hhead, hpost⟩)
      (by simpa using follows_getLast_headerRows hsource)

/-- The lines of a prologue are one line each when its package, its source and its import lines
hold no line feed. -/
theorem fits_prologueRows {pkg source : String} {deprecated : Bool} {importLines : List String}
    (hpkg : '\n' ∉ pkg.toList) (hsource : '\n' ∉ source.toList)
    (himports : ∀ l ∈ importLines, oneLine l = true) :
    ∀ r ∈ prologueRows pkg source deprecated importLines, r.fits = true := by
  intro r hr
  simp only [prologueRows, headerRows, importRows, List.mem_append, List.mem_cons, List.mem_map,
    List.not_mem_nil, or_false] at hr
  rcases hr with ((hr | hr) | hr) | hr | hr | hr
  · split at hr
    · cases hr
    · rcases List.mem_cons.1 hr with rfl | hr
      · simp [Row.fits, oneLine, hpkg]
      · obtain rfl : r = .gap := by simpa using hr
        rfl
  · rcases hr with rfl | rfl
    · decide
    · simp [Row.fits, oneLine, hsource]
  · split at hr
    · obtain rfl : r = _ := by simpa using hr
      simp [Row.fits, oneLine, hsource]
    · cases hr
  · subst hr
    rfl
  · obtain ⟨l, hl, rfl⟩ := hr
    exact himports l hl
  · by_cases h : importLines.isEmpty = true
    · simp [h] at hr
    · obtain rfl : r = .gap := by simpa [h] using hr
      rfl

end BeanCodegen.Java

namespace BeanCodegen.Java

/-- Rows that do not start empty start with their first row of text. -/
theorem Row.head?_texts {rows : List Row} (h : rows.head? ≠ some .gap) :
    (Row.texts rows).head? = rows.head? := by
  cases rows with
  | nil => rfl
  | cons r rs =>
    cases r with
    | text d s c => rfl
    | gap => exact absurd rfl h

/-- An import line ends in `;`. -/
theorem Imports.getLast?_lines {s : Imports} {l : String} (h : l ∈ s.lines) :
    l.toList.getLast? = some ';' := by
  obtain ⟨full, -, rfl⟩ := List.mem_map.1 h
  simp [List.getLast?_cons, List.getLast?_append]

theorem Imports.oneLine_lines {s : Imports} {l : String} (h : l ∈ s.lines) (hl : '\n' ∉ l.toList) :
    oneLine l = true := by
  refine oneLine_iff.2 ⟨fun he => ?_, hl⟩
  have hlast := Imports.getLast?_lines h
  simp [he] at hlast

end BeanCodegen.Java

namespace BeanCodegen.Emit

open BeanCodegen.Java WriterOp

/-- A finished draft keeps the layout of its pieces after its prologue: the file is laid out as
the prologue's lines followed by the rows of text the pieces write, when every line the pieces
write is one line, the first of them does not close a block, the package, the file name and
the import lines hold no line feed, and the file name does not end in `{` unless a deprecation
notice follows it. -/
theorem Draft.finish_layout {d : Draft} {pkg cls : String} {u : Schema.File}
    (hpieces : oneLinesAll (Piece.opsAll d.out.reverse) = true)
    (hfirst : ∀ r ∈ (rowsAll (Piece.opsAll d.out.reverse) 0).head?, r.closes = false)
    (hpkg : '\n' ∉ pkg.toList) (hname : '\n' ∉ u.name.toList)
    (hend : u.deprecated = true ∨ u.name.toList.getLast? ≠ some '\x7b')
    (himports : ∀ l ∈ d.imports.lines, '\n' ∉ l.toList) :
    Row.Layout (d.finish pkg cls u).content
      (Row.texts (prologueRows pkg u.name u.deprecated d.imports.lines) ++
        rowsAll (Piece.opsAll d.out.reverse) 0) := by
  obtain ⟨rows, hshows, htexts⟩ := keeps_runAll _ hpieces {} [] Writer.shows_empty
  beta_reduce at hshows
  have htexts' : Row.texts rows = rowsAll (Piece.opsAll d.out.reverse) 0 := by simpa using htexts
  have hhead : ∀ r ∈ rows.head?, r.closes = false := by
    rw [← Row.head?_texts hshows.sparse.1, htexts']
    exact hfirst
  have hcontent : (d.finish pkg cls u).content =
      Row.join (prologueRows pkg u.name u.deprecated d.imports.lines ++ rows) := by
    rw [Row.join_append, join_prologueRows, ← hshows.text_eq, ← Draft.text_eq_runAll]
    rfl
  rw [hcontent, ← htexts', ← Row.texts_append]
  refine Row.layout_join (sparse_prologueRows_append hshows.sparse hhead hend
    fun l hl => by simp [Imports.getLast?_lines hl]) fun r hr => ?_
  rcases List.mem_append.1 hr with hr | hr
  · exact fits_prologueRows hpkg hname (fun l hl => Imports.oneLine_lines hl (himports l hl)) r hr
  · exact hshows.fits r hr

/-! ## The files of a request -/

open BeanCodegen.Schema BeanCodegen.Descriptor

theorem exists_of_flatMapM_eq_ok {α β ε : Type} {f : α → Except ε (List β)} :
    ∀ {xs : List α} {ys : List β}, xs.flatMapM f = .ok ys →
      ∀ y ∈ ys, ∃ x ∈ xs, ∃ zs, f x = .ok zs ∧ y ∈ zs
  | [], _, h, y, hy => by
    cases h
    exact absurd hy List.not_mem_nil
  | x :: xs, ys, h, y, hy => by
    rw [List.flatMapM_cons] at h
    obtain ⟨zs, hx, h⟩ := except_bind_eq_ok h
    obtain ⟨rest, hxs, h⟩ := except_bind_eq_ok h
    cases h
    rcases List.mem_append.1 hy with hy | hy
    · exact ⟨x, List.mem_cons_self, zs, hx, hy⟩
    · obtain ⟨x', hx', zs', hf, hy'⟩ := exists_of_flatMapM_eq_ok hxs y hy
      exact ⟨x', List.mem_cons_of_mem _ hx', zs', hf, hy'⟩

theorem exists_of_filterMapM_eq_ok {α β ε : Type} {g : α → Except ε (Option β)} :
    ∀ {xs : List α} {ys : List β}, xs.filterMapM g = .ok ys → ∀ y ∈ ys, ∃ x ∈ xs, g x = .ok (some y)
  | [], _, h, y, hy => by
    cases h
    exact absurd hy List.not_mem_nil
  | x :: xs, ys, h, y, hy => by
    rw [List.filterMapM_cons] at h
    obtain ⟨r, hx, h⟩ := except_bind_eq_ok h
    cases r with
    | none =>
      obtain ⟨x', hx', hg⟩ := exists_of_filterMapM_eq_ok h y hy
      exact ⟨x', List.mem_cons_of_mem _ hx', hg⟩
    | some b =>
      obtain ⟨rest, hxs, h⟩ := except_bind_eq_ok h
      cases h
      rcases List.mem_cons.1 hy with rfl | hy
      · exact ⟨x, List.mem_cons_self, hx⟩
      · obtain ⟨x', hx', hg⟩ := exists_of_filterMapM_eq_ok hxs y hy
        exact ⟨x', List.mem_cons_of_mem _ hx', hg⟩

/-- Every value-class file of a descriptor file is a finished draft of its value-class package. -/
theorem Source.beanFiles_finished {c : Source} {bs : List Artifact} (h : c.beanFiles = .ok bs) :
    ∀ a ∈ bs, ∃ (d : Draft) (cls : String), a = d.finish c.plan.voPackage cls c.unit := by
  intro a ha
  unfold Source.beanFiles at h
  cases hd : c.beanDrafts with
  | error e =>
    rw [hd] at h
    cases h
  | ok drafts =>
    rw [hd] at h
    obtain rfl := Except.ok.inj h
    obtain ⟨⟨cls, d⟩, -, rfl⟩ := List.mem_map.1 ha
    exact ⟨d, cls, rfl⟩

/-- The converter of a descriptor file, when it has one, is a finished draft. -/
theorem Source.converterFile_finished {c : Source} {a : Artifact}
    (h : c.converterFile = .ok (some a)) :
    ∃ (d : Draft) (pkg cls : String), a = d.finish pkg cls c.unit := by
  unfold Source.converterFile at h
  dsimp only at h
  split at h
  · cases h
  obtain ⟨d, -, h⟩ := except_bind_eq_ok h
  cases h
  exact ⟨d, _, _, rfl⟩

/-- Every file a request compiles to is a finished draft of one of the files to generate. -/
theorem compileRequest_finished {r : Request} {arts : List Artifact}
    (h : compileRequest r = .ok arts) :
    ∀ a ∈ arts, ∃ s, Session.checked r = .ok s ∧ ∃ k ∈ s.genFiles,
      ∃ (d : Draft) (pkg cls : String), a = d.finish pkg cls (s.graph.file k) := by
  intro a ha
  obtain ⟨s, hs, -⟩ := except_bind_eq_ok h
  have hart := Session.artifacts_of_compileRequest hs h
  unfold Session.artifacts at hart
  obtain ⟨beans, hb, hart⟩ := except_bind_eq_ok hart
  obtain ⟨converters, hc, hart⟩ := except_bind_eq_ok hart
  obtain ⟨u, -, hart⟩ := except_bind_eq_ok hart
  cases hart
  refine ⟨s, hs, ?_⟩
  rcases List.mem_append.1 ha with ha | ha
  · obtain ⟨k, hk, bs, hbs, ha⟩ := exists_of_flatMapM_eq_ok hb a ha
    obtain ⟨d, cls, rfl⟩ := Source.beanFiles_finished hbs a ha
    exact ⟨k, hk, d, _, cls, rfl⟩
  · obtain ⟨k, hk, hconv⟩ := exists_of_filterMapM_eq_ok hc a ha
    obtain ⟨d, pkg, cls, rfl⟩ := Source.converterFile_finished hconv
    exact ⟨k, hk, d, pkg, cls, rfl⟩

/-- A class with a member and a method, written with blank lines around them. -/
def classScript : List WriterOp :=
  [.block "public class A \x7b" "\x7d" [.blank, .line "int a;", .blank,
    .block "void f() \x7b" "\x7d" [.line "return;"], .blank]]

end BeanCodegen.Emit
