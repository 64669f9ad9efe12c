import Mathlib
import BeanCodegen.Emit.Bean
import BeanCodegen.Proofs.IndexBounds
/-! # Enum classes and their lookup by number

An enum value whose number an earlier value already has is an *alias*: wrapping an enum
records, for each value, the first value with its number when that one comes before it
(`EnumType.AliasesFirst`, `wrapEnum_aliasesFirst`).

The Java enum class of an enum lists a constant per value, each alias behind a note naming the
constant it aliases, and looks constants up by number with a switch that has a case for each
value that is no alias and a default returning the first constant, or `null` when there is
none (`enumPieces`, written exactly so by `Source.enumeration`). As the aliases are the values
whose number came earlier, the cases have distinct numbers, one for each number of the enum,
and each returns the constant of the first value with its number (`Source.EnumLookupSound`).

What a step writes is tracked exactly: `WritesTo m a ps` says that `m` succeeds with `a` and
appends the pieces `ps` to the draft, leaving its imports alone.
-/

namespace BeanCodegen.Emit

open BeanCodegen.Java BeanCodegen.Schema BeanCodegen.Plan

/-- `m` always succeeds with `a`, writing the pieces `ps` in order and leaving the imports
alone. -/
def WritesTo (m : EmitM α) (a : α) (ps : List Piece) : Prop :=
  ∀ d, m.run d = .ok (a, { d with out := ps.reverse ++ d.out })

section WritesTo

variable {m : EmitM α} {a : α} {ps qs : List Piece}

theorem WritesTo.pure (a : α) : WritesTo (Pure.pure a : EmitM α) a [] := fun _ => rfl

theorem WritesTo.bind {f : α → EmitM β} {b : β} (hm : WritesTo m a ps)
    (hf : WritesTo (f a) b qs) : WritesTo (m >>= f) b (ps ++ qs) := by
  intro d
  rw [StateT.run_bind, hm d]
  show (f a).run _ = _
  rw [hf, List.reverse_append, List.append_assoc]

theorem WritesTo.of_eq (h : WritesTo m a ps) (hps : ps = qs) : WritesTo m a qs := hps ▸ h

theorem WritesTo.put (p : Piece) : WritesTo (put p) () [p] := fun _ => rfl

theorem WritesTo.line (t : String) : WritesTo (line t) () [.line t] := WritesTo.put _

theorem WritesTo.blank : WritesTo blank () [.blank] := WritesTo.put _

theorem WritesTo.annotated (path : List Nat) (pre name suf : String) :
    WritesTo (annotated path pre name suf) () [.annotated path pre name suf] := WritesTo.put _

theorem WritesTo.leading (u : File) (path : List Nat) :
    WritesTo (leading u path) () [.comment ((u.commentsAt path).bind (·.leading))] :=
  WritesTo.put _

theorem WritesTo.trailing (u : File) (path : List Nat) :
    WritesTo (trailing u path) () [.comment ((u.commentsAt path).bind (·.trailing))] :=
  WritesTo.put _

/-- Steps run on an empty body give back what they wrote and leave the draft as it was. -/
theorem WritesTo.inside {inner : EmitM Unit} (h : WritesTo inner () ps) :
    WritesTo (inside inner) ps.reverse [] := by
  intro d
  have h₁ := h { d with out := [] }
  simp only [List.append_nil] at h₁
  rw [Emit.inside, StateT.run_bind]
  show (inner >>= fun _ => _).run { d with out := [] } = _
  rw [StateT.run_bind, h₁]
  rfl

theorem WritesTo.body (footer : String) {inner : EmitM Unit} (h : WritesTo inner () ps) :
    WritesTo (body footer inner) () [.body footer ps] := by
  unfold Emit.body
  refine (WritesTo.inside h).bind ?_
  rw [List.reverse_reverse]
  exact WritesTo.put _

theorem WritesTo.block (header footer : String) {inner : EmitM Unit}
    (h : WritesTo inner () ps) :
    WritesTo (block header footer inner) () [.line header, .body footer ps] :=
  (WritesTo.line header).bind (WritesTo.body footer h)

theorem WritesTo.braces (header : String) {inner : EmitM Unit} (h : WritesTo inner () ps) :
    WritesTo (braces header inner) () [.line (header ++ " \x7b"), .body "\x7d" ps] :=
  WritesTo.block _ _ h

theorem WritesTo.declClass (path : Option (List Nat)) (pre name suf : String)
    {inner : EmitM Unit} (h : WritesTo inner () ps) :
    WritesTo (declClass path pre name suf inner) () [.decl path pre name suf ps] := by
  unfold Emit.declClass
  refine (WritesTo.inside h).bind ?_
  rw [List.reverse_reverse]
  exact WritesTo.put _

/-- A line written only when `b` holds, before the rest, as `if b then line t` elaborates in a
`do` block. -/
theorem WritesTo.optLine (b : Bool) (t : String) {k : Unit → EmitM α}
    (hk : WritesTo (k ()) a qs) :
    WritesTo (if b = true then (do let r ← Emit.line t; k r) else k ()) a
      ((if b then [.line t] else []) ++ qs) := by
  cases b
  · exact hk
  · exact (WritesTo.line t).bind hk

/-- A loop whose body goes on after writing `F x` for each element writes these in order. -/
theorem WritesTo.forIn {β : Type} {f : β → PUnit → EmitM (ForInStep PUnit)}
    (F : β → List Piece) :
    ∀ xs : List β, (∀ x ∈ xs, WritesTo (f x ⟨⟩) (.yield ⟨⟩) (F x)) →
      WritesTo (forIn xs ⟨⟩ f) ⟨⟩ (xs.flatMap F)
  | [], _ => by
    rw [List.forIn_nil]
    exact WritesTo.pure _
  | x :: xs, h => by
    rw [List.forIn_cons, List.flatMap_cons]
    exact (h x List.mem_cons_self).bind
      (WritesTo.forIn F xs fun y hy => h y (List.mem_cons_of_mem x hy))

end WritesTo

end BeanCodegen.Emit

namespace BeanCodegen.Schema

/-! ## Aliases -/

/-- Position `j` of `values` holds the first value with number `n`. -/
def FirstWithNumber (values : List EnumValue) (n : Int) (j : Nat) : Prop :=
  values[j]?.map (·.number) = some n ∧ ∀ i < j, values[i]?.map (·.number) ≠ some n

/-- Each value of an enum records as its alias the first value with its number when that one
comes before it, and no alias when it is that first value itself. -/
def EnumType.AliasesFirst (e : EnumType) : Prop :=
  ∀ j v, e.values[j]? = some v →
    (∀ a, v.aliasOf = some a ↔ a < j ∧ FirstWithNumber e.values v.number a) ∧
      (v.aliasOf = none ↔ FirstWithNumber e.values v.number j)

theorem FirstWithNumber.lt_length {values : List EnumValue} {n : Int} {j : Nat}
    (h : FirstWithNumber values n j) : j < values.length := by
  obtain ⟨v, hv, -⟩ := Option.map_eq_some_iff.1 h.1
  exact (List.getElem?_eq_some_iff.1 hv).1

/-- A number some value has is first had at some position. -/
theorem exists_firstWithNumber {values : List EnumValue} {n : Int}
    (h : ∃ v ∈ values, v.number = n) : ∃ j, FirstWithNumber values n j := by
  obtain ⟨j, hj⟩ : ∃ j, values.findIdx? (·.number = n) = some j :=
    ⟨_, List.findIdx?_eq_some_of_exists (by simpa using h)⟩
  obtain ⟨hlt, hp, hmin⟩ := List.findIdx?_eq_some_iff_getElem.1 hj
  refine ⟨j, by simpa [List.getElem?_eq_getElem hlt] using hp, fun i hi heq => hmin i hi ?_⟩
  simpa [List.getElem?_eq_getElem (Nat.lt_trans hi hlt)] using heq

theorem number_wrapValues (vs : List Descriptor.EnumValueProto) (path : List Nat) (i : Nat) :
    (wrapValues vs path)[i]?.map (·.number) = vs[i]?.map (·.number.getD 0) := by
  simp only [wrapValues, List.getElem?_map, List.getElem?_zipIdx, Option.map_map]
  rfl

theorem aliasOf_wrapValues {vs : List Descriptor.EnumValueProto} {path : List Nat} {j : Nat}
    {v : EnumValue} (h : (wrapValues vs path)[j]? = some v) :
    v.aliasOf = (vs.take j).findIdx? (·.number.getD 0 = v.number) := by
  simp only [wrapValues, List.getElem?_map, List.getElem?_zipIdx, Option.map_map,
    Nat.zero_add] at h
  obtain ⟨r, -, rfl⟩ := Option.map_eq_some_iff.1 h
  rfl

/-- Wrapping records as alias of each value the first earlier value with its number. -/
theorem wrapValues_aliasesFirst (vs : List Descriptor.EnumValueProto) (path : List Nat)
    (j : Nat) (v : EnumValue) (h : (wrapValues vs path)[j]? = some v) :
    (∀ a, v.aliasOf = some a ↔ a < j ∧ FirstWithNumber (wrapValues vs path) v.number a) ∧
      (v.aliasOf = none ↔ FirstWithNumber (wrapValues vs path) v.number j) := by
  have hnum := number_wrapValues vs path
  have hj : (wrapValues vs path)[j]?.map (·.number) = some v.number := by simp [h]
  have hjlen : j < vs.length := by
    have := (List.getElem?_eq_some_iff.1 h).1
    simpa [wrapValues] using this
  -- before `j`, a value carries the number exactly when the descriptor's prefix does
  have hpre : ∀ b < j, (wrapValues vs path)[b]?.map (·.number) = some v.number ↔
      ∃ hb : b < (vs.take j).length, (vs.take j)[b].number.getD 0 = v.number := by
    intro b hb
    rw [hnum, List.getElem?_eq_getElem (by omega : b < vs.length)]
    simp [List.getElem_take, show b < vs.length by omega, show b < j from hb]
  rw [aliasOf_wrapValues h]
  constructor
  · intro a
    rw [List.findIdx?_eq_some_iff_getElem]
    simp only [decide_eq_true_eq]
    constructor
    · rintro ⟨ha, hp, hmin⟩
      have haj : a < j := by simp at ha; omega
      refine ⟨haj, (hpre a haj).2 ⟨ha, hp⟩, fun b hb heq => ?_⟩
      obtain ⟨hb', hpb⟩ := (hpre b (by omega)).1 heq
      exact hmin b hb hpb
    · rintro ⟨haj, hfirst, hmin⟩
      obtain ⟨ha, hp⟩ := (hpre a haj).1 hfirst
      exact ⟨ha, hp, fun b hb hpb => hmin b hb ((hpre b (by omega)).2 ⟨_, hpb⟩)⟩
  · rw [List.findIdx?_eq_none_iff]
    simp only [decide_eq_false_iff_not]
    constructor
    · intro hall
      refine ⟨hj, fun b hb heq => ?_⟩
      obtain ⟨hb', hpb⟩ := (hpre b hb).1 heq
      exact hall _ (List.getElem_mem hb') hpb
    · rintro ⟨-, hmin⟩ x hx hpx
      obtain ⟨b, hb, rfl⟩ := List.mem_iff_getElem.1 hx
      have hbj : b < j := by simp at hb; omega
      exact hmin b hbj ((hpre b hbj).2 ⟨hb, hpx⟩)

theorem wrapEnum_aliasesFirst (raw : Descriptor.EnumProto) (pkg : String)
    (parent : Option (Nat × List String)) (i : Nat) (path : List Nat) :
    (wrapEnum raw pkg parent i path).AliasesFirst :=
  wrapValues_aliasesFirst raw.value path

theorem Arena.aliasesFirst {raw : Descriptor.FileProto} {u : File} (h : Arena raw u) :
    ∀ e ∈ u.enums, e.AliasesFirst := by
  intro e he
  rw [h.enums_order] at he
  simp only [arenaEnums, FlatMessage.enums, List.mem_append, List.mem_map, List.mem_flatMap] at he
  rcases he with ⟨r, -, rfl⟩ | ⟨x, -, r, -, rfl⟩
  · exact wrapEnum_aliasesFirst _ _ _ _ _
  · exact wrapEnum_aliasesFirst _ _ _ _ _

end BeanCodegen.Schema

namespace BeanCodegen.Emit

open BeanCodegen.Java BeanCodegen.Schema BeanCodegen.Plan

/-! ## The enum class -/

/-- The note above an alias, naming the constant of the first value with its number. -/
def aliasNote (number : Int) (first : String) : String :=
  "// Duplicate value: " ++ toString number ++ ", alias of " ++ first

/-- The note above a value, for an alias only. -/
def valueNote (constants : List String) (v : EnumValue) : Option String :=
  v.aliasOf.map fun first => aliasNote v.number (constants[first]?.getD "")

/-- What an enum class writes for value `v`, at position `j` of `count` and with constant `k`. -/
def valuePieces (u : File) (constants : List String) (count : Nat) (v : EnumValue) (k : String)
    (j : Nat) : List Piece :=
  .comment ((u.commentsAt v.path).bind (·.leading)) ::
    ((valueNote constants v).map Piece.line).toList ++
      (if v.deprecated then [.line "@Deprecated"] else []) ++
      [.annotated v.path "" k ("(" ++ toString v.number ++ ")" ++ if j + 1 = count then ";" else ","),
        .comment ((u.commentsAt v.path).bind (·.trailing))]

/-- The cases of the lookup by number: the number and constant of each value that is no
alias, in order. -/
def lookupCases (values : List EnumValue) (constants : List String) : List (Int × String) :=
  ((values.zip constants).filter fun p => p.1.aliasOf.isNone).map fun p => (p.1.number, p.2)

/-- What the lookup by number returns for a number no case has. -/
def lookupFallback (constants : List String) : String :=
  constants.head?.getD "null"

/-- The lookup by number of an enum class: a switch over its cases with a default. -/
def forNumberPieces (cls : String) (cases : List (Int × String)) (fallback : String) :
    List Piece :=
  [.line ("public static " ++ cls ++ " forNumber(int number)" ++ " \x7b"),
    .body "\x7d" [.line ("switch (number)" ++ " \x7b"),
      .body "\x7d" (cases.map (fun p => Piece.line ("case " ++ toString p.1 ++ ": return " ++
        p.2 ++ ";")) ++ [.line ("default: return " ++ fallback ++ ";")])]]

/-- The enum class of an enum, with the constants of its plan. -/
def enumPieces (u : File) (e : EnumType) (ep : EnumPlan) : List Piece :=
  .comment ((u.commentsAt e.path).bind (·.leading)) ::
    ((if e.deprecated then [.line "@Deprecated"] else []) ++
      [.decl (some e.path) "public enum " ep.className " \x7b"
        (.comment ((u.commentsAt e.path).bind (·.trailing)) ::
          ((if e.values.isEmpty then [.line ";"] else []) ++
            ((e.values.zip ep.constants).zipIdx.flatMap fun x =>
              valuePieces u ep.constants e.values.length x.1.1 x.1.2 x.2) ++
            [.blank, .line "private final int number;", .blank,
              .line (ep.className ++ "(int number)" ++ " \x7b"),
              .body "\x7d" [.line "this.number = number;"], .blank,
              .line ("public int getNumber()" ++ " \x7b"), .body "\x7d" [.line "return number;"],
              .blank] ++
            forNumberPieces ep.className (lookupCases e.values ep.constants)
              (lookupFallback ep.constants)))])

theorem flatMap_ite_singleton {β γ : Type} (p : β → Bool) (f : β → γ) (xs : List β) :
    (xs.flatMap fun x => if p x then [f x] else []) = (xs.filter p).map f := by
  induction xs with
  | nil => rfl
  | cons x xs ih => by_cases hx : p x <;> simp [hx, ih]

/-- The enum class is written exactly as `enumPieces` lays it out. -/
theorem writes_enumeration (c : Source) (i : Nat) :
    WritesTo (c.enumeration i) () (enumPieces c.unit (c.enumType i) (c.enumPlan i)) := by
  unfold Source.enumeration
  dsimp only
  apply WritesTo.of_eq
  · apply (WritesTo.leading _ _).bind
    apply WritesTo.optLine
    apply WritesTo.declClass
    apply (WritesTo.trailing _ _).bind
    apply WritesTo.optLine
    apply (WritesTo.forIn (fun x => valuePieces c.unit (c.enumPlan i).constants
      (c.enumType i).values.length x.1.1 x.1.2 x.2) _ fun x _ => ?_).bind
    · apply WritesTo.blank.bind
      apply (WritesTo.line _).bind
      apply WritesTo.blank.bind
      apply (WritesTo.braces _ (WritesTo.line _)).bind
      apply WritesTo.blank.bind
      apply (WritesTo.braces _ (WritesTo.line _)).bind
      apply WritesTo.blank.bind
      apply WritesTo.braces
      apply WritesTo.braces
      apply (WritesTo.forIn (fun p => if p.1.aliasOf.isNone then
        [Piece.line ("case " ++ toString p.1.number ++ ": return " ++ p.2 ++ ";")] else []) _
          fun p _ => ?_).bind (WritesTo.line _)
      -- a case for each value that is no alias
      by_cases hp : p.1.aliasOf.isNone = true
      · rw [if_pos hp, if_pos hp]
        exact (WritesTo.line _).bind (WritesTo.pure _)
      · rw [if_neg hp, if_neg hp]
        exact WritesTo.pure _
    · -- one value: its note only for an alias
      apply (WritesTo.leading _ _).bind
      split
      next first h =>
        apply WritesTo.of_eq
        · apply (WritesTo.line _).bind
          apply WritesTo.optLine
          apply (WritesTo.annotated _ _ _ _).bind
          apply (WritesTo.trailing _ _).bind
          exact WritesTo.pure _
        · simp only [valueNote, h, Option.map_some, Option.toList_some, List.append_eq,
            List.append_nil, List.append_assoc]
          unfold aliasNote
          rfl
      next h =>
        apply WritesTo.of_eq
        · apply WritesTo.optLine
          apply (WritesTo.annotated _ _ _ _).bind
          apply (WritesTo.trailing _ _).bind
          exact WritesTo.pure _
        · cases ha : x.1.1.aliasOf with
          | none => simp [valueNote, ha]
          | some first => exact absurd ha (h first)
  · rw [flatMap_ite_singleton]
    simp [enumPieces, forNumberPieces, lookupCases, lookupFallback, Function.comp_def]

/-! ## The lookup by number -/

/-- What makes the lookup by number of an enum class right: a case for each number the values
have and none twice, each case returning the constant of the first value with its number; a
note on each alias naming that constant; and a default returning the first constant, or `null`
when there is none. -/
structure LookupSound (values : List EnumValue) (constants : List String) : Prop where
  cases_nodup : ((lookupCases values constants).map Prod.fst).Nodup
  mem_cases : ∀ n k, (n, k) ∈ lookupCases values constants ↔
    ∃ j, FirstWithNumber values n j ∧ constants[j]? = some k
  case_numbers : ∀ n, n ∈ (lookupCases values constants).map Prod.fst ↔
    ∃ v ∈ values, v.number = n
  notes : ∀ j v, values[j]? = some v → ∀ note, valueNote constants v = some note ↔
    ∃ a k, a < j ∧ FirstWithNumber values v.number a ∧ constants[a]? = some k ∧
      note = aliasNote v.number k
  fallback_empty : values = [] → lookupFallback constants = "null"
  fallback_first : values ≠ [] → ∃ k, constants[0]? = some k ∧ lookupFallback constants = k

section Lookup

variable {e : EnumType} {ks : List String}

theorem mem_zip_iff_getElem? {α β : Type} {xs : List α} {ys : List β} {p : α × β} :
    p ∈ xs.zip ys ↔ ∃ j : Nat, xs[j]? = some p.1 ∧ ys[j]? = some p.2 := by
  simp only [List.mem_iff_getElem?, List.getElem?_zip_eq_some]

/-- The cases are the numbers first had at some position, with the constant there. -/
theorem mem_lookupCases (he : e.AliasesFirst) (n : Int) (k : String) :
    (n, k) ∈ lookupCases e.values ks ↔ ∃ j, FirstWithNumber e.values n j ∧ ks[j]? = some k := by
  simp only [lookupCases, List.mem_map, List.mem_filter, mem_zip_iff_getElem?,
    Option.isNone_iff_eq_none]
  constructor
  · rintro ⟨⟨v, k'⟩, ⟨⟨j, hv, hk⟩, hnone⟩, heq⟩
    cases heq
    exact ⟨j, ((he j v hv).2).1 hnone, hk⟩
  · rintro ⟨j, hfirst, hk⟩
    obtain ⟨v, hv, hnum⟩ := Option.map_eq_some_iff.1 hfirst.1
    subst hnum
    exact ⟨(v, k), ⟨⟨j, hv, hk⟩, ((he j v hv).2).2 hfirst⟩, rfl⟩

/-- No two cases have one number: both would be the first value with it. -/
theorem nodup_lookupCases (he : e.AliasesFirst) :
    ((lookupCases e.values ks).map Prod.fst).Nodup := by
  rw [lookupCases, List.map_map, List.Nodup, List.pairwise_map, List.pairwise_filter,
    List.pairwise_iff_getElem]
  intro a b ha hb hab hna hnb heq
  simp only [Function.comp_apply, List.getElem_zip] at hna hnb heq
  have hal : a < e.values.length := by simp at ha; omega
  have hbl : b < e.values.length := by simp at hb; omega
  have hbv : e.values[b]? = some e.values[b] := List.getElem?_eq_getElem hbl
  have hav : e.values[a]?.map (·.number) = some e.values[b].number := by
    rw [List.getElem?_eq_getElem hal]
    exact congrArg some heq
  have hfirst := ((he b _ hbv).2).1 (Option.isNone_iff_eq_none.1 hnb)
  exact hfirst.2 a hab hav

variable (hlen : ks.length = e.values.length)
include hlen

/-- Every number the values have has a case. -/
theorem mem_lookupCases_numbers (he : e.AliasesFirst) (n : Int) :
    n ∈ (lookupCases e.values ks).map Prod.fst ↔ ∃ v ∈ e.values, v.number = n := by
  constructor
  · rintro hn
    obtain ⟨⟨n', k⟩, hmem, rfl⟩ := List.mem_map.1 hn
    obtain ⟨j, hfirst, -⟩ := (mem_lookupCases he n' k).1 hmem
    obtain ⟨v, hv, hnum⟩ := Option.map_eq_some_iff.1 hfirst.1
    exact ⟨v, List.mem_of_getElem? hv, hnum⟩
  · rintro hv
    obtain ⟨j, hfirst⟩ := exists_firstWithNumber hv
    have hj : j < ks.length := hlen ▸ hfirst.lt_length
    apply List.mem_map.2
    exact ⟨(n, ks[j]), (mem_lookupCases he n _).2 ⟨j, hfirst, List.getElem?_eq_getElem hj⟩, rfl⟩

/-- Exactly the aliases carry a note, naming the constant of the first value with their
number. -/
theorem valueNote_eq_some (he : e.AliasesFirst) {j : Nat} {v : EnumValue}
    (hv : e.values[j]? = some v) (note : String) :
    valueNote ks v = some note ↔ ∃ a k, a < j ∧ FirstWithNumber e.values v.number a ∧
      ks[a]? = some k ∧ note = aliasNote v.number k := by
  have hj : j < ks.length := hlen ▸ (List.getElem?_eq_some_iff.1 hv).1
  simp only [valueNote, Option.map_eq_some_iff]
  constructor
  · rintro ⟨a, ha, rfl⟩
    obtain ⟨haj, hfirst⟩ := ((he j v hv).1 a).1 ha
    have hk : ks[a]? = some ks[a] := List.getElem?_eq_getElem (by omega)
    exact ⟨a, ks[a], haj, hfirst, hk, by rw [hk, Option.getD_some]⟩
  · rintro ⟨a, k, haj, hfirst, hk, rfl⟩
    exact ⟨a, ((he j v hv).1 a).2 ⟨haj, hfirst⟩, by rw [hk, Option.getD_some]⟩

theorem lookupFallback_first (hne : e.values ≠ []) :
    ∃ k, ks[0]? = some k ∧ lookupFallback ks = k := by
  cases ks with
  | nil => exact absurd (List.length_eq_zero_iff.1 hlen.symm) hne
  | cons k ks => exact ⟨k, rfl, rfl⟩

/-- Aliases that name the first value with their number, and a constant per value, make the
lookup by number right. -/
theorem lookupSound_of_aliasesFirst (he : e.AliasesFirst) : LookupSound e.values ks where
  cases_nodup := nodup_lookupCases he
  mem_cases := mem_lookupCases he
  case_numbers := mem_lookupCases_numbers hlen he
  notes _ _ hv := valueNote_eq_some hlen he hv
  fallback_empty hnil := by
    rw [hnil, List.length_nil, List.length_eq_zero_iff] at hlen
    rw [hlen]
    rfl
  fallback_first := lookupFallback_first hlen

end Lookup

/-- Wrapping makes each alias of an enum name the first value with its number, and the enum
class of an enum with such aliases and a constant per value looks values up by number right. -/
theorem enumeration_lookup_sound :
    (∀ (raw : Descriptor.EnumProto) (pkg : String) (parent : Option (Nat × List String))
        (idx : Nat) (path : List Nat), (wrapEnum raw pkg parent idx path).AliasesFirst) ∧
      ∀ (c : Source) (i : Nat), (c.enumType i).AliasesFirst →
        (c.enumPlan i).constants.length = (c.enumType i).values.length →
          WritesTo (c.enumeration i) () (enumPieces c.unit (c.enumType i) (c.enumPlan i)) ∧
            LookupSound (c.enumType i).values (c.enumPlan i).constants :=
  ⟨wrapEnum_aliasesFirst, fun c i he hlen =>
    ⟨writes_enumeration c i, lookupSound_of_aliasesFirst hlen he⟩⟩

/-- An enum whose numbers repeat interleaved: `A = 1, B = 2, C = 1, D = 2, E = 1`. -/
def interleavedEnum : Descriptor.EnumProto :=
  { name := some "Kind"
    value := [("A", 1), ("B", 2), ("C", 1), ("D", 2), ("E", 1)].map fun p =>
      { name := some p.1, number := some p.2 } }

/-- A file holding only `interleavedEnum`, planned with a constant per value. -/
def interleavedSource : Source where
  session :=
    { config := default
      graph := ⟨[{ (default : File) with enums := [wrapEnum interleavedEnum "p" none 0 [5, 0]] }]⟩
      genFiles := [0]
      index := default
      alloc := ⟨[{ (default : FilePlan) with
        enums := [{ className := "Kind", constants := ["A", "B", "C", "D", "E"] }] }]⟩ }
  file := 0

theorem interleavedSource_lookupSound :
    WritesTo (interleavedSource.enumeration 0) ()
        (enumPieces interleavedSource.unit (interleavedSource.enumType 0)
          (interleavedSource.enumPlan 0)) ∧
      LookupSound (interleavedSource.enumType 0).values (interleavedSource.enumPlan 0).constants :=
  enumeration_lookup_sound.2 interleavedSource 0
    (enumeration_lookup_sound.1 interleavedEnum "p" none 0 [5, 0]) rfl

example : lookupCases (interleavedSource.enumType 0).values (interleavedSource.enumPlan 0).constants =
    [(1, "A"), (2, "B")] := by decide

example : ((interleavedSource.enumType 0).values.map (valueNote ["A", "B", "C", "D", "E"])) =
    [none, none, some "// Duplicate value: 1, alias of A", some "// Duplicate value: 2, alias of B",
      some "// Duplicate value: 1, alias of A"] := by decide

end BeanCodegen.Emit

namespace BeanCodegen

open BeanCodegen.Schema BeanCodegen.Plan BeanCodegen.Emit

/-- In a checked session the enum class of every enum of a file looks values up by number
right. -/
theorem Session.checked_lookupSound {r : Descriptor.Request} {s : Session} (hs : Session.checked r = .ok s)
    {f : Nat} (hf : f < s.graph.files.length) (i : Nat) :
    LookupSound ((Source.mk s f).enumType i).values ((Source.mk s f).enumPlan i).constants := by
  obtain ⟨hg, -, -, -, -⟩ := Session.checked_parts hs
  obtain ⟨raw, harena, -⟩ := Graph.build_file_arena hg hf
  obtain ⟨-, -, sn, hp⟩ := Session.checked_plan hs hf
  have hplan : (Source.mk s f).enumPlan i =
      (((planFile s.config (s.graph.file f)).run sn).1.enums[i]?).getD default := by
    simp only [Source.enumPlan, Source.plan, hp]
  cases he : (s.graph.file f).enums[i]? with
  | none =>
    -- no enum at `i`: neither the enum nor its plan has anything in it
    have hnone : ((planFile s.config (s.graph.file f)).run sn).1.enums[i]? = none := by
      rw [List.getElem?_eq_none_iff, length_planFile_enums]
      exact List.getElem?_eq_none_iff.1 he
    have hvalues : ((Source.mk s f).enumType i).values = [] := by
      simp only [Source.enumType, Source.unit, he, Option.getD_none]
      rfl
    apply lookupSound_of_aliasesFirst
    · rw [hplan, hnone, hvalues]
      rfl
    · intro j v hv
      rw [hvalues] at hv
      cases hv
  | some en =>
    have hen : (Source.mk s f).enumType i = en := by
      simp only [Source.enumType, Source.unit, he, Option.getD_some]
    apply lookupSound_of_aliasesFirst
    · rw [hplan, hen]
      exact planFile_enumConstants _ _ _ he
    · rw [hen]
      exact harena.aliasesFirst en (List.mem_of_getElem? he)

end BeanCodegen
