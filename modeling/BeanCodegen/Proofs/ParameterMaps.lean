import Mathlib
import BeanCodegen.Proofs.PackageNames
/-! # Reading the parameter text

A parameter text is read as a map: it splits at commas into items, empty items are dropped,
each item splits at its first `=` into a key and a value (empty when there is no `=`), both
trimmed, and a key's value is that of its last item (`lastValue`). Parsing reads nothing else
(`parse_eq`): it is the map put through four checks in order, a value-class package is
given, it is a Java package, the converter package is one, the layout is known, and fails with
the first that fails (`Refused`), or else gives the configuration the map describes
(`Accepted`).
-/

namespace BeanCodegen.Config

open BeanCodegen.Text BeanCodegen.Naming

/-- The value of the last entry with a key: the entries read as a map. -/
def lastValue (entries : List (String × String)) (key : String) : Option String :=
  (entries.reverse.find? (·.1 = key)).map (·.2)

/-- The value-class package a map of parameters names. -/
def voOf (M : String → Option String) : String := normalizePackage ((M "vopkg").getD "")

/-- The converter package a map names: `cvtpkg` when it normalises to a non-empty text, else the
value-class package's `converter` subpackage. -/
def cvtOf (M : String → Option String) : String :=
  if normalizePackage ((M "cvtpkg").getD "") = "" then voOf M ++ ".converter"
  else normalizePackage ((M "cvtpkg").getD "")

/-- Whether a map asks for annotations: `annotate_code` given bare or as `true`. -/
def annotateOf (M : String → Option String) : Bool :=
  decide (M "annotate_code" = some "") || decide (M "annotate_code" = some "true")

/-- The configuration a map of parameters gives, its checks made in order. -/
def fromValues (M : String → Option String) : Except ConfigError Config :=
  if voOf M = "" then .error .missingVoPackage
  else if isJavaPackage (voOf M) = false then .error (.badPackage "vopkg" (voOf M))
  else if isJavaPackage (cvtOf M) = false then .error (.badPackage "cvtpkg" (cvtOf M))
  else (parseLayout (M "layout")).map fun layout =>
    { voPackage := voOf M, converterPackage := cvtOf M, layout, annotateCode := annotateOf M }

/-- A map of parameters that passes every check, with the configuration it gives. -/
def Accepted (M : String → Option String) (cfg : Config) : Prop :=
  voOf M ≠ "" ∧ isJavaPackage (voOf M) = true ∧ isJavaPackage (cvtOf M) = true ∧
    (M "layout" = none ∨ M "layout" = some "type" ∨ M "layout" = some "file") ∧
    cfg = { voPackage := voOf M, converterPackage := cvtOf M,
            layout := if M "layout" = some "file" then .perFile else .perType,
            annotateCode := annotateOf M }

/-- The error of the first check a map of parameters fails. -/
def Refused (M : String → Option String) (e : ConfigError) : Prop :=
  (voOf M = "" ∧ e = .missingVoPackage) ∨
  (voOf M ≠ "" ∧ isJavaPackage (voOf M) = false ∧ e = .badPackage "vopkg" (voOf M)) ∨
  (voOf M ≠ "" ∧ isJavaPackage (voOf M) = true ∧ isJavaPackage (cvtOf M) = false ∧
    e = .badPackage "cvtpkg" (cvtOf M)) ∨
  (voOf M ≠ "" ∧ isJavaPackage (voOf M) = true ∧ isJavaPackage (cvtOf M) = true ∧
    ∃ v, M "layout" = some v ∧ v ≠ "type" ∧ v ≠ "file" ∧ e = .unknownLayout v)

/-! ## Items -/

/-- Pieces split at a separator, joined by it again, give the text back. -/
theorem intercalate_splitChars (sep : Char) :
    ∀ l : List Char, [sep].intercalate (splitChars sep l) = l
  | [] => rfl
  | c :: l => by
    obtain ⟨p, ps, hp⟩ := List.exists_cons_of_ne_nil (splitChars_ne_nil sep l)
    have ih := intercalate_splitChars sep l
    rw [hp] at ih
    simp only [splitChars, hp]
    split
    · rename_i hc
      cases ps with
      | nil => simp_all
      | cons q qs => simp_all [List.intercalate_cons_cons]
    · cases ps with
      | nil => simp_all
      | cons q qs => simp_all [List.intercalate_cons_cons]

theorem intercalate_splitChar (s : String) (sep : Char) :
    (String.singleton sep).intercalate (splitChar s sep) = s := by
  apply String.toList_injective
  rw [String.toList_intercalate, splitChar, List.map_map]
  simp [intercalate_splitChars]

/-- An item is its trimmed text before the first `=` and its trimmed text after it, empty when
there is no `=`. -/
theorem item_eq (s : String) :
    item s = (trimBlank (String.ofList (s.toList.takeWhile (· ≠ '='))),
      trimBlank (String.ofList ((s.toList.dropWhile (· ≠ '=')).drop 1))) := by
  have hsplit := List.takeWhile_append_dropWhile (p := fun c => decide (c ≠ '=')) (l := s.toList)
  have hhead := List.head?_dropWhile_not (fun c => decide (c ≠ '=')) s.toList
  have hkey : '=' ∉ s.toList.takeWhile (· ≠ '=') := fun h => by
    simpa using List.mem_takeWhile_imp h
  generalize s.toList.takeWhile (· ≠ '=') = k at hsplit hkey ⊢
  cases hrest : s.toList.dropWhile (· ≠ '=') with
  | nil =>
    -- no `=`: one piece, the whole item
    rw [hrest, List.append_nil] at hsplit
    have hnone : '=' ∉ s.toList := hsplit ▸ hkey
    simp only [item, splitChar, splitChars_of_not_mem hnone, List.map_cons, List.map_nil,
      String.ofList_toList, hsplit]
    rfl
  | cons d v =>
    -- the first `=` ends the key; the value is the rest, joined at its own `=`s
    rw [hrest] at hsplit hhead
    obtain rfl : d = '=' := by simpa using hhead
    obtain ⟨q, qs, hq⟩ := List.exists_cons_of_ne_nil (splitChars_ne_nil '=' v)
    have hv := intercalate_splitChar (String.ofList v) '='
    rw [splitChar, String.toList_ofList, hq] at hv
    simp only [item, splitChar, ← hsplit, splitChars_append_sep hkey, hq, List.map_cons,
      List.drop_succ_cons, List.drop_zero]
    rw [← hv]
    rfl

/-! ## The last value of a key -/

theorem foldl_valueOf (entries : List (String × String)) (key : String) (acc : Option String) :
    entries.foldl (fun acc (e : String × String) => if e.1 = key then some e.2 else acc) acc =
      (lastValue entries key).or acc := by
  induction entries generalizing acc with
  | nil => rfl
  | cons e es ih =>
    rw [List.foldl_cons, ih]
    simp only [lastValue, List.reverse_cons, List.find?_append, List.find?_cons, List.find?_nil]
    by_cases he : e.1 = key <;> cases es.reverse.find? (·.1 = key) <;> simp [he]

/-- A key's value is that of its last item. -/
theorem valueOf_eq_lastValue (entries : List (String × String)) (key : String) :
    valueOf entries key = lastValue entries key := by
  rw [valueOf, foldl_valueOf, Option.or_none]

/-! ## The checks -/

theorem normalizePackage_empty : normalizePackage "" = "" := by decide

theorem checkPackage_bind {α : Type} (key pkg : String) (f : Unit → Except ConfigError α) :
    (checkPackage key pkg >>= f) =
      if isJavaPackage pkg = false then .error (.badPackage key pkg) else f () := by
  unfold checkPackage
  cases isJavaPackage pkg <;> rfl

theorem bind_pure_eq_map {ε α β : Type} (x : Except ε α) (f g : α → β) (h : ∀ a, f a = g a) :
    (x >>= fun a => pure (f a)) = x.map g := by
  cases x <;> simp [bind, Except.bind, pure, Except.pure, Except.map, h]

/-- Parsing reads the parameter text only as a map. -/
theorem parse_eq (p : String) : parse p = fromValues (lastValue (items p)) := by
  unfold parse fromValues
  simp only [valueOf_eq_lastValue, checkPackage_bind]
  generalize lastValue (items p) = M
  cases hc : M "cvtpkg" <;>
    simp only [Option.map_none, Option.map_some, cvtOf, voOf, hc, Option.getD_none,
      Option.getD_some, normalizePackage_empty, String.isEmpty_iff, if_true]
  all_goals
    split_ifs <;> try rfl
  -- what is left is the layout and the annotation flag
  all_goals
    refine bind_pure_eq_map _ _ _ fun layout => ?_
    congr 1
    unfold annotateOf
    split <;> simp_all

theorem parseLayout_eq_ok_iff {o : Option String} {l : Layout} :
    parseLayout o = .ok l ↔ (o = none ∨ o = some "type" ∨ o = some "file") ∧
      l = if o = some "file" then .perFile else .perType := by
  unfold parseLayout
  split <;> simp_all [pure, Except.pure, throw, throwThe, MonadExceptOf.throw] <;> exact eq_comm

theorem parseLayout_eq_error_iff {o : Option String} {e : ConfigError} :
    parseLayout o = .error e ↔ ∃ v, o = some v ∧ v ≠ "type" ∧ v ≠ "file" ∧ e = .unknownLayout v := by
  unfold parseLayout
  split <;> simp_all [pure, Except.pure, throw, throwThe, MonadExceptOf.throw]
  exact eq_comm

/-- A map passes every check exactly when it is accepted, and gives the configuration it
describes. -/
theorem fromValues_eq_ok_iff {M : String → Option String} {cfg : Config} :
    fromValues M = .ok cfg ↔ Accepted M cfg := by
  unfold fromValues Accepted
  by_cases h1 : voOf M = ""
  · simp [h1]
  by_cases h2 : isJavaPackage (voOf M) = true
  swap
  · simp [h1, h2]
  by_cases h3 : isJavaPackage (cvtOf M) = true
  swap
  · simp [h1, h2, h3]
  rw [if_neg h1, if_neg (by simp [h2]), if_neg (by simp [h3])]
  cases hl : parseLayout (M "layout") with
  | error e =>
    obtain ⟨v, hv, hty, hfi, -⟩ := parseLayout_eq_error_iff.1 hl
    simp [Except.map, hv, hty, hfi]
  | ok l =>
    obtain ⟨hknown, rfl⟩ := parseLayout_eq_ok_iff.1 hl
    simp only [Except.map, Except.ok.injEq]
    exact ⟨fun h => ⟨h1, h2, h3, hknown, h.symm⟩, fun h => h.2.2.2.2.symm⟩

/-- A map fails with the error of the first check it fails. -/
theorem fromValues_eq_error_iff {M : String → Option String} {e : ConfigError} :
    fromValues M = .error e ↔ Refused M e := by
  unfold fromValues Refused
  by_cases h1 : voOf M = ""
  · simp only [h1, if_true, Except.error.injEq, ne_eq, not_true_eq_false, false_and, or_false,
      true_and]
    exact eq_comm
  by_cases h2 : isJavaPackage (voOf M) = true
  swap
  · simp only [h1, h2, if_false, if_true, Except.error.injEq, ne_eq, not_false_eq_true,
      true_and, Bool.false_eq_true, false_and, or_false, false_or]
    exact eq_comm
  by_cases h3 : isJavaPackage (cvtOf M) = true
  swap
  · simp only [h1, h2, h3, if_false, if_true, Except.error.injEq, ne_eq, not_false_eq_true,
      true_and, Bool.true_eq_false, Bool.false_eq_true, false_and, or_false,
      false_or]
    exact eq_comm
  simp only [h1, h2, h3, if_false, Bool.true_eq_false, ne_eq, not_false_eq_true, true_and,
    false_and, false_or]
  cases hl : parseLayout (M "layout") with
  | error e' =>
    simp only [Except.map, Except.error.injEq]
    rw [parseLayout_eq_error_iff] at hl
    obtain ⟨v, hv, hty, hfi, rfl⟩ := hl
    constructor
    · rintro rfl
      exact ⟨v, hv, hty, hfi, rfl⟩
    · rintro ⟨w, hw, -, -, rfl⟩
      rw [hv, Option.some.injEq] at hw
      rw [hw]
  | ok l =>
    obtain ⟨hknown, -⟩ := parseLayout_eq_ok_iff.1 hl
    simp only [Except.map, reduceCtorEq, false_iff, not_exists, not_and]
    intro v hv hty hfi
    rcases hknown with h | h | h <;> rw [h] at hv <;> simp_all

/-- A parameter text is read as a map. Each item splits at its first `=` into a trimmed key and
a trimmed value, empty when there is no `=`; a key's value is that of its last item, and parsing
depends on nothing else. Parsing accepts exactly the maps that pass its four checks, with the
configuration they describe, and fails on any other with the error of the first check that
fails. -/
theorem parse_reads_last_values :
    (∀ s : String, item s = (trimBlank (String.ofList (s.toList.takeWhile (· ≠ '='))),
      trimBlank (String.ofList ((s.toList.dropWhile (· ≠ '=')).drop 1)))) ∧
    (∀ p q : String, (∀ key, lastValue (items p) key = lastValue (items q) key) →
      parse p = parse q) ∧
    (∀ (p : String) (cfg : Config), parse p = .ok cfg ↔ Accepted (lastValue (items p)) cfg) ∧
    ∀ (p : String) (e : ConfigError), parse p = .error e ↔ Refused (lastValue (items p)) e := by
  refine ⟨item_eq, fun p q h => ?_, fun p cfg => ?_, fun p e => ?_⟩
  · rw [parse_eq, parse_eq, funext h]
  · rw [parse_eq, fromValues_eq_ok_iff]
  · rw [parse_eq, fromValues_eq_error_iff]

/-- The last `vopkg` wins: `vopkg=a,vopkg=b` reads as `vopkg=b`. -/
theorem last_vopkg_wins :
    (∀ key, lastValue (items "vopkg=a,vopkg=b") key = lastValue (items "vopkg=b") key) ∧
      parse "vopkg=a,vopkg=b" = parse "vopkg=b" := by
  have hsame : ∀ key, lastValue (items "vopkg=a,vopkg=b") key = lastValue (items "vopkg=b") key := by
    intro key
    have hp : items "vopkg=a,vopkg=b" = [("vopkg", "a"), ("vopkg", "b")] := by rfl
    have hq : items "vopkg=b" = [("vopkg", "b")] := by rfl
    rw [hp, hq]
    by_cases hk : "vopkg" = key <;> simp [lastValue, hk]
  exact ⟨hsame, parse_reads_last_values.2.1 _ _ hsame⟩

end BeanCodegen.Config
