import Mathlib
import BeanCodegen.Compile
import BeanCodegen.Proofs.Arena
/-! # Failures after the reference check

The reference check resolves the type name and the extendee of every field of the graph it
checks (`Graph.checkedFields`): the fields and extensions of every message and the extensions
of every file. Every later resolution is of such a field: classifying a field resolves its
value type and its extendee, and a map field resolves the value type of its entry's value
field, a field of the entry message. So classifying a checked field fails only for a map entry
without key or value, or for an enum default naming no value (`classify_errorsIn`).

The errors a computation can end with are followed by `ErrorsIn`, with a rule per way the
stages compose their steps.
-/

namespace BeanCodegen

open BeanCodegen.Schema BeanCodegen.Shape BeanCodegen.Plan BeanCodegen.Java BeanCodegen.Emit
  BeanCodegen.Descriptor

/-- The errors that remain possible once the type references of a request resolve. -/
def GenError.IsLate : GenError → Prop
  | .unnamedJavaPackage _ | .unknownEnumDefault _ _ | .malformedMapEntry _
  | .malformedOutput _ _ => True
  | _ => False

/-! ## Errors of computations that may fail -/

/-- Every error `x` can end with satisfies `P`. -/
def ErrorsIn (P : GenError → Prop) (x : Except GenError α) : Prop := ∀ e, x = .error e → P e

section ErrorsIn

variable {P : GenError → Prop} {α β : Type}

theorem ErrorsIn.pure (a : α) : ErrorsIn P (Pure.pure a) := fun _ h => nomatch h

theorem ErrorsIn.ok (a : α) : ErrorsIn P (.ok a) := fun _ h => nomatch h

theorem ErrorsIn.error {e : GenError} (he : P e) : ErrorsIn P (.error e : Except GenError α) :=
  fun _ h => by cases h; exact he

theorem ErrorsIn.throw {e : GenError} (he : P e) : ErrorsIn P (throw e : Except GenError α) :=
  ErrorsIn.error he

theorem ErrorsIn.bind {x : Except GenError α} {f : α → Except GenError β} (hx : ErrorsIn P x)
    (hf : ∀ a, x = .ok a → ErrorsIn P (f a)) : ErrorsIn P (x >>= f) := by
  intro e h
  cases hx' : x with
  | error e' =>
    rw [hx'] at h
    cases h
    exact hx _ hx'
  | ok a =>
    rw [hx'] at h
    exact hf a hx' e h

theorem ErrorsIn.map {x : Except GenError α} (f : α → β) (hx : ErrorsIn P x) :
    ErrorsIn P (f <$> x) := by
  intro e h
  cases hx' : x with
  | error e' =>
    rw [hx'] at h
    cases h
    exact hx _ hx'
  | ok a =>
    rw [hx'] at h
    cases h

theorem ErrorsIn.mapM {f : α → Except GenError β} :
    ∀ {l : List α}, (∀ a ∈ l, ErrorsIn P (f a)) → ErrorsIn P (l.mapM f)
  | [], _ => ErrorsIn.pure _
  | a :: l, h => by
    rw [List.mapM_cons]
    exact (h a List.mem_cons_self).bind fun _ _ =>
      (ErrorsIn.mapM fun b hb => h b (List.mem_cons_of_mem a hb)).bind fun _ _ => ErrorsIn.pure _

theorem ErrorsIn.filterMapM {f : α → Except GenError (Option β)} :
    ∀ {l : List α}, (∀ a ∈ l, ErrorsIn P (f a)) → ErrorsIn P (l.filterMapM f)
  | [], _ => ErrorsIn.pure _
  | a :: l, h => by
    rw [List.filterMapM_cons]
    have hl : ErrorsIn P (l.filterMapM f) :=
      ErrorsIn.filterMapM fun b hb => h b (List.mem_cons_of_mem a hb)
    refine (h a List.mem_cons_self).bind fun r _ => ?_
    cases r with
    | none => exact hl
    | some b => exact hl.bind fun _ _ => ErrorsIn.pure _

theorem ErrorsIn.flatMapM {f : α → Except GenError (List β)} :
    ∀ {l : List α}, (∀ a ∈ l, ErrorsIn P (f a)) → ErrorsIn P (l.flatMapM f)
  | [], _ => ErrorsIn.pure _
  | a :: l, h => by
    rw [List.flatMapM_cons]
    exact (h a List.mem_cons_self).bind fun _ _ =>
      (ErrorsIn.flatMapM fun b hb => h b (List.mem_cons_of_mem a hb)).bind fun _ _ =>
        ErrorsIn.pure _

theorem ErrorsIn.forM {f : α → Except GenError Unit} :
    ∀ {l : List α}, (∀ a ∈ l, ErrorsIn P (f a)) → ErrorsIn P (l.forM f)
  | [], _ => ErrorsIn.pure _
  | a :: l, h => by
    show ErrorsIn P (f a >>= fun _ => l.forM f)
    exact (h a List.mem_cons_self).bind fun _ _ =>
      ErrorsIn.forM fun b hb => h b (List.mem_cons_of_mem a hb)

end ErrorsIn

/-! ## Fields whose references the check resolves -/

namespace Schema

/-- The fields whose type names and extendees the reference check resolves: the fields and
extensions of every message and the extensions of every file. -/
def Graph.checkedFields (g : Graph) : List Field :=
  g.files.flatMap fun u => (u.messages.flatMap fun m => m.fields ++ m.extensions) ++ u.extensions

/-- Every field of the graph resolves as its type needs: its type name names a message or an
enum as its field type says, and its extendee names a message. -/
def TypeIndex.Resolves (idx : TypeIndex) (g : Graph) : Prop :=
  ∀ f ∈ g.checkedFields, idx.checkField f = .ok ()

theorem getD_mem_or_default {α : Type} [Inhabited α] (l : List α) (i : Nat) :
    l[i]?.getD default ∈ l ∨ l[i]?.getD default = default := by
  cases h : l[i]? with
  | none => exact Or.inr rfl
  | some a => exact Or.inl (List.mem_of_getElem? h)

/-- A field or extension of a message of a file, the file looked up by index, is checked: an
index out of range gives the default file, which has no message. -/
theorem Graph.mem_checkedFields_of_mem {g : Graph} {k : Nat} {m : Message} {f : Field}
    (hm : m ∈ (g.file k).messages) (hf : f ∈ m.fields ++ m.extensions) :
    f ∈ g.checkedFields := by
  rcases getD_mem_or_default g.files k with hu | hu
  · exact List.mem_flatMap.2 ⟨_, hu, List.mem_append_left _ (List.mem_flatMap.2 ⟨_, hm, hf⟩)⟩
  · have hk : g.file k = default := hu
    rw [hk] at hm
    cases hm

/-- A field or extension of a message of a file, looked up by indices, is checked: an index out
of range gives the default message, which has none. -/
theorem Graph.mem_checkedFields_of_message {g : Graph} {k i : Nat} {f : Field}
    (hf : f ∈ ((g.file k).messages[i]?.getD default).fields ++
      ((g.file k).messages[i]?.getD default).extensions) : f ∈ g.checkedFields := by
  rcases getD_mem_or_default (g.file k).messages i with hm | hm
  · exact Graph.mem_checkedFields_of_mem hm hf
  · rw [hm] at hf
    cases hf

/-- An extension of a file, looked up by index, is checked. -/
theorem Graph.mem_checkedFields_of_file {g : Graph} {k : Nat} {f : Field}
    (hf : f ∈ (g.file k).extensions) : f ∈ g.checkedFields := by
  rcases getD_mem_or_default g.files k with hu | hu
  · exact List.mem_flatMap.2 ⟨_, hu, List.mem_append_right _ hf⟩
  · have hk : g.file k = default := hu
    rw [hk] at hf
    cases hf

theorem forM_eq_ok {α ε : Type} {f : α → Except ε Unit} :
    ∀ {l : List α}, l.forM f = .ok () → ∀ a ∈ l, f a = .ok ()
  | [], _, _, ha => nomatch ha
  | b :: l, h, a, ha => by
    obtain ⟨u, hb, hl⟩ := except_bind_eq_ok (show (f b >>= fun _ => l.forM f) = .ok () from h)
    rcases List.mem_cons.1 ha with rfl | ha
    · exact hb
    · exact forM_eq_ok hl a ha

theorem mapError_eq_ok {ε ε' α : Type} {x : Except ε α} {f : ε → ε'} {a : α}
    (h : x.mapError f = .ok a) : x = .ok a := by
  cases x with
  | error e => cases h
  | ok b =>
    cases h
    rfl

theorem TypeIndex.resolves_of_checkReferences {idx : TypeIndex} {g : Graph}
    (h : idx.checkReferences g = .ok ()) : idx.Resolves g := by
  intro f hf
  obtain ⟨u, hu, hfu⟩ := List.mem_flatMap.1 hf
  exact forM_eq_ok (forM_eq_ok h u hu) f hfu

theorem discard_eq_ok {ε α : Type} {x : Except ε α} {u : Unit} (h : discard x = .ok u) :
    ∃ a, x = .ok a := by
  cases x with
  | error e => cases h
  | ok a => exact ⟨a, rfl⟩

/-- A checked field resolves its type name as its field type says and its extendee as a
message. -/
theorem TypeIndex.checkField_eq_ok {idx : TypeIndex} {f : Field} (h : idx.checkField f = .ok ()) :
    (f.fieldType.isMessage → ∃ id, idx.resolveMessage f.typeName = .ok id) ∧
    (f.fieldType.isMessage = false → f.fieldType.isNamed →
      ∃ id, idx.resolveEnum f.typeName = .ok id) ∧
    ∀ e, f.extendee = some e → ∃ id, idx.resolveMessage e = .ok id := by
  unfold TypeIndex.checkField at h
  simp only at h
  -- every branch of the type check goes on to the extendee
  have hext : ∀ e, f.extendee = some e → ∃ id, idx.resolveMessage e = .ok id := by
    intro e he
    simp only [he] at h
    split at h
    · obtain ⟨_, -, hrest⟩ := except_bind_eq_ok h
      exact discard_eq_ok hrest
    · split at h
      · obtain ⟨_, -, hrest⟩ := except_bind_eq_ok h
        exact discard_eq_ok hrest
      · exact discard_eq_ok h
  refine ⟨fun hm => ?_, fun hm hn => ?_, hext⟩
  · rw [if_pos hm] at h
    obtain ⟨_, hty, -⟩ := except_bind_eq_ok h
    exact discard_eq_ok hty
  · rw [if_neg (by simp [hm]), if_pos hn] at h
    obtain ⟨_, hty, -⟩ := except_bind_eq_ok h
    exact discard_eq_ok hty

theorem TypeIndex.resolve_of_resolveMessage {idx : TypeIndex} {name : String} {id : MessageId}
    (h : idx.resolveMessage name = .ok id) : idx.resolve name = .ok (.message id) := by
  unfold TypeIndex.resolveMessage at h
  obtain ⟨t, ht, h⟩ := except_bind_eq_ok h
  cases t with
  | message id' =>
    cases h
    exact ht
  | enum _ => cases h

theorem TypeIndex.resolve_of_resolveEnum {idx : TypeIndex} {name : String} {id : EnumId}
    (h : idx.resolveEnum name = .ok id) : idx.resolve name = .ok (.enum id) := by
  unfold TypeIndex.resolveEnum at h
  obtain ⟨t, ht, h⟩ := except_bind_eq_ok h
  cases t with
  | enum id' =>
    cases h
    exact ht
  | message _ => cases h

/-- A checked field's type name resolves to the kind its field type asks for, and its
extendee to a message. -/
theorem TypeIndex.resolve_of_checkField {idx : TypeIndex} {f : Field}
    (h : idx.checkField f = .ok ()) :
    (f.fieldType.isMessage → ∃ id, idx.resolve f.typeName = .ok (.message id)) ∧
    (f.fieldType.isMessage = false → f.fieldType.isNamed →
      ∃ id, idx.resolve f.typeName = .ok (.enum id)) ∧
    ∀ e, f.extendee = some e → ∃ id, idx.resolve e = .ok (.message id) := by
  obtain ⟨hmsg, henum, hext⟩ := idx.checkField_eq_ok h
  refine ⟨fun hm => ?_, fun hm hn => ?_, fun e he => ?_⟩
  · obtain ⟨id, hid⟩ := hmsg hm
    exact ⟨id, idx.resolve_of_resolveMessage hid⟩
  · obtain ⟨id, hid⟩ := henum hm hn
    exact ⟨id, idx.resolve_of_resolveEnum hid⟩
  · obtain ⟨id, hid⟩ := hext e he
    exact ⟨id, idx.resolve_of_resolveMessage hid⟩

/-- The type name of a checked field of a message or enum type resolves. -/
theorem TypeIndex.resolve_of_isNamed {idx : TypeIndex} {f : Field}
    (h : idx.checkField f = .ok ()) (hn : f.fieldType.isNamed) :
    ∃ t, idx.resolve f.typeName = .ok t := by
  obtain ⟨hmsg, henum, -⟩ := idx.resolve_of_checkField h
  cases hm : f.fieldType.isMessage
  · obtain ⟨id, hid⟩ := henum hm hn
    exact ⟨_, hid⟩
  · obtain ⟨id, hid⟩ := hmsg hm
    exact ⟨_, hid⟩

end Schema

namespace Shape

/-- The value type of a checked field resolves. -/
theorem valueOf_of_checkField {idx : TypeIndex} {f : Field} (h : idx.checkField f = .ok ()) :
    ∃ v, valueOf idx f = .ok v := by
  obtain ⟨hmsg, henum, -⟩ := idx.checkField_eq_ok h
  unfold valueOf
  split
  · exact ⟨_, rfl⟩
  · rename_i hs
    -- no scalar kind: the field holds messages, groups or enums, all named types
    have hn : f.fieldType.isNamed := by
      cases hty : f.fieldType <;> simp_all [Scalar.ofFieldType, FieldType.isNamed]
    by_cases hm : f.fieldType.isMessage
    · obtain ⟨id, hid⟩ := hmsg hm
      rw [if_pos hm, hid]
      exact ⟨.message id, rfl⟩
    · obtain ⟨id, hid⟩ := henum (by simpa using hm) hn
      rw [if_neg hm, hid]
      exact ⟨.enum id, rfl⟩

section Classify

variable {g : Graph} {idx : TypeIndex}

theorem mapShape_errorsIn (hidx : idx.Resolves g) (entry : MessageId) :
    ErrorsIn GenError.IsLate (mapShape g idx entry) := by
  unfold mapShape
  dsimp only
  split
  · split
    · rename_i valueField hvalue
      -- the value field is a field of the entry message, so the check resolved it
      have hmem : valueField ∈ g.checkedFields := Graph.mem_checkedFields_of_message
        (List.mem_append_left _ (List.mem_of_find?_eq_some hvalue))
      obtain ⟨v, hv⟩ := valueOf_of_checkField (hidx _ hmem)
      refine ErrorsIn.bind ?_ fun _ _ => ErrorsIn.pure _
      rw [hv]
      exact ErrorsIn.ok v
    · exact ErrorsIn.throw trivial
  · exact ErrorsIn.throw trivial

theorem explicitDefault_errorsIn (f : Field) (value : ValueKind) (text : String) :
    ErrorsIn GenError.IsLate (explicitDefault g f value text) := by
  unfold explicitDefault
  split
  · exact ErrorsIn.ok _
  · split
    · exact ErrorsIn.ok _
    · exact ErrorsIn.error trivial
  · exact ErrorsIn.ok _

theorem shapeOf_errorsIn (hidx : idx.Resolves g) (scope : Option Message) {f : Field}
    (hf : f ∈ g.checkedFields) (value : ValueKind) :
    ErrorsIn GenError.IsLate (shapeOf g idx scope f value) := by
  unfold shapeOf
  split
  · rename_i e he
    obtain ⟨id, hid⟩ := (idx.checkField_eq_ok (hidx f hf)).2.2 e he
    rw [hid]
    exact ErrorsIn.bind (ErrorsIn.ok _) fun _ _ => ErrorsIn.pure _
  · split
    · exact ErrorsIn.pure _
    · split
      · split
        · exact mapShape_errorsIn hidx _
        · exact ErrorsIn.pure _
      · exact ErrorsIn.pure _
      · exact ErrorsIn.pure _

theorem defaultOf_errorsIn (f : Field) (value : ValueKind) :
    ErrorsIn GenError.IsLate (defaultOf g f value) := by
  unfold defaultOf
  split
  · split
    · exact ErrorsIn.pure _
    · exact explicitDefault_errorsIn _ _ _
  · exact ErrorsIn.pure _

/-- Classifying a checked field fails only for a map entry without key or value, or for an enum
default that names no value. -/
theorem classify_errorsIn (hidx : idx.Resolves g) (scope : Option Message) {f : Field}
    (hf : f ∈ g.checkedFields) : ErrorsIn GenError.IsLate (classify g idx scope f) := by
  obtain ⟨v, hv⟩ := valueOf_of_checkField (hidx f hf)
  unfold classify
  rw [hv]
  exact ErrorsIn.bind (ErrorsIn.ok v) fun value _ =>
    (shapeOf_errorsIn hidx scope hf value).bind fun _ _ =>
      (defaultOf_errorsIn f value).bind fun _ _ => ErrorsIn.pure _

end Classify

end Shape

end BeanCodegen
