import Mathlib
import BeanCodegen.Proofs.ConverterImports
import BeanCodegen.Proofs.IndexBounds
import BeanCodegen.Proofs.MemberNames
/-! # Map fields

A repeated field whose type is a map entry message holds a map. Its key has the scalar kind of
the entry's field numbered 1, its value the type of the entry's field numbered 2, and an entry
without such a key or without a value field is malformed (`classify_map_field`). The value
class declares the field as a `Map` that starts out empty (`fieldMember_map`): a repeated field
gets no default constant (`Session.checked_defaultConsts`).

Where the fields of map entry types are such map fields, of messages that are not entries
themselves, no classified field holds values of an entry type (`classify_entryFree`): the
entries are folded into the maps of their parents.
-/

namespace BeanCodegen.Schema

/-- The scalar kind of a map entry's key: that of its first field numbered 1, when that field
holds scalars. -/
def Message.mapKey (m : Message) : Option Shape.Scalar :=
  (m.fields.find? (·.number = 1)).bind (Shape.Scalar.ofFieldType ·.fieldType)

/-- The value field of a map entry: its first field numbered 2. -/
def Message.mapValue (m : Message) : Option Field := m.fields.find? (·.number = 2)

end BeanCodegen.Schema

namespace BeanCodegen.Shape

open BeanCodegen.Schema

variable {g : Graph} {idx : TypeIndex}

/-! ## The shape of a map field -/

theorem mapShape_of_parts {e : MessageId} {key : Scalar} {vf : Field}
    (hk : (g.message e).mapKey = some key) (hv : (g.message e).mapValue = some vf) :
    mapShape g idx e = FieldShape.map key <$> valueOf idx vf := by
  simp only [Message.mapKey, Message.mapValue] at hk hv
  simp only [mapShape, hk, hv]
  cases valueOf idx vf <;> rfl

theorem mapShape_malformed {e : MessageId}
    (h : (g.message e).mapKey = none ∨ (g.message e).mapValue = none) :
    mapShape g idx e = .error (.malformedMapEntry (g.message e).fullName) := by
  simp only [Message.mapKey, Message.mapValue] at h
  unfold mapShape
  dsimp only
  rcases h with h | h
  · rw [h]
    rfl
  · split
    · rw [h]
      rfl
    · rfl

/-- Resolving a field's type fails only with a schema error. -/
theorem valueOf_error {f : Field} {err : GenError} (h : valueOf idx f = .error err) :
    ∃ e, err = .schema e := by
  unfold valueOf at h
  split at h
  · cases h
  split at h
  · cases hm : idx.resolveMessage f.typeName with
    | error e =>
      rw [hm] at h
      cases h
      exact ⟨e, rfl⟩
    | ok id =>
      rw [hm] at h
      cases h
  · cases he : idx.resolveEnum f.typeName with
    | error e =>
      rw [he] at h
      cases h
      exact ⟨e, rfl⟩
    | ok id =>
      rw [he] at h
      cases h

section MapField

variable {m : Message} {f : Field} {e : MessageId}
  (hrep : f.isRepeated = true) (hext : f.extendee = none) (hgrp : m.variantGroup f = none)
  (hval : valueOf idx f = .ok (.message e)) (hentry : (g.message e).mapEntry = true)
include hrep hext hgrp hval hentry

/-- A repeated field of a map entry type, neither an extension nor a oneof member, is
classified by its entry: as a map with no default, never null. -/
theorem classify_repeated_entry :
    classify g idx (some m) f =
      (fun sh => (⟨f, sh, f.fieldType.wire, none, false⟩ : Classified)) <$> mapShape g idx e := by
  have hdefault : defaultOf g f (.message e) = .ok none := by
    unfold defaultOf
    split
    · rw [hrep]
      rfl
    · rfl
  simp only [classify, shapeOf, hval, hext, hgrp, Option.bind_some, hrep, hentry, Bool.and_self,
    if_true, bind, Except.bind, hdefault, Bool.and_false]
  cases mapShape g idx e <;> rfl

/-- The map a repeated field of an entry type holds: its key is the scalar kind of the entry's
field numbered 1 and its value the type of the entry's field numbered 2; the entry is malformed
exactly when it lacks a scalar key or a value field. -/
theorem classify_map_field :
    (∀ key vf v, (g.message e).mapKey = some key → (g.message e).mapValue = some vf →
        valueOf idx vf = .ok v →
        classify g idx (some m) f = .ok ⟨f, .map key v, f.fieldType.wire, none, false⟩) ∧
      ((∃ n, classify g idx (some m) f = .error (.malformedMapEntry n)) ↔
        (g.message e).mapKey = none ∨ (g.message e).mapValue = none) := by
  rw [classify_repeated_entry hrep hext hgrp hval hentry]
  refine ⟨fun key vf v hk hv hvf => ?_, ⟨?_, fun h => ?_⟩⟩
  · rw [mapShape_of_parts hk hv, hvf]
    rfl
  · rintro ⟨n, hn⟩
    -- with a key and a value field, only resolving the value's type can fail
    cases hk : (g.message e).mapKey with
    | none => exact Or.inl rfl
    | some key =>
      cases hv : (g.message e).mapValue with
      | none => exact Or.inr rfl
      | some vf =>
        rw [mapShape_of_parts hk hv] at hn
        cases hvf : valueOf idx vf with
        | ok v =>
          rw [hvf] at hn
          cases hn
        | error err =>
          obtain ⟨se, rfl⟩ := valueOf_error hvf
          rw [hvf] at hn
          cases hn
  · rw [mapShape_malformed h]
    exact ⟨_, rfl⟩

end MapField

/-! ## Entries folded into maps -/

/-- A value type other than a map entry message. -/
def ValueKind.NotEntry (g : Graph) : ValueKind → Prop
  | .message id => (g.message id).mapEntry = false
  | .scalar _ | .enum _ => True

/-- A shape whose values are of no map entry type. -/
def FieldShape.NotEntry (g : Graph) : FieldShape → Prop
  | .message id _ => (g.message id).mapEntry = false
  | .scalar .. | .enum .. => True
  | .map _ v | .variant _ v | .extension _ v _ => v.NotEntry g

/-- Whether a resolved field type is a map entry message. -/
def entryTyped (g : Graph) : Except GenError ValueKind → Bool
  | .ok (.message id) => (g.message id).mapEntry
  | _ => false

end BeanCodegen.Shape

namespace BeanCodegen.Schema

open BeanCodegen.Shape

/-- Map entries are used as a protobuf compiler declares them: a field whose type is a map entry
is a repeated field, not an extension and not a member of a non-synthetic oneof, of a message
that is no map entry itself. -/
def Graph.MapsFolded (g : Graph) (idx : TypeIndex) : Prop :=
  ∀ (id : MessageId), ∀ f ∈ (g.message id).fields, entryTyped g (valueOf idx f) = true →
    f.isRepeated = true ∧ f.extendee = none ∧ ((g.message id).variantGroup f).isNone = true ∧
      (g.message id).mapEntry = false

/-- Map entries declare no messages and no enums. -/
def Graph.EntriesNestNothing (g : Graph) : Prop :=
  ∀ id : MessageId, (g.message id).mapEntry = true →
    (g.message id).nested = [] ∧ (g.message id).enums = []

section FoldedMaps

variable {g : Graph} {idx : TypeIndex} (hfold : g.MapsFolded idx) {id : MessageId} {f : Field}
  (hf : f ∈ (g.message id).fields)
include hfold hf

/-- A field holding values of an entry type is a map field of a message that is no entry. -/
theorem Graph.MapsFolded.of_entry {e : MessageId} (hv : valueOf idx f = .ok (.message e))
    (he : (g.message e).mapEntry = true) :
    f.isRepeated = true ∧ f.extendee = none ∧ (g.message id).variantGroup f = none ∧
      (g.message id).mapEntry = false := by
  obtain ⟨hrep, hext, hgrp, hmsg⟩ := hfold id f hf (by simp [entryTyped, hv, he])
  exact ⟨hrep, hext, Option.isNone_iff_eq_none.1 hgrp, hmsg⟩

/-- A field that is no map field holds values of no entry type. -/
theorem Graph.MapsFolded.notEntry {v : ValueKind} (hv : valueOf idx f = .ok v)
    (hmap : f.isRepeated = true → f.extendee = none → (g.message id).variantGroup f = none →
      (g.message id).mapEntry = false → False) : v.NotEntry g := by
  cases v with
  | message e =>
    cases he : (g.message e).mapEntry with
    | false => exact he
    | true =>
      obtain ⟨hrep, hext, hgrp, hmsg⟩ := hfold.of_entry hf hv he
      exact (hmap hrep hext hgrp hmsg).elim
  | scalar _ => trivial
  | enum _ => trivial

end FoldedMaps

end BeanCodegen.Schema

namespace BeanCodegen.Shape

open BeanCodegen.Schema

section Folded

variable {g : Graph} {idx : TypeIndex} (hfold : g.MapsFolded idx) {id : MessageId} {f : Field}
  (hf : f ∈ (g.message id).fields)
include hfold hf

/-- The shape a field of a message takes has values of no entry type: an entry type makes it a
map, whose values are those of the entry's value field, which is no map field. -/
theorem shapeOf_notEntry {v : ValueKind} (hv : valueOf idx f = .ok v) {sh : FieldShape}
    (h : shapeOf g idx (some (g.message id)) f v = .ok sh) : sh.NotEntry g := by
  unfold shapeOf at h
  split at h
  · -- an extension holds its values as they are
    rename_i ext hext
    obtain ⟨target, -, h⟩ := except_bind_eq_ok h
    cases h
    exact hfold.notEntry hf hv fun _ hnone => by rw [hext] at hnone; cases hnone
  split at h
  · -- so does a oneof member
    rename_i grp hgrp
    cases h
    exact hfold.notEntry hf hv fun _ _ hnone => by
      rw [Option.bind_some] at hgrp
      rw [hgrp] at hnone
      cases hnone
  split at h
  · rename_i e
    split at h
    · -- the map of an entry: its value field belongs to the entry, so holds no entry type
      rename_i hcond
      rw [Bool.and_eq_true] at hcond
      obtain ⟨key, value, rfl, vf, hvf, hvalue⟩ := mapShape_value h
      show value.NotEntry g
      exact hfold.notEntry hvf hvalue fun _ _ _ hentry => by
        rw [hcond.2] at hentry
        cases hentry
    · rename_i hcond
      cases h
      show (g.message e).mapEntry = false
      cases he : (g.message e).mapEntry with
      | false => rfl
      | true =>
        obtain ⟨hrep, -⟩ := hfold.of_entry hf hv he
        simp [hrep, he] at hcond
  · cases h
    trivial
  · cases h
    trivial

/-- Every field a message classifies has values of no entry type. -/
theorem classify_notEntry {cf : Classified}
    (h : classify g idx (some (g.message id)) f = .ok cf) : cf.shape.NotEntry g := by
  unfold classify at h
  obtain ⟨v, hv, h⟩ := except_bind_eq_ok h
  obtain ⟨sh, hsh, h⟩ := except_bind_eq_ok h
  obtain ⟨dv, -, h⟩ := except_bind_eq_ok h
  cases h
  exact shapeOf_notEntry hfold hf hv hsh

end Folded

end BeanCodegen.Shape

namespace BeanCodegen.Plan

open BeanCodegen.Schema

/-- A member gets a default constant exactly when its field has a default and does not
repeat. -/
theorem planMembers_defaultConsts (m : Message) (S : MessageScopes) :
    ((planMembers m).run S).1.1.map (fun mp => mp.defaultConst.isSome) =
      m.fields.map fun f => f.defaultValue.isSome && !f.isRepeated := by
  simp only [planMembers, stateM_run_bind, stateM_run_pure]
  rw [List.map_map]
  show List.map (Option.isSome ∘ fun x : (Field × String) × (String × Option String) => x.2.2) _ = _
  rw [← List.map_map, map_zip_zip_snd_snd (length_nameFields m _ _ _) (length_stateM_mapM _ _ _)
    (length_stateM_mapM _ _ _)]
  refine stateM_mapM_map _ _ _ (fun f s => ?_) m.fields _
  split
  · rename_i h
    rw [h]
    rfl
  · rename_i h
    simp only [Bool.not_eq_true] at h
    rw [h]
    rfl

end BeanCodegen.Plan

namespace BeanCodegen

open BeanCodegen.Schema BeanCodegen.Plan

/-- In a checked session, a member of a message's plan has a default constant exactly when its
field has a default and does not repeat. -/
theorem Session.checked_defaultConsts {r : Descriptor.Request} {s : Session} (hs : Session.checked r = .ok s)
    {k i : Nat} {m : Message} (hk : k < s.graph.files.length)
    (hm : (s.graph.file k).messages[i]? = some m) :
    (s.alloc.message ⟨k, i⟩).fields.map (fun mp => mp.defaultConst.isSome) =
      m.fields.map fun f => f.defaultValue.isSome && !f.isRepeated := by
  obtain ⟨S, hfields, -⟩ := Session.checked_messagePlan hs hk hm
  rw [hfields]
  exact planMembers_defaultConsts m S

end BeanCodegen

namespace BeanCodegen.Emit

open BeanCodegen.Java BeanCodegen.Schema BeanCodegen.Plan BeanCodegen.Shape

/-- The member of a map field without a default constant is declared as a `Map` from the boxed
key kind to the boxed value type, starting out as an empty `HashMap`. -/
theorem Source.fieldMember_map (c : Source) {f : Classified} {key : Scalar} {value : ValueKind}
    (hshape : f.shape = .map key value) (hnull : f.nullable = false) {member : MemberPlan}
    (hdef : member.defaultConst = none) (d : Draft) :
    let m := d.imports.reference mapClass
    let v := (value.render c.session true).run m.2
    ∃ d', (c.fieldMember f member).run d = .ok ((), d') ∧
      Piece.annotated f.field.path ("public " ++ (m.1 ++ "<" ++ key.boxed ++ ", " ++ v.1 ++ ">") ++
        " ") member.field " = new HashMap<>();" ∈ d'.out := by
  intro m v
  obtain ⟨field, shape, wire, default, nullable⟩ := f
  dsimp only at hshape hnull
  subst hshape hnull
  -- the declaration is the last piece before the trailing comment
  cases hdep : field.deprecated
  all_goals
    exact ⟨_, by simp only [Source.fieldMember, hdep, hdef, if_true]; rfl,
      by exact List.mem_cons_of_mem _ List.mem_cons_self⟩

end BeanCodegen.Emit
