import Mathlib
import BeanCodegen.Proofs.IndexBounds
/-! # Where a message's fields are written

The class of a message and its two converter methods walk the message's fields in order. A field
outside oneofs is written where it stands; a oneof with variant classes is written once, at its
first member, with all its members as variants. These places are the message's *slots*
(`Message.slots`): every field lies in exactly one of them (`Message.Indexed.slots_cover`), and a
oneof has one exactly when it has variant classes and members.

The member section of the class, the `toString` parts and the bodies of the decode and encode
methods each write one thing per slot, in slot order; the loops find a oneof's first member in
two ways (the first variant of its plan, and a list of oneofs already shown), and both agree
with the slots (`Planned.forIn_eq_forM_slots`, and `ShownBefore` for the list). The accessors
are written per oneof plan instead, so a oneof with variant classes and no member gets accessors
although it has no slot. Main statement: `fields_written_once`.
-/

namespace BeanCodegen.Schema

/-- Where the class of a message and its converter methods write fields: one field on its own,
or a oneof with all its members. -/
inductive Slot
  | field (j : Nat)
  | oneof (k : Nat)
  deriving DecidableEq, Repr

namespace Message

variable (m : Message)

/-- The slot a field opens: its own when it is in no oneof with variant classes, its oneof's when
it is that oneof's first member, and none when it is a later member. -/
def slotOf (fd : Field) : Option Slot :=
  match m.variantGroup fd with
  | none => some (.field fd.index)
  | some g => if g.fields.head? = some fd.index then some (.oneof g.index) else none

/-- The slots of a message, in the order of the fields that open them. -/
def slots : List Slot := m.fields.filterMap m.slotOf

/-- The fields a slot writes. -/
def slotFields : Slot → List Nat
  | .field j => [j]
  | .oneof k => (m.oneofs[k]?.map (·.fields)).getD []

end Message

namespace Message.Indexed

variable {m : Message} (hm : m.Indexed)
include hm

theorem map_index : m.fields.map (·.index) = List.range m.fields.length := by
  refine List.ext_getElem (by simp) fun j h₁ h₂ => ?_
  simp only [List.getElem_map, List.getElem_range]
  exact hm.field_index j _ (List.getElem?_eq_getElem (by simpa using h₁))

theorem getElem?_index {fd : Field} (hfd : fd ∈ m.fields) : m.fields[fd.index]? = some fd := by
  obtain ⟨j, hj⟩ := List.mem_iff_getElem?.1 hfd
  rw [hm.field_index j fd hj]
  exact hj

theorem index_lt {fd : Field} (hfd : fd ∈ m.fields) : fd.index < m.fields.length :=
  (List.getElem?_eq_some_iff.1 (hm.getElem?_index hfd)).1

theorem eq_of_index_eq {fd fd' : Field} (hfd : fd ∈ m.fields) (hfd' : fd' ∈ m.fields)
    (h : fd.index = fd'.index) : fd = fd' := by
  have h₁ := hm.getElem?_index hfd
  rw [h, hm.getElem?_index hfd'] at h₁
  exact (Option.some.inj h₁).symm

/-- The oneof a field is a variant of sits at its own index, has variant classes, and is the
one the field's oneof index names. -/
theorem group {fd : Field} {g : Oneof} (h : m.variantGroup fd = some g) :
    m.oneofs[g.index]? = some g ∧ g.synthetic = false ∧ fd.oneofIndex = some g.index := by
  obtain ⟨k, hk, ho, hs⟩ := Message.variantGroup_eq_some h
  rw [hm.oneof_index k g ho]
  exact ⟨ho, hs, hk⟩

/-- A oneof lists the fields whose oneof index names it. -/
theorem mem_fields_iff {k : Nat} {g : Oneof} (hg : m.oneofs[k]? = some g) {j : Nat} :
    j ∈ g.fields ↔ ∃ fd ∈ m.fields, fd.index = j ∧ fd.oneofIndex = some k := by
  rw [hm.oneof_fields k g hg]
  simp only [List.mem_map, List.mem_filter, decide_eq_true_eq]
  constructor
  · rintro ⟨fd, ⟨hfd, hk⟩, rfl⟩
    exact ⟨fd, hfd, rfl, hk⟩
  · rintro ⟨fd, hfd, rfl, hk⟩
    exact ⟨fd, ⟨hfd, hk⟩, rfl⟩

/-- A field is a variant of a oneof with variant classes exactly when its oneof index names
that oneof. -/
theorem variantGroup_eq_some_iff {g : Oneof} (hg : m.oneofs[g.index]? = some g)
    (hs : g.synthetic = false) {fd : Field} :
    m.variantGroup fd = some g ↔ fd.oneofIndex = some g.index := by
  constructor
  · intro h
    exact (hm.group h).2.2
  · intro hk
    simp [Message.variantGroup, hk, hg, hs]

/-- The members of a oneof with variant classes are the fields that are its variants. -/
theorem mem_fields_iff_group {k : Nat} {g : Oneof} (hg : m.oneofs[k]? = some g)
    (hs : g.synthetic = false) {j : Nat} :
    j ∈ g.fields ↔ ∃ fd ∈ m.fields, fd.index = j ∧ m.variantGroup fd = some g := by
  rw [hm.mem_fields_iff hg]
  obtain rfl := hm.oneof_index k g hg
  exact exists_congr fun fd => and_congr_right fun _ => and_congr_right fun _ =>
    (hm.variantGroup_eq_some_iff hg hs).symm

theorem nodup_map_index : (m.fields.map (·.index)).Nodup := hm.map_index ▸ List.nodup_range

theorem nodup_fields {k : Nat} {g : Oneof} (hg : m.oneofs[k]? = some g) : g.fields.Nodup := by
  rw [hm.oneof_fields k g hg]
  exact hm.nodup_map_index.sublist ((List.filter_sublist).map _)

/-- A oneof with variant classes and members opens at its first member. -/
theorem exists_first {k : Nat} {g : Oneof} (hg : m.oneofs[k]? = some g)
    (hs : g.synthetic = false) (hne : g.fields ≠ []) :
    ∃ fd ∈ m.fields, m.variantGroup fd = some g ∧ g.fields.head? = some fd.index := by
  obtain ⟨j, rest, hjs⟩ := List.exists_cons_of_ne_nil hne
  obtain ⟨fd, hfd, rfl, hgroup⟩ := (hm.mem_fields_iff_group hg hs).1 (hjs ▸ List.mem_cons_self)
  exact ⟨fd, hfd, hgroup, by rw [hjs]; rfl⟩

/-- What a field's slot writes: the field alone, or every variant of its oneof. -/
theorem mem_slotFields_slotOf {fd : Field} {s : Slot} (h : m.slotOf fd = some s) {j : Nat} :
    j ∈ m.slotFields s ↔ (m.variantGroup fd = none ∧ j = fd.index) ∨
      ∃ g, m.variantGroup fd = some g ∧ ∃ fd' ∈ m.fields, fd'.index = j ∧
        m.variantGroup fd' = some g := by
  unfold Message.slotOf at h
  split at h
  · rename_i hnone
    cases h
    simp [Message.slotFields, hnone]
  · rename_i g hgroup
    split_ifs at h
    cases h
    obtain ⟨hg, hs, -⟩ := hm.group hgroup
    simp only [Message.slotFields, hg, Option.map_some, Option.getD_some, hgroup, reduceCtorEq,
      false_and, Option.some.injEq, exists_eq_left', false_or]
    exact hm.mem_fields_iff_group hg hs

theorem nodup_slotFields {s : Slot} (hs : s ∈ m.slots) : (m.slotFields s).Nodup := by
  obtain ⟨fd, -, h⟩ := List.mem_filterMap.1 hs
  unfold Message.slotOf at h
  split at h
  · cases h
    exact List.nodup_singleton _
  · rename_i g hgroup
    split_ifs at h
    cases h
    obtain ⟨hg, -, -⟩ := hm.group hgroup
    simpa [Message.slotFields, hg] using hm.nodup_fields hg

/-- Two fields that open slots write no field twice: a field lies in one oneof at most, and a
oneof opens at one field only. -/
theorem disjoint_slotFields {fd fd' : Field} (hfd : fd ∈ m.fields) (hfd' : fd' ∈ m.fields)
    (hne : fd.index ≠ fd'.index) {s s' : Slot} (h : m.slotOf fd = some s)
    (h' : m.slotOf fd' = some s') : (m.slotFields s).Disjoint (m.slotFields s') := by
  intro j hj hj'
  rw [hm.mem_slotFields_slotOf h] at hj
  rw [hm.mem_slotFields_slotOf h'] at hj'
  rcases hj with ⟨hnone, rfl⟩ | ⟨g, hg, e, he, rfl, heg⟩ <;>
    rcases hj' with ⟨hnone', hidx⟩ | ⟨g', hg', e', he', hidx', heg'⟩
  · exact hne hidx
  · -- the field at that index is `fd` itself, which is a variant of no oneof
    rw [← hm.eq_of_index_eq he' hfd hidx'] at hnone
    rw [hnone] at heg'
    cases heg'
  · rw [← hm.eq_of_index_eq he hfd' hidx] at hnone'
    rw [hnone'] at heg
    cases heg
  · -- one field lies in both oneofs, so they are one oneof, opened at both fields
    rw [hm.eq_of_index_eq he he' hidx'.symm, heg'] at heg
    obtain rfl := Option.some.inj heg
    simp only [Message.slotOf, hg, hg'] at h h'
    split_ifs at h h' with hhead hhead'
    rw [hhead] at hhead'
    exact hne (Option.some.inj hhead')

theorem nodup_slots_flatMap : (m.slots.flatMap m.slotFields).Nodup := by
  rw [List.nodup_flatMap]
  refine ⟨fun s hs => hm.nodup_slotFields hs, ?_⟩
  rw [Message.slots, List.pairwise_filterMap]
  have hindex : m.fields.Pairwise fun a b => a.index ≠ b.index :=
    List.pairwise_map.1 hm.nodup_map_index
  exact hindex.imp_of_mem fun ha hb hab s hs s' hs' =>
    hm.disjoint_slotFields ha hb hab hs hs'

/-- Every field of an indexed message lies in exactly one slot. -/
theorem slots_cover : (m.slots.flatMap m.slotFields).Perm (List.range m.fields.length) := by
  rw [List.perm_ext_iff_of_nodup hm.nodup_slots_flatMap List.nodup_range]
  intro j
  rw [List.mem_flatMap, List.mem_range]
  constructor
  · -- a slot writes fields of the message
    rintro ⟨s, hs, hj⟩
    obtain ⟨fd, hfd, h⟩ := List.mem_filterMap.1 hs
    rcases (hm.mem_slotFields_slotOf h).1 hj with ⟨-, rfl⟩ | ⟨g, -, e, he, rfl, -⟩
    · exact hm.index_lt hfd
    · exact hm.index_lt he
  · -- the field at `j` lies in its own slot, or in the slot its oneof opens
    intro hj
    have hfd : m.fields[j] ∈ m.fields := List.getElem_mem hj
    have hidx : m.fields[j].index = j := hm.field_index j _ (List.getElem?_eq_getElem hj)
    cases hgroup : m.variantGroup m.fields[j] with
    | none =>
      refine ⟨.field j, List.mem_filterMap.2 ⟨_, hfd, ?_⟩, List.mem_singleton_self j⟩
      simp [Message.slotOf, hgroup, hidx]
    | some g =>
      obtain ⟨hg, hs, -⟩ := hm.group hgroup
      have hmem : j ∈ g.fields := (hm.mem_fields_iff_group hg hs).2 ⟨_, hfd, hidx, hgroup⟩
      obtain ⟨e, he, hge, hhead⟩ := hm.exists_first hg hs (List.ne_nil_of_mem hmem)
      refine ⟨.oneof g.index, List.mem_filterMap.2 ⟨e, he, ?_⟩, ?_⟩
      · simp [Message.slotOf, hge, hhead]
      · simpa [Message.slotFields, hg] using hmem

/-- A oneof has a slot exactly when it has variant classes and members. -/
theorem oneof_mem_slots {k : Nat} :
    Slot.oneof k ∈ m.slots ↔ ∃ g, m.oneofs[k]? = some g ∧ g.synthetic = false ∧ g.fields ≠ [] := by
  constructor
  · intro hk
    obtain ⟨fd, hfd, h⟩ := List.mem_filterMap.1 hk
    unfold Message.slotOf at h
    split at h
    · cases h
    · rename_i g hgroup
      split_ifs at h with hhead
      cases h
      obtain ⟨hg, hs, -⟩ := hm.group hgroup
      exact ⟨g, hg, hs, fun hnil => by simp [hnil] at hhead⟩
  · rintro ⟨g, hg, hs, hne⟩
    obtain ⟨fd, hfd, hgroup, hhead⟩ := hm.exists_first hg hs hne
    refine List.mem_filterMap.2 ⟨fd, hfd, ?_⟩
    simp [Message.slotOf, hgroup, hhead, hm.oneof_index k g hg]

/-- The members of a oneof with variant classes, as its variants in field order. -/
theorem filter_variantOf {k : Nat} {g : Oneof} (hg : m.oneofs[k]? = some g)
    (hs : g.synthetic = false) : (m.fields.filter (m.variantOf k)).map (·.index) = g.fields := by
  rw [hm.oneof_fields k g hg]
  congr 1
  exact List.filter_congr fun fd _ => Bool.eq_iff_iff.2 (by simpa using hm.variantOf_iff hg hs fd)

/-- A field has a slot of its own exactly when it is a variant of no oneof. -/
theorem field_mem_slots {j : Nat} :
    Slot.field j ∈ m.slots ↔ ∃ fd, m.fields[j]? = some fd ∧ m.variantGroup fd = none := by
  constructor
  · intro hj
    obtain ⟨fd, hfd, h⟩ := List.mem_filterMap.1 hj
    unfold Message.slotOf at h
    split at h
    · rename_i hnone
      cases h
      exact ⟨fd, hm.getElem?_index hfd, hnone⟩
    · split_ifs at h
      cases h
  · rintro ⟨fd, hj, hnone⟩
    refine List.mem_filterMap.2 ⟨fd, List.mem_of_getElem? hj, ?_⟩
    simp [Message.slotOf, hnone, hm.field_index j fd hj]

/-- A member of a oneof is its first member exactly when no field before it is a member. -/
theorem head_fields_iff {pre post : List Field} {fd : Field} (hsplit : m.fields = pre ++ fd :: post)
    {g : Oneof} (hgroup : m.variantGroup fd = some g) :
    g.fields.head? = some fd.index ↔ ∀ fd' ∈ pre, m.variantGroup fd' ≠ some g := by
  obtain ⟨hg, hs, hk⟩ := hm.group hgroup
  have hfields : g.fields = (pre.filter fun e => e.oneofIndex = some g.index).map (·.index) ++
      fd.index :: (post.filter fun e => e.oneofIndex = some g.index).map (·.index) := by
    rw [hm.oneof_fields _ g hg, hsplit, List.filter_append, List.filter_cons_of_pos (by simpa using hk)]
    simp
  rw [hfields]
  cases hpre : pre.filter (fun e => e.oneofIndex = some g.index) with
  | nil =>
    simp only [List.map_nil, List.nil_append, List.head?_cons, true_iff]
    intro fd' hfd' hgroup'
    have hmem : fd' ∈ pre.filter (fun e => e.oneofIndex = some g.index) :=
      List.mem_filter.2 ⟨hfd', by simpa using (hm.group hgroup').2.2⟩
    rw [hpre] at hmem
    cases hmem
  | cons e rest =>
    -- an earlier member `e` comes first, and indices are distinct
    have he : e ∈ pre.filter (fun e => e.oneofIndex = some g.index) := hpre ▸ List.mem_cons_self
    rw [List.mem_filter, decide_eq_true_eq] at he
    have hnodup := hm.nodup_map_index
    rw [hsplit, List.map_append, List.map_cons, List.nodup_append] at hnodup
    have hne : e.index ≠ fd.index :=
      hnodup.2.2 _ (List.mem_map_of_mem he.1) _ List.mem_cons_self
    simp only [List.map_cons, List.cons_append, List.head?_cons, Option.some.injEq, hne,
      false_iff, not_forall, not_not]
    exact ⟨e, he.1, (hm.variantGroup_eq_some_iff hg hs).2 he.2⟩

end Message.Indexed

end BeanCodegen.Schema

namespace BeanCodegen.Shape

open BeanCodegen.Schema

/-- Classifying a field keeps the field. -/
theorem classify_field {g : Graph} {idx : TypeIndex} {scope : Option Message} {fd : Field}
    {cf : Classified} (h : classify g idx scope fd = .ok cf) : cf.field = fd := by
  unfold classify at h
  obtain ⟨value, -, h⟩ := except_bind_eq_ok h
  obtain ⟨shape, -, h⟩ := except_bind_eq_ok h
  obtain ⟨default, -, h⟩ := except_bind_eq_ok h
  cases h
  rfl

end BeanCodegen.Shape

namespace BeanCodegen.Emit

open BeanCodegen.Schema BeanCodegen.Plan BeanCodegen.Shape

section Loops

variable {M : Type → Type} [Monad M] {α β : Type}

theorem forM_congr {xs : List α} {f g : α → M PUnit} (h : ∀ x ∈ xs, f x = g x) :
    forM xs f = forM xs g := by
  induction xs with
  | nil => rfl
  | cons x xs ih =>
    rw [List.forM_cons, List.forM_cons, h x List.mem_cons_self,
      ih fun y hy => h y (List.mem_cons_of_mem x hy)]

variable [LawfulMonad M]

/-- A loop whose body always goes on runs, element by element, what the body does. -/
theorem forIn_unit_eq_forM (act : α → M PUnit) {xs : List α}
    {body : α → PUnit → M (ForInStep PUnit)}
    (h : ∀ x ∈ xs, body x ⟨⟩ = act x >>= fun _ => pure (.yield ⟨⟩)) :
    forIn xs ⟨⟩ body = forM xs act := by
  induction xs with
  | nil => rfl
  | cons x xs ih =>
    rw [List.forIn_cons, List.forM_cons, h x List.mem_cons_self, bind_assoc]
    simp only [pure_bind]
    rw [ih fun y hy => h y (List.mem_cons_of_mem x hy)]

theorem forM_filterMap (xs : List α) (g : α → Option β) (f : β → M PUnit) :
    forM (xs.filterMap g) f = forM xs fun x => (g x).elim (pure ⟨⟩) f := by
  induction xs with
  | nil => rfl
  | cons x xs ih =>
    cases hx : g x with
    | none => simp [hx, ih]
    | some y => simp [hx, ih]

theorem forM_filter (xs : List α) (p : α → Bool) (f : α → M PUnit) :
    forM (xs.filter p) f = forM xs fun x => if p x then f x else pure ⟨⟩ := by
  induction xs with
  | nil => rfl
  | cons x xs ih => by_cases hx : p x <;> simp [hx, ih]

end Loops

/-- What a loop over a message's fields does at a slot: `onField` with a field outside oneofs,
classified, and its member plan, or `onOneof` with a oneof's position and plan. -/
def visitSlot {β : Type} (mp : MessagePlan) (fields : List Classified)
    (onOneof : Nat → OneofPlan → EmitM β) (onField : Classified → MemberPlan → EmitM β) :
    Slot → EmitM β
  | .field j => onField (fields[j]?.getD default) (mp.fields[j]?.getD default)
  | .oneof k => onOneof k ((mp.oneofs[k]?).join.getD default)

/-- The label and value `toString` shows for a slot: a field's member and its shown value, or the
member holding a oneof's variant, as label and value both. -/
def slotPart (mp : MessagePlan) (fields : List Classified) : Slot → EmitM (String × String) :=
  visitSlot mp fields (fun _ op => pure (op.field, op.field)) fun f member => do
    let shown ← showValue f member.field
    pure (member.field, shown)

theorem opensOneof_iff {op : OneofPlan} {g : Oneof} (hmembers : op.members = g.fields)
    (f : Classified) : opensOneof op f = true ↔ g.fields.head? = some f.field.index := by
  rw [← hmembers]
  simp [opensOneof, OneofPlan.members, List.head?_map]

/-- The oneofs `toString` has shown before a point of its walk over the fields: exactly those
with a member among the fields before that point. -/
def ShownBefore (m : Message) (pre : List Field) (seen : List Nat) : Prop :=
  ∀ g, m.oneofs[g.index]? = some g → (g.index ∈ seen ↔ ∃ fd ∈ pre, m.variantGroup fd = some g)

theorem shownBefore_nil (m : Message) : ShownBefore m [] [] := by
  intro g _
  simp

section Shown

variable {m : Message} {pre : List Field} {seen : List Nat} {fd : Field}

/-- Passing a field whose oneof, if any, is shown already. -/
theorem ShownBefore.skip (hinv : ShownBefore m pre seen)
    (hfd : ∀ g, m.variantGroup fd = some g → g.index ∈ seen) :
    ShownBefore m (pre ++ [fd]) seen := by
  intro g hg
  rw [hinv g hg]
  constructor
  · rintro ⟨fd', hfd', h'⟩
    exact ⟨fd', List.mem_append_left _ hfd', h'⟩
  · rintro ⟨fd', hfd', h'⟩
    rcases List.mem_append.1 hfd' with hpre | hlast
    · exact ⟨fd', hpre, h'⟩
    · rw [List.mem_singleton.1 hlast] at h'
      exact (hinv g hg).1 (hfd g h')

/-- Passing the first member of a oneof, which is shown there. -/
theorem ShownBefore.record {g : Oneof} (hinv : ShownBefore m pre seen)
    (hfd : m.variantGroup fd = some g) (hg : m.oneofs[g.index]? = some g) :
    ShownBefore m (pre ++ [fd]) (seen ++ [g.index]) := by
  intro g' hg'
  -- two oneofs at one position are one
  have hsame : g'.index = g.index ↔ m.variantGroup fd = some g' := by
    rw [hfd, Option.some.injEq]
    constructor
    · intro hidx
      rw [hidx, hg] at hg'
      exact Option.some.inj hg'
    · rintro rfl
      rfl
  rw [List.mem_append, List.mem_singleton, hinv g' hg', hsame]
  simp [or_and_right, exists_or]

end Shown

/-- A message as the loops of its class and converter get it: its fields and oneofs carry their
positions, no field has an extendee, `fields` are its fields classified, and `mp` holds the
member and oneof plans made for it. -/
structure Planned (c : Source) (m : Message) (mp : MessagePlan) (fields : List Classified) :
    Prop where
  indexed : m.Indexed
  no_extendee : ∀ fd ∈ m.fields, fd.extendee = none
  classified : m.fields.mapM (classify c.session.graph c.session.index (some m)) = .ok fields
  planned : ∃ s, mp.fields = ((planMembers m).run s).1.1 ∧
    mp.oneofs = ((planMembers m).run s).1.2.1

namespace Planned

variable {c : Source} {m : Message} {mp : MessagePlan} {fields : List Classified}
  (h : Planned c m mp fields)
include h

theorem map_field : fields.map (·.field) = m.fields := by
  obtain ⟨hlen, hall⟩ := mapM_eq_ok_forall h.classified
  refine List.ext_getElem (by simpa using hlen) fun i h₁ h₂ => ?_
  rw [List.getElem_map]
  exact classify_field (hall i _ _ (List.getElem?_eq_getElem h₂)
    (List.getElem?_eq_getElem (by simpa using h₁)))

theorem classify_eq {f : Classified} (hf : f ∈ fields) :
    f.field ∈ m.fields ∧ classify c.session.graph c.session.index (some m) f.field = .ok f := by
  obtain ⟨i, hi⟩ := List.mem_iff_getElem?.1 hf
  obtain ⟨-, hall⟩ := mapM_eq_ok_forall h.classified
  have hfd : m.fields[i]? = some f.field := by rw [← h.map_field, List.getElem?_map, hi]; rfl
  exact ⟨List.mem_of_getElem? hfd, hall i _ _ hfd hi⟩

theorem length_members : mp.fields.length = m.fields.length := by
  obtain ⟨s, hfields, -⟩ := h.planned
  rw [hfields, length_planMembers_fields]

theorem length_oneofs : mp.oneofs.length = m.oneofs.length := by
  obtain ⟨s, -, hone⟩ := h.planned
  rw [hone, length_planMembers_oneofs]

theorem map_zip_field : (fields.zip mp.fields).map (·.1.field) = m.fields := by
  have hlen : fields.length ≤ mp.fields.length := by
    rw [h.length_members, ← h.map_field, List.length_map]
  calc (fields.zip mp.fields).map (·.1.field)
      = ((fields.zip mp.fields).map Prod.fst).map (·.field) := by rw [List.map_map]; rfl
    _ = m.fields := by rw [List.map_fst_zip hlen, h.map_field]

/-- A pair the field loops visit is a classified field and its member plan, both at the field's
position. -/
theorem mem_zip {x : Classified × MemberPlan} (hx : x ∈ fields.zip mp.fields) :
    fields[x.1.field.index]? = some x.1 ∧ mp.fields[x.1.field.index]? = some x.2 := by
  obtain ⟨i, hi⟩ := List.mem_iff_getElem?.1 hx
  obtain ⟨hf, hmember⟩ := List.getElem?_zip_eq_some.1 hi
  have hfd : m.fields[i]? = some x.1.field := by rw [← h.map_field, List.getElem?_map, hf]; rfl
  rw [h.indexed.field_index i _ hfd]
  exact ⟨hf, hmember⟩

theorem shape_of_none {f : Classified} (hf : f ∈ fields) (hg : m.variantGroup f.field = none)
    (k : Nat) (v : ValueKind) : f.shape ≠ .variant k v := by
  intro hshape
  obtain ⟨o, ho, hs, hk⟩ := classify_variant_oneof h.indexed (h.classify_eq hf).2 hshape
  have hgroup : m.variantGroup f.field = some o := by simp [Message.variantGroup, hk, ho, hs]
  rw [hg] at hgroup
  cases hgroup

theorem shape_of_some {f : Classified} (hf : f ∈ fields) {g : Oneof}
    (hg : m.variantGroup f.field = some g) : ∃ v, f.shape = .variant g.index v := by
  obtain ⟨hmem, hcl⟩ := h.classify_eq hf
  exact (classify_variant (h.no_extendee _ hmem) hg hcl).2

/-- The plan at a oneof's position: none for a synthetic oneof, else one whose variants are the
oneof's members. -/
theorem oneof_plan {k : Nat} {g : Oneof} (hg : m.oneofs[k]? = some g) :
    (mp.oneofs[k]?).map (Option.map OneofPlan.members) =
      some (if g.synthetic then none else some g.fields) := by
  obtain ⟨s, -, hone⟩ := h.planned
  have hk := congrArg (·[k]?) (planMembers_members m s)
  simp only [recordedMembers, List.getElem?_map, getElem?_addMembers, hg, ← hone] at hk
  rw [hk]
  cases hs : g.synthetic
  · simp [hs, h.indexed.filter_variantOf hg hs]
  · simp [hs]

theorem plan {k : Nat} {g : Oneof} (hg : m.oneofs[k]? = some g) (hs : g.synthetic = false) :
    ∃ op, mp.oneofs[k]? = some (some op) ∧ op.members = g.fields := by
  have hk := h.oneof_plan hg
  simp only [hs, Bool.false_eq_true, if_false] at hk
  obtain ⟨p, hp, hpm⟩ := Option.map_eq_some_iff.1 hk
  obtain ⟨op, rfl, hop⟩ := Option.map_eq_some_iff.1 hpm
  exact ⟨op, hp, hop⟩

theorem unplanned {k : Nat} {g : Oneof} (hg : m.oneofs[k]? = some g) (hs : g.synthetic = true) :
    mp.oneofs[k]? = some none := by
  have hk := h.oneof_plan hg
  simp only [hs, if_true] at hk
  obtain ⟨p, hp, hpm⟩ := Option.map_eq_some_iff.1 hk
  rw [hp, Option.map_eq_none_iff.1 hpm]

/-- The plan a variant's loop step finds is its oneof's, and lists the oneof's members. -/
theorem variantPlan_eq {f : Classified} (hf : f ∈ fields) {g : Oneof}
    (hg : m.variantGroup f.field = some g) :
    ∃ op, variantPlan mp.oneofs f = some op ∧ (mp.oneofs[g.index]?).join = some op ∧
      op.members = g.fields := by
  obtain ⟨v, hshape⟩ := h.shape_of_some hf hg
  obtain ⟨ho, hs, -⟩ := h.indexed.group hg
  obtain ⟨op, hop, hmembers⟩ := h.plan ho hs
  have hjoin : (mp.oneofs[g.index]?).join = some op := by rw [hop]; rfl
  exact ⟨op, by simp only [variantPlan, hshape, hjoin], hjoin, hmembers⟩

/-- A loop over a message's fields that writes a field outside oneofs with `onField`, and a
oneof with `onOneof` at the member its plan lists first, writes slot after slot. -/
theorem forIn_eq_forM_slots {body : Classified × MemberPlan → PUnit → EmitM (ForInStep PUnit)}
    {onOneof : Nat → OneofPlan → EmitM PUnit} {onField : Classified → MemberPlan → EmitM PUnit}
    (hfield : ∀ f member, (∀ k v, f.shape ≠ .variant k v) →
      body (f, member) ⟨⟩ = onField f member >>= fun _ => pure (.yield ⟨⟩))
    (hvariant : ∀ f member k v op, f.shape = .variant k v → variantPlan mp.oneofs f = some op →
      body (f, member) ⟨⟩ =
        if opensOneof op f then onOneof k op >>= fun _ => pure (.yield ⟨⟩)
        else pure (.yield ⟨⟩)) :
    forIn (fields.zip mp.fields) ⟨⟩ body = forM m.slots (visitSlot mp fields onOneof onField) := by
  refine (forIn_unit_eq_forM
    (fun x => (m.slotOf x.1.field).elim (pure ⟨⟩) (visitSlot mp fields onOneof onField))
    fun x hx => ?_).trans ?_
  · obtain ⟨f, member⟩ := x
    obtain ⟨hf, hmember⟩ := h.mem_zip hx
    have hfmem : f ∈ fields := (List.of_mem_zip hx).1
    cases hg : m.variantGroup f.field with
    | none =>
      rw [hfield f member (h.shape_of_none hfmem hg)]
      simp [Message.slotOf, hg, visitSlot, hf, hmember]
    | some g =>
      obtain ⟨v, hshape⟩ := h.shape_of_some hfmem hg
      obtain ⟨op, hop, hjoin, hmembers⟩ := h.variantPlan_eq hfmem hg
      rw [hvariant f member _ v op hshape hop]
      by_cases hhead : g.fields.head? = some f.field.index
      · simp [(opensOneof_iff hmembers f).2 hhead, Message.slotOf, hg, hhead, visitSlot, hjoin]
      · simp [mt (opensOneof_iff hmembers f).1 hhead, Message.slotOf, hg, hhead]
  · calc forM (fields.zip mp.fields)
          (fun x => (m.slotOf x.1.field).elim (pure ⟨⟩) (visitSlot mp fields onOneof onField))
        = forM ((fields.zip mp.fields).map (·.1.field))
            (fun fd => (m.slotOf fd).elim (pure ⟨⟩) (visitSlot mp fields onOneof onField)) := by
          rw [List.forM_map]
      _ = forM m.slots (visitSlot mp fields onOneof onField) := by
          rw [h.map_zip_field, Message.slots, forM_filterMap]

theorem fieldMembers_eq_slots :
    c.fieldMembers m mp fields = forM m.slots (visitSlot mp fields
      (fun k op => do c.oneofMembers (m.oneofs[k]?.getD default) op fields mp.fields; blank)
      fun f member => do c.fieldMember f member; blank) := by
  unfold Source.fieldMembers
  rw [h.forIn_eq_forM_slots ?field ?variant, bind_pure_unit]
  case field =>
    intro f member hshape
    dsimp only
    split
    · rename_i k v hsh
      exact absurd hsh (hshape k v)
    · simp only [bind_assoc]
  case variant =>
    intro f member k v op hshape hop
    simp only [hshape, hop, bind_assoc]

theorem decodeMembers_eq_slots :
    c.decodeMembers mp fields = forM m.slots
      (visitSlot mp fields (fun _ op => c.decodeOneof op fields mp.fields) c.decodeField) := by
  unfold Source.decodeMembers
  rw [h.forIn_eq_forM_slots ?field ?variant, bind_pure_unit]
  case field =>
    intro f member hshape
    dsimp only
    split
    · rename_i k v hsh
      exact absurd hsh (hshape k v)
    · rfl
  case variant =>
    intro f member k v op hshape hop
    simp only [hshape, hop]

theorem encodeMembers_eq_slots :
    c.encodeMembers mp fields = forM m.slots
      (visitSlot mp fields (fun _ op => c.encodeOneof op fields mp.fields) c.encodeField) := by
  unfold Source.encodeMembers
  rw [h.forIn_eq_forM_slots ?field ?variant, bind_pure_unit]
  case field =>
    intro f member hshape
    dsimp only
    split
    · rename_i k v hsh
      exact absurd hsh (hshape k v)
    · rfl
  case variant =>
    intro f member k v op hshape hop
    simp only [hshape, hop]

/-- The parts `toString` shows from a point of the field walk on, with the oneofs shown before
that point as seen: one per slot opened from there on. -/
theorem showParts_suffix (rest : List (Classified × MemberPlan)) (pre : List Field)
    (seen : List Nat) (hrest : ∀ x ∈ rest, x ∈ fields.zip mp.fields)
    (hsplit : m.fields = pre ++ rest.map (·.1.field)) (hinv : ShownBefore m pre seen) :
    showParts mp.oneofs rest seen =
      ((rest.map (·.1.field)).filterMap m.slotOf).mapM (slotPart mp fields) := by
  induction rest generalizing pre seen with
  | nil => simp [showParts]
  | cons x rest ih =>
    obtain ⟨f, member⟩ := x
    have hx := hrest _ List.mem_cons_self
    have hrest' : ∀ y ∈ rest, y ∈ fields.zip mp.fields := fun y hy =>
      hrest y (List.mem_cons_of_mem _ hy)
    obtain ⟨hf, hmember⟩ := h.mem_zip hx
    have hfmem : f ∈ fields := (List.of_mem_zip hx).1
    have hsplit' : m.fields = (pre ++ [f.field]) ++ rest.map (·.1.field) := by
      rw [hsplit, List.map_cons, List.append_assoc, List.singleton_append]
    cases hg : m.variantGroup f.field with
    | none =>
      have hshape := h.shape_of_none hfmem hg
      rw [showParts]
      split
      · rename_i k v hsh
        exact absurd hsh (hshape k v)
      · rw [ih (pre ++ [f.field]) seen hrest' hsplit' (hinv.skip (by simp [hg]))]
        simp [Message.slotOf, hg, slotPart, visitSlot, hf, hmember]
    | some g =>
      obtain ⟨v, hshape⟩ := h.shape_of_some hfmem hg
      obtain ⟨op, -, hjoin, -⟩ := h.variantPlan_eq hfmem hg
      obtain ⟨hgo, -, -⟩ := h.indexed.group hg
      have hfirst := h.indexed.head_fields_iff (by rw [hsplit, List.map_cons]) hg
      rw [showParts, hshape]
      simp only [hjoin]
      by_cases hseen : g.index ∈ seen
      · -- a member came before, so this one opens no slot
        have hnot : g.fields.head? ≠ some f.field.index := fun hh => by
          obtain ⟨fd', hfd', hg'⟩ := (hinv g hgo).1 hseen
          exact hfirst.1 hh fd' hfd' hg'
        rw [ih (pre ++ [f.field]) seen hrest' hsplit' (hinv.skip (by simp [hg, hseen]))]
        simp [hseen, Message.slotOf, hg, hnot]
      · have hhead : g.fields.head? = some f.field.index :=
          hfirst.2 fun fd' hfd' hg' => hseen ((hinv g hgo).2 ⟨fd', hfd', hg'⟩)
        rw [ih (pre ++ [f.field]) (seen ++ [g.index]) hrest' hsplit' (hinv.record hg hgo)]
        simp [hseen, Message.slotOf, hg, hhead, slotPart, visitSlot, hjoin]

theorem showParts_eq_slots :
    showParts mp.oneofs (fields.zip mp.fields) [] = m.slots.mapM (slotPart mp fields) := by
  have hall := h.showParts_suffix (fields.zip mp.fields) [] [] (fun _ hx => hx)
    (by rw [h.map_zip_field, List.nil_append]) (shownBefore_nil m)
  rwa [h.map_zip_field] at hall

/-- The accessor loop writes a group for every oneof with variant classes, in oneof order,
whether it has members or not. -/
theorem accessors_eq_oneofs :
    c.accessors m mp fields = forM (m.oneofs.filter (!·.synthetic)) fun g =>
      c.oneofAccessors g ((mp.oneofs[g.index]?).join.getD default) fields mp.fields := by
  have hzip : m.oneofs.zip mp.oneofs = m.oneofs.map fun g => (g, (mp.oneofs[g.index]?).join) := by
    refine List.ext_getElem (by simp [h.length_oneofs]) fun k h₁ h₂ => ?_
    have hlt : k < m.oneofs.length := by simpa using h₂
    have hk : m.oneofs[k]? = some m.oneofs[k] := List.getElem?_eq_getElem hlt
    simp [h.indexed.oneof_index k _ hk, List.getElem?_eq_getElem (h.length_oneofs ▸ hlt)]
  unfold Source.accessors
  rw [forIn_unit_eq_forM
    (fun x => x.2.elim (pure ⟨⟩) fun op => c.oneofAccessors x.1 op fields mp.fields) ?step,
    bind_pure_unit, hzip, List.forM_map, forM_filter]
  · refine forM_congr fun g hg => ?_
    obtain ⟨k, hk⟩ := List.mem_iff_getElem?.1 hg
    obtain rfl := h.indexed.oneof_index k g hk
    cases hs : g.synthetic
    · obtain ⟨op, hop, -⟩ := h.plan hk hs
      simp [hop]
    · simp [h.unplanned hk hs]
  case step =>
    intro x _
    obtain ⟨g, op⟩ := x
    cases op <;> simp

end Planned

end BeanCodegen.Emit

namespace BeanCodegen.Emit

open BeanCodegen.Schema BeanCodegen.Plan BeanCodegen.Shape

/-- Every message of a checked session is planned for the loops of its class and converter, once
its fields are classified and none has an extendee. -/
theorem planned_of_checked {r : Descriptor.Request} {s : Session} (hs : Session.checked r = .ok s)
    {f i : Nat} {m : Message} (hf : f < s.graph.files.length)
    (hm : (s.graph.file f).messages[i]? = some m) (hext : ∀ fd ∈ m.fields, fd.extendee = none)
    {fields : List Classified}
    (hfields : m.fields.mapM (classify s.graph s.index (some m)) = .ok fields) :
    Planned ⟨s, f⟩ m (s.alloc.message ⟨f, i⟩) fields where
  indexed := Graph.build_indexed (Session.checked_parts hs).1 f hf m (List.mem_of_getElem? hm)
  no_extendee := hext
  classified := hfields
  planned := Session.checked_messagePlan hs hf hm

/-- Every field of a message written once, in the member section of its class, in its
`toString`, and in the decode and encode methods of its converter. The slots cover the fields,
one slot each, in field order; a field in no oneof with variant classes has a slot of its own,
and such a oneof has one when it has members, with a plan that lists them as its variants. Each
of the four places writes slot after slot. The accessors are written per oneof instead: for every
oneof with variant classes, members or not. -/
structure WritesFieldsOnce (c : Source) (m : Message) (mp : MessagePlan)
    (fields : List Classified) : Prop where
  cover : (m.slots.flatMap m.slotFields).Perm (List.range m.fields.length)
  in_order : fields.map (·.field) = m.fields
  field_slot : ∀ j, Slot.field j ∈ m.slots ↔
    ∃ fd, m.fields[j]? = some fd ∧ m.variantGroup fd = none
  oneof_slot : ∀ k, Slot.oneof k ∈ m.slots ↔
    ∃ g, m.oneofs[k]? = some g ∧ g.synthetic = false ∧ g.fields ≠ []
  variants : ∀ (k : Nat) (g : Oneof), m.oneofs[k]? = some g → g.synthetic = false →
    ∃ op : OneofPlan, mp.oneofs[k]? = some (some op) ∧ op.members = g.fields
  members : c.fieldMembers m mp fields = forM m.slots (visitSlot mp fields
    (fun k op => do c.oneofMembers (m.oneofs[k]?.getD default) op fields mp.fields; blank)
    fun f member => do c.fieldMember f member; blank)
  parts : showParts mp.oneofs (fields.zip mp.fields) [] = m.slots.mapM (slotPart mp fields)
  decode : c.decodeMembers mp fields = forM m.slots
    (visitSlot mp fields (fun _ op => c.decodeOneof op fields mp.fields) c.decodeField)
  encode : c.encodeMembers mp fields = forM m.slots
    (visitSlot mp fields (fun _ op => c.encodeOneof op fields mp.fields) c.encodeField)
  accessors : c.accessors m mp fields = forM (m.oneofs.filter (!·.synthetic)) fun g =>
    c.oneofAccessors g ((mp.oneofs[g.index]?).join.getD default) fields mp.fields

theorem fields_written_once {c : Source} {m : Message} {mp : MessagePlan}
    {fields : List Classified} (h : Planned c m mp fields) : WritesFieldsOnce c m mp fields where
  cover := h.indexed.slots_cover
  in_order := h.map_field
  field_slot _ := h.indexed.field_mem_slots
  oneof_slot _ := h.indexed.oneof_mem_slots
  variants _ _ := h.plan
  members := h.fieldMembers_eq_slots
  parts := h.showParts_eq_slots
  decode := h.decodeMembers_eq_slots
  encode := h.encodeMembers_eq_slots
  accessors := h.accessors_eq_oneofs

/-- A source whose session holds nothing, enough to classify fields of scalar types. -/
def bareSource : Source := ⟨⟨default, default, [], default, default⟩, 0⟩

/-- The member plans made for a message from empty scopes. -/
def freshPlan (m : Message) : MessagePlan where
  className := m.name
  fields := ((planMembers m).run ⟨default, default⟩).1.1
  oneofs := ((planMembers m).run ⟨default, default⟩).1.2.1
  extensions := []
  converter := default

/-- A message's fields as a source classifies them; none when one of them fails. -/
def classifiedBy (c : Source) (m : Message) : List Classified :=
  ((m.fields.mapM (classify c.session.graph c.session.index (some m))).toOption).getD []

/-- A message as a file declares it: a field, then a oneof of two members. -/
def pickMessage : Message :=
  wrapMessage "demo" []
    { raw :=
        { name := some "Hello"
          field :=
            [{ name := some "code", number := some 1, label := some 1, fieldType := some 5 },
              { name := some "text", number := some 2, label := some 1, fieldType := some 9,
                oneofIndex := some 0 },
              { name := some "flag", number := some 3, label := some 1, fieldType := some 8,
                oneofIndex := some 0 }]
          oneofDecl := [{ name := some "pick" }] }
      parent := none, index := 0, path := [4, 0], typeName := ["Hello"] }

theorem pick_fields_written_once :
    Planned bareSource pickMessage (freshPlan pickMessage) (classifiedBy bareSource pickMessage) ∧
      WritesFieldsOnce bareSource pickMessage (freshPlan pickMessage)
        (classifiedBy bareSource pickMessage) := by
  have hplanned : Planned bareSource pickMessage (freshPlan pickMessage)
      (classifiedBy bareSource pickMessage) :=
    { indexed := wrapMessage_indexed _ _ _
      no_extendee := by decide
      classified := rfl
      planned := ⟨⟨default, default⟩, by simp only [freshPlan], by simp only [freshPlan]⟩ }
  exact ⟨hplanned, fields_written_once hplanned⟩

/-- A message as a file declares it: a field, and a oneof that no field is a member of. -/
def emptyPickMessage : Message :=
  wrapMessage "demo" []
    { raw :=
        { name := some "Hello"
          field := [{ name := some "code", number := some 1, label := some 1, fieldType := some 5 }]
          oneofDecl := [{ name := some "pick" }] }
      parent := none, index := 0, path := [4, 0], typeName := ["Hello"] }

/-- A oneof without members has no slot, yet the accessor loop writes its accessors, from a plan
with no variants whose case getter was never named. -/
theorem memberless_oneof_accessors :
    Slot.oneof 0 ∉ emptyPickMessage.slots ∧
      ∃ op, (freshPlan emptyPickMessage).oneofs = [some op] ∧ op.variants = [] ∧
        op.caseGetter = "" ∧
        bareSource.accessors emptyPickMessage (freshPlan emptyPickMessage)
            (classifiedBy bareSource emptyPickMessage) =
          forM emptyPickMessage.oneofs fun g =>
            bareSource.oneofAccessors g op (classifiedBy bareSource emptyPickMessage)
              (freshPlan emptyPickMessage).fields := by
  obtain ⟨op, hop⟩ : ∃ op, (freshPlan emptyPickMessage).oneofs = [some op] := ⟨_, rfl⟩
  have hnames : (freshPlan emptyPickMessage).oneofs.map
      (Option.map fun p => (p.variants.length, p.caseGetter)) = [some (0, "")] := by decide
  rw [hop] at hnames
  simp only [List.map_cons, List.map_nil, Option.map_some, List.cons.injEq, Option.some.injEq,
    Prod.mk.injEq, List.length_eq_zero_iff, and_true] at hnames
  refine ⟨by decide, op, hop, hnames.1, hnames.2, ?_⟩
  unfold Source.accessors
  rw [hop]
  simp [emptyPickMessage, wrapMessage, wrapOneofs]

end BeanCodegen.Emit
