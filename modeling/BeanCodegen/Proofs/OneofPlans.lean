import Mathlib
import BeanCodegen.Emit.Draft
import BeanCodegen.Proofs.Arena
import BeanCodegen.Proofs.ClassScopes
/-! # Oneof plans

Which fields a oneof's plan lists as its variants. Building a file numbers every field and
oneof of a message by its position and lists with each oneof the positions of its member fields
(`Message.Indexed`). Planning a message's members then gives every oneof that is not
synthetic a plan whose variants are exactly its member fields, in field order
(`planMembers_members`). A member field without an extendee is classified as a variant of that
oneof (`classify_variant`).
-/

namespace BeanCodegen.Schema

/-- A message whose fields and oneofs carry their positions, and whose oneofs list the positions
of their member fields. -/
structure Message.Indexed (m : Message) : Prop where
  field_index : ∀ (j : Nat) (fd : Field), m.fields[j]? = some fd → fd.index = j
  oneof_index : ∀ (k : Nat) (o : Oneof), m.oneofs[k]? = some o → o.index = k
  oneof_fields : ∀ (k : Nat) (o : Oneof), m.oneofs[k]? = some o →
    o.fields = (m.fields.filter fun fd => fd.oneofIndex = some k).map (·.index)

/-- Whether a field of `m` is a member of the oneof at position `k`, one that gets variant
classes. -/
def Message.variantOf (m : Message) (k : Nat) (fd : Field) : Bool :=
  (m.variantGroup fd).map (·.index) == some k

theorem wrapMessage_indexed (pkg : String) (flat : List FlatMessage) (fm : FlatMessage) :
    (wrapMessage pkg flat fm).Indexed where
  field_index := by
    intro j fd h
    simp only [wrapMessage, wrapFields, List.getElem?_map, List.getElem?_zipIdx,
      Option.map_map, Option.map_eq_some_iff, Function.comp_apply, Nat.zero_add] at h
    obtain ⟨raw, -, rfl⟩ := h
    rfl
  oneof_index := by
    intro k o h
    simp only [wrapMessage, wrapOneofs, List.getElem?_map, List.getElem?_zipIdx,
      Option.map_map, Option.map_eq_some_iff, Function.comp_apply, Nat.zero_add] at h
    obtain ⟨raw, -, rfl⟩ := h
    rfl
  oneof_fields := by
    intro k o h
    simp only [wrapMessage, wrapOneofs, List.getElem?_map, List.getElem?_zipIdx,
      Option.map_map, Option.map_eq_some_iff, Function.comp_apply, Nat.zero_add] at h
    obtain ⟨raw, -, rfl⟩ := h
    rfl

/-- Linking a message sets only its children, so it keeps the positions of its fields and
oneofs. -/
theorem Arena.indexed {raw : Descriptor.FileProto} {u : File} (h : Arena raw u) :
    ∀ m ∈ u.messages, m.Indexed := by
  intro m hm
  obtain ⟨i, hi⟩ := List.mem_iff_getElem?.1 hm
  have hwrap := congrArg (·[i]?) h.wraps
  simp only [List.getElem?_map, hi, Option.map_some] at hwrap
  obtain ⟨fm, -, hfm⟩ := Option.map_eq_some_iff.1 hwrap.symm
  have hcleared : ({ m with nested := [], enums := [] } : Message).Indexed :=
    hfm ▸ wrapMessage_indexed _ _ fm
  exact ⟨hcleared.field_index, hcleared.oneof_index, hcleared.oneof_fields⟩

/-- Every message of a built graph is indexed. -/
theorem Graph.build_indexed {raws : List Descriptor.FileProto} {g : Graph}
    (h : Graph.build raws = .ok g) : ∀ f < g.files.length, ∀ m ∈ (g.file f).messages, m.Indexed := by
  intro f hf
  obtain ⟨raw, harena, -⟩ := Graph.build_file_arena h hf
  exact harena.indexed

/-- In an indexed message, a field is a member of the oneof at position `k`, when that oneof is
not synthetic, exactly when its oneof index is `k`. -/
theorem Message.Indexed.variantOf_iff {m : Message} (hm : m.Indexed) {k : Nat} {o : Oneof}
    (ho : m.oneofs[k]? = some o) (hs : o.synthetic = false) (fd : Field) :
    m.variantOf k fd = true ↔ fd.oneofIndex = some k := by
  cases hi : fd.oneofIndex with
  | none => simp [Message.variantOf, Message.variantGroup, hi]
  | some k' =>
    by_cases hk : k' = k
    · subst hk
      simp [Message.variantOf, Message.variantGroup, hi, ho, hs, hm.oneof_index _ _ ho]
    · cases ho' : m.oneofs[k']? with
      | none => simp [Message.variantOf, Message.variantGroup, hi, ho', hk]
      | some o' =>
        have hidx := hm.oneof_index _ _ ho'
        cases hs' : o'.synthetic <;>
          simp [Message.variantOf, Message.variantGroup, hi, ho', hs', hidx, hk]

end BeanCodegen.Schema

namespace BeanCodegen.Shape

open BeanCodegen.Schema

/-- A member of a oneof with variant classes and without an extendee is classified as a variant
of that oneof, with its own descriptor. -/
theorem classify_variant {g : Graph} {idx : TypeIndex} {m : Message} {fd : Field} {o : Oneof}
    {cf : Classified} (hext : fd.extendee = none) (ho : m.variantGroup fd = some o)
    (h : classify g idx (some m) fd = .ok cf) :
    cf.field = fd ∧ ∃ v, cf.shape = .variant o.index v := by
  unfold classify at h
  obtain ⟨value, -, h⟩ := except_bind_eq_ok h
  obtain ⟨shape, hshape, h⟩ := except_bind_eq_ok h
  simp only [shapeOf, hext, ho, Option.bind_some] at hshape
  cases hshape
  -- whatever its default, the field comes back with the variant shape
  obtain ⟨default, -, h⟩ := except_bind_eq_ok h
  cases h
  exact ⟨rfl, _, rfl⟩

end BeanCodegen.Shape

namespace BeanCodegen.Plan

open BeanCodegen.Naming BeanCodegen.Schema

/-- The member fields a oneof plan records: the field of each variant, in order. -/
def OneofPlan.members (p : OneofPlan) : List Nat := p.variants.map (·.fieldIndex)

/-- The member fields each oneof plan of a message records; none for a oneof without a plan. -/
def recordedMembers (plans : List (Option OneofPlan)) : List (Option (List Nat)) :=
  plans.map (Option.map OneofPlan.members)

/-- The members `rs` recorded after the fields `fs` are named: every oneof with a plan gains
those of its member fields that are among them, in order. -/
def addMembers (m : Message) (rs : List (Option (List Nat))) (fs : List Field) :
    List (Option (List Nat)) :=
  rs.zipIdx.map fun (r, k) => r.map (· ++ (fs.filter (m.variantOf k)).map (·.index))

section Members

variable (m : Message)

theorem getElem?_addMembers (rs : List (Option (List Nat))) (fs : List Field) (k : Nat) :
    (addMembers m rs fs)[k]? =
      rs[k]?.map (Option.map (· ++ (fs.filter (m.variantOf k)).map (·.index))) := by
  simp only [addMembers, List.getElem?_map, List.getElem?_zipIdx, Option.map_map]
  congr 1
  funext r
  simp

theorem addMembers_nil (rs : List (Option (List Nat))) : addMembers m rs [] = rs := by
  refine List.ext_getElem? fun k => ?_
  rw [getElem?_addMembers]
  cases rs[k]? with
  | none => rfl
  | some r => cases r <;> simp

theorem addMembers_append (rs : List (Option (List Nat))) (fs₁ fs₂ : List Field) :
    addMembers m (addMembers m rs fs₁) fs₂ = addMembers m rs (fs₁ ++ fs₂) := by
  refine List.ext_getElem? fun k => ?_
  rw [getElem?_addMembers, getElem?_addMembers, getElem?_addMembers]
  cases rs[k]? with
  | none => rfl
  | some r => cases r <;> simp [List.filter_append]

theorem variantOf_eq_true {k : Nat} {fd : Field} :
    m.variantOf k fd = true ↔ ∃ g, m.variantGroup fd = some g ∧ g.index = k := by
  unfold Message.variantOf
  cases m.variantGroup fd <;> simp

/-- A field of no oneof with a plan leaves the recorded members as they are. -/
theorem addMembers_single_of_unplanned (rs : List (Option (List Nat))) (fd : Field)
    (h : ∀ k, m.variantOf k fd = true → rs[k]?.join = none) : addMembers m rs [fd] = rs := by
  refine List.ext_getElem? fun k => ?_
  rw [getElem?_addMembers]
  by_cases hk : m.variantOf k fd = true
  · have hnone := h k hk
    cases hr : rs[k]? with
    | none => rfl
    | some r =>
      rw [hr, Option.join_some] at hnone
      rw [hnone]
      rfl
  · cases rs[k]? with
    | none => rfl
    | some r => cases r <;> simp [hk]

/-- A member of a oneof with a plan is recorded at the end of that plan's members. -/
theorem addMembers_single_of_planned (rs : List (Option (List Nat))) (fd : Field) {g : Oneof}
    (hg : m.variantGroup fd = some g) {r : List Nat} (hr : rs[g.index]? = some (some r)) :
    addMembers m rs [fd] = rs.set g.index (some (r ++ [fd.index])) := by
  refine List.ext_getElem? fun k => ?_
  rw [getElem?_addMembers, List.getElem?_set]
  by_cases hk : g.index = k
  · subst hk
    have hv : m.variantOf g.index fd = true := (variantOf_eq_true m).2 ⟨g, hg, rfl⟩
    have hlt : g.index < rs.length := (List.getElem?_eq_some_iff.1 hr).1
    rw [hr, if_pos rfl, if_pos hlt]
    simp [hv]
  · have hv : m.variantOf k fd = false := by
      rw [Bool.eq_false_iff]
      intro hv
      obtain ⟨g', hg', hk'⟩ := (variantOf_eq_true m).1 hv
      rw [hg, Option.some.injEq] at hg'
      exact hk (hg' ▸ hk')
    rw [if_neg hk]
    cases rs[k]? with
    | none => rfl
    | some r' => cases r' <;> simp [hv]

/-- Naming a field adds it to the members of its oneof's plan. -/
theorem nameField_members (fd : Field) (plans : List (Option OneofPlan)) (s : MessageScopes) :
    recordedMembers ((nameField m fd plans).run s).1.2 =
      addMembers m (recordedMembers plans) [fd] := by
  unfold nameField
  split
  · -- not a member of a oneof with variant classes
    rename_i hg
    refine (addMembers_single_of_unplanned m _ fd fun k hk => ?_).symm
    obtain ⟨g, hg', -⟩ := (variantOf_eq_true m).1 hk
    rw [hg] at hg'
    cases hg'
  · rename_i g hg
    split
    · rename_i p hp
      have hrec : (recordedMembers plans)[g.index]? = some (some p.members) := by
        simp [recordedMembers, hp]
      rw [addMembers_single_of_planned m _ fd hg hrec]
      -- the plan gains a variant for the field, whether or not it is the first
      split <;>
      · simp only [stateM_run_bind, onMembers_run, onClasses_run, claimName_run,
          stateM_run_pure]
        simp [recordedMembers, List.map_set, OneofPlan.members]
    · rename_i hp
      simp only [stateM_run_bind, onMembers_run, claimName_run, stateM_run_pure]
      refine (addMembers_single_of_unplanned m _ fd fun k hk => ?_).symm
      obtain ⟨g', hg', rfl⟩ := (variantOf_eq_true m).1 hk
      rw [hg, Option.some.injEq] at hg'
      subst hg'
      cases hq : plans[g.index]? with
      | none => simp [recordedMembers, hq]
      | some q =>
        cases q with
        | none => simp [recordedMembers, hq]
        | some q => exact absurd hq (hp q)

/-- Naming fields in order adds each to the members of its oneof's plan. -/
theorem nameFields_members :
    ∀ (fs : List Field) (plans : List (Option OneofPlan)) (s : MessageScopes),
      recordedMembers ((nameFields m fs plans).run s).1.2 =
        addMembers m (recordedMembers plans) fs
  | [], plans, s => (addMembers_nil m _).symm
  | fd :: fs, plans, s => by
    simp only [nameFields, stateM_run_bind, stateM_run_pure]
    rw [nameFields_members fs, nameField_members, addMembers_append, List.singleton_append]

theorem length_nameFields :
    ∀ (fs : List Field) (plans : List (Option OneofPlan)) (s : MessageScopes),
      ((nameFields m fs plans).run s).1.1.length = fs.length
  | [], _, _ => rfl
  | fd :: fs, plans, s => by
    simp only [nameFields, stateM_run_bind, stateM_run_pure, List.length_cons]
    rw [length_nameFields fs]

/-- A oneof starts with a plan without variants, unless it is synthetic. -/
theorem startOneof_members (o : Oneof) (s : MessageScopes) :
    (((startOneof o).run s).1).map OneofPlan.members =
      if o.synthetic then none else some [] := by
  unfold startOneof
  cases o.synthetic with
  | true => rfl
  | false =>
    simp only [Bool.false_eq_true, if_false, stateM_run_bind, onClasses_run, claimName_run,
      stateM_run_pure, Option.map_some, OneofPlan.members, List.map_nil]

theorem nameCases_members (o : Oneof) (p : OneofPlan) : (nameCases m o p).members = p.members := by
  simp only [nameCases, OneofPlan.members, Id.run, stateM_run_bind, stateM_run_pure]
  refine stateM_mapM_map _ _ _ ?_ _ _
  intro v s
  rfl

theorem length_addMembers (rs : List (Option (List Nat))) (fs : List Field) :
    (addMembers m rs fs).length = rs.length := by
  simp [addMembers]

/-- Planning a message's members gives each oneof that is not synthetic a plan whose variants
are its member fields, in field order, and a synthetic one none. -/
theorem planMembers_members (s : MessageScopes) :
    recordedMembers ((planMembers m).run s).1.2.1 =
      addMembers m (m.oneofs.map fun o => if o.synthetic then none else some []) m.fields := by
  simp only [planMembers, stateM_run_bind, stateM_run_pure]
  have hstart : recordedMembers ((m.oneofs.mapM startOneof).run s).1 =
      m.oneofs.map fun o => if o.synthetic then none else some [] :=
    stateM_mapM_map startOneof _ _ startOneof_members m.oneofs s
  have hnamed := nameFields_members m m.fields ((m.oneofs.mapM startOneof).run s).1
    ((m.oneofs.mapM startOneof).run s).2
  rw [hstart] at hnamed
  rw [← hnamed]
  generalize ((nameFields m m.fields _).run _).1.2 = started at hnamed ⊢
  have hlen : started.length ≤ m.oneofs.length := by
    have := congrArg List.length hnamed
    simp only [recordedMembers, List.length_map, length_addMembers] at this
    omega
  -- naming the case constants keeps each plan's variants
  calc recordedMembers ((m.oneofs.zip started).map fun x => x.2.map (nameCases m x.1))
      = ((m.oneofs.zip started).map Prod.snd).map (Option.map OneofPlan.members) := by
        simp only [recordedMembers, List.map_map]
        refine List.map_congr_left fun x _ => ?_
        obtain ⟨o, p⟩ := x
        cases p <;> simp [nameCases_members]
    _ = recordedMembers started := by rw [List.map_snd_zip hlen]; rfl

/-- The plan at position `k` of a message's oneofs belongs to a oneof that is not synthetic,
and its variants are that oneof's member fields in field order. -/
theorem planMembers_oneof (s : MessageScopes) {k : Nat} {op : OneofPlan}
    (h : ((planMembers m).run s).1.2.1[k]? = some (some op)) :
    ∃ o, m.oneofs[k]? = some o ∧ o.synthetic = false ∧
      op.members = (m.fields.filter (m.variantOf k)).map (·.index) := by
  have hk := congrArg (·[k]?) (planMembers_members m s)
  simp only [recordedMembers, List.getElem?_map, h, Option.map_some, getElem?_addMembers] at hk
  cases ho : m.oneofs[k]? with
  | none => simp [ho] at hk
  | some o =>
    cases hs : o.synthetic with
    | true => simp [ho, hs] at hk
    | false =>
      simp only [ho, hs, Option.map_some, Bool.false_eq_true, if_false, Option.some.injEq,
        List.nil_append] at hk
      exact ⟨o, rfl, hs, hk⟩

/-- A message's plan has a member plan per field. -/
theorem length_planMembers_fields (s : MessageScopes) :
    ((planMembers m).run s).1.1.length = m.fields.length := by
  simp only [planMembers, stateM_run_bind, stateM_run_pure, List.length_map, List.length_zip,
    length_nameFields, length_stateM_mapM]
  omega

/-- A oneof planned for an indexed message opens at its first member, when it has members and
they have no extendee: that field, classified, is a variant of the oneof and the first the plan
lists. -/
theorem exists_opening_field (hm : m.Indexed)
    (hmembers : ∀ o ∈ m.oneofs, o.synthetic = false → o.fields ≠ [])
    (hext : ∀ fd ∈ m.fields, fd.oneofIndex.isSome → fd.extendee = none)
    {g : Graph} {idx : TypeIndex} {fields : List Shape.Classified}
    (hfields : m.fields.mapM (Shape.classify g idx (some m)) = .ok fields) (s : MessageScopes)
    {k : Nat} {op : OneofPlan} (hop : ((planMembers m).run s).1.2.1[k]? = some (some op)) :
    ∃ x ∈ fields.zip ((planMembers m).run s).1.1,
      Emit.variantPlan ((planMembers m).run s).1.2.1 x.1 = some op ∧
        Emit.opensOneof op x.1 = true := by
  obtain ⟨o, ho, hs, hvariants⟩ := planMembers_oneof m s hop
  have hfilter : m.fields.filter (m.variantOf k) = m.fields.filter fun fd => fd.oneofIndex = some k :=
    List.filter_congr fun fd _ => Bool.eq_iff_iff.2 (by simpa using hm.variantOf_iff ho hs fd)
  -- the oneof's first member field, at its own position among the fields
  obtain ⟨fd, rest, hfirst⟩ : ∃ fd rest, m.fields.filter (m.variantOf k) = fd :: rest := by
    have hne := hmembers o (List.mem_of_getElem? ho) hs
    rw [hm.oneof_fields k o ho, ← hfilter] at hne
    cases h : m.fields.filter (m.variantOf k) with
    | nil => simp [h] at hne
    | cons fd rest => exact ⟨fd, rest, rfl⟩
  have hfd : fd ∈ m.fields ∧ m.variantOf k fd = true :=
    List.mem_filter.1 (hfirst ▸ List.mem_cons_self)
  have hidx : fd.oneofIndex = some k := (hm.variantOf_iff ho hs fd).1 hfd.2
  have hgroup : m.variantGroup fd = some o := by simp [Message.variantGroup, hidx, ho, hs]
  obtain ⟨j, hj⟩ := List.mem_iff_getElem?.1 hfd.1
  have hjlt : j < m.fields.length := (List.getElem?_eq_some_iff.1 hj).1
  obtain ⟨hlen, hall⟩ := mapM_eq_ok_forall hfields
  obtain ⟨cf, hcf⟩ : ∃ cf, fields[j]? = some cf :=
    ⟨_, List.getElem?_eq_getElem (hlen ▸ hjlt)⟩
  obtain ⟨member, hmember⟩ : ∃ member, ((planMembers m).run s).1.1[j]? = some member :=
    ⟨_, List.getElem?_eq_getElem ((length_planMembers_fields m s).symm ▸ hjlt)⟩
  obtain ⟨hcfield, v, hshape⟩ :=
    Shape.classify_variant (hext fd hfd.1 (by simp [hidx])) hgroup (hall j fd cf hj hcf)
  refine ⟨(cf, member), List.mem_of_getElem? (List.getElem?_zip_eq_some.2 ⟨hcf, hmember⟩), ?_, ?_⟩
  · simp [Emit.variantPlan, hshape, hm.oneof_index k o ho, hop]
  · have hhead : op.variants.head?.map (·.fieldIndex) = some fd.index := by
      rw [← List.head?_map]
      change op.members.head? = _
      rw [hvariants, hfirst]
      rfl
    simp [Emit.opensOneof, hhead, hcfield]

end Members

end BeanCodegen.Plan
