import Mathlib
import BeanCodegen.Compile
import BeanCodegen.Proofs.OneofPlans
import BeanCodegen.Proofs.MessageWalk
import BeanCodegen.Proofs.ArtifactPaths
/-! # Positions in range

The generators read plans and schema elements by position, falling back to a default where a
position is missing. In a checked session the positions they read are there: a file has a plan
per message and per enum, a message's parent comes before it, a message's plan has a member per
field and a oneof plan per oneof whose variants are fields of that oneof (`MembersFit`), a field
classified as a variant names a oneof of its message, and an enum value that aliases an earlier
one names an earlier constant (`EnumType.AliasesEarlier`).

The one piece of 32-bit arithmetic, the last number of an extension range, is exact for every
range end but the least (`rangeLast_eq`).
-/

namespace BeanCodegen.Emit

theorem bmod_two_pow_32 {n : Int} (hlo : -2147483648 ≤ n) (hhi : n ≤ 2147483647) :
    n.bmod (2 ^ 32) = n :=
  Int.bmod_eq_of_le (by norm_num; omega) (by norm_num; omega)

/-- The last number of an extension range is its end less one, for every 32-bit end but the
least. -/
theorem rangeLast_eq {stop : Int} (hlo : -2147483648 < stop) (hhi : stop ≤ 2147483647) :
    rangeLast stop = stop - 1 := by
  have hstop : (Int32.ofInt stop).toInt = stop := by
    rw [Int32.toInt_ofInt]
    exact bmod_two_pow_32 hlo.le hhi
  unfold rangeLast
  rw [Int32.toInt_sub, hstop, show (1 : Int32).toInt = 1 from rfl]
  exact bmod_two_pow_32 (by omega) (by omega)

end BeanCodegen.Emit

namespace BeanCodegen.Schema

/-- Each value of an enum that aliases an earlier one names a position before its own. -/
def EnumType.AliasesEarlier (e : EnumType) : Prop :=
  ∀ (j : Nat) (v : EnumValue), e.values[j]? = some v → ∀ a, v.aliasOf = some a → a < j

theorem wrapEnum_aliasesEarlier (raw : Descriptor.EnumProto) (pkg : String)
    (parent : Option (Nat × List String)) (i : Nat) (path : List Nat) :
    (wrapEnum raw pkg parent i path).AliasesEarlier := by
  unfold EnumType.AliasesEarlier
  intro j v hv a ha
  simp only [wrapEnum, wrapValues, List.getElem?_map, List.getElem?_zipIdx, Option.map_map,
    Function.comp_def] at hv
  obtain ⟨x, -, rfl⟩ := Option.map_eq_some_iff.1 hv
  have hlt := (List.findIdx?_eq_some_iff_findIdx_eq.1 ha).1
  simp only [List.length_take] at hlt
  omega

theorem Arena.aliasesEarlier {raw : Descriptor.FileProto} {u : File} (h : Arena raw u) :
    ∀ e ∈ u.enums, e.AliasesEarlier := by
  intro e he
  rw [h.enums_order] at he
  simp only [arenaEnums, FlatMessage.enums, List.mem_append, List.mem_map, List.mem_flatMap] at he
  rcases he with ⟨r, -, rfl⟩ | ⟨x, -, r, -, rfl⟩
  · exact wrapEnum_aliasesEarlier _ _ _ _ _
  · exact wrapEnum_aliasesEarlier _ _ _ _ _

/-- A field is a variant of a oneof with variant classes exactly when its oneof index names
that oneof. -/
theorem Message.variantGroup_eq_some {m : Message} {fd : Field} {o : Oneof}
    (h : m.variantGroup fd = some o) :
    ∃ k, fd.oneofIndex = some k ∧ m.oneofs[k]? = some o ∧ o.synthetic = false := by
  unfold Message.variantGroup at h
  cases hk : fd.oneofIndex with
  | none => simp [hk] at h
  | some k =>
    cases ho : m.oneofs[k]? with
    | none => simp [hk, ho] at h
    | some o' =>
      cases hs : o'.synthetic
      · have ho' : o' = o := by simpa [hk, ho, hs] using h
        subst ho'
        exact ⟨k, rfl, ho, hs⟩
      · simp [hk, ho, hs] at h

end BeanCodegen.Schema

namespace BeanCodegen.Shape

open BeanCodegen.Schema

theorem mapShape_eq_ok {g : Graph} {idx : TypeIndex} {entry : MessageId} {sh : FieldShape}
    (h : mapShape g idx entry = .ok sh) : ∃ key value, sh = .map key value := by
  unfold mapShape at h
  dsimp only at h
  split at h
  · split at h
    · obtain ⟨value, -, h⟩ := except_bind_eq_ok h
      cases h
      exact ⟨_, _, rfl⟩
    · cases h
  · cases h

/-- A field of an indexed message classified as a variant of oneof `k` is a member of the oneof
at position `k`, one with variant classes. -/
theorem classify_variant_oneof {g : Graph} {idx : TypeIndex} {m : Message} (hm : m.Indexed)
    {fd : Field} {cf : Classified} {k : Nat} {v : ValueKind}
    (h : classify g idx (some m) fd = .ok cf) (hshape : cf.shape = .variant k v) :
    ∃ o, m.oneofs[k]? = some o ∧ o.synthetic = false ∧ fd.oneofIndex = some k := by
  unfold classify at h
  obtain ⟨value, -, h⟩ := except_bind_eq_ok h
  obtain ⟨shape, hsh, h⟩ := except_bind_eq_ok h
  obtain ⟨default, -, h⟩ := except_bind_eq_ok h
  cases h
  unfold shapeOf at hsh
  split at hsh
  · -- an extension
    obtain ⟨_, -, hsh⟩ := except_bind_eq_ok hsh
    cases hsh
    cases hshape
  split at hsh
  · -- a variant of the oneof its index names
    rename_i grp hgrp
    cases hsh
    cases hshape
    obtain ⟨j, hj, ho, hs⟩ := Message.variantGroup_eq_some (by simpa using hgrp)
    rw [hm.oneof_index j grp ho]
    exact ⟨grp, ho, hs, hj⟩
  -- a map or a field holding its values directly
  split at hsh
  · split at hsh
    · obtain ⟨key, value, rfl⟩ := mapShape_eq_ok hsh
      cases hshape
    · cases hsh
      cases hshape
  · cases hsh
    cases hshape
  · cases hsh
    cases hshape

end BeanCodegen.Shape

namespace BeanCodegen.Plan

open BeanCodegen.Schema

/-- Member plans that fit a message: one per field, one oneof plan per oneof, and each variant of
a oneof plan a field of that oneof. -/
structure MembersFit (m : Message) (members : List MemberPlan) (oneofs : List (Option OneofPlan)) :
    Prop where
  members_length : members.length = m.fields.length
  oneofs_length : oneofs.length = m.oneofs.length
  variant_field : ∀ (k : Nat) (op : OneofPlan), oneofs[k]? = some (some op) →
    ∀ v ∈ op.variants,
      ∃ fd : Field, m.fields[v.fieldIndex]? = some fd ∧ fd.oneofIndex = some k

section Members

variable (m : Message)

theorem length_planMembers_oneofs (s : MessageScopes) :
    ((planMembers m).run s).1.2.1.length = m.oneofs.length := by
  simpa [recordedMembers, length_addMembers] using congrArg List.length (planMembers_members m s)

/-- The member plans of an indexed message fit it. -/
theorem planMembers_fit (hm : m.Indexed) (s : MessageScopes) :
    MembersFit m ((planMembers m).run s).1.1 ((planMembers m).run s).1.2.1 where
  members_length := length_planMembers_fields m s
  oneofs_length := length_planMembers_oneofs m s
  variant_field k op hop v hv := by
    obtain ⟨o, ho, hs, hmembers⟩ := planMembers_oneof m s hop
    have hidx : v.fieldIndex ∈ (m.fields.filter (m.variantOf k)).map (·.index) := by
      rw [← hmembers]
      exact List.mem_map_of_mem hv
    obtain ⟨fd, hfd, hfi⟩ := List.mem_map.1 hidx
    obtain ⟨hmem, hvar⟩ := List.mem_filter.1 hfd
    obtain ⟨j, hj⟩ := List.mem_iff_getElem?.1 hmem
    refine ⟨fd, ?_, (hm.variantOf_iff ho hs fd).1 hvar⟩
    rw [← hfi, hm.field_index j fd hj]
    exact hj

end Members

section PlanFile

variable (cfg : Config) (u : File) (s : SharedNames)

theorem length_planFile_messages :
    ((planFile cfg u).run s).1.messages.length = u.messages.length := by
  rw [planFile_messages, length_walkTo_plans (le_refl _)]
  simp [startWalk]

theorem planFile_enumConstants {e : Nat} {en : EnumType} (he : u.enums[e]? = some en) :
    ((((planFile cfg u).run s).1.enums[e]?).getD default).constants.length = en.values.length := by
  simp only [planFile, StateT.run, bind, StateT.bind, get, getThe, MonadStateOf.get, StateT.get,
    set, StateT.set, pure, StateT.pure, List.getElem?_map, List.getElem?_zipIdx, he,
    Option.map_some, Option.getD_some]
  exact length_stateM_mapM _ _ _

theorem length_planFile_enums : ((planFile cfg u).run s).1.enums.length = u.enums.length := by
  simp [planFile, StateT.run, bind, StateT.bind, get, getThe, MonadStateOf.get, StateT.get,
    set, StateT.set, pure, StateT.pure]

end PlanFile

end BeanCodegen.Plan

namespace BeanCodegen

open BeanCodegen.Schema BeanCodegen.Plan BeanCodegen.Descriptor

section Checked

variable {r : Request} {s : Session} (hs : Session.checked r = .ok s)
include hs

/-- The plan of a message of a checked session is the member plan made for it. -/
theorem Session.checked_messagePlan {f i : Nat} {m : Message} (hf : f < s.graph.files.length)
    (hm : (s.graph.file f).messages[i]? = some m) :
    ∃ S, (s.alloc.message ⟨f, i⟩).fields = ((planMembers m).run S).1.1 ∧
      (s.alloc.message ⟨f, i⟩).oneofs = ((planMembers m).run S).1.2.1 := by
  obtain ⟨-, -, sn, hp⟩ := Session.checked_plan hs hf
  obtain ⟨p, hplans, -, hone, hfields⟩ :=
    walk_plan (w := startWalk s.config (s.graph.file f)) rfl hm
  have hmp : s.alloc.message ⟨f, i⟩ = p := by
    simp only [Allocation.message, hp, planFile_messages, hplans, Option.getD_some]
  exact ⟨_, hmp ▸ hfields, hmp ▸ hone⟩

end Checked

/-- What the generators read by position is there, in every file of a session. -/
structure Session.IndicesInRange (s : Session) : Prop where
  /-- A file has a plan per message and per enum. -/
  messagePlans : ∀ f < s.graph.files.length,
    (s.alloc.file f).messages.length = (s.graph.file f).messages.length
  enumPlans : ∀ f < s.graph.files.length,
    (s.alloc.file f).enums.length = (s.graph.file f).enums.length
  /-- The walk up the parent chain steps to earlier messages. -/
  parent_lt : ∀ f < s.graph.files.length, ∀ (i : Nat) (m : Message),
    (s.graph.file f).messages[i]? = some m → ∀ p, m.parent = some p → p < i
  members : ∀ f < s.graph.files.length, ∀ (i : Nat) (m : Message),
    (s.graph.file f).messages[i]? = some m →
      MembersFit m (s.alloc.message ⟨f, i⟩).fields (s.alloc.message ⟨f, i⟩).oneofs
  variant_oneof : ∀ f < s.graph.files.length, ∀ (i : Nat) (m : Message),
    (s.graph.file f).messages[i]? = some m →
      ∀ (fd : Field) (cf : Shape.Classified) (k : Nat) (v : Shape.ValueKind),
        Shape.classify s.graph s.index (some m) fd = .ok cf → cf.shape = .variant k v →
          k < m.oneofs.length
  /-- An enum's plan has a constant per value, and aliases name earlier values. -/
  enumConstants : ∀ f < s.graph.files.length, ∀ (j : Nat) (e : EnumType),
    (s.graph.file f).enums[j]? = some e →
      (s.alloc.enumPlan ⟨f, j⟩).constants.length = e.values.length
  aliases : ∀ f < s.graph.files.length, ∀ e ∈ (s.graph.file f).enums, e.AliasesEarlier

end BeanCodegen
