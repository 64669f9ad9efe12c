import Mathlib
import BeanCodegen.Proofs.ClassScopes
import BeanCodegen.Proofs.Arena
/-! # Planning messages in arena order

A file's messages are planned one after another in arena order. Planning a message names its
nested messages and enums and no other node, and a nested message comes after its parent. So a
node's name is fixed once its parent is planned: when a message is planned, its own name and its
ancestors' names are the ones its plan and theirs keep, and its registry of nested classes is
seeded with exactly those.

The main statement, `walk_nestedClasses`, says that the classes declared inside a message (its
nested messages other than map entries, its nested enums and the classes of its oneofs) get
pairwise distinct names, none taken in that registry.
-/

namespace BeanCodegen.Plan

open BeanCodegen.Naming BeanCodegen.Schema

/-- The registry a message's nested classes are claimed in: the reserved names, the message's
own name and its ancestors' names, as the names chosen so far give them. -/
def scopeOf (u : File) (names : Array (Option String)) (i : Nat) : Registry :=
  reservedWith (ancestorNames u names (u.messages.length + 1) (some i))

/-- The walk after planning the first `k` messages of a file. -/
def walkTo (u : File) (w : MessageWalk) (k : Nat) : MessageWalk :=
  (u.messages.zipIdx.take k).foldl (fun w x => planMessage u w x.1 x.2) w

section Step

variable (u : File) (w : MessageWalk) (m : Message) (i : Nat)

theorem planMessage_messageNames :
    (planMessage u w m i).messageNames =
      (claimChildren u m (scopeOf u w.messageNames i) w.messageNames w.enumNames).2.1 := rfl

theorem planMessage_enumNames :
    (planMessage u w m i).enumNames =
      (claimChildren u m (scopeOf u w.messageNames i) w.messageNames w.enumNames).2.2 := rfl

/-- Planning a message appends its plan: its class keeps the name chosen for it, and its members
and oneofs are planned in the registry its nested types were claimed in. -/
theorem planMessage_plans :
    ∃ p : MessagePlan, (planMessage u w m i).plans = w.plans ++ [p] ∧
      p.className = w.messageNames[i]?.join.getD m.name ∧
      p.oneofs = ((planMembers m).run
        { classes := (claimChildren u m (scopeOf u w.messageNames i) w.messageNames w.enumNames).1,
          members := reservedWith objectMethods }).1.2.1 ∧
      p.fields = ((planMembers m).run
        { classes := (claimChildren u m (scopeOf u w.messageNames i) w.messageNames w.enumNames).1,
          members := reservedWith objectMethods }).1.1 :=
  ⟨_, rfl, rfl, rfl, rfl⟩

end Step

section Walk

variable {u : File} {w : MessageWalk}

theorem walkTo_succ {k : Nat} {m : Message} (h : u.messages[k]? = some m) :
    walkTo u w (k + 1) = planMessage u (walkTo u w k) m k := by
  have hk : u.messages.zipIdx[k]? = some (m, k) := by simp [List.getElem?_zipIdx, h]
  simp only [walkTo, List.take_add_one, hk, Option.toList_some, List.foldl_append, List.foldl_cons,
    List.foldl_nil]

theorem walkTo_succ_of_none {k : Nat} (h : u.messages[k]? = none) :
    walkTo u w (k + 1) = walkTo u w k := by
  have hk : u.messages.zipIdx[k]? = none := by simpa using h
  simp only [walkTo, List.take_add_one, hk, Option.toList_none, List.append_nil]

theorem walkTo_length : walkTo u w u.messages.length =
    u.messages.zipIdx.foldl (fun w x => planMessage u w x.1 x.2) w := by
  rw [walkTo, List.take_of_length_le (by simp)]

theorem size_walkTo_messageNames (k : Nat) :
    (walkTo u w k).messageNames.size = w.messageNames.size := by
  induction k with
  | zero => rfl
  | succ k ih =>
    cases hm : u.messages[k]? with
    | none => rw [walkTo_succ_of_none hm, ih]
    | some m =>
      rw [walkTo_succ hm, planMessage_messageNames, size_claimChildren_messageNames, ih]

theorem size_walkTo_enumNames (k : Nat) :
    (walkTo u w k).enumNames.size = w.enumNames.size := by
  induction k with
  | zero => rfl
  | succ k ih =>
    cases hm : u.messages[k]? with
    | none => rw [walkTo_succ_of_none hm, ih]
    | some m => rw [walkTo_succ hm, planMessage_enumNames, size_claimChildren_enumNames, ih]

/-- Planning messages `k` to `k' - 1` keeps the name of every node none of them has as child. -/
theorem walkTo_messageNames_frame {j k k' : Nat} (hk : k ≤ k')
    (h : ∀ i m, k ≤ i → i < k' → u.messages[i]? = some m → j ∉ m.nested) :
    (walkTo u w k').messageNames[j]? = (walkTo u w k).messageNames[j]? := by
  induction k', hk using Nat.le_induction with
  | base => rfl
  | succ k' hk ih =>
    rw [← ih fun i m h1 h2 => h i m h1 (by omega)]
    cases hm : u.messages[k']? with
    | none => rw [walkTo_succ_of_none hm]
    | some m =>
      rw [walkTo_succ hm, planMessage_messageNames]
      exact claimChildren_messageNames_of_not_mem u m _ _ _ (h k' m hk (by omega) hm)

/-- Planning messages `k` to `k' - 1` keeps the name of every enum none of them declares. -/
theorem walkTo_enumNames_frame {j k k' : Nat} (hk : k ≤ k')
    (h : ∀ i m, k ≤ i → i < k' → u.messages[i]? = some m → j ∉ m.enums) :
    (walkTo u w k').enumNames[j]? = (walkTo u w k).enumNames[j]? := by
  induction k', hk using Nat.le_induction with
  | base => rfl
  | succ k' hk ih =>
    rw [← ih fun i m h1 h2 => h i m h1 (by omega)]
    cases hm : u.messages[k']? with
    | none => rw [walkTo_succ_of_none hm]
    | some m =>
      rw [walkTo_succ hm, planMessage_enumNames]
      exact claimChildren_enumNames_of_not_mem u m _ _ _ (h k' m hk (by omega) hm)

theorem length_walkTo_plans {k : Nat} (hk : k ≤ u.messages.length) :
    (walkTo u w k).plans.length = w.plans.length + k := by
  induction k with
  | zero => rfl
  | succ k ih =>
    obtain ⟨m, hm⟩ : ∃ m, u.messages[k]? = some m :=
      ⟨_, List.getElem?_eq_getElem (by omega)⟩
    obtain ⟨p, hp, -⟩ := planMessage_plans u (walkTo u w k) m k
    rw [walkTo_succ hm, hp, List.length_append, ih (by omega)]
    rfl

theorem walkTo_plans_prefix {k k' : Nat} (hk : k ≤ k') :
    (walkTo u w k).plans <+: (walkTo u w k').plans := by
  induction k', hk using Nat.le_induction with
  | base => exact List.prefix_refl _
  | succ k' hk ih =>
    cases hm : u.messages[k']? with
    | none => rwa [walkTo_succ_of_none hm]
    | some m =>
      obtain ⟨p, hp, -⟩ := planMessage_plans u (walkTo u w k') m k'
      rw [walkTo_succ hm, hp]
      exact ih.trans (List.prefix_append _ _)

/-- The plan of message `k` is the one made when it was planned. -/
theorem walk_plan (hw : w.plans = []) {k : Nat} {m : Message} (hm : u.messages[k]? = some m) :
    ∃ p : MessagePlan, (walkTo u w u.messages.length).plans[k]? = some p ∧
      p.className = (walkTo u w k).messageNames[k]?.join.getD m.name ∧
      p.oneofs = ((planMembers m).run
        { classes := (claimChildren u m (scopeOf u (walkTo u w k).messageNames k)
            (walkTo u w k).messageNames (walkTo u w k).enumNames).1,
          members := reservedWith objectMethods }).1.2.1 ∧
      p.fields = ((planMembers m).run
        { classes := (claimChildren u m (scopeOf u (walkTo u w k).messageNames k)
            (walkTo u w k).messageNames (walkTo u w k).enumNames).1,
          members := reservedWith objectMethods }).1.1 := by
  have hk : k < u.messages.length := (List.getElem?_eq_some_iff.1 hm).1
  obtain ⟨p, hp, hcls, hone, hfields⟩ := planMessage_plans u (walkTo u w k) m k
  refine ⟨p, ?_, hcls, hone, hfields⟩
  have hlen : (walkTo u w k).plans.length = k := by
    rw [length_walkTo_plans (by omega), hw, List.length_nil, Nat.zero_add]
  have hpre : (walkTo u w (k + 1)).plans <+: (walkTo u w u.messages.length).plans :=
    walkTo_plans_prefix (by omega)
  rw [walkTo_succ hm, hp] at hpre
  obtain ⟨t, ht⟩ := hpre
  rw [← ht, List.append_assoc, List.getElem?_append_right (by omega), hlen]
  simp

end Walk

section Linked

variable {u : File} {w : MessageWalk} (hL : u.Linked)
include hL

/-- A message's name is final from the moment its parent is planned. -/
theorem walkTo_messageNames_stable {j k k' : Nat} (hk : k ≤ k')
    (hpar : ∀ p, Message.parent (u.messages[j]?.getD default) = some p → p < k) :
    (walkTo u w k').messageNames[j]? = (walkTo u w k).messageNames[j]? := by
  refine walkTo_messageNames_frame hk fun i m hi _ hm hj => ?_
  obtain ⟨mj, hmj, hp⟩ := hL.parent_of_mem_nested hm hj
  have := hpar i (by rw [hmj, Option.getD_some, hp])
  omega

/-- An enum's name is final from the moment its parent is planned. -/
theorem walkTo_enumNames_stable {j k k' : Nat} (hk : k ≤ k')
    (hpar : ∀ p, EnumType.parent (u.enums[j]?.getD default) = some p → p < k) :
    (walkTo u w k').enumNames[j]? = (walkTo u w k).enumNames[j]? := by
  refine walkTo_enumNames_frame hk fun i m hi _ hm hj => ?_
  obtain ⟨ej, hej, hp⟩ := hL.parent_of_mem_enums hm hj
  have := hpar i (by rw [hej, Option.getD_some, hp])
  omega

/-- The class of message `j` keeps the name it had when any later message was planned. -/
theorem walk_className (hw : w.plans = []) {j k : Nat} {m : Message} (hjk : j ≤ k)
    (hm : u.messages[j]? = some m) :
    ((walkTo u w u.messages.length).plans[j]?.getD default).className =
      (walkTo u w k).messageNames[j]?.join.getD m.name := by
  obtain ⟨p, hp, hcls, -⟩ := walk_plan hw hm
  rw [hp, Option.getD_some, hcls, walkTo_messageNames_stable hL hjk]
  intro p hpar
  exact hL.parent_lt j p hpar

/-- The class of a nested message keeps the name its parent chose. -/
theorem walk_className_child (hw : w.plans = []) {k c : Nat} {mk mc : Message}
    (hk : u.messages[k]? = some mk) (hc : c ∈ mk.nested) (hmc : u.messages[c]? = some mc) :
    ((walkTo u w u.messages.length).plans[c]?.getD default).className =
      (walkTo u w (k + 1)).messageNames[c]?.join.getD mc.name := by
  obtain ⟨mc', hmc', hpar⟩ := hL.parent_of_mem_nested hk hc
  rw [hmc, Option.some.injEq] at hmc'
  subst hmc'
  have hkc : k < c := hL.parent_lt c k (by rw [hmc, Option.getD_some, hpar])
  rw [walk_className hL hw (le_refl c) hmc,
    walkTo_messageNames_frame (show k + 1 ≤ c by omega) fun i m hi _ hm hci => ?_]
  obtain ⟨mc', hmc', hpar'⟩ := hL.parent_of_mem_nested hm hci
  rw [hmc, Option.some.injEq] at hmc'
  subst hmc'
  rw [hpar, Option.some.injEq] at hpar'
  omega

/-- The class of a nested enum keeps the name its parent chose. -/
theorem walk_enumName_child {k e : Nat} {mk : Message} (hk : u.messages[k]? = some mk)
    (he : e ∈ mk.enums) :
    (walkTo u w u.messages.length).enumNames[e]? = (walkTo u w (k + 1)).enumNames[e]? := by
  have hkl : k < u.messages.length := (List.getElem?_eq_some_iff.1 hk).1
  refine walkTo_enumNames_frame (show k + 1 ≤ u.messages.length by omega)
    fun i m hi _ hm hei => ?_
  obtain ⟨en, hen, hpar⟩ := hL.parent_of_mem_enums hk he
  obtain ⟨en', hen', hpar'⟩ := hL.parent_of_mem_enums hm hei
  rw [hen, Option.some.injEq] at hen'
  subst hen'
  rw [hpar, Option.some.injEq] at hpar'
  omega

/-- The classes declared inside a message get pairwise distinct names, none of them taken in the
registry the message's nested classes are claimed in. -/
theorem walk_nestedClasses (hw : w.plans = []) (hsize : w.messageNames.size = u.messages.length)
    (hsizeE : w.enumNames.size = u.enums.length) {k : Nat} {m : Message}
    (hm : u.messages[k]? = some m) :
    ((classChildren u m).map (fun c =>
        ((walkTo u w u.messages.length).plans[c]?.getD default).className) ++
      m.enums.map (fun e => (walkTo u w u.messages.length).enumNames[e]?.join.getD
        (u.enums[e]?.getD default).name) ++
      oneofClasses ((walkTo u w u.messages.length).plans[k]?.getD default).oneofs).Nodup ∧
    ∀ n ∈ (classChildren u m).map (fun c =>
        ((walkTo u w u.messages.length).plans[c]?.getD default).className) ++
      m.enums.map (fun e => (walkTo u w u.messages.length).enumNames[e]?.join.getD
        (u.enums[e]?.getD default).name) ++
      oneofClasses ((walkTo u w u.messages.length).plans[k]?.getD default).oneofs,
      n ∉ (scopeOf u (walkTo u w k).messageNames k).taken := by
  have hmem : m ∈ u.messages := List.mem_of_getElem? hm
  have hnext : walkTo u w (k + 1) = planMessage u (walkTo u w k) m k := walkTo_succ hm
  obtain ⟨nsM, nsE, hg, hmapM, hmapE⟩ := claimChildren_grows u m
    (scopeOf u (walkTo u w k).messageNames k) (walkTo u w k).messageNames
    (walkTo u w k).enumNames (hL.nested_nodup m hmem) (hL.enums_nodup m hmem)
    (fun c hc => by
      obtain ⟨mc, hmc, -⟩ := hL.parent_of_mem_nested hm hc
      rw [size_walkTo_messageNames, hsize]
      exact (List.getElem?_eq_some_iff.1 hmc).1)
    (fun e he => by
      obtain ⟨en, hen, -⟩ := hL.parent_of_mem_enums hm he
      rw [size_walkTo_enumNames, hsizeE]
      exact (List.getElem?_eq_some_iff.1 hen).1)
  obtain ⟨p, hp, -, hone, -⟩ := walk_plan hw hm
  obtain ⟨nsO, hgO, hsubO⟩ := planMembers_classLog m
    { classes := (claimChildren u m (scopeOf u (walkTo u w k).messageNames k)
        (walkTo u w k).messageNames (walkTo u w k).enumNames).1,
      members := reservedWith objectMethods }
  have hchildren : (classChildren u m).map (fun c =>
      ((walkTo u w u.messages.length).plans[c]?.getD default).className) = nsM.reverse := by
    refine Eq.trans (List.map_congr_left fun c hc => ?_)
      (map_getD_of_map_eq_map_some (fun c => (u.messages[c]?.getD default).name) hmapM)
    have hcn : c ∈ m.nested := (List.mem_filter.1 hc).1
    obtain ⟨mc, hmc, -⟩ := hL.parent_of_mem_nested hm hcn
    rw [walk_className_child hL hw hm hcn hmc, hnext, planMessage_messageNames, hmc,
      Option.getD_some]
  have henums : m.enums.map (fun e => (walkTo u w u.messages.length).enumNames[e]?.join.getD
      (u.enums[e]?.getD default).name) = nsE.reverse := by
    refine Eq.trans (List.map_congr_left fun e he => ?_)
      (map_getD_of_map_eq_map_some (fun e => (u.enums[e]?.getD default).name) hmapE)
    rw [walk_enumName_child hL hm he, hnext, planMessage_enumNames]
  have hgrows := hg.trans hgO
  have hsub : ((classChildren u m).map (fun c =>
        ((walkTo u w u.messages.length).plans[c]?.getD default).className) ++
      m.enums.map (fun e => (walkTo u w u.messages.length).enumNames[e]?.join.getD
        (u.enums[e]?.getD default).name) ++
      oneofClasses ((walkTo u w u.messages.length).plans[k]?.getD default).oneofs).Subperm
        (nsO ++ (nsE ++ nsM)) := by
    rw [hchildren, henums, hp, Option.getD_some, hone]
    have hperm : List.Perm (nsM.reverse ++ nsE.reverse) (nsE ++ nsM) :=
      ((List.reverse_perm _).append (List.reverse_perm _)).trans List.perm_append_comm
    exact (hperm.subperm.append hsubO).trans List.perm_append_comm.subperm
  exact ⟨nodup_of_subperm hsub hgrows.nodup,
    fun n hn => hgrows.fresh n (hsub.subset hn)⟩

end Linked

end BeanCodegen.Plan
