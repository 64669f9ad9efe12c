import Mathlib
import BeanCodegen.Plan.Allocate
import BeanCodegen.Proofs.Registry
/-! # Class scopes

The classes Java declares side by side must have distinct names. The planner claims all of them
in one registry per scope: one for the top of a file and one for the inside of each message,
seeded with the reserved names and, inside a message, with the message's own name and its
ancestors' names.

This module follows the claims made in one scope. `ClassLog s s' names` says that the step from
`s` to `s'` claimed the class names `names` (and perhaps more) in the registry of nested classes;
`planMembers_classLog` says the classes of a message's oneofs are claimed that way, and
`claimChildren_grows` and `topClasses_grows` do the same for nested types and the top level.
-/

namespace BeanCodegen.Plan

open BeanCodegen.Naming BeanCodegen.Schema

theorem nodup_of_subperm {α : Type} {l₁ l₂ : List α} (h : l₁.Subperm l₂) (hn : l₂.Nodup) :
    l₁.Nodup := by
  obtain ⟨l, hp, hs⟩ := h
  exact hp.nodup_iff.1 (hn.sublist hs)

theorem map_subperm_map {α β : Type} (f : α → β) {l₁ l₂ : List α} (h : l₁.Subperm l₂) :
    (l₁.map f).Subperm (l₂.map f) := by
  obtain ⟨l, hp, hs⟩ := h
  exact ⟨l.map f, hp.map f, hs.map f⟩

section StateRuns

variable {σ α β : Type}

theorem stateM_run_bind (x : StateM σ α) (f : α → StateM σ β) (s : σ) :
    (x >>= f).run s = (f (x.run s).1).run (x.run s).2 := rfl

theorem stateM_run_pure (a : α) (s : σ) : (pure a : StateM σ α).run s = (a, s) := rfl

/-- What a run over a list returns, seen through `g`, when each step's result is seen so. -/
theorem stateM_mapM_map {γ : Type} (f : α → StateM σ β) (g : β → γ) (h : α → γ)
    (hf : ∀ x s, g ((f x).run s).1 = h x) :
    ∀ (xs : List α) (s : σ), (((xs.mapM f).run s).1).map g = xs.map h
  | [], _ => rfl
  | x :: xs, s => by
    simp only [List.mapM_cons, stateM_run_bind, stateM_run_pure, List.map_cons, hf,
      stateM_mapM_map f g h hf xs]

theorem length_stateM_mapM (f : α → StateM σ β) (xs : List α) (s : σ) :
    ((xs.mapM f).run s).1.length = xs.length := by
  simpa using congrArg List.length
    (stateM_mapM_map f (fun _ => ()) (fun _ => ()) (fun _ _ => rfl) xs s)

end StateRuns

theorem onMembers_run {α : Type} (x : StateM Registry α) (s : MessageScopes) :
    (onMembers x).run s = ((x.run s.members).1, { s with members := (x.run s.members).2 }) := rfl

theorem onClasses_run {α : Type} (x : StateM Registry α) (s : MessageScopes) :
    (onClasses x).run s = ((x.run s.classes).1, { s with classes := (x.run s.classes).2 }) := rfl

theorem claimName_run (base : String) (r : Registry) : (claimName base).run r = r.claim base :=
  rfl

/-! ## Oneof classes -/

/-- The classes a oneof declares: its interface, its case enum and a class per variant. -/
def OneofPlan.classes (p : OneofPlan) : List String :=
  p.iface :: p.caseEnum :: p.variants.map (·.wrapper)

/-- The classes the oneofs of a message declare; a synthetic oneof has no plan and none. -/
def oneofClasses (plans : List (Option OneofPlan)) : List String :=
  plans.flatMap fun o => (o.map OneofPlan.classes).getD []

@[simp] theorem oneofClasses_nil : oneofClasses [] = [] := rfl

@[simp] theorem oneofClasses_cons (o : Option OneofPlan) (plans : List (Option OneofPlan)) :
    oneofClasses (o :: plans) = (o.map OneofPlan.classes).getD [] ++ oneofClasses plans := rfl

/-- Replacing one plan of a list swaps the names it contributes for the new plan's. -/
theorem flatMap_plans_set (names : OneofPlan → List String) {plans : List (Option OneofPlan)}
    {i : Nat} {p p' : OneofPlan} (h : plans[i]? = some (some p)) :
    List.Perm ((plans.set i (some p')).flatMap (fun o => (o.map names).getD []) ++ names p)
      (plans.flatMap (fun o => (o.map names).getD []) ++ names p') := by
  induction plans generalizing i with
  | nil => simp at h
  | cons o plans ih =>
    cases i with
    | zero =>
      simp only [List.getElem?_cons_zero, Option.some.injEq] at h
      subst h
      simp only [List.set_cons_zero, List.flatMap_cons, Option.map_some, Option.getD_some]
      exact List.perm_iff_count.2 fun a => by simp only [List.count_append]; omega
    | succ i =>
      simp only [List.set_cons_succ, List.flatMap_cons, List.append_assoc]
      exact (ih (by simpa using h)).append_left _

/-- Replacing one plan swaps its classes for the new plan's. -/
theorem oneofClasses_set {plans : List (Option OneofPlan)} {i : Nat} {p p' : OneofPlan}
    (h : plans[i]? = some (some p)) :
    List.Perm (oneofClasses (plans.set i (some p')) ++ p.classes)
      (oneofClasses plans ++ p'.classes) :=
  flatMap_plans_set OneofPlan.classes h

/-- Naming a case constant keeps a oneof's classes. -/
@[simp] theorem nameCases_classes (m : Message) (o : Oneof) (p : OneofPlan) :
    (nameCases m o p).classes = p.classes := by
  simp only [nameCases, OneofPlan.classes, Id.run, stateM_run_bind, stateM_run_pure,
    List.cons.injEq, true_and]
  refine stateM_mapM_map _ _ _ ?_ _ _
  intro v s
  rfl

/-- Only the prefix of the plans that `zip` keeps survives, with its classes. -/
theorem oneofClasses_zip_sublist (m : Message) :
    ∀ (os : List Oneof) (plans : List (Option OneofPlan)),
      List.Sublist (oneofClasses ((os.zip plans).map fun x => x.2.map (nameCases m x.1)))
        (oneofClasses plans)
  | [], plans => by simp
  | _ :: _, [] => by simp
  | o :: os, plan :: plans => by
    cases plan <;> simp [oneofClasses_zip_sublist m os plans]

/-! ## Logs of class claims -/

/-- The step from `s` to `s'` claimed at least the class names `names` in the registry of nested
classes, each once, and all of them free in `s`. -/
def ClassLog (s s' : MessageScopes) (names : List String) : Prop :=
  ∃ ns, Registry.Grows s.classes s'.classes ns ∧ names.Subperm ns

theorem ClassLog.of_classes_eq {s s' : MessageScopes} (h : s'.classes = s.classes) :
    ClassLog s s' [] :=
  ⟨[], Registry.Grows.of_taken_eq (congrArg Registry.taken h), List.nil_subperm⟩

theorem ClassLog.trans {s s' s'' : MessageScopes} {a b : List String} (h : ClassLog s s' a)
    (h' : ClassLog s' s'' b) : ClassLog s s'' (a ++ b) := by
  obtain ⟨ns, hg, ha⟩ := h
  obtain ⟨ns', hg', hb⟩ := h'
  exact ⟨ns' ++ ns, hg.trans hg', (ha.append hb).trans List.perm_append_comm.subperm⟩

theorem ClassLog.of_subperm {s s' : MessageScopes} {a b : List String} (h : ClassLog s s' a)
    (hb : b.Subperm a) : ClassLog s s' b := by
  obtain ⟨ns, hg, ha⟩ := h
  exact ⟨ns, hg, hb.trans ha⟩

theorem classLog_claim (s : MessageScopes) (base : String) :
    ClassLog s { s with classes := (s.classes.claim base).2 } [(s.classes.claim base).1] :=
  ⟨_, Registry.grows_claim s.classes base, List.Subperm.refl _⟩

/-- A run over a list logs the claims of each element in turn. -/
theorem mapM_classLog {α β : Type} (f : α → StateM MessageScopes β) (names : β → List String)
    (hf : ∀ x s, ClassLog s ((f x).run s).2 (names ((f x).run s).1)) :
    ∀ (xs : List α) (s : MessageScopes),
      ClassLog s ((xs.mapM f).run s).2 ((((xs.mapM f).run s).1).flatMap names)
  | [], s => ClassLog.of_classes_eq rfl
  | x :: xs, s => by
    simp only [List.mapM_cons, stateM_run_bind, stateM_run_pure, List.flatMap_cons]
    exact (hf x s).trans (mapM_classLog f names hf xs _)

theorem startOneof_classLog (o : Oneof) (s : MessageScopes) :
    ClassLog s ((startOneof o).run s).2
      ((((startOneof o).run s).1).map OneofPlan.classes |>.getD []) := by
  unfold startOneof
  cases o.synthetic with
  | true => exact ClassLog.of_classes_eq rfl
  | false =>
    simp only [Bool.false_eq_true, if_false, stateM_run_bind, onClasses_run, claimName_run,
      stateM_run_pure, Option.map_some, Option.getD_some, OneofPlan.classes, List.map_nil]
    exact (classLog_claim _ _).trans (classLog_claim _ _)

/-- Naming a field claims at most the class of one variant, and adds it to the oneof's plan. -/
theorem nameField_classLog (m : Message) (f : Field) (plans : List (Option OneofPlan))
    (s : MessageScopes) :
    ∃ extra, ClassLog s ((nameField m f plans).run s).2 extra ∧
      List.Perm (oneofClasses ((nameField m f plans).run s).1.2) (oneofClasses plans ++ extra) := by
  unfold nameField
  split
  · refine ⟨[], ClassLog.of_classes_eq rfl, ?_⟩
    simp only [List.append_nil]
    rfl
  · split
    · rename_i g _ _ p hp
      refine ⟨[(s.classes.claim (camelCase g.name ++ camelCase f.name)).1], ?_⟩
      have hset : ∀ (field caseGetter : String) (v : VariantPlan),
          List.Perm (oneofClasses (plans.set g.index
              (some { p with field, caseGetter, variants := p.variants ++ [v] })))
            (oneofClasses plans ++ [v.wrapper]) := by
        intro field caseGetter v
        rw [← List.perm_append_right_iff p.classes]
        refine (oneofClasses_set hp).trans ?_
        have hcl : ({ p with field, caseGetter, variants := p.variants ++ [v] } : OneofPlan).classes =
            p.classes ++ [v.wrapper] := by
          simp [OneofPlan.classes]
        rw [hcl, List.append_assoc]
        exact (List.perm_append_singleton _ _).append_left _
      split
      · simp only [stateM_run_bind, onMembers_run, onClasses_run, claimName_run, stateM_run_pure]
        exact ⟨classLog_claim s _, hset _ _ _⟩
      · simp only [stateM_run_bind, onMembers_run, onClasses_run, claimName_run, stateM_run_pure]
        exact ⟨classLog_claim s _, hset _ _ _⟩
    · refine ⟨[], ClassLog.of_classes_eq rfl, ?_⟩
      simp only [List.append_nil]
      rfl

/-- Naming all fields keeps the classes of the oneof plans logged since `s₀`. -/
theorem nameFields_classLog (m : Message) {s₀ : MessageScopes} :
    ∀ (fs : List Field) (plans : List (Option OneofPlan)) (s : MessageScopes),
      ClassLog s₀ s (oneofClasses plans) →
      ClassLog s₀ ((nameFields m fs plans).run s).2
        (oneofClasses ((nameFields m fs plans).run s).1.2)
  | [], plans, s, h => h
  | f :: fs, plans, s, h => by
    simp only [nameFields, stateM_run_bind, stateM_run_pure]
    obtain ⟨extra, hlog, hperm⟩ := nameField_classLog m f plans s
    exact nameFields_classLog m fs _ _ ((h.trans hlog).of_subperm hperm.subperm)

/-- Planning a message's members claims the classes of its oneofs in the registry of nested
classes. -/
theorem planMembers_classLog (m : Message) (s : MessageScopes) :
    ClassLog s ((planMembers m).run s).2 (oneofClasses ((planMembers m).run s).1.2.1) := by
  simp only [planMembers, stateM_run_bind, stateM_run_pure]
  have hstart : ClassLog s ((m.oneofs.mapM startOneof).run s).2
      (oneofClasses ((m.oneofs.mapM startOneof).run s).1) :=
    mapM_classLog startOneof _ startOneof_classLog m.oneofs s
  have hfields := nameFields_classLog m m.fields _ _ hstart
  -- the constants after the fields are claimed among the members only
  refine (((hfields.trans (mapM_classLog _ (fun _ => []) ?_ _ _)).trans
    (mapM_classLog _ (fun _ => []) ?_ _ _)).trans
    (mapM_classLog _ (fun _ => []) ?_ _ _)).of_subperm ?_
  · exact fun _ _ => ClassLog.of_classes_eq rfl
  · intro f s
    split
    · exact ClassLog.of_classes_eq rfl
    · exact ClassLog.of_classes_eq rfl
  · exact fun _ _ => ClassLog.of_classes_eq rfl
  · simp only [List.append_assoc]
    exact ((oneofClasses_zip_sublist m _ _).trans (List.sublist_append_left _ _)).subperm


/-! ## Names claimed for nodes -/

theorem map_getD_of_map_eq_map_some {α : Type} {f : α → Option String} (d : α → String) :
    ∀ {l : List α} {l' : List String}, l.map f = l'.map some →
      l.map (fun x => (f x).getD (d x)) = l'
  | [], [], _ => rfl
  | [], _ :: _, h => by simp at h
  | _ :: _, [], h => by simp at h
  | x :: l, y :: l', h => by
    simp only [List.map_cons, List.cons.injEq] at h ⊢
    exact ⟨by rw [h.1, Option.getD_some], map_getD_of_map_eq_map_some d h.2⟩


theorem claimFor_fst (r : Registry) (names : Array (Option String)) (i : Nat) (base : String) :
    (claimFor r names i base).1 = (r.claim base).2 := rfl

theorem claimFor_snd (r : Registry) (names : Array (Option String)) (i : Nat) (base : String) :
    (claimFor r names i base).2 = names.setIfInBounds i (some (r.claim base).1) := rfl

section ClaimNodes

variable {α : Type} (keep : α → Bool) (idx : α → Nat) (base : α → String)

theorem claimNodes_cons (x : α) (xs : List α) (acc : Registry × Array (Option String)) :
    claimNodes keep idx base (x :: xs) acc =
      claimNodes keep idx base xs (if keep x then claimFor acc.1 acc.2 (idx x) (base x) else acc) :=
  rfl

theorem size_claimNodes : ∀ (xs : List α) (acc : Registry × Array (Option String)),
    (claimNodes keep idx base xs acc).2.size = acc.2.size
  | [], _ => rfl
  | x :: xs, acc => by
    rw [claimNodes_cons, size_claimNodes xs]
    split
    · simp [claimFor_snd]
    · rfl

/-- Claiming names for some nodes leaves the names of the other nodes alone. -/
theorem claimNodes_getElem?_of_ne {j : Nat} :
    ∀ (xs : List α) (acc : Registry × Array (Option String)),
      (∀ x ∈ xs, keep x = true → idx x ≠ j) →
      (claimNodes keep idx base xs acc).2[j]? = acc.2[j]?
  | [], _, _ => rfl
  | x :: xs, acc, h => by
    rw [claimNodes_cons, claimNodes_getElem?_of_ne xs _ fun y hy => h y (List.mem_cons_of_mem x hy)]
    split
    · rename_i hk
      rw [claimFor_snd, Array.getElem?_setIfInBounds_ne (h x List.mem_cons_self hk)]
    · rfl

/-- The nodes `keep` admits get names claimed in turn, each once and all free at the start. -/
theorem claimNodes_grows :
    ∀ (xs : List α) (acc : Registry × Array (Option String)),
      ((xs.filter keep).map idx).Nodup → (∀ x ∈ xs, keep x = true → idx x < acc.2.size) →
      ∃ ns, Registry.Grows acc.1 (claimNodes keep idx base xs acc).1 ns ∧
        (xs.filter keep).map (fun x => (claimNodes keep idx base xs acc).2[idx x]?.join) =
          ns.reverse.map some
  | [], acc, _, _ => ⟨[], Registry.Grows.refl _, rfl⟩
  | x :: xs, acc, hnd, hlt => by
    have hlt' : ∀ y ∈ xs, keep y = true → idx y < acc.2.size :=
      fun y hy => hlt y (List.mem_cons_of_mem x hy)
    rw [claimNodes_cons]
    cases hk : keep x with
    | false =>
      simp only [List.filter_cons_of_neg (by simp [hk] : ¬keep x = true)] at hnd ⊢
      exact claimNodes_grows xs acc hnd hlt'
    | true =>
      simp only [List.filter_cons_of_pos hk, List.map_cons, List.nodup_cons, if_true] at hnd ⊢
      obtain ⟨hx, hnd⟩ := hnd
      have hsize : (claimFor acc.1 acc.2 (idx x) (base x)).2.size = acc.2.size := by
        simp [claimFor_snd]
      obtain ⟨ns, hg, hmap⟩ := claimNodes_grows xs _ hnd (hsize ▸ hlt')
      refine ⟨ns ++ [(acc.1.claim (base x)).1],
        (Registry.grows_claim acc.1 (base x)).trans (claimFor_fst .. ▸ hg), ?_⟩
      have hother : ∀ y ∈ xs, keep y = true → idx y ≠ idx x := by
        intro y hy hky hyx
        exact hx (List.mem_map.2 ⟨y, List.mem_filter.2 ⟨hy, hky⟩, hyx⟩)
      have hself : (claimNodes keep idx base xs (claimFor acc.1 acc.2 (idx x) (base x))).2[idx x]? =
          some (some (acc.1.claim (base x)).1) := by
        rw [claimNodes_getElem?_of_ne keep idx base xs _ hother, claimFor_snd,
          Array.getElem?_setIfInBounds_self_of_lt (hlt x List.mem_cons_self hk)]
      simp [hself, hmap]

end ClaimNodes


/-! ## Nested classes of a message -/

/-- The nested messages a message declares classes for: all but map entries. -/
def classChildren (u : File) (m : Message) : List Nat :=
  m.nested.filter fun n => !(u.messages[n]?.getD default).mapEntry

section ClaimChildren

variable (u : File) (m : Message) (classes : Registry) (mn en : Array (Option String))

theorem claimChildren_messageNames_of_not_mem {j : Nat} (hj : j ∉ m.nested) :
    (claimChildren u m classes mn en).2.1[j]? = mn[j]? :=
  claimNodes_getElem?_of_ne _ _ _ _ _ fun _ hn _ h => hj (h ▸ hn)

theorem claimChildren_enumNames_of_not_mem {j : Nat} (hj : j ∉ m.enums) :
    (claimChildren u m classes mn en).2.2[j]? = en[j]? :=
  claimNodes_getElem?_of_ne _ _ _ _ _ fun _ he _ h => hj (h ▸ he)

theorem size_claimChildren_messageNames : (claimChildren u m classes mn en).2.1.size = mn.size :=
  size_claimNodes _ _ _ _ _

theorem size_claimChildren_enumNames : (claimChildren u m classes mn en).2.2.size = en.size :=
  size_claimNodes _ _ _ _ _

/-- A message claims, in its registry of nested classes, a name for each nested message other
than a map entry and for each nested enum, and records them. -/
theorem claimChildren_grows (hn : m.nested.Nodup) (he : m.enums.Nodup)
    (hnl : ∀ n ∈ m.nested, n < mn.size) (hel : ∀ e ∈ m.enums, e < en.size) :
    ∃ nsM nsE, Registry.Grows classes (claimChildren u m classes mn en).1 (nsE ++ nsM) ∧
      (classChildren u m).map (fun n => (claimChildren u m classes mn en).2.1[n]?.join) =
        nsM.reverse.map some ∧
      m.enums.map (fun e => (claimChildren u m classes mn en).2.2[e]?.join) =
        nsE.reverse.map some := by
  obtain ⟨nsM, hgM, hmapM⟩ := claimNodes_grows (fun n => !(u.messages[n]?.getD default).mapEntry)
    id (fun n => (u.messages[n]?.getD default).name) m.nested (classes, mn)
    (by simpa using hn.filter _) (fun n hn' _ => hnl n hn')
  obtain ⟨nsE, hgE, hmapE⟩ := claimNodes_grows (fun _ => true) id
    (fun e => (u.enums[e]?.getD default).name) m.enums (_, en)
    (by simpa using he) (fun e he' _ => hel e he')
  simp only [List.filter_true, id] at hmapE
  exact ⟨nsM, nsE, hgM.trans hgE, hmapM, hmapE⟩

end ClaimChildren

/-! ## Classes at the top of a file -/

theorem claimIf_grows (present : Bool) (r : Registry) (base : String) :
    Registry.Grows r (claimIf present r base).2 (claimIf present r base).1.toList := by
  unfold claimIf
  cases present with
  | false => exact Registry.Grows.refl r
  | true => exact Registry.grows_claim r base

theorem mem_topLevelMessages {u : File} {x : Nat × Message} (h : x ∈ u.topLevelMessages) :
    u.messages[x.1]? = some x.2 ∧ x.2.parent = none := by
  simp only [File.topLevelMessages, List.mem_map, List.mem_filter] at h
  obtain ⟨⟨m, i⟩, ⟨hmem, htop⟩, rfl⟩ := h
  exact ⟨List.mem_zipIdx_iff_getElem?.1 hmem, by simpa [Message.isTopLevel] using htop⟩

theorem mem_topLevelEnums {u : File} {x : Nat × EnumType} (h : x ∈ u.topLevelEnums) :
    u.enums[x.1]? = some x.2 ∧ x.2.parent = none := by
  simp only [File.topLevelEnums, List.mem_map, List.mem_filter] at h
  obtain ⟨⟨e, i⟩, ⟨hmem, htop⟩, rfl⟩ := h
  exact ⟨List.mem_zipIdx_iff_getElem?.1 hmem, by simpa using htop⟩

theorem nodup_topLevelMessages_fst (u : File) : (u.topLevelMessages.map (·.1)).Nodup := by
  have hsub : ((u.messages.zipIdx.filter fun x => x.1.isTopLevel).map Prod.snd).Sublist
      (u.messages.zipIdx.map Prod.snd) :=
    List.filter_sublist.map _
  rw [List.zipIdx_map_snd] at hsub
  simpa [File.topLevelMessages, Function.comp_def] using (List.nodup_range' ..).sublist hsub

theorem nodup_topLevelEnums_fst (u : File) : (u.topLevelEnums.map (·.1)).Nodup := by
  have hsub : ((u.enums.zipIdx.filter fun x => x.1.parent.isNone).map Prod.snd).Sublist
      (u.enums.zipIdx.map Prod.snd) :=
    List.filter_sublist.map _
  rw [List.zipIdx_map_snd] at hsub
  simpa [File.topLevelEnums, Function.comp_def] using (List.nodup_range' ..).sublist hsub

/-- The top classes of a file as the four claims they are made of. -/
theorem topClasses_eq (cfg : Config) (u : File) : topClasses cfg u =
    let c₁ := claimNodes (fun x : Nat × Message => !x.2.mapEntry) (·.1) (·.2.name)
      u.topLevelMessages (Registry.withReserved, Array.replicate u.messages.length none)
    let c₂ := claimNodes (fun _ => true) (·.1) (·.2.name) u.topLevelEnums
      (c₁.1, Array.replicate u.enums.length none)
    let c₃ := claimIf (!u.extensions.isEmpty) c₂.1 (camelCase u.baseName ++ "Extensions")
    let c₄ := claimIf (cfg.layout = .perFile) c₃.2 (camelCase u.baseName ++ "Beans")
    { registry := c₄.2, messageNames := c₁.2, enumNames := c₂.2, extensionsClass := c₃.1,
      wrapperClass := c₄.1 } := rfl

theorem size_topClasses_messageNames (cfg : Config) (u : File) :
    (topClasses cfg u).messageNames.size = u.messages.length := by
  rw [topClasses_eq]
  exact (size_claimNodes _ _ _ _ _).trans (Array.size_replicate ..)

theorem size_topClasses_enumNames (cfg : Config) (u : File) :
    (topClasses cfg u).enumNames.size = u.enums.length := by
  rw [topClasses_eq]
  exact (size_claimNodes _ _ _ _ _).trans (Array.size_replicate ..)

/-- The top of a file claims, in one registry seeded with the reserved names, a class for each
top-level message other than a map entry, each top-level enum, the extension holder and the
wrapper, and records them. -/
theorem topClasses_grows (cfg : Config) (u : File) :
    ∃ ns, Registry.Grows Registry.withReserved (topClasses cfg u).registry ns ∧
      (u.topLevelMessages.filter fun x => !x.2.mapEntry).map
          (fun x => (topClasses cfg u).messageNames[x.1]?.join.getD x.2.name) ++
        u.topLevelEnums.map (fun x => (topClasses cfg u).enumNames[x.1]?.join.getD x.2.name) ++
        (topClasses cfg u).extensionsClass.toList ++ (topClasses cfg u).wrapperClass.toList =
          ns.reverse := by
  unfold topClasses
  obtain ⟨nsM, hgM, hmapM⟩ := claimNodes_grows (fun x : Nat × Message => !x.2.mapEntry) (·.1)
    (·.2.name) u.topLevelMessages (Registry.withReserved, Array.replicate u.messages.length none)
    (((nodup_topLevelMessages_fst u).sublist (List.filter_sublist.map _)))
    (fun x hx _ => by simpa using (List.getElem?_eq_some_iff.1 (mem_topLevelMessages hx).1).1)
  generalize claimNodes (fun x : Nat × Message => !x.2.mapEntry) (·.1) (·.2.name)
    u.topLevelMessages (Registry.withReserved, Array.replicate u.messages.length none) = c₁
    at hgM hmapM ⊢
  obtain ⟨top₁, names₁⟩ := c₁
  dsimp only at hgM hmapM ⊢
  obtain ⟨nsE, hgE, hmapE⟩ := claimNodes_grows (fun _ => true) (·.1) (·.2.name) u.topLevelEnums
    (top₁, Array.replicate u.enums.length none) (by simpa using nodup_topLevelEnums_fst u)
    (fun x hx _ => by simpa using (List.getElem?_eq_some_iff.1 (mem_topLevelEnums hx).1).1)
  generalize claimNodes (fun _ => true) (·.1) (·.2.name) u.topLevelEnums
    (top₁, Array.replicate u.enums.length none) = c₂ at hgE hmapE ⊢
  obtain ⟨top₂, names₂⟩ := c₂
  dsimp only at hgE hmapE ⊢
  have hext := claimIf_grows (!u.extensions.isEmpty) top₂ (camelCase u.baseName ++ "Extensions")
  generalize claimIf (!u.extensions.isEmpty) top₂ (camelCase u.baseName ++ "Extensions") = c₃
    at hext ⊢
  obtain ⟨ext, top₃⟩ := c₃
  dsimp only at hext ⊢
  have hwrap := claimIf_grows (cfg.layout = .perFile) top₃ (camelCase u.baseName ++ "Beans")
  generalize claimIf (cfg.layout = .perFile) top₃ (camelCase u.baseName ++ "Beans") = c₄
    at hwrap ⊢
  obtain ⟨wrap, top₄⟩ := c₄
  dsimp only at hwrap ⊢
  refine ⟨_, ((hgM.trans hgE).trans hext).trans hwrap, ?_⟩
  simp only [List.filter_true] at hmapE
  rw [map_getD_of_map_eq_map_some _ hmapM, map_getD_of_map_eq_map_some _ hmapE]
  cases ext <;> cases wrap <;> simp

end BeanCodegen.Plan
