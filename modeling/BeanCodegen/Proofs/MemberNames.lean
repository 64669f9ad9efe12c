import Mathlib
import BeanCodegen.Proofs.ClassNames
import BeanCodegen.Proofs.OneofPlans
/-! # Member names

Inside a generated class the names declared side by side must differ, and none may be a
keyword, a builtin class name or a method every object has. The planner claims each kind of
member in a registry of its own scope:

* the members of a message class (the identifiers of its fields outside oneofs, the field and
  case getter of each oneof, variant setters and getters, number, default and extension
  constants) in one registry per message, where the reserved names and the methods of every
  object are taken;
* the case constants of a oneof, and the constants of an enum, in one registry per enum, where
  the reserved names and the members of every enum are taken;
* the converter methods of a file's messages in one registry per file, seeded like the members.

`Registry.Log r r' names` says that a run from `r` to `r'` claimed the names `names`; each scope
carries it through its run, and it gives distinct and free names at the end.

A oneof gets its field and case getter when its first member field is named. A oneof without
member fields never gets them: its plan keeps the empty names it started with (see
`allocate_emptyOneof_unnamed`), so the statements here speak of the oneofs that have variants.
-/

namespace BeanCodegen.Naming.Registry

/-- The step from `r` to `r'` claimed at least the names `names`, each once, and all of them
were free in `r`. -/
def Log (r r' : Registry) (names : List String) : Prop :=
  ∃ ns, Grows r r' ns ∧ names.Subperm ns

theorem Log.refl (r : Registry) : Log r r [] := ⟨[], Grows.refl r, List.nil_subperm⟩

theorem Log.trans {r r' r'' : Registry} {a b : List String} (h : Log r r' a) (h' : Log r' r'' b) :
    Log r r'' (a ++ b) := by
  obtain ⟨ns, hg, ha⟩ := h
  obtain ⟨ns', hg', hb⟩ := h'
  exact ⟨ns' ++ ns, hg.trans hg', (ha.append hb).trans List.perm_append_comm.subperm⟩

theorem Log.of_subperm {r r' : Registry} {a b : List String} (h : Log r r' a)
    (hb : b.Subperm a) : Log r r' b := by
  obtain ⟨ns, hg, ha⟩ := h
  exact ⟨ns, hg, hb.trans ha⟩

theorem log_claim (r : Registry) (base : String) : Log r (r.claim base).2 [(r.claim base).1] :=
  ⟨_, grows_claim r base, List.Subperm.refl _⟩

/-- The names a run claimed are pairwise distinct. -/
theorem Log.nodup {r r' : Registry} {names : List String} (h : Log r r' names) : names.Nodup := by
  obtain ⟨ns, hg, hsub⟩ := h
  obtain ⟨l, hp, hs⟩ := hsub
  exact hp.nodup_iff.1 (hg.nodup.sublist hs)

/-- The names a run claimed were free when it began. -/
theorem Log.not_mem {r r' : Registry} {names : List String} (h : Log r r' names) {n : String}
    (hn : n ∈ names) : n ∉ r.taken := by
  obtain ⟨ns, hg, hsub⟩ := h
  exact hg.fresh n (hsub.subset hn)

end BeanCodegen.Naming.Registry

namespace BeanCodegen.Plan

open BeanCodegen.Naming BeanCodegen.Schema BeanCodegen.Descriptor

/-- A run over a list logs, in the registry `reg` reads off its state, the claims of each
element in turn. -/
theorem mapM_log {σ α β : Type} (reg : σ → Registry) (f : α → StateM σ β)
    (names : β → List String) (hf : ∀ x s, Registry.Log (reg s) (reg ((f x).run s).2)
      (names ((f x).run s).1)) :
    ∀ (xs : List α) (s : σ), Registry.Log (reg s) (reg ((xs.mapM f).run s).2)
      ((((xs.mapM f).run s).1).flatMap names)
  | [], s => Registry.Log.refl _
  | x :: xs, s => by
    simp only [List.mapM_cons, stateM_run_bind, stateM_run_pure, List.flatMap_cons]
    exact (hf x s).trans (mapM_log reg f names hf xs _)

/-- Claiming the names of a list in turn logs exactly those names. -/
theorem mapM_claimName_log {α : Type} (base : α → String) (xs : List α) (r : Registry) :
    Registry.Log r ((xs.mapM fun x => claimName (base x)).run r).2
      ((xs.mapM fun x => claimName (base x)).run r).1 := by
  have h := mapM_log id (fun x => claimName (base x)) (fun n => [n])
    (fun x r => Registry.log_claim r (base x)) xs r
  rwa [List.flatMap_singleton'] at h

/-! ## The members of a message class -/

/-- The members a oneof adds to its message's class: once it has a variant, the field holding
the set variant and the case getter, and a setter and a getter per variant. -/
def OneofPlan.memberNames (p : OneofPlan) : List String :=
  (if p.variants.isEmpty then [] else [p.field, p.caseGetter]) ++
    p.variants.flatMap fun v => [v.setter, v.getter]

/-- The members the oneofs of a message add; a synthetic oneof has no plan and adds none. -/
def oneofMembers (plans : List (Option OneofPlan)) : List String :=
  plans.flatMap fun o => (o.map OneofPlan.memberNames).getD []

/-- Of the identifiers given to fields `fs`, those of the fields outside the oneofs with variant
classes. -/
def plainIdents (m : Message) (fs : List Field) (idents : List String) : List String :=
  ((fs.zip idents).filter fun x => (m.variantGroup x.1).isNone).map (·.2)

/-- The members of the class of message `m`, planned as `fields`, `oneofs` and `exts`: the
identifiers of the fields outside oneofs, the members of the oneofs, the number constant of each
field, the default constants and the constants of the extensions. -/
def classMembers (m : Message) (fields : List MemberPlan) (oneofs : List (Option OneofPlan))
    (exts : List ExtensionPlan) : List String :=
  plainIdents m m.fields (fields.map (·.field)) ++ oneofMembers oneofs ++
    fields.map (·.numberConst) ++ fields.filterMap (·.defaultConst) ++
    exts.flatMap fun e => [e.numberConst, e.extendeeConst]

theorem plainIdents_cons (m : Message) (f : Field) (fs : List Field) (ident : String)
    (idents : List String) :
    plainIdents m (f :: fs) (ident :: idents) =
      (if (m.variantGroup f).isNone then [ident] else []) ++ plainIdents m fs idents := by
  unfold plainIdents
  cases h : (m.variantGroup f).isNone <;> simp [h]

/-- The first variant of a oneof brings its field and case getter along. -/
theorem memberNames_first_variant (p : OneofPlan) (field caseGetter : String) (v : VariantPlan)
    (hempty : p.variants.isEmpty = true) :
    ({ p with field, caseGetter, variants := p.variants ++ [v] } : OneofPlan).memberNames =
      p.memberNames ++ [field, caseGetter, v.setter, v.getter] := by
  rw [List.isEmpty_iff] at hempty
  simp [OneofPlan.memberNames, hempty]

theorem memberNames_next_variant (p : OneofPlan) (v : VariantPlan)
    (hne : p.variants.isEmpty = false) :
    ({ p with variants := p.variants ++ [v] } : OneofPlan).memberNames =
      p.memberNames ++ [v.setter, v.getter] := by
  simp [OneofPlan.memberNames, hne]

/-- Growing one plan by `extra` grows the members of all plans by `extra`. -/
theorem oneofMembers_set {plans : List (Option OneofPlan)} {i : Nat} {p p' : OneofPlan}
    {extra : List String} (h : plans[i]? = some (some p))
    (hp' : p'.memberNames = p.memberNames ++ extra) :
    List.Perm (oneofMembers (plans.set i (some p'))) (oneofMembers plans ++ extra) := by
  rw [← List.perm_append_right_iff p.memberNames]
  refine (flatMap_plans_set OneofPlan.memberNames h).trans ?_
  rw [hp', List.append_assoc]
  exact List.perm_append_comm.append_left _

theorem startOneof_members_eq (o : Oneof) (s : MessageScopes) :
    ((startOneof o).run s).2.members = s.members := by
  unfold startOneof
  cases o.synthetic <;> rfl

/-- Starting a oneof claims no member: its plan has no variant yet. -/
theorem startOneof_memberLog (o : Oneof) (s : MessageScopes) :
    Registry.Log s.members ((startOneof o).run s).2.members
      ((((startOneof o).run s).1.map OneofPlan.memberNames).getD []) := by
  rw [startOneof_members_eq]
  unfold startOneof
  cases o.synthetic with
  | true => exact Registry.Log.refl _
  | false => exact Registry.Log.refl _

/-- Naming a field claims its identifier among the members when it is outside the oneofs with
variant classes, and otherwise the members its oneof's plan gains. -/
theorem nameField_memberLog (m : Message) (f : Field) (plans : List (Option OneofPlan))
    (s : MessageScopes) :
    ∃ extra, Registry.Log s.members ((nameField m f plans).run s).2.members
        ((if (m.variantGroup f).isNone then [((nameField m f plans).run s).1.1] else []) ++
          extra) ∧
      List.Perm (oneofMembers ((nameField m f plans).run s).1.2) (oneofMembers plans ++ extra) := by
  unfold nameField
  split
  · rename_i hg
    refine ⟨[], ?_, by rw [List.append_nil]; rfl⟩
    simp only [hg, Option.isNone_none, if_true, List.append_nil, stateM_run_bind, onMembers_run,
      claimName_run, stateM_run_pure]
    exact Registry.log_claim _ _
  · rename_i g hg
    split
    · rename_i p hp
      split
      · rename_i hempty
        simp only [stateM_run_bind, onMembers_run, onClasses_run, claimName_run, stateM_run_pure]
        refine ⟨_, ?_, oneofMembers_set hp (memberNames_first_variant _ _ _ _ hempty)⟩
        simp only [hg, Option.isNone_some, Bool.false_eq_true, if_false, List.nil_append]
        exact ((Registry.log_claim _ _).trans (Registry.log_claim _ _)).trans
          ((Registry.log_claim _ _).trans (Registry.log_claim _ _))
      · rename_i hne
        simp only [stateM_run_bind, onMembers_run, onClasses_run, claimName_run, stateM_run_pure]
        refine ⟨_, ?_, oneofMembers_set hp (memberNames_next_variant _ _ (by simpa using hne))⟩
        simp only [hg, Option.isNone_some, Bool.false_eq_true, if_false, List.nil_append]
        exact (Registry.log_claim _ _).trans (Registry.log_claim _ _)
    · -- a oneof without a plan: the identifier is claimed, though not listed
      refine ⟨[], ?_, by rw [List.append_nil]; rfl⟩
      simp only [hg, Option.isNone_some, Bool.false_eq_true, if_false, List.append_nil,
        stateM_run_bind, onMembers_run, claimName_run, stateM_run_pure]
      exact (Registry.log_claim _ _).of_subperm List.nil_subperm

/-- Naming fields in order claims, on top of what was logged, the identifiers of those outside
the oneofs with variant classes and the members the oneofs' plans gain. -/
theorem nameFields_memberLog (m : Message) {r₀ : Registry} :
    ∀ (fs : List Field) (plans : List (Option OneofPlan)) (s : MessageScopes) (L : List String),
      Registry.Log r₀ s.members (L ++ oneofMembers plans) →
      Registry.Log r₀ ((nameFields m fs plans).run s).2.members
        (L ++ plainIdents m fs ((nameFields m fs plans).run s).1.1 ++
          oneofMembers ((nameFields m fs plans).run s).1.2)
  | [], plans, s, L, h => by
    simp only [nameFields, plainIdents, List.zip_nil_left, List.filter_nil, List.map_nil,
      List.append_nil]
    exact h
  | f :: fs, plans, s, L, h => by
    simp only [nameFields, stateM_run_bind, stateM_run_pure]
    obtain ⟨extra, hlog, hperm⟩ := nameField_memberLog m f plans s
    -- the identifier joins the prefix, the oneofs' gain joins their members
    have hnext := nameFields_memberLog m fs ((nameField m f plans).run s).1.2
      ((nameField m f plans).run s).2
      (L ++ if (m.variantGroup f).isNone then [((nameField m f plans).run s).1.1] else [])
      ((h.trans hlog).of_subperm ((hperm.append_left _).trans
        (List.perm_iff_count.2 fun a => by simp only [List.count_append]; omega)).subperm)
    rw [plainIdents_cons]
    simpa only [List.append_assoc] using hnext

/-- Naming case constants keeps a oneof's members. -/
theorem nameCases_memberNames (m : Message) (o : Oneof) (p : OneofPlan) :
    (nameCases m o p).memberNames = p.memberNames := by
  have hpairs : (nameCases m o p).variants.map (fun v => [v.setter, v.getter]) =
      p.variants.map (fun v => [v.setter, v.getter]) := by
    simp only [nameCases, Id.run, stateM_run_bind, stateM_run_pure]
    exact stateM_mapM_map _ _ _ (fun v s => rfl) _ _
  have hempty : (nameCases m o p).variants.isEmpty = p.variants.isEmpty := by
    simpa only [List.isEmpty_map] using congrArg List.isEmpty hpairs
  have hfield : (nameCases m o p).field = p.field := rfl
  have hgetter : (nameCases m o p).caseGetter = p.caseGetter := rfl
  simp only [OneofPlan.memberNames, hempty, hfield, hgetter, List.flatMap_def, hpairs]

/-- Only the prefix of the plans that `zip` keeps survives, with its members. -/
theorem oneofMembers_zip_sublist (m : Message) :
    ∀ (os : List Oneof) (plans : List (Option OneofPlan)),
      List.Sublist (oneofMembers ((os.zip plans).map fun x => x.2.map (nameCases m x.1)))
        (oneofMembers plans)
  | [], plans => by simp [oneofMembers]
  | _ :: _, [] => by simp [oneofMembers]
  | o :: os, plan :: plans => by
    cases plan with
    | none => simpa [oneofMembers] using oneofMembers_zip_sublist m os plans
    | some p =>
      simpa [oneofMembers, nameCases_memberNames] using oneofMembers_zip_sublist m os plans

section MemberPlans

variable {fs : List Field} {idents numbers : List String} {defaults : List (Option String)}

variable (h₁ : idents.length = fs.length) (h₂ : numbers.length = fs.length)
  (h₃ : defaults.length = fs.length)
include h₁ h₂ h₃

theorem map_zip_zip_snd_fst :
    ((fs.zip idents).zip (numbers.zip defaults)).map (fun x => x.1.2) = idents := by
  have hlen : (fs.zip idents).length ≤ (numbers.zip defaults).length := by
    simp [List.length_zip]; omega
  show List.map (Prod.snd ∘ Prod.fst) _ = _
  rw [← List.map_map, List.map_fst_zip hlen, List.map_snd_zip (by omega)]

theorem map_zip_zip_fst_snd :
    ((fs.zip idents).zip (numbers.zip defaults)).map (fun x => x.2.1) = numbers := by
  have hlen : (numbers.zip defaults).length ≤ (fs.zip idents).length := by
    simp [List.length_zip]; omega
  show List.map (Prod.fst ∘ Prod.snd) _ = _
  rw [← List.map_map, List.map_snd_zip hlen, List.map_fst_zip (by omega)]

theorem map_zip_zip_snd_snd :
    ((fs.zip idents).zip (numbers.zip defaults)).map (fun x => x.2.2) = defaults := by
  have hlen : (numbers.zip defaults).length ≤ (fs.zip idents).length := by
    simp [List.length_zip]; omega
  show List.map (Prod.snd ∘ Prod.snd) _ = _
  rw [← List.map_map, List.map_snd_zip hlen, List.map_snd_zip (by omega)]

end MemberPlans

/-- The members of a class whose member plans carry the identifiers, number constants and
default constants given, and whose oneof plans lost members only, are among those names. -/
theorem classMembers_subperm (m : Message) {fields : List MemberPlan} {idents numbers : List String}
    {defaults : List (Option String)} {oneofs started : List (Option OneofPlan)}
    (exts : List ExtensionPlan) (hf : fields.map (·.field) = idents)
    (hn : fields.map (·.numberConst) = numbers) (hd : fields.map (·.defaultConst) = defaults)
    (ho : (oneofMembers oneofs).Sublist (oneofMembers started)) :
    (classMembers m fields oneofs exts).Subperm
      ([] ++ plainIdents m m.fields idents ++ oneofMembers started ++
        numbers.flatMap (fun n => [n]) ++ defaults.flatMap Option.toList ++
        exts.flatMap fun e => [e.numberConst, e.extendeeConst]) := by
  have hdefaults : fields.filterMap (·.defaultConst) = defaults.flatMap Option.toList := by
    rw [← hd, List.filterMap_eq_flatMap_toList, List.flatMap_map]
  rw [classMembers, hf, ← hn, hdefaults, List.nil_append, List.flatMap_singleton']
  exact ((((List.Sublist.refl _).append ho).append (List.Sublist.refl _)).append
    (List.Sublist.refl _)).append (List.Sublist.refl _) |>.subperm

/-- Planning a message's members claims, once each and free at the start, every member of its
class. -/
theorem planMembers_memberLog (m : Message) (s : MessageScopes) :
    Registry.Log s.members ((planMembers m).run s).2.members
      (classMembers m ((planMembers m).run s).1.1 ((planMembers m).run s).1.2.1
        ((planMembers m).run s).1.2.2) := by
  simp only [planMembers, stateM_run_bind, stateM_run_pure]
  have hstart := mapM_log MessageScopes.members startOneof
    (fun o => (o.map OneofPlan.memberNames).getD []) startOneof_memberLog m.oneofs s
  have hnamed := nameFields_memberLog m m.fields _ _ [] (by rw [List.nil_append]; exact hstart)
  refine (((hnamed.trans (mapM_log MessageScopes.members _ (fun n => [n]) ?_ _ _)).trans
    (mapM_log MessageScopes.members _ Option.toList ?_ _ _)).trans
    (mapM_log MessageScopes.members _ (fun e => [e.numberConst, e.extendeeConst]) ?_ _ _)).of_subperm
    (classMembers_subperm m _ ?_ ?_ ?_ (oneofMembers_zip_sublist m _ _))
  · intro f s
    exact Registry.log_claim _ _
  · intro f s
    split
    · exact Registry.log_claim _ _
    · exact Registry.Log.refl _
  · intro ext s
    exact (Registry.log_claim _ _).trans (Registry.log_claim _ _)
  -- the member plans read back the identifiers and constants they were built from
  all_goals rw [List.map_map]
  · exact map_zip_zip_snd_fst (length_nameFields m _ _ _) (length_stateM_mapM _ _ _)
      (length_stateM_mapM _ _ _)
  · exact map_zip_zip_fst_snd (length_nameFields m _ _ _) (length_stateM_mapM _ _ _)
      (length_stateM_mapM _ _ _)
  · exact map_zip_zip_snd_snd (length_nameFields m _ _ _) (length_stateM_mapM _ _ _)
      (length_stateM_mapM _ _ _)

/-- The names a run claimed in a registry where `extra` and the reserved names were taken are
pairwise distinct, none of `extra` and none reserved. -/
theorem log_reservedWith {extra names : List String} {r' : Registry}
    (h : Registry.Log (reservedWith extra) r' names) :
    names.Nodup ∧ ∀ n ∈ names, n ∉ extra ∧ isReserved n = false := by
  refine ⟨h.nodup, fun n hn => ?_⟩
  have hfree := h.not_mem hn
  rw [mem_reservedWith_taken, not_or] at hfree
  exact ⟨hfree.1, by simpa using hfree.2⟩

/-! ## Case constants -/

/-- The constants of a oneof's case enum: a case per variant and the not-set case. -/
def OneofPlan.caseNames (p : OneofPlan) : List String :=
  p.variants.map (·.caseConstant) ++ [p.notSet]

/-- Naming a oneof's cases claims its case constants and then its not-set constant in a
registry of their own. -/
theorem nameCases_caseLog (m : Message) (o : Oneof) (p : OneofPlan) :
    ∃ r', Registry.Log (reservedWith enumMembers) r' (nameCases m o p).caseNames := by
  simp only [nameCases, Id.run, stateM_run_bind, stateM_run_pure, OneofPlan.caseNames]
  rw [List.map_eq_flatMap]
  -- each variant's case constant is one claim, the not-set constant one more
  refine ⟨_, (mapM_log id _ (fun v : VariantPlan => [v.caseConstant]) ?_ p.variants
    (reservedWith enumMembers)).trans (Registry.log_claim _ _)⟩
  intro v r
  exact Registry.log_claim r _

/-- Every oneof plan of a message is one whose cases were named. -/
theorem mem_planMembers_oneofs {m : Message} {S : MessageScopes} {o : Option OneofPlan}
    (ho : o ∈ ((planMembers m).run S).1.2.1) {op : OneofPlan} (hop : op ∈ o) :
    ∃ o' p, op = nameCases m o' p := by
  simp only [planMembers, stateM_run_bind, stateM_run_pure] at ho
  obtain ⟨x, -, rfl⟩ := List.mem_map.1 ho
  obtain ⟨p, -, rfl⟩ := Option.mem_map.1 hop
  exact ⟨x.1, p, rfl⟩

/-! ## Converter methods -/

/-- The converter methods of a message: from protobuf-java, to protobuf-java and to bytes. -/
def ConverterPlan.names (c : ConverterPlan) : List String := [c.decode, c.encode, c.bytes]

/-- Planning a message appends a plan whose converter methods are claimed in the walk's
registry of methods. -/
theorem planMessage_methodLog (u : File) (w : MessageWalk) (m : Message) (i : Nat) :
    ∃ p : MessagePlan, (planMessage u w m i).plans = w.plans ++ [p] ∧
      Registry.Log w.methods (planMessage u w m i).methods p.converter.names :=
  ⟨_, rfl, (Registry.log_claim _ _).trans ((Registry.log_claim _ _).trans (Registry.log_claim _ _))⟩

/-- Walking a file's messages claims the converter methods of every plan in one registry. -/
theorem walkTo_methodLog {u : File} {w : MessageWalk} (hw : w.plans = []) :
    ∀ k, Registry.Log w.methods (walkTo u w k).methods
      ((walkTo u w k).plans.flatMap (·.converter.names))
  | 0 => by
    simp only [walkTo, List.take_zero, List.foldl_nil, hw, List.flatMap_nil]
    exact Registry.Log.refl _
  | k + 1 => by
    cases hm : u.messages[k]? with
    | none =>
      rw [walkTo_succ_of_none hm]
      exact walkTo_methodLog hw k
    | some m =>
      obtain ⟨p, hp, hlog⟩ := planMessage_methodLog u (walkTo u w k) m k
      rw [walkTo_succ hm, hp, List.flatMap_append, List.flatMap_singleton]
      exact (walkTo_methodLog hw k).trans hlog

/-! ## Plans of a file -/

/-- The plan of message `k` is the one appended when it was planned. -/
theorem walk_plan_eq {u : File} {w : MessageWalk} (hw : w.plans = []) {k : Nat} {m : Message}
    (hm : u.messages[k]? = some m) :
    (walkTo u w u.messages.length).plans[k]? = (planMessage u (walkTo u w k) m k).plans[k]? := by
  have hk : k < u.messages.length := (List.getElem?_eq_some_iff.1 hm).1
  have hlen : (planMessage u (walkTo u w k) m k).plans.length = k + 1 := by
    obtain ⟨p, hp, -⟩ := planMessage_plans u (walkTo u w k) m k
    rw [hp, List.length_append, length_walkTo_plans (by omega), hw]
    simp
  obtain ⟨t, ht⟩ := walkTo_plans_prefix (u := u) (w := w) (Nat.succ_le_of_lt hk)
  rw [walkTo_succ hm] at ht
  rw [← ht, List.getElem?_append_left (by omega)]

section OneFile

variable {a : Allocation} {g : Graph} {f : Nat} {cfg : Config} {s : SharedNames}

/-- The member plans of a message of a planned file come from planning its members in a
registry where the reserved names and the methods of every object are taken. -/
theorem message_of_planFile (hp : a.file f = ((planFile cfg (g.file f)).run s).1) {i : Nat}
    {m : Message} (hm : (g.file f).messages[i]? = some m) :
    ∃ S : MessageScopes, S.members = reservedWith objectMethods ∧
      (a.message ⟨f, i⟩).fields = ((planMembers m).run S).1.1 ∧
      (a.message ⟨f, i⟩).oneofs = ((planMembers m).run S).1.2.1 ∧
      (a.message ⟨f, i⟩).extensions = ((planMembers m).run S).1.2.2 := by
  have hplan := walk_plan_eq (w := startWalk cfg (g.file f)) rfl hm
  have hlen : (walkTo (g.file f) (startWalk cfg (g.file f)) i).plans.length = i := by
    rw [length_walkTo_plans (List.getElem?_eq_some_iff.1 hm).1.le]
    simp [startWalk]
  rw [planMessage, List.getElem?_append_right (by omega), hlen, Nat.sub_self] at hplan
  simp only [Allocation.message, hp, planFile_messages, hplan, List.getElem?_cons_zero,
    Option.getD_some]
  exact ⟨_, rfl, rfl, rfl, rfl⟩

/-- The enum plans of a planned file name their constants in a registry of their own. -/
theorem enum_of_planFile (hp : a.file f = ((planFile cfg (g.file f)).run s).1) {ep : EnumPlan}
    (hep : ep ∈ (a.file f).enums) :
    ∃ e : EnumType, ep.constants =
      ((e.values.mapM fun v => claimName v.name).run (reservedWith enumMembers)).1 := by
  rw [hp] at hep
  simp only [planFile, StateT.run, bind, StateT.bind, get, getThe, MonadStateOf.get, StateT.get,
    set, StateT.set, pure, StateT.pure] at hep
  obtain ⟨x, -, rfl⟩ := List.mem_map.1 hep
  exact ⟨x.1, rfl⟩

end OneFile

namespace Allocation

/-- The members of a message's class, as the allocation names them. -/
def memberNames (a : Allocation) (g : Graph) (id : MessageId) : List String :=
  classMembers (g.message id) (a.message id).fields (a.message id).oneofs (a.message id).extensions

/-- The converter methods of a file's messages, as the allocation names them. -/
def converterMethods (a : Allocation) (f : Nat) : List String :=
  (a.file f).messages.flatMap (·.converter.names)

end Allocation

section OneFile

variable {a : Allocation} {g : Graph} {f : Nat} {cfg : Config} {s : SharedNames}

/-- The members of a message class of a planned file, and the case constants of its oneofs,
are pairwise distinct and free. -/
theorem memberNames_of_planFile (hp : a.file f = ((planFile cfg (g.file f)).run s).1) {i : Nat}
    (hi : i < (g.file f).messages.length) :
    (a.memberNames g ⟨f, i⟩).Nodup ∧
      (∀ n ∈ a.memberNames g ⟨f, i⟩, n ∉ objectMethods ∧ isReserved n = false) ∧
      ∀ o ∈ (a.message ⟨f, i⟩).oneofs, ∀ op ∈ o,
        op.caseNames.Nodup ∧ ∀ n ∈ op.caseNames, n ∉ enumMembers ∧ isReserved n = false := by
  obtain ⟨m, hm⟩ : ∃ m, (g.file f).messages[i]? = some m := ⟨_, List.getElem?_eq_getElem hi⟩
  obtain ⟨S, hS, hfields, honeofs, hexts⟩ := message_of_planFile hp hm
  have hmsg : g.message ⟨f, i⟩ = m := by simp [Graph.message, hm]
  have hmembers : a.memberNames g ⟨f, i⟩ = classMembers m ((planMembers m).run S).1.1
      ((planMembers m).run S).1.2.1 ((planMembers m).run S).1.2.2 := by
    rw [Allocation.memberNames, hmsg, hfields, honeofs, hexts]
  have hlog := planMembers_memberLog m S
  rw [hS] at hlog
  rw [hmembers]
  refine ⟨(log_reservedWith hlog).1, (log_reservedWith hlog).2, fun o ho op hop => ?_⟩
  rw [honeofs] at ho
  obtain ⟨o', p, rfl⟩ := mem_planMembers_oneofs ho hop
  obtain ⟨r', hcases⟩ := nameCases_caseLog m o' p
  exact log_reservedWith hcases

/-- The converter methods of a planned file are pairwise distinct and free. -/
theorem converterMethods_of_planFile (hp : a.file f = ((planFile cfg (g.file f)).run s).1) :
    (a.converterMethods f).Nodup ∧
      ∀ n ∈ a.converterMethods f, n ∉ objectMethods ∧ isReserved n = false := by
  rw [Allocation.converterMethods, hp, planFile_messages]
  exact log_reservedWith (walkTo_methodLog (u := g.file f) (w := startWalk cfg (g.file f)) rfl _)

/-- The constants of each enum of a planned file are pairwise distinct and free. -/
theorem enumConstants_of_planFile (hp : a.file f = ((planFile cfg (g.file f)).run s).1) :
    ∀ ep ∈ (a.file f).enums,
      ep.constants.Nodup ∧ ∀ n ∈ ep.constants, n ∉ enumMembers ∧ isReserved n = false := by
  intro ep hep
  obtain ⟨e, he⟩ := enum_of_planFile hp hep
  rw [he]
  exact log_reservedWith (mapM_claimName_log (fun v : EnumValue => v.name) e.values _)

end OneFile

/-- The member names `allocate` chooses are names Java accepts side by side. In every file, the
converter methods of its messages are pairwise distinct, and the constants of each enum are.
In every message class, the members (the identifiers of fields outside oneofs with variant
classes, the field and case getter of each oneof with variants, variant setters and getters,
number, default and extension constants) are pairwise distinct, and the case constants of each
oneof are. None is reserved, none of the members or methods is a method of every object, and no
constant is a member of every enum. -/
theorem allocate_member_names {raws : List FileProto} {g : Graph}
    (hg : Graph.build raws = .ok g) (cfg : Config) (genFiles : List Nat) :
    ∀ f < g.files.length,
      ((allocate cfg g genFiles).converterMethods f).Nodup ∧
      (∀ n ∈ (allocate cfg g genFiles).converterMethods f,
        n ∉ objectMethods ∧ isReserved n = false) ∧
      (∀ ep ∈ ((allocate cfg g genFiles).file f).enums,
        ep.constants.Nodup ∧ ∀ n ∈ ep.constants, n ∉ enumMembers ∧ isReserved n = false) ∧
      ∀ i < (g.file f).messages.length,
        ((allocate cfg g genFiles).memberNames g ⟨f, i⟩).Nodup ∧
        (∀ n ∈ (allocate cfg g genFiles).memberNames g ⟨f, i⟩,
          n ∉ objectMethods ∧ isReserved n = false) ∧
        ∀ o ∈ ((allocate cfg g genFiles).message ⟨f, i⟩).oneofs, ∀ op ∈ o,
          op.caseNames.Nodup ∧ ∀ n ∈ op.caseNames, n ∉ enumMembers ∧ isReserved n = false := by
  intro f hf
  obtain ⟨s, hp⟩ := allocate_file cfg (fun i hi => (Graph.build_linked hg i hi).2) genFiles hf
  obtain ⟨hconv, hconvFree⟩ := converterMethods_of_planFile hp
  exact ⟨hconv, hconvFree, enumConstants_of_planFile hp, fun i hi => memberNames_of_planFile hp hi⟩

/-- The file `a.proto` of package `p`, with a message `A` whose oneof `o` has a member `x` and
which has a field `y` outside it. -/
def oneofFile : FileProto :=
  { name := some "a.proto", package := some "p"
    messageType := [{ name := some "A", oneofDecl := [{ name := some "o" }]
                      field := [{ name := some "x", number := some 1, oneofIndex := some 0 },
                                { name := some "y", number := some 2 }] }] }

/-- The per-type layout with value classes under `v`. -/
def perTypeConfig : Config :=
  { voPackage := "v", converterPackage := "v.converter", layout := .perType, annotateCode := false }

theorem allocate_member_names_of_oneofFile :
    ∃ g, Graph.build [oneofFile] = .ok g ∧
      ∀ f < g.files.length,
        ((allocate perTypeConfig g [0]).converterMethods f).Nodup ∧
        (∀ n ∈ (allocate perTypeConfig g [0]).converterMethods f,
          n ∉ objectMethods ∧ isReserved n = false) ∧
        (∀ ep ∈ ((allocate perTypeConfig g [0]).file f).enums,
          ep.constants.Nodup ∧ ∀ n ∈ ep.constants, n ∉ enumMembers ∧ isReserved n = false) ∧
        ∀ i < (g.file f).messages.length,
          ((allocate perTypeConfig g [0]).memberNames g ⟨f, i⟩).Nodup ∧
          (∀ n ∈ (allocate perTypeConfig g [0]).memberNames g ⟨f, i⟩,
            n ∉ objectMethods ∧ isReserved n = false) ∧
          ∀ o ∈ ((allocate perTypeConfig g [0]).message ⟨f, i⟩).oneofs, ∀ op ∈ o,
            op.caseNames.Nodup ∧ ∀ n ∈ op.caseNames, n ∉ enumMembers ∧ isReserved n = false := by
  obtain ⟨g, hg⟩ := Graph.build_ok
    (show ∀ raw ∈ [oneofFile], raw.publicDependency = [] by simp [oneofFile])
  exact ⟨g, hg, allocate_member_names hg perTypeConfig [0]⟩

/-- The file `a.proto` of package `p`, with a message `A` whose oneof `o` has no member. -/
def emptyOneofFile : FileProto :=
  { name := some "a.proto", package := some "p"
    messageType := [{ name := some "A", oneofDecl := [{ name := some "o" }] }] }

theorem flatten_emptyOneofFile : flatten emptyOneofFile.messageType =
    [⟨{ name := some "A", oneofDecl := [{ name := some "o" }] }, none, 0, [4, 0], ["A"]⟩] := by
  simp [flatten, flattenFrom, emptyOneofFile]

/-- A oneof without member fields keeps the empty field and case getter it started with: the
class of `A` would declare two members named alike. -/
theorem allocate_emptyOneof_unnamed :
    ∃ g, Graph.build [emptyOneofFile] = .ok g ∧
      ((allocate perTypeConfig g [0]).message ⟨0, 0⟩).oneofs.map
        (Option.map fun op => (op.field, op.caseGetter)) = [some ("", "")] := by
  have hrun : (Graph.build [emptyOneofFile]).toOption.map
      (fun g => ((allocate perTypeConfig g [0]).message ⟨0, 0⟩).oneofs.map
        (Option.map fun op => (op.field, op.caseGetter))) = some [some ("", "")] := by
    simp only [Graph.build, List.zipIdx_cons, List.zipIdx_nil, List.mapM_cons, List.mapM_nil,
      File.wrap, flatten_emptyOneofFile]
    decide +kernel
  cases hb : Graph.build [emptyOneofFile] with
  | error e =>
    rw [hb] at hrun
    cases hrun
  | ok g =>
    rw [hb] at hrun
    exact ⟨g, rfl, Option.some_injective _ hrun⟩

end BeanCodegen.Plan
