import Mathlib
import BeanCodegen.Proofs.MessageWalk
/-! # Class names Java accepts

Every name the allocator chooses for a class is one a Java compiler takes:

* the value-class packages of the files, and their converter classes, are unique across the
  request;
* the classes declared side by side at the top of a file (its messages other than map entries,
  its enums, the extension holder and the wrapper) have distinct names, none reserved;
* the classes declared side by side inside a message (its nested messages other than map entries,
  its nested enums and the classes of its oneofs) have distinct names, none reserved, and none
  equal to the name of the message or of a message around it.

The file's wrapper class is not among the names a nested class avoids: a message nested in a
top-level message can take the wrapper's name, as the per-file layout of `fooBeansFile` shows.
-/

namespace BeanCodegen.Plan

open BeanCodegen.Naming BeanCodegen.Schema BeanCodegen.Descriptor

namespace Allocation

/-- The simple names of the classes declared directly inside a message: its nested messages
other than map entries, its nested enums and the classes of its oneofs. -/
def nestedClasses (a : Allocation) (g : Graph) (id : MessageId) : List String :=
  (classChildren (g.file id.file) (g.message id)).map
      (fun n => (a.message ⟨id.file, n⟩).className) ++
    (g.message id).enums.map (fun e => (a.enumPlan ⟨id.file, e⟩).className) ++
    oneofClasses (a.message id).oneofs

/-- The simple names of the classes declared at the top of a file: its messages other than map
entries, its enums, the extension holder and the wrapper. -/
def topLevelClasses (a : Allocation) (g : Graph) (f : Nat) : List String :=
  ((g.file f).topLevelMessages.filter fun x => !x.2.mapEntry).map
      (fun x => (a.message ⟨f, x.1⟩).className) ++
    (g.file f).topLevelEnums.map (fun x => (a.enumPlan ⟨f, x.1⟩).className) ++
    (a.file f).extensionsClass.toList ++ (a.file f).wrapperClass.toList

end Allocation

theorem mem_withReserved_taken {n : String} :
    n ∈ Registry.withReserved.taken ↔ isReserved n = true := by
  simp only [Registry.reserve, Registry.withReserved, Registry.empty, isReserved,
    List.mem_append, List.mem_reverse, List.append_nil, Bool.or_eq_true, List.contains_iff_mem]

theorem mem_reservedWith_taken {extra : List String} {n : String} :
    n ∈ (reservedWith extra).taken ↔ n ∈ extra ∨ isReserved n = true := by
  rw [← mem_withReserved_taken]
  simp [reservedWith, Registry.reserve]

/-! ## One file -/

/-- The walk a file's messages are planned from: the names its top level chose, no plans. -/
def startWalk (cfg : Config) (u : File) : MessageWalk :=
  { messageNames := (topClasses cfg u).messageNames, enumNames := (topClasses cfg u).enumNames
    methods := reservedWith objectMethods, plans := [] }

section PlanFile

variable (cfg : Config) (u : File) (s : SharedNames)

theorem planFile_voPackage :
    ((planFile cfg u).run s).1.voPackage = (s.packages.claim (voPackageBase cfg u)).1 := rfl

theorem planFile_converterClass :
    ((planFile cfg u).run s).1.converterClass =
      (s.converters.claim (camelCase (converterBase u) ++ "Converter")).1 := rfl

theorem planFile_packages :
    ((planFile cfg u).run s).2.packages = (s.packages.claim (voPackageBase cfg u)).2 := rfl

theorem planFile_converters :
    ((planFile cfg u).run s).2.converters =
      (s.converters.claim (camelCase (converterBase u) ++ "Converter")).2 := rfl

theorem planFile_wrapperClass :
    ((planFile cfg u).run s).1.wrapperClass = (topClasses cfg u).wrapperClass := rfl

theorem planFile_extensionsClass :
    ((planFile cfg u).run s).1.extensionsClass = (topClasses cfg u).extensionsClass := rfl

theorem planFile_messages :
    ((planFile cfg u).run s).1.messages =
      (walkTo u (startWalk cfg u) u.messages.length).plans := by
  rw [walkTo_length]
  rfl

/-- An enum's class keeps the name the walk chose for it, or its own. -/
theorem planFile_enumClassName (e : Nat) :
    ((((planFile cfg u).run s).1.enums[e]?).getD default).className =
      (walkTo u (startWalk cfg u) u.messages.length).enumNames[e]?.join.getD
        (u.enums[e]?.getD default).name := by
  have hsize : (walkTo u (startWalk cfg u) u.messages.length).enumNames.size = u.enums.length := by
    rw [size_walkTo_enumNames]
    exact size_topClasses_enumNames cfg u
  rw [walkTo_length] at hsize ⊢
  simp only [planFile, StateT.run, bind, StateT.bind, get, getThe, MonadStateOf.get, StateT.get,
    set, StateT.set, pure, StateT.pure, List.getElem?_map, List.getElem?_zipIdx, Nat.zero_add]
  cases he : u.enums[e]? with
  | none =>
    have hlen : u.enums.length ≤ e := by simpa using he
    simp [Array.getElem?_eq_none (hsize ▸ hlen : _ ≤ e)]
    rfl
  | some en => rfl

end PlanFile

section OneFile

variable {a : Allocation} {g : Graph} {f : Nat} {cfg : Config} {s : SharedNames}

/-- The classes at the top of a planned file have distinct names, none reserved. -/
theorem topLevelClasses_of_planFile (hL : (g.file f).Linked)
    (hp : a.file f = ((planFile cfg (g.file f)).run s).1) :
    (a.topLevelClasses g f).Nodup ∧ ∀ n ∈ a.topLevelClasses g f, isReserved n = false := by
  obtain ⟨ns, hgrow, hlist⟩ := topClasses_grows cfg (g.file f)
  have heq : a.topLevelClasses g f =
      ((g.file f).topLevelMessages.filter fun x => !x.2.mapEntry).map
          (fun x => (topClasses cfg (g.file f)).messageNames[x.1]?.join.getD x.2.name) ++
        (g.file f).topLevelEnums.map
          (fun x => (topClasses cfg (g.file f)).enumNames[x.1]?.join.getD x.2.name) ++
        (topClasses cfg (g.file f)).extensionsClass.toList ++
        (topClasses cfg (g.file f)).wrapperClass.toList := by
    unfold Allocation.topLevelClasses
    rw [hp, planFile_extensionsClass, planFile_wrapperClass]
    congr 3
    · refine List.map_congr_left fun x hx => ?_
      obtain ⟨hm, hpar⟩ := mem_topLevelMessages (List.mem_filter.1 hx).1
      simp only [Allocation.message, hp, planFile_messages]
      rw [walk_className hL rfl (le_refl x.1) hm,
        walkTo_messageNames_stable hL (Nat.zero_le x.1) (by simp [hm, hpar])]
      rfl
    · refine List.map_congr_left fun x hx => ?_
      obtain ⟨he, hpar⟩ := mem_topLevelEnums hx
      simp only [Allocation.enumPlan, hp, planFile_enumClassName]
      rw [walkTo_enumNames_stable hL (Nat.zero_le _) (by simp [he, hpar]), he, Option.getD_some]
      rfl
  rw [heq, hlist]
  refine ⟨List.nodup_reverse.2 hgrow.nodup, fun n hn => ?_⟩
  have hfree := hgrow.fresh n (List.mem_reverse.1 hn)
  rw [mem_withReserved_taken] at hfree
  simpa using hfree

/-- The class names of the messages around a node, as the allocation gives them, are the names
the node's registry was seeded with when message `k` was planned. -/
theorem mem_ancestorNames_of_mem_enclosingFrom (hL : (g.file f).Linked)
    (hp : a.file f = ((planFile cfg (g.file f)).run s).1) {k : Nat} :
    ∀ (fuel : Nat) (q : Option Nat), (∀ j, q = some j → j ≤ k) → k < (g.file f).messages.length →
      ∀ n ∈ a.enclosingFrom g f fuel q,
        n ∈ ancestorNames (g.file f)
          (walkTo (g.file f) (startWalk cfg (g.file f)) k).messageNames fuel q
  | 0, _, _, _, n, hn => by simp [Allocation.enclosingFrom] at hn
  | _ + 1, none, _, _, n, hn => by simp [Allocation.enclosingFrom] at hn
  | fuel + 1, some j, hq, hk, n, hn => by
    have hj : j ≤ k := hq j rfl
    obtain ⟨mj, hmj⟩ : ∃ mj, (g.file f).messages[j]? = some mj :=
      ⟨_, List.getElem?_eq_getElem (by omega)⟩
    have hparent : (g.message ⟨f, j⟩).parent = mj.parent := by
      simp [Graph.message, hmj]
    rw [Allocation.enclosingFrom, List.mem_append, List.mem_singleton, hparent] at hn
    simp only [ancestorNames, hmj, Option.getD_some, List.mem_cons]
    rcases hn with hn | rfl
    · refine Or.inr (mem_ancestorNames_of_mem_enclosingFrom hL hp fuel mj.parent
        (fun p hpj => ?_) hk n hn)
      have := hL.parent_lt j p (by rw [hmj, Option.getD_some, hpj])
      omega
    · left
      simp only [Allocation.message, hp, planFile_messages]
      exact walk_className hL rfl hj hmj

/-- The classes declared inside a message of a planned file have distinct names, none reserved,
and none is the name of that message or of a message around it. -/
theorem nestedClasses_of_planFile (hL : (g.file f).Linked)
    (hp : a.file f = ((planFile cfg (g.file f)).run s).1) {k : Nat}
    (hk : k < (g.file f).messages.length) :
    (a.nestedClasses g ⟨f, k⟩).Nodup ∧ ∀ n ∈ a.nestedClasses g ⟨f, k⟩, isReserved n = false ∧
      n ∉ a.enclosingFrom g f ((g.file f).messages.length + 1) (some k) := by
  obtain ⟨m, hm⟩ : ∃ m, (g.file f).messages[k]? = some m :=
    ⟨_, List.getElem?_eq_getElem hk⟩
  have hwalk := walk_nestedClasses hL (show (startWalk cfg (g.file f)).plans = [] from rfl)
    (size_topClasses_messageNames cfg _) (size_topClasses_enumNames cfg _) hm
  have heq : a.nestedClasses g ⟨f, k⟩ =
      (classChildren (g.file f) m).map (fun c =>
          ((walkTo (g.file f) (startWalk cfg (g.file f)) (g.file f).messages.length).plans[c]?.getD
            default).className) ++
        m.enums.map (fun e =>
          (walkTo (g.file f) (startWalk cfg (g.file f)) (g.file f).messages.length).enumNames[e]?.join.getD
            ((g.file f).enums[e]?.getD default).name) ++
        oneofClasses ((walkTo (g.file f) (startWalk cfg (g.file f))
          (g.file f).messages.length).plans[k]?.getD default).oneofs := by
    have hmsg : g.message ⟨f, k⟩ = m := by simp [Graph.message, hm]
    simp only [Allocation.nestedClasses, hmsg, Allocation.message, Allocation.enumPlan, hp,
      planFile_messages, planFile_enumClassName]
  rw [heq]
  refine ⟨hwalk.1, fun n hn => ?_⟩
  have hfree := hwalk.2 n hn
  rw [scopeOf, mem_reservedWith_taken, not_or] at hfree
  exact ⟨by simpa using hfree.2, fun hmem => hfree.1
    (mem_ancestorNames_of_mem_enclosingFrom hL hp _ (some k) (fun j hj => by cases hj; rfl) hk n
      hmem)⟩

end OneFile

/-! ## The whole request -/

/-- One step of `allocate`: plan file `i` with the shared registries so far and keep its plan at
index `i`. -/
def allocStep (cfg : Config) (g : Graph) (acc : Array (Option FilePlan) × SharedNames) (i : Nat) :
    Array (Option FilePlan) × SharedNames :=
  (acc.1.setIfInBounds i (some ((planFile cfg (g.file i)).run acc.2).1),
    ((planFile cfg (g.file i)).run acc.2).2)

/-- The order `allocate` plans files in: the files to generate, then the others. -/
def allocOrder (g : Graph) (genFiles : List Nat) : List Nat :=
  genFiles ++ (g.files.map (·.id)).filter (!genFiles.contains ·)

theorem allocate_eq (cfg : Config) (g : Graph) (genFiles : List Nat) :
    allocate cfg g genFiles = ⟨((allocOrder g genFiles).foldl (allocStep cfg g)
      (Array.replicate g.files.length none, {})).1.toList.filterMap id⟩ := rfl

theorem filterMap_id_set_subperm {α : Type} (x : α) :
    ∀ (l : List (Option α)) (i : Nat), ((l.set i (some x)).filterMap id).Subperm (x :: l.filterMap id)
  | [], _ => List.nil_subperm
  | y :: l, 0 => by
    cases y with
    | none => exact List.Subperm.refl _
    | some v => exact (List.subperm_cons x).2 (List.sublist_cons_self v _).subperm
  | y :: l, i + 1 => by
    cases y with
    | none => exact filterMap_id_set_subperm x l i
    | some v =>
      exact ((List.subperm_cons v).2 (filterMap_id_set_subperm x l i)).trans
        (List.Perm.swap x v _).subperm

theorem getElem?_filterMap_id {α : Type} :
    ∀ {l : List (Option α)}, (∀ x ∈ l, x.isSome) → ∀ i : Nat, (l.filterMap id)[i]? = l[i]?.join
  | [], _, _ => rfl
  | none :: _, h, _ => by simp at h
  | some v :: l, h, i => by
    cases i with
    | zero => rfl
    | succ i =>
      simpa using getElem?_filterMap_id (fun x hx => h x (List.mem_cons_of_mem _ hx)) i

section Request

variable {cfg : Config} {g : Graph}

theorem size_foldl_allocStep :
    ∀ (order : List Nat) (acc : Array (Option FilePlan) × SharedNames),
      (order.foldl (allocStep cfg g) acc).1.size = acc.1.size
  | [], _ => rfl
  | i :: order, acc => by
    rw [List.foldl_cons, size_foldl_allocStep order]
    simp [allocStep]

/-- A file planned before or during the run keeps a plan made for it from some registries. -/
theorem foldl_allocStep_planned :
    ∀ (order : List Nat) (acc : Array (Option FilePlan) × SharedNames) (i : Nat),
      ((∃ s, acc.1[i]? = some (some ((planFile cfg (g.file i)).run s).1)) ∨
        (i ∈ order ∧ i < acc.1.size)) →
      ∃ s, (order.foldl (allocStep cfg g) acc).1[i]? =
        some (some ((planFile cfg (g.file i)).run s).1)
  | [], _, _, h => h.resolve_right fun h' => by simp at h'
  | j :: order, acc, i, h => by
    rw [List.foldl_cons]
    refine foldl_allocStep_planned order _ i ?_
    by_cases hij : j = i
    · subst hij
      have hlt : j < acc.1.size := by
        rcases h with ⟨s, hs⟩ | ⟨-, hlt⟩
        · exact (Array.getElem?_eq_some_iff.1 hs).1
        · exact hlt
      exact Or.inl ⟨acc.2, by simp [allocStep, hlt]⟩
    · have hkeep : (allocStep cfg g acc j).1[i]? = acc.1[i]? := by
        simp [allocStep, Array.getElem?_setIfInBounds_ne hij]
      rw [hkeep]
      rcases h with h | ⟨hmem, hlt⟩
      · exact Or.inl h
      · refine Or.inr ⟨(List.mem_cons.1 hmem).resolve_left (Ne.symm hij), ?_⟩
        simpa [allocStep] using hlt

variable (cfg g) in
/-- The names one shared registry hands to the files planned in a run are claimed there, each
once: the plans kept carry some of them. -/
theorem foldl_allocStep_claims (reg : SharedNames → Registry) (field : FilePlan → String)
    (hstep : ∀ u s, ∃ base, field ((planFile cfg u).run s).1 = ((reg s).claim base).1 ∧
      reg ((planFile cfg u).run s).2 = ((reg s).claim base).2) {r₀ : Registry} :
    ∀ (order : List Nat) (acc : Array (Option FilePlan) × SharedNames) (ns : List String),
      Registry.Grows r₀ (reg acc.2) ns → ((acc.1.toList.filterMap id).map field).Subperm ns →
      ∃ ns', Registry.Grows r₀ (reg (order.foldl (allocStep cfg g) acc).2) ns' ∧
        ((((order.foldl (allocStep cfg g) acc).1.toList.filterMap id).map field).Subperm ns')
  | [], _, ns, hg, hsub => ⟨ns, hg, hsub⟩
  | i :: order, acc, ns, hg, hsub => by
    rw [List.foldl_cons]
    obtain ⟨base, hfield, hreg⟩ := hstep (g.file i) acc.2
    refine foldl_allocStep_claims reg field hstep order _
      ([((reg acc.2).claim base).1] ++ ns) ?_ ?_
    · exact hg.trans (hreg ▸ Registry.grows_claim (reg acc.2) base)
    · simp only [allocStep, Array.toList_setIfInBounds]
      refine (map_subperm_map field (filterMap_id_set_subperm _ _ _)).trans ?_
      rw [List.map_cons, hfield]
      exact (List.subperm_cons _).2 hsub

theorem allocate_voPackages_nodup (cfg : Config) (g : Graph) (genFiles : List Nat) :
    ((allocate cfg g genFiles).files.map (·.voPackage)).Nodup := by
  obtain ⟨ns, hg, hsub⟩ := foldl_allocStep_claims cfg g SharedNames.packages FilePlan.voPackage (fun u s => ⟨_, planFile_voPackage cfg u s, planFile_packages cfg u s⟩)
    (allocOrder g genFiles) (Array.replicate g.files.length none, {}) []
    (Registry.Grows.refl _) (by simp)
  rw [allocate_eq]
  exact nodup_of_subperm hsub hg.nodup

theorem allocate_converterClasses_nodup (cfg : Config) (g : Graph) (genFiles : List Nat) :
    ((allocate cfg g genFiles).files.map (·.converterClass)).Nodup := by
  obtain ⟨ns, hg, hsub⟩ := foldl_allocStep_claims cfg g SharedNames.converters
    FilePlan.converterClass
    (fun u s => ⟨_, planFile_converterClass cfg u s, planFile_converters cfg u s⟩)
    (allocOrder g genFiles) (Array.replicate g.files.length none, {}) []
    (Registry.Grows.refl _) (by simp)
  rw [allocate_eq]
  exact nodup_of_subperm hsub hg.nodup

theorem mem_allocOrder (hid : ∀ i < g.files.length, (g.file i).id = i) (genFiles : List Nat)
    {i : Nat} (hi : i < g.files.length) : i ∈ allocOrder g genFiles := by
  unfold allocOrder
  by_cases hgen : i ∈ genFiles
  · exact List.mem_append_left _ hgen
  · refine List.mem_append_right _ (List.mem_filter.2 ⟨List.mem_map.2 ⟨g.file i, ?_, hid i hi⟩, ?_⟩)
    · simp [Graph.file, List.getElem?_eq_getElem hi]
    · simpa using hgen

variable (cfg) in
/-- When file ids are indices, every file is planned, so the allocation lists the slots of the
run in file order. -/
theorem getElem?_allocate_files_eq (hid : ∀ i < g.files.length, (g.file i).id = i)
    (genFiles : List Nat) (f : Nat) :
    (allocate cfg g genFiles).files[f]? = ((allocOrder g genFiles).foldl (allocStep cfg g)
      (Array.replicate g.files.length none, {})).1[f]?.join := by
  have hsize : ((allocOrder g genFiles).foldl (allocStep cfg g)
      (Array.replicate g.files.length none, ({} : SharedNames))).1.size = g.files.length := by
    rw [size_foldl_allocStep]
    simp
  have hsome : ∀ x ∈ ((allocOrder g genFiles).foldl (allocStep cfg g)
      (Array.replicate g.files.length none, {})).1.toList, x.isSome := by
    intro x hx
    obtain ⟨i, hi⟩ := List.mem_iff_getElem?.1 hx
    rw [Array.getElem?_toList] at hi
    have hlt : i < g.files.length := hsize ▸ (Array.getElem?_eq_some_iff.1 hi).1
    obtain ⟨s', hs'⟩ := foldl_allocStep_planned (allocOrder g genFiles)
      (Array.replicate g.files.length none, {}) i
      (Or.inr ⟨mem_allocOrder hid genFiles hlt, by simpa using hlt⟩)
    rw [hs'] at hi
    cases hi
    rfl
  rw [allocate_eq]
  dsimp only
  rw [getElem?_filterMap_id hsome, Array.getElem?_toList]

variable (cfg) in
/-- When file ids are indices, the allocation keeps one plan per file, in file order, each made
for its file from the registries of the moment. -/
theorem getElem?_allocate_files (hid : ∀ i < g.files.length, (g.file i).id = i)
    (genFiles : List Nat) {f : Nat} (hf : f < g.files.length) :
    ∃ s, (allocate cfg g genFiles).files[f]? = some ((planFile cfg (g.file f)).run s).1 := by
  have hplanned : ∃ s, ((allocOrder g genFiles).foldl (allocStep cfg g)
      (Array.replicate g.files.length none, {})).1[f]? =
        some (some ((planFile cfg (g.file f)).run s).1) :=
    foldl_allocStep_planned _ _ f (Or.inr ⟨mem_allocOrder hid genFiles hf, by simpa using hf⟩)
  obtain ⟨s, hs⟩ := hplanned
  refine ⟨s, ?_⟩
  rw [getElem?_allocate_files_eq cfg hid, hs]
  rfl

variable (cfg) in
theorem allocate_file (hid : ∀ i < g.files.length, (g.file i).id = i) (genFiles : List Nat)
    {f : Nat} (hf : f < g.files.length) :
    ∃ s, (allocate cfg g genFiles).file f = ((planFile cfg (g.file f)).run s).1 := by
  obtain ⟨s, hs⟩ := getElem?_allocate_files cfg hid genFiles hf
  exact ⟨s, by rw [Allocation.file, hs]; rfl⟩

end Request

/-! ## Class names of a request -/

/-- The names `allocate` chooses are names Java accepts. Value-class packages and converter
classes are unique across the request. The classes declared side by side, at the top of a file
or inside a message, have distinct names, none reserved, and no class nested in a message is
named like that message or a message around it. -/
theorem allocate_class_names {raws : List FileProto} {g : Graph} (hg : Graph.build raws = .ok g)
    (cfg : Config) (genFiles : List Nat) :
    ((allocate cfg g genFiles).files.map (·.voPackage)).Nodup ∧
    ((allocate cfg g genFiles).files.map (·.converterClass)).Nodup ∧
    ∀ f < g.files.length,
      ((allocate cfg g genFiles).topLevelClasses g f).Nodup ∧
      (∀ n ∈ (allocate cfg g genFiles).topLevelClasses g f, isReserved n = false) ∧
      ∀ i < (g.file f).messages.length,
        ((allocate cfg g genFiles).nestedClasses g ⟨f, i⟩).Nodup ∧
        ∀ n ∈ (allocate cfg g genFiles).nestedClasses g ⟨f, i⟩, isReserved n = false ∧
          n ∉ (allocate cfg g genFiles).enclosingFrom g f ((g.file f).messages.length + 1)
            (some i) := by
  refine ⟨allocate_voPackages_nodup cfg g genFiles, allocate_converterClasses_nodup cfg g genFiles,
    fun f hf => ?_⟩
  obtain ⟨hL, -⟩ := Graph.build_linked hg f hf
  obtain ⟨s, hp⟩ := allocate_file cfg (fun i hi => (Graph.build_linked hg i hi).2)
    genFiles hf
  obtain ⟨htop, hreserved⟩ := topLevelClasses_of_planFile hL hp
  exact ⟨htop, hreserved, fun i hi => nestedClasses_of_planFile hL hp hi⟩

/-- The file `foo.proto` of package `demo`, with a message `A` that nests a message `FooBeans`. -/
def fooBeansFile : FileProto :=
  { name := some "foo.proto", package := some "demo"
    messageType := [{ name := some "A", nestedType := [{ name := some "FooBeans" }] }] }

/-- The per-file layout with value classes under `com.acme.vo`. -/
def perFileConfig : Config :=
  { voPackage := "com.acme.vo", converterPackage := "com.acme.vo.converter", layout := .perFile
    annotateCode := false }

theorem allocate_class_names_of_fooBeans :
    ∃ g, Graph.build [fooBeansFile] = .ok g ∧
      ((allocate perFileConfig g [0]).files.map (·.voPackage)).Nodup ∧
      ((allocate perFileConfig g [0]).files.map (·.converterClass)).Nodup ∧
      ∀ f < g.files.length,
        ((allocate perFileConfig g [0]).topLevelClasses g f).Nodup ∧
        (∀ n ∈ (allocate perFileConfig g [0]).topLevelClasses g f, isReserved n = false) ∧
        ∀ i < (g.file f).messages.length,
          ((allocate perFileConfig g [0]).nestedClasses g ⟨f, i⟩).Nodup ∧
          ∀ n ∈ (allocate perFileConfig g [0]).nestedClasses g ⟨f, i⟩, isReserved n = false ∧
            n ∉ (allocate perFileConfig g [0]).enclosingFrom g f ((g.file f).messages.length + 1)
              (some i) := by
  obtain ⟨g, hg⟩ := Graph.build_ok
    (show ∀ raw ∈ [fooBeansFile], raw.publicDependency = [] by simp [fooBeansFile])
  exact ⟨g, hg, allocate_class_names hg perFileConfig [0]⟩

theorem flatten_fooBeansFile : flatten fooBeansFile.messageType =
    [⟨{ name := some "A", nestedType := [{ name := some "FooBeans" }] }, none, 0, [4, 0], ["A"]⟩,
     ⟨{ name := some "FooBeans" }, some 0, 0, [4, 0, 3, 0], ["A", "FooBeans"]⟩] := by
  simp [flatten, flattenFrom, fooBeansFile]

/-- The wrapper class is the one enclosing class that nested names do not avoid: in the per-file
layout the message `FooBeans` inside `A` keeps its name, and its value class
`FooBeans.A.FooBeans` is named like the wrapper around it, which Java rejects. -/
theorem allocate_nested_named_as_wrapper :
    ∃ g, Graph.build [fooBeansFile] = .ok g ∧
      ((allocate perFileConfig g [0]).messageClass g ⟨0, 1⟩).path =
        ["FooBeans", "A", "FooBeans"] := by
  have hrun : (Graph.build [fooBeansFile]).toOption.map
      (fun g => ((allocate perFileConfig g [0]).messageClass g ⟨0, 1⟩).path) =
        some ["FooBeans", "A", "FooBeans"] := by
    simp only [Graph.build, List.zipIdx_cons, List.zipIdx_nil, List.mapM_cons, List.mapM_nil,
      File.wrap, flatten_fooBeansFile]
    decide +kernel
  cases hb : Graph.build [fooBeansFile] with
  | error e =>
    rw [hb] at hrun
    cases hrun
  | ok g =>
    rw [hb] at hrun
    exact ⟨g, rfl, Option.some_injective _ hrun⟩

end BeanCodegen.Plan
