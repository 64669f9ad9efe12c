import Mathlib
import BeanCodegen.Proofs.Identifiers
import BeanCodegen.Proofs.MemberNames
import BeanCodegen.Proofs.SourcePaths
import BeanCodegen.Proofs.IndexBounds
/-! # Names Java accepts

When every message, enum, enum value, field and oneof of a schema is named by a protobuf
identifier, the names `allocate` derives from those names are Java identifiers, and the ones
claimed in a registry seeded with the reserved names are neither keywords nor builtin class
names: the classes of messages and enums, the classes of oneofs, the members of message classes,
the constants of enums, cases and extensions, and the converter methods.

Two kinds of name escape this. The class of a map entry keeps its declared name without a
claim, so it is an identifier that may be a keyword. The wrapper, extensions and converter
classes are spelled from the file's name, its package or its Java options: no registry hands
out a reserved one, but they may hold any character, and the package `pb2`, stripped of its
`pb`, gives the converter class `2Converter` (`allocate_pb2_converter`).

Each scope's claims go through one registry. `Registry.AddsIdents r r'` says that a run from
`r` to `r'` added only protobuf identifiers; together with the run's log it makes every logged
name one.
-/

namespace BeanCodegen.Naming.Registry

/-- Every name `r'` takes that `r` did not take is a protobuf identifier. -/
def AddsIdents (r r' : Registry) : Prop := ∀ n ∈ r'.taken, n ∉ r.taken → isProtoIdent n = true

theorem AddsIdents.refl (r : Registry) : AddsIdents r r := fun _ hn hr => absurd hn hr

theorem AddsIdents.trans {r r' r'' : Registry} (h : AddsIdents r r') (h' : AddsIdents r' r'') :
    AddsIdents r r'' := by
  intro n hn hr
  by_cases hmid : n ∈ r'.taken
  · exact h n hmid hr
  · exact h' n hn hmid

theorem addsIdents_claim (r : Registry) {base : String} (h : isProtoIdent base = true) :
    AddsIdents r (r.claim base).2 := by
  intro n hn hr
  rcases List.mem_cons.1 (claim_taken r base ▸ hn) with rfl | hn
  · exact isProtoIdent_fresh r h
  · exact absurd hn hr

/-- A run that added only protobuf identifiers logged only protobuf identifiers. -/
theorem Log.protoIdent {r r' : Registry} {names : List String} (hlog : Log r r' names)
    (h : AddsIdents r r') : ∀ n ∈ names, isProtoIdent n = true := by
  obtain ⟨ns, hg, hsub⟩ := hlog
  intro n hn
  have hns : n ∈ ns := hsub.subset hn
  exact h n (hg.taken_eq ▸ List.mem_append_left _ hns) (hg.fresh n hns)

theorem Log.taken_subset {r r' : Registry} {names : List String} (hlog : Log r r' names) :
    r.taken ⊆ r'.taken := by
  obtain ⟨ns, hg, -⟩ := hlog
  intro n hn
  rw [hg.taken_eq]
  exact List.mem_append_right _ hn

/-- A registry where every reserved name is taken, so that it hands out none. -/
def Reserving (r : Registry) : Prop := ∀ n, isReserved n = true → n ∈ r.taken

theorem Reserving.fresh {r : Registry} (h : Reserving r) (base : String) :
    isReserved (r.fresh base) = false := by
  cases hres : isReserved (r.fresh base) with
  | false => rfl
  | true => exact absurd (h _ hres) (fresh_not_mem r base)

theorem Reserving.of_log {r r' : Registry} {names : List String} (h : Reserving r)
    (hlog : Log r r' names) : Reserving r' :=
  fun n hn => hlog.taken_subset (h n hn)

end BeanCodegen.Naming.Registry

namespace BeanCodegen.Schema

open BeanCodegen.Naming BeanCodegen.Descriptor

/-- The name a node declares. -/
def Node.name : Node → String
  | .message m => m.name
  | .enum e => e.name
  | .value v => v.name
  | .field f => f.name
  | .oneof o => o.name

/-- Whether every message, enum, enum value, field and oneof of a file is named by a protobuf
identifier. -/
def File.ProtoNamed (u : File) : Prop := ∀ n ∈ u.nodes, isProtoIdent n.name = true

instance (u : File) : Decidable u.ProtoNamed :=
  inferInstanceAs (Decidable (∀ n ∈ u.nodes, isProtoIdent n.name = true))

/-- Whether every file of a graph names its declarations by protobuf identifiers. -/
def Graph.ProtoNamed (g : Graph) : Prop := ∀ u ∈ g.files, u.ProtoNamed

instance (g : Graph) : Decidable g.ProtoNamed :=
  inferInstanceAs (Decidable (∀ u ∈ g.files, u.ProtoNamed))

/-- A message whose fields, extensions and oneofs are named by protobuf identifiers. -/
structure Message.ProtoNamed (m : Message) : Prop where
  field : ∀ fd ∈ m.fields, isProtoIdent fd.name = true
  extension : ∀ fd ∈ m.extensions, isProtoIdent fd.name = true
  oneof : ∀ o ∈ m.oneofs, isProtoIdent o.name = true

theorem mem_nodes_field {u : File} {m : Message} (hm : m ∈ u.messages) {fd : Field}
    (hfd : fd ∈ m.fields ++ m.extensions) : Node.field fd ∈ u.nodes :=
  List.mem_append_left _ (List.mem_append_right _ (List.mem_append_left _
    (List.mem_flatMap.2 ⟨m, hm, List.mem_map_of_mem hfd⟩)))

namespace File.ProtoNamed

variable {u : File} (hu : u.ProtoNamed)
include hu

theorem message_name {m : Message} (hm : m ∈ u.messages) : isProtoIdent m.name = true :=
  hu (.message m) (List.mem_append_left _ (List.mem_append_left _ (List.mem_append_left _
    (List.mem_append_left _ (List.mem_map_of_mem hm)))))

theorem message {m : Message} (hm : m ∈ u.messages) : m.ProtoNamed where
  field fd hfd := hu (.field fd) (mem_nodes_field hm (List.mem_append_left _ hfd))
  extension fd hfd := hu (.field fd) (mem_nodes_field hm (List.mem_append_right _ hfd))
  oneof o ho := hu (.oneof o) (List.mem_append_right _
    (List.mem_flatMap.2 ⟨m, hm, List.mem_map_of_mem ho⟩))

theorem enum_name {e : EnumType} (he : e ∈ u.enums) : isProtoIdent e.name = true :=
  hu (.enum e) (List.mem_append_left _ (List.mem_append_left _ (List.mem_append_left _
    (List.mem_append_right _ (List.mem_map_of_mem he)))))

theorem value_name {e : EnumType} (he : e ∈ u.enums) {v : EnumValue} (hv : v ∈ e.values) :
    isProtoIdent v.name = true :=
  hu (.value v) (List.mem_append_left _ (List.mem_append_left _ (List.mem_append_right _
    (List.mem_flatMap.2 ⟨e, he, List.mem_map_of_mem hv⟩))))

theorem extension_name {fd : Field} (hfd : fd ∈ u.extensions) : isProtoIdent fd.name = true :=
  hu (.field fd) (List.mem_append_left _ (List.mem_append_right _ (List.mem_append_right _
    (List.mem_map_of_mem hfd))))

end File.ProtoNamed

theorem Graph.ProtoNamed.file {g : Graph} (h : g.ProtoNamed) {f : Nat} (hf : f < g.files.length) :
    (g.file f).ProtoNamed :=
  h _ (by simp [Graph.file, List.getElem?_eq_getElem hf])

/-- A message of an arena wraps the walk's entry at its index: it has that entry's name, chain
of names and parent. -/
theorem Arena.message_wraps {raw : FileProto} {u : File} (h : Arena raw u) {i : Nat}
    {m : Message} (hm : u.messages[i]? = some m) :
    ∃ fm, (flatten raw.messageType)[i]? = some fm ∧ m.name = fm.raw.name.getD "" ∧
      m.typeName = fm.typeName ∧ m.parent = fm.parent := by
  have hwrap := congrArg (·[i]?) h.wraps
  simp only [List.getElem?_map, hm, Option.map_some] at hwrap
  obtain ⟨fm, hfm, hwm⟩ := Option.map_eq_some_iff.1 hwrap.symm
  exact ⟨fm, hfm, (congrArg Message.name hwm).symm, (congrArg Message.typeName hwm).symm,
    (congrArg Message.parent hwm).symm⟩

/-- The chain of names down to a message of an arena is never empty, and each name in it is the
name of a message of the file. -/
theorem Arena.typeName_names {raw : FileProto} {u : File} (h : Arena raw u) (i : Nat) :
    ∀ m, u.messages[i]? = some m →
      m.typeName ≠ [] ∧ ∀ n ∈ m.typeName, ∃ m' ∈ u.messages, m'.name = n := by
  -- by strong induction on the index: a parent comes before its children
  induction i using Nat.strong_induction_on with
  | _ i ih =>
  intro m hm
  obtain ⟨fm, hfm, hname, htn, hpar⟩ := h.message_wraps hm
  have he : (fm, i) ∈ (flatten raw.messageType).zipIdx := List.mem_zipIdx_iff_getElem?.2 hfm
  have hself : ∀ n ∈ [fm.raw.name.getD ""], ∃ m' ∈ u.messages, m'.name = n := by
    intro n hn
    exact ⟨m, List.mem_of_getElem? hm, hname.trans (List.mem_singleton.1 hn).symm⟩
  cases hp : fm.parent with
  | none =>
    rw [htn, flatten_typeName_root he hp]
    exact ⟨List.cons_ne_nil _ _, hself⟩
  | some p =>
    obtain ⟨pf, hpf, hchain⟩ := flatten_typeName_child he hp
    have hpi : p < i := h.parent_lt (m, i) (List.mem_zipIdx_iff_getElem?.2 hm) p (hpar.trans hp)
    obtain ⟨mp, hmp⟩ : ∃ mp, u.messages[p]? = some mp :=
      ⟨_, List.getElem?_eq_getElem (by have := (List.getElem?_eq_some_iff.1 hm).1; omega)⟩
    obtain ⟨fp, hfp, -, htp, -⟩ := h.message_wraps hmp
    rw [hfp, Option.some.injEq] at hpf
    subst hpf
    obtain ⟨-, hnames⟩ := ih p hpi mp hmp
    rw [htn, hchain, ← htp]
    refine ⟨by simp, fun n hn => ?_⟩
    rcases List.mem_append.1 hn with hn | hn
    · exact hnames n hn
    · exact hself n hn

theorem Arena.typeName_protoIdent {raw : FileProto} {u : File} (h : Arena raw u)
    (hu : u.ProtoNamed) : ∀ m ∈ u.messages, isProtoIdent (String.join m.typeName) = true := by
  intro m hm
  obtain ⟨i, hi⟩ := List.mem_iff_getElem?.1 hm
  obtain ⟨hne, hnames⟩ := h.typeName_names i m hi
  refine isProtoIdent_join hne fun n hn => ?_
  obtain ⟨m', hm', rfl⟩ := hnames n hn
  exact hu.message_name hm'

end BeanCodegen.Schema

namespace BeanCodegen.Plan

open BeanCodegen.Naming BeanCodegen.Schema BeanCodegen.Descriptor

/-! ## Runs over lists -/

/-- A reflexive and transitive relation on states that each step of a run keeps holds between
the start and the end of a run over a list. -/
theorem mapM_rel {σ α β : Type} (R : σ → σ → Prop) (hrefl : ∀ s, R s s)
    (htrans : ∀ {s s' s''}, R s s' → R s' s'' → R s s'') (f : α → StateM σ β) :
    ∀ (xs : List α), (∀ x ∈ xs, ∀ s, R s ((f x).run s).2) → ∀ s, R s ((xs.mapM f).run s).2
  | [], _, s => hrefl s
  | x :: xs, hf, s => by
    simp only [List.mapM_cons, stateM_run_bind, stateM_run_pure]
    exact htrans (hf x List.mem_cons_self s)
      (mapM_rel R hrefl htrans f xs (fun y hy => hf y (List.mem_cons_of_mem x hy)) _)

/-- Each result of a run over a list is what one step gave on one of its elements. -/
theorem mem_mapM_run {σ α β : Type} (f : α → StateM σ β) :
    ∀ (xs : List α) (s : σ) {y : β}, y ∈ ((xs.mapM f).run s).1 →
      ∃ x ∈ xs, ∃ s', y = ((f x).run s').1
  | [], _, _, hy => absurd hy List.not_mem_nil
  | x :: xs, s, y, hy => by
    simp only [List.mapM_cons, stateM_run_bind, stateM_run_pure, List.mem_cons] at hy
    rcases hy with rfl | hy
    · exact ⟨x, List.mem_cons_self, s, rfl⟩
    · obtain ⟨x', hx', s', rfl⟩ := mem_mapM_run f xs _ hy
      exact ⟨x', List.mem_cons_of_mem x hx', s', rfl⟩

/-! ## The members and classes of a message -/

/-- A run of a message's scopes added only protobuf identifiers, among the members and among the
nested classes. -/
def ScopesAddIdents (s s' : MessageScopes) : Prop :=
  Registry.AddsIdents s.members s'.members ∧ Registry.AddsIdents s.classes s'.classes

theorem ScopesAddIdents.refl (s : MessageScopes) : ScopesAddIdents s s :=
  ⟨.refl _, .refl _⟩

theorem ScopesAddIdents.trans {s s' s'' : MessageScopes} (h : ScopesAddIdents s s')
    (h' : ScopesAddIdents s' s'') : ScopesAddIdents s s'' :=
  ⟨h.1.trans h'.1, h.2.trans h'.2⟩

theorem onMembers_addsIdents {α : Type} (x : StateM Registry α) (s : MessageScopes)
    (h : Registry.AddsIdents s.members (x.run s.members).2) :
    ScopesAddIdents s ((onMembers x).run s).2 := by
  rw [onMembers_run]
  exact ⟨h, .refl _⟩

theorem onClasses_addsIdents {α : Type} (x : StateM Registry α) (s : MessageScopes)
    (h : Registry.AddsIdents s.classes (x.run s.classes).2) :
    ScopesAddIdents s ((onClasses x).run s).2 := by
  rw [onClasses_run]
  exact ⟨.refl _, h⟩

theorem extensionPlan_addsIdents {ext : Field} (h : isProtoIdent ext.name = true) (r : Registry) :
    Registry.AddsIdents r ((extensionPlan ext).run r).2 := by
  have hc := isProtoIdent_upperSnakeCase h
  simp only [extensionPlan, stateM_run_bind, claimName_run, stateM_run_pure]
  exact (Registry.addsIdents_claim _ (isProtoIdent_append hc (by decide))).trans
    (Registry.addsIdents_claim _ (isProtoIdent_append hc (by decide)))

theorem startOneof_addsIdents {o : Oneof} (h : isProtoIdent o.name = true) (s : MessageScopes) :
    ScopesAddIdents s ((startOneof o).run s).2 := by
  have hstem := isProtoIdent_camelCase h
  unfold startOneof
  cases o.synthetic with
  | true => exact .refl s
  | false =>
    simp only [Bool.false_eq_true, if_false, stateM_run_bind, stateM_run_pure]
    exact (onClasses_addsIdents _ s (Registry.addsIdents_claim _ hstem)).trans
      (onClasses_addsIdents _ _ (Registry.addsIdents_claim _
        (isProtoIdent_append hstem (by decide))))

/-- Naming a field claims, as members and nested classes, only names built from the field's
name and its oneof's. -/
theorem nameField_addsIdents {m : Message} (hm : m.ProtoNamed) {f : Field}
    (hf : isProtoIdent f.name = true) (plans : List (Option OneofPlan)) (s : MessageScopes) :
    ScopesAddIdents s ((nameField m f plans).run s).2 := by
  have hstem := isProtoIdent_camelCase hf
  have hplain : ScopesAddIdents s
      ((onMembers (claimName (lowerCamelCase f.name))).run s).2 :=
    onMembers_addsIdents _ s (Registry.addsIdents_claim _ (isProtoIdent_lowerCamelCase hf))
  unfold nameField
  split
  · exact hplain
  · rename_i g hg
    obtain ⟨k, -, hk, -⟩ := Message.variantGroup_eq_some hg
    have hg' := hm.oneof g (List.mem_of_getElem? hk)
    have hgstem := isProtoIdent_camelCase hg'
    -- the variant's class, setter and getter, after the oneof's own members when it opens
    have hvariant : ∀ s', ScopesAddIdents s'
        (((onMembers (claimName ("get" ++ camelCase f.name))).run
          ((onMembers (claimName ("set" ++ camelCase f.name))).run
            ((onClasses (claimName (camelCase g.name ++ camelCase f.name))).run s').2).2).2) := by
      intro s'
      exact ((onClasses_addsIdents _ s' (Registry.addsIdents_claim _
        (isProtoIdent_append hgstem hstem))).trans (onMembers_addsIdents _ _
          (Registry.addsIdents_claim _ (isProtoIdent_append (by decide) hstem)))).trans
        (onMembers_addsIdents _ _
          (Registry.addsIdents_claim _ (isProtoIdent_append (by decide) hstem)))
    split
    · split
      · simp only [stateM_run_bind, stateM_run_pure]
        refine ((onMembers_addsIdents _ s (Registry.addsIdents_claim _
          (isProtoIdent_lowerCamelCase hg'))).trans (onMembers_addsIdents _ _
            (Registry.addsIdents_claim _ ?_))).trans (hvariant _)
        exact isProtoIdent_append (isProtoIdent_append (by decide) hgstem)
          (by decide)
      · simp only [stateM_run_bind, stateM_run_pure]
        exact hvariant s
    · exact hplain

theorem nameFields_addsIdents {m : Message} (hm : m.ProtoNamed) :
    ∀ (fs : List Field), (∀ fd ∈ fs, isProtoIdent fd.name = true) →
      ∀ (plans : List (Option OneofPlan)) (s : MessageScopes),
        ScopesAddIdents s ((nameFields m fs plans).run s).2
  | [], _, _, s => .refl s
  | f :: fs, hfs, plans, s => by
    simp only [nameFields, stateM_run_bind, stateM_run_pure]
    exact (nameField_addsIdents hm (hfs f List.mem_cons_self) plans s).trans
      (nameFields_addsIdents hm fs (fun fd hfd => hfs fd (List.mem_cons_of_mem f hfd)) _ _)

/-- Planning the members of a message named by protobuf identifiers adds only protobuf
identifiers to its scopes. -/
theorem planMembers_addsIdents {m : Message} (hm : m.ProtoNamed) (s : MessageScopes) :
    ScopesAddIdents s ((planMembers m).run s).2 := by
  simp only [planMembers, stateM_run_bind, stateM_run_pure]
  have hstart := mapM_rel ScopesAddIdents .refl .trans startOneof m.oneofs
    (fun o ho s => startOneof_addsIdents (hm.oneof o ho) s) s
  refine (((hstart.trans (nameFields_addsIdents hm m.fields hm.field _ _)).trans
    (mapM_rel ScopesAddIdents .refl .trans _ m.fields ?_ _)).trans
    (mapM_rel ScopesAddIdents .refl .trans _ m.fields ?_ _)).trans
    (mapM_rel ScopesAddIdents .refl .trans _ m.extensions ?_ _)
  · intro fd hfd s
    exact onMembers_addsIdents _ s (Registry.addsIdents_claim _
      (isProtoIdent_append (isProtoIdent_upperSnakeCase (hm.field fd hfd)) (by decide)))
  · intro fd hfd s
    split
    · show ScopesAddIdents s
        ((onMembers (claimName ("DEFAULT_" ++ upperSnakeCase fd.name))).run s).2
      exact onMembers_addsIdents _ s (Registry.addsIdents_claim _
        (isProtoIdent_append (by decide) (isProtoIdent_upperSnakeCase (hm.field fd hfd))))
    · exact .refl s
  · intro ext hext s
    exact onMembers_addsIdents _ s (extensionPlan_addsIdents (hm.extension ext hext) _)

theorem reserving_withReserved : Registry.Reserving Registry.withReserved :=
  fun _ hn => mem_withReserved_taken.2 hn

theorem reserving_reservedWith (extra : List String) : Registry.Reserving (reservedWith extra) :=
  fun _ hn => mem_reservedWith_taken.2 (Or.inr hn)

/-- A field's identifier is claimed among the members, or, for a member of a oneof with variant
classes, in a registry of the reserved names alone. -/
theorem nameField_ident (m : Message) (f : Field) (plans : List (Option OneofPlan))
    (s : MessageScopes) :
    ((nameField m f plans).run s).1.1 = s.members.fresh (lowerCamelCase f.name) ∨
      ((nameField m f plans).run s).1.1 = Registry.withReserved.fresh (lowerCamelCase f.name) := by
  unfold nameField
  split
  · exact Or.inl rfl
  · split
    · right
      split <;> rfl
    · exact Or.inl rfl

/-- The identifiers fields are given, starting from members that hold the reserved names, are
protobuf identifiers and not reserved. -/
theorem nameFields_idents {m : Message} :
    ∀ (fs : List Field), (∀ fd ∈ fs, isProtoIdent fd.name = true) →
      ∀ (plans : List (Option OneofPlan)) (s : MessageScopes), Registry.Reserving s.members →
        ∀ n ∈ ((nameFields m fs plans).run s).1.1, isProtoIdent n = true ∧ isReserved n = false
  | [], _, _, _, _, _, hn => absurd hn List.not_mem_nil
  | f :: fs, hfs, plans, s, hs, n, hn => by
    simp only [nameFields, stateM_run_bind, stateM_run_pure, List.mem_cons] at hn
    rcases hn with rfl | hn
    · have hb := isProtoIdent_lowerCamelCase (hfs f List.mem_cons_self)
      rcases nameField_ident m f plans s with h | h <;> rw [h]
      · exact ⟨isProtoIdent_fresh _ hb, hs.fresh _⟩
      · exact ⟨isProtoIdent_fresh _ hb, reserving_withReserved.fresh _⟩
    · -- the members registry only grows, so it keeps the reserved names
      obtain ⟨extra, hlog, -⟩ := nameField_memberLog m f plans s
      exact nameFields_idents fs (fun fd hfd => hfs fd (List.mem_cons_of_mem f hfd)) _ _
        (hs.of_log hlog) n hn

/-- Naming the cases of a oneof whose variants are fields of `m` gives protobuf identifiers. -/
theorem nameCases_caseNames_protoIdent {m : Message}
    (hfields : ∀ fd ∈ m.fields, isProtoIdent fd.name = true) {o : Oneof}
    (ho : isProtoIdent o.name = true) {p : OneofPlan}
    (hfit : ∀ v ∈ p.variants, ∃ fd, m.fields[v.fieldIndex]? = some fd) :
    ∀ n ∈ (nameCases m o p).caseNames, isProtoIdent n = true := by
  simp only [OneofPlan.caseNames, nameCases, Id.run, stateM_run_bind, stateM_run_pure,
    List.mem_append, List.mem_map, List.mem_singleton]
  rintro n (⟨v', hv', rfl⟩ | rfl)
  · obtain ⟨v, hv, r, rfl⟩ := mem_mapM_run _ p.variants _ hv'
    obtain ⟨fd, hfd⟩ := hfit v hv
    simp only [stateM_run_bind, claimName_run, stateM_run_pure, hfd, Option.map_some,
      Option.getD_some]
    exact isProtoIdent_fresh r (isProtoIdent_upperSnakeCase (hfields fd (List.mem_of_getElem? hfd)))
  · exact isProtoIdent_fresh _
      (isProtoIdent_append (isProtoIdent_upperSnakeCase ho) (by decide))

section PlanMembers

variable {m : Message} (hm : m.ProtoNamed) (S : MessageScopes)
include hm

theorem planMembers_classMembers_protoIdent :
    ∀ n ∈ classMembers m ((planMembers m).run S).1.1 ((planMembers m).run S).1.2.1
      ((planMembers m).run S).1.2.2, isProtoIdent n = true :=
  (planMembers_memberLog m S).protoIdent (planMembers_addsIdents hm S).1

theorem planMembers_oneofClasses_protoIdent :
    ∀ n ∈ oneofClasses ((planMembers m).run S).1.2.1, isProtoIdent n = true :=
  Registry.Log.protoIdent (planMembers_classLog m S) (planMembers_addsIdents hm S).2

/-- Every field of a message gets a protobuf identifier that is not reserved, when its members
start from the reserved names. -/
theorem planMembers_fields_ident (hS : Registry.Reserving S.members) :
    ∀ mp ∈ ((planMembers m).run S).1.1, isProtoIdent mp.field = true ∧ isReserved mp.field = false := by
  intro mp hmp
  have hidents : ((planMembers m).run S).1.1.map (·.field) =
      ((nameFields m m.fields ((m.oneofs.mapM startOneof).run S).1).run
        ((m.oneofs.mapM startOneof).run S).2).1.1 := by
    simp only [planMembers, stateM_run_bind, stateM_run_pure]
    rw [List.map_map]
    exact map_zip_zip_snd_fst (length_nameFields m _ _ _) (length_stateM_mapM _ _ _)
      (length_stateM_mapM _ _ _)
  -- starting the oneofs claims no member
  have hstart := mapM_log MessageScopes.members startOneof
    (fun o => (o.map OneofPlan.memberNames).getD []) startOneof_memberLog m.oneofs S
  exact nameFields_idents m.fields hm.field _ _ (hS.of_log hstart) _
    (hidents ▸ List.mem_map_of_mem hmp)

/-- The case constants of every oneof of an indexed message are protobuf identifiers. -/
theorem planMembers_caseNames_protoIdent (hidx : m.Indexed) :
    ∀ o ∈ ((planMembers m).run S).1.2.1, ∀ op ∈ o, ∀ n ∈ op.caseNames, isProtoIdent n = true := by
  intro o ho op hop
  obtain ⟨k, hk⟩ := List.mem_iff_getElem?.1 ho
  have hfit := (planMembers_fit m hidx S).variant_field k op (by rw [hk, Option.mem_def.1 hop])
  simp only [planMembers, stateM_run_bind, stateM_run_pure] at ho
  obtain ⟨x, hx, rfl⟩ := List.mem_map.1 ho
  obtain ⟨p, -, rfl⟩ := Option.mem_map.1 hop
  refine nameCases_caseNames_protoIdent hm.field (hm.oneof x.1 (List.of_mem_zip hx).1) fun v hv => ?_
  -- naming the cases keeps the variants' fields, which fit the message
  have hmem : v.fieldIndex ∈ (nameCases m x.1 p).members := by
    rw [nameCases_members]
    exact List.mem_map_of_mem hv
  obtain ⟨v', hv', heq⟩ := List.mem_map.1 hmem
  obtain ⟨fd, hfd, -⟩ := hfit v' hv'
  exact ⟨fd, heq ▸ hfd⟩

end PlanMembers

/-! ## Names recorded for nodes -/

/-- Every name recorded for a node is a protobuf identifier. -/
def IdentNames (names : Array (Option String)) : Prop :=
  ∀ (i : Nat) (n : String), names[i]? = some (some n) → isProtoIdent n = true

theorem identNames_replicate (k : Nat) : IdentNames (Array.replicate k none) := by
  intro i n h
  rw [Array.getElem?_replicate] at h
  split at h <;> simp at h

theorem IdentNames.setIfInBounds {names : Array (Option String)} (h : IdentNames names)
    {n : String} (hn : isProtoIdent n = true) (i : Nat) :
    IdentNames (names.setIfInBounds i (some n)) := by
  intro j n' hj
  rw [Array.getElem?_setIfInBounds] at hj
  split at hj
  · split at hj
    · cases hj
      exact hn
    · cases hj
  · exact h j n' hj

/-- The name a node keeps, recorded or else its own protobuf identifier, is one. -/
theorem IdentNames.getD {names : Array (Option String)} (h : IdentNames names) {d : String}
    (hd : isProtoIdent d = true) (i : Nat) : isProtoIdent (names[i]?.join.getD d) = true := by
  cases hi : names[i]? with
  | none => exact hd
  | some x =>
    cases x with
    | none => exact hd
    | some n => exact h i n hi

theorem claimNodes_identNames {α : Type} (keep : α → Bool) (idx : α → Nat) (base : α → String) :
    ∀ (xs : List α) (acc : Registry × Array (Option String)),
      (∀ x ∈ xs, keep x = true → isProtoIdent (base x) = true) → IdentNames acc.2 →
      IdentNames (claimNodes keep idx base xs acc).2
  | [], _, _, h => h
  | x :: xs, acc, hb, h => by
    rw [claimNodes_cons]
    refine claimNodes_identNames keep idx base xs _
      (fun y hy => hb y (List.mem_cons_of_mem x hy)) ?_
    split
    · rename_i hk
      rw [claimFor_snd]
      exact h.setIfInBounds (isProtoIdent_fresh _ (hb x List.mem_cons_self hk)) _
    · exact h

theorem topClasses_identNames (cfg : Config) {u : File} (hu : u.ProtoNamed) :
    IdentNames (topClasses cfg u).messageNames ∧ IdentNames (topClasses cfg u).enumNames :=
  ⟨claimNodes_identNames _ _ _ _ _
      (fun _ hx _ => hu.message_name (List.mem_of_getElem? (mem_topLevelMessages hx).1))
      (identNames_replicate _),
    claimNodes_identNames _ _ _ _ _
      (fun _ hx _ => hu.enum_name (List.mem_of_getElem? (mem_topLevelEnums hx).1))
      (identNames_replicate _)⟩

theorem claimChildren_identNames {u : File} (hL : u.Linked) (hu : u.ProtoNamed) {i : Nat}
    {m : Message} (hm : u.messages[i]? = some m) (classes : Registry)
    {mn en : Array (Option String)} (hmn : IdentNames mn) (hen : IdentNames en) :
    IdentNames (claimChildren u m classes mn en).2.1 ∧
      IdentNames (claimChildren u m classes mn en).2.2 := by
  refine ⟨claimNodes_identNames _ _ _ m.nested _ (fun c hc _ => ?_) hmn,
    claimNodes_identNames _ _ _ m.enums _ (fun e he _ => ?_) hen⟩
  · obtain ⟨mc, hmc, -⟩ := hL.parent_of_mem_nested hm hc
    show isProtoIdent (u.messages[c]?.getD default).name = true
    rw [hmc, Option.getD_some]
    exact hu.message_name (List.mem_of_getElem? hmc)
  · obtain ⟨en, hen', -⟩ := hL.parent_of_mem_enums hm he
    show isProtoIdent (u.enums[e]?.getD default).name = true
    rw [hen', Option.getD_some]
    exact hu.enum_name (List.mem_of_getElem? hen')

/-- Walking a file's messages records protobuf identifiers only. -/
theorem walkTo_identNames {u : File} (hL : u.Linked) (hu : u.ProtoNamed) {w : MessageWalk}
    (hw : IdentNames w.messageNames ∧ IdentNames w.enumNames) :
    ∀ k, IdentNames (walkTo u w k).messageNames ∧ IdentNames (walkTo u w k).enumNames
  | 0 => hw
  | k + 1 => by
    cases hm : u.messages[k]? with
    | none =>
      rw [walkTo_succ_of_none hm]
      exact walkTo_identNames hL hu hw k
    | some m =>
      rw [walkTo_succ hm, planMessage_messageNames, planMessage_enumNames]
      obtain ⟨hmn, hen⟩ := walkTo_identNames hL hu hw k
      exact claimChildren_identNames hL hu hm _ hmn hen

/-! ## Converter methods -/

theorem planMessage_methods_addsIdents (u : File) (w : MessageWalk) {m : Message} (i : Nat)
    (h : isProtoIdent (String.join m.typeName) = true) :
    Registry.AddsIdents w.methods (planMessage u w m i).methods := by
  have hto : isProtoIdent ("to" ++ camelCase (String.join m.typeName)) = true :=
    isProtoIdent_append (by decide) (isProtoIdent_camelCase h)
  exact ((Registry.addsIdents_claim _ hto).trans
    (Registry.addsIdents_claim _ (isProtoIdent_append hto (by decide)))).trans
    (Registry.addsIdents_claim _ (isProtoIdent_append hto (by decide)))

theorem walkTo_methods_addsIdents {u : File} {w : MessageWalk}
    (ht : ∀ m ∈ u.messages, isProtoIdent (String.join m.typeName) = true) :
    ∀ k, Registry.AddsIdents w.methods (walkTo u w k).methods
  | 0 => .refl _
  | k + 1 => by
    cases hm : u.messages[k]? with
    | none =>
      rw [walkTo_succ_of_none hm]
      exact walkTo_methods_addsIdents ht k
    | some m =>
      rw [walkTo_succ hm]
      exact (walkTo_methods_addsIdents ht k).trans
        (planMessage_methods_addsIdents u _ k (ht m (List.mem_of_getElem? hm)))

/-! ## The names of a planned file -/

/-- A name Java accepts for a declaration: an identifier that is neither a keyword nor the
name of a builtin class. -/
def JavaName (n : String) : Prop := Java.isIdentifier n = true ∧ isReserved n = false

theorem javaName_of_protoIdent {n : String} (h : isProtoIdent n = true)
    (hr : isReserved n = false) : JavaName n :=
  ⟨isIdentifier_of_isProtoIdent h, hr⟩

/-- The constants of an extension: its field number and its extendee. -/
def ExtensionPlan.names (e : ExtensionPlan) : List String := [e.numberConst, e.extendeeConst]

theorem planFile_constants (cfg : Config) (u : File) (s : SharedNames) {e : Nat} {en : EnumType}
    (he : u.enums[e]? = some en) :
    ((((planFile cfg u).run s).1.enums[e]?).getD default).constants =
      ((en.values.mapM fun v => claimName v.name).run (reservedWith enumMembers)).1 := by
  simp only [planFile, StateT.run, bind, StateT.bind, get, getThe, MonadStateOf.get, StateT.get,
    set, StateT.set, pure, StateT.pure, List.getElem?_map, List.getElem?_zipIdx, he,
    Option.map_some, Option.getD_some]
  rfl

theorem planFile_extensions (cfg : Config) (u : File) (s : SharedNames) :
    ((planFile cfg u).run s).1.extensions =
      ((u.extensions.mapM extensionPlan).run Registry.withReserved).1 := rfl

section OneFile

variable {a : Allocation} {g : Graph} {f : Nat} {cfg : Config} {s : SharedNames}
  {raw : FileProto} (hA : Arena raw (g.file f)) (hu : (g.file f).ProtoNamed)
  (hp : a.file f = ((planFile cfg (g.file f)).run s).1)
include hA hu hp

/-- A message's class is named by a protobuf identifier. -/
theorem className_protoIdent_of_planFile {i : Nat} (hi : i < (g.file f).messages.length) :
    isProtoIdent (a.message ⟨f, i⟩).className = true := by
  obtain ⟨m, hm⟩ : ∃ m, (g.file f).messages[i]? = some m := ⟨_, List.getElem?_eq_getElem hi⟩
  simp only [Allocation.message, hp, planFile_messages]
  rw [walk_className hA.linked rfl (le_refl i) hm]
  exact (walkTo_identNames hA.linked hu (topClasses_identNames cfg hu) i).1.getD
    (hu.message_name (List.mem_of_getElem? hm)) i

omit hu in
/-- The class of a message other than a map entry is not reserved: its parent, or the top of
the file, claimed it. -/
theorem className_not_reserved_of_planFile {i : Nat} (hi : i < (g.file f).messages.length)
    (hmap : (g.message ⟨f, i⟩).mapEntry = false) :
    isReserved (a.message ⟨f, i⟩).className = false := by
  have hL := hA.linked
  obtain ⟨m, hm⟩ : ∃ m, (g.file f).messages[i]? = some m := ⟨_, List.getElem?_eq_getElem hi⟩
  rw [show g.message ⟨f, i⟩ = m by simp [Graph.message, hm]] at hmap
  cases hpar : m.parent with
  | none =>
    have hmem : (i, m) ∈ (g.file f).topLevelMessages.filter fun x => !x.2.mapEntry := by
      simp [File.topLevelMessages, List.mem_zipIdx_iff_getElem?, hm, Message.isTopLevel, hpar,
        hmap]
    exact (topLevelClasses_of_planFile hL hp).2 _ (List.mem_append_left _
      (List.mem_append_left _ (List.mem_append_left _ (List.mem_map_of_mem hmem))))
  | some p =>
    have hpi : p < i := hL.parent_lt i p (by rw [hm, Option.getD_some, hpar])
    obtain ⟨mp, hmp⟩ : ∃ mp, (g.file f).messages[p]? = some mp :=
      ⟨_, List.getElem?_eq_getElem (by omega)⟩
    have hchild : i ∈ classChildren (g.file f) mp :=
      List.mem_filter.2 ⟨(hL.nested_iff p mp hmp i).2 (by simp [hm, hpar]), by simp [hm, hmap]⟩
    have hmem : (a.message ⟨f, i⟩).className ∈ a.nestedClasses g ⟨f, p⟩ := by
      rw [Allocation.nestedClasses, show g.message ⟨f, p⟩ = mp by simp [Graph.message, hmp]]
      exact List.mem_append_left _ (List.mem_append_left _ (List.mem_map_of_mem hchild))
    exact ((nestedClasses_of_planFile hL hp (by omega)).2 _ hmem).1

/-- An enum's class is named by a protobuf identifier that is not reserved. -/
theorem enumClass_javaName_of_planFile {e : Nat} (he : e < (g.file f).enums.length) :
    JavaName (a.enumPlan ⟨f, e⟩).className := by
  have hL := hA.linked
  obtain ⟨en, hen⟩ : ∃ en, (g.file f).enums[e]? = some en := ⟨_, List.getElem?_eq_getElem he⟩
  refine javaName_of_protoIdent ?_ ?_
  · simp only [Allocation.enumPlan, hp, planFile_enumClassName]
    refine (walkTo_identNames hL hu (topClasses_identNames cfg hu) _).2.getD ?_ e
    rw [hen, Option.getD_some]
    exact hu.enum_name (List.mem_of_getElem? hen)
  cases hpar : en.parent with
  | none =>
    have hmem : (e, en) ∈ (g.file f).topLevelEnums := by
      simp [File.topLevelEnums, List.mem_zipIdx_iff_getElem?, hen, hpar]
    exact (topLevelClasses_of_planFile hL hp).2 _ (List.mem_append_left _
      (List.mem_append_left _ (List.mem_append_right _ (List.mem_map_of_mem hmem))))
  | some p =>
    have hpl : p < (g.file f).messages.length :=
      hA.enum_parent_lt en (List.mem_of_getElem? hen) p hpar
    obtain ⟨mp, hmp⟩ : ∃ mp, (g.file f).messages[p]? = some mp :=
      ⟨_, List.getElem?_eq_getElem hpl⟩
    have hnested : e ∈ mp.enums := (hL.enums_iff p mp hmp e).2 (by simp [hen, hpar])
    have hmem : (a.enumPlan ⟨f, e⟩).className ∈ a.nestedClasses g ⟨f, p⟩ := by
      rw [Allocation.nestedClasses, show g.message ⟨f, p⟩ = mp by simp [Graph.message, hmp]]
      exact List.mem_append_left _ (List.mem_append_right _ (List.mem_map_of_mem hnested))
    exact ((nestedClasses_of_planFile hL hp hpl).2 _ hmem).1

omit hA in
/-- The constants of an enum are protobuf identifiers. -/
theorem enumConstants_protoIdent_of_planFile {e : Nat} (he : e < (g.file f).enums.length) :
    ∀ n ∈ (a.enumPlan ⟨f, e⟩).constants, isProtoIdent n = true := by
  obtain ⟨en, hen⟩ : ∃ en, (g.file f).enums[e]? = some en := ⟨_, List.getElem?_eq_getElem he⟩
  intro n hn
  rw [Allocation.enumPlan, hp, planFile_constants cfg _ s hen] at hn
  obtain ⟨v, hv, r, rfl⟩ := mem_mapM_run _ en.values _ hn
  exact isProtoIdent_fresh r (hu.value_name (List.mem_of_getElem? hen) hv)

/-- The converter methods of a file are protobuf identifiers. -/
theorem converterMethods_protoIdent_of_planFile :
    ∀ n ∈ a.converterMethods f, isProtoIdent n = true := by
  rw [Allocation.converterMethods, hp, planFile_messages]
  exact (walkTo_methodLog (u := g.file f) (w := startWalk cfg (g.file f)) rfl _).protoIdent
    (walkTo_methods_addsIdents (hA.typeName_protoIdent hu) _)

omit hA in
/-- The constants of a file's extensions are protobuf identifiers that are not reserved. -/
theorem extensions_javaName_of_planFile :
    ∀ n ∈ (a.file f).extensions.flatMap ExtensionPlan.names, JavaName n := by
  have hlog := mapM_log id extensionPlan ExtensionPlan.names
    (fun _ r => (Registry.log_claim r _).trans (Registry.log_claim _ _)) (g.file f).extensions
    Registry.withReserved
  have hadds := mapM_rel Registry.AddsIdents .refl .trans extensionPlan (g.file f).extensions
    (fun ext hext r => extensionPlan_addsIdents (hu.extension_name hext) r) Registry.withReserved
  rw [hp, planFile_extensions]
  intro n hn
  refine javaName_of_protoIdent (hlog.protoIdent hadds n hn) ?_
  have hfree : n ∉ Registry.withReserved.taken := hlog.not_mem hn
  rw [mem_withReserved_taken] at hfree
  simpa using hfree

/-- The members of a message's class, the classes of its oneofs and the identifiers of its
fields are names Java accepts, and so are the case constants of its oneofs. -/
theorem members_javaName_of_planFile {i : Nat} (hi : i < (g.file f).messages.length) :
    (∀ n ∈ a.memberNames g ⟨f, i⟩ ++ oneofClasses (a.message ⟨f, i⟩).oneofs ++
      (a.message ⟨f, i⟩).fields.map (·.field), JavaName n) ∧
    ∀ o ∈ (a.message ⟨f, i⟩).oneofs, ∀ op ∈ o, ∀ n ∈ op.caseNames, JavaName n := by
  obtain ⟨m, hm⟩ : ∃ m, (g.file f).messages[i]? = some m := ⟨_, List.getElem?_eq_getElem hi⟩
  have hmem : m ∈ (g.file f).messages := List.mem_of_getElem? hm
  have hnamed := hu.message hmem
  obtain ⟨S, hS, hfields, honeofs, hexts⟩ := message_of_planFile hp hm
  obtain ⟨-, hfree, hcases⟩ := memberNames_of_planFile hp hi
  obtain ⟨-, hnested⟩ := nestedClasses_of_planFile hA.linked hp hi
  refine ⟨fun n hn => ?_, fun o ho op hop n hn => javaName_of_protoIdent ?_
    ((hcases o ho op hop).2 n hn).2⟩
  · rcases List.mem_append.1 hn with hn | hn
    · rcases List.mem_append.1 hn with hn | hn
      · -- a member of the class
        refine javaName_of_protoIdent ?_ (hfree n hn).2
        rw [Allocation.memberNames, show g.message ⟨f, i⟩ = m by simp [Graph.message, hm],
          hfields, honeofs, hexts] at hn
        exact planMembers_classMembers_protoIdent hnamed S n hn
      · -- a class of a oneof
        refine javaName_of_protoIdent ?_ (hnested n (List.mem_append_right _ hn)).1
        rw [honeofs] at hn
        exact planMembers_oneofClasses_protoIdent hnamed S n hn
    · -- the identifier of a field
      obtain ⟨mp, hmp, rfl⟩ := List.mem_map.1 hn
      rw [hfields] at hmp
      obtain ⟨hident, hres⟩ :=
        planMembers_fields_ident hnamed S (hS ▸ reserving_reservedWith objectMethods) mp hmp
      exact javaName_of_protoIdent hident hres
  · rw [honeofs] at ho
    exact planMembers_caseNames_protoIdent hnamed S (hA.indexed m hmem) o ho op hop n hn

end OneFile

/-- No converter class of a request is reserved: they are claimed in one registry seeded with
the reserved names. -/
theorem allocate_converterClass_not_reserved (cfg : Config) (g : Graph) (genFiles : List Nat) :
    ∀ p ∈ (allocate cfg g genFiles).files, isReserved p.converterClass = false := by
  obtain ⟨ns, hgrow, hsub⟩ := foldl_allocStep_claims cfg g SharedNames.converters
    FilePlan.converterClass
    (fun u s => ⟨_, planFile_converterClass cfg u s, planFile_converters cfg u s⟩)
    (allocOrder g genFiles) (Array.replicate g.files.length none, {}) []
    (Registry.Grows.refl _) (by simp)
  intro p hp
  rw [allocate_eq] at hp
  have hfree : p.converterClass ∉ Registry.withReserved.taken :=
    hgrow.fresh _ (hsub.subset (List.mem_map_of_mem hp))
  rw [mem_withReserved_taken] at hfree
  simpa using hfree

/-- The names `allocate` derives from a schema named by protobuf identifiers are names Java
accepts. In every file no converter, wrapper or extensions class is reserved; the converter
methods and the constants of the file's extensions are Java identifiers, none reserved, and so
are the class and constants of each enum. The class of each message is a Java identifier, not
reserved unless the message is a map entry; the members of its class, the classes of its
oneofs, the identifiers of its fields and the case constants of its oneofs are Java identifiers,
none reserved. -/
theorem allocate_java_names {raws : List FileProto} {g : Graph} (hg : Graph.build raws = .ok g)
    (hnamed : g.ProtoNamed) (cfg : Config) (genFiles : List Nat) :
    ∀ f < g.files.length,
      (∀ n ∈ ((allocate cfg g genFiles).file f).converterClass ::
          (((allocate cfg g genFiles).file f).wrapperClass.toList ++
            ((allocate cfg g genFiles).file f).extensionsClass.toList), isReserved n = false) ∧
      (∀ n ∈ (allocate cfg g genFiles).converterMethods f ++
          ((allocate cfg g genFiles).file f).extensions.flatMap ExtensionPlan.names, JavaName n) ∧
      (∀ e < (g.file f).enums.length,
        JavaName ((allocate cfg g genFiles).enumPlan ⟨f, e⟩).className ∧
        ∀ n ∈ ((allocate cfg g genFiles).enumPlan ⟨f, e⟩).constants, JavaName n) ∧
      ∀ i < (g.file f).messages.length,
        Java.isIdentifier ((allocate cfg g genFiles).message ⟨f, i⟩).className = true ∧
        ((g.message ⟨f, i⟩).mapEntry = false →
          isReserved ((allocate cfg g genFiles).message ⟨f, i⟩).className = false) ∧
        (∀ n ∈ (allocate cfg g genFiles).memberNames g ⟨f, i⟩ ++
            oneofClasses ((allocate cfg g genFiles).message ⟨f, i⟩).oneofs ++
            ((allocate cfg g genFiles).message ⟨f, i⟩).fields.map (·.field), JavaName n) ∧
        ∀ o ∈ ((allocate cfg g genFiles).message ⟨f, i⟩).oneofs, ∀ op ∈ o,
          ∀ n ∈ op.caseNames, JavaName n := by
  intro f hf
  have hid : ∀ i < g.files.length, (g.file i).id = i := fun i hi => (Graph.build_linked hg i hi).2
  obtain ⟨raw, hA, -⟩ := Graph.build_file_arena hg hf
  have hu := hnamed.file hf
  obtain ⟨s, hp⟩ := allocate_file cfg hid genFiles hf
  -- the converter class is claimed across the request, the others within the file
  have hconv : isReserved ((allocate cfg g genFiles).file f).converterClass = false := by
    obtain ⟨s', hs'⟩ := getElem?_allocate_files cfg hid genFiles hf
    refine allocate_converterClass_not_reserved cfg g genFiles _ ?_
    rw [Allocation.file, hs', Option.getD_some]
    exact List.mem_of_getElem? hs'
  have htop := (topLevelClasses_of_planFile hA.linked hp).2
  refine ⟨List.forall_mem_cons.2 ⟨hconv, fun n hn => htop n ?_⟩, fun n hn => ?_,
    fun e he => ⟨enumClass_javaName_of_planFile hA hu hp he, fun n hn =>
      javaName_of_protoIdent (enumConstants_protoIdent_of_planFile hu hp he n hn) ?_⟩,
    fun i hi => ⟨isIdentifier_of_isProtoIdent (className_protoIdent_of_planFile hA hu hp hi),
      className_not_reserved_of_planFile hA hp hi, members_javaName_of_planFile hA hu hp hi⟩⟩
  · rcases List.mem_append.1 hn with hn | hn
    · exact List.mem_append_right _ hn
    · exact List.mem_append_left _ (List.mem_append_right _ hn)
  · rcases List.mem_append.1 hn with hn | hn
    · exact javaName_of_protoIdent (converterMethods_protoIdent_of_planFile hA hu hp n hn)
        ((converterMethods_of_planFile hp).2 n hn).2
    · exact extensions_javaName_of_planFile hu hp n hn
  · -- an enum constant
    have hmem : (allocate cfg g genFiles).enumPlan ⟨f, e⟩ ∈ ((allocate cfg g genFiles).file f).enums := by
      rw [Allocation.enumPlan, hp, List.getElem?_eq_getElem (by rwa [length_planFile_enums]),
        Option.getD_some]
      exact List.getElem_mem _
    exact ((enumConstants_of_planFile hp _ hmem).2 n hn).2

theorem allocate_java_names_of_oneofFile :
    ∃ g, Graph.build [oneofFile] = .ok g ∧ g.ProtoNamed ∧
      ∀ f < g.files.length,
        (∀ n ∈ ((allocate perTypeConfig g [0]).file f).converterClass ::
            (((allocate perTypeConfig g [0]).file f).wrapperClass.toList ++
              ((allocate perTypeConfig g [0]).file f).extensionsClass.toList),
            isReserved n = false) ∧
        (∀ n ∈ (allocate perTypeConfig g [0]).converterMethods f ++
            ((allocate perTypeConfig g [0]).file f).extensions.flatMap ExtensionPlan.names,
            JavaName n) ∧
        (∀ e < (g.file f).enums.length,
          JavaName ((allocate perTypeConfig g [0]).enumPlan ⟨f, e⟩).className ∧
          ∀ n ∈ ((allocate perTypeConfig g [0]).enumPlan ⟨f, e⟩).constants, JavaName n) ∧
        ∀ i < (g.file f).messages.length,
          Java.isIdentifier ((allocate perTypeConfig g [0]).message ⟨f, i⟩).className = true ∧
          ((g.message ⟨f, i⟩).mapEntry = false →
            isReserved ((allocate perTypeConfig g [0]).message ⟨f, i⟩).className = false) ∧
          (∀ n ∈ (allocate perTypeConfig g [0]).memberNames g ⟨f, i⟩ ++
              oneofClasses ((allocate perTypeConfig g [0]).message ⟨f, i⟩).oneofs ++
              ((allocate perTypeConfig g [0]).message ⟨f, i⟩).fields.map (·.field), JavaName n) ∧
          ∀ o ∈ ((allocate perTypeConfig g [0]).message ⟨f, i⟩).oneofs, ∀ op ∈ o,
            ∀ n ∈ op.caseNames, JavaName n := by
  have hnamed : (Graph.build [oneofFile]).toOption.map (fun g => decide g.ProtoNamed) =
      some true := by
    with_unfolding_all decide
  cases hb : Graph.build [oneofFile] with
  | error e =>
    rw [hb] at hnamed
    cases hnamed
  | ok g =>
    rw [hb] at hnamed
    have hg : g.ProtoNamed := of_decide_eq_true (Option.some_injective _ hnamed)
    exact ⟨g, rfl, hg, allocate_java_names hb hg perTypeConfig [0]⟩

/-- The file `a.proto` of package `pb2`, with a message `A`. -/
def pb2File : FileProto :=
  { name := some "a.proto", package := some "pb2", messageType := [{ name := some "A" }] }

/-- The converter class of a file is no Java identifier when its package, stripped of a leading
`pb`, starts with a digit, though every declaration of the file is named by a protobuf
identifier. -/
theorem allocate_pb2_converter :
    ∃ g, Graph.build [pb2File] = .ok g ∧ g.ProtoNamed ∧
      ((allocate perTypeConfig g [0]).file 0).converterClass = "2Converter" ∧
      Java.isIdentifier "2Converter" = false := by
  have hrun : (Graph.build [pb2File]).toOption.map
      (fun g => (decide g.ProtoNamed, ((allocate perTypeConfig g [0]).file 0).converterClass)) =
      some (true, "2Converter") := by
    with_unfolding_all decide
  cases hb : Graph.build [pb2File] with
  | error e =>
    rw [hb] at hrun
    cases hrun
  | ok g =>
    rw [hb] at hrun
    obtain ⟨hnamed, hconv⟩ := Prod.mk.inj (Option.some_injective _ hrun)
    exact ⟨g, rfl, of_decide_eq_true hnamed, hconv, by decide⟩

end BeanCodegen.Plan
