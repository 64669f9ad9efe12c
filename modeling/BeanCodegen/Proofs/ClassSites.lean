import Mathlib
import BeanCodegen.Proofs.BeanLayout
import BeanCodegen.Proofs.FileHeaders
import BeanCodegen.Proofs.SourcePaths
import BeanCodegen.Proofs.PlanIndependence
import BeanCodegen.Proofs.PackageNames
/-! # Where the class of each type is declared

The allocator names the class of a message or an enum by walking up from the type to the top of
its file: the classes of its ancestor messages, behind the wrapper class in the per-file layout.
The value-class generator declares the class by walking down from the file's top-level types.
This module shows that the two agree.

Every declaration a value-class file makes whose header is annotated with a descriptor path
stands where the allocator names the type at that path (`Source.Placed`): the walk down puts a
nested class inside its parent's class, which is what the walk up adds. Conversely every message
other than a map entry, and every enum, is declared, once map entries nest no types. Descriptor
paths tell the types of a built file apart, so a type is declared at exactly one place.

The nested class names a file registers are the simple names of the classes it declares inside
another, when every oneof with variant classes is written at a member classified as its variant;
the one class it declares at its top is the first name it declares.
-/

namespace BeanCodegen.Plan

open BeanCodegen.Schema BeanCodegen.Naming

theorem Allocation.enclosingFrom_none (a : Allocation) (g : Graph) (f : Nat) :
    ∀ fuel, a.enclosingFrom g f fuel none = []
  | 0 => rfl
  | _ + 1 => rfl

/-- The classes around a nested type are those around its parent message, then the parent's
own class. -/
theorem Allocation.enclosing_some (a : Allocation) {g : Graph} {f : Nat} (hL : (g.file f).Linked)
    {p : Nat} (hp : p < (g.file f).messages.length) :
    a.enclosing g f (some p) =
      a.enclosing g f (g.message ⟨f, p⟩).parent ++ [(a.message ⟨f, p⟩).className] := by
  rw [Allocation.enclosing, Allocation.enclosing, a.enclosingFrom_some hL hp, List.append_assoc]

/-- A file planned under a configuration whose value-class package is a Java package has a
Java package for its value classes. -/
theorem isJavaPackage_planFile_voPackage {cfg : Config} (hvo : isJavaPackage cfg.voPackage = true)
    (u : File) (sn : SharedNames) : isJavaPackage ((planFile cfg u).run sn).1.voPackage = true := by
  rw [planFile_voPackage, Registry.claim_fst]
  exact (fresh_package (voPackageBase_valid hvo u).1 sn.packages).1

/-- The plan a file gets holds, for each message, the member plan made for it. -/
theorem planFile_messagePlan (cfg : Config) (u : File) (sn : SharedNames) {i : Nat} {m : Message}
    (hm : u.messages[i]? = some m) :
    ∃ S, ((((planFile cfg u).run sn).1.messages[i]?).getD default).fields =
        ((planMembers m).run S).1.1 ∧
      ((((planFile cfg u).run sn).1.messages[i]?).getD default).oneofs =
        ((planMembers m).run S).1.2.1 := by
  obtain ⟨p, hplans, -, hone, hfields⟩ := walk_plan (w := startWalk cfg u) rfl hm
  rw [planFile_messages, hplans, Option.getD_some]
  exact ⟨_, hfields, hone⟩

end BeanCodegen.Plan

namespace BeanCodegen.Schema

open BeanCodegen.Descriptor

/-- Descriptor paths tell the messages and enums of a file apart: no two messages and no two
enums share a path, no message shares one with an enum, and none has the empty path, which is
the file's own. -/
structure File.TypePathsApart (u : File) : Prop where
  messages_nodup : (u.messages.map (·.path)).Nodup
  enums_nodup : (u.enums.map (·.path)).Nodup
  message_ne_enum : ∀ m ∈ u.messages, ∀ e ∈ u.enums, m.path ≠ e.path
  message_ne_nil : ∀ m ∈ u.messages, m.path ≠ []
  enum_ne_nil : ∀ e ∈ u.enums, e.path ≠ []

/-- A node that sits at the path of its declaration is not the file at the empty path. -/
theorem Node.Located.path_ne_nil {raw : FileProto} {n : Node} (h : n.Located raw) :
    n.path ≠ [] := by
  obtain ⟨d, hd, hw⟩ := h
  intro hnil
  rw [hnil] at hd
  obtain rfl : Descriptor.Decl.file raw = d := Option.some.inj hd
  cases n <;> exact hw

/-- The messages and enums of every file of a built graph are told apart by their paths. -/
theorem Graph.build_typePathsApart {raws : List FileProto} {g : Graph}
    (h : Graph.build raws = .ok g) {f : Nat} (hf : f < g.files.length) :
    (g.file f).TypePathsApart := by
  obtain ⟨hlen, hwrapped⟩ := Graph.build_wrapped h
  obtain ⟨raw, hraw⟩ : ∃ raw, raws[f]? = some raw := ⟨_, List.getElem?_eq_getElem (hlen ▸ hf)⟩
  have hu : g.files[f]? = some (g.file f) := by simp [Graph.file, List.getElem?_eq_getElem hf]
  obtain ⟨w, rs, hw, hweq⟩ := hwrapped f raw _ hraw hu
  obtain ⟨w', hw', hm, he, hx, -⟩ := File.wrap_parts f raw
  rw [hw, Except.ok.injEq] at hw'
  subst hw'
  -- the messages and enums come first among the nodes of the wrapped file
  have hnodes := (File.nodes_paths_nodup hm he hx).sublist
    (((List.sublist_append_left _ _).trans ((List.sublist_append_left _ _).trans
      (List.sublist_append_left _ _))).map Node.path)
  rw [List.map_append, List.map_map, List.map_map, List.nodup_append] at hnodes
  obtain ⟨hmsgs, henums, happart⟩ := hnodes
  rw [hweq]
  refine ⟨hmsgs, henums, fun m hmem e hen => ?_, fun m hmem => ?_, fun e hen => ?_⟩
  · exact happart _ (List.mem_map_of_mem (f := Node.path ∘ Node.message) hmem) _
      (List.mem_map_of_mem (f := Node.path ∘ Node.enum) hen)
  · exact (arenaMessages_located (hm ▸ hmem)).path_ne_nil
  · exact (arenaEnums_located (he ▸ hen)).path_ne_nil

end BeanCodegen.Schema

namespace BeanCodegen.Emit

open BeanCodegen.Java BeanCodegen.Schema BeanCodegen.Plan BeanCodegen.Shape

/-- A finished file of a Java package declares that package on its first line. -/
theorem Draft.finish_packageLine (d : Draft) {pkg : String} (hpkg : Naming.isJavaPackage pkg = true)
    (cls : String) (u : File) :
    declaredPackage ((Text.lines (d.finish pkg cls u).content).headD "") = some pkg := by
  have hne : pkg ≠ "" := by
    rintro rfl
    exact absurd hpkg (by decide)
  have hnl : '\n' ∉ pkg.toList := Naming.not_mem_of_isJavaPackage hpkg (by decide) (by decide)
  obtain ⟨rest, hlines⟩ := lines_prologue hne hnl u.name u.deprecated d.imports.lines d.text.text
  show declaredPackage ((Text.lines (prologue pkg u.name u.deprecated d.imports.lines ++
    d.text.text)).headD "") = some pkg
  rw [hlines, List.headD_cons, declaredPackage_packageLine hpkg]

/-- The simple names of the declared classes nested in another declared class. -/
def nestedDeclNames (xs : List Decl) : List String :=
  declNames (xs.filter fun d => 1 < d.1.length)

/-- Classes declared inside one named class are nested; that class is not. -/
theorem nestedDeclNames_cons_within {w : String} {a : Option (List Nat)} {ys : List Decl}
    (h : ∀ y ∈ ys, y.1 ≠ []) :
    nestedDeclNames (([w], a) :: ys.map (Decl.within w)) = declNames ys := by
  have hnested : (ys.map (Decl.within w)).filter (fun d => 1 < d.1.length) =
      ys.map (Decl.within w) := by
    refine List.filter_eq_self.2 fun d hd => ?_
    obtain ⟨y, hy, rfl⟩ := List.mem_map.1 hd
    simp [Decl.within, List.length_pos_iff, h y hy]
  rw [nestedDeclNames, List.filter_cons_of_neg (by simp), hnested, declNames_map_within w h]

theorem nestedDeclNames_single (n : String) (a : Option (List Nat)) :
    nestedDeclNames [([n], a)] = [] := rfl

theorem declNames_holder (holder : Option String) :
    declNames (holder.toList.map fun h => ([h], none)) = holder.toList := by
  cases holder <;> rfl

/-- Entries of a list whose images are distinct are told apart by their images. -/
theorem getD_inj_of_nodup_map {α β : Type} [Inhabited α] {l : List α} {f : α → β}
    (hnd : (l.map f).Nodup) {i j : Nat} (hi : i < l.length) (hj : j < l.length)
    (h : f (l[i]?.getD default) = f (l[j]?.getD default)) : i = j := by
  have hi' : i < (l.map f).length := by simpa using hi
  have hj' : j < (l.map f).length := by simpa using hj
  have hmap : (l.map f)[i] = (l.map f)[j] := by
    simpa [List.getElem?_eq_getElem hi, List.getElem?_eq_getElem hj] using h
  exact hnd.getElem_inj_iff.1 hmap

namespace Source

variable (c : Source)

/-- A declaration stands where the allocator names what its header is annotated with: the
wrapper class, annotated with the empty path, at the top; the class of a message or an enum of
the file, annotated with the type's path, at the type's value class. A declaration without a
path (a oneof's types, the extension holder) is not constrained. -/
def Placed (d : Decl) : Prop :=
  ∀ p, d.2 = some p →
    (p = [] ∧ d.1 = c.plan.wrapperClass.toList) ∨
    (∃ j < c.unit.messages.length, p = (c.message j).path ∧
      d.1 = (c.session.alloc.messageClass c.session.graph ⟨c.file, j⟩).path) ∨
    ∃ e < c.unit.enums.length, p = (c.enumType e).path ∧
      d.1 = (c.session.alloc.enumClass c.session.graph ⟨c.file, e⟩).path

/-- The classes around a type, as the allocator names them. -/
abbrev around (parent : Option Nat) : List String :=
  c.session.alloc.enclosing c.session.graph c.file parent

theorem placed_of_none {d : Decl} (h : d.2 = none) : c.Placed d := by
  intro p hp
  rw [h] at hp
  cases hp

theorem snd_of_mem_openedDecls {oneofs : List (Option OneofPlan)} {f : Classified} {x : Decl}
    (hx : x ∈ openedDecls oneofs f) : x.2 = none := by
  unfold openedDecls at hx
  split at hx
  · split at hx
    · simp only [oneofDecls, List.mem_cons, List.mem_map] at hx
      rcases hx with rfl | rfl | ⟨v, -, rfl⟩ <;> rfl
    · simp at hx
  · simp at hx

/-- The classes around a top-level type: the wrapper class, if there is one. -/
theorem around_none : c.around none = c.plan.wrapperClass.toList := by
  rw [around, Allocation.enclosing, Allocation.enclosingFrom_none, List.append_nil]
  rfl

theorem of_mem_topMessages {t : Nat} (ht : t ∈ c.topMessages) :
    t < c.unit.messages.length ∧ (c.message t).parent = none ∧ (c.message t).mapEntry = false := by
  simp only [topMessages, File.topLevelMessages, List.mem_map, List.mem_filter, Prod.exists,
    List.mem_zipIdx_iff_getElem?] at ht
  obtain ⟨a, m, ⟨⟨m', j, ⟨hj, htop⟩, hpair⟩, hentry⟩, rfl⟩ := ht
  obtain ⟨hja, hm⟩ := Prod.mk.inj hpair
  subst hja hm
  have hmsg : c.message j = m' := by simp [Source.message, hj]
  refine ⟨(List.getElem?_eq_some_iff.1 hj).1, ?_, ?_⟩
  · simpa [hmsg, Message.isTopLevel] using htop
  · simpa [hmsg] using hentry

theorem of_mem_topEnums {e : Nat} (he : e ∈ c.topEnums) :
    e < c.unit.enums.length ∧ (c.enumType e).parent = none := by
  simp only [topEnums, File.topLevelEnums, List.mem_map, List.mem_filter, Prod.exists,
    List.mem_zipIdx_iff_getElem?] at he
  obtain ⟨a, en, ⟨en', j, ⟨hj, htop⟩, hpair⟩, rfl⟩ := he
  obtain ⟨hja, hen⟩ := Prod.mk.inj hpair
  subst hja hen
  have henum : c.enumType j = en' := by simp [Source.enumType, hj]
  exact ⟨(List.getElem?_eq_some_iff.1 hj).1, by simpa [henum] using htop⟩

/-- A top-level enum's class is declared behind the wrapper class, if there is one. -/
theorem placed_topEnum {e : Nat} (he : e ∈ c.topEnums) :
    c.Placed (c.plan.wrapperClass.toList ++ (c.enumDecl e).1, (c.enumDecl e).2) := by
  obtain ⟨helt, htop⟩ := c.of_mem_topEnums he
  rintro p ⟨⟩
  refine Or.inr (Or.inr ⟨e, helt, rfl, ?_⟩)
  show _ = c.around (c.enumType e).parent ++ _
  rw [htop, around_none]
  rfl

/-- The value-class files of a file: with a wrapper class, the wrapper's file alone; without
one, a file for each top-level message and enum and one for the extension holder. -/
theorem mem_beanLayout {z : String × List Decl × List String} (hz : z ∈ c.beanLayout) :
    (∃ wrapper, c.plan.wrapperClass = some wrapper ∧
      z = (wrapper, ([wrapper], some []) :: (c.topMessages.flatMap (c.messageDecls c.depth) ++
          c.topEnums.map c.enumDecl ++
          c.plan.extensionsClass.toList.map (fun h => ([h], none))).map (Decl.within wrapper),
        c.topMessages.flatMap (fun i => c.messageNames c.depth i true) ++
          c.topEnums.map (fun e => (c.enumPlan e).className) ++ c.plan.extensionsClass.toList)) ∨
    c.plan.wrapperClass = none ∧
      ((∃ t ∈ c.topMessages, z = ((c.messagePlan t).className, c.messageDecls c.depth t,
          c.messageNames c.depth t false)) ∨
        (∃ e ∈ c.topEnums, z = ((c.enumPlan e).className, [c.enumDecl e], [])) ∨
        ∃ h ∈ c.plan.extensionsClass.toList, z = (h, [([h], none)], [])) := by
  unfold beanLayout at hz
  cases hw : c.plan.wrapperClass with
  | some wrapper =>
    rw [hw] at hz
    dsimp only at hz
    split at hz
    · exact absurd hz List.not_mem_nil
    · exact Or.inl ⟨wrapper, rfl, List.mem_singleton.1 hz⟩
  | none =>
    rw [hw] at hz
    dsimp only at hz
    simp only [List.mem_append, List.mem_map] at hz
    refine Or.inr ⟨rfl, ?_⟩
    rcases hz with (⟨t, ht, rfl⟩ | ⟨e, he, rfl⟩) | ⟨h, hh, rfl⟩
    · exact Or.inl ⟨t, ht, rfl⟩
    · exact Or.inr (Or.inl ⟨e, he, rfl⟩)
    · exact Or.inr (Or.inr ⟨h, hh, rfl⟩)

/-- Every class of a value-class file is the file's own class or nested in it. -/
theorem head_of_mem_beanLayout : ∀ z ∈ c.beanLayout, ∀ d ∈ z.2.1, d.1.head? = some z.1 := by
  intro z hz d hd
  rcases c.mem_beanLayout hz with ⟨wrapper, -, rfl⟩ | ⟨-, ⟨t, -, rfl⟩ | ⟨e, -, rfl⟩ | ⟨h, -, rfl⟩⟩
  · -- the wrapper class, and every other class within it
    rcases List.mem_cons.1 hd with rfl | hd
    · rfl
    · obtain ⟨y, -, rfl⟩ := List.mem_map.1 hd
      rfl
  · exact c.head_of_mem_messageDecls hd
  · obtain rfl := List.mem_singleton.1 hd
    rfl
  · obtain rfl := List.mem_singleton.1 hd
    rfl

theorem declNames_enumDecls (es : List Nat) :
    declNames (es.map c.enumDecl) = es.map fun e => (c.enumPlan e).className := by
  simp [declNames, enumDecl, Function.comp_def]

/-- The nested class names each value-class file registers are the simple names of the classes
it declares inside another, when every oneof plan is opened by a field and every message with a
file of its own classifies. -/
theorem registers_beanLayout (hopen : ∀ j, c.OneofsOpen j)
    (hclass : ∀ t ∈ c.topMessages, c.ClassifiesBelow c.depth t) :
    ∀ z ∈ c.beanLayout, ∀ n, n ∈ z.2.2 ↔ n ∈ nestedDeclNames z.2.1 := by
  intro z hz n
  rcases c.mem_beanLayout hz with ⟨wrapper, -, rfl⟩ | ⟨-, ⟨t, ht, rfl⟩ | ⟨e, -, rfl⟩ | ⟨h, -, rfl⟩⟩
  · -- everything but the wrapper is nested in it, and registered as such
    have hnames : ∀ y ∈ c.topMessages.flatMap (c.messageDecls c.depth) ++
        c.topEnums.map c.enumDecl ++ c.plan.extensionsClass.toList.map (fun h => ([h], none)),
        y.1 ≠ [] := by
      intro y hy
      simp only [List.mem_append, List.mem_flatMap, List.mem_map] at hy
      rcases hy with (⟨t, -, hy⟩ | ⟨e, -, rfl⟩) | ⟨h, -, rfl⟩
      · exact c.ne_nil_of_mem_messageDecls hy
      · simp [enumDecl]
      · simp
    have hmessages : n ∈ c.topMessages.flatMap (fun i => c.messageNames c.depth i true) ↔
        n ∈ declNames (c.topMessages.flatMap (c.messageDecls c.depth)) := by
      rw [List.mem_flatMap, mem_declNames_flatMap]
      exact exists_congr fun t => and_congr_right fun ht =>
        c.mem_messageNames_iff hopen _ t (hclass t ht) n
    dsimp only
    rw [nestedDeclNames_cons_within hnames, declNames_append, declNames_append,
      c.declNames_enumDecls, declNames_holder]
    simp only [List.mem_append, hmessages]
  · -- a top-level message's file nests what its class declares
    dsimp only
    rw [depth, messageDecls_succ, nestedDeclNames_cons_within fun _ => c.ne_nil_of_mem_innerDecls]
    exact c.mem_messageNames_false_iff hopen (c.mem_messageNames_iff hopen _) (hclass t ht) n
  · -- the files of a top-level enum and of the extension holder nest nothing
    simp [enumDecl, nestedDeclNames_single]
  · simp [nestedDeclNames_single]

/-- Each value-class file declares the class it is named after. -/
theorem own_mem_beanLayout : ∀ z ∈ c.beanLayout, ∃ a, ([z.1], a) ∈ z.2.1 := by
  intro z hz
  rcases c.mem_beanLayout hz with ⟨wrapper, -, rfl⟩ | ⟨-, ⟨t, -, rfl⟩ | ⟨e, -, rfl⟩ | ⟨h, -, rfl⟩⟩
  · exact ⟨_, List.mem_cons_self⟩
  · exact ⟨_, List.mem_cons_self⟩
  · exact ⟨_, List.mem_singleton_self _⟩
  · exact ⟨_, List.mem_singleton_self _⟩

section Linked

variable {c} (hL : c.unit.Linked)
include hL

/-- A nested message of a message of the file is a message of the file with that parent. -/
theorem nested_spec {i n : Nat} (hi : i < c.unit.messages.length) (hn : n ∈ (c.message i).nested) :
    n < c.unit.messages.length ∧ (c.message n).parent = some i := by
  obtain ⟨mn, hmn, hparent⟩ := hL.parent_of_mem_nested (c.getElem?_message hi) hn
  have hlt : n < c.unit.messages.length := (List.getElem?_eq_some_iff.1 hmn).1
  have hmsg : c.message n = mn := by simp [Source.message, hmn]
  exact ⟨hlt, hmsg ▸ hparent⟩

/-- An enum of a message of the file is an enum of the file with that parent. -/
theorem enum_spec {i e : Nat} (hi : i < c.unit.messages.length) (he : e ∈ (c.message i).enums) :
    e < c.unit.enums.length ∧ (c.enumType e).parent = some i := by
  obtain ⟨en, hen, hparent⟩ := hL.parent_of_mem_enums (c.getElem?_message hi) he
  have hlt : e < c.unit.enums.length := (List.getElem?_eq_some_iff.1 hen).1
  refine ⟨hlt, ?_⟩
  simp only [Source.enumType, hen, Option.getD_some, hparent]

/-- What a message's class declares stands where the allocator names it, once the classes
around the message are put in front. -/
theorem placed_of_mem_messageDecls : ∀ fuel i, i < c.unit.messages.length →
    ∀ x ∈ c.messageDecls fuel i, c.Placed (c.around (c.message i).parent ++ x.1, x.2)
  | 0, _, _, x, hx => by simp [messageDecls] at hx
  | fuel + 1, i, hi, x, hx => by
    have haround :
        c.around (some i) = c.around (c.message i).parent ++ [(c.messagePlan i).className] :=
      c.session.alloc.enclosing_some hL hi
    rw [messageDecls_succ, List.mem_cons, List.mem_map] at hx
    rcases hx with rfl | ⟨y, hy, rfl⟩
    · -- the message's own class
      rintro p ⟨⟩
      exact Or.inr (Or.inl ⟨i, hi, rfl, rfl⟩)
    simp only [innerDecls, List.mem_append, List.mem_flatMap, List.mem_map] at hy
    rcases hy with (⟨z, -, hz⟩ | ⟨e, he, rfl⟩) | ⟨n, hn, hy⟩
    · -- the types of a oneof carry no path
      exact c.placed_of_none (snd_of_mem_openedDecls (x := y) hz)
    · -- an enum of the message, declared in its class
      obtain ⟨helt, hparent⟩ := enum_spec hL hi he
      rintro p ⟨⟩
      refine Or.inr (Or.inr ⟨e, helt, rfl, ?_⟩)
      show c.around (c.message i).parent ++
          [(c.messagePlan i).className, (c.enumPlan e).className] =
        c.around (c.enumType e).parent ++ [(c.enumPlan e).className]
      rw [hparent, haround, List.append_assoc]
      rfl
    · -- a nested message, whose declarations stand behind its parent's class
      split at hy
      · obtain ⟨hnlt, hparent⟩ := nested_spec hL hi hn
        have h := placed_of_mem_messageDecls fuel n hnlt y hy
        rw [hparent, haround, List.append_assoc] at h
        exact h
      · simp at hy

/-- What a top-level message's class declares stands behind the wrapper class, if there is
one. -/
theorem placed_topMessage {t : Nat} (ht : t ∈ c.topMessages) {fuel : Nat} {y : Decl}
    (hy : y ∈ c.messageDecls fuel t) : c.Placed (c.plan.wrapperClass.toList ++ y.1, y.2) := by
  obtain ⟨htlt, htop, -⟩ := c.of_mem_topMessages ht
  have h := placed_of_mem_messageDecls hL fuel t htlt y hy
  rwa [htop, around_none] at h

/-- Every declaration of the value-class files of a linked file stands where the allocator names
what it is annotated with. -/
theorem placed_of_mem_beanLayout : ∀ z ∈ c.beanLayout, ∀ d ∈ z.2.1, c.Placed d := by
  intro z hz d hd
  rcases c.mem_beanLayout hz with
    ⟨wrapper, hw, rfl⟩ | ⟨hw, ⟨t, ht, rfl⟩ | ⟨e, he, rfl⟩ | ⟨h, -, rfl⟩⟩
  · -- everything is declared in the wrapper class
    rcases List.mem_cons.1 hd with rfl | hd
    · rintro p ⟨⟩
      exact Or.inl ⟨rfl, by rw [hw]; rfl⟩
    obtain ⟨y, hy, rfl⟩ := List.mem_map.1 hd
    simp only [List.mem_append, List.mem_flatMap, List.mem_map] at hy
    rcases hy with (⟨t, ht, hy⟩ | ⟨e, he, rfl⟩) | ⟨h, -, rfl⟩
    · have h := placed_topMessage hL ht hy
      rwa [hw] at h
    · have h := c.placed_topEnum he
      rwa [hw] at h
    · exact c.placed_of_none rfl
  · -- without a wrapper, a file for each top-level message and enum and for the holder
    have h := placed_topMessage hL ht hd
    rwa [hw, Option.toList_none, List.nil_append] at h
  · obtain rfl := List.mem_singleton.1 hd
    have h := c.placed_topEnum he
    rwa [hw, Option.toList_none, List.nil_append] at h
  · obtain rfl := List.mem_singleton.1 hd
    exact c.placed_of_none rfl

end Linked

section Declared

variable {c} (hL : c.unit.Linked)
  (hmapEntry : ∀ m ∈ c.unit.messages, m.mapEntry = true → m.nested = [] ∧ m.enums = [])
include hL hmapEntry

/-- A class declared inside the class of a message other than a map entry is declared in a
value-class file, behind the classes the allocator puts around the message. -/
theorem mem_beanLayout_of_mem_messageDecls {j : Nat} (hj : j < c.unit.messages.length)
    (hmap : (c.message j).mapEntry = false) {fuel : Nat} {x : Decl}
    (hx : x ∈ c.messageDecls fuel j) (hfuel : fuel + j ≤ c.depth) :
    ∃ z ∈ c.beanLayout, (c.around (c.message j).parent ++ x.1, x.2) ∈ z.2.1 := by
  obtain ⟨t, ht, hemb⟩ := messageDecls_within_top hL hmapEntry j hj hmap
  have hmem := c.messageDecls_mono t hfuel (hemb fuel x hx)
  have haround : c.around (c.message j).parent ++ x.1 = c.plan.wrapperClass.toList ++
      (c.session.alloc.enclosingFrom c.session.graph c.file (c.unit.messages.length + 1)
        (c.message j).parent ++ x.1) := by
    rw [around, Allocation.enclosing, List.append_assoc]
    rfl
  rw [haround]
  unfold beanLayout
  cases hw : c.plan.wrapperClass with
  | some wrapper =>
    -- the wrapper's file, which exists since it holds the top-level message `t`
    have hne :
        ¬(c.topMessages.isEmpty && c.topEnums.isEmpty && c.unit.extensions.isEmpty) = true := by
      simp [List.ne_nil_of_mem ht]
    dsimp only
    rw [if_neg hne]
    refine ⟨_, List.mem_singleton_self _, List.mem_cons_of_mem _ (List.mem_map.2
      ⟨(c.session.alloc.enclosingFrom c.session.graph c.file (c.unit.messages.length + 1)
        (c.message j).parent ++ x.1, x.2), ?_, rfl⟩)⟩
    simp only [List.mem_append, List.mem_flatMap]
    exact Or.inl (Or.inl ⟨t, ht, hmem⟩)
  | none =>
    -- the file of the top-level message `t`
    dsimp only
    refine ⟨_, List.mem_append_left _ (List.mem_append_left _ (List.mem_map_of_mem ht)), ?_⟩
    exact hmem

/-- Every message other than a map entry is declared in a value-class file, at its value class. -/
theorem message_declared {j : Nat} (hj : j < c.unit.messages.length)
    (hmap : (c.message j).mapEntry = false) :
    ∃ z ∈ c.beanLayout,
      ((c.session.alloc.messageClass c.session.graph ⟨c.file, j⟩).path, some (c.message j).path) ∈
        z.2.1 :=
  mem_beanLayout_of_mem_messageDecls hL hmapEntry hj hmap
    (show _ ∈ c.messageDecls 1 j from List.mem_cons_self)
    (by simp only [depth]; omega)

/-- Every enum is declared in a value-class file, at its value class: at the top or behind the
wrapper class, or in the class of its parent message. -/
theorem enum_declared {e : Nat} (he : e < c.unit.enums.length)
    (hparent : ∀ p, (c.enumType e).parent = some p → p < c.unit.messages.length) :
    ∃ z ∈ c.beanLayout,
      ((c.session.alloc.enumClass c.session.graph ⟨c.file, e⟩).path, some (c.enumType e).path) ∈
        z.2.1 := by
  cases hp : (c.enumType e).parent with
  | none =>
    -- a top-level enum: a file of its own, or a class nested in the wrapper
    have htop := c.mem_topEnums he hp
    have hcls : (c.session.alloc.enumClass c.session.graph ⟨c.file, e⟩).path =
        c.plan.wrapperClass.toList ++ [(c.enumPlan e).className] := by
      show c.around (c.enumType e).parent ++ _ = _
      rw [hp, around_none]
      rfl
    rw [hcls]
    unfold beanLayout
    cases hw : c.plan.wrapperClass with
    | some wrapper =>
      have hne : ¬(c.topMessages.isEmpty && c.topEnums.isEmpty && c.unit.extensions.isEmpty) =
          true := by
        simp [List.ne_nil_of_mem htop]
      dsimp only
      rw [if_neg hne]
      refine ⟨_, List.mem_singleton_self _, List.mem_cons_of_mem _ (List.mem_map.2
        ⟨c.enumDecl e, ?_, rfl⟩)⟩
      simp only [List.mem_append, List.mem_map]
      exact Or.inl (Or.inr ⟨e, htop, rfl⟩)
    | none =>
      dsimp only
      exact ⟨_, List.mem_append_left _ (List.mem_append_right _ (List.mem_map_of_mem htop)),
        List.mem_singleton_self _⟩
  | some p =>
    -- an enum of message `p`, declared in the class of `p`
    have hplt := hparent p hp
    have hmem : e ∈ (c.message p).enums := by
      refine (hL.enums_iff p (c.message p) (c.getElem?_message hplt) e).2 ?_
      simpa [Source.enumType, List.getElem?_eq_getElem he] using hp
    have hmap := not_mapEntry_of_nests hmapEntry hplt (Or.inr (List.ne_nil_of_mem hmem))
    obtain ⟨z, hz, hd⟩ := mem_beanLayout_of_mem_messageDecls hL hmapEntry hplt hmap
      (show _ ∈ c.messageDecls 1 p from c.enumDecl_within_mem_messageDecls hmem)
      (by simp only [depth]; omega)
    have hcls : (c.session.alloc.enumClass c.session.graph ⟨c.file, e⟩).path =
        c.around (c.message p).parent ++
          [(c.messagePlan p).className, (c.enumPlan e).className] := by
      have haround : c.around (some p) =
          c.around (c.message p).parent ++ [(c.messagePlan p).className] :=
        c.session.alloc.enclosing_some hL hplt
      show c.around (c.enumType e).parent ++ _ = _
      rw [hp, haround, List.append_assoc]
      rfl
    rw [hcls]
    exact ⟨z, hz, hd⟩

end Declared

theorem mem_messages {j : Nat} (hj : j < c.unit.messages.length) : c.message j ∈ c.unit.messages :=
  List.mem_of_getElem? (c.getElem?_message hj)

theorem mem_enums {e : Nat} (he : e < c.unit.enums.length) : c.enumType e ∈ c.unit.enums := by
  simp only [Source.enumType, List.getElem?_eq_getElem he, Option.getD_some]
  exact List.getElem_mem he

section Paths

variable {c} (hpaths : c.unit.TypePathsApart)
include hpaths

theorem message_eq_of_path {j j' : Nat} (hj : j < c.unit.messages.length)
    (hj' : j' < c.unit.messages.length) (h : (c.message j).path = (c.message j').path) :
    j = j' :=
  getD_inj_of_nodup_map hpaths.messages_nodup hj hj' h

theorem enum_eq_of_path {e e' : Nat} (he : e < c.unit.enums.length)
    (he' : e' < c.unit.enums.length) (h : (c.enumType e).path = (c.enumType e').path) : e = e' :=
  getD_inj_of_nodup_map hpaths.enums_nodup he he' h

/-- A placed declaration annotated with a message's path is at the message's value class. -/
theorem Placed.message_eq {d : Decl} (hd : c.Placed d) {j : Nat} (hj : j < c.unit.messages.length)
    (h : d.2 = some (c.message j).path) :
    d.1 = (c.session.alloc.messageClass c.session.graph ⟨c.file, j⟩).path := by
  rcases hd _ h with ⟨hnil, -⟩ | ⟨j', hj', hpath, hcls⟩ | ⟨e, he, hpath, -⟩
  · exact absurd hnil (hpaths.message_ne_nil _ (c.mem_messages hj))
  · obtain rfl := message_eq_of_path hpaths hj hj' hpath
    exact hcls
  · exact absurd hpath (hpaths.message_ne_enum _ (c.mem_messages hj) _ (c.mem_enums he))

/-- A placed declaration annotated with an enum's path is at the enum's value class. -/
theorem Placed.enum_eq {d : Decl} (hd : c.Placed d) {e : Nat} (he : e < c.unit.enums.length)
    (h : d.2 = some (c.enumType e).path) :
    d.1 = (c.session.alloc.enumClass c.session.graph ⟨c.file, e⟩).path := by
  rcases hd _ h with ⟨hnil, -⟩ | ⟨j, hj, hpath, -⟩ | ⟨e', he', hpath, hcls⟩
  · exact absurd hnil (hpaths.enum_ne_nil _ (c.mem_enums he))
  · exact absurd hpath.symm (hpaths.message_ne_enum _ (c.mem_messages hj) _ (c.mem_enums he))
  · obtain rfl := enum_eq_of_path hpaths he he' hpath
    exact hcls

end Paths

/-- Every oneof plan of a message is opened by one of its fields, when each message has the
member plan made for it, every oneof with variant classes has members, and no member has an
extendee. -/
theorem oneofsOpen (hidx : ∀ m ∈ c.unit.messages, m.Indexed)
    (hmembers : ∀ m ∈ c.unit.messages, ∀ o ∈ m.oneofs, o.synthetic = false → o.fields ≠ [])
    (hext : ∀ m ∈ c.unit.messages, ∀ fd ∈ m.fields, fd.oneofIndex.isSome → fd.extendee = none)
    (hlen : c.plan.messages.length = c.unit.messages.length)
    (hplan : ∀ j m, c.unit.messages[j]? = some m → ∃ S,
      (c.messagePlan j).fields = ((planMembers m).run S).1.1 ∧
        (c.messagePlan j).oneofs = ((planMembers m).run S).1.2.1) :
    ∀ j, c.OneofsOpen j := by
  rintro j ⟨fields, hfields⟩ op hop
  by_cases hj : j < c.unit.messages.length
  · have hm := c.getElem?_message hj
    have hmem := List.mem_of_getElem? hm
    obtain ⟨S, hf, ho⟩ := hplan j _ hm
    obtain ⟨k, hk⟩ := List.mem_iff_getElem?.1 hop
    rw [ho] at hk
    have hof : c.fieldsOf j = fields := by simp [fieldsOf, hfields, Except.toOption]
    rw [hof, hf, ho]
    exact exists_opening_field (c.message j) (hidx _ hmem) (hmembers _ hmem) (hext _ hmem) hfields
      S hk
  · -- a message out of range has the default plan, which has no oneofs
    have hnone : c.plan.messages[j]? = none := List.getElem?_eq_none (by omega)
    simp only [messagePlan, hnone, Option.getD_none] at hop
    exact absurd hop List.not_mem_nil

end Source

/-- The drafted value-class files declare the type annotated with `path` at exactly one place,
the class `cn`: some file declares it at the chain of names of `cn`, and wherever a file declares
it, it does so at that chain, in the file named for the chain's outermost class, whose artifact
lies at that class's path in the package of `cn` and declares that package on its first line. -/
def Source.DeclaredAt (c : Source) (drafts : List (String × Draft)) (cn : ClassName)
    (path : List Nat) : Prop :=
  (∃ x ∈ drafts, (cn.path, some path) ∈ x.2.classes) ∧
    ∀ x ∈ drafts, ∀ d ∈ x.2.classes, d.2 = some path →
      d.1 = cn.path ∧ cn.path.head? = some x.1 ∧
        (x.2.finish c.plan.voPackage x.1 c.unit).path = Naming.javaPath cn.package x.1 ∧
        declaredPackage ((Text.lines (x.2.finish c.plan.voPackage x.1 c.unit).content).headD "") =
          some cn.package

/-- A drafted file registers the classes it declares: it declares the class it is named after,
every class it declares is that class or nested in it, the name it declares first is that class,
and its nested class names are the simple names of the classes it declares inside another. -/
def Draft.RegistersOwnClasses (x : String × Draft) : Prop :=
  (∃ a, ([x.1], a) ∈ x.2.classes) ∧ (∀ d ∈ x.2.classes, d.1.head? = some x.1) ∧
    [x.1] <+: x.2.imports.declared ∧
    ∀ n, n ∈ x.2.imports.nestedNames ↔ n ∈ nestedDeclNames x.2.classes

namespace Source

variable {c : Source} {drafts : List (String × Draft)}
  (hmatch : List.Forall₂ Draft.Matches drafts c.beanLayout)
include hmatch

/-- A type is declared at exactly the place of the class `cn` when the layout declares it there
and every placed declaration annotated with its path is at that class. -/
theorem declaredAt_of_layout (hL : c.unit.Linked)
    (hvo : Naming.isJavaPackage c.plan.voPackage = true)
    {cn : ClassName} {path : List Nat} (hpkg : cn.package = c.plan.voPackage)
    (hex : ∃ z ∈ c.beanLayout, (cn.path, some path) ∈ z.2.1)
    (honly : ∀ d, c.Placed d → d.2 = some path → d.1 = cn.path) :
    c.DeclaredAt drafts cn path := by
  refine ⟨?_, fun x hx d hd hpath => ?_⟩
  · obtain ⟨z, hz, hmem⟩ := hex
    obtain ⟨x, hx, hm⟩ := exists_of_forall₂_left hmatch.flip z hz
    exact ⟨x, hx, hm.2.1 ▸ hmem⟩
  · obtain ⟨z, hz, hm⟩ := exists_of_forall₂_left hmatch x hx
    rw [hm.2.1] at hd
    have hcls := honly d (c.placed_of_mem_beanLayout hL z hz d hd) hpath
    refine ⟨hcls, by rw [← hcls, c.head_of_mem_beanLayout z hz d hd, hm.1], ?_, ?_⟩
    · rw [hpkg]
      rfl
    · rw [hpkg]
      exact x.2.finish_packageLine hvo _ _

/-- The files register the classes they declare, when every oneof plan is opened and every
message with a file of its own classifies. -/
theorem registersOwnClasses_of_layout (hopen : ∀ j, c.OneofsOpen j)
    (hclass : ∀ t ∈ c.topMessages, c.ClassifiesBelow c.depth t) :
    ∀ x ∈ drafts, Draft.RegistersOwnClasses x := by
  intro x hx
  obtain ⟨z, hz, hname, hcls, hnested, hdecl⟩ := exists_of_forall₂_left hmatch x hx
  refine ⟨?_, fun d hd => ?_, hdecl, fun n => ?_⟩
  · rw [hcls, hname]
    exact c.own_mem_beanLayout z hz
  · rw [hcls] at hd
    rw [hname]
    exact c.head_of_mem_beanLayout z hz d hd
  · rw [hnested, hcls]
    exact c.registers_beanLayout hopen hclass z hz n

end Source

/-- The value classes of a file are declared where the allocator names them, and each file
registers the classes it declares. Take a file of a started session whose map entries nest no
types and whose oneofs with variant classes have members, and whose value-class files are
drafted. Every message other than a map entry, and every enum, is declared at exactly one place:
the value class the allocator gives it, its chain of names running from the file's outermost
class down to the type's own declaration, in the file of its outermost class, whose artifact
lies at that class's path in the class's package and declares that package on its first line.
When no member of a oneof has an extendee, each file also declares exactly one class at its top,
the first name it declares, and registers as nested the simple names of the classes it declares
inside another. -/
theorem Source.declares_allocated_classes {r : Descriptor.Request} {s : Session}
    (hs : Session.start r = .ok s) {k : Nat} (hk : k < s.graph.files.length)
    (hentries : ∀ m ∈ (s.graph.file k).messages, m.mapEntry = true → m.nested = [] ∧ m.enums = [])
    (hmembers : ∀ m ∈ (s.graph.file k).messages, ∀ o ∈ m.oneofs, o.synthetic = false →
      o.fields ≠ [])
    (hext : ∀ m ∈ (s.graph.file k).messages, ∀ fd ∈ m.fields, fd.oneofIndex.isSome →
      fd.extendee = none)
    {drafts : List (String × Draft)} (hd : Source.beanDrafts ⟨s, k⟩ = .ok drafts) :
    (∀ j < (s.graph.file k).messages.length, (s.graph.message ⟨k, j⟩).mapEntry = false →
      Source.DeclaredAt ⟨s, k⟩ drafts (s.alloc.messageClass s.graph ⟨k, j⟩)
        (s.graph.message ⟨k, j⟩).path) ∧
    (∀ e < (s.graph.file k).enums.length,
      Source.DeclaredAt ⟨s, k⟩ drafts (s.alloc.enumClass s.graph ⟨k, e⟩)
        (s.graph.enumType ⟨k, e⟩).path) ∧
    ∀ x ∈ drafts, Draft.RegistersOwnClasses x := by
  obtain ⟨hcfg, hg, -, halloc⟩ := Session.start_parts hs
  let c : Source := ⟨s, k⟩
  obtain ⟨hL, -⟩ := Graph.build_linked hg k hk
  -- the file's plan, made under the parsed configuration
  obtain ⟨sn, hp⟩ := allocate_file s.config (fun i hi => (Graph.build_linked hg i hi).2)
    s.genFiles hk
  rw [← halloc] at hp
  have hvo : Naming.isJavaPackage c.plan.voPackage = true := by
    show Naming.isJavaPackage (s.alloc.file k).voPackage = true
    rw [hp]
    exact isJavaPackage_planFile_voPackage (Config.parse_packages hcfg).1 _ sn
  have hlen : c.plan.messages.length = c.unit.messages.length := by
    show (s.alloc.file k).messages.length = _
    rw [hp]
    exact length_planFile_messages _ _ _
  have hplan : ∀ j m, c.unit.messages[j]? = some m → ∃ S,
      (c.messagePlan j).fields = ((planMembers m).run S).1.1 ∧
        (c.messagePlan j).oneofs = ((planMembers m).run S).1.2.1 := by
    intro j m hm
    show ∃ S, (((s.alloc.file k).messages[j]?).getD default).fields = _ ∧
      (((s.alloc.file k).messages[j]?).getD default).oneofs = _
    rw [hp]
    exact planFile_messagePlan _ _ _ hm
  obtain ⟨raw, harena, -⟩ := Graph.build_file_arena hg hk
  have hpaths := Graph.build_typePathsApart hg hk
  obtain ⟨hclass, hmatch⟩ := c.beanDrafts_layout hd
  refine ⟨fun j hj hmap => ?_, fun e he => ?_, ?_⟩
  · -- a message's class is declared where the walk down from its top-level message puts it
    exact Source.declaredAt_of_layout hmatch hL hvo rfl
      (Source.message_declared (c := c) hL hentries hj hmap)
      fun d hd hpath => Source.Placed.message_eq (c := c) hpaths hd hj hpath
  · -- so is an enum's, at the top or in its parent's class
    exact Source.declaredAt_of_layout hmatch hL hvo rfl
      (Source.enum_declared (c := c) hL hentries he fun p hpe =>
        harena.enum_parent_lt _ (c.mem_enums he) p hpe)
      fun d hd hpath => Source.Placed.enum_eq (c := c) hpaths hd he hpath
  · exact Source.registersOwnClasses_of_layout hmatch
      (c.oneofsOpen (Graph.build_indexed hg k hk) hmembers hext hlen hplan) hclass

/-- The file `shop.proto` of package `shop` in the per-file layout: a message `Order` with a
nested message `Line`, a nested enum `State` and a oneof `pay` of two strings, and an enum
`Kind` at the top. -/
def shopRequest : Descriptor.Request :=
  { fileToGenerate := ["shop.proto"], parameter := some "vopkg=v,layout=file"
    protoFile := [
      { name := some "shop.proto", package := some "shop"
        messageType := [
          { name := some "Order"
            field := [
              { name := some "line", number := some 1, label := some 1, fieldType := some 11
                typeName := some ".shop.Order.Line" },
              { name := some "card", number := some 2, label := some 1, fieldType := some 9
                oneofIndex := some 0 },
              { name := some "cash", number := some 3, label := some 1, fieldType := some 9
                oneofIndex := some 0 },
              { name := some "state", number := some 4, label := some 1, fieldType := some 14
                typeName := some ".shop.Order.State" }]
            nestedType := [
              { name := some "Line"
                field := [{ name := some "sku", number := some 1, label := some 1
                            fieldType := some 9 }] }]
            enumType := [
              { name := some "State", value := [{ name := some "NEW", number := some 0 }] }]
            oneofDecl := [{ name := some "pay" }] }]
        enumType := [
          { name := some "Kind", value := [{ name := some "K_ZERO", number := some 0 }] }] }] }

/-- The file `a.proto` of package `p`: a message `A` whose oneof `o` has one member `x` that
also names an extendee, and a field `y` of the message `OX` at the top. -/
def extendedVariantRequest : Descriptor.Request :=
  { fileToGenerate := ["a.proto"], parameter := some "vopkg=v"
    protoFile := [
      { name := some "a.proto", package := some "p"
        messageType := [
          { name := some "A"
            field := [
              { name := some "x", number := some 1, label := some 1, fieldType := some 5
                extendee := some ".p.A", oneofIndex := some 0 },
              { name := some "y", number := some 2, label := some 1, fieldType := some 11
                typeName := some ".p.OX" }]
            oneofDecl := [{ name := some "o" }] },
          { name := some "OX" }] }] }

/-- Both requests start, and their value-class files are drafted: the shop file meets the
hypotheses of `Source.declares_allocated_classes` and has `Order.Line` as its second message,
and the file of `A` registers `OX` without declaring it. -/
theorem classSiteRequests_evaluated :
    ((Session.start shopRequest).toOption.any (fun s =>
        decide (0 < s.graph.files.length ∧
          (∀ m ∈ (s.graph.file 0).messages, m.mapEntry = true → m.nested = [] ∧ m.enums = []) ∧
          (∀ m ∈ (s.graph.file 0).messages, ∀ o ∈ m.oneofs, o.synthetic = false →
            o.fields ≠ []) ∧
          (∀ m ∈ (s.graph.file 0).messages, ∀ fd ∈ m.fields, fd.oneofIndex.isSome →
            fd.extendee = none) ∧
          1 < (s.graph.file 0).messages.length ∧ (s.graph.message ⟨0, 1⟩).mapEntry = false) &&
          (Source.beanDrafts ⟨s, 0⟩).isOk) &&
      (Session.start extendedVariantRequest).toOption.any (fun s =>
        (Source.beanDrafts ⟨s, 0⟩).toOption.any fun drafts =>
          decide ((∀ m ∈ (s.graph.file 0).messages, m.mapEntry = true →
              m.nested = [] ∧ m.enums = []) ∧
            (∀ m ∈ (s.graph.file 0).messages, ∀ o ∈ m.oneofs, o.synthetic = false →
              o.fields ≠ []) ∧
            ∃ x ∈ drafts, ∃ y ∈ drafts, "OX" ∈ x.2.imports.nestedNames ∧
              "OX" ∉ nestedDeclNames x.2.classes ∧ y.1 = "OX"))) = true := by
  decide +kernel

/-- In the shop file, `Order.Line` is declared only in the wrapper's file, as `ShopBeans.Order.Line`
where the allocator puts it, and the wrapper's file registers what it declares. -/
theorem shopRequest_line_declared :
    ∃ s drafts, Session.start shopRequest = .ok s ∧ Source.beanDrafts ⟨s, 0⟩ = .ok drafts ∧
      Source.DeclaredAt ⟨s, 0⟩ drafts (s.alloc.messageClass s.graph ⟨0, 1⟩)
        (s.graph.message ⟨0, 1⟩).path ∧
      ∀ x ∈ drafts, Draft.RegistersOwnClasses x := by
  have hok := classSiteRequests_evaluated
  rw [Bool.and_eq_true] at hok
  obtain ⟨hok, -⟩ := hok
  cases hs : Session.start shopRequest with
  | error e =>
    rw [hs] at hok
    cases hok
  | ok s =>
    rw [hs] at hok
    dsimp only [Except.toOption, Option.any] at hok
    simp only [Bool.and_eq_true, decide_eq_true_eq] at hok
    obtain ⟨⟨hk, hentries, hmembers, hext, hj, hmap⟩, hdrafts⟩ := hok
    cases hd : Source.beanDrafts ⟨s, 0⟩ with
    | error e =>
      rw [hd] at hdrafts
      cases hdrafts
    | ok drafts =>
      obtain ⟨hmsg, -, hreg⟩ :=
        Source.declares_allocated_classes hs hk hentries hmembers hext hd
      exact ⟨s, drafts, rfl, hd, hmsg 1 hj hmap, hreg⟩

/-- A member of a oneof that names an extendee classifies as an extension, so its variant class
`OX` is never declared; yet the oneof's plan registers it as nested in `A`'s file, beside the
class `OX` that has a file of its own. -/
theorem extendedVariantRequest_registers_undeclared :
    ∃ s drafts, Session.start extendedVariantRequest = .ok s ∧
      Source.beanDrafts ⟨s, 0⟩ = .ok drafts ∧
      (∀ m ∈ (s.graph.file 0).messages, m.mapEntry = true → m.nested = [] ∧ m.enums = []) ∧
      (∀ m ∈ (s.graph.file 0).messages, ∀ o ∈ m.oneofs, o.synthetic = false → o.fields ≠ []) ∧
      ∃ x ∈ drafts, ∃ y ∈ drafts, "OX" ∈ x.2.imports.nestedNames ∧
        "OX" ∉ nestedDeclNames x.2.classes ∧ y.1 = "OX" := by
  have hok := classSiteRequests_evaluated
  rw [Bool.and_eq_true] at hok
  obtain ⟨-, hok⟩ := hok
  cases hs : Session.start extendedVariantRequest with
  | error e =>
    rw [hs] at hok
    cases hok
  | ok s =>
    rw [hs] at hok
    dsimp only [Except.toOption, Option.any] at hok
    cases hd : Source.beanDrafts ⟨s, 0⟩ with
    | error e =>
      rw [hd] at hok
      cases hok
    | ok drafts =>
      rw [hd] at hok
      exact ⟨s, drafts, rfl, hd, of_decide_eq_true hok⟩

end BeanCodegen.Emit
