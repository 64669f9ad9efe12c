import Mathlib
import BeanCodegen.Proofs.Arena
/-! # Source paths

Every node of a file's graph records the path of its declaration, in the form protobuf's source
code info uses: pairs of a field number of `descriptor.proto` and a position in that list. The
path is the key under which the node's comments are looked up, and the path that annotations of
the generated code carry.

The main statement, `File.wrap_sourcePaths`, says that these paths are right. Followed through
the file descriptor, a node's path leads to the declaration the node was wrapped from; no two
nodes share a path; comment keys are injective, so a node gets the comments of the first
location of its own path; and the name chains and full names of messages and enums follow the
nesting of their declarations.
-/

namespace BeanCodegen

namespace Descriptor

/-- An element of a file descriptor that a source path can lead to: the file itself, a message,
an enum, an enum value, a field or extension, or a oneof. -/
inductive Decl
  | file (raw : FileProto)
  | message (raw : MessageProto)
  | enum (raw : EnumProto)
  | value (raw : EnumValueProto)
  | field (raw : FieldProto)
  | oneof (raw : OneofProto)

namespace Decl

/-- The element one step of a path leads to: the element at position `i` of the list that field
number `tag` of `descriptor.proto` holds. In a file 4 lists messages, 5 enums and 7 extensions;
in a message 2 lists fields, 3 nested messages, 4 enums, 6 extensions and 8 oneofs; in an enum
2 lists values. -/
def child : Decl → Nat → Nat → Option Decl
  | .file f, 4, i => f.messageType[i]?.map .message
  | .file f, 5, i => f.enumType[i]?.map .enum
  | .file f, 7, i => f.extension[i]?.map .field
  | .message m, 2, i => m.field[i]?.map .field
  | .message m, 3, i => m.nestedType[i]?.map .message
  | .message m, 4, i => m.enumType[i]?.map .enum
  | .message m, 6, i => m.extension[i]?.map .field
  | .message m, 8, i => m.oneofDecl[i]?.map .oneof
  | .enum e, 2, i => e.value[i]?.map .value
  | _, _, _ => none

/-- The element a path leads to, read two numbers at a time. -/
def follow (d : Decl) : List Nat → Option Decl
  | [] => some d
  | [_] => none
  | tag :: i :: rest => (d.child tag i).bind (·.follow rest)

/-- Following a path one step further is following the path, then taking one step. -/
theorem follow_append_step (d : Decl) (p : List Nat) (tag i : Nat) :
    d.follow (p ++ [tag, i]) = (d.follow p).bind (·.child tag i) := by
  induction d, p using follow.induct with
  | case1 d => simp [follow]
  | case2 d x =>
    simp only [List.cons_append, List.nil_append, follow]
    cases d.child x tag <;> rfl
  | case3 d t k rest ih =>
    simp only [List.cons_append, follow]
    cases d.child t k with
    | none => rfl
    | some d' => exact ih d'

/-- The kind of a declaration: messages, enums, values, fields and oneofs in the order the
nodes of a file list them, and the file last. -/
def kind : Decl → Nat
  | .message _ => 0
  | .enum _ => 1
  | .value _ => 2
  | .field _ => 3
  | .oneof _ => 4
  | .file _ => 5

end Decl

/-- The element of a file descriptor a source path leads to. -/
def FileProto.declAt (raw : FileProto) (path : List Nat) : Option Decl :=
  (Decl.file raw).follow path

end Descriptor

namespace Schema

open Descriptor

/-! ## The message walk follows the declarations -/

/-- Every entry of a walk of siblings sits at the path of its own declaration, when the walk's
parent path leads to an element whose list `tag` holds the siblings from position `i` on. -/
theorem walkFrom_follow (root ctx : Decl) (parent : Option Nat) (parentPath : List Nat)
    (parentNames : List String) (tag base : Nat) (l : List MessageProto) (i : Nat)
    (hctx : root.follow parentPath = some ctx)
    (hsib : ∀ k, ctx.child tag (i + k) = l[k]?.map .message) :
    ∀ f ∈ walkFrom parent parentPath parentNames tag base l i,
      root.follow f.path = some (.message f.raw) := by
  induction parent, parentPath, parentNames, tag, base, l, i using walkFrom_induction
    generalizing ctx with
  | nil => simp [walkFrom_nil]
  | cons parent parentPath parentNames tag base raw rest i inner hcons ih ih' =>
    have hself : root.follow (parentPath ++ [tag, i]) = some (.message raw) := by
      rw [Decl.follow_append_step, hctx, Option.bind_some]
      simpa using hsib 0
    intro f hf
    rw [hcons] at hf
    simp only [List.cons_append, List.mem_cons, List.mem_append] at hf
    rcases hf with rfl | hf | hf
    · exact hself
    · exact ih (.message raw) hself (fun k => by simp [Decl.child]) f hf
    · exact ih' ctx hctx (fun k => by simpa [Nat.add_assoc, Nat.add_comm 1 k] using hsib (k + 1))
        f hf

/-- Every path of a walk of siblings extends the parent path by the list's field number and a
position from `i` on. -/
theorem walkFrom_path_prefix (parent : Option Nat) (parentPath : List Nat)
    (parentNames : List String) (tag base : Nat) (l : List MessageProto) (i : Nat) :
    ∀ f ∈ walkFrom parent parentPath parentNames tag base l i,
      ∃ k rest, i ≤ k ∧ f.path = parentPath ++ tag :: k :: rest := by
  induction parent, parentPath, parentNames, tag, base, l, i using walkFrom_induction with
  | nil => simp [walkFrom_nil]
  | cons parent parentPath parentNames tag base raw rest i inner hcons ih ih' =>
    intro f hf
    rw [hcons] at hf
    simp only [List.cons_append, List.mem_cons, List.mem_append] at hf
    rcases hf with rfl | hf | hf
    · exact ⟨i, [], Nat.le_refl i, by simp [FlatMessage.sibling]⟩
    · obtain ⟨k, r, -, hpath⟩ := ih f hf
      exact ⟨i, 3 :: k :: r, Nat.le_refl i, by simp [hpath]⟩
    · obtain ⟨k, r, hk, hpath⟩ := ih' f hf
      exact ⟨k, r, by omega, hpath⟩

/-- The entries of a walk have pairwise distinct paths. -/
theorem walkFrom_paths_nodup (parent : Option Nat) (parentPath : List Nat)
    (parentNames : List String) (tag base : Nat) (l : List MessageProto) (i : Nat) :
    ((walkFrom parent parentPath parentNames tag base l i).map (·.path)).Nodup := by
  induction parent, parentPath, parentNames, tag, base, l, i using walkFrom_induction with
  | nil => simp [walkFrom_nil]
  | cons parent parentPath parentNames tag base raw rest i inner hcons ih ih' =>
    rw [hcons]
    -- the sibling's path is a proper prefix of its nested entries' paths, and its position
    -- tells it and its nested entries apart from the later siblings and theirs
    have hinner := walkFrom_path_prefix (some base) (parentPath ++ [tag, i])
      (parentNames ++ [raw.name.getD ""]) 3 (base + 1) raw.nestedType 0
    have hrest := walkFrom_path_prefix parent parentPath parentNames tag
      (base + 1 + inner.length) rest (i + 1)
    simp only [List.cons_append, List.map_cons, List.map_append, List.nodup_cons,
      List.mem_append, List.mem_map, not_or, not_exists, not_and, List.nodup_append]
    refine ⟨⟨fun f hf hpath => ?_, fun f hf hpath => ?_⟩, ih, ih', fun p hp q hq hpq => ?_⟩
    · obtain ⟨k, r, -, hf'⟩ := hinner f hf
      have := congrArg List.length (hf'.symm.trans hpath)
      simp [FlatMessage.sibling] at this
    · obtain ⟨k, r, hk, hf'⟩ := hrest f hf
      rw [hf'] at hpath
      simp [FlatMessage.sibling] at hpath
      omega
    · obtain ⟨f, hf, rfl⟩ := hp
      obtain ⟨g, hg, rfl⟩ := hq
      obtain ⟨k, r, -, hf'⟩ := hinner f hf
      obtain ⟨k', r', hk', hg'⟩ := hrest g hg
      rw [hf', hg'] at hpq
      simp at hpq
      omega

/-- Every entry of a file's message walk sits at the path of its declaration. -/
theorem flatten_follow (raw : FileProto) :
    ∀ f ∈ flatten raw.messageType, raw.declAt f.path = some (.message f.raw) := by
  rw [flatten_eq_walkFrom]
  exact walkFrom_follow _ (.file raw) _ _ _ _ _ _ _ rfl fun k => by simp [Decl.child]

/-! ## Nodes and the declarations they wrap -/

/-- A node of a file's graph that records a declaration path: a message, an enum, an enum
value, a field or extension, or a oneof. -/
inductive Node
  | message (m : Message)
  | enum (e : EnumType)
  | value (v : EnumValue)
  | field (f : Field)
  | oneof (o : Oneof)

/-- The declaration path a node records. -/
def Node.path : Node → List Nat
  | .message m => m.path
  | .enum e => e.path
  | .value v => v.path
  | .field f => f.path
  | .oneof o => o.path

/-- Every node of a file, kind by kind: its messages, its enums, their values, the fields and
extensions of its messages together with its own extensions, and the oneofs of its messages. -/
def File.nodes (u : File) : List Node :=
  u.messages.map .message ++ u.enums.map .enum ++ u.enums.flatMap (·.values.map .value) ++
    (u.messages.flatMap (fun m => (m.fields ++ m.extensions).map .field) ++
      u.extensions.map .field) ++
    u.messages.flatMap (·.oneofs.map .oneof)

/-- The kind of a node, numbered in the order `File.nodes` lists them. -/
def Node.kind : Node → Nat
  | .message _ => 0
  | .enum _ => 1
  | .value _ => 2
  | .field _ => 3
  | .oneof _ => 4

/-- A node is wrapped from a declaration of the descriptor `raw` when wrapping the declaration
at the node's own place (its parent, position, path and name chain) gives the node. A message
is compared before its children are linked. An enum value and a oneof also depend on their
siblings, so only what they take from their own declaration is compared. -/
def Node.WrappedFrom (raw : FileProto) : Node → Decl → Prop
  | .message m, .message r =>
    { m with nested := [], enums := [] } = wrapMessage (raw.package.getD "")
      (flatten raw.messageType)
      { raw := r, parent := m.parent, index := m.index, path := m.path, typeName := m.typeName }
  | .enum e, .enum r =>
    e = wrapEnum r (raw.package.getD "") (e.parent.map fun p => (p, e.typeName.dropLast))
      e.index e.path
  | .value v, .value r =>
    v.name = r.name.getD "" ∧ v.number = r.number.getD 0 ∧
      v.deprecated = (r.options.bind (·.deprecated)).getD false
  | .field f, .field r => f = Field.ofProto r f.index f.path
  | .oneof o, .oneof r => o.name = r.name.getD ""
  | _, _ => False

/-- A node sits at the path of the declaration it was wrapped from. -/
def Node.Located (raw : FileProto) (n : Node) : Prop :=
  ∃ d, raw.declAt n.path = some d ∧ n.WrappedFrom raw d

/-- What wrapping a file gives: its arenas, its extensions, its package and its comment index. -/
theorem File.wrap_parts (id : Nat) (raw : FileProto) :
    ∃ u, File.wrap id raw = .ok u ∧ u.messages = arenaMessages raw ∧
      u.enums = arenaEnums raw ∧ u.extensions = wrapFields raw.extension [] 7 ∧
      u.package = raw.package.getD "" ∧ u.comments = indexComments (raw.sourceCodeInfo.getD []) := by
  have hlink := linkEnums_arena raw
  simp only [arenaEnums, FlatMessage.enums] at hlink ⊢
  simp only [File.wrap, linkNested_flatten, bind, Except.bind, hlink, pure, Except.pure]
  exact ⟨_, rfl, rfl, rfl, rfl, rfl, rfl⟩

/-- The fields a list of declarations becomes sit at the paths of their declarations, when the
parent path leads to the element whose list `tag` holds them. -/
theorem wrapFields_located {raw : FileProto} {ctx : Decl} {list : List FieldProto}
    {parentPath : List Nat} {tag : Nat} (hctx : raw.declAt parentPath = some ctx)
    (hlist : ∀ k, ctx.child tag k = list[k]?.map .field) :
    ∀ fd ∈ wrapFields list parentPath tag, (Node.field fd).Located raw := by
  intro fd hfd
  obtain ⟨⟨r, k⟩, hmem, rfl⟩ := List.mem_map.1 hfd
  refine ⟨.field r, ?_, rfl⟩
  show raw.declAt (parentPath ++ [tag, k]) = _
  rw [FileProto.declAt, Decl.follow_append_step, ← FileProto.declAt, hctx, Option.bind_some,
    hlist, List.mem_zipIdx_iff_getElem?.1 hmem, Option.map_some]

/-- The oneofs of a message sit at the paths of their declarations. -/
theorem wrapOneofs_located {raw : FileProto} {r : MessageProto} {fields : List Field}
    {path : List Nat} (hctx : raw.declAt path = some (.message r)) :
    ∀ o ∈ wrapOneofs r.oneofDecl fields path, (Node.oneof o).Located raw := by
  intro o ho
  obtain ⟨⟨d, k⟩, hmem, rfl⟩ := List.mem_map.1 ho
  refine ⟨.oneof d, ?_, rfl⟩
  rw [Node.path, FileProto.declAt, Decl.follow_append_step, ← FileProto.declAt, hctx,
    Option.bind_some, Decl.child, List.mem_zipIdx_iff_getElem?.1 hmem, Option.map_some]

/-- The values of an enum sit at the paths of their declarations. -/
theorem wrapValues_located {raw : FileProto} {r : EnumProto} {path : List Nat}
    (hctx : raw.declAt path = some (.enum r)) :
    ∀ v ∈ wrapValues r.value path, (Node.value v).Located raw := by
  intro v hv
  obtain ⟨⟨d, k⟩, hmem, rfl⟩ := List.mem_map.1 hv
  refine ⟨.value d, ?_, rfl, rfl, rfl⟩
  rw [Node.path, FileProto.declAt, Decl.follow_append_step, ← FileProto.declAt, hctx,
    Option.bind_some, Decl.child, List.mem_zipIdx_iff_getElem?.1 hmem, Option.map_some]

/-- A message of a wrapped file sits at the path of its declaration. -/
theorem arenaMessages_located {raw : FileProto} {m : Message} (hm : m ∈ arenaMessages raw) :
    (Node.message m).Located raw := by
  obtain ⟨i, hi⟩ := List.mem_iff_getElem?.1 hm
  obtain ⟨f, hf, hwrap, -⟩ := mem_arenaMessages hi
  have hplace : ({ raw := f.raw, parent := m.parent, index := m.index, path := m.path,
                   typeName := m.typeName } : FlatMessage) = f := by
    have hparent := congrArg Message.parent hwrap
    have hindex := congrArg Message.index hwrap
    have hpath := congrArg Message.path hwrap
    have hnames := congrArg Message.typeName hwrap
    simp only [wrapMessage] at hparent hindex hpath hnames
    rw [hparent, hindex, hpath, hnames]
  have hpath : m.path = f.path := congrArg FlatMessage.path hplace
  refine ⟨.message f.raw, ?_, ?_⟩
  · rw [Node.path, hpath]
    exact flatten_follow raw f (List.mem_of_getElem? (List.mem_zipIdx_iff_getElem?.1 hf))
  · show _ = _
    rw [hplace]
    exact hwrap

/-- An enum of a wrapped file sits at the path of its declaration. -/
theorem arenaEnums_located {raw : FileProto} {e : EnumType} (he : e ∈ arenaEnums raw) :
    (Node.enum e).Located raw := by
  rcases List.mem_append.1 he with he | he
  · obtain ⟨⟨r, k⟩, hmem, rfl⟩ := List.mem_map.1 he
    refine ⟨.enum r, ?_, rfl⟩
    show raw.declAt [5, k] = _
    simp [FileProto.declAt, Decl.follow, Decl.child, List.mem_zipIdx_iff_getElem?.1 hmem]
  · obtain ⟨⟨f, m⟩, hf, he⟩ := List.mem_flatMap.1 he
    obtain ⟨⟨r, k⟩, hmem, rfl⟩ := List.mem_map.1 he
    have hfollow := flatten_follow raw f (List.mem_of_getElem? (List.mem_zipIdx_iff_getElem?.1 hf))
    refine ⟨.enum r, ?_, ?_⟩
    · show raw.declAt (f.path ++ [4, k]) = _
      rw [FileProto.declAt, Decl.follow_append_step, ← FileProto.declAt, hfollow,
        Option.bind_some, Decl.child, List.mem_zipIdx_iff_getElem?.1 hmem, Option.map_some]
    · simp [Node.WrappedFrom, wrapEnum]

/-- A message at the path of its declaration has the fields, extensions and oneofs of that
declaration, under its path. -/
theorem Node.Located.message_members {raw : FileProto} {m : Message}
    (hm : (Node.message m).Located raw) :
    ∃ r, raw.declAt m.path = some (.message r) ∧ m.fields = wrapFields r.field m.path 2 ∧
      m.extensions = wrapFields r.extension m.path 6 ∧
      m.oneofs = wrapOneofs r.oneofDecl (wrapFields r.field m.path 2) m.path := by
  obtain ⟨d, hd, hwrap⟩ := hm
  cases d with
  | message r =>
    exact ⟨r, hd, congrArg Message.fields hwrap, congrArg Message.extensions hwrap,
      congrArg Message.oneofs hwrap⟩
  | _ => exact hwrap.elim

/-- An enum at the path of its declaration has the values of that declaration, under its path. -/
theorem Node.Located.enum_values {raw : FileProto} {e : EnumType} (he : (Node.enum e).Located raw) :
    ∃ r, raw.declAt e.path = some (.enum r) ∧ e.values = wrapValues r.value e.path := by
  obtain ⟨d, hd, hwrap⟩ := he
  cases d with
  | enum r => exact ⟨r, hd, congrArg EnumType.values hwrap⟩
  | _ => exact hwrap.elim

/-- The fields and extensions of a message sit at the paths of their declarations. -/
theorem Node.Located.fields {raw : FileProto} {m : Message} (hm : (Node.message m).Located raw) :
    ∀ fd ∈ m.fields ++ m.extensions, (Node.field fd).Located raw := by
  obtain ⟨r, hd, hfields, hexts, -⟩ := hm.message_members
  intro fd hfd
  rcases List.mem_append.1 hfd with hfd | hfd
  · exact wrapFields_located hd (fun k => rfl) fd (hfields ▸ hfd)
  · exact wrapFields_located hd (fun k => rfl) fd (hexts ▸ hfd)

/-- The oneofs of a message sit at the paths of their declarations. -/
theorem Node.Located.oneofs {raw : FileProto} {m : Message} (hm : (Node.message m).Located raw) :
    ∀ o ∈ m.oneofs, (Node.oneof o).Located raw := by
  obtain ⟨r, hd, -, -, honeofs⟩ := hm.message_members
  intro o ho
  exact wrapOneofs_located hd o (honeofs ▸ ho)

/-- The values of an enum sit at the paths of their declarations. -/
theorem Node.Located.values {raw : FileProto} {e : EnumType} (he : (Node.enum e).Located raw) :
    ∀ v ∈ e.values, (Node.value v).Located raw := by
  obtain ⟨r, hd, hvalues⟩ := he.enum_values
  intro v hv
  exact wrapValues_located hd v (hvalues ▸ hv)


/-- Every node of a wrapped file sits at the path of the declaration it was wrapped from. -/
theorem File.nodes_located {raw : FileProto} {u : File} (hm : u.messages = arenaMessages raw)
    (he : u.enums = arenaEnums raw) (hx : u.extensions = wrapFields raw.extension [] 7) :
    ∀ n ∈ u.nodes, n.Located raw := by
  have hmsg : ∀ m ∈ u.messages, (Node.message m).Located raw :=
    fun m h => arenaMessages_located (hm ▸ h)
  have henum : ∀ e ∈ u.enums, (Node.enum e).Located raw := fun e h => arenaEnums_located (he ▸ h)
  intro n hn
  simp only [File.nodes, List.mem_append, List.mem_flatMap, List.mem_map] at hn
  rcases hn with (((⟨m, hM, rfl⟩ | ⟨e, hE, rfl⟩) | ⟨e, hE, v, hv, rfl⟩) |
    (⟨m, hM, fd, hfd, rfl⟩ | ⟨fd, hfd, rfl⟩)) | ⟨m, hM, o, ho, rfl⟩
  · exact hmsg m hM
  · exact henum e hE
  · exact (henum e hE).values v hv
  · exact (hmsg m hM).fields fd (List.mem_append.2 hfd)
  · exact wrapFields_located (show raw.declAt [] = some (.file raw) from rfl) (fun k => rfl) fd
      (hx ▸ hfd)
  · exact (hmsg m hM).oneofs o ho

/-! ## No two nodes share a path

Every path ends in one step, a field number and a position, below the path of the element
around it. Within one kind of node, the steps below one element differ and the elements around
differ. Across kinds, two nodes at one path would be wrapped from one declaration, whose kind
both share. -/

theorem append_step_inj {p q : List Nat} {t t' k k' : Nat} :
    p ++ [t, k] = q ++ [t', k'] ↔ p = q ∧ t = t' ∧ k = k' := by
  constructor
  · intro h
    obtain ⟨rfl, h'⟩ := List.append_inj' h rfl
    simpa using h'
  · rintro ⟨rfl, rfl, rfl⟩
    rfl

/-- The steps to the elements of one list under one parent path differ. -/
theorem steps_nodup {α : Type} (xs : List α) (p : List Nat) (t : Nat) :
    (xs.zipIdx.map fun r => p ++ [t, r.2]).Nodup := by
  have hmap : (xs.zipIdx.map fun r => p ++ [t, r.2]) =
      (xs.zipIdx.map Prod.snd).map fun k => p ++ [t, k] := by
    rw [List.map_map]
    rfl
  rw [hmap, List.zipIdx_map_snd]
  exact (List.nodup_range' ..).map fun k k' h => (append_step_inj.1 h).2.2

/-- Steps with different field numbers differ, whatever the parent paths. -/
theorem steps_disjoint {α β : Type} (xs : List α) (ys : List β) (p q : List Nat) {t t' : Nat}
    (ht : t ≠ t') :
    ∀ a ∈ xs.zipIdx.map (fun r => p ++ [t, r.2]), ∀ b ∈ ys.zipIdx.map (fun r => q ++ [t', r.2]),
      a ≠ b := by
  intro a ha b hb hab
  obtain ⟨x, -, rfl⟩ := List.mem_map.1 ha
  obtain ⟨y, -, rfl⟩ := List.mem_map.1 hb
  exact ht (append_step_inj.1 hab).2.1

/-- Paths one step below the pairwise distinct paths of some elements are pairwise distinct,
when the steps below each element are. -/
theorem nodup_flatMap_steps {α : Type} {xs : List α} (path : α → List Nat)
    (steps : α → List (List Nat)) (hxs : (xs.map path).Nodup)
    (hshape : ∀ x ∈ xs, ∀ p ∈ steps x, ∃ t k, p = path x ++ [t, k])
    (hsteps : ∀ x ∈ xs, (steps x).Nodup) : (xs.flatMap steps).Nodup := by
  refine List.nodup_flatMap.2 ⟨hsteps, ?_⟩
  refine (List.pairwise_map.1 hxs).imp_of_mem fun {a b} ha hb hab p hpa hpb => ?_
  obtain ⟨t, k, rfl⟩ := hshape a ha p hpa
  obtain ⟨t', k', h⟩ := hshape b hb _ hpb
  exact hab (append_step_inj.1 h).1

theorem wrapFields_paths (list : List FieldProto) (parentPath : List Nat) (tag : Nat) :
    (wrapFields list parentPath tag).map Field.path =
      list.zipIdx.map fun r => parentPath ++ [tag, r.2] := by
  simp only [wrapFields, List.map_map]
  rfl

theorem wrapOneofs_paths (decls : List OneofProto) (fields : List Field) (path : List Nat) :
    (wrapOneofs decls fields path).map Oneof.path = decls.zipIdx.map fun r => path ++ [8, r.2] := by
  simp only [wrapOneofs, List.map_map]
  rfl

theorem wrapValues_paths (values : List EnumValueProto) (path : List Nat) :
    (wrapValues values path).map EnumValue.path = values.zipIdx.map fun r => path ++ [2, r.2] := by
  simp only [wrapValues, List.map_map]
  rfl

theorem flatten_paths_nodup (l : List MessageProto) : ((flatten l).map (·.path)).Nodup := by
  rw [flatten_eq_walkFrom]
  exact walkFrom_paths_nodup _ _ _ _ _ _ _

theorem arenaMessages_paths (raw : FileProto) :
    (arenaMessages raw).map Message.path = (flatten raw.messageType).map FlatMessage.path := by
  refine List.ext_getElem? fun i => ?_
  rw [List.getElem?_map, List.getElem?_map, getElem?_arenaMessages, Option.map_map]
  rfl

theorem map_zipIdx_fst {α β : Type} (xs : List α) (g : α → β) :
    (xs.zipIdx.map fun e => g e.1) = xs.map g := by
  conv_rhs => rw [← List.zipIdx_map_fst 0 xs]
  rw [List.map_map]
  rfl

/-- The enums of a file have pairwise distinct paths: the file's own are one step below the
file, the others one step below their distinct messages. -/
theorem arenaEnums_paths_nodup (raw : FileProto) : ((arenaEnums raw).map EnumType.path).Nodup := by
  have hown : (raw.enumType.zipIdx.map fun r =>
      wrapEnum r.1 (raw.package.getD "") none r.2 [5, r.2]).map EnumType.path =
        raw.enumType.zipIdx.map fun r => [] ++ [5, r.2] := by
    rw [List.map_map]
    rfl
  have hnested : ((flatten raw.messageType).zipIdx.flatMap fun e =>
      e.1.enums (raw.package.getD "") e.2).map EnumType.path =
        (flatten raw.messageType).zipIdx.flatMap fun e =>
          e.1.raw.enumType.zipIdx.map fun r => e.1.path ++ [4, r.2] := by
    rw [List.map_flatMap]
    refine List.flatMap_congr fun e _ => ?_
    rw [FlatMessage.enums, List.map_map]
    rfl
  rw [arenaEnums, List.map_append, hown, hnested, List.nodup_append]
  refine ⟨steps_nodup _ _ _, nodup_flatMap_steps (fun e => e.1.path) _ ?_ ?_ ?_, ?_⟩
  · rw [map_zipIdx_fst]
    exact flatten_paths_nodup _
  · intro e _ p hp
    obtain ⟨r, -, rfl⟩ := List.mem_map.1 hp
    exact ⟨4, r.2, rfl⟩
  · exact fun e _ => steps_nodup _ _ _
  · intro a ha b hb
    obtain ⟨e, -, hb⟩ := List.mem_flatMap.1 hb
    exact steps_disjoint _ _ _ _ (by decide) a ha b hb

/-- A node is of the kind of the declaration it was wrapped from. -/
theorem Node.WrappedFrom.kind_eq {raw : FileProto} {n : Node} {d : Decl}
    (h : n.WrappedFrom raw d) : n.kind = d.kind := by
  cases n <;> cases d <;> first | rfl | exact h.elim

/-- Located nodes of different kinds have different paths. -/
theorem Node.Located.path_ne {raw : FileProto} {n₁ n₂ : Node} (h₁ : n₁.Located raw)
    (h₂ : n₂.Located raw) (hkind : n₁.kind ≠ n₂.kind) : n₁.path ≠ n₂.path := by
  obtain ⟨d₁, hd₁, hw₁⟩ := h₁
  obtain ⟨d₂, hd₂, hw₂⟩ := h₂
  intro hpath
  rw [hpath, hd₂, Option.some.injEq] at hd₁
  exact hkind (by rw [hw₁.kind_eq, hw₂.kind_eq, hd₁])

/-- Appending located nodes of one kind to located nodes of earlier kinds keeps the paths
pairwise distinct. -/
theorem Node.Located.nodup_append {raw : FileProto} {L₁ L₂ : List Node} {k : Nat}
    (hloc : ∀ n ∈ L₁ ++ L₂, n.Located raw) (h₁ : (L₁.map Node.path).Nodup)
    (h₂ : (L₂.map Node.path).Nodup) (hk₁ : ∀ n ∈ L₁, n.kind < k) (hk₂ : ∀ n ∈ L₂, n.kind = k) :
    ((L₁ ++ L₂).map Node.path).Nodup := by
  rw [List.map_append, List.nodup_append]
  refine ⟨h₁, h₂, fun a ha b hb => ?_⟩
  obtain ⟨n₁, hn₁, rfl⟩ := List.mem_map.1 ha
  obtain ⟨n₂, hn₂, rfl⟩ := List.mem_map.1 hb
  refine Node.Located.path_ne (hloc n₁ (List.mem_append_left _ hn₁))
    (hloc n₂ (List.mem_append_right _ hn₂)) ?_
  have := hk₁ n₁ hn₁
  have := hk₂ n₂ hn₂
  omega

theorem kind_lt_append {L₁ L₂ : List Node} {k : Nat} (hk₁ : ∀ n ∈ L₁, n.kind < k)
    (hk₂ : ∀ n ∈ L₂, n.kind = k) : ∀ n ∈ L₁ ++ L₂, n.kind < k + 1 := by
  intro n hn
  rcases List.mem_append.1 hn with hn | hn
  · exact Nat.lt_succ_of_lt (hk₁ n hn)
  · exact (hk₂ n hn).symm ▸ Nat.lt_succ_self k

/-- The paths of a message's fields and extensions: one step of 2 or 6 below the message. -/
theorem Node.Located.field_paths {raw : FileProto} {m : Message}
    (hm : (Node.message m).Located raw) :
    ∃ r : MessageProto, (m.fields ++ m.extensions).map (·.path) =
      r.field.zipIdx.map (fun x => m.path ++ [2, x.2]) ++
        r.extension.zipIdx.map (fun x => m.path ++ [6, x.2]) := by
  obtain ⟨r, -, hfields, hexts, -⟩ := hm.message_members
  exact ⟨r, by rw [List.map_append, hfields, hexts, wrapFields_paths, wrapFields_paths]⟩

/-- The paths of a message's oneofs: one step of 8 below the message. -/
theorem Node.Located.oneof_paths {raw : FileProto} {m : Message}
    (hm : (Node.message m).Located raw) :
    ∃ r : MessageProto, m.oneofs.map (·.path) = r.oneofDecl.zipIdx.map (fun x => m.path ++ [8, x.2]) := by
  obtain ⟨r, -, -, -, honeofs⟩ := hm.message_members
  exact ⟨r, by rw [honeofs, wrapOneofs_paths]⟩

/-- No two nodes of a wrapped file share a path. -/
theorem File.nodes_paths_nodup {raw : FileProto} {u : File} (hm : u.messages = arenaMessages raw)
    (he : u.enums = arenaEnums raw) (hx : u.extensions = wrapFields raw.extension [] 7) :
    (u.nodes.map Node.path).Nodup := by
  have hloc := File.nodes_located hm he hx
  have hmsg : ∀ m ∈ u.messages, (Node.message m).Located raw :=
    fun m h => arenaMessages_located (hm ▸ h)
  have henum : ∀ e ∈ u.enums, (Node.enum e).Located raw := fun e h => arenaEnums_located (he ▸ h)
  -- within each kind, the paths are one step below pairwise distinct parents
  have hmsgs : (u.messages.map (·.path)).Nodup := by
    rw [hm, arenaMessages_paths]
    exact flatten_paths_nodup _
  have henums : (u.enums.map (·.path)).Nodup := he ▸ arenaEnums_paths_nodup raw
  have hvalues : (u.enums.flatMap fun e => e.values.map (·.path)).Nodup := by
    refine nodup_flatMap_steps (·.path) _ henums (fun e hE p hp => ?_) (fun e hE => ?_)
    all_goals obtain ⟨r, -, hv⟩ := (henum e hE).enum_values
    · rw [hv, wrapValues_paths] at hp
      obtain ⟨x, -, rfl⟩ := List.mem_map.1 hp
      exact ⟨2, x.2, rfl⟩
    · rw [hv, wrapValues_paths]
      exact steps_nodup _ _ _
  -- the fields and extensions of a message are one step of 2 or 6 below it, the extensions of
  -- the file one step of 7 below the file
  have hfieldShape : ∀ m ∈ u.messages, ∀ p ∈ (m.fields ++ m.extensions).map (·.path),
      ∃ t k, t ≠ 7 ∧ p = m.path ++ [t, k] := by
    intro m hM p hp
    obtain ⟨r, hr⟩ := (hmsg m hM).field_paths
    rw [hr, List.mem_append] at hp
    rcases hp with hp | hp <;> obtain ⟨x, -, rfl⟩ := List.mem_map.1 hp
    exacts [⟨2, x.2, by decide, rfl⟩, ⟨6, x.2, by decide, rfl⟩]
  have hfields : ((u.messages.flatMap fun m => (m.fields ++ m.extensions).map (·.path)) ++
      u.extensions.map (·.path)).Nodup := by
    rw [List.nodup_append, hx, wrapFields_paths]
    refine ⟨nodup_flatMap_steps (·.path) _ hmsgs (fun m hM p hp => ?_) (fun m hM => ?_),
      steps_nodup _ _ _, fun a ha b hb hab => ?_⟩
    · obtain ⟨t, k, -, rfl⟩ := hfieldShape m hM p hp
      exact ⟨t, k, rfl⟩
    · obtain ⟨r, hr⟩ := (hmsg m hM).field_paths
      rw [hr, List.nodup_append]
      exact ⟨steps_nodup _ _ _, steps_nodup _ _ _, steps_disjoint _ _ _ _ (by decide)⟩
    · obtain ⟨m, hM, ha⟩ := List.mem_flatMap.1 ha
      obtain ⟨t, k, ht, rfl⟩ := hfieldShape m hM a ha
      obtain ⟨x, -, rfl⟩ := List.mem_map.1 hb
      exact ht (append_step_inj.1 hab).2.1
  have honeofs : (u.messages.flatMap fun m => m.oneofs.map (·.path)).Nodup := by
    refine nodup_flatMap_steps (·.path) _ hmsgs (fun m hM p hp => ?_) (fun m hM => ?_)
    all_goals obtain ⟨r, hr⟩ := (hmsg m hM).oneof_paths
    · rw [hr] at hp
      obtain ⟨x, -, rfl⟩ := List.mem_map.1 hp
      exact ⟨8, x.2, rfl⟩
    · rw [hr]
      exact steps_nodup _ _ _
  -- across kinds, two nodes at one path would be wrapped from one declaration
  have kM : ∀ n ∈ u.messages.map Node.message, n.kind = 0 := List.forall_mem_map.2 fun _ _ => rfl
  have kE : ∀ n ∈ u.enums.map Node.enum, n.kind = 1 := List.forall_mem_map.2 fun _ _ => rfl
  have kV : ∀ n ∈ u.enums.flatMap (·.values.map Node.value), n.kind = 2 :=
    List.forall_mem_flatMap.2 fun _ _ => List.forall_mem_map.2 fun _ _ => rfl
  have kF : ∀ n ∈ u.messages.flatMap (fun m => (m.fields ++ m.extensions).map Node.field) ++
      u.extensions.map Node.field, n.kind = 3 :=
    List.forall_mem_append.2 ⟨List.forall_mem_flatMap.2 fun _ _ => List.forall_mem_map.2 fun _ _ => rfl,
      List.forall_mem_map.2 fun _ _ => rfl⟩
  have kO : ∀ n ∈ u.messages.flatMap (·.oneofs.map Node.oneof), n.kind = 4 :=
    List.forall_mem_flatMap.2 fun _ _ => List.forall_mem_map.2 fun _ _ => rfl
  have k₁ : ∀ n ∈ u.messages.map Node.message, n.kind < 1 := fun n h => by simp [kM n h]
  have k₂ := kind_lt_append k₁ kE
  have k₃ := kind_lt_append k₂ kV
  have k₄ := kind_lt_append k₃ kF
  rw [File.nodes] at hloc ⊢
  have hpre : ∀ {L P : List Node}, (∀ n ∈ L ++ P, n.Located raw) → ∀ n ∈ L, n.Located raw :=
    fun h n hn => h n (List.mem_append_left _ hn)
  refine Node.Located.nodup_append hloc ?_ ?_ k₄ kO
  · refine Node.Located.nodup_append (hpre hloc) ?_ ?_ k₃ kF
    · refine Node.Located.nodup_append (hpre (hpre hloc)) ?_ ?_ k₂ kV
      · refine Node.Located.nodup_append (hpre (hpre (hpre hloc))) ?_ ?_ k₁ kE
        · rw [List.map_map]
          exact hmsgs
        · rw [List.map_map]
          exact henums
      · simp only [List.map_flatMap, List.map_map]
        exact hvalues
    · rw [List.map_append, List.map_flatMap]
      simp only [List.map_map]
      exact hfields
  · simp only [List.map_flatMap, List.map_map]
    exact honeofs

/-! ## Comment keys

The comment index keys a location by its path, written as decimal numerals joined by commas.
Numerals are never empty and hold no comma, so splitting a key at its commas gives the path
back: different paths have different keys. -/

/-- A decimal numeral holds no comma. -/
theorem comma_not_mem_toString (a : Int) : ',' ∉ (toString a).toList := by
  have hdigits : ∀ n : Nat, ',' ∉ (Nat.repr n).toList := fun n h => by
    rw [Nat.toList_repr] at h
    exact absurd (Nat.isDigit_of_mem_toDigits (by decide) (by decide) h) (by decide)
  cases a with
  | ofNat n => exact hdigits n
  | negSucc n =>
    show ',' ∉ ("-" ++ Nat.repr (n + 1)).toList
    rw [String.toList_append, List.mem_append, not_or]
    exact ⟨by simp, hdigits (n + 1)⟩

/-- A decimal numeral is never empty. -/
theorem toString_int_ne_empty (a : Int) : toString a ≠ "" := by
  cases a with
  | ofNat n => exact Nat.repr_ne_empty
  | negSucc n =>
    show "-" ++ Nat.repr (n + 1) ≠ ""
    simp

/-- Splitting a path's key at its commas gives the numerals of the path back; the empty path
has the empty key. -/
theorem pathKey_split (p : List Int) :
    ((pathKey p).split ',').toList.map (·.copy) = if p = [] then [""] else p.map toString := by
  have hsep : "," = String.singleton ',' := rfl
  rw [pathKey, hsep, String.toList_split_intercalate
    (List.forall_mem_map.2 fun a _ => comma_not_mem_toString a)]
  simp only [List.map_eq_nil_iff]

/-- Different paths have different keys. -/
theorem pathKey_injective : Function.Injective pathKey := by
  intro p q h
  have hsplit := pathKey_split p
  rw [h, pathKey_split q] at hsplit
  -- a nonempty path splits into nonempty numerals, never into the one empty piece
  have hne : ∀ r : List Int, [""] ≠ r.map toString := fun r hr => by
    obtain ⟨a, -, ha⟩ := List.mem_map.1 (hr ▸ List.mem_singleton_self "")
    exact toString_int_ne_empty a ha
  by_cases hp : p = [] <;> by_cases hq : q = [] <;> simp only [hp, hq, if_true, if_false] at hsplit
  · rw [hp, hq]
  · exact absurd hsplit.symm (hne q)
  · exact absurd hsplit (hne p)
  · exact (List.map_injective_iff.2 (fun a b h => Int.repr_injective h) hsplit).symm

/-- The comments of the first location at `path` that carries a leading or a trailing
comment. -/
def commentsFor (locs : List Location) (path : List Int) : Option Comments :=
  (locs.find? fun loc =>
      (loc.leadingComments.isSome || loc.trailingComments.isSome) && loc.path == path).map
    fun loc => { leading := loc.leadingComments, trailing := loc.trailingComments }

/-- A fold that adds to a table at most the entry of the location it reads, under `key`, finds
under `key` what the table had, or else the entry of the first location that has one. -/
theorem lookup_foldl {f : List (String × Comments) → Location → List (String × Comments)}
    {P : Location → Bool} {c : Location → Comments} (key : String)
    (hf : ∀ acc loc, (f acc loc).lookup key = (acc.lookup key).or (if P loc then some (c loc) else none)) :
    ∀ (locs : List Location) (acc : List (String × Comments)),
      (locs.foldl f acc).lookup key = (acc.lookup key).or ((locs.find? P).map c) := by
  intro locs
  induction locs with
  | nil => simp
  | cons loc locs ih =>
    intro acc
    rw [List.foldl_cons, ih, hf, List.find?_cons]
    cases P loc <;> simp

/-- The comment index finds under a key the comments of the first commented location with
that key. -/
theorem lookup_indexComments (locs : List Location) (key : String) :
    (indexComments locs).lookup key =
      (locs.find? fun loc => (loc.leadingComments.isSome || loc.trailingComments.isSome) &&
        pathKey loc.path == key).map
        fun loc => { leading := loc.leadingComments, trailing := loc.trailingComments } := by
  unfold indexComments
  rw [lookup_foldl key ?_ locs [], List.lookup_nil, Option.none_or]
  intro acc loc
  dsimp only
  split
  · rename_i hnone
    have hP : (loc.leadingComments.isSome || loc.trailingComments.isSome) = false := by
      cases h₁ : loc.leadingComments <;> cases h₂ : loc.trailingComments <;> simp_all
    simp [hP]
  · rename_i hsome
    have hP : (loc.leadingComments.isSome || loc.trailingComments.isSome) = true := by
      cases h₁ : loc.leadingComments <;> cases h₂ : loc.trailingComments <;> simp_all
    rw [hP, Bool.true_and]
    -- a key already in the table keeps its first entry
    split
    · rename_i hfound
      by_cases hkey : pathKey loc.path = key
      · subst hkey
        obtain ⟨x, hx⟩ := Option.isSome_iff_exists.1 hfound
        simp [hx]
      · simp [hkey]
    · rw [List.lookup_append]
      by_cases hkey : pathKey loc.path = key
      · simp [hkey]
      · have hb : (key == pathKey loc.path) = false := beq_false_of_ne (Ne.symm hkey)
        simp [hkey, hb, List.lookup_cons]

/-- Comparing keys compares paths. -/
theorem pathKey_beq (p q : List Int) : (pathKey p == pathKey q) = (p == q) :=
  Bool.eq_iff_iff.2 (by simp [pathKey_injective.eq_iff])

/-- The comments of a wrapped file at a path are those of the first location at that path
that carries a leading or a trailing comment. -/
theorem File.commentsAt_eq {raw : FileProto} {u : File}
    (hc : u.comments = indexComments (raw.sourceCodeInfo.getD [])) (path : List Nat) :
    u.commentsAt path = commentsFor (raw.sourceCodeInfo.getD []) (path.map Int.ofNat) := by
  rw [File.commentsAt, hc, lookup_indexComments, commentsFor]
  simp only [pathKey_beq]

/-! ## Name chains -/

/-- `typeName` is the chain of simple names down to a declaration named `name` with parent
`parent` in `u`: the name alone at the top of the file, or the parent message's chain followed
by the name. -/
def File.ChainedName (u : File) (parent : Option Nat) (name : String) (typeName : List String) :
    Prop :=
  match parent with
  | none => typeName = [name]
  | some p => ∃ pm, u.messages[p]? = some pm ∧ typeName = pm.typeName ++ [name]

/-- A top-level message of the walk is named by its own name alone. -/
theorem flatten_typeName_root {l : List MessageProto} {e : FlatMessage × Nat}
    (he : e ∈ (flatten l).zipIdx) (hroot : e.1.parent = none) :
    e.1.typeName = [e.1.raw.name.getD ""] := by
  have hmem : e.1 ∈ (withParent none (flatten l).zipIdx).map (·.1) :=
    List.mem_map_of_mem (List.mem_filter.2 ⟨he, by simp [hroot]⟩)
  rw [flatten_roots] at hmem
  obtain ⟨r, -, hr⟩ := List.mem_map.1 hmem
  rw [← hr]
  rfl

/-- A nested message of the walk is named by its parent's chain followed by its own name. -/
theorem flatten_typeName_child {l : List MessageProto} {e : FlatMessage × Nat}
    (he : e ∈ (flatten l).zipIdx) {p : Nat} (hp : e.1.parent = some p) :
    ∃ pf, (flatten l)[p]? = some pf ∧ e.1.typeName = pf.typeName ++ [e.1.raw.name.getD ""] := by
  have hlt : p < (flatten l).length := by
    have hbelow := flatten_parent_lt l e he p hp
    have hin := (List.mem_zipIdx he).2.1
    omega
  refine ⟨(flatten l)[p], List.getElem?_eq_getElem hlt, ?_⟩
  have hpe : ((flatten l)[p], p) ∈ (flatten l).zipIdx :=
    List.mem_zipIdx_iff_getElem?.2 (List.getElem?_eq_getElem hlt)
  have hmem : e.1 ∈ (withParent (some p) (flatten l).zipIdx).map (·.1) :=
    List.mem_map_of_mem (List.mem_filter.2 ⟨he, by simp [hp]⟩)
  rw [flatten_children l _ hpe] at hmem
  obtain ⟨r, -, hr⟩ := List.mem_map.1 hmem
  rw [← hr]
  rfl

/-- Every message of a wrapped file is named by the chain of names down to it, and its full
name is that chain under the package. -/
theorem arenaMessages_names {raw : FileProto} {u : File} (hm : u.messages = arenaMessages raw)
    (hpkg : u.package = raw.package.getD "") :
    ∀ m ∈ u.messages, u.ChainedName m.parent m.name m.typeName ∧
      m.fullName = fullName u.package m.typeName := by
  intro m hM
  obtain ⟨i, hi⟩ := List.mem_iff_getElem?.1 (hm ▸ hM)
  obtain ⟨f, hf, hwrap, -⟩ := mem_arenaMessages hi
  have hname : m.name = f.raw.name.getD "" := congrArg Message.name hwrap
  have hchain : m.typeName = f.typeName := congrArg Message.typeName hwrap
  have hparent : m.parent = f.parent := congrArg Message.parent hwrap
  have hfull : m.fullName = fullName (raw.package.getD "") f.typeName :=
    congrArg Message.fullName hwrap
  refine ⟨?_, by rw [hfull, hpkg, hchain]⟩
  rw [hparent, hname, hchain]
  cases hq : f.parent with
  | none => exact flatten_typeName_root hf hq
  | some p =>
    obtain ⟨pf, hpf, hnames⟩ := flatten_typeName_child hf hq
    refine ⟨_, by rw [hm, getElem?_arenaMessages, hpf]; rfl, ?_⟩
    exact hnames

/-- Every enum of a wrapped file is named by the chain of names down to it, and its full name
is that chain under the package. -/
theorem arenaEnums_names {raw : FileProto} {u : File} (hm : u.messages = arenaMessages raw)
    (he : u.enums = arenaEnums raw) (hpkg : u.package = raw.package.getD "") :
    ∀ e ∈ u.enums, u.ChainedName e.parent e.name e.typeName ∧
      e.fullName = fullName u.package e.typeName := by
  intro e hE
  rw [he, arenaEnums] at hE
  rcases List.mem_append.1 hE with hE | hE
  · obtain ⟨⟨r, k⟩, -, rfl⟩ := List.mem_map.1 hE
    exact ⟨rfl, by rw [hpkg]; rfl⟩
  · obtain ⟨⟨f, i⟩, hf, hE⟩ := List.mem_flatMap.1 hE
    obtain ⟨⟨r, k⟩, -, rfl⟩ := List.mem_map.1 hE
    refine ⟨⟨_, by rw [hm, getElem?_arenaMessages, List.mem_zipIdx_iff_getElem?.1 hf]; rfl, rfl⟩,
      by rw [hpkg]; rfl⟩

/-! ## Wrapping a file -/

/-- Wrapping a file descriptor succeeds, and every node of the result sits at the path of the
declaration it was wrapped from, no two nodes share a path, the comment index keys paths
injectively and answers each path with the first commented location at it, and every message
and enum is named by the chain of names down to it under the package. -/
theorem File.wrap_sourcePaths (id : Nat) (raw : FileProto) :
    ∃ u, File.wrap id raw = .ok u ∧ (∀ n ∈ u.nodes, n.Located raw) ∧
      (u.nodes.map Node.path).Nodup ∧ Function.Injective pathKey ∧
      (∀ path, u.commentsAt path =
        commentsFor (raw.sourceCodeInfo.getD []) (path.map Int.ofNat)) ∧
      (∀ m ∈ u.messages, u.ChainedName m.parent m.name m.typeName ∧
        m.fullName = fullName u.package m.typeName) ∧
      ∀ e ∈ u.enums, u.ChainedName e.parent e.name e.typeName ∧
        e.fullName = fullName u.package e.typeName := by
  obtain ⟨u, hwrap, hm, he, hx, hpkg, hc⟩ := File.wrap_parts id raw
  exact ⟨u, hwrap, File.nodes_located hm he hx, File.nodes_paths_nodup hm he hx,
    pathKey_injective, File.commentsAt_eq hc, arenaMessages_names hm hpkg,
    arenaEnums_names hm he hpkg⟩

end Schema

end BeanCodegen
