import BeanCodegen.Schema.Build
/-! # The message arena

Flattening a file's message tree lists it in pre-order, and every message names as parent
the message declared around it. Each message is followed by the entries of its nested
messages, so the messages with a given parent are exactly that parent's declarations, in
declaration order.
-/

namespace BeanCodegen.Schema

open BeanCodegen.Descriptor

/-- The pre-order of a forest of message declarations. -/
def preorder : List MessageProto → List MessageProto
  | [] => []
  | m :: rest => m :: preorder m.nestedType ++ preorder rest
termination_by l => sizeOf l
decreasing_by
  all_goals simp_wf
  all_goals first
    | omega
    | (cases m; simp only [MessageProto.mk.sizeOf_spec]; omega)

/-- The arena entry of the `i`-th of a list of sibling declarations. -/
def FlatMessage.sibling (parent : Option Nat) (parentPath : List Nat)
    (parentNames : List String) (tag : Nat) (raw : MessageProto) (i : Nat) : FlatMessage :=
  { raw, parent, index := i, path := parentPath ++ [tag, i],
    typeName := parentNames ++ [raw.name.getD ""] }

/-- The entries `flattenFrom` appends to an arena of `base` entries for a list of siblings. -/
def walkFrom (parent : Option Nat) (parentPath : List Nat) (parentNames : List String)
    (tag base : Nat) : List MessageProto → Nat → List FlatMessage
  | [], _ => []
  | raw :: rest, i =>
    let inner := walkFrom (some base) (parentPath ++ [tag, i])
      (parentNames ++ [raw.name.getD ""]) 3 (base + 1) raw.nestedType 0
    FlatMessage.sibling parent parentPath parentNames tag raw i :: inner ++
      walkFrom parent parentPath parentNames tag (base + 1 + inner.length) rest (i + 1)
termination_by l => sizeOf l
decreasing_by
  all_goals simp_wf
  all_goals first
    | omega
    | (cases raw; simp only [MessageProto.mk.sizeOf_spec]; omega)

theorem walkFrom_nil (parent : Option Nat) (parentPath : List Nat) (parentNames : List String)
    (tag base i : Nat) : walkFrom parent parentPath parentNames tag base [] i = [] := by
  rw [walkFrom]

/-- A walk lists the first sibling, the walk of its nested messages, then the walk of the later
siblings, numbered after both. -/
theorem walkFrom_cons (parent : Option Nat) (parentPath : List Nat) (parentNames : List String)
    (tag base : Nat) (raw : MessageProto) (rest : List MessageProto) (i : Nat) :
    walkFrom parent parentPath parentNames tag base (raw :: rest) i =
      FlatMessage.sibling parent parentPath parentNames tag raw i ::
        walkFrom (some base) (parentPath ++ [tag, i]) (parentNames ++ [raw.name.getD ""]) 3
          (base + 1) raw.nestedType 0 ++
        walkFrom parent parentPath parentNames tag
          (base + 1 + (walkFrom (some base) (parentPath ++ [tag, i])
            (parentNames ++ [raw.name.getD ""]) 3 (base + 1) raw.nestedType 0).length)
          rest (i + 1) := by
  rw [walkFrom]

/-- Induction along a walk of siblings: a property of the walk of no siblings, passed from the
walk of the first sibling's nested messages (`inner`) and the walk of the later siblings to the
whole walk, holds of every walk. The walk lemmas below all go through it. -/
theorem walkFrom_induction
    {motive : Option Nat → List Nat → List String → Nat → Nat → List MessageProto → Nat → Prop}
    (nil : ∀ parent parentPath parentNames tag base i,
      motive parent parentPath parentNames tag base [] i)
    (cons : ∀ parent parentPath parentNames tag base raw rest i,
      let inner := walkFrom (some base) (parentPath ++ [tag, i])
        (parentNames ++ [raw.name.getD ""]) 3 (base + 1) raw.nestedType 0
      walkFrom parent parentPath parentNames tag base (raw :: rest) i =
          FlatMessage.sibling parent parentPath parentNames tag raw i :: inner ++
            walkFrom parent parentPath parentNames tag (base + 1 + inner.length) rest (i + 1) →
        motive (some base) (parentPath ++ [tag, i]) (parentNames ++ [raw.name.getD ""]) 3
          (base + 1) raw.nestedType 0 →
        motive parent parentPath parentNames tag (base + 1 + inner.length) rest (i + 1) →
        motive parent parentPath parentNames tag base (raw :: rest) i)
    (parent : Option Nat) (parentPath : List Nat) (parentNames : List String) (tag base : Nat)
    (l : List MessageProto) (i : Nat) : motive parent parentPath parentNames tag base l i :=
  walkFrom.induct motive nil
    (fun parent parentPath parentNames tag base raw rest i =>
      cons parent parentPath parentNames tag base raw rest i
        (walkFrom_cons parent parentPath parentNames tag base raw rest i))
    parent parentPath parentNames tag base l i

theorem flattenFrom_toList (parent : Option Nat) (parentPath : List Nat)
    (parentNames : List String) (tag : Nat) (out : Array FlatMessage) (l : List MessageProto)
    (i : Nat) :
    (flattenFrom parent parentPath parentNames tag out l i).toList =
      out.toList ++ walkFrom parent parentPath parentNames tag out.size l i := by
  fun_induction flattenFrom parent parentPath parentNames tag out l i with
  | case1 => simp [walkFrom_nil]
  | case2 parent parentPath parentNames tag out raw rest i path names me out₁ out₂ _ ih ih' =>
    have hsize := congrArg List.length ih
    simp only [Array.length_toList, Array.toList_push, List.length_append,
      List.length_singleton] at hsize
    rw [ih', show out₂ = flattenFrom (some me) path names 3 out₁ raw.nestedType 0 from rfl, ih,
      hsize, walkFrom_cons]
    simp [FlatMessage.sibling, Nat.add_assoc]

theorem flatten_eq_walkFrom (l : List MessageProto) : flatten l = walkFrom none [] [] 4 0 l 0 := by
  simp [flatten, flattenFrom_toList]

/-- The entries of an indexed arena segment whose parent is `t`, in arena order. -/
def withParent (t : Option Nat) (xs : List (FlatMessage × Nat)) : List (FlatMessage × Nat) :=
  xs.filter fun e => e.1.parent = t

theorem withParent_append (t : Option Nat) (xs ys : List (FlatMessage × Nat)) :
    withParent t (xs ++ ys) = withParent t xs ++ withParent t ys := List.filter_append ..

theorem withParent_cons (t : Option Nat) (e : FlatMessage × Nat)
    (xs : List (FlatMessage × Nat)) :
    withParent t (e :: xs) = if e.1.parent = t then e :: withParent t xs else withParent t xs := by
  simp [withParent, List.filter_cons]

theorem withParent_eq_nil {t : Option Nat} {xs : List (FlatMessage × Nat)}
    (h : ∀ e ∈ xs, e.1.parent ≠ t) : withParent t xs = [] :=
  List.filter_eq_nil_iff.2 fun e he => by simpa using h e he

theorem walkFrom_raw (parent : Option Nat) (parentPath : List Nat) (parentNames : List String)
    (tag base : Nat) (l : List MessageProto) (i : Nat) :
    (walkFrom parent parentPath parentNames tag base l i).map (·.raw) = preorder l := by
  induction parent, parentPath, parentNames, tag, base, l, i using walkFrom_induction with
  | nil => simp [walkFrom_nil, preorder]
  | cons parent parentPath parentNames tag base raw rest i inner hcons ih ih' =>
    simp [hcons, ih, ih', preorder, FlatMessage.sibling, inner]

/-- An entry of a walk names the walk's parent, or an entry of the walk before it. -/
theorem walkFrom_parent (parent : Option Nat) (parentPath : List Nat)
    (parentNames : List String) (tag base : Nat) (l : List MessageProto) (i : Nat) :
    ∀ e ∈ (walkFrom parent parentPath parentNames tag base l i).zipIdx base,
      e.1.parent = parent ∨ ∃ q, e.1.parent = some q ∧ base ≤ q ∧ q < e.2 := by
  induction parent, parentPath, parentNames, tag, base, l, i using walkFrom_induction with
  | nil => simp [walkFrom_nil]
  | cons parent parentPath parentNames tag base raw rest i inner hcons ih ih' =>
    rintro ⟨x, c⟩ h
    simp only [hcons, List.cons_append, List.zipIdx_cons, List.zipIdx_append, List.mem_cons,
      List.mem_append] at h
    rcases h with h | h | h
    · simp only [Prod.mk.injEq] at h
      obtain ⟨rfl, rfl⟩ := h
      exact .inl rfl
    · have hc := (List.mem_zipIdx h).1
      rcases ih _ h with hx | ⟨q, hx, hq, hqc⟩
      · exact .inr ⟨base, hx, Nat.le_refl _, by omega⟩
      · exact .inr ⟨q, hx, by omega, hqc⟩
    · rcases ih' _ h with hx | ⟨q, hx, hq, hqc⟩
      · exact .inl hx
      · exact .inr ⟨q, hx, by omega, hqc⟩

theorem withParent_walkFrom_eq_nil {parent : Option Nat} {parentPath : List Nat}
    {parentNames : List String} {tag base : Nat} {l : List MessageProto} {i : Nat}
    {t : Option Nat}
    (ht : t ≠ parent)
    (hout : ∀ q, t = some q →
      q < base ∨ base + (walkFrom parent parentPath parentNames tag base l i).length ≤ q) :
    withParent t ((walkFrom parent parentPath parentNames tag base l i).zipIdx base) = [] := by
  refine withParent_eq_nil fun ⟨x, c⟩ h hx => ?_
  have hc := (List.mem_zipIdx h).2.1
  rcases walkFrom_parent _ _ _ _ _ _ _ _ h with hp | ⟨q, hq, hbq, hqc⟩
  · exact ht (hx ▸ hp)
  · rcases hout q (hx ▸ hq) with h' | h' <;> omega

/-- The entries of a walk that name its parent are the walk's own siblings, in order. -/
theorem withParent_walkFrom_roots (parent : Option Nat) (parentPath : List Nat)
    (parentNames : List String) (tag base : Nat) (l : List MessageProto) (i : Nat)
    (hp : ∀ q, parent = some q → q < base) :
    (withParent parent ((walkFrom parent parentPath parentNames tag base l i).zipIdx base)).map
        (·.1) =
      (l.zipIdx i).map fun r => FlatMessage.sibling parent parentPath parentNames tag r.1 r.2 := by
  induction parent, parentPath, parentNames, tag, base, l, i using walkFrom_induction with
  | nil => simp [walkFrom_nil, withParent]
  | cons parent parentPath parentNames tag base raw rest i inner hcons _ ih' =>
    have hinner : withParent parent (inner.zipIdx (base + 1)) = [] :=
      withParent_walkFrom_eq_nil (fun h => by have := hp base h; omega)
        fun q hq => .inl (by have := hp q hq; omega)
    have hrest := ih' fun q hq => by have := hp q hq; omega
    rw [hcons, List.cons_append, List.zipIdx_cons, List.zipIdx_append, withParent_cons,
      withParent_append, hinner]
    simp [FlatMessage.sibling, hrest]

/-- The entries of a walk that name an entry of the walk as parent are the walk of that
entry's nested messages, in order. -/
theorem withParent_walkFrom_children (parent : Option Nat) (parentPath : List Nat)
    (parentNames : List String) (tag base : Nat) (l : List MessageProto) (i : Nat)
    (hp : ∀ q, parent = some q → q < base) :
    ∀ e ∈ (walkFrom parent parentPath parentNames tag base l i).zipIdx base,
      (withParent (some e.2) ((walkFrom parent parentPath parentNames tag base l i).zipIdx
          base)).map (·.1) =
        (e.1.raw.nestedType.zipIdx).map fun r =>
          FlatMessage.sibling (some e.2) e.1.path e.1.typeName 3 r.1 r.2 := by
  induction parent, parentPath, parentNames, tag, base, l, i using walkFrom_induction with
  | nil => simp [walkFrom_nil]
  | cons parent parentPath parentNames tag base raw rest i inner hcons ih ih' =>
    have hp' : ∀ q, some base = some q → q < base + 1 := by rintro q ⟨⟩; omega
    have hrest : ∀ q, parent = some q → q < base + 1 + inner.length := fun q hq => by
      have := hp q hq; omega
    rintro ⟨x, c⟩ h
    have hne : ∀ c, base ≤ c → parent ≠ some c := fun c hc hpc => by
      have := hp c hpc; omega
    rw [hcons, List.cons_append, List.zipIdx_cons, List.zipIdx_append] at h ⊢
    simp only [List.mem_cons, List.mem_append] at h
    rcases h with h | h | h
    · simp only [Prod.mk.injEq] at h
      obtain ⟨rfl, rfl⟩ := h
      have hroots := withParent_walkFrom_roots (some c) (parentPath ++ [tag, i])
        (parentNames ++ [raw.name.getD ""]) 3 (c + 1) raw.nestedType 0 hp'
      have hrest' : withParent (some c) ((walkFrom parent parentPath parentNames tag
          (c + 1 + inner.length) rest (i + 1)).zipIdx (c + 1 + inner.length)) = [] :=
        withParent_walkFrom_eq_nil (Ne.symm (hne c (Nat.le_refl _)))
          fun q hq => .inl (by cases hq; omega)
      simp only [withParent_cons, withParent_append, FlatMessage.sibling] at hroots hrest' ⊢
      simp [hne c (Nat.le_refl _), inner, hroots, hrest']
    · have hc := List.mem_zipIdx h
      have hrest' : withParent (some c) ((walkFrom parent parentPath parentNames tag
          (base + 1 + inner.length) rest (i + 1)).zipIdx (base + 1 + inner.length)) = [] :=
        withParent_walkFrom_eq_nil (Ne.symm (hne c (by omega)))
          fun q hq => .inl (by cases hq; omega)
      simp [withParent_cons, withParent_append, FlatMessage.sibling, hne c (by omega), hrest',
        inner, ih hp' _ h]
    · have hc := List.mem_zipIdx h
      have hinner : withParent (some c) (inner.zipIdx (base + 1)) = [] :=
        withParent_walkFrom_eq_nil (by simp; omega) fun q hq => .inr (by cases hq; exact hc.1)
      simp [withParent_cons, withParent_append, FlatMessage.sibling, hne c (by omega), hinner,
        ih' hrest _ h]

theorem flatten_raw (l : List MessageProto) : (flatten l).map (·.raw) = preorder l := by
  rw [flatten_eq_walkFrom, walkFrom_raw]

theorem flatten_parent_lt (l : List MessageProto) :
    ∀ e ∈ (flatten l).zipIdx, ∀ q, e.1.parent = some q → q < e.2 := by
  intro e he q hq
  rw [flatten_eq_walkFrom] at he
  rcases walkFrom_parent _ _ _ _ _ _ _ e he with h | ⟨q', h, _, hlt⟩
  · simp [h] at hq
  · exact (Option.some.inj (h.symm.trans hq)) ▸ hlt

theorem flatten_roots (l : List MessageProto) :
    (withParent none (flatten l).zipIdx).map (·.1) =
      l.zipIdx.map fun r => FlatMessage.sibling none [] [] 4 r.1 r.2 := by
  rw [flatten_eq_walkFrom]
  exact withParent_walkFrom_roots _ _ _ _ _ _ _ (by simp)

theorem flatten_children (l : List MessageProto) :
    ∀ e ∈ (flatten l).zipIdx, (withParent (some e.2) (flatten l).zipIdx).map (·.1) =
      e.1.raw.nestedType.zipIdx.map fun r =>
        FlatMessage.sibling (some e.2) e.1.path e.1.typeName 3 r.1 r.2 := by
  rw [flatten_eq_walkFrom]
  exact withParent_walkFrom_children _ _ _ _ _ _ _ (by simp)

theorem mem_childrenOf {parents : List (Option Nat)} {i c : Nat} :
    c ∈ childrenOf parents i ↔ parents[c]? = some (some i) := by
  simp [childrenOf, List.mem_zipIdx_iff_getElem?]

theorem childrenOf_sorted (parents : List (Option Nat)) (i : Nat) :
    (childrenOf parents i).Pairwise (· < ·) := by
  have h : (parents.zipIdx.map Prod.snd).Pairwise (· < ·) := by
    simpa using (List.pairwise_lt_range' : (List.range' 0 parents.length).Pairwise (· < ·))
  exact h.sublist ((List.filter_sublist).map _)

theorem childrenOf_map {α : Type} (parent : α → Option Nat) (xs : List α) (i : Nat) :
    childrenOf (xs.map parent) i = (xs.zipIdx.filter fun e => parent e.1 = some i).map (·.2) := by
  simp [childrenOf, List.zipIdx_map, List.filter_map, Function.comp_def]

theorem firstDangling_eq_none {names : List String} {parents : List (Option Nat)} {count : Nat}
    (h : ∀ p ∈ parents, ∀ q, p = some q → q < count) :
    firstDangling names parents count = none := by
  refine List.findSome?_eq_none_iff.2 fun ⟨n, p⟩ hp => ?_
  match p, h p (List.of_mem_zip hp).2 with
  | none, _ => rfl
  | some q, hq => simp [Nat.not_le.2 (hq q rfl)]

theorem mapM_eq_ok {α β ε : Type} {f : α → Except ε β} {g : α → β} {l : List α}
    (h : ∀ x ∈ l, f x = .ok (g x)) : l.mapM f = .ok (l.map g) := by
  induction l with
  | nil => rfl
  | cons x l ih =>
    simp only [List.mapM_cons, h x List.mem_cons_self, ih fun y hy => h y (List.mem_cons_of_mem _ hy)]
    rfl

theorem linkNested_eq_ok {ms : List Message}
    (hpar : ∀ m ∈ ms, ∀ q, m.parent = some q → q < ms.length)
    (hcount : ∀ e ∈ ms.zipIdx,
      (childrenOf (ms.map (·.parent)) e.2).length = e.1.declaredNested) :
    linkNested ms =
      .ok (ms.zipIdx.map fun e => { e.1 with nested := childrenOf (ms.map (·.parent)) e.2 }) := by
  have hd : firstDangling (ms.map (·.fullName)) (ms.map (·.parent)) ms.length = none :=
    firstDangling_eq_none (by simpa using hpar)
  simp only [linkNested, hd]
  exact mapM_eq_ok fun e he => by simp [hcount e he]

theorem linkEnums_eq_ok {ms : List Message} {es : List EnumType}
    (hpar : ∀ e ∈ es, ∀ q, e.parent = some q → q < ms.length)
    (hcount : ∀ e ∈ ms.zipIdx,
      (childrenOf (es.map (·.parent)) e.2).length = e.1.declaredEnums) :
    linkEnums ms es =
      .ok (ms.zipIdx.map fun e => { e.1 with enums := childrenOf (es.map (·.parent)) e.2 }) := by
  have hd : firstDangling (es.map (·.fullName)) (es.map (·.parent)) ms.length = none :=
    firstDangling_eq_none (by simpa using hpar)
  simp only [linkEnums, hd]
  exact mapM_eq_ok fun e he => by simp [hcount e he]

theorem flatMap_zipIdx_single {α β : Type} (g : α × Nat → List β) :
    ∀ (xs : List α) (n i : Nat) (hi : i < xs.length),
      (xs.zipIdx n).flatMap (fun e => if e.2 = n + i then g e else []) = g (xs[i], n + i)
  | [], _, _, hi => absurd hi (Nat.not_lt_zero _)
  | x :: xs, n, 0, _ => by
    have hrest : (xs.zipIdx (n + 1)).flatMap (fun e => if e.2 = n + 0 then g e else []) = [] :=
      List.flatMap_eq_nil_iff.2 fun e he => if_neg (by have := (List.mem_zipIdx he).1; omega)
    rw [List.zipIdx_cons, List.flatMap_cons, hrest]
    simp
  | x :: xs, n, i + 1, hi => by
    have ih := flatMap_zipIdx_single g xs (n + 1) i (by simpa using hi)
    rw [show n + 1 + i = n + (i + 1) by omega] at ih
    simp [List.zipIdx_cons, ih]

theorem getElem?_of_mem_filter_zipIdx {α : Type} {xs : List α} {p : α × Nat → Bool}
    {e : α × Nat} (h : e ∈ xs.zipIdx.filter p) : xs[e.2]? = some e.1 :=
  List.mem_zipIdx_iff_getElem?.1 (List.mem_filter.1 h).1

theorem map_getElem?_filter_zipIdx {α : Type} (xs : List α) (p : α × Nat → Bool) :
    ((xs.zipIdx.filter p).map (·.2)).map (xs[·]?) = (xs.zipIdx.filter p).map (some ·.1) := by
  rw [List.map_map]
  exact List.map_congr_left fun e he => getElem?_of_mem_filter_zipIdx he

theorem wrapMessage_parent (pkg : String) (flat : List FlatMessage) (f : FlatMessage) :
    (wrapMessage pkg flat f).parent = f.parent := rfl

theorem wrapEnum_parent (e : EnumProto) (pkg : String) (parent : Option (Nat × List String))
    (i : Nat) (path : List Nat) : (wrapEnum e pkg parent i path).parent = parent.map Prod.fst :=
  rfl

/-- The enums the builder wraps for the `m`-th message of the walk. -/
def FlatMessage.enums (pkg : String) (f : FlatMessage) (m : Nat) : List EnumType :=
  f.raw.enumType.zipIdx.map fun (e, i) => wrapEnum e pkg (some (m, f.typeName)) i (f.path ++ [4, i])

theorem FlatMessage.parent_of_mem_enums {pkg : String} {f : FlatMessage} {m : Nat}
    {e : EnumType} (h : e ∈ f.enums pkg m) : e.parent = some m := by
  obtain ⟨⟨r, i⟩, -, rfl⟩ := List.mem_map.1 h
  rfl

/-- Among the enums of every message of a walk, those under message `i` are its own. -/
theorem filter_flatMap_enums (pkg : String) (flat : List FlatMessage) (i : Nat)
    (hi : i < flat.length) :
    (flat.zipIdx.flatMap fun e => e.1.enums pkg e.2).filter (·.parent = some i) =
      flat[i].enums pkg i := by
  have hblock : ∀ e ∈ flat.zipIdx, (e.1.enums pkg e.2).filter (·.parent = some i) =
      if e.2 = 0 + i then e.1.enums pkg e.2 else [] := by
    intro e _
    split
    · exact List.filter_eq_self.2 fun x hx => by simp [FlatMessage.parent_of_mem_enums hx, *]
    · exact List.filter_eq_nil_iff.2 fun x hx => by
        simp [FlatMessage.parent_of_mem_enums hx]
        omega
  rw [List.filter_flatMap, List.flatMap_def, List.map_congr_left hblock, ← List.flatMap_def]
  simpa using flatMap_zipIdx_single (fun e => e.1.enums pkg e.2) flat 0 i hi

/-- The enums of a file in the builder's order: the file's own, then each message's in arena
order. -/
def arenaEnums (raw : FileProto) : List EnumType :=
  raw.enumType.zipIdx.map (fun r => wrapEnum r.1 (raw.package.getD "") none r.2 [5, r.2]) ++
    (flatten raw.messageType).zipIdx.flatMap fun e => e.1.enums (raw.package.getD "") e.2

/-- The messages of a file with their nested messages linked. -/
def nestedLinked (raw : FileProto) : List Message :=
  (flatten raw.messageType).zipIdx.map fun e =>
    { wrapMessage (raw.package.getD "") (flatten raw.messageType) e.1 with
      nested := childrenOf ((flatten raw.messageType).map FlatMessage.parent) e.2 }

/-- The messages of a file as the builder links them. -/
def arenaMessages (raw : FileProto) : List Message :=
  (nestedLinked raw).zipIdx.map fun e =>
    { e.1 with enums := childrenOf ((arenaEnums raw).map EnumType.parent) e.2 }

theorem map_fst_filter_zipIdx {α : Type} (p : α → Bool) (xs : List α) :
    ((xs.zipIdx.filter fun e => p e.1).map (·.1)) = xs.filter p := by
  calc (xs.zipIdx.filter fun e => p e.1).map (·.1)
      = (xs.zipIdx.map (·.1)).filter p := by rw [List.filter_map]; rfl
    _ = xs.filter p := by rw [List.zipIdx_map_fst]

theorem childrenOf_flatten (l : List MessageProto) (i : Nat) :
    childrenOf ((flatten l).map (·.parent)) i =
      (withParent (some i) (flatten l).zipIdx).map (·.2) := by
  simp [childrenOf_map, withParent]

theorem length_childrenOf_flatten (l : List MessageProto) :
    ∀ e ∈ (flatten l).zipIdx,
      (childrenOf ((flatten l).map (·.parent)) e.2).length = e.1.raw.nestedType.length := by
  intro e he
  have h := congrArg List.length (flatten_children l e he)
  simpa [childrenOf_flatten] using h

theorem flatten_parent_lt_length {l : List MessageProto} {f : FlatMessage}
    (hf : f ∈ flatten l) : ∀ q, f.parent = some q → q < (flatten l).length := by
  intro q hq
  obtain ⟨i, hi, rfl⟩ := List.getElem_of_mem hf
  have := flatten_parent_lt l (_, i) (List.mem_zipIdx_iff_getElem?.2 (by simp [hi])) q hq
  omega

theorem filter_arenaEnums (raw : FileProto) (i : Nat) (hi : i < (flatten raw.messageType).length) :
    (arenaEnums raw).filter (·.parent = some i) =
      (flatten raw.messageType)[i].enums (raw.package.getD "") i := by
  rw [arenaEnums, List.filter_append, filter_flatMap_enums _ _ i hi, List.filter_eq_nil_iff.2,
    List.nil_append]
  rintro e he
  obtain ⟨r, -, rfl⟩ := List.mem_map.1 he
  simp [wrapEnum_parent]

theorem childrenOf_arenaEnums (raw : FileProto) {f : FlatMessage} {i : Nat}
    (hf : (f, i) ∈ (flatten raw.messageType).zipIdx) :
    (childrenOf ((arenaEnums raw).map (·.parent)) i).map ((arenaEnums raw)[·]?) =
      (f.enums (raw.package.getD "") i).map some := by
  obtain ⟨-, hlt, hfeq⟩ := List.mem_zipIdx hf
  simp only [Nat.zero_add, Nat.sub_zero] at hlt hfeq
  rw [hfeq, childrenOf_map, map_getElem?_filter_zipIdx, ← filter_arenaEnums raw i hlt,
    ← map_fst_filter_zipIdx (fun x : EnumType => decide (x.parent = some i)), List.map_map]
  rfl

theorem length_childrenOf_arenaEnums (raw : FileProto) {f : FlatMessage} {i : Nat}
    (hf : (f, i) ∈ (flatten raw.messageType).zipIdx) :
    (childrenOf ((arenaEnums raw).map (·.parent)) i).length = f.raw.enumType.length := by
  simpa [FlatMessage.enums] using congrArg List.length (childrenOf_arenaEnums raw hf)

theorem arenaEnums_parent_lt (raw : FileProto) :
    ∀ e ∈ arenaEnums raw, ∀ q, e.parent = some q → q < (flatten raw.messageType).length := by
  intro e he q hq
  rcases List.mem_append.1 he with he | he
  · obtain ⟨r, -, rfl⟩ := List.mem_map.1 he
    simp [wrapEnum_parent] at hq
  · obtain ⟨⟨f, m⟩, hm, he⟩ := List.mem_flatMap.1 he
    rw [FlatMessage.parent_of_mem_enums he, Option.some.injEq] at hq
    simpa [← hq] using (List.mem_zipIdx hm).2.1

theorem linkNested_flatten (raw : FileProto) :
    linkNested ((flatten raw.messageType).map
      (wrapMessage (raw.package.getD "") (flatten raw.messageType))) = .ok (nestedLinked raw) := by
  have hparent : ((flatten raw.messageType).map
      (wrapMessage (raw.package.getD "") (flatten raw.messageType))).map Message.parent =
        (flatten raw.messageType).map FlatMessage.parent := by
    simp [Function.comp_def, wrapMessage_parent]
  refine (linkNested_eq_ok ?_ ?_).trans ?_
  · simp only [List.mem_map, List.length_map]
    rintro m ⟨f, hf, rfl⟩
    exact flatten_parent_lt_length hf
  · rw [hparent, List.zipIdx_map]
    simp only [List.mem_map]
    rintro _ ⟨e, he, rfl⟩
    exact length_childrenOf_flatten _ e he
  · rw [hparent, List.zipIdx_map, List.map_map]
    rfl

theorem length_nestedLinked (raw : FileProto) :
    (nestedLinked raw).length = (flatten raw.messageType).length := by
  simp [nestedLinked]

theorem linkEnums_arena (raw : FileProto) :
    linkEnums (nestedLinked raw) (arenaEnums raw) = .ok (arenaMessages raw) := by
  refine linkEnums_eq_ok ?_ ?_
  · simpa [length_nestedLinked] using arenaEnums_parent_lt raw
  · rintro ⟨m, i⟩ he
    obtain ⟨-, hlt, hm⟩ := List.mem_zipIdx he
    simp only [length_nestedLinked, Nat.zero_add] at hlt
    dsimp only
    rw [hm]
    simp only [nestedLinked, Nat.sub_zero, List.getElem_map, List.getElem_zipIdx, Nat.zero_add]
    exact length_childrenOf_arenaEnums raw (List.mem_zipIdx_iff_getElem?.2 (by simp))

/-- Wrapping a file never fails: the message tree's counts always agree with the links. -/
theorem File.wrap_ok (id : Nat) (raw : FileProto) :
    ∃ u, File.wrap id raw = .ok u ∧ u.messages = arenaMessages raw ∧ u.enums = arenaEnums raw ∧
      u.id = id := by
  have hlink := linkEnums_arena raw
  simp only [arenaEnums, FlatMessage.enums] at hlink ⊢
  simp only [File.wrap, linkNested_flatten, bind, Except.bind, hlink, pure, Except.pure]
  exact ⟨_, rfl, rfl, rfl, rfl⟩

theorem getElem?_arenaMessages (raw : FileProto) (i : Nat) :
    (arenaMessages raw)[i]? = (flatten raw.messageType)[i]?.map fun f =>
      { wrapMessage (raw.package.getD "") (flatten raw.messageType) f with
        nested := childrenOf ((flatten raw.messageType).map FlatMessage.parent) i
        enums := childrenOf ((arenaEnums raw).map EnumType.parent) i } := by
  simp only [arenaMessages, nestedLinked, List.getElem?_map, List.getElem?_zipIdx, Nat.zero_add]
  cases (flatten raw.messageType)[i]? <;> rfl

theorem length_arenaMessages (raw : FileProto) :
    (arenaMessages raw).length = (flatten raw.messageType).length := by
  simp [arenaMessages, length_nestedLinked]

/-- What a linked message of a file is made of: the walk entry at its place, with its children
in the walk and among the enums. -/
theorem mem_arenaMessages {raw : FileProto} {m : Message} {i : Nat}
    (h : (arenaMessages raw)[i]? = some m) :
    ∃ f, (f, i) ∈ (flatten raw.messageType).zipIdx ∧
      { m with nested := [], enums := [] } =
        wrapMessage (raw.package.getD "") (flatten raw.messageType) f ∧
      m.nested = childrenOf ((flatten raw.messageType).map FlatMessage.parent) i ∧
      m.enums = childrenOf ((arenaEnums raw).map EnumType.parent) i := by
  rw [getElem?_arenaMessages, Option.map_eq_some_iff] at h
  obtain ⟨f, hf, rfl⟩ := h
  exact ⟨f, List.mem_zipIdx_iff_getElem?.2 hf, rfl, rfl, rfl⟩

theorem getElem?_arenaMessages_parent (raw : FileProto) (c : Nat) :
    (arenaMessages raw)[c]?.bind Message.parent =
      (flatten raw.messageType)[c]?.bind FlatMessage.parent := by
  rw [getElem?_arenaMessages]
  cases (flatten raw.messageType)[c]? <;> rfl

/-- The arena invariant of a file `u` built from the descriptor `raw`: its messages are the
pre-order walk `flatten raw.messageType` of the descriptor's message tree, each wrapped and
linked to exactly the messages and enums declared in it. -/
structure Arena (raw : FileProto) (u : File) : Prop where
  /-- The walk visits the message tree in pre-order. -/
  preorder : (flatten raw.messageType).map (·.raw) = preorder raw.messageType
  /-- Message `i` wraps the `i`-th entry of the walk; linking only sets its children. -/
  wraps : u.messages.map (fun m => { m with nested := [], enums := [] }) =
    (flatten raw.messageType).map (wrapMessage (raw.package.getD "") (flatten raw.messageType))
  /-- A nested message comes after its parent. -/
  parent_lt : ∀ e ∈ u.messages.zipIdx, ∀ p, e.1.parent = some p → p < e.2
  /-- The entries of the walk without a parent are the file's own messages, in order. -/
  roots : (withParent none (flatten raw.messageType).zipIdx).map (·.1) =
    raw.messageType.zipIdx.map fun r => FlatMessage.sibling none [] [] 4 r.1 r.2
  /-- A message's children are the messages naming it as parent, in increasing order. -/
  nested_mem : ∀ e ∈ u.messages.zipIdx, ∀ c,
    c ∈ e.1.nested ↔ u.messages[c]?.bind Message.parent = some e.2
  nested_sorted : ∀ m ∈ u.messages, m.nested.Pairwise (· < ·)
  /-- A message has as many children as it declares nested messages. -/
  nested_length : ∀ m ∈ u.messages, m.nested.length = m.declaredNested
  /-- The `k`-th child of a message is the walk's entry for its `k`-th nested declaration. -/
  nested_walk : ∀ e ∈ (flatten raw.messageType).zipIdx, ∀ m, u.messages[e.2]? = some m →
    m.nested.map ((flatten raw.messageType)[·]?) = e.1.raw.nestedType.zipIdx.map fun r =>
      some (FlatMessage.sibling (some e.2) e.1.path e.1.typeName 3 r.1 r.2)
  /-- The enums are the file's own, then those of each message in arena order. -/
  enums_order : u.enums = arenaEnums raw
  /-- Every enum's parent is a message of the file. -/
  enum_parent_lt : ∀ e ∈ u.enums, ∀ p, e.parent = some p → p < u.messages.length
  /-- A message's enums are the enums naming it as parent, in increasing order. -/
  enums_mem : ∀ e ∈ u.messages.zipIdx, ∀ j,
    j ∈ e.1.enums ↔ u.enums[j]?.bind EnumType.parent = some e.2
  enums_sorted : ∀ m ∈ u.messages, m.enums.Pairwise (· < ·)
  /-- A message has as many enums as it declares. -/
  enums_length : ∀ m ∈ u.messages, m.enums.length = m.declaredEnums
  /-- The `k`-th enum of a message wraps its `k`-th enum declaration. -/
  enums_walk : ∀ e ∈ (flatten raw.messageType).zipIdx, ∀ m, u.messages[e.2]? = some m →
    m.enums.map (u.enums[·]?) = (e.1.enums (raw.package.getD "") e.2).map some

theorem arena_of_linked {raw : FileProto} {u : File} (hm : u.messages = arenaMessages raw)
    (he : u.enums = arenaEnums raw) : Arena raw u where
  preorder := flatten_raw _
  wraps := by
    refine List.ext_getElem? fun i => ?_
    rw [List.getElem?_map, List.getElem?_map, hm, getElem?_arenaMessages, Option.map_map]
    rfl
  parent_lt := by
    rintro ⟨m, i⟩ hmi p hp
    rw [hm] at hmi
    obtain ⟨f, hf, hwrap, -⟩ := mem_arenaMessages (List.mem_zipIdx_iff_getElem?.1 hmi)
    have hpar : m.parent = f.parent := congrArg Message.parent hwrap
    exact flatten_parent_lt _ _ hf p (hpar ▸ hp)
  roots := flatten_roots _
  nested_mem := by
    rintro ⟨m, i⟩ hmi c
    rw [hm] at hmi ⊢
    obtain ⟨f, -, -, hnested, -⟩ := mem_arenaMessages (List.mem_zipIdx_iff_getElem?.1 hmi)
    rw [hnested, mem_childrenOf, getElem?_arenaMessages_parent, List.getElem?_map]
    cases (flatten raw.messageType)[c]? <;> simp
  nested_sorted := by
    intro m hmem
    obtain ⟨i, hi⟩ := List.mem_iff_getElem?.1 (hm ▸ hmem)
    obtain ⟨f, -, -, hnested, -⟩ := mem_arenaMessages hi
    exact hnested ▸ childrenOf_sorted _ _
  nested_length := by
    intro m hmem
    obtain ⟨i, hi⟩ := List.mem_iff_getElem?.1 (hm ▸ hmem)
    obtain ⟨f, hf, hwrap, hnested, -⟩ := mem_arenaMessages hi
    have hdecl : m.declaredNested = f.raw.nestedType.length := congrArg Message.declaredNested hwrap
    rw [hnested, hdecl]
    exact length_childrenOf_flatten _ _ hf
  nested_walk := by
    rintro ⟨f, i⟩ hf m hmi
    rw [hm] at hmi
    obtain ⟨-, -, -, hnested, -⟩ := mem_arenaMessages hmi
    have hkids := congrArg (List.map some) (flatten_children _ _ hf)
    rw [hnested, childrenOf_flatten, withParent, map_getElem?_filter_zipIdx]
    simpa [withParent, List.map_map, Function.comp_def] using hkids
  enums_order := he
  enum_parent_lt := by
    intro e hmem p hp
    rw [hm, length_arenaMessages]
    exact arenaEnums_parent_lt raw e (he ▸ hmem) p hp
  enums_mem := by
    rintro ⟨m, i⟩ hmi j
    rw [hm] at hmi
    rw [he]
    obtain ⟨f, -, -, -, henums⟩ := mem_arenaMessages (List.mem_zipIdx_iff_getElem?.1 hmi)
    rw [henums, mem_childrenOf, List.getElem?_map]
    cases (arenaEnums raw)[j]? <;> simp
  enums_sorted := by
    intro m hmem
    obtain ⟨i, hi⟩ := List.mem_iff_getElem?.1 (hm ▸ hmem)
    obtain ⟨f, -, -, -, henums⟩ := mem_arenaMessages hi
    exact henums ▸ childrenOf_sorted _ _
  enums_length := by
    intro m hmem
    obtain ⟨i, hi⟩ := List.mem_iff_getElem?.1 (hm ▸ hmem)
    obtain ⟨f, hf, hwrap, -, henums⟩ := mem_arenaMessages hi
    have hdecl : m.declaredEnums = f.raw.enumType.length := congrArg Message.declaredEnums hwrap
    rw [henums, hdecl, length_childrenOf_arenaEnums raw hf]
  enums_walk := by
    rintro ⟨f, i⟩ hf m hmi
    rw [hm] at hmi
    rw [he]
    obtain ⟨-, -, -, -, henums⟩ := mem_arenaMessages hmi
    rw [henums, childrenOf_arenaEnums raw hf]

theorem File.wrap_arena (id : Nat) (raw : FileProto) :
    ∃ u, File.wrap id raw = .ok u ∧ Arena raw u := by
  obtain ⟨u, hu, hm, he, -⟩ := File.wrap_ok id raw
  exact ⟨u, hu, arena_of_linked hm he⟩

theorem except_bind_eq_ok {α β ε : Type} {x : Except ε α} {f : α → Except ε β} {b : β}
    (h : (x >>= f) = .ok b) : ∃ a, x = .ok a ∧ f a = .ok b := by
  cases x with
  | error e => cases h
  | ok a => exact ⟨a, rfl, h⟩

theorem mapM_eq_ok_forall {α β ε : Type} {f : α → Except ε β} :
    ∀ {l : List α} {r : List β}, l.mapM f = .ok r →
      r.length = l.length ∧ ∀ (i : Nat) x y, l[i]? = some x → r[i]? = some y → f x = .ok y
  | [], r, h => by
    cases h
    simp
  | x :: l, r, h => by
    rw [List.mapM_cons] at h
    cases hx : f x with
    | error e => simp [hx] at h; cases h
    | ok y =>
      cases hl : l.mapM f with
      | error e => simp [hx, hl] at h; cases h
      | ok ys =>
        simp only [hx, hl] at h
        cases h
        obtain ⟨hlen, hall⟩ := mapM_eq_ok_forall hl
        refine ⟨by simp [hlen], fun i a b ha hb => ?_⟩
        cases i with
        | zero => simp_all
        | succ i => exact hall i a b (by simpa using ha) (by simpa using hb)

theorem mapM_eq_error {α β ε : Type} {f : α → Except ε β} {e : ε} :
    ∀ {l : List α}, l.mapM f = .error e → ∃ x ∈ l, f x = .error e
  | [], h => by cases h
  | x :: l, h => by
    rw [List.mapM_cons] at h
    cases hx : f x with
    | error e' =>
      simp only [hx] at h
      cases h
      exact ⟨x, List.mem_cons_self, hx⟩
    | ok y =>
      cases hl : l.mapM f with
      | error e' =>
        simp only [hx, hl] at h
        cases h
        obtain ⟨z, hz, hfz⟩ := mapM_eq_error hl
        exact ⟨z, List.mem_cons_of_mem _ hz, hfz⟩
      | ok ys => simp [hx, hl] at h; cases h

/-- A public import fails only by naming a file that is not there. -/
theorem reexportOf_error {files : List File} {raw : FileProto} {dep : Int} {e : SchemaError}
    (h : reexportOf files raw dep = .error e) : ∃ f d, e = .unknownDependency f d := by
  unfold reexportOf at h
  split at h
  · cases h
    exact ⟨_, _, rfl⟩
  · split at h
    · cases h
      exact ⟨_, _, rfl⟩
    · cases h

/-- A built graph has one file per descriptor, at the descriptor's index: the descriptor
wrapped with that index, with the types of its public imports added. -/
theorem Graph.build_wrapped {raws : List FileProto} {g : Graph} (h : Graph.build raws = .ok g) :
    g.files.length = raws.length ∧ ∀ (i : Nat) raw u, raws[i]? = some raw → g.files[i]? = some u →
      ∃ w rs, File.wrap i raw = .ok w ∧ u = { w with reexports := rs } := by
  unfold Graph.build at h
  simp only [bind, Except.bind] at h
  split at h
  · cases h
  rename_i files hfiles
  split at h
  · cases h
  rename_i linked hreexport
  cases h
  obtain ⟨hlen, hwrapped⟩ := mapM_eq_ok_forall hfiles
  obtain ⟨hlen', hlinked⟩ := mapM_eq_ok_forall hreexport
  refine ⟨by simp [hlen', hlen], fun i raw u hraw hu => ?_⟩
  obtain ⟨w, hw⟩ : ∃ w, files[i]? = some w := by
    have : i < files.length := by simpa [hlen] using (List.getElem?_eq_some_iff.1 hraw).1
    exact ⟨_, List.getElem?_eq_getElem this⟩
  have hwrapi := hwrapped i (raw, i) w (by simp [List.getElem?_zipIdx, hraw]) hw
  have hlinki := hlinked i (w, raw) u (List.getElem?_zip_eq_some.2 ⟨hw, hraw⟩) hu
  dsimp only at hwrapi
  split at hlinki
  · cases hlinki
  · cases hlinki
    exact ⟨w, _, hwrapi, rfl⟩

/-- A built graph has one file per descriptor, at the descriptor's index and with that index as
its id, and each file is an arena of its descriptor. -/
theorem Graph.build_files {raws : List FileProto} {g : Graph} (h : Graph.build raws = .ok g) :
    g.files.length = raws.length ∧ ∀ (i : Nat) raw u, raws[i]? = some raw → g.files[i]? = some u →
      Arena raw u ∧ u.id = i := by
  obtain ⟨hlen, hwrapped⟩ := Graph.build_wrapped h
  refine ⟨hlen, fun i raw u hraw hu => ?_⟩
  obtain ⟨w, rs, hw, rfl⟩ := hwrapped i raw u hraw hu
  obtain ⟨w', hw', hm, he, hid⟩ := File.wrap_ok i raw
  rw [hw, Except.ok.injEq] at hw'
  subst hw'
  exact ⟨arena_of_linked hm he, hid⟩

/-- A graph fails to build only on a public import of an unknown file. -/
theorem Graph.build_error {raws : List FileProto} {e : SchemaError}
    (h : Graph.build raws = .error e) :
    ∃ raw ∈ raws, ∃ dep ∈ raw.publicDependency, ∃ f d, e = .unknownDependency f d := by
  unfold Graph.build at h
  simp only [bind, Except.bind] at h
  split at h
  · rename_i err hwrap
    obtain ⟨⟨raw, i⟩, -, hfail⟩ := mapM_eq_error hwrap
    obtain ⟨u, hu, -⟩ := File.wrap_ok i raw
    dsimp only at hfail
    rw [hu] at hfail
    cases hfail
  split at h
  · rename_i err hreexport
    cases h
    obtain ⟨⟨u, raw⟩, hmem, hfail⟩ := mapM_eq_error hreexport
    split at hfail
    · rename_i err' hgroups
      cases hfail
      obtain ⟨dep, hdep, hfail'⟩ := mapM_eq_error hgroups
      exact ⟨raw, (List.of_mem_zip hmem).2, dep, hdep, reexportOf_error hfail'⟩
    · cases hfail
  · cases h

/-- A request without public imports always builds. -/
theorem Graph.build_ok {raws : List FileProto} (h : ∀ raw ∈ raws, raw.publicDependency = []) :
    ∃ g, Graph.build raws = .ok g := by
  cases hb : Graph.build raws with
  | ok g => exact ⟨g, rfl⟩
  | error e =>
    obtain ⟨raw, hraw, dep, hdep, -⟩ := Graph.build_error hb
    rw [h raw hraw] at hdep
    cases hdep

/-- Building a schema graph fails only on a public import of an unknown file; every file it
builds satisfies the arena invariant. -/
theorem Graph.build_arena (raws : List FileProto) :
    (∃ g, Graph.build raws = .ok g ∧ g.files.length = raws.length ∧
      ∀ (i : Nat) raw u, raws[i]? = some raw → g.files[i]? = some u → Arena raw u) ∨
    ∃ f d, Graph.build raws = .error (.unknownDependency f d) := by
  cases h : Graph.build raws with
  | ok g =>
    obtain ⟨hlen, hfiles⟩ := Graph.build_files h
    exact Or.inl ⟨g, rfl, hlen, fun i raw u hraw hu => (hfiles i raw u hraw hu).1⟩
  | error e =>
    obtain ⟨-, -, -, -, f, d, rfl⟩ := Graph.build_error h
    exact Or.inr ⟨f, d, rfl⟩

/-- The links of a file's arenas that naming relies on: a message comes after its parent, and
a message's children and enums are exactly the nodes naming it as parent, each listed once. -/
structure File.Linked (u : File) : Prop where
  parent_lt : ∀ j p, Message.parent (u.messages[j]?.getD default) = some p → p < j
  nested_iff : ∀ i m, u.messages[i]? = some m →
    ∀ c, c ∈ m.nested ↔ u.messages[c]?.bind Message.parent = some i
  enums_iff : ∀ i m, u.messages[i]? = some m →
    ∀ e, e ∈ m.enums ↔ u.enums[e]?.bind EnumType.parent = some i
  nested_nodup : ∀ m ∈ u.messages, m.nested.Nodup
  enums_nodup : ∀ m ∈ u.messages, m.enums.Nodup

theorem Arena.linked {raw : FileProto} {u : File} (h : Arena raw u) : u.Linked where
  parent_lt := by
    intro j p hp
    cases hj : u.messages[j]? with
    | none => simp [hj] at hp; cases hp
    | some m =>
      rw [hj, Option.getD_some] at hp
      exact h.parent_lt (m, j) (List.mem_zipIdx_iff_getElem?.2 hj) p hp
  nested_iff := fun i m hm => h.nested_mem (m, i) (List.mem_zipIdx_iff_getElem?.2 hm)
  enums_iff := fun i m hm => h.enums_mem (m, i) (List.mem_zipIdx_iff_getElem?.2 hm)
  nested_nodup := fun m hm => (h.nested_sorted m hm).imp Nat.ne_of_lt
  enums_nodup := fun m hm => (h.enums_sorted m hm).imp Nat.ne_of_lt

theorem File.Linked.parent_of_mem_nested {u : File} (hL : u.Linked) {i c : Nat} {m : Message}
    (hm : u.messages[i]? = some m) (hc : c ∈ m.nested) :
    ∃ mc, u.messages[c]? = some mc ∧ mc.parent = some i := by
  have h := (hL.nested_iff i m hm c).1 hc
  cases hmc : u.messages[c]? with
  | none => simp [hmc] at h
  | some mc => exact ⟨mc, rfl, by simpa [hmc] using h⟩

theorem File.Linked.parent_of_mem_enums {u : File} (hL : u.Linked) {i e : Nat} {m : Message}
    (hm : u.messages[i]? = some m) (he : e ∈ m.enums) :
    ∃ en, u.enums[e]? = some en ∧ en.parent = some i := by
  have h := (hL.enums_iff i m hm e).1 he
  cases hen : u.enums[e]? with
  | none => simp [hen] at h
  | some en => exact ⟨en, rfl, by simpa [hen] using h⟩

/-- Every file of a built graph is an arena of its descriptor and has its index as id. -/
theorem Graph.build_file_arena {raws : List FileProto} {g : Graph} (h : Graph.build raws = .ok g)
    {f : Nat} (hf : f < g.files.length) : ∃ raw, Arena raw (g.file f) ∧ (g.file f).id = f := by
  obtain ⟨hlen, hfiles⟩ := Graph.build_files h
  obtain ⟨raw, hraw⟩ : ∃ raw, raws[f]? = some raw :=
    ⟨_, List.getElem?_eq_getElem (hlen ▸ hf)⟩
  have hu : g.files[f]? = some (g.file f) := by
    simp [Graph.file, List.getElem?_eq_getElem hf]
  exact ⟨raw, hfiles f raw _ hraw hu⟩

/-- Every file of a built graph is linked and has its index as id. -/
theorem Graph.build_linked {raws : List FileProto} {g : Graph} (h : Graph.build raws = .ok g) :
    ∀ f < g.files.length, (g.file f).Linked ∧ (g.file f).id = f := by
  intro f hf
  obtain ⟨raw, harena, hid⟩ := Graph.build_file_arena h hf
  exact ⟨harena.linked, hid⟩

end BeanCodegen.Schema
