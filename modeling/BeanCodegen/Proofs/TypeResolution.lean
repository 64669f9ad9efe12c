import Mathlib
import BeanCodegen.Proofs.Arena
import BeanCodegen.Schema.Index
/-! # Resolving type names

The type index of a graph resolves a full name to the first type that carries it, in the order
of the graph's files and, within a file, its messages in arena order and then its enums
(`Graph.typeRefs`). A name no type carries does not resolve, and asking for a message or an enum
fails with a kind mismatch exactly when that first type is of the other kind. So when full
names are unique, every type resolves to itself, whatever the references between files.

Types are named by their position: a graph's files carry their positions as ids
(`Graph.FilesIndexed`), which every built graph does.
-/

namespace BeanCodegen.Schema

namespace Graph

/-- The types of a graph in resolution order: the files in order, and in each file its
messages in arena order, then its enums in arena order. -/
def typeRefs (g : Graph) : List TypeRef :=
  (List.range g.files.length).flatMap fun f =>
    (List.range (g.file f).messages.length).map (fun i => TypeRef.message ⟨f, i⟩) ++
      (List.range (g.file f).enums.length).map fun i => TypeRef.enum ⟨f, i⟩

/-- The full name of a type of a graph. -/
def typeFullName (g : Graph) : TypeRef → String
  | .message id => (g.message id).fullName
  | .enum id => (g.enumType id).fullName

/-- The files of a graph carry their positions as ids. -/
def FilesIndexed (g : Graph) : Prop := g.files.map File.id = List.range g.files.length

theorem FilesIndexed.id_file {g : Graph} (hg : g.FilesIndexed) {f : Nat}
    (hf : f < g.files.length) : (g.file f).id = f := by
  have h := congrArg (·[f]?) hg
  simp only [List.getElem?_map, List.getElem?_range hf] at h
  simpa [Graph.file, List.getElem?_eq_getElem hf] using h

/-- Every built graph names its files by position. -/
theorem build_filesIndexed {raws : List Descriptor.FileProto} {g : Graph}
    (h : Graph.build raws = .ok g) : g.FilesIndexed := by
  obtain ⟨hlen, hfiles⟩ := Graph.build_files h
  apply List.ext_getElem (by simp)
  intro i h₁ h₂
  have hi : i < g.files.length := by simpa using h₁
  obtain ⟨raw, hraw⟩ : ∃ raw, raws[i]? = some raw := ⟨_, List.getElem?_eq_getElem (hlen ▸ hi)⟩
  simp only [List.getElem_map, List.getElem_range]
  exact (hfiles i raw _ hraw (List.getElem?_eq_getElem hi)).2

end Graph

/-- Looking a name up among entries keyed by a function finds the first element with that key. -/
theorem lookup_map_key {α : Type} (key : α → String) (n : String) :
    ∀ l : List α, (l.map fun t => (key t, t)).lookup n = l.find? (key · = n)
  | [] => rfl
  | t :: l => by
    rw [List.map_cons, List.lookup_cons, List.find?_cons]
    by_cases hn : key t = n
    · simp [hn]
    · have h₁ : (n == key t) = false := by simpa using Ne.symm hn
      simp only [h₁, hn, decide_false]
      exact lookup_map_key key n l

namespace TypeIndex

variable {g : Graph}

/-- The entries of the index are the types of the graph in resolution order, under their
full names. -/
theorem build_entries (hg : g.FilesIndexed) :
    (build g).entries = g.typeRefs.map fun t => (g.typeFullName t, t) := by
  have hfiles : (List.range g.files.length).map g.file = g.files := by
    apply List.ext_getElem (by simp)
    intro i h₁ h₂
    simp [Graph.file, List.getElem?_eq_getElem h₂]
  dsimp only [build]
  rw [Graph.typeRefs, List.map_flatMap]
  generalize hn : g.files.length = n at hfiles ⊢
  rw [← hfiles, List.flatMap_map]
  apply List.flatMap_congr
  intro f hf
  rw [hg.id_file (hn ▸ List.mem_range.1 hf), List.map_append, List.map_map, List.map_map]
  -- within a file, the arenas are listed in order under their positions
  congr 1
  · apply List.ext_getElem (by simp)
    intro i h₁ h₂
    have hi : i < (g.file f).messages.length := by simpa using h₁
    simp [Graph.typeFullName, Graph.message, List.getElem?_eq_getElem hi]
  · apply List.ext_getElem (by simp)
    intro i h₁ h₂
    have hi : i < (g.file f).enums.length := by simpa using h₁
    simp [Graph.typeFullName, Graph.enumType, List.getElem?_eq_getElem hi]

/-- When keys are unique, the first element with the key of a member is that member. -/
theorem find?_key_of_nodup {α : Type} {key : α → String} {l : List α} (hu : (l.map key).Nodup)
    {t : α} (ht : t ∈ l) : l.find? (key · = key t) = some t := by
  induction l with
  | nil => cases ht
  | cons s l ih =>
    rw [List.map_cons, List.nodup_cons] at hu
    rw [List.find?_cons]
    by_cases hs : key s = key t
    · -- a member with the same key is the member itself
      have hst : s = t := by
        rcases List.mem_cons.1 ht with rfl | ht'
        · rfl
        · exact absurd (hs ▸ List.mem_map_of_mem ht') hu.1
      simp [hst]
    · have ht' : t ∈ l := by
        rcases List.mem_cons.1 ht with rfl | ht'
        · exact absurd rfl hs
        · exact ht'
      simp only [hs, decide_false]
      exact ih hu.2 ht'

/-- The first type with a full name, as the index finds it. -/
theorem resolve_eq_ok_iff (hg : g.FilesIndexed) {n : String} {t : TypeRef} :
    (build g).resolve n = .ok t ↔ g.typeRefs.find? (g.typeFullName · = n) = some t := by
  unfold resolve
  rw [build_entries hg, lookup_map_key]
  cases g.typeRefs.find? (g.typeFullName · = n) <;> simp

/-- A name fails to resolve only as unresolved, and only when no type carries it first. -/
theorem resolve_eq_error_iff (hg : g.FilesIndexed) {n : String} {e : SchemaError} :
    (build g).resolve n = .error e ↔
      g.typeRefs.find? (g.typeFullName · = n) = none ∧ e = .unresolvedType n := by
  unfold resolve
  rw [build_entries hg, lookup_map_key]
  cases g.typeRefs.find? (g.typeFullName · = n) <;> simp [eq_comm]

/-- Asking for a message gets the first type with the name when it is a message. -/
theorem resolveMessage_eq_ok_iff (hg : g.FilesIndexed) {n : String} {id : MessageId} :
    (build g).resolveMessage n = .ok id ↔
      g.typeRefs.find? (g.typeFullName · = n) = some (.message id) := by
  unfold resolveMessage
  cases h : (build g).resolve n with
  | error e => simp [bind, Except.bind, ((resolve_eq_error_iff hg).1 h).1]
  | ok r =>
    rw [(resolve_eq_ok_iff hg).1 h]
    cases r <;> simp [bind, Except.bind, pure, Except.pure, throw, throwThe, MonadExceptOf.throw]

/-- Asking for a message is a kind mismatch exactly when the first type with the name is an
enum. -/
theorem resolveMessage_mismatch_iff (hg : g.FilesIndexed) {n : String} :
    (build g).resolveMessage n = .error (.kindMismatch n .message) ↔
      ∃ id, g.typeRefs.find? (g.typeFullName · = n) = some (.enum id) := by
  unfold resolveMessage
  cases h : (build g).resolve n with
  | error e =>
    obtain ⟨hnone, rfl⟩ := (resolve_eq_error_iff hg).1 h
    simp [bind, Except.bind, hnone]
  | ok r =>
    rw [(resolve_eq_ok_iff hg).1 h]
    cases r <;> simp [bind, Except.bind, pure, Except.pure, throw, throwThe, MonadExceptOf.throw]

/-- Asking for an enum gets the first type with the name when it is an enum. -/
theorem resolveEnum_eq_ok_iff (hg : g.FilesIndexed) {n : String} {id : EnumId} :
    (build g).resolveEnum n = .ok id ↔
      g.typeRefs.find? (g.typeFullName · = n) = some (.enum id) := by
  unfold resolveEnum
  cases h : (build g).resolve n with
  | error e => simp [bind, Except.bind, ((resolve_eq_error_iff hg).1 h).1]
  | ok r =>
    rw [(resolve_eq_ok_iff hg).1 h]
    cases r <;> simp [bind, Except.bind, pure, Except.pure, throw, throwThe, MonadExceptOf.throw]

/-- Asking for an enum is a kind mismatch exactly when the first type with the name is a
message. -/
theorem resolveEnum_mismatch_iff (hg : g.FilesIndexed) {n : String} :
    (build g).resolveEnum n = .error (.kindMismatch n .enum) ↔
      ∃ id, g.typeRefs.find? (g.typeFullName · = n) = some (.message id) := by
  unfold resolveEnum
  cases h : (build g).resolve n with
  | error e =>
    obtain ⟨hnone, rfl⟩ := (resolve_eq_error_iff hg).1 h
    simp [bind, Except.bind, hnone]
  | ok r =>
    rw [(resolve_eq_ok_iff hg).1 h]
    cases r <;> simp [bind, Except.bind, pure, Except.pure, throw, throwThe, MonadExceptOf.throw]

/-- A name is unresolved exactly when no type of the graph carries it. -/
theorem resolve_unresolved_iff (hg : g.FilesIndexed) (n : String) :
    (build g).resolve n = .error (.unresolvedType n) ↔
      ∀ t ∈ g.typeRefs, g.typeFullName t ≠ n := by
  rw [resolve_eq_error_iff hg, List.find?_eq_none]
  simp

/-- With unique full names every type resolves to itself. -/
theorem resolve_typeFullName (hg : g.FilesIndexed) (hu : (g.typeRefs.map g.typeFullName).Nodup)
    {t : TypeRef} (ht : t ∈ g.typeRefs) : (build g).resolve (g.typeFullName t) = .ok t :=
  (resolve_eq_ok_iff hg).2 (find?_key_of_nodup hu ht)

/-- The index of a graph, as built for every request, resolves a name to the first type that
carries it (files in order, in each file its messages and then its enums), and to nothing else;
it leaves a name unresolved exactly when no type carries it; asking for a message or an enum is
a kind mismatch exactly when that first type is of the other kind; and with unique full names
every type resolves to itself. -/
theorem build_resolves_first (hg : g.FilesIndexed) (n : String) :
    (∀ t, (build g).resolve n = .ok t ↔ g.typeRefs.find? (g.typeFullName · = n) = some t) ∧
      ((build g).resolve n = .error (.unresolvedType n) ↔
        ∀ t ∈ g.typeRefs, g.typeFullName t ≠ n) ∧
      ((build g).resolveMessage n = .error (.kindMismatch n .message) ↔
        ∃ id, g.typeRefs.find? (g.typeFullName · = n) = some (.enum id)) ∧
      ((build g).resolveEnum n = .error (.kindMismatch n .enum) ↔
        ∃ id, g.typeRefs.find? (g.typeFullName · = n) = some (.message id)) ∧
      ((g.typeRefs.map g.typeFullName).Nodup →
        ∀ t ∈ g.typeRefs, (build g).resolve (g.typeFullName t) = .ok t) :=
  ⟨fun _ => resolve_eq_ok_iff hg, resolve_unresolved_iff hg n, resolveMessage_mismatch_iff hg,
    resolveEnum_mismatch_iff hg, fun hu _ ht => resolve_typeFullName hg hu ht⟩

/-- Two files of one package: the first declares a message `Dup`, the second an enum `Dup`. -/
def dupGraph : Graph :=
  ⟨[{ (default : File) with id := 0, messages := [{ fullName := ".p.Dup" }] },
    { (default : File) with id := 1, enums := [{ fullName := ".p.Dup" }] }]⟩

/-- The message declared first wins the name: asking for the enum is a kind mismatch. -/
theorem dupGraph_enum_mismatch :
    dupGraph.FilesIndexed ∧
      (build dupGraph).resolveEnum ".p.Dup" = .error (.kindMismatch ".p.Dup" .enum) := by
  have hg : dupGraph.FilesIndexed := rfl
  exact ⟨hg, ((build_resolves_first hg ".p.Dup").2.2.2.1).2 ⟨⟨0, 0⟩, by decide⟩⟩

end TypeIndex

end BeanCodegen.Schema
