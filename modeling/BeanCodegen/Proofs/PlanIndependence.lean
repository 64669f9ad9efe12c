import Mathlib
import BeanCodegen.Proofs.ArtifactPaths
/-! # A file's plan depends only on the files planned before it

`allocate` plans the files of a request one after another: first the files to generate, in the
order the request names them, then the others in request order. Two registries, of value-class
packages and of converter classes, pass from each file to the next. A file's plan reads six
parts of the file (`Plan.SamePlanInputs`) and, of the registries, only what the files before it
claimed there: their value-class packages and converter classes, as asked
(`Plan.allocate_file_eq`).

So the plans of the files to generate stay the same when files that are not generated are added
to the request or removed from it, at any position (`Session.plans_of_earlier_claims`).
-/

namespace BeanCodegen.Naming.Registry

/-- Claims the names `bases` in order. -/
def claimAll (r : Registry) (bases : List String) : Registry :=
  bases.foldl (fun r b => (r.claim b).2) r

@[simp] theorem claimAll_nil (r : Registry) : r.claimAll [] = r := rfl

@[simp] theorem claimAll_cons (r : Registry) (b : String) (bases : List String) :
    r.claimAll (b :: bases) = (r.claim b).2.claimAll bases := rfl

end BeanCodegen.Naming.Registry

namespace BeanCodegen.Schema

open BeanCodegen.Descriptor

/-- Wrapping a descriptor with another index changes only the id. -/
theorem File.wrap_id (i j : Nat) (raw : FileProto) :
    File.wrap j raw = (File.wrap i raw).map fun u => { u with id := j } := by
  have hlink := linkEnums_arena raw
  simp only [arenaEnums, FlatMessage.enums] at hlink
  simp only [File.wrap, linkNested_flatten, bind, Except.bind, hlink, pure, Except.pure, Except.map]

theorem File.wrap_name {i : Nat} {raw : FileProto} {u : File} (h : File.wrap i raw = .ok u) :
    u.name = raw.name.getD "" := by
  have hlink := linkEnums_arena raw
  simp only [arenaEnums, FlatMessage.enums] at hlink
  simp only [File.wrap, linkNested_flatten, bind, Except.bind, hlink, pure, Except.pure] at h
  cases h
  rfl

variable {raws : List FileProto} {g : Graph}

theorem Graph.build_file_wrap (hg : Graph.build raws = .ok g) {k : Nat} {raw : FileProto}
    (hraw : raws[k]? = some raw) :
    ∃ w rs, File.wrap k raw = .ok w ∧ g.file k = { w with reexports := rs } := by
  obtain ⟨hlen, hwrapped⟩ := Graph.build_wrapped hg
  have hk : k < g.files.length := hlen ▸ (List.getElem?_eq_some_iff.1 hraw).1
  exact hwrapped k raw (g.file k) hraw (by simp [Graph.file, List.getElem?_eq_getElem hk])

/-- The files of a built graph carry the names of their descriptors. -/
theorem Graph.build_names (hg : Graph.build raws = .ok g) :
    g.files.map (·.name) = raws.map (·.name.getD "") := by
  obtain ⟨hlen, hwrapped⟩ := Graph.build_wrapped hg
  refine List.ext_getElem (by simp [hlen]) fun i h₁ h₂ => ?_
  have hi : i < raws.length := by simpa using h₂
  obtain ⟨w, rs, hw, hu⟩ := hwrapped i raws[i] g.files[i] (List.getElem?_eq_getElem hi)
    (List.getElem?_eq_getElem (hlen ▸ hi))
  simp only [List.getElem_map, hu]
  exact File.wrap_name hw

/-- Finding an element whose id is its index finds its index. -/
theorem find?_map_id_eq_findIdx? {us : List File} (hid : ∀ (i : Nat) (h : i < us.length), us[i].id = i)
    (p : File → Bool) : (us.find? p).map (·.id) = us.findIdx? p := by
  have hzip : us.zipIdx = us.map fun u => (u, u.id) :=
    List.ext_getElem (by simp) fun i h₁ h₂ => by simp [hid i (by simpa using h₁)]
  rw [List.findIdx?_eq_fst_find?_zipIdx, hzip, List.find?_map, Option.map_map]
  rfl

/-- The file a name resolves to is the first descriptor with that name. -/
theorem Graph.fileNamed_eq_findIdx? (hg : Graph.build raws = .ok g) (n : String) :
    g.fileNamed n = raws.findIdx? fun raw => raw.name.getD "" = n := by
  have hid : ∀ (i : Nat) (h : i < g.files.length), g.files[i].id = i := fun i h => by
    simpa [Graph.file, List.getElem?_eq_getElem h] using (Graph.build_linked hg i h).2
  have hnames : (g.files.map (·.name)).findIdx? (fun m => decide (m = n)) =
      (raws.map (·.name.getD "")).findIdx? (fun m => decide (m = n)) := by
    rw [Graph.build_names hg]
  rw [List.findIdx?_map, List.findIdx?_map] at hnames
  rw [Graph.fileNamed, find?_map_id_eq_findIdx? hid]
  exact hnames

end BeanCodegen.Schema

/-- The element at the first index satisfying `p` is the first element satisfying `p`. -/
theorem List.findIdx?_bind_getElem? {α : Type} (p : α → Bool) :
    ∀ l : List α, (l.findIdx? p).bind (l[·]?) = l.find? p
  | [] => rfl
  | a :: l => by
    by_cases h : p a
    · simp [List.findIdx?_cons, h]
    · simp [List.findIdx?_cons, h, ← List.findIdx?_bind_getElem? p l, Option.bind_map]

namespace BeanCodegen.Plan

open BeanCodegen.Naming BeanCodegen.Schema

/-- The name a file's converter class is claimed from. -/
def converterCandidate (u : File) : String := camelCase (converterBase u) ++ "Converter"

/-- The registries once the files `us` have claimed, in order, their value-class packages and
converter classes. -/
def registriesAfter (cfg : Config) (us : List File) : SharedNames :=
  ⟨Registry.empty.claimAll (us.map (voPackageBase cfg)),
    Registry.withReserved.claimAll (us.map converterCandidate)⟩

/-! ## What planning reads of a file -/

/-- Two files agree on all that planning reads of them: the name, the package, the Java
options, the messages, the enums and the extensions. -/
structure SamePlanInputs (u u' : File) : Prop where
  name : u.name = u'.name
  package : u.package = u'.package
  java : u.java = u'.java
  messages : u.messages = u'.messages
  enums : u.enums = u'.enums
  extensions : u.extensions = u'.extensions

namespace SamePlanInputs

variable {u u' : File}

theorem baseName (h : SamePlanInputs u u') : u.baseName = u'.baseName := by
  simp only [File.baseName, h.name]

theorem voPackageBase (h : SamePlanInputs u u') (cfg : Config) :
    Plan.voPackageBase cfg u = Plan.voPackageBase cfg u' := by
  simp only [Plan.voPackageBase, h.package, h.baseName]

theorem converterBase (h : SamePlanInputs u u') : Plan.converterBase u = Plan.converterBase u' := by
  simp only [Plan.converterBase, h.package, h.java, h.baseName]

theorem converterCandidate (h : SamePlanInputs u u') :
    Plan.converterCandidate u = Plan.converterCandidate u' := by
  simp only [Plan.converterCandidate, h.converterBase]

end SamePlanInputs

theorem ancestorNames_congr {u u' : File} (h : u.messages = u'.messages)
    (names : Array (Option String)) :
    ∀ fuel i, ancestorNames u names fuel i = ancestorNames u' names fuel i
  | 0, _ => rfl
  | _ + 1, none => rfl
  | fuel + 1, some i => by
    simp only [ancestorNames, h, ancestorNames_congr h names fuel]

theorem planMessage_congr {u u' : File} (h : SamePlanInputs u u') (w : MessageWalk) (m : Message)
    (i : Nat) : planMessage u w m i = planMessage u' w m i := by
  simp only [planMessage, claimChildren, h.messages, h.enums, ancestorNames_congr h.messages]

/-- A file's plan reads nothing of the file but its name, package, Java options, messages,
enums and extensions. -/
theorem planFile_congr (cfg : Config) {u u' : File} (h : SamePlanInputs u u') :
    planFile cfg u = planFile cfg u' := by
  have htop : topClasses cfg u = topClasses cfg u' := by
    simp only [topClasses, File.topLevelMessages, File.topLevelEnums, h.messages, h.enums,
      h.extensions, h.baseName]
  have houter : outerClass u = outerClass u' := by
    simp only [outerClass, h.java, h.baseName, h.messages, h.enums]
  unfold planFile
  simp only [htop, houter, h.voPackageBase, h.converterBase, planMessage_congr h, h.messages,
    h.enums, h.extensions, h.java, h.package]

theorem registriesAfter_congr (cfg : Config) {α : Type} {xs : List α} {G G' : α → File}
    (h : ∀ x ∈ xs, SamePlanInputs (G x) (G' x)) :
    registriesAfter cfg (xs.map G) = registriesAfter cfg (xs.map G') := by
  have hvo : (xs.map G).map (voPackageBase cfg) = (xs.map G').map (voPackageBase cfg) := by
    rw [List.map_map, List.map_map]
    refine List.map_congr_left fun x hx => ?_
    rw [Function.comp_apply, Function.comp_apply]
    exact (h x hx).voPackageBase cfg
  have hconv : (xs.map G).map converterCandidate = (xs.map G').map converterCandidate := by
    rw [List.map_map, List.map_map]
    refine List.map_congr_left fun x hx => ?_
    rw [Function.comp_apply, Function.comp_apply]
    exact (h x hx).converterCandidate
  rw [registriesAfter, registriesAfter, hvo, hconv]

/-- Two built graphs plan alike the files they build from one descriptor. -/
theorem samePlanInputs_of_build {raws₁ raws₂ : List Descriptor.FileProto} {g₁ g₂ : Graph}
    (hg₁ : Graph.build raws₁ = .ok g₁) (hg₂ : Graph.build raws₂ = .ok g₂) {k₁ k₂ : Nat}
    {raw : Descriptor.FileProto} (h₁ : raws₁[k₁]? = some raw) (h₂ : raws₂[k₂]? = some raw) :
    SamePlanInputs (g₁.file k₁) (g₂.file k₂) := by
  obtain ⟨w₁, rs₁, hw₁, hu₁⟩ := Graph.build_file_wrap hg₁ h₁
  obtain ⟨w₂, rs₂, hw₂, hu₂⟩ := Graph.build_file_wrap hg₂ h₂
  rw [File.wrap_id k₁ k₂, hw₁] at hw₂
  cases hw₂
  rw [hu₁, hu₂]
  exact ⟨rfl, rfl, rfl, rfl, rfl, rfl⟩

/-! ## The registries along the run -/

theorem planFile_registries (cfg : Config) (u : File) (s : SharedNames) :
    ((planFile cfg u).run s).2 =
      ⟨(s.packages.claim (voPackageBase cfg u)).2, (s.converters.claim (converterCandidate u)).2⟩ := by
  rw [converterCandidate, ← planFile_packages cfg u s, ← planFile_converters cfg u s]

theorem foldl_planFile_registries (cfg : Config) :
    ∀ (us : List File) (s : SharedNames), us.foldl (fun s u => ((planFile cfg u).run s).2) s =
      ⟨s.packages.claimAll (us.map (voPackageBase cfg)),
        s.converters.claimAll (us.map converterCandidate)⟩
  | [], ⟨_, _⟩ => rfl
  | u :: us, s => by
    rw [List.foldl_cons, foldl_planFile_registries cfg us, planFile_registries]
    simp only [List.map_cons, Registry.claimAll_cons]

section Run

variable {cfg : Config} {g : Graph}

theorem foldl_allocStep_registries :
    ∀ (order : List Nat) (acc : Array (Option FilePlan) × SharedNames),
      (order.foldl (allocStep cfg g) acc).2 =
        (order.map g.file).foldl (fun s u => ((planFile cfg u).run s).2) acc.2
  | [], _ => rfl
  | i :: order, acc => by
    rw [List.foldl_cons, foldl_allocStep_registries order]
    rfl

/-- Steps for other files leave a file's slot as it is. -/
theorem foldl_allocStep_getElem?_of_not_mem {i : Nat} :
    ∀ (order : List Nat) (acc : Array (Option FilePlan) × SharedNames), i ∉ order →
      (order.foldl (allocStep cfg g) acc).1[i]? = acc.1[i]?
  | [], _, _ => rfl
  | j :: order, acc, h => by
    have hji : j ≠ i := fun hji => h (hji ▸ List.mem_cons_self)
    rw [List.foldl_cons, foldl_allocStep_getElem?_of_not_mem order _
      fun h' => h (List.mem_cons_of_mem j h')]
    simp [allocStep, Array.getElem?_setIfInBounds_ne hji]

/-- A file's slot holds the plan of its last step, made from the registries of that moment. -/
theorem foldl_allocStep_getElem?_last {f : Nat} {pre post : List Nat}
    (acc : Array (Option FilePlan) × SharedNames) (hf : f ∉ post) (hlt : f < acc.1.size) :
    ((pre ++ f :: post).foldl (allocStep cfg g) acc).1[f]? =
      some (some ((planFile cfg (g.file f)).run (pre.foldl (allocStep cfg g) acc).2).1) := by
  have hsize : (pre.foldl (allocStep cfg g) acc).1.size = acc.1.size := size_foldl_allocStep pre acc
  rw [List.foldl_append, List.foldl_cons, foldl_allocStep_getElem?_of_not_mem post _ hf]
  simp [allocStep, hsize, hlt]

variable (cfg) in
/-- A file's plan is its plan from the registries where the files before its last place in the
planning order have claimed their value-class packages and converter classes. -/
theorem allocate_file_eq (hid : ∀ i < g.files.length, (g.file i).id = i) {genFiles : List Nat}
    {f : Nat} {pre post : List Nat} (horder : allocOrder g genFiles = pre ++ f :: post)
    (hf : f ∉ post) (hlt : f < g.files.length) :
    (allocate cfg g genFiles).file f =
      ((planFile cfg (g.file f)).run (registriesAfter cfg (pre.map g.file))).1 := by
  have hslot : ((allocOrder g genFiles).foldl (allocStep cfg g)
      (Array.replicate g.files.length none, {})).1[f]? =
        some (some ((planFile cfg (g.file f)).run (registriesAfter cfg (pre.map g.file))).1) := by
    rw [horder, foldl_allocStep_getElem?_last _ hf (by simpa using hlt),
      foldl_allocStep_registries, foldl_planFile_registries]
    rfl
  rw [Allocation.file, getElem?_allocate_files_eq cfg hid, hslot]
  rfl

end Run

end BeanCodegen.Plan

namespace BeanCodegen

open BeanCodegen.Schema BeanCodegen.Plan BeanCodegen.Descriptor

/-- A started session is built from the request: its configuration, its graph, its files to
generate and its plans. -/
theorem Session.start_parts {r : Request} {s : Session} (h : Session.start r = .ok s) :
    Config.parse (r.parameter.getD "") = .ok s.config ∧ Graph.build r.protoFile = .ok s.graph ∧
      resolveFiles s.graph r.fileToGenerate = .ok s.genFiles ∧
      s.alloc = allocate s.config s.graph s.genFiles := by
  unfold Session.start at h
  obtain ⟨config, hc, h⟩ := Schema.except_bind_eq_ok h
  obtain ⟨graph, hg, h⟩ := Schema.except_bind_eq_ok h
  obtain ⟨genFiles, hgen, h⟩ := Schema.except_bind_eq_ok h
  cases h
  exact ⟨Schema.mapError_eq_ok hc, Schema.mapError_eq_ok hg, hgen, rfl⟩

/-- A list holding `a` splits at the last place of `a`. -/
theorem exists_eq_append_cons_not_mem {α : Type} {a : α} :
    ∀ {l : List α}, a ∈ l → ∃ A B, l = A ++ a :: B ∧ a ∉ B
  | [], h => absurd h List.not_mem_nil
  | x :: l, h => by
    by_cases hl : a ∈ l
    · obtain ⟨A, B, rfl, hB⟩ := exists_eq_append_cons_not_mem hl
      exact ⟨x :: A, B, rfl, hB⟩
    · obtain rfl : a = x := (List.mem_cons.1 h).resolve_right hl
      exact ⟨[], l, rfl, hl⟩

/-- The files of a request resolve each to the first file with its name. -/
theorem resolveFiles_eq_map {g : Graph} {names : List String} {ks : List Nat}
    (h : resolveFiles g names = .ok ks) :
    ks = names.map (fun n => (g.fileNamed n).getD 0) ∧
      ∀ n ∈ names, g.fileNamed n = some ((g.fileNamed n).getD 0) := by
  have hnamed := resolveFiles_forall₂ h
  clear h
  induction hnamed with
  | nil => exact ⟨rfl, by simp⟩
  | cons hk _ ih =>
    obtain ⟨hks, hall⟩ := ih
    refine ⟨by rw [List.map_cons, hks, hk]; rfl, fun n hn => ?_⟩
    rcases List.mem_cons.1 hn with rfl | hn
    · rw [hk]
      rfl
    · exact hall n hn

/-- In a started session, a file named in the request is planned from the registries where the
files named before the last mention of its name have claimed their names. -/
theorem Session.start_plan_of_name {r : Request} {s : Session} (h : Session.start r = .ok s)
    {A B : List String} {n : String} (hsplit : r.fileToGenerate = A ++ n :: B) (hn : n ∉ B) :
    s.alloc.file ((s.graph.fileNamed n).getD 0) =
      ((planFile s.config (s.graph.file ((s.graph.fileNamed n).getD 0))).run
        (registriesAfter s.config (A.map fun m => s.graph.file ((s.graph.fileNamed m).getD 0)))).1 := by
  obtain ⟨-, hg, hres, halloc⟩ := Session.start_parts h
  have hid : ∀ i < s.graph.files.length, (s.graph.file i).id = i :=
    fun i hi => (Graph.build_linked hg i hi).2
  obtain ⟨hks, hall⟩ := resolveFiles_eq_map hres
  -- a name resolves to one file, and that file has the name
  have hname : ∀ m ∈ r.fileToGenerate, (s.graph.file ((s.graph.fileNamed m).getD 0)).name = m ∧
      (s.graph.fileNamed m).getD 0 < s.graph.files.length := fun m hm =>
    (Graph.fileNamed_eq_some hid (hall m hm)).symm
  have hnmem : n ∈ r.fileToGenerate := hsplit ▸ List.mem_append_right A List.mem_cons_self
  have hlater : (s.graph.fileNamed n).getD 0 ∉ B.map fun m => (s.graph.fileNamed m).getD 0 := by
    intro hmem
    obtain ⟨m, hm, hkm⟩ := List.mem_map.1 hmem
    have hmB : m ∈ r.fileToGenerate := hsplit ▸ List.mem_append_right A (List.mem_cons_of_mem n hm)
    have hmn : m = n := by rw [← (hname m hmB).1, hkm, (hname n hnmem).1]
    exact hn (hmn ▸ hm)
  have horder : allocOrder s.graph s.genFiles =
      A.map (fun m => (s.graph.fileNamed m).getD 0) ++ (s.graph.fileNamed n).getD 0 ::
        (B.map (fun m => (s.graph.fileNamed m).getD 0) ++
          (s.graph.files.map (·.id)).filter (!s.genFiles.contains ·)) := by
    rw [allocOrder, hks, hsplit]
    simp only [List.map_append, List.map_cons, List.append_assoc, List.cons_append]
  have hpost : (s.graph.fileNamed n).getD 0 ∉ B.map (fun m => (s.graph.fileNamed m).getD 0) ++
      (s.graph.files.map (·.id)).filter (!s.genFiles.contains ·) := by
    rw [List.mem_append, not_or]
    refine ⟨hlater, fun hrest => ?_⟩
    have hgen : (s.graph.fileNamed n).getD 0 ∈ s.genFiles := hks ▸ List.mem_map_of_mem hnmem
    simp [hgen] at hrest
  rw [halloc, allocate_file_eq s.config hid horder hpost (hname n hnmem).2, List.map_map]
  rfl

/-- The first file with a name among those a request generates is the same in two requests
whose generated files are the same. -/
theorem find?_named_eq_of_filter {names : List String} {raws₁ raws₂ : List FileProto}
    (h : raws₁.filter (fun raw => names.contains (raw.name.getD "")) =
      raws₂.filter (fun raw => names.contains (raw.name.getD ""))) {n : String} (hn : n ∈ names) :
    raws₁.find? (fun raw => raw.name.getD "" = n) = raws₂.find? (fun raw => raw.name.getD "" = n) := by
  have hfind : ∀ raws : List FileProto, raws.find? (fun raw => raw.name.getD "" = n) =
      (raws.filter fun raw => names.contains (raw.name.getD "")).find?
        (fun raw => raw.name.getD "" = n) := by
    intro raws
    rw [List.find?_filter]
    congr 1
    funext raw
    by_cases hname : raw.name.getD "" = n
    · simp [hname, hn]
    · simp [hname]
  rw [hfind, h, ← hfind]

/-- A file's plan depends on nothing but the file, the parameters and the names claimed by the
files planned before it: in a started session, a file's plan is its plan from the registries
where the files before its last place in the planning order have claimed their value-class
packages and converter classes. Hence two requests with the same parameters, the same files to
generate and the same descriptors for them, in the same order, give these files the same plans,
whatever other files they hold and wherever. -/
theorem Session.plans_of_earlier_claims {r₁ r₂ : Request} {s₁ s₂ : Session}
    (h₁ : Session.start r₁ = .ok s₁) (h₂ : Session.start r₂ = .ok s₂) :
    (∀ f pre post, allocOrder s₁.graph s₁.genFiles = pre ++ f :: post → f ∉ post →
      f < s₁.graph.files.length →
      s₁.alloc.file f = ((planFile s₁.config (s₁.graph.file f)).run
        (registriesAfter s₁.config (pre.map s₁.graph.file))).1) ∧
    (r₁.parameter = r₂.parameter → r₁.fileToGenerate = r₂.fileToGenerate →
      r₁.protoFile.filter (fun raw => r₁.fileToGenerate.contains (raw.name.getD "")) =
        r₂.protoFile.filter (fun raw => r₁.fileToGenerate.contains (raw.name.getD "")) →
      s₁.genFiles.map s₁.alloc.file = s₂.genFiles.map s₂.alloc.file) := by
  obtain ⟨hc₁, hg₁, hres₁, halloc₁⟩ := Session.start_parts h₁
  obtain ⟨hc₂, hg₂, hres₂, halloc₂⟩ := Session.start_parts h₂
  refine ⟨fun f pre post horder hf hlt => ?_, fun hparam hgen hfiles => ?_⟩
  · rw [halloc₁]
    exact allocate_file_eq s₁.config (fun i hi => (Graph.build_linked hg₁ i hi).2) horder hf hlt
  -- the same parameters give the same configuration
  have hcfg : s₁.config = s₂.config := by
    rw [hparam, hc₂] at hc₁
    exact (Except.ok.inj hc₁).symm
  -- a generated name resolves in both requests to files built from one descriptor
  have hsame : ∀ m ∈ r₁.fileToGenerate, SamePlanInputs (s₁.graph.file ((s₁.graph.fileNamed m).getD 0))
      (s₂.graph.file ((s₂.graph.fileNamed m).getD 0)) := by
    intro m hm
    have hk₁ := (resolveFiles_eq_map hres₁).2 m hm
    have hk₂ := (resolveFiles_eq_map hres₂).2 m (hgen ▸ hm)
    have hraw₁ := List.findIdx?_bind_getElem? (fun raw => decide (raw.name.getD "" = m)) r₁.protoFile
    have hraw₂ := List.findIdx?_bind_getElem? (fun raw => decide (raw.name.getD "" = m)) r₂.protoFile
    rw [← Graph.fileNamed_eq_findIdx? hg₁, hk₁, Option.bind_some] at hraw₁
    rw [← Graph.fileNamed_eq_findIdx? hg₂, hk₂, Option.bind_some] at hraw₂
    have hlt : (s₁.graph.fileNamed m).getD 0 < r₁.protoFile.length := by
      rw [← (Graph.build_files hg₁).1]
      exact (Graph.fileNamed_eq_some (fun i hi => (Graph.build_linked hg₁ i hi).2) hk₁).1
    obtain ⟨raw, hraw⟩ : ∃ raw, r₁.protoFile[(s₁.graph.fileNamed m).getD 0]? = some raw :=
      ⟨_, List.getElem?_eq_getElem hlt⟩
    refine samePlanInputs_of_build hg₁ hg₂ hraw ?_
    rw [hraw₂, ← find?_named_eq_of_filter hfiles hm, ← hraw₁, hraw]
  have hks₁ := (resolveFiles_eq_map hres₁).1
  have hks₂ := (resolveFiles_eq_map hres₂).1
  rw [hks₁, hks₂, ← hgen, List.map_map, List.map_map]
  refine List.map_congr_left fun n hn => ?_
  obtain ⟨A, B, hsplit, hnB⟩ := exists_eq_append_cons_not_mem hn
  have hA : ∀ m ∈ A, m ∈ r₁.fileToGenerate := fun m hm => hsplit ▸ List.mem_append_left _ hm
  simp only [Function.comp_apply]
  rw [Session.start_plan_of_name h₁ hsplit hnB, Session.start_plan_of_name h₂ (hgen ▸ hsplit) hnB,
    hcfg, planFile_congr s₂.config (hsame n hn),
    registriesAfter_congr s₂.config fun m hm => hsame m (hA m hm)]

/-- The file `main.proto` of package `foo` with one message `B`. -/
def mainProto : FileProto :=
  { name := some "main.proto", package := some "foo", messageType := [{ name := some "B" }] }

/-- A request generating `main.proto` alone. -/
def mainRequest : Request :=
  { fileToGenerate := ["main.proto"], parameter := some "vopkg=v", protoFile := [mainProto] }

/-- The same request with a file `dep.proto` of the same package before `main.proto`: it is
planned after it and claims the package `v.foo1`. -/
def depMainRequest : Request :=
  { fileToGenerate := ["main.proto"], parameter := some "vopkg=v"
    protoFile := [{ name := some "dep.proto", package := some "foo"
                    messageType := [{ name := some "A" }] }, mainProto] }

theorem depMainRequest_plans_of_earlier_claims :
    ∃ s₁ s₂, Session.start depMainRequest = .ok s₁ ∧ Session.start mainRequest = .ok s₂ ∧
      s₁.genFiles.map s₁.alloc.file = s₂.genFiles.map s₂.alloc.file := by
  have hok : ((Session.start depMainRequest).isOk && (Session.start mainRequest).isOk) = true := by
    with_unfolding_all decide
  cases h₁ : Session.start depMainRequest with
  | error e => simp [h₁, Except.isOk, Except.toBool] at hok
  | ok s₁ =>
    cases h₂ : Session.start mainRequest with
    | error e => simp [h₂, Except.isOk, Except.toBool] at hok
    | ok s₂ => exact ⟨s₁, s₂, rfl, rfl, (Session.plans_of_earlier_claims h₁ h₂).2 rfl rfl rfl⟩

end BeanCodegen
