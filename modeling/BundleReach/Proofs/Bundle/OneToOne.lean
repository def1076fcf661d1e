import BundleReach.Proofs.Bundle.Name
import BundleReach.Proofs.FileTree.Below
import BundleReach.Proofs.Graph.Identity
import BundleReach.Proofs.Graph.Indexes

/-!
# Bundles go with the places where they begin

A built graph has a bundle for its main module and one for each other module that is imported
dynamically.  Each has a name of its own, under which its closure is kept and its folder looked for.

* `OnePass.bundleEntries_eq` — where bundles begin.
* `Seeks`, `GivesName` — how a name is given, with a search that nothing but its success ends.
* `seeks_freeName`, `GivesName.unique` — the search comes to an end, and to one name.
* `bundles_one_to_one` — bundles, names and folders go with the places where bundles begin.
-/

namespace BundleReach

open BundleReach.Path (IsName)

/-! ## Where bundles begin -/

section

variable {r : GraphBuilder} {main p : Path} {g : ModuleGraph} {l : Link}

namespace ModuleGraph

/-- What the dynamic edges lead to, in the order of the edges. -/
def deferred (g : ModuleGraph) : List Path :=
  (g.edges.filter fun e => e.kind = .dynamic).filterMap ImportEdge.target

theorem deferred_addLink : (g.addLink p l).deferred = g.deferred ++ l.defers?.toList := by
  have hone : ((l.edge? p).toList.filter fun e => e.kind = .dynamic).filterMap ImportEdge.target =
      l.defers?.toList := by
    by_cases hsupplied : l.resolution = .supplied
    · simp [Link.edge?, Link.defers?, Link.target?, hsupplied]
    · rw [Link.edge?, if_neg hsupplied, Option.toList_some, Link.defers?]
      by_cases hkind : l.ref.kind = .dynamic
      · cases htarget : l.target? <;> simp [Link.edge, hkind, htarget]
      · simp [Link.edge, hkind]
  unfold deferred
  rw [edges_addLink, List.filter_append, List.filterMap_append, hone]

@[simp] theorem deferred_addModule {m : Module} : (g.addModule m).deferred = g.deferred := by
  rw [deferred, edges_addModule, deferred]

end ModuleGraph

/-- Bundles begin at the main module and at what the dynamic edges lead to, each once. -/
theorem OnePass.bundleEntries_eq (h : OnePass r main g) :
    g.bundleEntries = (main :: g.deferred).eraseDups := by
  refine h.invariant (P := fun g => g.bundleEntries = (main :: g.deferred).eraseDups) rfl ?_ ?_
  · intro g p ref resolution _ _ hg
    rw [ModuleGraph.bundleEntries_addLink, ModuleGraph.deferred_addLink]
    cases (Link.mk ref resolution).defers? with
    | none => simpa using hg
    | some q =>
      show joinOnce q g.bundleEntries = _
      rw [hg, Option.toList_some, ← List.cons_append, eraseDups_concat]
  · intro g q _ hg
    rwa [ModuleGraph.bundleEntries_addModule, ModuleGraph.deferred_addModule]

/-- The main one comes first. -/
theorem OnePass.bundleEntries_eq_cons (h : OnePass r main g) :
    g.bundleEntries = main :: (g.deferred.filter (· ≠ main)).eraseDups := by
  have hothers : (g.deferred.filter fun q => !q == main) = g.deferred.filter (· ≠ main) := by
    refine List.filter_congr fun q _ => ?_
    by_cases hq : q = main
    · simp [hq]
    · simp [hq]
  rw [h.bundleEntries_eq, List.eraseDups_cons, hothers]

/-- What a dynamic edge leads to is the resolved path of a file. -/
theorem OnePass.isFilePlace_of_mem_deferred (h : OnePass r main g) {q : Path}
    (hq : q ∈ g.deferred) : r.IsFilePlace q := by
  obtain ⟨e, he, htarget⟩ := List.mem_filterMap.1 hq
  have hout : e ∈ g.outEdges e.importer := by
    rw [h.complete.edges]
    exact List.mem_filter.2 ⟨List.mem_of_mem_filter he, by simp⟩
  obtain ⟨-, ref, -, resolution, hres, -, hedge⟩ := h.complete.mem_outEdges_iff.1 hout
  rw [hedge] at htarget
  obtain ⟨route, rfl⟩ := Link.target?_eq_some_iff.1 htarget
  exact Resolver.resolve_found hres

end

/-! ## How names are given -/

/-- The path of a module as a bundle's name is made from it: its id without a step that stays. -/
def namingPath (id : String) : List Char :=
  if Text.beginsWith "./" id then id.toList.drop 2 else id.toList

/-- The name of a module's file. -/
def namingFile (id : String) : List Char := (Text.splitAtMark '/' (namingPath id)).getLastD []

/-- The name of a module's file up to its first dot. -/
def shortName (id : String) : String := String.ofList (stemOf (namingFile id))

/-- The path of a module up to the first dot of its file's name, with dashes for slashes. -/
def dashedName (id : String) : String :=
  String.ofList (Text.replaceMark '/' ['-']
    ((namingPath id).take ((namingPath id).length - (namingFile id).length) ++
      stemOf (namingFile id)))

theorem bundleName_eq (taken : List String) (id : String) :
    bundleName taken id =
      if shortName id ∉ taken then shortName id else freeName taken (dashedName id) := rfl

/-- Trying a name, and after it the candidate with one number after the other, comes to an end with
a name that is not taken. -/
inductive Seeks (taken : String → Prop) (candidate : String) : String → Nat → String → Prop
  | free {name : String} {n : Nat} (hfree : ¬ taken name) : Seeks taken candidate name n name
  | next {name found : String} {n : Nat} (htaken : taken name)
      (more : Seeks taken candidate (numbered candidate n) (n + 1) found) :
      Seeks taken candidate name n found

/-- A module's bundle is given a name: the short one, or what a search from the dashed one on comes
to. -/
inductive GivesName (taken : String → Prop) (id : String) : String → Prop
  | short (hfree : ¬ taken (shortName id)) : GivesName taken id (shortName id)
  | dashed {name : String} (htaken : taken (shortName id))
      (seeks : Seeks taken (dashedName id) (dashedName id) 2 name) : GivesName taken id name

section

variable {taken : List String} {candidate name found found' id : String} {n : Nat}
  {isTaken : String → Prop}

theorem Seeks.unique (h : Seeks isTaken candidate name n found)
    (h' : Seeks isTaken candidate name n found') : found = found' := by
  induction h generalizing found' with
  | free hfree =>
    cases h' with
    | free => rfl
    | next htaken => exact absurd htaken hfree
  | next htaken _ ih =>
    cases h' with
    | free hfree => exact absurd htaken hfree
    | next _ more => exact ih more

/-- One name is given, and no other. -/
theorem GivesName.unique {name' : String} (h : GivesName isTaken id name)
    (h' : GivesName isTaken id name') : name = name' := by
  cases h with
  | short hfree =>
    cases h' with
    | short => rfl
    | dashed htaken => exact absurd htaken hfree
  | dashed htaken seeks =>
    cases h' with
    | short hfree => exact absurd htaken hfree
    | dashed _ seeks' => exact seeks.unique seeks'

/-- Trying numbers ends where the bounded search does, if that ends with a free name. -/
theorem seeks_numberedName (tries : Nat) (h : numberedName taken candidate tries n ∉ taken) :
    Seeks (· ∈ taken) candidate (numbered candidate n) (n + 1)
      (numberedName taken candidate tries n) := by
  induction tries generalizing n with
  | zero => exact .free h
  | succ tries ih =>
    rw [numberedName] at h ⊢
    by_cases htaken : numbered candidate n ∈ taken
    · have hnext : (if candidate ++ "-" ++ toString n ∈ taken then
          numberedName taken candidate tries (n + 1) else candidate ++ "-" ++ toString n) =
            numberedName taken candidate tries (n + 1) := if_pos htaken
      simp only [hnext] at h ⊢
      exact .next htaken (ih h)
    · have hhere : (if candidate ++ "-" ++ toString n ∈ taken then
          numberedName taken candidate tries (n + 1) else candidate ++ "-" ++ toString n) =
            numbered candidate n := if_neg htaken
      simp only [hhere] at h ⊢
      exact .free htaken

/-- The search for a free name comes to an end. -/
theorem seeks_freeName (taken : List String) (candidate : String) :
    Seeks (· ∈ taken) candidate candidate 2 (freeName taken candidate) := by
  have hfree := freeName_not_mem taken candidate
  rw [freeName] at hfree ⊢
  by_cases htaken : candidate ∈ taken
  · rw [if_pos htaken] at hfree ⊢
    exact .next htaken (seeks_numberedName taken.length hfree)
  · rw [if_neg htaken]
    exact .free htaken

theorem givesName_bundleName (taken : List String) (id : String) :
    GivesName (· ∈ taken) id (bundleName taken id) := by
  rw [bundleName_eq]
  by_cases htaken : shortName id ∈ taken
  · rw [if_neg (not_not_intro htaken)]
    exact .dashed htaken (seeks_freeName taken (dashedName id))
  · rw [if_pos htaken]
    exact .short htaken

end

/-! ## The bundles of a graph -/

section

variable {g : ModuleGraph} {before after : List Bundle} {b : Bundle}

/-- Each bundle but the main one is named after its entry, free of those named before. -/
theorem givesName_of_lazyBundles {taken : List String} {entries : List Path}
    (h : lazyBundles g taken entries = before ++ b :: after) :
    ∃ entry ∈ entries, b.entries = [entry] ∧
      GivesName (fun name => name ∈ before.map Bundle.name ∨ name ∈ taken) (g.idOf entry)
        b.name := by
  induction entries generalizing taken before with
  | nil => simp [lazyBundles] at h
  | cons entry rest ih =>
    rw [lazyBundles] at h
    cases before with
    | nil =>
      rw [List.nil_append, List.cons.injEq] at h
      obtain ⟨rfl, -⟩ := h
      have htaken : (fun name => name ∈ ([] : List Bundle).map Bundle.name ∨ name ∈ taken) =
          (· ∈ taken) := by
        funext name
        simp
      have hgives := givesName_bundleName taken (g.idOf entry)
      rw [← htaken] at hgives
      exact ⟨entry, List.mem_cons_self, rfl, hgives⟩
    | cons first before =>
      rw [List.cons_append, List.cons.injEq] at h
      obtain ⟨rfl, hrest⟩ := h
      obtain ⟨entry', hentry', hone, hgives⟩ := ih hrest
      refine ⟨entry', List.mem_cons_of_mem entry hentry', hone, ?_⟩
      have htaken : (fun name => name ∈ before.map Bundle.name ∨
            name ∈ bundleName taken (g.idOf entry) :: taken) =
          fun name => name ∈ (⟨bundleName taken (g.idOf entry), [entry], none⟩ :: before).map
            Bundle.name ∨ name ∈ taken := by
        funext name
        rw [List.map_cons, List.mem_cons, List.mem_cons, or_left_comm, or_assoc]
      rwa [htaken] at hgives

/-- Each bundle of a graph but the first is named after its entry, free of the names before. -/
theorem givesName_of_partition (h : partition g = before ++ b :: after) (hne : before ≠ []) :
    ∃ entry ∈ g.bundleEntries.tail, b.entries = [entry] ∧
      GivesName (· ∈ before.map Bundle.name) (g.idOf entry) b.name := by
  rw [partition] at h
  split at h
  · simp at h
  · rename_i main rest hentries
    obtain ⟨first, before, rfl⟩ := List.exists_cons_of_ne_nil hne
    rw [List.cons_append, List.cons.injEq] at h
    obtain ⟨rfl, hrest⟩ := h
    obtain ⟨entry, hentry, hone, hgives⟩ := givesName_of_lazyBundles hrest
    have htaken : (fun name => name ∈ before.map Bundle.name ∨ name ∈ [mainBundleName]) =
        fun name => name ∈ ((⟨mainBundleName, [main], none⟩ :: before).map Bundle.name) := by
      funext name
      rw [List.mem_singleton, List.map_cons, List.mem_cons, or_comm]
    rw [htaken] at hgives
    exact ⟨entry, by rwa [hentries], hone, hgives⟩

/-- Names of their own keep the closures of bundles apart. -/
theorem frozenClosures_partition (g : ModuleGraph) :
    frozenClosures (g.apply .freeze) (partition g) =
      .ok ((partition g).map fun b => (b.name, closure g b.entries)) := by
  have hkeys : (Table.keys ((partition g).map fun b =>
      (b.name, closure (g.apply .freeze) b.entries))).Nodup := by
    rw [keys_closures]
    exact nodup_names_partition g
  have hfrozen : (g.apply .freeze).frozen = true := rfl
  rw [frozenClosures, if_pos hfrozen, closures, Table.ofEntries_of_nodup hkeys]
  simp only [closure_freeze]

/-- A name leads from a folder to what stands in it under the name. -/
theorem child_of_isName {name : String} (h : IsName name) (folder : Path) :
    (folder.child name).parent = folder ∧ (folder.child name).name = name := by
  rw [Path.child_of_isPart h.toIsPart]
  exact ⟨by simp [Path.parent], by simp [Path.name]⟩

end

/-! ## One to one -/

/-- Bundles go with the places where they begin: the main module first, then whatever else the
dynamic edges lead to. -/
structure BundlesOneToOne (main : Path) (g : ModuleGraph) : Prop where
  begins : g.bundleEntries = main :: (g.deferred.filter (· ≠ main)).eraseDups
  /-- There is one bundle for each of these places, in order. -/
  entries : (partition g).map Bundle.entries = g.bundleEntries.map fun p => [p]
  first : (partition g).head?.map Bundle.name = some mainBundleName
  /-- The search for the name of each other bundle comes to an end. -/
  named : ∀ before b after, partition g = before ++ b :: after → before ≠ [] →
    ∃ entry, b.entries = [entry] ∧
      GivesName (· ∈ before.map Bundle.name) (g.idOf entry) b.name
  nodup : ((partition g).map Bundle.name).Nodup
  /-- A name is not empty, no step that stays or goes up, and without a slash. -/
  names : ∀ b ∈ partition g, IsName b.name
  /-- Under each name the closure of its own bundle is kept. -/
  closures : frozenClosures (g.apply .freeze) (partition g) =
    .ok ((partition g).map fun b => (b.name, closure g b.entries))
  /-- The folders of bundles stand side by side in whatever folder bundles are in. -/
  folders : ∀ bundlesFolder : Path, ∀ b ∈ partition g,
    (bundlesFolder.child b.name).parent = bundlesFolder ∧
      (bundlesFolder.child b.name).name = b.name
  apart : ∀ bundlesFolder : Path,
    ((partition g).map fun b => bundlesFolder.child b.name).Nodup

/-- A module that a dynamic edge leads to is seen from the root by a path that ends in a name. -/
theorem OnePass.endsInName_of_mem_deferred {r : GraphBuilder} {main q : Path} {g : ModuleGraph}
    (h : OnePass r main g) (ht : r.tree.WellFormed) (hroot : r.app.root.IsNormal)
    (hfolder : r.tree.isFolder r.app.root = true) (hq : q ∈ g.deferred) :
    EndsInName (g.idOf q) := by
  obtain ⟨x, hx, rfl⟩ := h.isFilePlace_of_mem_deferred hq
  obtain ⟨content, hentry⟩ := FileTree.exists_content_of_isFile hx
  have hgroot : g.root = r.app.root := h.complete.root
  rw [ModuleGraph.idOf, hgroot]
  exact endsInName_relativeTo hroot.isPlain (ht.isPlain_resolve hentry)
    (FileTree.not_prefix_of_isFolder hx hfolder)

/-- In a built graph, bundles go with the places where they begin. -/
theorem OnePass.bundlesOneToOne {r : GraphBuilder} {main : Path} {g : ModuleGraph}
    (h : OnePass r main g) (ht : r.tree.WellFormed) (hroot : r.app.root.IsNormal)
    (hfolder : r.tree.isFolder r.app.root = true) : BundlesOneToOne main g := by
  have hbegins := h.bundleEntries_eq_cons
  have hnames : ∀ b ∈ partition g, IsName b.name := by
    intro b hb
    refine isName_of_mem_partition (fun entry hentry => ?_) hb
    rw [hbegins, List.tail_cons, List.mem_eraseDups] at hentry
    exact h.endsInName_of_mem_deferred ht hroot hfolder (List.mem_of_mem_filter hentry)
  constructor
  case begins => exact hbegins
  case entries => exact entries_partition g
  case first =>
    rw [partition, hbegins]
    rfl
  case named =>
    intro before b after hsplit hne
    obtain ⟨entry, -, hone, hgives⟩ := givesName_of_partition hsplit hne
    exact ⟨entry, hone, hgives⟩
  case nodup => exact nodup_names_partition g
  case names => exact hnames
  case closures => exact frozenClosures_partition g
  case folders =>
    intro bundlesFolder b hb
    exact child_of_isName (hnames b hb) bundlesFolder
  case apart =>
    intro bundlesFolder
    refine List.Nodup.of_map Path.name ?_
    have hback : ((partition g).map fun b => bundlesFolder.child b.name).map Path.name =
        (partition g).map Bundle.name := by
      rw [List.map_map]
      exact List.map_congr_left fun b hb => (child_of_isName (hnames b hb) bundlesFolder).2
    rw [hback]
    exact nodup_names_partition g

/-- However many places bundles begin at and whatever their files are called, each bundle of a built
graph has its own entry, name, closure and folder. -/
theorem bundles_one_to_one (r : GraphBuilder) (order : EndOrder) (main : Path) (g : ModuleGraph)
    (ht : r.tree.WellFormed) (hroot : r.app.root.IsNormal)
    (hfolder : r.tree.isFolder r.app.root = true) (h : buildGraphIn r order main = .ok g) :
    BundlesOneToOne (r.tree.resolve main) g :=
  (buildGraphIn_eq_ok_iff.1 h).2.bundlesOneToOne ht hroot hfolder

/-- Scripts that wait for others with one name up to its first dot, for one named as the main bundle
is, twice for one of them, and for the main module. -/
def clashingScripts : List (String × PlainScript) := [
  ("app.js", [.wait "./x.js", .wait "./x.mjs", .wait "./main.js", .wait "./x.js"]),
  ("x.js", [.wait "./x.min.js", .wait "./app.js"]),
  ("x.mjs", [.load "./x.js"]),
  ("main.js", [.offer "a"]),
  ("x.min.js", [.offer "b"])]

theorem bundles_one_to_one_clashing :
    (plainBuilder clashingScripts).tree.WellFormed ∧
      (plainBuilder clashingScripts).app.root.IsNormal ∧
      (plainBuilder clashingScripts).tree.isFolder (plainBuilder clashingScripts).app.root = true ∧
      ∃ g, buildGraphIn (plainBuilder clashingScripts) .asked (appFile "app.js") = .ok g ∧
        ((partition g).map (fun b => (b.name, b.entries)) =
            [("main", [appFile "app.js"]), ("x", [appFile "x.js"]), ("x-2", [appFile "x.mjs"]),
              ("main-2", [appFile "main.js"]), ("x-3", [appFile "x.min.js"])] ∧
          g.deferred = ["x.js", "x.mjs", "main.js", "x.js", "x.min.js", "app.js"].map appFile) ∧
        BundlesOneToOne ((plainBuilder clashingScripts).tree.resolve (appFile "app.js")) g := by
  have hformed : (plainBuilder clashingScripts).tree.WellFormed :=
    ⟨by decide +kernel, by decide +kernel⟩
  have hroot : (plainBuilder clashingScripts).app.root.IsNormal := by decide +kernel
  have hfolder : (plainBuilder clashingScripts).tree.isFolder
      (plainBuilder clashingScripts).app.root = true := by
    decide +kernel
  refine ⟨hformed, hroot, hfolder, exists_ok_and ?_ fun g hg _ =>
    bundles_one_to_one _ _ _ g hformed hroot hfolder hg⟩
  decide +kernel

end BundleReach
