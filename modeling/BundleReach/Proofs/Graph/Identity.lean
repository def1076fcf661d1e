import BundleReach.Proofs.FileTree.Canonical
import BundleReach.Proofs.Graph.Reached
import BundleReach.Proofs.Path.Relative
import BundleReach.Proofs.Plain
import BundleReach.Proofs.Resolution.Found

/-!
# Modules, their files and their ids

The modules of a built graph are canonical paths: whatever specifier or chain of links leads to a
module's file leads to the module.  Their ids are the paths as seen from the root, which lead back
to them, so no two modules have one id, and none has the one of an import that leads nowhere.

* `OnePass.resolve_eq_self` — a module's path is canonical.
* `OnePass.isPlain_of_hasModule` — and plain, from which it follows that its id is its own.
* `modules_one_to_one` — modules, files and ids go with each other.
-/

namespace BundleReach

/-! ## Normal paths -/

/-- A normal path from the top, as texts write it. -/
structure Path.IsNormal (p : Path) : Prop where
  written : p.IsWritten
  absolute : p.isAbsolute = true
  normal : p.normal = p

instance (p : Path) : Decidable p.IsNormal :=
  decidable_of_iff (p.IsWritten ∧ p.isAbsolute = true ∧ p.normal = p)
    ⟨fun h => ⟨h.1, h.2.1, h.2.2⟩, fun h => ⟨h.written, h.absolute, h.normal⟩⟩

namespace Path.IsNormal

variable {p q : Path}

theorem isPlain (h : p.IsNormal) : p.IsPlain := isPlain_iff.2 ⟨h.written, h.absolute, h.normal⟩

/-- A path from the top that is not written with two slashes is written with one. -/
theorem anchor_eq (h : p.IsNormal) (hone : p.anchor ≠ .doubleRoot) : p.anchor = .root := by
  have habs := h.absolute
  rw [isAbsolute, bne_iff_ne] at habs
  cases ha : p.anchor with
  | here => exact absurd ha habs
  | root => rfl
  | doubleRoot => exact absurd ha hone

end Path.IsNormal

/-! ## Paths of modules -/

variable {r : GraphBuilder} {main p q : Path} {g : ModuleGraph}

namespace OnePass

/-- A module's path is canonical if the main module's is. -/
theorem resolve_eq_self (h : OnePass r main g) (hmain : r.tree.resolve main = main)
    (hp : g.hasModule p = true) : r.tree.resolve p = p := by
  refine h.induction (P := fun p => r.tree.resolve p = p) hmain
    (fun _ _ _ _ _ q route hres => ?_) hp
  obtain ⟨x, hx, rfl⟩ := Resolver.resolve_found hres
  exact FileTree.resolve_resolve_of_isFile hx

/-- A module's path is plain if the main module's is. -/
theorem isPlain_of_hasModule (h : OnePass r main g) (ht : r.tree.WellFormed)
    (hmain : main.IsPlain) (hp : g.hasModule p = true) : p.IsPlain := by
  refine h.induction hmain (fun _ _ _ _ _ q route hres => ?_) hp
  obtain ⟨x, hx, rfl⟩ := Resolver.resolve_found hres
  obtain ⟨content, hentry⟩ := FileTree.exists_content_of_isFile hx
  exact ht.isPlain_resolve hentry

/-- A module carries its path as seen from the root. -/
theorem id_of_mem (h : OnePass r main g) {e : Path × Module} (he : e ∈ g.modules) :
    e.2.id = r.app.root.relativeTo e.1 := by
  rw [h.complete.id_of_mem he, ModuleGraph.idOf, h.complete.root]

end OnePass

/-! ## Modules, files and ids -/

/-- Modules go one to one with their files and their ids. -/
structure ModulesOneToOne (r : GraphBuilder) (g : ModuleGraph) : Prop where
  /-- Resolving the path of a module changes nothing. -/
  canonical : ∀ p, g.hasModule p = true → r.tree.resolve p = p
  /-- Whatever path leads to a module's file is resolved to the module's own. -/
  merged : ∀ p, g.hasModule p = true → ∀ q place, r.tree.walk p = .ok place →
    r.tree.walk q = .ok place → r.tree.resolve q = p
  /-- Whatever specifier leads to a module's file, from wherever, leads to the module. -/
  found : ∀ p, g.hasModule p = true → ∀ importer specifier q route,
    r.resolve importer specifier = .ok (.found q route) →
      ∀ place, r.tree.walk p = .ok place → r.tree.walk q = .ok place → q = p
  /-- The id of a module leads from the root to the module. -/
  back : ∀ e ∈ g.modules, e.2.id = g.idOf e.1 ∧
    (g.root.child e.2.id).normal = ⟨g.root.anchor, e.1.parts⟩
  /-- Modules of one id are one module. -/
  ids : ∀ e ∈ g.modules, ∀ e' ∈ g.modules, e.2.id = e'.2.id → e = e'
  once : (g.modules.map fun e => e.2.id).Nodup
  /-- No module has the id of an import that leads nowhere. -/
  told : ∀ e ∈ g.modules, e.2.id ≠ unresolvedName

/-- A graph built from a main module that links do not lead round. -/
theorem OnePass.modulesOneToOne (h : OnePass r (r.tree.resolve main) g) (ht : r.tree.WellFormed)
    (hl : r.tree.LinksWritten) (hroot : r.app.root.IsNormal) (hmain : main.IsWritten)
    (hloop : r.tree.LoopFree main) : ModulesOneToOne r g := by
  have hcanonical : ∀ p, g.hasModule p = true → r.tree.resolve p = p := fun p hp =>
    h.resolve_eq_self (FileTree.resolve_resolve_of_loopFree hloop) hp
  have hplain : ∀ p, g.hasModule p = true → p.IsPlain := fun p hp =>
    h.isPlain_of_hasModule ht (FileTree.isPlain_resolve_of_loopFree hl hmain hloop) hp
  have hmodule : ∀ e ∈ g.modules, g.hasModule e.1 = true := fun e he =>
    ModuleGraph.hasModule_iff.2 (List.mem_map.2 ⟨e, he, rfl⟩)
  have hgroot : g.root = r.app.root := h.complete.root
  have hinjective : ∀ e ∈ g.modules, ∀ e' ∈ g.modules, e.2.id = e'.2.id → e.1 = e'.1 := by
    intro e he e' he' heq
    rw [h.id_of_mem he, h.id_of_mem he'] at heq
    have hparts := Path.parts_eq_of_relativeTo_eq hroot.isPlain (hplain _ (hmodule e he))
      (hplain _ (hmodule e' he')) heq
    -- Resolved paths are all from the top, written with one slash.
    rw [← hcanonical _ (hmodule e he), ← hcanonical _ (hmodule e' he'), FileTree.resolve,
      FileTree.resolve, hparts]
  have hids : ∀ e ∈ g.modules, ∀ e' ∈ g.modules, e.2.id = e'.2.id → e = e' := by
    intro e he e' he' heq
    rw [h.complete.modules e he, h.complete.modules e' he', hinjective e he e' he' heq]
  have hmerged : ∀ p, g.hasModule p = true → ∀ q place, r.tree.walk p = .ok place →
      r.tree.walk q = .ok place → r.tree.resolve q = p := by
    intro p hp q place hwalk hwalk'
    rw [FileTree.resolve_eq_of_walk_eq hwalk' hwalk, hcanonical p hp]
  refine ⟨hcanonical, hmerged, fun p hp importer specifier q route hres place hwalk hwalk' => ?_,
    fun e he => ⟨?_, ?_⟩, hids, ?_, fun e he => ?_⟩
  · obtain ⟨x, hx, rfl⟩ := Resolver.resolve_found hres
    rw [← hmerged p hp _ place hwalk hwalk', FileTree.resolve_resolve_of_isFile hx]
  · rw [ModuleGraph.idOf, hgroot, h.id_of_mem he]
  · rw [h.id_of_mem he, hgroot,
      Path.normal_child_relativeTo_eq hroot.isPlain (hplain _ (hmodule e he))]
  · refine List.Nodup.map_on hids ?_
    exact List.Nodup.of_map Prod.fst h.complete.nodup
  · obtain ⟨cs, hcs⟩ := Path.exists_toList_relativeTo r.app.root e.1
    intro hname
    rw [h.id_of_mem he] at hname
    rw [hname] at hcs
    cases hcs

/-- Seen from a normal root, normal paths are told apart, and what they are seen as leads back to
them.  So the modules of a graph, built from a main module that links do not lead round, go one to
one with their files and their ids. -/
theorem modules_one_to_one :
    (∀ start : Path, start.IsNormal → ∀ p : Path, p.IsNormal → p.anchor ≠ .doubleRoot →
      (start.child (start.relativeTo p)).normal = ⟨start.anchor, p.parts⟩ ∧
      (start.anchor ≠ .doubleRoot → (start.child (start.relativeTo p)).normal = p) ∧
      ∀ q : Path, q.IsNormal → q.anchor ≠ .doubleRoot →
        start.relativeTo p = start.relativeTo q → p = q) ∧
    ∀ (r : GraphBuilder) (order : EndOrder) (main : Path) (g : ModuleGraph), r.tree.WellFormed →
      r.tree.LinksWritten → r.app.root.IsNormal → main.IsWritten → r.tree.LoopFree main →
      buildGraphIn r order main = .ok g → ModulesOneToOne r g := by
  refine ⟨fun start hs p hp hone => ?_, fun r order main g ht hl hroot hmain hloop h => ?_⟩
  · have hback := Path.normal_child_relativeTo_eq hs.isPlain hp.isPlain
    refine ⟨hback, fun hsingle => ?_, fun q hq hone' heq => ?_⟩
    · rw [hback, hs.anchor_eq hsingle, ← hp.anchor_eq hone]
    · have hparts := Path.parts_eq_of_relativeTo_eq hs.isPlain hp.isPlain hq.isPlain heq
      have hanchors : p.anchor = q.anchor := (hp.anchor_eq hone).trans (hq.anchor_eq hone').symm
      cases p
      cases q
      cases hparts
      cases hanchors
      rfl
  · exact (buildGraphIn_eq_ok_iff.1 h).2.modulesOneToOne ht hl hroot hmain hloop

/-- An output with a value that a link leads to. -/
def linkedOutput : FileTree where
  entries := [(["app"], .folder), (["app", "data.json"], .file [0x31]),
    (["app", "entry.json"], .link ⟨.here, ["..", "app", "data.json"]⟩)]

/-- The package of the output resolves in its own folder. -/
def linkedBuilder : GraphBuilder where
  tree := linkedOutput
  app := { name := "app", root := ⟨.root, ["app"]⟩, kind := .app }
  addons := []
  settings := .initial 4
  parse := PlainScript.parser []

/-- From the link on, the graph has the value as its one module; a path beside the root is told by
a step up. -/
theorem modules_one_to_one_linked :
    ∃ g, linkedOutput.WellFormed ∧ linkedOutput.LinksWritten ∧
      linkedBuilder.app.root.IsNormal ∧
      (⟨.root, ["app", "entry.json"]⟩ : Path).IsWritten ∧
      linkedOutput.LoopFree ⟨.root, ["app", "entry.json"]⟩ ∧
      buildGraphIn linkedBuilder .asked ⟨.root, ["app", "entry.json"]⟩ = .ok g ∧
      ModulesOneToOne linkedBuilder g ∧
      (g.modules.map fun e => (e.1, e.2.id)) =
        [(⟨.root, ["app", "data.json"]⟩, "./data.json")] ∧
      (⟨.root, ["app"]⟩ : Path).relativeTo ⟨.root, ["lib", "a.js"]⟩ = "../lib/a.js" ∧
      ((⟨.root, ["app"]⟩ : Path).child
        ((⟨.root, ["app"]⟩ : Path).relativeTo ⟨.root, ["lib", "a.js"]⟩)).normal =
          ⟨.root, ["lib", "a.js"]⟩ := by
  have hformed : linkedOutput.WellFormed := ⟨by decide +kernel, by decide +kernel⟩
  have hwritten : linkedOutput.LinksWritten := by decide +kernel
  have hroot : (⟨.root, ["app"]⟩ : Path).IsNormal := by decide +kernel
  have hmain : (⟨.root, ["app", "entry.json"]⟩ : Path).IsWritten := by decide +kernel
  have hloop : linkedOutput.LoopFree ⟨.root, ["app", "entry.json"]⟩ := by decide +kernel
  have hpath : (⟨.root, ["lib", "a.js"]⟩ : Path).IsNormal := by decide +kernel
  have hmodules : ∃ g, buildGraphIn linkedBuilder .asked ⟨.root, ["app", "entry.json"]⟩ = .ok g ∧
      (g.modules.map fun e => (e.1, e.2.id)) =
        [(⟨.root, ["app", "data.json"]⟩, "./data.json")] := by
    decide +kernel
  obtain ⟨g, hg, hmodules⟩ := hmodules
  exact ⟨g, hformed, hwritten, hroot, hmain, hloop, hg,
    modules_one_to_one.2 _ _ _ g hformed hwritten hroot hmain hloop hg, hmodules,
    by decide +kernel, (modules_one_to_one.1 _ hroot _ hpath (by decide)).2.1 (by decide)⟩

end BundleReach
