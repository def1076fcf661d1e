import BundleReach.Audit
import BundleReach.Proofs.Bundle.Artifact
import BundleReach.Proofs.Bundle.Basic
import BundleReach.Proofs.FileTree.WellFormed
import BundleReach.Proofs.Graph.Reached
import BundleReach.Proofs.Package.Manifest
import BundleReach.Proofs.Path.Relative
import BundleReach.Proofs.Resolution.Found

/-!
# The stages of an audit

A finished audit has gone through all its stages: settings and packages have been found, then the
entry, and from it the graph has been built.

* `stages_of_runAudit` — what each stage of a finished audit came to.
* `Stages.isPlain_root`, `Stages.isPlain_of_hasModule` — in a well-formed tree the paths that an
  audit is about are plain.
* `Stages.idOf_injective` — and no two modules have one path as seen from the root.
* `exists_computed`, `closureOf_computed` — each place where bundles begin has a bundle, whose
  closure is found under its name.
-/

namespace BundleReach

variable {e : Environment} {t : FileTree} {output : Path} {given : Option Settings} {a : Audit}

/-! ## What the stages come to -/

/-- The stages of an audit up to its graph: the packages and settings that resolution goes by, the
entry, and the graph built from there. -/
structure Stages (e : Environment) (t : FileTree) (output : Path) (given : Option Settings)
    (r : GraphBuilder) (main : Path) (built : ModuleGraph) : Prop where
  tree : r.tree = t
  parse : r.parse = e.parse
  folder : t.isFolder output = true
  settings : settingsFor e t (t.resolve output) given = .ok r.settings
  app : loadApp t (t.resolve output) = .ok r.app
  addons : locateAddons t (t.resolve output) r.app = .ok r.addons
  entry : ∃ candidate, r.probe candidate = .ok (some main)
  built : buildGraph r main = .ok built

/-- An audit comes to an end where each of its stages does. -/
theorem runAudit_eq_ok_iff :
    runAudit e t output given = .ok a ↔
      t.isFolder output = true ∧ ∃ settings app addons main built,
        settingsFor e t (t.resolve output) given = .ok settings ∧
        loadApp t (t.resolve output) = .ok app ∧
        locateAddons t (t.resolve output) app = .ok addons ∧
        (⟨t, app, addons, settings⟩ : Resolver).probe (app.root.child (match app.main with
          | none | some "" => defaultEntry
          | some main => main)) = .ok (some main) ∧
        buildGraph ⟨⟨t, app, addons, settings⟩, e.parse⟩ main = .ok built ∧
        a = auditGraph t (t.resolve output) settings (app :: addons) built := by
  rw [runAudit]
  by_cases hfolder : t.isFolder output = true
  · rw [hfolder]
    constructor
    · intro h
      obtain ⟨settings, hsettings, h⟩ := bind_eq_ok_iff.1 h
      obtain ⟨app, happ, h⟩ := bind_eq_ok_iff.1 h
      obtain ⟨addons, haddons, h⟩ := bind_eq_ok_iff.1 h
      obtain ⟨entry, hentry, h⟩ := bind_eq_ok_iff.1 h
      cases entry with
      | none => cases h
      | some main =>
        obtain ⟨built, hbuilt, h⟩ := bind_eq_ok_iff.1 h
        rw [mapError_eq_ok_iff] at hsettings happ haddons hentry hbuilt
        exact ⟨rfl, settings, app, addons, main, built, hsettings, happ, haddons, hentry, hbuilt,
          (pure_eq_ok_iff.1 h).symm⟩
    · rintro ⟨-, settings, app, addons, main, built, hsettings, happ, haddons, hentry, hbuilt, rfl⟩
      refine bind_eq_ok_iff.2 ⟨settings, mapError_eq_ok_iff.2 hsettings, ?_⟩
      refine bind_eq_ok_iff.2 ⟨app, mapError_eq_ok_iff.2 happ, ?_⟩
      refine bind_eq_ok_iff.2 ⟨addons, mapError_eq_ok_iff.2 haddons, ?_⟩
      refine bind_eq_ok_iff.2 ⟨some main, mapError_eq_ok_iff.2 hentry, ?_⟩
      exact bind_eq_ok_iff.2 ⟨built, mapError_eq_ok_iff.2 hbuilt, rfl⟩
  · rw [Bool.not_eq_true] at hfolder
    rw [hfolder]
    refine ⟨fun h => ?_, fun h => absurd h.1 (by decide)⟩
    obtain ⟨_, hthrow, -⟩ := bind_eq_ok_iff.1 h
    cases hthrow

/-- A finished audit is that of the graph that its stages have come to. -/
theorem stages_of_runAudit (h : runAudit e t output given = .ok a) :
    ∃ r main built, Stages e t output given r main built ∧
      a = auditGraph t (t.resolve output) r.settings (r.app :: r.addons) built := by
  obtain ⟨hfolder, settings, app, addons, main, built, hsettings, happ, haddons, hentry, hbuilt,
    rfl⟩ := runAudit_eq_ok_iff.1 h
  exact ⟨⟨⟨t, app, addons, settings⟩, e.parse⟩, main, built,
    ⟨rfl, rfl, hfolder, hsettings, happ, haddons, ⟨_, hentry⟩, hbuilt⟩, rfl⟩

/-- A finished audit is that of a graph built from the packages and settings found. -/
theorem exists_of_runAudit (h : runAudit e t output given = .ok a) :
    ∃ settings app addons main built,
      settingsFor e t (t.resolve output) given = .ok settings ∧
      loadApp t (t.resolve output) = .ok app ∧
      locateAddons t (t.resolve output) app = .ok addons ∧
      buildGraph ⟨⟨t, app, addons, settings⟩, e.parse⟩ main = .ok built ∧
      a = auditGraph t (t.resolve output) settings (app :: addons) built := by
  obtain ⟨⟨⟨_, app, addons, settings⟩, _⟩, main, built, hstages, rfl⟩ := stages_of_runAudit h
  obtain rfl := hstages.tree
  obtain rfl := hstages.parse
  exact ⟨settings, app, addons, main, built, hstages.settings, hstages.app, hstages.addons,
    hstages.built, rfl⟩

namespace Stages

variable {r : GraphBuilder} {main : Path} {built : ModuleGraph}

theorem root_eq (h : Stages e t output given r main built) :
    r.app.root = t.resolve output :=
  root_of_loadApp h.app

theorem onePass (h : Stages e t output given r main built) :
    OnePass r (t.resolve main) built :=
  h.tree ▸ (buildGraphIn_eq_ok_iff.1 h.built).2

theorem isPlain_root (h : Stages e t output given r main built) (ht : t.WellFormed) :
    (t.resolve output).IsPlain := by
  refine ht.isPlain_resolve (e := .folder) ?_
  simpa [FileTree.isFolder] using h.folder

/-- The main module's path is the resolved path of a file. -/
theorem isFilePlace_main (h : Stages e t output given r main built) :
    r.IsFilePlace (t.resolve main) := by
  obtain ⟨_, hprobe⟩ := h.entry
  obtain ⟨q, hq, rfl⟩ := Resolver.isFilePlace_of_probe hprobe
  rw [h.tree] at hq ⊢
  rw [FileTree.resolve_resolve_of_isFile hq]
  exact ⟨q, h.tree ▸ hq, h.tree ▸ rfl⟩

/-- The modules of an audit are the resolved paths of files. -/
theorem isFilePlace_of_hasModule (h : Stages e t output given r main built) {p : Path}
    (hp : built.hasModule p = true) : r.IsFilePlace p :=
  h.onePass.induction h.isFilePlace_main
    (fun _ _ _ _ _ _ _ hres => Resolver.resolve_found hres) hp

theorem isPlain_of_hasModule (h : Stages e t output given r main built) (ht : t.WellFormed)
    {p : Path} (hp : built.hasModule p = true) : p.IsPlain := by
  obtain ⟨q, hq, rfl⟩ := h.isFilePlace_of_hasModule hp
  rw [h.tree] at hq ⊢
  obtain ⟨content, hentry⟩ := FileTree.exists_content_of_isFile hq
  exact ht.isPlain_resolve hentry

/-- Modules of an audit that have one path as seen from the root are one module. -/
theorem idOf_injective (h : Stages e t output given r main built) (ht : t.WellFormed)
    {p q : Path} (hp : built.hasModule p = true) (hq : built.hasModule q = true)
    (heq : built.idOf p = built.idOf q) : p = q := by
  have hroot : built.root = t.resolve output := h.onePass.complete.root.trans h.root_eq
  have hanchor : ∀ x, built.hasModule x = true → x.anchor = .root := by
    intro x hx
    obtain ⟨y, -, rfl⟩ := h.isFilePlace_of_hasModule hx
    rfl
  rw [ModuleGraph.idOf, ModuleGraph.idOf, hroot] at heq
  exact Path.relativeTo_injective (h.isPlain_root ht) (h.isPlain_of_hasModule ht hp)
    (h.isPlain_of_hasModule ht hq) (hanchor p hp) (hanchor q hq) heq

/-- A module carries its path as seen from the root. -/
theorem id_of_mem (h : Stages e t output given r main built) {e : Path × Module}
    (he : e ∈ built.modules) : e.2.id = built.idOf e.1 :=
  h.onePass.complete.id_of_mem he

/-- No two modules of an audit have one path as seen from the root. -/
theorem nodup_ids (h : Stages e t output given r main built) (ht : t.WellFormed) :
    (built.modules.map fun e => e.2.id).Nodup := by
  have hids : (built.modules.map fun e => e.2.id) = (Table.keys built.modules).map built.idOf := by
    rw [Table.keys, List.map_map]
    exact List.map_congr_left fun e he => h.id_of_mem he
  rw [hids]
  refine List.Nodup.map_on (fun p hp q hq heq => ?_) h.onePass.complete.nodup
  exact h.idOf_injective ht (ModuleGraph.hasModule_iff.2 hp) (ModuleGraph.hasModule_iff.2 hq) heq

end Stages

/-! ## The bundles of an audit -/

section

variable {root : Path} {settings : Settings} {packages : List Package} {built : ModuleGraph}

theorem map_computed (t : FileTree) (root : Path) (settings : Settings) (packages : List Package)
    (built : ModuleGraph) :
    (auditGraph t root settings packages built).computed.map (fun b => (b.name, b.entries)) =
      (partition (built.apply .freeze)).map fun b => (b.name, b.entries) :=
  map_observeArtifacts _

theorem names_computed (t : FileTree) (root : Path) (settings : Settings)
    (packages : List Package) (built : ModuleGraph) :
    (auditGraph t root settings packages built).computed.map Bundle.name =
      (partition (built.apply .freeze)).map Bundle.name := by
  have h := congrArg (List.map Prod.fst) (map_computed t root settings packages built)
  rwa [List.map_map, List.map_map] at h

theorem entries_computed (t : FileTree) (root : Path) (settings : Settings)
    (packages : List Package) (built : ModuleGraph) :
    (auditGraph t root settings packages built).computed.map Bundle.entries =
      built.bundleEntries.map fun p => [p] := by
  have h := congrArg (List.map Prod.snd) (map_computed t root settings packages built)
  rw [List.map_map, List.map_map] at h
  exact h.trans (entries_partition _)

/-- The closure of a bundle is that of its entries. -/
theorem closureOf_eq_closure {b : Bundle}
    (hb : b ∈ (auditGraph t root settings packages built).computed) :
    closureOf (auditGraph t root settings packages built).closures b =
      closure (built.apply .freeze) b.entries := by
  have hmem : (b.name, b.entries) ∈
      (partition (built.apply .freeze)).map fun b => (b.name, b.entries) := by
    rw [← map_computed t root settings packages]
    exact List.mem_map.2 ⟨b, hb, rfl⟩
  obtain ⟨b', hb', heq⟩ := List.mem_map.1 hmem
  obtain ⟨hname, hentries⟩ := Prod.mk.inj heq
  calc closureOf (auditGraph t root settings packages built).closures b
      = closureOf (closures (built.apply .freeze) (partition (built.apply .freeze))) b' :=
        closureOf_eq_of_name hname.symm
    _ = closure (built.apply .freeze) b'.entries :=
        closureOf_closures (nodup_names_partition _) hb'
    _ = closure (built.apply .freeze) b.entries := by rw [hentries]

/-- A bundle has one entry, and its closure is that of the entry. -/
theorem closureOf_computed {b : Bundle}
    (hb : b ∈ (auditGraph t root settings packages built).computed) :
    ∃ entry ∈ built.bundleEntries,
      closureOf (auditGraph t root settings packages built).closures b =
        closure (built.apply .freeze) [entry] := by
  have hentry : b.entries ∈ built.bundleEntries.map fun p => [p] := by
    rw [← entries_computed t root settings packages]
    exact List.mem_map.2 ⟨b, hb, rfl⟩
  obtain ⟨entry, hmem, hone⟩ := List.mem_map.1 hentry
  exact ⟨entry, hmem, by rw [closureOf_eq_closure hb, hone]⟩

/-- Each place where bundles begin is the entry of a bundle. -/
theorem exists_computed {q : Path} (hq : q ∈ built.bundleEntries) :
    ∃ b ∈ (auditGraph t root settings packages built).computed, b.entries = [q] := by
  have hmem : [q] ∈ (auditGraph t root settings packages built).computed.map Bundle.entries := by
    rw [entries_computed]
    exact List.mem_map.2 ⟨q, hq, rfl⟩
  obtain ⟨b, hb, hentries⟩ := List.mem_map.1 hmem
  exact ⟨b, hb, hentries⟩

end

end BundleReach
