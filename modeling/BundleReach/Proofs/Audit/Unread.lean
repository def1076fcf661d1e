import BundleReach.Proofs.Audit.Mismatches
import BundleReach.Proofs.Bundle.Alike
import BundleReach.Proofs.Finding.Duplicates
import BundleReach.Proofs.Graph.Lockstep

/-!
# What an audit does not read

An audit reads the modules of its graph, manifests, and what the bundles ship.  Which modules these
are depends on what has been read of others; even so, no other content of a file has a say in the
audit.

* `findings_eq` — the rules read nothing but what bundles ship.
* `Watched` — the places whose contents an audit may go by.
* `unwatched_contents_without_say` — an audit of a tree that differs elsewhere is the same.
-/

namespace BundleReach

open BundleReach.Path (IsName)
open FileTree (Alike)

variable {t t' : FileTree}

/-! ## What the rules read -/

/-- The rules read nothing but what bundles ship. -/
theorem findings_eq (h : Alike t t') (g : ModuleGraph) {bundles : List Bundle} (c : Closures)
    (packages : List Package) (hread : ∀ b ∈ bundles, ∀ shipped, b.physical = some shipped →
      ∀ e ∈ shipped, t.read e.2 = t'.read e.2) :
    findings t g bundles c packages = findings t' g bundles c packages := by
  have hcontents : ∀ id, contents t (holders g bundles c id) =
      contents t' (holders g bundles c id) := by
    intro id
    have hmap : (holders g bundles c id).map (fun h => (h.1.name, (t.read h.2).toOption)) =
        (holders g bundles c id).map fun h => (h.1.name, (t'.read h.2).toOption) := by
      refine List.map_congr_left fun held hheld => ?_
      obtain ⟨hb, shipped, hshipped, hfind⟩ := physical_of_mem_holders hheld
      rw [hread held.1 hb shipped hshipped (id, held.2) (Table.mem_of_find? hfind)]
    rw [contents, contents, hmap]
  have hduplicates :
      crossBundleDuplicates t g bundles c = crossBundleDuplicates t' g bundles c := by
    simp only [crossBundleDuplicates, hcontents]
  have hassets : brokenPublicAssets t = brokenPublicAssets t' := by
    funext g pkg
    simp only [brokenPublicAssets, h.isFile_eq]
  rw [findings, findings, hduplicates, hassets]

/-! ## Audits -/

/-- A place whose content an audit may go by: a module is there, or a path that is named as a
manifest is or that lies below the bundles folder leads there. -/
inductive Watched (t : FileTree) (bundlesFolder : Path) (g : ModuleGraph) (place : List String) :
    Prop
  | module {p : Path} (there : t.walk p = .ok place) (hp : g.hasModule p = true) :
      Watched t bundlesFolder g place
  | manifest {p : Path} (there : t.walk p = .ok place) (named : p.name = manifestName) :
      Watched t bundlesFolder g place
  | shipped {rest : List String} (hne : rest ≠ []) (hnames : ∀ part ∈ rest, IsName part)
      (there : t.walk ⟨bundlesFolder.anchor, bundlesFolder.parts ++ rest⟩ = .ok place) :
      Watched t bundlesFolder g place

/-- Without links, a watched file is a module, is named as a manifest or stands below the bundles
folder. -/
theorem Watched.cases_of_linkFree {folder : Path} {g : ModuleGraph} {place : List String}
    {content : Text.Bytes} (hwatched : Watched t folder g place) (hl : t.LinkFree)
    (hfile : t.at? place = some (.file content))
    (hmodules : ∀ p, g.hasModule p = true → ∀ part ∈ p.parts, part ≠ Path.up)
    (hfolder : ∀ part ∈ folder.parts, part ≠ Path.up) :
    (∃ p, g.hasModule p = true ∧ p.parts = place) ∨ place.getLast? = some manifestName ∨
      folder.parts <+: place := by
  cases hwatched with
  | @module p there hp => exact .inl ⟨p, hp, (hl.eq_of_walk (hmodules p hp) there).symm⟩
  | @manifest p there named =>
    refine .inr (.inl ?_)
    rw [hl.getLast?_of_walk there hfile]
    rw [Path.name, List.getLastD_eq_getLast?] at named
    cases hlast : p.parts.getLast? with
    | none =>
      rw [hlast] at named
      exact absurd named (by decide)
    | some last =>
      rw [hlast, Option.getD_some] at named
      rw [named]
  | @shipped rest _ hnames there =>
    refine .inr (.inr ⟨rest, ?_⟩)
    have hdown : ∀ part ∈ folder.parts ++ rest, part ≠ Path.up := by
      intro part hpart
      rcases List.mem_append.1 hpart with hpart | hpart
      · exact hfolder part hpart
      · exact (hnames part hpart).ne_up
    exact (hl.eq_of_walk hdown there).symm

section

variable {e : Environment} {output : Path} {given : Option Settings} {r : GraphBuilder}
  {main : Path} {built : ModuleGraph}

/-- The audit of a graph is the same where what the bundles ship is. -/
theorem Stages.auditGraph_eq (hs : Stages e t output given r main built) (h : Alike t t')
    (ht : t.WellFormed) (ht' : t'.WellFormed)
    (hsame : ∀ place, Watched t (bundlesFolderOf t output r.settings) hs.audit.graph place →
      t.at? place = t'.at? place) :
    auditGraph t' (t'.resolve output) r.settings (r.app :: r.addons) built = hs.audit := by
  have hread : ∀ b ∈ hs.audit.bundles, ∀ shipped, b.physical = some shipped →
      ∀ e ∈ shipped, t.read e.2 = t'.read e.2 := by
    intro b hb shipped hshipped e he
    obtain ⟨rest, hne, hrest, hpath⟩ := below_of_mem_physical ht
      (fun b hb => hs.isName_partitioned ht hb) (fun b hb => physical_of_mem_partition hb) hb
      hshipped he
    refine h.read_eq fun place hwalk => hsame place ?_
    rw [hpath] at hwalk
    exact .shipped hne hrest hwalk
  have hfindings := findings_eq h hs.audit.graph hs.audit.closures (r.app :: r.addons) hread
  have hobserve := observeArtifacts_eq h ht ht'
  show auditGraph t' (t'.resolve output) r.settings (r.app :: r.addons) built =
    auditGraph t (t.resolve output) r.settings (r.app :: r.addons) built
  rw [auditGraph, auditGraph, ← h.resolve_eq, ← hobserve]
  exact congrArg (fun found => { hs.audit with findings := found }) hfindings.symm

end

/-- What an audit does not read has no say in it: in a tree that is alike, with the same contents
for its modules, for manifests and below the bundles folder, an audit comes to the same end. -/
theorem unwatched_contents_without_say (e : Environment) (t t' : FileTree) (output : Path)
    (s : Settings) (a : Audit) (ht : t.WellFormed) (ht' : t'.WellFormed) (h : Alike t t')
    (hsame : ∀ place, Watched t (bundlesFolderOf t output s) a.graph place →
      t.at? place = t'.at? place)
    (hrun : runAudit e t output (some s) = .ok a) :
    runAudit e t' output (some s) = .ok a := by
  obtain ⟨hfolder, settings, app, addons, main, built, hsettings, happ, haddons, hentry, hbuilt,
    rfl⟩ := runAudit_eq_ok_iff.1 hrun
  let r : GraphBuilder := ⟨⟨t, app, addons, settings⟩, e.parse⟩
  have hs : Stages e t output (some s) r main built :=
    ⟨rfl, rfl, hfolder, hsettings, happ, haddons, ⟨_, hentry⟩, hbuilt⟩
  obtain rfl : s = settings := Except.ok.inj hsettings
  have hmanifests : ManifestsAlike t t' := by
    intro root
    refine h.read_eq fun place hwalk => hsame place (.manifest hwalk ?_)
    rw [child_manifestName, Path.name, List.getLastD_concat]
  have hmodules : ModulesAlike r t' built := by
    intro p hp
    have hread : t.read p = t'.read p :=
      h.read_eq fun place hwalk => hsame place (.module hwalk hp)
    show t'.factsOf e.parse p = t.factsOf e.parse p
    rw [FileTree.factsOf, FileTree.factsOf, hread]
  refine runAudit_eq_ok_iff.2 ⟨h.isFolder_eq ▸ hfolder, s, app, addons, main, built, rfl, ?_, ?_,
    ?_, buildGraphIn_onTree (r := r) h hbuilt hmodules, (hs.auditGraph_eq h ht ht' hsame).symm⟩
  · rw [← loadApp_eq hmanifests, ← h.resolve_eq]
    exact happ
  · rw [← h.resolve_eq]
    exact locateAddons_alike h hmanifests haddons
  · have hprobe : (r.onTree t').probe = r.probe := Resolver.probe_onTree h
    show (r.onTree t').probe _ = _
    rw [hprobe]
    exact hentry

/-- The application with a bundle and a bundle left over, and with notes that nothing refers to. -/
def notedOutput : FileTree :=
  ⟨leftoverOutput.entries ++ [(["app", "notes.txt"], .file [0x31])]⟩

/-- The same with other notes. -/
def otherNotesOutput : FileTree :=
  ⟨Table.put ["app", "notes.txt"] (.file [0x32]) notedOutput.entries⟩

theorem unwatched_contents_without_say_noted :
    ∃ a, notedOutput.WellFormed ∧ otherNotesOutput.WellFormed ∧
      Alike notedOutput otherNotesOutput ∧ notedOutput ≠ otherNotesOutput ∧
      (∀ place,
        Watched notedOutput (bundlesFolderOf notedOutput ⟨.root, ["app"]⟩ (.initial 4)) a.graph
          place → notedOutput.at? place = otherNotesOutput.at? place) ∧
      runAudit (plainEnvironment []) notedOutput ⟨.root, ["app"]⟩ (some (.initial 4)) = .ok a ∧
      runAudit (plainEnvironment []) otherNotesOutput ⟨.root, ["app"]⟩ (some (.initial 4)) =
        .ok a := by
  have hformed : notedOutput.WellFormed := ⟨by decide +kernel, by decide +kernel⟩
  have hformed' : otherNotesOutput.WellFormed := hformed.put (by decide +kernel) _
  have hnotes : notedOutput.at? ["app", "notes.txt"] = some (.file [0x31]) := by decide +kernel
  have halike : Alike notedOutput otherNotesOutput := FileTree.alike_put hnotes _
  have hrun : ∃ a, runAudit (plainEnvironment []) notedOutput ⟨.root, ["app"]⟩
      (some (.initial 4)) = .ok a ∧ Table.keys a.graph.modules = [⟨.root, ["app", "x.json"]⟩] := by
    decide +kernel
  obtain ⟨a, ha, hkeys⟩ := hrun
  have hmodule : ∀ p, a.graph.hasModule p = true → p = ⟨.root, ["app", "x.json"]⟩ := by
    intro p hp
    rw [ModuleGraph.hasModule_iff, hkeys] at hp
    exact List.mem_singleton.1 hp
  have hfolder : bundlesFolderOf notedOutput ⟨.root, ["app"]⟩ (.initial 4) =
      ⟨.root, ["app", "dist"]⟩ := by
    decide +kernel
  have hsame : ∀ place,
      Watched notedOutput (bundlesFolderOf notedOutput ⟨.root, ["app"]⟩ (.initial 4)) a.graph
        place → notedOutput.at? place = otherNotesOutput.at? place := by
    intro place hwatched
    by_cases hplace : place = ["app", "notes.txt"]
    · subst hplace
      rw [hfolder] at hwatched
      obtain ⟨p, hp, hparts⟩ | hlast | hbelow := hwatched.cases_of_linkFree
        (by decide +kernel) hnotes (fun p hp => by rw [hmodule p hp]; decide) (by decide)
      · rw [hmodule p hp] at hparts
        exact absurd hparts (by decide)
      · exact absurd hlast (by decide)
      · exact absurd hbelow (by decide)
    · cases place with
      | nil => rfl
      | cons first rest => exact (Table.find?_put_of_ne hplace _ _).symm
  exact ⟨a, hformed, hformed', halike, by decide +kernel, hsame, ha,
    unwatched_contents_without_say _ _ _ _ _ a hformed hformed' halike hsame ha⟩

end BundleReach
