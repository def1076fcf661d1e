import BundleReach.Proofs.Audit.Records
import BundleReach.Proofs.Bundle.Listing
import BundleReach.Proofs.Bundle.Name
import BundleReach.Proofs.Finding.Bundles

/-!
# Mismatches between bundles and folders

Where there is a bundles folder, an audit compares each bundle with the folder of its name.  The
folders on disk and the bundles of the audit go with each other, and what is found of a bundle is
the difference between what it needs and what is listed of its folder.

* `Stages.physical`, `Stages.existsUnique_bundle` — bundles go with folders.
* `mismatches_exact` — what is found is that difference, each module once and in order.
* `missing_iff_absent_or_overlooked` — a module is found missing where its file is not there, but
  also where a listing overlooks the file.
-/

namespace BundleReach

open BundleReach.Path (IsName)

/-! ## Modules and the root -/

section

variable {e : Environment} {t : FileTree} {output : Path} {given : Option Settings}
  {r : GraphBuilder} {main : Path} {built : ModuleGraph} {b : Bundle} {p : Path}

/-- The folder of the bundles of an output. -/
abbrev bundlesFolderOf (t : FileTree) (output : Path) (settings : Settings) : Path :=
  (t.resolve output).child settings.bundlesFolder

namespace Stages

/-- A module is neither the root of the output nor above it. -/
theorem not_prefix_root (h : Stages e t output given r main built)
    (hp : built.hasModule p = true) : ¬ p.parts <+: (t.resolve output).parts := by
  obtain ⟨q, hq, rfl⟩ := h.isFilePlace_of_hasModule hp
  rw [h.tree] at hq ⊢
  have hfolder := h.folder
  rw [FileTree.isFolder, beq_iff_eq] at hfolder
  exact FileTree.not_prefix_of_isFolder hq
    (by rw [FileTree.isFolder, FileTree.entry?_resolve hfolder, beq_self_eq_true])

/-- Modules are told by their paths as seen from the root of the output. -/
theorem idOf_eq (h : Stages e t output given r main built) (p : Path) :
    (built.apply .freeze).idOf p = (t.resolve output).relativeTo p := by
  have hroot : (built.apply .freeze).root = t.resolve output :=
    h.onePass.complete.root.trans h.root_eq
  rw [ModuleGraph.idOf, hroot]

/-- Bundles have names that folders can have. -/
theorem isName_partitioned (h : Stages e t output given r main built) (ht : t.WellFormed)
    (hb : b ∈ partition (built.apply .freeze)) : IsName b.name := by
  refine isName_of_mem_partition (fun entry hentry => ?_) hb
  have hm := h.onePass.complete.entries entry (List.mem_of_mem_tail hentry)
  rw [h.idOf_eq]
  exact endsInName_relativeTo (h.isPlain_root ht) (h.isPlain_of_hasModule ht hm)
    (h.not_prefix_root hm)

theorem isName_computed (h : Stages e t output given r main built) (ht : t.WellFormed)
    (hb : b ∈ h.audit.computed) : IsName b.name := by
  have hname : b.name ∈ h.audit.computed.map Bundle.name := List.mem_map.2 ⟨b, hb, rfl⟩
  rw [names_computed] at hname
  obtain ⟨b', hb', hsame⟩ := List.mem_map.1 hname
  exact hsame ▸ h.isName_partitioned ht hb'

/-- A bundle ships what is listed of the folder of its name. -/
theorem physical (h : Stages e t output given r main built) (ht : t.WellFormed)
    (hfolder : t.isFolder (bundlesFolderOf t output r.settings) = true)
    (hb : b ∈ h.audit.bundles) :
    b.physical = some (if t.isFolder ((bundlesFolderOf t output r.settings).child b.name)
      then listArtifact t ((bundlesFolderOf t output r.settings).child b.name)
        r.settings.extensions
      else []) :=
  physical_observeArtifacts ht hfolder hb

/-- Each folder of the bundles folder is that of one bundle, and of one only. -/
theorem existsUnique_bundle (h : Stages e t output given r main built) (ht : t.WellFormed)
    (hfolder : t.isFolder (bundlesFolderOf t output r.settings) = true) {d : Path}
    (hd : d ∈ t.children (bundlesFolderOf t output r.settings)) (hdir : t.isFolder d = true) :
    ∃! b, b ∈ h.audit.bundles ∧ b.name = d.name := by
  obtain ⟨b, hb, hname⟩ := exists_bundle_of_folder r.settings.extensions
    (partition h.audit.graph) hfolder hd hdir
  refine ⟨b, ⟨hb, hname⟩, ?_⟩
  rintro b' ⟨hb', hname'⟩
  exact List.inj_on_of_nodup_map (h.nodup_names ht) hb' hb (hname'.trans hname.symm)

/-- Whatever is in a closure is a module of the graph. -/
theorem hasModule_of_mem_closureOf (h : Stages e t output given r main built)
    (ht : t.WellFormed) (hb : b ∈ h.audit.bundles) (hp : p ∈ closureOf h.audit.closures b) :
    built.hasModule p = true := by
  rcases List.mem_append.1 hb with hb | hb
  · exact ModuleGraph.hasModule_iff.2 ((h.covered p).2 ⟨b, hb, hp⟩)
  · rw [h.closureOf_orphan ht hb] at hp
    cases hp

theorem nodup_closure (h : Stages e t output given r main built) (b : Bundle) :
    (closureOf h.audit.closures b).Nodup :=
  nodup_closureOf (nodup_names_partition _) b

/-- A bundle needs no module twice. -/
theorem nodup_neededIds (h : Stages e t output given r main built) (ht : t.WellFormed)
    (hb : b ∈ h.audit.bundles) : (neededIds h.audit.graph h.audit.closures b).Nodup := by
  refine List.Nodup.map_on (fun p hp q hq heq => ?_) (h.nodup_closure b)
  exact h.idOf_injective ht (h.hasModule_of_mem_closureOf ht hb hp)
    (h.hasModule_of_mem_closureOf ht hb hq) heq

/-- What is found to be shipped by a bundle without need. -/
theorem filterMap_unneeded (h : Stages e t output given r main built) (ht : t.WellFormed)
    (hfolder : t.isFolder (bundlesFolderOf t output r.settings) = true)
    (hb : b ∈ h.audit.bundles) :
    h.audit.findings.filterMap (Finding.unneeded? b.name) =
      b.shipped.filter fun id => decide (id ∉ neededIds h.audit.graph h.audit.closures b) := by
  have hshipped := h.physical ht hfolder hb
  rw [Bundle.shipped, hshipped]
  exact BundleReach.filterMap_unneeded (h.nodup_names ht) hb hshipped

/-- What is found to be needed by a bundle and not shipped. -/
theorem filterMap_lacked (h : Stages e t output given r main built) (ht : t.WellFormed)
    (hfolder : t.isFolder (bundlesFolderOf t output r.settings) = true)
    (hb : b ∈ h.audit.bundles) :
    h.audit.findings.filterMap (Finding.lacked? b.name) =
      (neededIds h.audit.graph h.audit.closures b).filter fun id => decide (id ∉ b.shipped) := by
  have hshipped := h.physical ht hfolder hb
  rw [Bundle.shipped, hshipped]
  exact BundleReach.filterMap_lacked (h.nodup_names ht) hb hshipped

/-- An orphan needs nothing. -/
theorem neededIds_orphan (h : Stages e t output given r main built) (ht : t.WellFormed)
    (hb : b ∈ h.audit.orphans) : neededIds h.audit.graph h.audit.closures b = [] := by
  rw [neededIds, h.closureOf_orphan ht hb]
  rfl

/-- A bundle whose name no folder of the bundles folder has ships nothing. -/
theorem shipped_of_absent (h : Stages e t output given r main built) (ht : t.WellFormed)
    (hfolder : t.isFolder (bundlesFolderOf t output r.settings) = true)
    (hb : b ∈ h.audit.computed)
    (hnone : ∀ d ∈ t.children (bundlesFolderOf t output r.settings), t.isFolder d = true →
      d.name ≠ b.name) : b.shipped = [] := by
  have hname := h.isName_computed ht hb
  have hnoFolder : ¬ t.isFolder ((bundlesFolderOf t output r.settings).child b.name) = true := by
    intro hdir
    refine hnone _ (mem_children_of_isFolder hname hdir) hdir ?_
    rw [Path.child_of_isPart hname.toIsPart, Path.name, List.getLastD_concat]
  rw [Bundle.shipped, h.physical ht hfolder (List.mem_append_left _ hb), if_neg hnoFolder]
  rfl

/-- A module whose path as seen from the root begins by staying is below the root. -/
theorem exists_names_of_idOf (h : Stages e t output given r main built) (ht : t.WellFormed)
    (hp : built.hasModule p = true) {file : String} (hid : h.audit.graph.idOf p = "./" ++ file) :
    ∃ rest, rest ≠ [] ∧ (∀ part ∈ rest, IsName part) ∧ file = "/".intercalate rest := by
  refine Path.exists_below_of_relativeTo (h.isPlain_root ht) (h.isPlain_of_hasModule ht hp)
    (fun hsame => ?_) ((h.idOf_eq p).symm.trans hid)
  exact h.not_prefix_root hp (hsame ▸ List.prefix_rfl)

end Stages

end

/-! ## What is found of bundles -/

/-- What an audit tells of its bundles where there is a bundles folder. -/
structure MismatchesExact (t : FileTree) (bundlesFolder : Path) (extensions : List String)
    (a : Audit) : Prop where
  /-- No two bundles have one name. -/
  names : (a.bundles.map Bundle.name).Nodup
  /-- Each folder of the bundles folder is that of one bundle, and of one only. -/
  folders : ∀ d ∈ t.children bundlesFolder, t.isFolder d = true →
    bundlesFolder.child d.name = d ∧ ∃! b, b ∈ a.bundles ∧ b.name = d.name
  /-- A bundle ships what is listed of its folder: nothing, where it has none. -/
  shipped : ∀ b ∈ a.bundles, b.physical = some (if t.isFolder (bundlesFolder.child b.name)
    then listArtifact t (bundlesFolder.child b.name) extensions else [])
  /-- A listing has every module file once, in the order of their paths. -/
  listed : ∀ folder, Lists t folder extensions (listArtifact t folder extensions)
  /-- Nothing is found of other bundles. -/
  told : ∀ f ∈ a.findings, ∀ name, f.bundle? = some name → ∃ b ∈ a.bundles, b.name = name
  /-- A bundle needs no module twice. -/
  needed : ∀ b ∈ a.bundles, (neededIds a.graph a.closures b).Nodup
  /-- What is found to be shipped without need is what is listed and no id of the closure. -/
  unneeded : ∀ b ∈ a.bundles, a.findings.filterMap (Finding.unneeded? b.name) =
    b.shipped.filter fun id => decide (id ∉ neededIds a.graph a.closures b)
  /-- What is found to be missing is what is an id of the closure and not listed. -/
  lacked : ∀ b ∈ a.bundles, a.findings.filterMap (Finding.lacked? b.name) =
    (neededIds a.graph a.closures b).filter fun id => decide (id ∉ b.shipped)
  /-- Of an orphan every file is found to be shipped without need. -/
  orphans : ∀ b ∈ a.orphans, a.findings.filterMap (Finding.unneeded? b.name) = b.shipped
  /-- Of a bundle without a folder the whole closure is found to be missing. -/
  absent : ∀ b ∈ a.computed,
    (∀ d ∈ t.children bundlesFolder, t.isFolder d = true → d.name ≠ b.name) →
      a.findings.filterMap (Finding.lacked? b.name) = neededIds a.graph a.closures b

/-- Where there is a bundles folder, its folders and the bundles of an audit go with each other, and
what is found of each bundle is the difference between its closure and the listing of its folder:
each module once, files in the order of their paths and modules in the order of the closure. -/
theorem mismatches_exact (e : Environment) (t : FileTree) (output : Path) (given : Option Settings)
    (a : Audit) (ht : t.WellFormed) (h : runAudit e t output given = .ok a) :
    ∃ settings, settingsFor e t (t.resolve output) given = .ok settings ∧
      (t.isFolder (bundlesFolderOf t output settings) = true →
        MismatchesExact t (bundlesFolderOf t output settings) settings.extensions a) := by
  obtain ⟨r, main, built, hs, rfl⟩ := stages_of_runAudit h
  refine ⟨r.settings, hs.settings, fun hfolder => ?_⟩
  refine ⟨hs.nodup_names ht, fun d hd hdir => ⟨ht.child_name_of_mem_children hd,
    hs.existsUnique_bundle ht hfolder hd hdir⟩, fun b hb => hs.physical ht hfolder hb,
    fun folder => lists_listArtifact ht folder _, fun f hf name hname => ?_,
    fun b hb => hs.nodup_neededIds ht hb, fun b hb => hs.filterMap_unneeded ht hfolder hb,
    fun b hb => hs.filterMap_lacked ht hfolder hb, fun b hb => ?_, fun b hb hnone => ?_⟩
  · obtain ⟨b, hb, hb', -⟩ := exists_mem_bundleMismatches hname hf
    exact ⟨b, hb, hb'⟩
  · have hall : ∀ id ∈ b.shipped,
        decide (id ∉ neededIds hs.audit.graph hs.audit.closures b) = true := by
      intro id _
      rw [hs.neededIds_orphan ht hb]
      exact decide_eq_true List.not_mem_nil
    rw [hs.filterMap_unneeded ht hfolder (List.mem_append_right _ hb), List.filter_eq_self.2 hall]
  · have hall : ∀ id ∈ neededIds hs.audit.graph hs.audit.closures b,
        decide (id ∉ b.shipped) = true := by
      intro id _
      rw [hs.shipped_of_absent ht hfolder hb hnone]
      exact decide_eq_true List.not_mem_nil
    rw [hs.filterMap_lacked ht hfolder (List.mem_append_left _ hb), List.filter_eq_self.2 hall]

/-- An application that is one value, whose bundle ships another one, and a folder left over. -/
def strayOutput : FileTree where
  entries := [(["app"], .folder), (["app", "package.json"], .file leftoverManifest.toUTF8.toList),
    (["app", "x.json"], .file [0x31]), (["app", "dist"], .folder),
    (["app", "dist", "main"], .folder), (["app", "dist", "main", "z.json"], .file [0x31]),
    (["app", "dist", "old"], .folder), (["app", "dist", "old", "y.json"], .file [0x32])]

theorem mismatches_exact_stray :
    ∃ a, strayOutput.WellFormed ∧
      runAudit (plainEnvironment []) strayOutput ⟨.root, ["app"]⟩ (some (.initial 4)) = .ok a ∧
      strayOutput.isFolder (bundlesFolderOf strayOutput ⟨.root, ["app"]⟩ (.initial 4)) = true ∧
      MismatchesExact strayOutput (bundlesFolderOf strayOutput ⟨.root, ["app"]⟩ (.initial 4))
        (Settings.initial 4).extensions a ∧
      a.findings = [.unreachableInBundle "./z.json" "main", .missingFromBundle "./x.json" "main",
        .unreachableInBundle "./y.json" "old"] := by
  have hformed : strayOutput.WellFormed := ⟨by decide +kernel, by decide +kernel⟩
  have hfolder :
      strayOutput.isFolder (bundlesFolderOf strayOutput ⟨.root, ["app"]⟩ (.initial 4)) = true := by
    decide +kernel
  have hrun : ∃ a, runAudit (plainEnvironment []) strayOutput ⟨.root, ["app"]⟩
      (some (.initial 4)) = .ok a ∧ a.findings = [.unreachableInBundle "./z.json" "main",
        .missingFromBundle "./x.json" "main", .unreachableInBundle "./y.json" "old"] := by
    decide +kernel
  obtain ⟨a, ha, hfindings⟩ := hrun
  obtain ⟨settings, hsettings, hexact⟩ := mismatches_exact _ _ _ _ a hformed ha
  obtain rfl : .initial 4 = settings := Except.ok.inj hsettings
  exact ⟨a, hformed, ha, hfolder, hexact hfolder, hfindings⟩

/-! ## Modules found to be missing -/

/-- A listing of a folder overlooks a file whose name has none of the extensions, and one that a
link stands on the way to. -/
def Overlooked (t : FileTree) (extensions : List String) (folder : Path) (file : String) : Prop :=
  isModuleName extensions (folder.child file).name = false ∨
    t.BehindLink folder (Path.partsOf file)

/-- What names lead to below a folder is not listed exactly where no file is there, or there is one
that the listing overlooks. -/
theorem not_mem_keys_listArtifact_iff {t : FileTree} {extensions rest : List String} {folder : Path}
    (ht : t.WellFormed) (hg : t.Grounded) (hne : rest ≠ []) (hnames : ∀ part ∈ rest, IsName part) :
    "./" ++ "/".intercalate rest ∉ Table.keys (listArtifact t folder extensions) ↔
      t.isFile (folder.child ("/".intercalate rest)) = false ∨
        Overlooked t extensions folder ("/".intercalate rest) := by
  have hparts : ∀ part ∈ rest, Path.IsPart part := fun part hpart => (hnames part hpart).toIsPart
  rw [mem_keys_listArtifact_iff ht hne hnames, Overlooked, Path.child_intercalate hne hparts,
    Path.partsOf_intercalate hparts]
  by_cases hfile : t.isFile ⟨folder.anchor, folder.parts ++ rest⟩ = true
  · rw [FileTree.mem_below_iff_of_isFile hg hne (fun part hpart => (hnames part hpart).ne_up) hfile,
      hfile]
    simp only [true_and, Bool.true_eq_false, false_or, not_and_or, not_not, Bool.not_eq_true]
    exact or_comm
  · rw [Bool.not_eq_true] at hfile
    simp [hfile]

/-- Where there is a bundles folder, a module of a closure is found to be missing from its bundle
exactly where no file is there for it, or there is one that a listing overlooks. -/
theorem missing_iff_absent_or_overlooked (e : Environment) (t : FileTree) (output : Path)
    (given : Option Settings) (a : Audit) (ht : t.WellFormed) (hg : t.Grounded)
    (h : runAudit e t output given = .ok a) :
    ∃ settings, settingsFor e t (t.resolve output) given = .ok settings ∧
      (t.isFolder (bundlesFolderOf t output settings) = true →
        ∀ b ∈ a.computed, ∀ m ∈ closureOf a.closures b, ∀ file, a.graph.idOf m = "./" ++ file →
          (.missingFromBundle (a.graph.idOf m) b.name ∈ a.findings ↔
            t.isFile (((bundlesFolderOf t output settings).child b.name).child file) = false ∨
              Overlooked t settings.extensions
                ((bundlesFolderOf t output settings).child b.name) file)) := by
  obtain ⟨r, main, built, hs, rfl⟩ := stages_of_runAudit h
  refine ⟨r.settings, hs.settings, fun hfolder b hb m hm file hid => ?_⟩
  have hb' : b ∈ hs.audit.bundles := List.mem_append_left _ hb
  have hmodule : built.hasModule m = true := hs.hasModule_of_mem_closureOf ht hb' hm
  have hneeded : hs.audit.graph.idOf m ∈ neededIds hs.audit.graph hs.audit.closures b :=
    List.mem_map.2 ⟨m, hm, rfl⟩
  obtain ⟨rest, hne, hnames, rfl⟩ := hs.exists_names_of_idOf ht hmodule hid
  refine (missingFromBundle_mem_findings_iff (hs.nodup_names ht) hb'
    (hs.physical ht hfolder hb')).trans ((and_iff_right hneeded).trans ?_)
  by_cases hdir : t.isFolder ((bundlesFolderOf t output r.settings).child b.name) = true
  · rw [if_pos hdir]
    exact hid ▸ not_mem_keys_listArtifact_iff ht hg hne hnames
  · -- Without its folder a bundle ships nothing, and no file is there.
    have hparts : ∀ part ∈ rest, Path.IsPart part := fun part hpart => (hnames part hpart).toIsPart
    have hnoFile : t.isFile (((bundlesFolderOf t output r.settings).child b.name).child
        ("/".intercalate rest)) = false := by
      rw [Path.child_intercalate hne hparts, ← Bool.not_eq_true]
      exact fun hfile => hdir (FileTree.isFolder_of_isFile hne hfile)
    rw [if_neg hdir]
    exact iff_of_true List.not_mem_nil (.inl hnoFile)

/-- Scripts of which one has an ending that is not listed. -/
def endingScripts : List (String × PlainScript) := [
  ("app.js", [.load "./x.cjs"]),
  ("x.cjs", [.offer "a"])]

/-- The application with its bundle, which ships all of it. -/
def endingOutput : FileTree := plainOutput endingScripts [("main", endingScripts)]

/-- The folder of the application's bundle. -/
def endingBundleFolder : Path :=
  (bundlesFolderOf endingOutput ⟨.root, ["app"]⟩ (.initial 4)).child "main"

/-- The script is found to be missing from its bundle, where it is. -/
theorem missing_iff_absent_or_overlooked_ending :
    ∃ a, endingOutput.WellFormed ∧ endingOutput.Grounded ∧
      runAudit (plainEnvironment endingScripts) endingOutput ⟨.root, ["app"]⟩
        (some (.initial 4)) = .ok a ∧
      endingOutput.isFolder (bundlesFolderOf endingOutput ⟨.root, ["app"]⟩ (.initial 4)) = true ∧
      (∃ b ∈ a.computed, b.name = "main" ∧ ∃ m ∈ closureOf a.closures b,
        a.graph.idOf m = "./" ++ "x.cjs" ∧
        (.missingFromBundle (a.graph.idOf m) b.name ∈ a.findings ↔
          endingOutput.isFile (endingBundleFolder.child "x.cjs") = false ∨
            Overlooked endingOutput (Settings.initial 4).extensions endingBundleFolder "x.cjs")) ∧
      a.findings = [.missingFromBundle "./x.cjs" "main"] ∧
      endingOutput.isFile (endingBundleFolder.child "x.cjs") = true := by
  have hformed : endingOutput.WellFormed := ⟨by decide +kernel, by decide +kernel⟩
  have hgrounded : endingOutput.Grounded := by decide +kernel
  have hfolder : endingOutput.isFolder
      (bundlesFolderOf endingOutput ⟨.root, ["app"]⟩ (.initial 4)) = true := by
    decide +kernel
  have hfile : endingOutput.isFile (endingBundleFolder.child "x.cjs") = true := by decide +kernel
  have hrun : ∃ a, runAudit (plainEnvironment endingScripts) endingOutput ⟨.root, ["app"]⟩
      (some (.initial 4)) = .ok a ∧
      (a.computed.map fun b => (b.name, closureOf a.closures b)) =
        [("main", [appFile "app.js", appFile "x.cjs"])] ∧
      a.graph.idOf (appFile "x.cjs") = "./x.cjs" ∧
      a.findings = [.missingFromBundle "./x.cjs" "main"] := by
    decide +kernel
  obtain ⟨a, ha, hbundles, hid, hfindings⟩ := hrun
  obtain ⟨b, hb, hmain⟩ : ∃ b ∈ a.computed,
      (b.name, closureOf a.closures b) = ("main", [appFile "app.js", appFile "x.cjs"]) := by
    rw [← List.mem_map, hbundles]
    exact List.mem_cons_self
  obtain ⟨hname, hclosure⟩ := Prod.mk.inj hmain
  have hm : appFile "x.cjs" ∈ closureOf a.closures b := by simp [hclosure]
  obtain ⟨settings, hsettings, hmissing⟩ :=
    missing_iff_absent_or_overlooked _ _ _ _ a hformed hgrounded ha
  obtain rfl : .initial 4 = settings := Except.ok.inj hsettings
  have hiff := hmissing hfolder b hb _ hm "x.cjs" hid
  rw [hname] at hiff
  exact ⟨a, hformed, hgrounded, ha, hfolder, ⟨b, hb, hname, _, hm, hid, hname ▸ hiff⟩, hfindings,
    hfile⟩

end BundleReach
