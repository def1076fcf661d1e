import BundleReach.Proofs.Audit.Mismatches
import BundleReach.Proofs.Finding.Duplicates
import BundleReach.Proofs.Plain

/-!
# Modules that bundles ship with different contents

A module may be needed by several bundles and shipped in each of them.  An audit finds the modules
of which two bundles that need them ship different contents, in the order of the graph and each at
most once, and tells of each the bundles that need and ship it.

* `Stages.allReadable` — what bundles ship can be read.
* `duplicates_exact` — what is found is exactly that, and comparing digests finds the same.
-/

namespace BundleReach

open Text (Bytes)

variable {e : Environment} {t : FileTree} {output : Path} {given : Option Settings}
  {r : GraphBuilder} {main : Path} {built : ModuleGraph}

/-! ## What bundles hold -/

/-- A bundle holds a module if it needs and ships it. -/
theorem isSome_held? (c : Closures) (p : Path) (id : String) (b : Bundle) :
    (b.held? c p id).isSome = (Bundle.needs c p b && Bundle.ships id b) := by
  rw [Bool.eq_iff_iff, Bool.and_eq_true, Bundle.needs, Bundle.ships, Bundle.shipped,
    List.contains_iff_mem, List.contains_iff_mem, Option.isSome_iff_exists]
  constructor
  · rintro ⟨h, hheld⟩
    obtain ⟨hp, -, shipped, hshipped, hfind⟩ := Bundle.held?_eq_some_iff.1 hheld
    rw [hshipped]
    exact ⟨hp, Table.mem_keys_iff.2 ⟨h.2, hfind⟩⟩
  · rintro ⟨hp, hid⟩
    cases hshipped : b.physical with
    | none =>
      rw [hshipped] at hid
      cases hid
    | some shipped =>
      rw [hshipped] at hid
      obtain ⟨file, hfind⟩ := Table.mem_keys_iff.1 hid
      exact ⟨(b, file), Bundle.held?_eq_some_iff.2 ⟨hp, rfl, shipped, hshipped, hfind⟩⟩

namespace Stages

/-- What bundles ship can be read. -/
theorem allReadable (h : Stages e t output given r main built) (ht : t.WellFormed) :
    AllReadable t h.audit.bundles := by
  intro b hb shipped hshipped id file hfind
  by_cases hfolder : t.isFolder (bundlesFolderOf t output r.settings) = true
  · obtain rfl := Option.some.inj ((h.physical ht hfolder hb).symm.trans hshipped)
    split at hfind
    · exact FileTree.exists_read_of_isFile (isFile_of_find?_listArtifact ht hfind)
    · cases hfind
  · -- Nothing is known of what bundles ship.
    have hnothing : observeArtifacts t (bundlesFolderOf t output r.settings) r.settings.extensions
        (partition h.audit.graph) = (partition h.audit.graph, none) := if_neg hfolder
    have hb : b ∈ (observeArtifacts t (bundlesFolderOf t output r.settings) r.settings.extensions
        (partition h.audit.graph)).1 ++ (observeArtifacts t (bundlesFolderOf t output r.settings)
        r.settings.extensions (partition h.audit.graph)).2.getD [] := hb
    rw [hnothing, Option.getD_none, List.append_nil] at hb
    rw [physical_of_mem_partition hb] at hshipped
    cases hshipped

/-- Of the paths in a closure, only a module's own has the module's id. -/
theorem eq_of_idOf_eq (h : Stages e t output given r main built) (ht : t.WellFormed)
    {e : Path × Module} (he : e ∈ h.audit.graph.modules) :
    ∀ b ∈ h.audit.bundles, ∀ q ∈ closureOf h.audit.closures b,
      h.audit.graph.idOf q = h.audit.graph.idOf e.1 → q = e.1 := by
  intro b hb q hq heq
  have hmodule : built.hasModule e.1 = true :=
    ModuleGraph.hasModule_iff.2 (List.mem_map.2 ⟨e, he, rfl⟩)
  exact h.idOf_injective ht (h.hasModule_of_mem_closureOf ht hb hq) hmodule heq

/-- The bundles that hold a module are those that need and ship it. -/
theorem names_holders (h : Stages e t output given r main built) (ht : t.WellFormed)
    {e : Path × Module} (he : e ∈ h.audit.graph.modules) :
    (holders h.audit.graph h.audit.bundles h.audit.closures e.2.id).map (fun h => h.1.name) =
      namesOf h.audit.bundles fun b =>
        Bundle.needs h.audit.closures e.1 b && Bundle.ships e.2.id b := by
  have hid : e.2.id = h.audit.graph.idOf e.1 := h.id_of_mem he
  rw [hid, holders_eq (fun b _ => h.nodup_closure b) (h.eq_of_idOf_eq ht he), names_held]
  simp only [isSome_held?]
  rfl

/-- A module is found exactly where two bundles that need it ship different contents for it. -/
theorem isFound_holders_iff (h : Stages e t output given r main built) (ht : t.WellFormed)
    {e : Path × Module} (he : e ∈ h.audit.graph.modules) :
    IsFound t (holders h.audit.graph h.audit.bundles h.audit.closures e.2.id) ↔
      ShippedDiffering t h.audit.bundles h.audit.closures e.1 e.2.id := by
  have hid : e.2.id = h.audit.graph.idOf e.1 := h.id_of_mem he
  rw [hid]
  exact isFound_iff (h.nodup_names ht) (fun b _ => h.nodup_closure b) (h.eq_of_idOf_eq ht he)
    (h.allReadable ht)

end Stages

/-! ## What is found -/

open Classical in
/-- What an audit tells of the modules that bundles ship with different contents. -/
structure DuplicatesExact (t : FileTree) (a : Audit) : Prop where
  /-- No two modules have one id. -/
  ids : (a.graph.modules.map fun e => e.2.id).Nodup
  /-- Those modules are found, in the order of the graph, for which two bundles that need them ship
  different contents; each is told with the bundles that need and ship it. -/
  found : a.findings.filterMap Finding.differing? =
    (a.graph.modules.filter fun e =>
      decide (ShippedDiffering t a.bundles a.closures e.1 e.2.id)).map fun e =>
        (e.2.id, namesOf a.bundles fun b => Bundle.needs a.closures e.1 b && Bundle.ships e.2.id b)
  /-- The same is found by digests that tell apart the contents shipped for one module. -/
  digests : ∀ (δ : Type) [DecidableEq δ] (digest : Bytes → δ),
    (∀ b₁ ∈ a.bundles, ∀ b₂ ∈ a.bundles, ∀ id content₁ content₂,
      b₁.ShipsContent t id content₁ → b₂.ShipsContent t id content₂ →
        digest content₁ = digest content₂ → content₁ = content₂) →
    (duplicatesByDigest digest t a.graph a.bundles a.closures).filterMap Finding.differing? =
      a.findings.filterMap Finding.differing?

/-- The modules found to be shipped with different contents are those of which two bundles that need
them ship different contents: each once, in the order of the graph. -/
theorem duplicates_exact (e : Environment) (t : FileTree) (output : Path) (given : Option Settings)
    (a : Audit) (ht : t.WellFormed) (h : runAudit e t output given = .ok a) :
    DuplicatesExact t a := by
  classical
  obtain ⟨r, main, built, hs, rfl⟩ := stages_of_runAudit h
  refine ⟨hs.nodup_ids ht, ?_, fun δ _ digest hdigest => ?_⟩
  · calc hs.audit.findings.filterMap Finding.differing?
        = (hs.audit.graph.modules.filter fun e => decide (IsFound t
            (holders hs.audit.graph hs.audit.bundles hs.audit.closures e.2.id))).map fun e =>
            (e.2.id, (holders hs.audit.graph hs.audit.bundles hs.audit.closures e.2.id).map
              fun h => h.1.name) := filterMap_differing
      _ = (hs.audit.graph.modules.filter fun e => decide
            (ShippedDiffering t hs.audit.bundles hs.audit.closures e.1 e.2.id)).map fun e =>
            (e.2.id, (holders hs.audit.graph hs.audit.bundles hs.audit.closures e.2.id).map
              fun h => h.1.name) := by
        rw [List.filter_congr fun e he => decide_eq_decide.2 (hs.isFound_holders_iff ht he)]
      _ = _ := List.map_congr_left fun e he =>
        congrArg (Prod.mk e.2.id) (hs.names_holders ht (List.mem_filter.1 he).1)
  · rw [duplicatesByDigest_eq hdigest, crossBundleDuplicates_eq]
    refine Eq.trans ?_ filterMap_differing.symm
    rw [List.filterMap_map]
    exact List.filterMap_eq_map_iff_forall_eq_some.2 fun _ _ => rfl

/-- Scripts of which two bundles share a module, and one imports what is nowhere. -/
def staleScripts : List (String × PlainScript) := [
  ("app.js", [.load "./cart.js", .load "rsvp", .wait "./later.js"]),
  ("cart.js", [.pass "./names.js"]),
  ("names.js", [.offer "a"]),
  ("later.js", [.load "./names.js", .load "./gone.js"])]

/-- The application, where the second bundle ships the shared module as it was before.  A third
folder, which is no bundle's, ships it in another form still, and a script that is no module. -/
def staleOutput : FileTree :=
  plainOutput staleScripts [("main", staleScripts.take 3),
    ("later", [("later.js", [.load "./names.js", .load "./gone.js"]), ("names.js", [.offer "b"])]),
    ("old", [("names.js", [.offer "c"]), ("stray.js", [.load "./names.js"])])]

theorem wellFormed_staleOutput : staleOutput.WellFormed :=
  ⟨by decide +kernel, by decide +kernel⟩

theorem duplicates_exact_stale :
    staleOutput.WellFormed ∧
      ∃ a, runAudit (plainEnvironment staleScripts) staleOutput ⟨.root, ["app"]⟩
          (some (.initial 4)) = .ok a ∧
        ((a.bundles.map fun b => (b.name, b.shipped)) =
            [("main", ["./app.js", "./cart.js", "./names.js"]),
              ("later", ["./later.js", "./names.js"]), ("old", ["./names.js", "./stray.js"])] ∧
          a.findings.filterMap Finding.differing? = [("./names.js", ["main", "later"])]) ∧
        DuplicatesExact staleOutput a := by
  refine ⟨wellFormed_staleOutput, exists_ok_and ?_ fun a ha _ =>
    duplicates_exact _ _ _ _ a wellFormed_staleOutput ha⟩
  decide +kernel

end BundleReach
