import BundleReach.Proofs.FileTree.Alike
import BundleReach.Proofs.Package.Discovery
import BundleReach.Resolution.Resolver

/-!
# Packages and resolution in trees that are alike

To tell packages, manifests are read, and nothing else is; to resolve a specifier, nothing is read
at all.  So in trees that are alike specifiers lead alike, and where manifests read alike, the same
packages are found.

* `loadApp_eq`, `Visits.alike`, `locateAddons_alike` — the packages.
* `Resolver.resolve_onTree` — and where specifiers lead.
-/

namespace BundleReach

open FileTree (Alike)

variable {t t' : FileTree}

/-! ## Packages -/

/-- A package's folder is found alike. -/
theorem findPackageRoot_eq (h : Alike t t') : findPackageRoot t = findPackageRoot t' := by
  funext root start name
  simp only [findPackageRoot, h.isFile_eq, h.resolve_eq]

/-- Manifests read alike in two trees. -/
def ManifestsAlike (t t' : FileTree) : Prop :=
  ∀ root : Path, t.read (root.child manifestName) = t'.read (root.child manifestName)

theorem manifestAt?_eq (h : ManifestsAlike t t') : manifestAt? t = manifestAt? t' := by
  funext root
  rw [manifestAt?, manifestAt?, h root]

theorem loadApp_eq (h : ManifestsAlike t t') : loadApp t = loadApp t' := by
  funext root
  simp only [loadApp, h root]

/-- A visit of dependencies goes alike. -/
theorem Visits.alike (h : Alike t t') (hm : ManifestsAlike t t') {root owner : Path}
    {names : List String} {met met' : List Path} {found : List Package}
    (hvisit : Visits t root owner names met found met') :
    Visits t' root owner names met found met' := by
  induction hvisit with
  | done => exact .done
  | pass known _ ih =>
    rw [findPackageRoot_eq h] at known
    exact .pass known ih
  | unreadable leads fresh unread _ ih =>
    rw [findPackageRoot_eq h] at leads
    rw [manifestAt?_eq hm] at unread
    exact .unreadable leads fresh unread ih
  | enter leads fresh read described _ _ ih₁ ih₂ =>
    rw [findPackageRoot_eq h] at leads
    rw [manifestAt?_eq hm] at read
    exact .enter leads fresh read described ih₁ ih₂

/-- The packages that are found in one tree are found in the other. -/
theorem locateAddons_alike (h : Alike t t') (hm : ManifestsAlike t t') {root : Path}
    {app : Package} {found : List Package} (hfound : locateAddons t root app = .ok found) :
    locateAddons t' root app = .ok found := by
  obtain ⟨met, hvisit⟩ := locateAddons_eq_ok_iff.1 hfound
  exact locateAddons_eq_ok_iff.2 ⟨met, hvisit.alike h hm⟩

/-! ## Resolution -/

namespace Resolver

variable {r : Resolver}

/-- A resolver that looks into another tree. -/
def onTree (r : Resolver) (t : FileTree) : Resolver := { r with tree := t }

theorem named?_onTree (h : Alike r.tree t) : (r.onTree t).named? = r.named? := by
  funext folder name
  simp only [named?, onTree, findPackageRoot_eq h, h.resolve_eq]
  rfl

theorem probeEndings_onTree (h : Alike r.tree t) : (r.onTree t).probeEndings = r.probeEndings := by
  funext p endings
  induction endings with
  | nil => rfl
  | cons ending rest ih =>
    rw [probeEndings, probeEndings, ih, h.isFile_eq]
    rfl

/-- A path means the same file. -/
theorem probe_onTree (h : Alike r.tree t) : (r.onTree t).probe = r.probe := by
  funext candidate
  simp only [probe, probeEndings_onTree h, h.isFile_eq, h.isFolder_eq, h.resolve_eq]
  rfl

theorem probeEntries_onTree (h : Alike r.tree t) (pkg : Package) :
    (r.onTree t).probeEntries pkg = r.probeEntries pkg := by
  funext entries
  induction entries with
  | nil => rw [probeEntries, probeEntries, probe_onTree h]
  | cons entry rest ih => simp only [probeEntries, probe_onTree h, ih]

theorem resolveInPackage_onTree (h : Alike r.tree t) :
    (r.onTree t).resolveInPackage = r.resolveInPackage := by
  funext pkg subpath
  simp only [resolveInPackage, probe_onTree h, probeEntries_onTree h]

theorem packageFor?_onTree (h : Alike r.tree t) : (r.onTree t).packageFor? = r.packageFor? := by
  funext importer name
  simp only [packageFor?, named?_onTree h]
  rfl

theorem resolveBare_onTree (h : Alike r.tree t) : (r.onTree t).resolveBare = r.resolveBare := by
  funext importer specifier
  simp only [resolveBare, packageFor?_onTree h, resolveInPackage_onTree h]

theorem probeAppModules_onTree (h : Alike r.tree t) (addon : Package) (wanted : List String) :
    (r.onTree t).probeAppModules addon wanted = r.probeAppModules addon wanted := by
  funext modules
  induction modules with
  | nil => rfl
  | cons e rest ih => rw [probeAppModules, probeAppModules, probe_onTree h, ih]

theorem probeAddons_onTree (h : Alike r.tree t) (wanted : List String) :
    (r.onTree t).probeAddons wanted = r.probeAddons wanted := by
  funext addons
  induction addons with
  | nil => rfl
  | cons addon rest ih => rw [probeAddons, probeAddons, probeAppModules_onTree h, ih]

theorem resolveAppModule_onTree (h : Alike r.tree t) :
    (r.onTree t).resolveAppModule = r.resolveAppModule := by
  funext specifier
  simp only [resolveAppModule, probeAddons_onTree h]
  rfl

theorem resolveMerged_onTree (h : Alike r.tree t) :
    (r.onTree t).resolveMerged = r.resolveMerged := by
  funext importer specifier
  simp only [resolveMerged, resolveRenamedModule, resolveRenamedPackage, resolveBare_onTree h,
    resolveAppModule_onTree h]
  rfl

theorem bareDeadEnd_onTree (h : Alike r.tree t) : (r.onTree t).bareDeadEnd = r.bareDeadEnd := by
  funext importer specifier
  simp only [bareDeadEnd, named?_onTree h]
  rfl

/-- A specifier leads alike. -/
theorem resolve_onTree (h : Alike r.tree t) : (r.onTree t).resolve = r.resolve := by
  funext importer specifier
  simp only [resolve, probe_onTree h, resolveBare_onTree h, resolveMerged_onTree h,
    bareDeadEnd_onTree h]
  rfl

end Resolver

end BundleReach
