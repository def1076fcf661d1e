import BundleReach.Proofs.FileTree.Canonical
import BundleReach.Proofs.Package.Discovery
import BundleReach.Resolution.Resolver

/-!
# What names mean where packages are installed

A name that is neither its own package's nor the application's means, in a module, the first copy on
the way up from the module's folder, if that copy is a located package.

* `NearestInstalled` — the located package that is installed nearest, and in what folder.
* `nearest_meant_iff_not_shadowed` — it is what is meant unless a copy that is not located comes
  before it.
* `dependency_meant_throughout_iff` — a dependency that is installed for a package is meant
  throughout the package if that lies within the output.
-/

namespace BundleReach

variable {t : FileTree} {packages : List Package} {pkg q dep app : Package}

/-! ## Located packages -/

/-- Packages that are in no folder twice are looked up by their folders. -/
theorem find?_root_eq_some_iff (h : (packages.map Package.root).Nodup) {place : Path} :
    packages.find? (·.root == place) = some pkg ↔ pkg ∈ packages ∧ pkg.root = place := by
  constructor
  · intro hfind
    exact ⟨List.mem_of_find?_eq_some hfind, by simpa using List.find?_some hfind⟩
  · rintro ⟨hpkg, rfl⟩
    cases hfind : packages.find? (·.root == pkg.root) with
    | none => exact absurd (beq_self_eq_true pkg.root) (List.find?_eq_none.1 hfind pkg hpkg)
    | some found =>
      have hroot : found.root = pkg.root := by simpa using List.find?_some hfind
      exact congrArg some
        (List.inj_on_of_nodup_map h (List.mem_of_find?_eq_some hfind) hpkg hroot)

/-- The folder of an application that has been loaded is resolved already. -/
theorem resolve_root_of_loadApp {given : Path} (h : loadApp t (t.resolve given) = .ok app) :
    t.resolve app.root = t.resolve given := by
  obtain ⟨m, hm, -, -⟩ := exists_manifest_of_loadApp h
  rw [root_of_loadApp h]
  suffices hloop : t.LoopFree (t.resolve given) from
    FileTree.resolve_resolve_of_loopFree hloop.of_resolve
  rw [manifestAt?] at hm
  split at hm
  · cases hm
  · rename_i bytes hread
    obtain ⟨place, hwalk, -⟩ := bind_eq_ok_iff.1 hread
    rw [child_manifestName] at hwalk
    exact (FileTree.LoopFree.of_walk hwalk).of_append

namespace Resolver

variable {r : Resolver} {start folder nearer importer : Path} {name : String}

/-- The folder up to which packages are looked for. -/
def searchRoot (r : Resolver) : Path := r.tree.resolve r.app.root

theorem ofPackages_eq_ok_iff {settings : Settings} :
    ofPackages t packages settings = .ok r ↔
      r.tree = t ∧ r.packages = packages ∧ r.settings = settings ∧ r.app.isApp = true := by
  cases packages with
  | nil => exact iff_of_false nofun (by simp [Resolver.packages])
  | cons app addons =>
    rw [ofPackages, List.head?_cons, List.tail_cons]
    by_cases happ : app.isApp = true
    · rw [Option.filter_some_pos happ]
      constructor
      · intro h
        obtain rfl := Except.ok.inj h
        exact ⟨rfl, rfl, rfl, happ⟩
      · rintro ⟨rfl, hpackages, rfl, -⟩
        obtain ⟨rfl, rfl⟩ := List.cons.inj hpackages
        rfl
    · rw [Option.filter_some_neg (Bool.eq_false_of_not_eq_true happ)]
      refine iff_of_false nofun ?_
      rintro ⟨-, hpackages, -, happ'⟩
      obtain ⟨rfl, -⟩ := List.cons.inj hpackages
      exact happ happ'

/-- A name means a located package in whose folder its first copy is. -/
theorem named?_eq_some_iff (h : (r.packages.map Package.root).Nodup) :
    r.named? folder name = some pkg ↔
      pkg ∈ r.packages ∧ findPackageRoot r.tree r.searchRoot folder name = some pkg.root := by
  rw [named?]
  constructor
  · intro hnamed
    obtain ⟨place, hplace, hfind⟩ := Option.bind_eq_some_iff.1 hnamed
    obtain ⟨hpkg, rfl⟩ := (find?_root_eq_some_iff h).1 hfind
    exact ⟨hpkg, hplace⟩
  · rintro ⟨hpkg, hplace⟩
    exact Option.bind_eq_some_iff.2 ⟨pkg.root, hplace, (find?_root_eq_some_iff h).2 ⟨hpkg, rfl⟩⟩

/-- A name that is neither the importing package's own nor the application's means what is
installed. -/
theorem packageFor?_eq_named? (hown : ∀ own, r.owner? importer = some own → own.name ≠ name)
    (happ : name ≠ r.app.name) : r.packageFor? importer name = r.named? importer.parent name := by
  have hnone : (r.owner? importer).filter (·.name == name) = none := by
    rw [Option.filter_eq_none_iff]
    exact fun own howner => by simpa using hown own howner
  rw [packageFor?, hnone]
  exact if_neg happ

/-! ## The package that is installed nearest -/

/-- A copy in a folder is a located package. -/
def InstalledAt (r : Resolver) (name : String) (folder : Path) (pkg : Package) : Prop :=
  pkg ∈ r.packages ∧ copyAt? r.tree name folder = some pkg.root

/-- A copy in a folder is no located package: nothing that has been located depends on it, or its
manifest cannot be read. -/
def StrayAt (r : Resolver) (name : String) (folder : Path) : Prop :=
  ∃ place, copyAt? r.tree name folder = some place ∧ ∀ pkg ∈ r.packages, pkg.root ≠ place

/-- Of the folders that are searched from a folder, the nearest one with a located package of a
name, with that package. -/
structure NearestInstalled (r : Resolver) (start : Path) (name : String) (folder : Path)
    (pkg : Package) : Prop where
  searched : Searched r.searchRoot start folder
  installed : r.InstalledAt name folder pkg
  nearest : ∀ nearer, Searched r.searchRoot start nearer → nearer.IsBelow folder →
    ∀ q, ¬ r.InstalledAt name nearer q

/-- A copy that is not located comes before a folder in the search. -/
def Shadowed (r : Resolver) (start : Path) (name : String) (folder : Path) : Prop :=
  ∃ nearer, Searched r.searchRoot start nearer ∧ nearer.IsBelow folder ∧ r.StrayAt name nearer

/-- The copy in a folder is located or is not. -/
theorem installedAt_or_strayAt {place : Path} (h : copyAt? r.tree name folder = some place) :
    (∃ q, r.InstalledAt name folder q) ∨ r.StrayAt name folder := by
  by_cases hlocated : ∃ q ∈ r.packages, q.root = place
  · obtain ⟨q, hq, rfl⟩ := hlocated
    exact .inl ⟨q, hq, h⟩
  · push Not at hlocated
    exact .inr ⟨place, h, hlocated⟩

/-- A copy that is not located is no located package. -/
theorem StrayAt.not_installedAt (h : r.StrayAt name folder) : ¬ r.InstalledAt name folder q := by
  obtain ⟨place, hplace, hstray⟩ := h
  exact fun hq => hstray q hq.1 (Option.some.inj (hq.2.symm.trans hplace))

/-- If any folder that is searched has a located package, one of them is the nearest. -/
theorem exists_nearestInstalled (hroots : (r.packages.map Package.root).Nodup)
    (hsearched : Searched r.searchRoot start folder) (h : r.InstalledAt name folder pkg) :
    ∃ folder pkg, r.NearestInstalled start name folder pkg := by
  let installed? (folder : Path) : Option Package :=
    (copyAt? r.tree name folder).bind fun place => r.packages.find? (·.root == place)
  have hinstalled : ∀ f q, installed? f = some q ↔ r.InstalledAt name f q := by
    intro f q
    simp only [installed?, Option.bind_eq_some_iff, find?_root_eq_some_iff hroots, InstalledAt]
    constructor
    · rintro ⟨place, hcopy, hq, rfl⟩
      exact ⟨hq, hcopy⟩
    · rintro ⟨hq, hcopy⟩
      exact ⟨q.root, hcopy, hq, rfl⟩
  have hsome : (((searchFolders r.searchRoot start).filter
      (·.name != packageFolder)).findSome? installed?).isSome = true := by
    rw [List.findSome?_isSome_iff]
    exact ⟨folder, mem_filter_searchFolders_iff.2 hsearched,
      Option.isSome_iff_exists.2 ⟨pkg, (hinstalled folder pkg).2 h⟩⟩
  obtain ⟨q, hq⟩ := Option.isSome_iff_exists.1 hsome
  obtain ⟨f, hf, hfq, hnearest⟩ := (findSome?_eq_some_iff_of_pairwise Path.IsBelow.asymm
    ((pairwise_searchFolders r.searchRoot start).filter _)).1 hq
  refine ⟨f, q, mem_filter_searchFolders_iff.1 hf, (hinstalled f q).1 hfq,
    fun nearer hn hnf q' => ?_⟩
  rw [← hinstalled, hnearest nearer (mem_filter_searchFolders_iff.2 hn) hnf]
  exact nofun

/-- A name means the nearest located package, where nothing shadows it. -/
theorem NearestInstalled.named?_eq_some (h : r.NearestInstalled start name folder pkg)
    (hroots : (r.packages.map Package.root).Nodup) (hclear : ¬ r.Shadowed start name folder) :
    r.named? start name = some pkg := by
  refine (named?_eq_some_iff hroots).2 ⟨h.installed.1, findPackageRoot_eq_some_iff.2
    ⟨folder, h.searched, h.installed.2, fun nearer hn hnf => ?_⟩⟩
  cases hcopy : copyAt? r.tree name nearer with
  | none => rfl
  | some place =>
    rcases installedAt_or_strayAt hcopy with ⟨q, hq⟩ | hstray
    · exact absurd hq (h.nearest nearer hn hnf q)
    · exact absurd ⟨nearer, hn, hnf, hstray⟩ hclear

/-- Where the nearest located package is shadowed, a name means nothing. -/
theorem NearestInstalled.named?_eq_none (h : r.NearestInstalled start name folder pkg)
    (hroots : (r.packages.map Package.root).Nodup) (hshadowed : r.Shadowed start name folder) :
    r.named? start name = none := by
  obtain ⟨nearer, hn, hnf, hstray⟩ := hshadowed
  rw [Option.eq_none_iff_forall_ne_some]
  intro q hnamed
  obtain ⟨hq, hfind⟩ := (named?_eq_some_iff hroots).1 hnamed
  obtain ⟨f, hf, hcopy, hfirst⟩ := findPackageRoot_eq_some_iff.1 hfind
  have hne : f ≠ nearer := by
    rintro rfl
    exact hstray.not_installedAt ⟨hq, hcopy⟩
  -- The copy that is found would come before the stray one, and so before the nearest package.
  have hfn : f.IsBelow nearer := by
    refine ⟨(Path.isWithin_total hf.isWithin hn.isWithin).resolve_right fun hout => ?_, hne⟩
    obtain ⟨place, hplace, -⟩ := hstray
    rw [hfirst nearer hn ⟨hout, hne.symm⟩] at hplace
    cases hplace
  exact h.nearest f hf (hfn.trans hnf) q ⟨hq, hcopy⟩

/-- A name that is neither its own package's nor the application's means, in a module, the located
package that is installed nearest on the way up from the module's folder, unless a copy that is not
located comes before that one; then it means nothing, and no file is found in any package.  It means
nothing either where no folder that is searched has a located package of the name. -/
theorem nearest_meant_iff_not_shadowed {specifier : String}
    (hroots : (r.packages.map Package.root).Nodup)
    (hown : ∀ own, r.owner? importer = some own → own.name ≠ (splitPackageName specifier).1)
    (happ : (splitPackageName specifier).1 ≠ r.app.name) :
    (∀ folder pkg,
      r.NearestInstalled importer.parent (splitPackageName specifier).1 folder pkg →
        (r.packageFor? importer (splitPackageName specifier).1 = some pkg ↔
          ¬ r.Shadowed importer.parent (splitPackageName specifier).1 folder) ∧
        (r.Shadowed importer.parent (splitPackageName specifier).1 folder →
          r.packageFor? importer (splitPackageName specifier).1 = none ∧
            r.resolveBare importer specifier = .ok none)) ∧
    ((¬ ∃ folder pkg,
      r.NearestInstalled importer.parent (splitPackageName specifier).1 folder pkg) →
        r.packageFor? importer (splitPackageName specifier).1 = none) := by
  have hnamed := packageFor?_eq_named? hown happ
  refine ⟨fun folder pkg h => ⟨?_, fun hshadowed => ?_⟩, fun hnone => ?_⟩
  · rw [hnamed]
    refine ⟨fun hsome hshadowed => ?_, h.named?_eq_some hroots⟩
    rw [h.named?_eq_none hroots hshadowed] at hsome
    cases hsome
  · have hnothing := hnamed.trans (h.named?_eq_none hroots hshadowed)
    refine ⟨hnothing, ?_⟩
    simp only [resolveBare, hnothing]
  · rw [hnamed, Option.eq_none_iff_forall_ne_some]
    intro q hq
    obtain ⟨hmem, hfind⟩ := (named?_eq_some_iff hroots).1 hq
    obtain ⟨f, hf, hcopy, -⟩ := findPackageRoot_eq_some_iff.1 hfind
    exact hnone (exists_nearestInstalled hroots hf ⟨hmem, hcopy⟩)

/-- An addon has a copy of `lib` of its own that it does not declare; the application declares
another one. -/
def strayOutput : FileTree where
  entries := [(["app"], .folder),
    (["app", "package.json"], .file ("\x7b\"name\":\"app\",\"ember-addon\":" ++
      "\x7b\"type\":\"app\"\x7d,\"dependencies\":[\"addon\",\"lib\"]\x7d").toUTF8.toList),
    (["app", "node_modules"], .folder), (["app", "node_modules", "addon"], .folder),
    (["app", "node_modules", "addon", "package.json"], .file "\x7b\x7d".toUTF8.toList),
    (["app", "node_modules", "addon", "index.js"], .file []),
    (["app", "node_modules", "addon", "node_modules"], .folder),
    (["app", "node_modules", "addon", "node_modules", "lib"], .folder),
    (["app", "node_modules", "addon", "node_modules", "lib", "package.json"],
      .file "\x7b\x7d".toUTF8.toList),
    (["app", "node_modules", "lib"], .folder),
    (["app", "node_modules", "lib", "package.json"], .file "\x7b\x7d".toUTF8.toList)]

/-- The copy that the application declares. -/
def declaredLib : Package where
  name := "lib"
  root := ⟨.root, ["app", "node_modules", "lib"]⟩
  kind := .addon

/-- The packages of the output resolve with the copy that has been located. -/
def strayResolver : Resolver where
  tree := strayOutput
  app := { name := "app", root := ⟨.root, ["app"]⟩, kind := .app, addonVersion := some (.number 1),
           dependencies := ["addon", "lib"] }
  addons := [
    { name := "addon", root := ⟨.root, ["app", "node_modules", "addon"]⟩, kind := .addon },
    declaredLib]
  settings := .initial 4

/-- The copy that stands next to the addon's module hides the one that has been located. -/
theorem nearest_meant_iff_not_shadowed_undeclared :
    (locatePackages strayOutput ⟨.root, ["app"]⟩).toOption.map (·.map Package.root) =
      some (strayResolver.packages.map Package.root) ∧
    (strayResolver.packages.map Package.root).Nodup ∧
    (∀ own, strayResolver.owner? ⟨.root, ["app", "node_modules", "addon", "index.js"]⟩ = some own →
      own.name ≠ (splitPackageName "lib").1) ∧
    (splitPackageName "lib").1 ≠ strayResolver.app.name ∧
    strayResolver.NearestInstalled ⟨.root, ["app", "node_modules", "addon"]⟩
      (splitPackageName "lib").1 ⟨.root, ["app"]⟩ declaredLib ∧
    strayResolver.packageFor? ⟨.root, ["app", "node_modules", "addon", "index.js"]⟩
      (splitPackageName "lib").1 = none ∧
    strayResolver.resolveBare ⟨.root, ["app", "node_modules", "addon", "index.js"]⟩ "lib" =
      .ok none := by
  have hlocated : (locatePackages strayOutput ⟨.root, ["app"]⟩).toOption.map
      (·.map Package.root) = some (strayResolver.packages.map Package.root) := by
    decide +kernel
  have hroots : (strayResolver.packages.map Package.root).Nodup := by decide +kernel
  have hown : ∀ own,
      strayResolver.owner? ⟨.root, ["app", "node_modules", "addon", "index.js"]⟩ = some own →
        own.name ≠ (splitPackageName "lib").1 := by
    have hname : (strayResolver.owner?
        ⟨.root, ["app", "node_modules", "addon", "index.js"]⟩).map Package.name = some "addon" := by
      decide +kernel
    intro own howner
    rw [howner] at hname
    rw [Option.some.inj hname]
    decide +kernel
  have happ : (splitPackageName "lib").1 ≠ strayResolver.app.name := by decide +kernel
  have hsearched : ∀ {f},
      Searched strayResolver.searchRoot ⟨.root, ["app", "node_modules", "addon"]⟩ f ↔
        f ∈ [⟨.root, ["app", "node_modules", "addon"]⟩, ⟨.root, ["app"]⟩] := by
    have hfolders : (searchFolders strayResolver.searchRoot
        ⟨.root, ["app", "node_modules", "addon"]⟩).filter (·.name != packageFolder) =
          [⟨.root, ["app", "node_modules", "addon"]⟩, ⟨.root, ["app"]⟩] := by
      decide +kernel
    intro f
    rw [← mem_filter_searchFolders_iff, hfolders]
  have hstray : strayResolver.StrayAt (splitPackageName "lib").1
      ⟨.root, ["app", "node_modules", "addon"]⟩ :=
    ⟨⟨.root, ["app", "node_modules", "addon", "node_modules", "lib"]⟩, by decide +kernel,
      by decide +kernel⟩
  have hnearest : strayResolver.NearestInstalled ⟨.root, ["app", "node_modules", "addon"]⟩
      (splitPackageName "lib").1 ⟨.root, ["app"]⟩ declaredLib := by
    refine ⟨hsearched.2 (by simp), ⟨?_, by decide +kernel⟩, fun nearer hn hnf q => ?_⟩
    · simp [packages, strayResolver]
    · rcases List.mem_pair.1 (hsearched.1 hn) with rfl | rfl
      · exact hstray.not_installedAt
      · exact absurd rfl hnf.2
  have hshadowed : strayResolver.Shadowed ⟨.root, ["app", "node_modules", "addon"]⟩
      (splitPackageName "lib").1 ⟨.root, ["app"]⟩ :=
    ⟨_, hsearched.2 List.mem_cons_self, ⟨by decide, by decide⟩, hstray⟩
  exact ⟨hlocated, hroots, hown, happ, hnearest,
    ((nearest_meant_iff_not_shadowed hroots hown happ).1 _ _ hnearest).2 hshadowed⟩

/-! ## What is meant throughout a package -/

/-- With the packages of an output, a resolver looks up to the folder of the output. -/
theorem searchRoot_of_located {given : Path}
    (hlocated : locatePackages r.tree (r.tree.resolve given) = .ok r.packages) :
    r.searchRoot = r.tree.resolve given := by
  obtain ⟨app, found, happ, -, hpackages⟩ := locatePackages_eq_ok_iff.1 hlocated
  obtain ⟨rfl, -⟩ := List.cons.inj hpackages
  exact resolve_root_of_loadApp happ

/-- What a name means in a package's module: the package itself, the application, or what is
installed. -/
theorem packageFor?_of_owner (h : r.owner? importer = some pkg) :
    r.packageFor? importer name =
      if name = pkg.name then some pkg
      else if name = r.app.name then some r.app else r.named? importer.parent name := by
  rw [packageFor?, h, Option.filter_some]
  by_cases hown : name = pkg.name
  · rw [if_pos hown, if_pos (by simp [hown])]
  · rw [if_neg hown, if_neg (by simpa using Ne.symm hown)]

/-- Where a package is installed for another one, and no copy of it comes between a folder and the
other one's, its name means it in the folder just if the other one lies within the output or the
folder is the other one's own; otherwise it means nothing there.  So a module in the folder and one
next to the manifest mean the same by the name just in these cases, and where it is the name of
their own package or of the application. -/
theorem dependency_meant_throughout_iff {given : Path} {settings : Settings}
    (hlocated : locatePackages t (t.resolve given) = .ok packages)
    (hresolver : ofPackages t packages settings = .ok r) (hdep : dep ∈ packages)
    (hfind : findPackageRoot t (t.resolve given) pkg.root name = some dep.root)
    (hbelow : folder.isWithin pkg.root = true)
    (hclear : ∀ between, folder.isWithin between = true → between.IsBelow pkg.root →
      t.isFile ((installPlace between name).child manifestName) = false) :
    (findPackageRoot t (t.resolve given) folder name = some dep.root ↔
      pkg.root.isWithin (t.resolve given) = true ∨ folder = pkg.root) ∧
    (findPackageRoot t (t.resolve given) folder name = none ↔
      pkg.root.isWithin (t.resolve given) = false ∧ folder ≠ pkg.root) ∧
    ∀ importer beside, importer.parent = folder → beside.parent = pkg.root →
      r.owner? importer = some pkg → r.owner? beside = some pkg →
        (r.packageFor? importer name = r.packageFor? beside name ↔
          pkg.root.isWithin (t.resolve given) = true ∨ folder = pkg.root ∨
            name = pkg.name ∨ name = r.app.name) := by
  obtain ⟨rfl, rfl, -⟩ := ofPackages_eq_ok_iff.1 hresolver
  have hroots := nodup_roots_of_locatePackages hlocated
  have hroot := searchRoot_of_located hlocated
  have hbeside : r.named? pkg.root name = some dep :=
    (named?_eq_some_iff hroots).2 ⟨hdep, hroot ▸ hfind⟩
  rcases findPackageRoot_cases hbelow
    (fun between hwithin hb => copyAt?_eq_none_iff.2 (hclear between hwithin hb)) hfind with
    ⟨hreach, hmeant⟩ | ⟨⟨hout, hne⟩, hlost⟩
  · refine ⟨iff_of_true hmeant hreach, iff_of_false (by simp [hmeant]) ?_, ?_⟩
    · rintro ⟨hout, hne⟩
      simp [hout, hne] at hreach
    rintro importer beside rfl hparent howner howner'
    have hfolder : r.named? importer.parent name = some dep :=
      (named?_eq_some_iff hroots).2 ⟨hdep, hroot ▸ hmeant⟩
    rw [packageFor?_of_owner howner, packageFor?_of_owner howner', hparent, hbeside, hfolder]
    exact iff_of_true rfl (hreach.imp id .inl)
  · refine ⟨iff_of_false (by simp [hlost]) (by simp [hout, hne]), iff_of_true hlost ⟨hout, hne⟩, ?_⟩
    rintro importer beside rfl hparent howner howner'
    have hfolder : r.named? importer.parent name = none := by
      rw [named?, ← searchRoot, hroot, hlost]
      rfl
    rw [packageFor?_of_owner howner, packageFor?_of_owner howner', hparent, hbeside, hfolder]
    simp only [hout, hne, Bool.false_eq_true, false_or]
    by_cases hown : name = pkg.name
    · simp [hown]
    by_cases happ : name = r.app.name
    · simp [happ]
    · simp [hown, happ]

/-- An application depends on a package that a link leads to out of the output, where another one is
installed for it. -/
def kitOutput : FileTree where
  entries := [(["app"], .folder),
    (["app", "package.json"], .file ("\x7b\"name\":\"app\",\"ember-addon\":" ++
      "\x7b\"type\":\"app\"\x7d,\"dependencies\":[\"kit\"]\x7d").toUTF8.toList),
    (["app", "node_modules"], .folder),
    (["app", "node_modules", "kit"], .link ⟨.here, ["..", "..", "kit"]⟩),
    (["kit"], .folder),
    (["kit", "package.json"], .file "\x7b\"dependencies\":[\"dep\"]\x7d".toUTF8.toList),
    (["kit", "index.js"], .file []), (["kit", "lib"], .folder),
    (["kit", "lib", "x.js"], .file []), (["kit", "node_modules"], .folder),
    (["kit", "node_modules", "dep"], .folder),
    (["kit", "node_modules", "dep", "package.json"], .file "\x7b\x7d".toUTF8.toList)]

/-- The package that is installed for it is located, and meant next to its manifest, but not in a
folder below. -/
theorem dependency_meant_throughout_iff_linked :
    ∃ packages r, ∃ kit dep : Package,
      locatePackages kitOutput (kitOutput.resolve ⟨.root, ["app"]⟩) = .ok packages ∧
      ofPackages kitOutput packages (.initial 4) = .ok r ∧ dep ∈ packages ∧
      findPackageRoot kitOutput (kitOutput.resolve ⟨.root, ["app"]⟩) kit.root "dep" =
        some dep.root ∧
      (⟨.root, ["kit", "lib"]⟩ : Path).isWithin kit.root = true ∧
      (∀ between : Path, (⟨.root, ["kit", "lib"]⟩ : Path).isWithin between = true →
        between.IsBelow kit.root →
          kitOutput.isFile ((installPlace between "dep").child manifestName) = false) ∧
      r.owner? ⟨.root, ["kit", "lib", "x.js"]⟩ = some kit ∧
      r.owner? ⟨.root, ["kit", "index.js"]⟩ = some kit ∧
      findPackageRoot kitOutput (kitOutput.resolve ⟨.root, ["app"]⟩) ⟨.root, ["kit", "lib"]⟩ "dep" =
        none ∧
      r.packageFor? ⟨.root, ["kit", "lib", "x.js"]⟩ "dep" ≠
        r.packageFor? ⟨.root, ["kit", "index.js"]⟩ "dep" := by
  have hplaces : ((locatePackages kitOutput (kitOutput.resolve ⟨.root, ["app"]⟩)).toOption.map
      (·.map fun p => (p.name, p.root, p.isApp))) = some [("app", ⟨.root, ["app"]⟩, true),
        ("kit", ⟨.root, ["kit"]⟩, false),
        ("dep", ⟨.root, ["kit", "node_modules", "dep"]⟩, false)] := by
    decide +kernel
  cases hlocated : locatePackages kitOutput (kitOutput.resolve ⟨.root, ["app"]⟩) with
  | error fault =>
    rw [hlocated] at hplaces
    cases hplaces
  | ok packages =>
    rw [hlocated] at hplaces
    obtain ⟨app, rest, rfl, happ, hplaces⟩ := List.map_eq_cons_iff.1 (Option.some.inj hplaces)
    obtain ⟨kit, rest, rfl, hkit, hplaces⟩ := List.map_eq_cons_iff.1 hplaces
    obtain ⟨dep, rest, rfl, hdep, hplaces⟩ := List.map_eq_cons_iff.1 hplaces
    obtain rfl := List.map_eq_nil_iff.1 hplaces
    obtain ⟨happname, happroot, happ⟩ := by simpa only [Prod.mk.injEq] using happ
    obtain ⟨hkitname, hkitroot, -⟩ := by simpa only [Prod.mk.injEq] using hkit
    obtain ⟨-, hdeproot, -⟩ := by simpa only [Prod.mk.injEq] using hdep
    have hresolver : ofPackages kitOutput [app, kit, dep] (.initial 4) =
        .ok ⟨kitOutput, app, [kit, dep], .initial 4⟩ :=
      ofPackages_eq_ok_iff.2 ⟨rfl, rfl, rfl, happ⟩
    have howner : ∀ p : Path, p.isWithin ⟨.root, ["kit"]⟩ = true →
        p.isWithin ⟨.root, ["app"]⟩ = false →
        p.isWithin ⟨.root, ["kit", "node_modules", "dep"]⟩ = false →
          (⟨kitOutput, app, [kit, dep], .initial 4⟩ : Resolver).owner? p = some kit := by
      intro p hin happ hdep
      simp [owner?, packages, happroot, hkitroot, hdeproot, hin, happ, hdep]
    have hfind : findPackageRoot kitOutput (kitOutput.resolve ⟨.root, ["app"]⟩) kit.root "dep" =
        some dep.root := by
      rw [hkitroot, hdeproot]
      decide +kernel
    have hbelow : (⟨.root, ["kit", "lib"]⟩ : Path).isWithin kit.root = true := by
      rw [hkitroot]
      decide
    have hclear : ∀ between : Path, (⟨.root, ["kit", "lib"]⟩ : Path).isWithin between = true →
        between.IsBelow kit.root →
          kitOutput.isFile ((installPlace between "dep").child manifestName) = false := by
      have habove : ∀ between ∈ Path.upwards 2 ⟨.root, ["kit", "lib"]⟩,
          between.isWithin ⟨.root, ["kit"]⟩ = true → between ≠ ⟨.root, ["kit"]⟩ →
            kitOutput.isFile ((installPlace between "dep").child manifestName) = false := by
        decide +kernel
      rintro between hwithin ⟨hin, hne⟩
      rw [hkitroot] at hin hne
      exact habove between (Path.mem_upwards_iff.2 ⟨hwithin, by simp⟩) hin hne
    have hdep : dep ∈ [app, kit, dep] := by simp
    have hx := howner ⟨.root, ["kit", "lib", "x.js"]⟩ (by decide) (by decide) (by decide)
    have hindex := howner ⟨.root, ["kit", "index.js"]⟩ (by decide) (by decide) (by decide)
    obtain ⟨-, hnone, hsame⟩ :=
      dependency_meant_throughout_iff hlocated hresolver hdep hfind hbelow hclear
    have hout : kit.root.isWithin (kitOutput.resolve ⟨.root, ["app"]⟩) = false := by
      rw [hkitroot]
      decide +kernel
    have hne : (⟨.root, ["kit", "lib"]⟩ : Path) ≠ kit.root := by
      rw [hkitroot]
      decide
    refine ⟨_, _, kit, dep, rfl, hresolver, hdep, hfind, hbelow, hclear, hx, hindex,
      hnone.2 ⟨hout, hne⟩, fun h => ?_⟩
    have hcases := (hsame ⟨.root, ["kit", "lib", "x.js"]⟩ ⟨.root, ["kit", "index.js"]⟩ rfl
      hkitroot.symm hx hindex).1 h
    simp [hout, hne, hkitname, happname] at hcases

end Resolver

end BundleReach
