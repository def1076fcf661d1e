import BundleReach.Proofs.Package.Discovery

/-!
# What discovery fails at

What an application needs is whatever its declared dependencies lead to, their own included.  The
search for packages comes by all of it, and nothing in the manifests there can stop it but
dependencies that cannot be listed: `discovery_fails_iff_unlistable`.

* `Needed` — the folders that an application's dependencies lead to.
* `Needed.mem_of_visits` — a visit meets whatever is needed.
* `exists_needed_of_discover` — where the search fails, something that is needed is at fault.
-/

namespace BundleReach

variable {t : FileTree} {root owner place next : Path} {name : String} {names : List String}
  {met : List Path} {found : List Package} {agenda : List Sought} {m : Manifest}
  {pkg app : Package}

/-! ## What is needed -/

/-- The folders that the declared dependencies of an application lead to, and those of the packages
there. -/
inductive Needed (t : FileTree) (root : Path) (app : Package) : Path → Prop where
  | direct {name : String} {place : Path} (declared : name ∈ app.dependencies)
      (leads : findPackageRoot t root app.root name = some place) : Needed t root app place
  | through {place next : Path} {m : Manifest} {pkg : Package} {name : String}
      (before : Needed t root app place) (read : manifestAt? t place = some m)
      (described : m.package place .addon = .ok pkg) (declared : name ∈ pkg.dependencies)
      (leads : findPackageRoot t root place name = some next) : Needed t root app next

/-- Where an application is loaded from, a manifest stands that describes an addon as well, with no
other dependencies than the application's. -/
theorem exists_addon_of_loadApp (happ : loadApp t root = .ok app)
    (hread : manifestAt? t app.root = some m) :
    ∃ pkg, m.package app.root .addon = .ok pkg ∧ pkg.dependencies ⊆ app.dependencies := by
  obtain ⟨m', hm', -, hpackage⟩ := exists_manifest_of_loadApp happ
  rw [root_of_loadApp happ] at hread ⊢
  obtain rfl := Option.some.inj (hm'.symm.trans hread)
  cases haddon : m'.package root .addon with
  | ok pkg => exact ⟨pkg, rfl, dependencies_addon_subset hpackage haddon⟩
  | error fault =>
    have hunlists := (Manifest.package_eq_error_iff.1 haddon).resolve_right nofun
    have hfails : m'.package root .app = .error fault :=
      Manifest.package_eq_error_iff.2 (.inl hunlists)
    rw [hpackage] at hfails
    cases hfails

/-- A visit of an application's dependencies meets whatever the application needs. -/
theorem Needed.mem_of_visits (happ : loadApp t root = .ok app)
    (hvisits : Visits t root app.root app.dependencies [app.root] found met)
    (h : Needed t root app place) : place ∈ met := by
  induction h with
  | direct declared leads => exact hvisits.account.named _ declared _ leads
  | @through place next m pkg name _ read described declared leads ih =>
    rcases hvisits.account.handled place ih with hself | hnone | ⟨m', pkg', hread, hpkg, -, hmet⟩
    · obtain rfl := List.mem_singleton.1 hself
      obtain ⟨pkg', hpkg, hsub⟩ := exists_addon_of_loadApp happ read
      obtain rfl := Except.ok.inj (described.symm.trans hpkg)
      exact hvisits.account.named name (hsub declared) next leads
    · rw [hnone] at read
      cases read
    · obtain rfl := Option.some.inj (read.symm.trans hread)
      obtain rfl := Except.ok.inj (described.symm.trans hpkg)
      exact hmet name declared next leads

/-- The manifests that are met by a visit describe packages. -/
theorem Needed.described_of_visits (happ : loadApp t root = .ok app)
    (hvisits : Visits t root app.root app.dependencies [app.root] found met)
    (h : Needed t root app place) (hread : manifestAt? t place = some m) :
    ∃ pkg, m.package place .addon = .ok pkg := by
  rcases hvisits.account.handled place (h.mem_of_visits happ hvisits) with
    hself | hnone | ⟨m', pkg, hread', hpkg, -, -⟩
  · obtain rfl := List.mem_singleton.1 hself
    obtain ⟨pkg, hpkg, -⟩ := exists_addon_of_loadApp happ hread
    exact ⟨pkg, hpkg⟩
  · rw [hnone] at hread
    cases hread
  · obtain rfl := Option.some.inj (hread.symm.trans hread')
    exact ⟨pkg, hpkg⟩

/-! ## Where the search fails -/

/-- A search whose agenda leads to nothing but what is needed fails only at what is needed, where
dependencies cannot be listed. -/
theorem exists_needed_of_discover {fault : DiscoveryFault} (most : Nat)
    (hagenda : ∀ s ∈ agenda, ∀ place, findPackageRoot t root s.1 s.2 = some place →
      Needed t root app place)
    (h : discover t root most agenda met = .error fault) :
    ∃ u place m, fault = .unlistable u ∧ Needed t root app place ∧ manifestAt? t place = some m ∧
      Unlists (m.get "dependencies") u := by
  induction most generalizing agenda met with
  | zero => cases h
  | succ most ihm =>
    induction agenda generalizing met with
    | nil => cases h
    | cons sought agenda iha =>
      obtain ⟨owner, name⟩ := sought
      have hrest : ∀ s ∈ agenda, ∀ place, findPackageRoot t root s.1 s.2 = some place →
          Needed t root app place := fun s hs => hagenda s (List.mem_cons_of_mem _ hs)
      cases lookUp_cases t root owner name met with
      | known hknown =>
        rw [discover_cons_of_known hknown] at h
        exact iha hrest h
      | unread hleads hfresh hread =>
        rw [discover_cons_of_unread hleads hfresh hread] at h
        exact iha hrest h
      | @unlistable place m u hleads hfresh hread hfails =>
        rw [discover_cons_of_unlistable hleads hfresh hread hfails] at h
        exact ⟨u, place, m, (Except.error.inj h).symm, hagenda _ List.mem_cons_self place hleads,
          hread, (Manifest.package_eq_error_iff.1 hfails).resolve_right nofun⟩
      | @described place m pkg hleads hfresh hread hpkg =>
        have hneeded := hagenda _ List.mem_cons_self place hleads
        rw [discover_cons_of_described hleads hfresh hread hpkg, map_eq_error_iff] at h
        refine ihm (fun s hs next hnext => ?_) h
        rcases List.mem_append.1 hs with hs | hs
        · obtain ⟨n, hn, rfl⟩ := List.mem_map.1 hs
          rw [root_of_package hpkg] at hnext
          exact hneeded.through hread hpkg hn hnext
        · exact hrest s hs next hnext

theorem exists_needed_of_locateAddons {fault : DiscoveryFault}
    (h : locateAddons t root app = .error fault) :
    ∃ u place m, fault = .unlistable u ∧ Needed t root app place ∧ manifestAt? t place = some m ∧
      Unlists (m.get "dependencies") u := by
  refine exists_needed_of_discover _ (fun s hs place hfind => ?_) h
  obtain ⟨name, hname, rfl⟩ := List.mem_map.1 hs
  exact .direct hname hfind

/-- The search for addons fails exactly if something that the application needs is at fault. -/
theorem locateAddons_fails_iff (happ : loadApp t root = .ok app) :
    (∃ u, locateAddons t root app = .error (.unlistable u)) ↔
      ∃ place m u, Needed t root app place ∧ manifestAt? t place = some m ∧
        Unlists (m.get "dependencies") u := by
  constructor
  · rintro ⟨u, h⟩
    obtain ⟨u, place, m, -, hneeded, hread, hunlists⟩ := exists_needed_of_locateAddons h
    exact ⟨place, m, u, hneeded, hread, hunlists⟩
  · rintro ⟨place, m, u, hneeded, hread, hunlists⟩
    cases h : locateAddons t root app with
    | error fault =>
      obtain ⟨u, -, -, rfl, -⟩ := exists_needed_of_locateAddons h
      exact ⟨u, rfl⟩
    | ok found =>
      -- Then the folder has been met, and its manifest describes a package.
      obtain ⟨met, hvisits⟩ := locateAddons_eq_ok_iff.1 h
      obtain ⟨pkg, hpkg⟩ := hneeded.described_of_visits happ hvisits hread
      have hfails : m.package place .addon = .error u :=
        Manifest.package_eq_error_iff.2 (.inl hunlists)
      rw [hpkg] at hfails
      cases hfails

/-- Where an application has been loaded, either packages are told or the search for its addons
fails. -/
theorem exists_packages_iff (happ : loadApp t root = .ok app) :
    (∃ packages, locatePackages t root = .ok packages) ↔
      ¬ ∃ u, locateAddons t root app = .error (.unlistable u) := by
  simp only [locatePackages_eq_ok_iff]
  constructor
  · rintro ⟨packages, app', found, happ', hfound, -⟩ ⟨u, hfails⟩
    obtain rfl := Except.ok.inj (happ.symm.trans happ')
    rw [hfound] at hfails
    cases hfails
  · intro hnot
    cases h : locateAddons t root app with
    | error fault =>
      obtain ⟨u, -, -, rfl, -⟩ := exists_needed_of_locateAddons h
      exact absurd ⟨u, h⟩ hnot
    | ok found => exact ⟨app :: found, app, found, happ, h, rfl⟩

theorem locatePackages_eq_error_iff {fault : DiscoveryFault} :
    locatePackages t root = .error fault ↔
      loadApp t root = .error fault ∨
        ∃ app, loadApp t root = .ok app ∧ locateAddons t root app = .error fault := by
  rw [locatePackages, bind_eq_error_iff]
  refine or_congr_right (exists_congr fun app => and_congr_right fun _ => ?_)
  rw [bind_eq_error_iff]
  refine ⟨fun h => h.elim id ?_, .inl⟩
  rintro ⟨found, -, h⟩
  cases h

/-- Nothing in the manifests of packages can stop discovery but dependencies that are no list of any
sort.  Where an application has been loaded, packages are told exactly if no manifest that can be
read, in a folder that the application needs, has such dependencies.  And of all outputs, only those
fail by other than a refusal that are of an application which has such dependencies itself, or needs
a package that has. -/
theorem discovery_fails_iff_unlistable (t : FileTree) (root : Path) :
    (∀ app, loadApp t root = .ok app →
      ((∃ packages, locatePackages t root = .ok packages) ↔
        ∀ place m u, Needed t root app place → manifestAt? t place = some m →
          ¬ Unlists (m.get "dependencies") u)) ∧
    ((∃ u, locatePackages t root = .error (.unlistable u)) ↔
      (∃ m u, manifestAt? t root = some m ∧ m.IsApplication ∧
        (Unlists (m.get "dependencies") u ∨ Unlists (m.get "devDependencies") u)) ∨
      ∃ app place m u, loadApp t root = .ok app ∧ Needed t root app place ∧
        manifestAt? t place = some m ∧ Unlists (m.get "dependencies") u) := by
  refine ⟨fun app happ => ?_, ?_⟩
  · rw [exists_packages_iff happ, locateAddons_fails_iff happ]
    push Not
    rfl
  · simp only [locatePackages_eq_error_iff, exists_or]
    refine or_congr ?_ ?_
    · simp only [loadApp_eq_unlistable_iff]
      constructor
      · rintro ⟨u, m, hm, happ, hfails⟩
        obtain ⟨u, hu⟩ := Manifest.package_app_fails_iff.1 ⟨u, hfails⟩
        exact ⟨m, u, hm, happ, hu⟩
      · rintro ⟨m, u, hm, happ, hu⟩
        obtain ⟨u, hfails⟩ := Manifest.package_app_fails_iff.2 ⟨u, hu⟩
        exact ⟨u, m, hm, happ, hfails⟩
    · constructor
      · rintro ⟨u, app, happ, hfails⟩
        obtain ⟨place, m, u, h⟩ := (locateAddons_fails_iff happ).1 ⟨u, hfails⟩
        exact ⟨app, place, m, u, happ, h⟩
      · rintro ⟨app, place, m, u, happ, h⟩
        obtain ⟨u, hfails⟩ := (locateAddons_fails_iff happ).2 ⟨place, m, u, h⟩
        exact ⟨u, app, happ, hfails⟩

/-- An application with a package whose dependencies are a number. -/
def countingOutput : FileTree where
  entries := [(["app"], .folder),
    (["app", "package.json"], .file ("\x7b\"name\":\"app\",\"ember-addon\":" ++
      "\x7b\"type\":\"app\"\x7d,\"dependencies\":[\"bad\"]\x7d").toUTF8.toList),
    (["app", "node_modules"], .folder), (["app", "node_modules", "bad"], .folder),
    (["app", "node_modules", "bad", "package.json"],
      .file "\x7b\"dependencies\":5\x7d".toUTF8.toList)]

/-- The manifest of the package is read, but no packages are told. -/
theorem discovery_fails_iff_unlistable_number :
    ∃ app m u, loadApp countingOutput ⟨.root, ["app"]⟩ = .ok app ∧
      Needed countingOutput ⟨.root, ["app"]⟩ app ⟨.root, ["app", "node_modules", "bad"]⟩ ∧
      manifestAt? countingOutput ⟨.root, ["app", "node_modules", "bad"]⟩ = some m ∧
      Unlists (m.get "dependencies") u ∧
      ¬ ∃ packages, locatePackages countingOutput ⟨.root, ["app"]⟩ = .ok packages := by
  have hnames : ((loadApp countingOutput ⟨.root, ["app"]⟩).toOption.map fun app =>
      (app.root, app.dependencies)) = some (⟨.root, ["app"]⟩, ["bad"]) := by
    decide +kernel
  have hfind : findPackageRoot countingOutput ⟨.root, ["app"]⟩ ⟨.root, ["app"]⟩ "bad" =
      some ⟨.root, ["app", "node_modules", "bad"]⟩ := by
    decide +kernel
  have hmanifest : ((manifestAt? countingOutput ⟨.root, ["app", "node_modules", "bad"]⟩).map
      fun m => (Manifest.listed (m.get "dependencies")).isOk) = some false := by
    decide +kernel
  obtain ⟨m, hm, hlisted⟩ := Option.map_eq_some_iff.1 hmanifest
  cases happ : loadApp countingOutput ⟨.root, ["app"]⟩ with
  | error fault =>
    rw [happ] at hnames
    cases hnames
  | ok app =>
    rw [happ] at hnames
    obtain ⟨hroot, hdependencies⟩ := Prod.mk.inj (Option.some.inj hnames)
    cases hlists : Manifest.listed (m.get "dependencies") with
    | ok items =>
      rw [hlists] at hlisted
      cases hlisted
    | error u =>
      have hneeded : Needed countingOutput ⟨.root, ["app"]⟩ app
          ⟨.root, ["app", "node_modules", "bad"]⟩ :=
        .direct (hdependencies ▸ List.mem_singleton_self "bad") (hroot ▸ hfind)
      have hunlists := Manifest.listed_eq_error_iff.1 hlists
      exact ⟨app, m, u, rfl, hneeded, hm, hunlists, fun htold =>
        ((discovery_fails_iff_unlistable _ _).1 app happ).1 htold _ m u hneeded hm hunlists⟩

end BundleReach
