import BundleReach.Proofs.Resolution.Faults
import BundleReach.Proofs.Resolution.Installed

/-!
# The application's namespace

A module of the application is imported under the application's name, from anywhere in the output.
Such a name means the same in every module: the application's own file, or what the last of the
addons supplies that supplies anything for it.  The application comes first among the packages and
has no say as an addon: only the tables of the packages after it are looked into.

* `Resolver.InAppNamespace`, `Resolver.MeansApp` — the specifiers and the modules that import them.
* `Resolver.AppMeaning` — what such a specifier means.
* `Resolver.app_name_means_same` — resolving it comes to that, wherever it is imported;
  `Resolver.own_table_unasked`, where the application itself has a table.
-/

namespace BundleReach

open BundleReach.Path (RenameFault)

namespace Resolver

variable {r : Resolver} {importer : Path} {specifier sub : String}

/-! ## Names in the application's namespace -/

/-- A specifier is that of a module within the application by the application's name, and the rename
tables have nothing about it. -/
structure InAppNamespace (r : Resolver) (specifier sub : String) : Prop where
  notSupplied : isRuntimeModule r.settings.externals specifier = false
  notRelative : isRelative specifier = false
  notAbsolute : Text.beginsWith "/" specifier = false
  split : splitPackageName specifier = (r.app.name, sub)
  inside : sub ≠ ""
  notRenamed : ∀ ending ∈ "" :: r.settings.extensions,
    Table.find? (specifier ++ ending) r.app.renamedModules = none
  packageNotRenamed : Table.find? r.app.name r.app.renamedPackages = none

/-- Where the application renames nothing, a name that begins with its name is in its namespace. -/
theorem InAppNamespace.of_nothing_renamed
    (hsupplied : isRuntimeModule r.settings.externals specifier = false)
    (hrelative : isRelative specifier = false)
    (habsolute : Text.beginsWith "/" specifier = false)
    (hsplit : splitPackageName specifier = (r.app.name, sub)) (hinside : sub ≠ "")
    (hmodules : r.app.renamedModules = []) (hpackages : r.app.renamedPackages = []) :
    r.InAppNamespace specifier sub := by
  refine ⟨hsupplied, hrelative, habsolute, hsplit, hinside, fun ending _ => ?_, ?_⟩
  · rw [hmodules]
    rfl
  · rw [hpackages]
    rfl

/-- A module does not belong to another package of the application's name. -/
def MeansApp (r : Resolver) (importer : Path) : Prop :=
  ∀ own, r.owner? importer = some own → own.name = r.app.name → own.isApp = true

theorem MeansApp.of_isApp (h : (r.owner? importer).map Package.isApp = some true) :
    r.MeansApp importer := by
  intro own howner _
  rw [howner] at h
  exact Option.some.inj h

/-- Under the application's name a module imports from the application. -/
theorem MeansApp.packageFor?_eq (h : r.MeansApp importer)
    (haddons : ∀ addon ∈ r.addons, addon.isApp = false) :
    r.packageFor? importer r.app.name = some r.app := by
  rw [packageFor?]
  split
  · rename_i own hown
    obtain ⟨howner, hname⟩ := Option.filter_eq_some_iff.1 hown
    have happ : own.isApp = true := h own howner (by simpa using hname)
    rcases List.mem_cons.1 (mem_packages_of_owner? howner) with rfl | haddon
    · rfl
    · rw [haddons own haddon] at happ
      cases happ
  · rw [if_pos rfl]

/-! ## What addons supply -/

/-- A name in the application's namespace stands for a path within the application: as it is, or
with an ending. -/
def StandsFor (r : Resolver) (sub name : String) : Prop :=
  ∃ ending ∈ "" :: r.settings.extensions, name = "./" ++ sub ++ ending

/-- An addon supplies a file for a path within the application: the first of its names for the path
that does not lead nowhere leads to the file. -/
def Supplies (r : Resolver) (sub : String) (addon : Package) (p : Path) : Prop :=
  ComesAfter (fun e => r.StandsFor sub e.1 → r.probe (addon.root.child e.2) = .ok none)
    (fun e => r.StandsFor sub e.1 ∧ r.probe (addon.root.child e.2) = .ok (some p))
    addon.appModules

/-- All names of an addon for a path within the application lead nowhere. -/
def SuppliesNothing (r : Resolver) (sub : String) (addon : Package) : Prop :=
  ∀ e ∈ addon.appModules, r.StandsFor sub e.1 → r.probe (addon.root.child e.2) = .ok none

/-- What a path within the application means when it is imported under the application's name. -/
inductive AppMeaning (r : Resolver) (sub : String) : Resolution → Prop where
  /-- The application has the file itself. -/
  | own {p : Path} (found : r.probe (r.app.root.child sub) = .ok (some p)) :
      AppMeaning r sub (.found p .package)
  /-- The last addon that supplies anything for it does. -/
  | supplied {before after : List Package} {addon : Package} {p : Path}
      (absent : r.probe (r.app.root.child sub) = .ok none)
      (located : r.addons = before ++ addon :: after)
      (later : ∀ other ∈ after, r.SuppliesNothing sub other)
      (supplies : r.Supplies sub addon p) : AppMeaning r sub (.found p .appModule)
  | nowhere (absent : r.probe (r.app.root.child sub) = .ok none)
      (nothing : ∀ addon ∈ r.addons, r.SuppliesNothing sub addon) :
      AppMeaning r sub (.failed .noPackageFile)

/-- The names that are looked for. -/
def wantedNames (r : Resolver) (sub : String) : List String :=
  ("" :: r.settings.extensions).map fun ending => "./" ++ sub ++ ending

theorem contains_wantedNames_iff {name : String} :
    (r.wantedNames sub).contains name = true ↔ r.StandsFor sub name := by
  rw [List.contains_iff_mem, wantedNames, List.mem_map]
  exact exists_congr fun ending => and_congr_right fun _ => eq_comm

theorem comesAfter_addonCandidates_iff {addon : Package} {p : Path} :
    ComesAfter (fun c => r.probe c = .ok none) (fun c => r.probe c = .ok (some p))
        (addonCandidates (r.wantedNames sub) addon) ↔ r.Supplies sub addon p := by
  rw [addonCandidates, comesAfter_map_iff, comesAfter_filter_iff, Supplies]
  simp only [contains_wantedNames_iff]
  rfl

theorem forall_addonCandidates_iff {addon : Package} :
    (∀ c ∈ addonCandidates (r.wantedNames sub) addon, r.probe c = .ok none) ↔
      r.SuppliesNothing sub addon := by
  rw [addonCandidates, List.forall_mem_map]
  refine forall_congr' fun e => ?_
  rw [List.mem_filter, contains_wantedNames_iff, and_imp]

/-! ## Resolving -/

/-- The candidates of a path within the application when it is imported under the application's
name. -/
def appNameCandidates (r : Resolver) (sub : String) : List (Path × Route) :=
  (r.app.root.child sub, .package) ::
    (r.addons.reverse.flatMap (addonCandidates (r.wantedNames sub))).map (·, .appModule)

/-- Without exports an application has one candidate for a path within it. -/
theorem candidates_app (hexports : r.app.exports = none) (hinside : sub ≠ "") :
    r.app.candidates sub = [r.app.root.child sub] := by
  have hopen : (r.app.exports.isSome && !r.app.isApp) = false := by
    rw [hexports]
    rfl
  rw [Package.candidates, hexports, Option.bind_none, ← hexports, hopen]
  exact if_neg hinside

namespace InAppNamespace

/-- The rename tables make nothing of the specifier, and the addons are asked for the path. -/
theorem mergedCandidates_eq (h : r.InAppNamespace specifier sub) (importer : Path) :
    r.mergedCandidates importer specifier =
      (r.addons.reverse.flatMap (addonCandidates (r.wantedNames sub))).map (·, .appModule) := by
  have hrenamed : r.renamedModule? specifier = none := by
    rw [renamedModule?, Option.map_eq_none_iff, List.findSome?_eq_none_iff]
    exact h.notRenamed
  have hmodule : r.renamedModuleCandidates importer specifier = [] := by
    rw [renamedModuleCandidates, hrenamed]
  have hpackage : r.renamedPackageCandidates specifier = [] := by
    simp only [renamedPackageCandidates, h.split, h.packageNotRenamed]
  have happ : r.appModuleCandidates specifier =
      r.addons.reverse.flatMap (addonCandidates (r.wantedNames sub)) := by
    simp only [appModuleCandidates, h.split]
    exact if_neg (not_or.2 ⟨not_not.2 rfl, h.inside⟩)
  rw [mergedCandidates, hmodule, hpackage, happ]
  rfl

/-- Resolving the specifier is searching along candidates that do not depend on the importer. -/
theorem resolve_eq (h : r.InAppNamespace specifier sub) (hexports : r.app.exports = none)
    (haddons : ∀ addon ∈ r.addons, addon.isApp = false) (himporter : r.MeansApp importer) :
    r.resolve importer specifier =
      (r.search (r.appNameCandidates sub)).map (Resolution.ofSearch .noPackageFile) := by
  have hempty : specifier ≠ "" := by
    rintro rfl
    exact h.inside (congrArg Prod.snd h.split).symm
  have hbare : r.bareCandidates importer specifier = [r.app.root.child sub] := by
    simp only [bareCandidates, h.split, himporter.packageFor?_eq haddons]
    exact candidates_app hexports h.inside
  have hcandidates : r.candidates importer specifier = r.appNameCandidates sub := by
    rw [candidates, if_neg (by simp [h.notRelative]), if_neg (by simp [h.notAbsolute]), hbare,
      h.mergedCandidates_eq]
    rfl
  have hdeadEnd : r.deadEnd importer specifier = .noPackageFile := by
    rw [deadEnd, if_neg (by simp [h.notRelative]), if_neg (by simp [h.notAbsolute])]
    simp only [bareDeadEnd, h.split]
    cases r.owner? importer with
    | none => rfl
    | some own => exact if_neg fun hlost => hlost.2.1 rfl
  rw [resolve_eq_search hempty h.notSupplied, hcandidates, hdeadEnd]

end InAppNamespace

/-- Of candidates with one route, a search finds the first that does not lead nowhere. -/
theorem search_map_eq_some_iff {ps : List Path} {route route' : Route} {p : Path} :
    r.search (ps.map (·, route)) = .ok (some (p, route')) ↔
      route = route' ∧
        ComesAfter (fun c => r.probe c = .ok none) (fun c => r.probe c = .ok (some p)) ps := by
  rw [search_eq_some_iff, comesAfter_map_iff]
  constructor
  · rintro ⟨before, c, after, hsplit, hbefore, hc, hroute⟩
    exact ⟨hroute, before, c, after, hsplit, hbefore, hc⟩
  · rintro ⟨hroute, before, c, after, hsplit, hbefore, hc⟩
    exact ⟨before, c, after, hsplit, hbefore, hc, hroute⟩

/-- The addons are asked from the last to the first. -/
theorem comesAfter_addons_iff {p : Path} :
    ComesAfter (fun c => r.probe c = .ok none) (fun c => r.probe c = .ok (some p))
        (r.addons.reverse.flatMap (addonCandidates (r.wantedNames sub))) ↔
      ∃ before addon after, r.addons = before ++ addon :: after ∧
        (∀ other ∈ after, r.SuppliesNothing sub other) ∧ r.Supplies sub addon p := by
  rw [comesAfter_flatMap_iff, comesAfter_reverse_iff]
  simp only [forall_addonCandidates_iff, comesAfter_addonCandidates_iff]

/-- What the search comes to is what the path means. -/
theorem search_appNameCandidates_iff {out : Resolution} :
    (r.search (r.appNameCandidates sub)).map (Resolution.ofSearch .noPackageFile) = .ok out ↔
      r.AppMeaning sub out := by
  rw [map_eq_ok_iff]
  constructor
  · rintro ⟨found, hsearch, rfl⟩
    cases found with
    | none =>
      obtain ⟨habsent, hnothing⟩ := List.forall_mem_cons.1 (search_eq_none_iff.1 hsearch)
      refine .nowhere habsent fun addon haddon => forall_addonCandidates_iff.1 fun c hc => ?_
      refine hnothing (c, .appModule) (List.mem_map.2 ⟨c, ?_, rfl⟩)
      exact List.mem_flatMap.2 ⟨addon, List.mem_reverse.2 haddon, hc⟩
    | some c =>
      obtain ⟨p, route⟩ := c
      rcases comesAfter_cons_iff.1 (search_eq_some_iff.1 hsearch) with ⟨hfound, rfl⟩ |
        ⟨habsent, hlater⟩
      · exact .own hfound
      · obtain ⟨rfl, hfirst⟩ := search_map_eq_some_iff.1 (search_eq_some_iff.2 hlater)
        obtain ⟨before, addon, after, hlocated, hothers, hsupplies⟩ :=
          comesAfter_addons_iff.1 hfirst
        exact .supplied habsent hlocated hothers hsupplies
  · intro h
    cases h with
    | @own p found =>
      exact ⟨some (p, .package),
        search_eq_some_iff.2 (comesAfter_cons_iff.2 (.inl ⟨found, rfl⟩)), rfl⟩
    | @supplied before after addon p absent located later supplies =>
      have hlater : r.search ((r.addons.reverse.flatMap
          (addonCandidates (r.wantedNames sub))).map (·, .appModule)) =
            .ok (some (p, .appModule)) :=
        search_map_eq_some_iff.2
          ⟨rfl, comesAfter_addons_iff.2 ⟨before, addon, after, located, later, supplies⟩⟩
      exact ⟨some (p, .appModule), search_eq_some_iff.2 (comesAfter_cons_iff.2
        (.inr ⟨absent, search_eq_some_iff.1 hlater⟩)), rfl⟩
    | nowhere absent nothing =>
      refine ⟨none, search_eq_none_iff.2 (List.forall_mem_cons.2 ⟨absent, fun c hc => ?_⟩), rfl⟩
      obtain ⟨p, hp, rfl⟩ := List.mem_map.1 hc
      obtain ⟨addon, haddon, hp⟩ := List.mem_flatMap.1 hp
      exact forall_addonCandidates_iff.2 (nothing addon (List.mem_reverse.1 haddon)) p hp

/-- A module of the application that is imported under the application's name means the same in
every module that does not belong to another package of that name: the application's own file, or
else what the last addon supplies that supplies anything for it, or else nothing.  Where the file
is, by which way it is found and to which package it belongs does not depend on the importer, nor
does the reason why there is none, nor whether looking for it comes to a fault. -/
theorem app_name_means_same {t : FileTree} {root : Path} {packages : List Package}
    {settings : Settings} (hlocated : locatePackages t root = .ok packages)
    (hresolver : ofPackages t packages settings = .ok r) (hexports : r.app.exports = none)
    (hname : r.InAppNamespace specifier sub) :
    (∀ importer, r.MeansApp importer → ∀ out,
      r.resolve importer specifier = .ok out ↔ r.AppMeaning sub out) ∧
    ∀ importer importer', r.MeansApp importer → r.MeansApp importer' →
      r.resolve importer specifier = r.resolve importer' specifier := by
  have haddons : ∀ addon ∈ r.addons, addon.isApp = false := by
    obtain ⟨-, hpackages, -, -⟩ := ofPackages_eq_ok_iff.1 hresolver
    obtain ⟨app, found, -, hfound, rfl⟩ := locatePackages_eq_ok_iff.1 hlocated
    obtain ⟨-, rfl⟩ := List.cons.inj hpackages
    obtain ⟨met, hvisits⟩ := locateAddons_eq_ok_iff.1 hfound
    exact hvisits.isApp_eq_false
  refine ⟨fun importer himporter out => ?_, fun importer importer' himporter himporter' => ?_⟩
  · rw [hname.resolve_eq hexports haddons himporter, search_appNameCandidates_iff]
  · rw [hname.resolve_eq hexports haddons himporter, hname.resolve_eq hexports haddons himporter']

/-- An application with two addons that supply the same module of it. -/
def suppliedOutput : FileTree where
  entries := [(["app"], .folder),
    (["app", "package.json"], .file ("\x7b\"name\":\"app\",\"ember-addon\":" ++
      "\x7b\"type\":\"app\"\x7d,\"dependencies\":[\"a\",\"b\"]\x7d").toUTF8.toList),
    (["app", "node_modules"], .folder), (["app", "node_modules", "a"], .folder),
    (["app", "node_modules", "a", "package.json"], .file ("\x7b\"ember-addon\":" ++
      "\x7b\"app-js\":\x7b\"./x.js\":\"./m.js\"\x7d\x7d\x7d").toUTF8.toList),
    (["app", "node_modules", "a", "m.js"], .file []), (["app", "node_modules", "b"], .folder),
    (["app", "node_modules", "b", "package.json"], .file ("\x7b\"ember-addon\":" ++
      "\x7b\"app-js\":\x7b\"./x\":\"./m.js\"\x7d\x7d\x7d").toUTF8.toList),
    (["app", "node_modules", "b", "m.js"], .file [])]

/-- The addon that is located last supplies the module, in the application as in the other
addon. -/
theorem app_name_means_same_supplied :
    ∃ packages r, locatePackages suppliedOutput ⟨.root, ["app"]⟩ = .ok packages ∧
      ofPackages suppliedOutput packages (.initial 4) = .ok r ∧ r.app.exports = none ∧
      r.InAppNamespace "app/x" "x" ∧ r.MeansApp ⟨.root, ["app", "app.js"]⟩ ∧
      r.MeansApp ⟨.root, ["app", "node_modules", "a", "m.js"]⟩ ∧
      r.AppMeaning "x" (.found ⟨.root, ["app", "node_modules", "b", "m.js"]⟩ .appModule) ∧
      r.resolve ⟨.root, ["app", "app.js"]⟩ "app/x" =
        r.resolve ⟨.root, ["app", "node_modules", "a", "m.js"]⟩ "app/x" := by
  have hrun : ∃ packages, locatePackages suppliedOutput ⟨.root, ["app"]⟩ = .ok packages ∧
      ∃ r, ofPackages suppliedOutput packages (.initial 4) = .ok r ∧
        r.app.name = "app" ∧ r.app.exports = none ∧ r.app.renamedModules = [] ∧
        r.app.renamedPackages = [] ∧
        (r.owner? ⟨.root, ["app", "app.js"]⟩).map Package.isApp = some true ∧
        (r.owner? ⟨.root, ["app", "node_modules", "a", "m.js"]⟩).map Package.name = some "a" ∧
        r.resolve ⟨.root, ["app", "app.js"]⟩ "app/x" =
          .ok (.found ⟨.root, ["app", "node_modules", "b", "m.js"]⟩ .appModule) := by
    decide +kernel
  obtain ⟨packages, hlocated, r, hr, happ, hexports, hmodules, hrenamed, hown, haddon, hresolve⟩ :=
    hrun
  obtain ⟨-, -, hsettings, -⟩ := ofPackages_eq_ok_iff.1 hr
  have hname : r.InAppNamespace "app/x" "x" := by
    refine .of_nothing_renamed ?_ (by decide) (by decide) ?_ (by decide) hmodules hrenamed
    · rw [hsettings]
      decide
    · rw [happ]
      decide +kernel
  have hself : r.MeansApp ⟨.root, ["app", "app.js"]⟩ := .of_isApp hown
  have hother : r.MeansApp ⟨.root, ["app", "node_modules", "a", "m.js"]⟩ := by
    intro own howner hsame
    rw [howner] at haddon
    rw [happ, Option.some.inj haddon] at hsame
    exact absurd hsame (by decide)
  obtain ⟨hmeaning, hsame⟩ := app_name_means_same hlocated hr hexports hname
  exact ⟨packages, r, hlocated, hr, hexports, hname, hself, hother,
    (hmeaning _ hself _).1 hresolve, hsame _ _ hself hother⟩

/-- An application that has a table of its own, as an addon has one. -/
def ownTableOutput : FileTree where
  entries := [(["app"], .folder),
    (["app", "package.json"], .file ("\x7b\"name\":\"app\",\"ember-addon\":\x7b" ++
      "\"type\":\"app\",\"app-js\":\x7b\"./x.js\":\"./m.js\"\x7d\x7d\x7d").toUTF8.toList),
    (["app", "m.js"], .file [])]

/-- Though the application is the last of the packages, and its table would supply a file for the
name, the table is not looked into. -/
theorem own_table_unasked :
    ∃ packages r, locatePackages ownTableOutput ⟨.root, ["app"]⟩ = .ok packages ∧
      ofPackages ownTableOutput packages (.initial 4) = .ok r ∧ r.app.exports = none ∧
      r.InAppNamespace "app/x" "x" ∧ r.MeansApp ⟨.root, ["app", "app.js"]⟩ ∧
      r.probe (r.app.root.child "x") = .ok none ∧ r.packages = [r.app] ∧
      r.Supplies "x" r.app ⟨.root, ["app", "m.js"]⟩ ∧
      r.resolve ⟨.root, ["app", "app.js"]⟩ "app/x" = .ok (.failed .noPackageFile) := by
  have hrun : ∃ packages, locatePackages ownTableOutput ⟨.root, ["app"]⟩ = .ok packages ∧
      ∃ r, ofPackages ownTableOutput packages (.initial 4) = .ok r ∧
        r.app.name = "app" ∧ r.app.exports = none ∧ r.app.renamedModules = [] ∧
        r.app.renamedPackages = [] ∧ r.addons.length = 0 ∧
        (r.owner? ⟨.root, ["app", "app.js"]⟩).map Package.isApp = some true ∧
        r.app.appModules = [("./x.js", "./m.js")] ∧ r.probe (r.app.root.child "x") = .ok none ∧
        r.probe (r.app.root.child "./m.js") = .ok (some ⟨.root, ["app", "m.js"]⟩) ∧
        r.resolve ⟨.root, ["app", "app.js"]⟩ "app/x" = .ok (.failed .noPackageFile) := by
    decide +kernel
  obtain ⟨packages, hlocated, r, hr, happ, hexports, hmodules, hrenamed, hnone, hown, htable,
    habsent, hfile, hresolve⟩ := hrun
  have haddons : r.addons = [] := List.length_eq_zero_iff.1 hnone
  obtain ⟨-, -, hsettings, -⟩ := ofPackages_eq_ok_iff.1 hr
  have hname : r.InAppNamespace "app/x" "x" := by
    refine .of_nothing_renamed ?_ (by decide) (by decide) ?_ (by decide) hmodules hrenamed
    · rw [hsettings]
      decide
    · rw [happ]
      decide +kernel
  have hself : r.MeansApp ⟨.root, ["app", "app.js"]⟩ := .of_isApp hown
  have hstands : r.StandsFor "x" "./x.js" := by
    refine ⟨".js", ?_, by decide⟩
    rw [hsettings]
    decide
  have hsupplies : r.Supplies "x" r.app ⟨.root, ["app", "m.js"]⟩ := by
    rw [Supplies, htable]
    exact comesAfter_cons_iff.2 (.inl ⟨hstands, hfile⟩)
  exact ⟨packages, r, hlocated, hr, hexports, hname, hself, habsent,
    congrArg (r.app :: ·) haddons, hsupplies, hresolve⟩

end Resolver

end BundleReach
