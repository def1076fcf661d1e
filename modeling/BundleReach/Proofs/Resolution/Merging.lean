import BundleReach.Proofs.Resolution.Faults

/-!
# What the tables add

An application may rename modules and packages, and addons may supply modules of its namespace.
Their tables come last: without them, what is found is found all the same, and what leads nowhere is
what the tables are asked for.  So they only add to what specifiers lead to, but for one thing: a
table may lead to a place that cannot be probed, and then there is a fault in place of a dead end.

* `Resolver.unmerged` — a resolver with these tables emptied.
* `bareCandidates_unmerged`, `deadEnd_unmerged`, `search_unmerged` — what the tables have no part
  in.
* `candidates_eq_append` — the candidates of a specifier are those without the tables, then those of
  the tables.
* `tables_only_add_unless_fault` — what becomes of a specifier when the tables are there.
-/

namespace BundleReach

open BundleReach.Path (RenameFault)

/-- A package with its tables emptied. -/
def Package.plain (pkg : Package) : Package :=
  { pkg with appModules := [], renamedPackages := [], renamedModules := [] }

/-- Whether a route goes through a table of the application or of an addon. -/
def Route.isMerged : Route → Bool
  | .renamedModule | .renamedPackage | .appModule => true
  | .relative | .absolute | .package => false

namespace Resolver

variable {r : Resolver} {importer : Path} {specifier : String}

/-- A resolver without the application's rename tables and without the addons' tables of modules for
the application's namespace. -/
def unmerged (r : Resolver) : Resolver :=
  { r with
    app := { r.app with renamedPackages := [], renamedModules := [] }
    addons := r.addons.map fun addon => { addon with appModules := [] } }

/-! ## Packages -/

theorem map_plain_packages_unmerged (r : Resolver) :
    r.unmerged.packages.map Package.plain = r.packages.map Package.plain := by
  simp only [packages, unmerged, List.map_cons, List.map_map]
  rfl

/-- The innermost of some packages that holds a path. -/
def ownerAmong (p : Path) (packages : List Package) : Option Package :=
  match packages.filter fun pkg => p.isWithin pkg.root with
  | [] => none
  | first :: rest => some (rest.foldl deeper first)

theorem plain_foldl_deeper (first : Package) (rest : List Package) :
    (rest.foldl deeper first).plain = (rest.map Package.plain).foldl deeper first.plain := by
  induction rest generalizing first with
  | nil => rfl
  | cons next rest ih =>
    have hdeeper : (deeper first next).plain = deeper first.plain next.plain :=
      apply_ite Package.plain _ next first
    rw [List.foldl_cons, ih, List.map_cons, List.foldl_cons, hdeeper]

theorem map_plain_ownerAmong (p : Path) (packages : List Package) :
    (ownerAmong p packages).map Package.plain = ownerAmong p (packages.map Package.plain) := by
  have hfilter : (packages.map Package.plain).filter (fun pkg => p.isWithin pkg.root) =
      (packages.filter fun pkg => p.isWithin pkg.root).map Package.plain :=
    List.filter_map
  rw [ownerAmong, ownerAmong, hfilter]
  cases packages.filter fun pkg => p.isWithin pkg.root with
  | nil => rfl
  | cons first rest => exact congrArg some (plain_foldl_deeper first rest)

theorem map_plain_named? (r : Resolver) (folder : Path) (name : String) :
    (r.named? folder name).map Package.plain =
      (findPackageRoot r.tree (r.tree.resolve r.app.root) folder name).bind fun root =>
        (r.packages.map Package.plain).find? (·.root == root) := by
  rw [named?]
  cases findPackageRoot r.tree (r.tree.resolve r.app.root) folder name with
  | none => rfl
  | some root =>
    rw [Option.bind_some, List.find?_map]
    rfl

theorem map_plain_packageFor? (r : Resolver) (importer : Path) (name : String) :
    (r.packageFor? importer name).map Package.plain =
      match ((r.owner? importer).map Package.plain).filter (·.name == name) with
      | some own => some own
      | none =>
        if name = r.app.name then some r.app.plain
        else (r.named? importer.parent name).map Package.plain := by
  have hfilter : ((r.owner? importer).map Package.plain).filter (·.name == name) =
      ((r.owner? importer).filter (·.name == name)).map Package.plain := by
    cases r.owner? importer with
    | none => rfl
    | some own => exact (apply_ite (Option.map Package.plain) _ (some own) none).symm
  rw [packageFor?, hfilter]
  cases (r.owner? importer).filter (·.name == name) with
  | some own => rfl
  | none => exact apply_ite (Option.map Package.plain) _ (some r.app) _

/-- A path has the same owner, whatever the tables. -/
theorem map_plain_owner?_unmerged (r : Resolver) (p : Path) :
    (r.unmerged.owner? p).map Package.plain = (r.owner? p).map Package.plain := by
  have howner : ∀ r : Resolver, r.owner? p = ownerAmong p r.packages := fun _ => rfl
  rw [howner, howner, map_plain_ownerAmong, map_plain_ownerAmong, map_plain_packages_unmerged]

/-- A name means the same package in a folder, whatever the tables. -/
theorem map_plain_named?_unmerged (r : Resolver) (folder : Path) (name : String) :
    (r.unmerged.named? folder name).map Package.plain =
      (r.named? folder name).map Package.plain := by
  rw [map_plain_named?, map_plain_named?, map_plain_packages_unmerged]
  rfl

/-- A name means the same package in a module, whatever the tables. -/
theorem map_plain_packageFor?_unmerged (r : Resolver) (importer : Path) (name : String) :
    (r.unmerged.packageFor? importer name).map Package.plain =
      (r.packageFor? importer name).map Package.plain := by
  rw [map_plain_packageFor?, map_plain_packageFor?, map_plain_owner?_unmerged,
    map_plain_named?_unmerged]
  rfl

/-! ## Candidates and dead ends -/

/-- The candidates within a package do not go by its tables. -/
theorem bareCandidates_eq (r : Resolver) (importer : Path) (specifier : String) :
    r.bareCandidates importer specifier =
      match (r.packageFor? importer (splitPackageName specifier).1).map Package.plain with
      | none => []
      | some pkg => pkg.candidates (splitPackageName specifier).2 := by
  simp only [bareCandidates]
  cases r.packageFor? importer (splitPackageName specifier).1 with
  | none => rfl
  | some pkg => rfl

theorem bareCandidates_unmerged (r : Resolver) (importer : Path) (specifier : String) :
    r.unmerged.bareCandidates importer specifier = r.bareCandidates importer specifier := by
  rw [bareCandidates_eq, bareCandidates_eq, map_plain_packageFor?_unmerged]

/-- Without the tables there is nothing that they make of a specifier. -/
theorem mergedCandidates_unmerged (r : Resolver) (importer : Path) (specifier : String) :
    r.unmerged.mergedCandidates importer specifier = [] := by
  have hmodule : r.unmerged.renamedModuleCandidates importer specifier = [] := by
    have hnone : r.unmerged.renamedModule? specifier = none := by
      rw [renamedModule?, Option.map_eq_none_iff, List.findSome?_eq_none_iff]
      intro ending _
      rfl
    rw [renamedModuleCandidates, hnone]
  have hpackage : r.unmerged.renamedPackageCandidates specifier = [] := rfl
  have happ : ∀ specifier, r.unmerged.appModuleCandidates specifier = [] := by
    intro specifier
    simp only [appModuleCandidates]
    split
    · rfl
    · rw [List.flatMap_eq_nil_iff]
      intro addon haddon
      obtain ⟨addon, -, rfl⟩ := List.mem_map.1 (List.mem_reverse.1 haddon)
      rfl
  rw [mergedCandidates, hmodule, hpackage, happ]
  rfl

/-- What the tables make of a specifier that begins with a package's name. -/
def tableCandidates (r : Resolver) (importer : Path) (specifier : String) : List (Path × Route) :=
  if specifier = "" ∨ isRelative specifier = true ∨ Text.beginsWith "/" specifier = true then []
  else r.mergedCandidates importer specifier

/-- The candidates of a specifier are those that it has without the tables, and then those of the
tables. -/
theorem candidates_eq_append (hempty : specifier ≠ "") :
    r.candidates importer specifier =
      r.unmerged.candidates importer specifier ++ r.tableCandidates importer specifier := by
  rw [candidates, candidates, tableCandidates]
  by_cases hrelative : isRelative specifier = true
  · rw [if_pos hrelative, if_pos hrelative, if_pos (.inr (.inl hrelative)), List.append_nil]
  by_cases habsolute : Text.beginsWith "/" specifier = true
  · rw [if_neg hrelative, if_neg hrelative, if_pos habsolute, if_pos habsolute,
      if_pos (.inr (.inr habsolute)), List.append_nil]
  · have hbare : ¬ (specifier = "" ∨ isRelative specifier = true ∨
        Text.beginsWith "/" specifier = true) := by
      rintro (h | h | h)
      · exact hempty h
      · exact hrelative h
      · exact habsolute h
    rw [if_neg hrelative, if_neg hrelative, if_neg habsolute, if_neg habsolute, if_neg hbare,
      bareCandidates_unmerged, mergedCandidates_unmerged, List.append_nil]

theorem isMerged_of_mem_tableCandidates {c : Path × Route}
    (hc : c ∈ r.tableCandidates importer specifier) : c.2.isMerged = true := by
  rw [tableCandidates] at hc
  split at hc
  · cases hc
  · simp only [mergedCandidates, List.mem_append, List.mem_map] at hc
    rcases hc with ⟨p, -, rfl⟩ | ⟨p, -, rfl⟩ | ⟨p, -, rfl⟩ <;> rfl

/-- A specifier leads nowhere for the same reason, whatever the tables. -/
theorem deadEnd_unmerged (r : Resolver) (importer : Path) (specifier : String) :
    r.unmerged.deadEnd importer specifier = r.deadEnd importer specifier := by
  have hnamed : ∀ name, (r.unmerged.named? importer.parent name).isNone =
      (r.named? importer.parent name).isNone := by
    intro name
    rw [← Option.isNone_map, map_plain_named?_unmerged, Option.isNone_map]
  have howner := map_plain_owner?_unmerged r importer
  have hbare : r.unmerged.bareDeadEnd importer specifier = r.bareDeadEnd importer specifier := by
    simp only [bareDeadEnd, hnamed]
    cases hown : r.owner? importer with
    | none =>
      rw [hown, Option.map_none, Option.map_eq_none_iff] at howner
      rw [howner]
    | some own =>
      rw [hown, Option.map_some] at howner
      obtain ⟨own', hown', hplain⟩ := Option.map_eq_some_iff.1 howner
      have hname : own'.plain.name = own.plain.name := congrArg Package.name hplain
      change own'.name = own.name at hname
      rw [hown']
      simp only [hname]
      rfl
  rw [deadEnd, deadEnd, hbare]

/-! ## Searching -/

theorem probeEndings_unmerged (r : Resolver) (p : Path) (endings : List String) :
    r.unmerged.probeEndings p endings = r.probeEndings p endings := by
  induction endings with
  | nil => rfl
  | cons ending rest ih =>
    rw [probeEndings, probeEndings, ih]
    rfl

theorem probe_unmerged (r : Resolver) : r.unmerged.probe = r.probe := by
  funext candidate
  simp only [probe, probeEndings_unmerged]
  rfl

theorem search_unmerged (r : Resolver) (cs : List (Path × Route)) :
    r.unmerged.search cs = r.search cs := by
  induction cs with
  | nil => rfl
  | cons c rest ih => rw [search, search, ih, probe_unmerged]

/-! ## Resolving -/

/-- What becomes of what a specifier leads to without the tables: a dead end is looked for along
the candidates of the tables, and all else stays. -/
def throughTables (r : Resolver) (importer : Path) (specifier : String) :
    Resolution → Except RenameFault Resolution
  | .failed deadEnd =>
    (r.search (r.tableCandidates importer specifier)).map (Resolution.ofSearch deadEnd)
  | .supplied => .ok .supplied
  | .found p route => .ok (.found p route)

/-- Resolving with the tables is resolving without them and then going through them. -/
theorem resolve_eq_unmerged_bind (r : Resolver) (importer : Path) (specifier : String) :
    r.resolve importer specifier =
      r.unmerged.resolve importer specifier >>= r.throughTables importer specifier := by
  by_cases hempty : specifier = ""
  · subst hempty
    rfl
  cases hruntime : isRuntimeModule r.settings.externals specifier with
  | true =>
    have hsupplied : ∀ r' : Resolver, r'.settings = r.settings →
        r'.resolve importer specifier = .ok .supplied := by
      intro r' hsettings
      rw [resolve, if_neg hempty, hsettings, if_pos hruntime]
      rfl
    rw [hsupplied r rfl, hsupplied r.unmerged rfl]
    rfl
  | false =>
    have hunmerged : r.unmerged.resolve importer specifier =
        (r.search (r.unmerged.candidates importer specifier)).map
          (Resolution.ofSearch (r.deadEnd importer specifier)) := by
      rw [← search_unmerged, ← deadEnd_unmerged]
      exact resolve_eq_search hempty hruntime
    rw [hunmerged, resolve_eq_search hempty hruntime, candidates_eq_append hempty, search_append]
    cases r.search (r.unmerged.candidates importer specifier) with
    | error fault => rfl
    | ok found =>
      cases found with
      | some c => rfl
      | none => rfl

/-- What leads nowhere without the tables is found where a candidate of the tables leads to a file
and those before it lead nowhere. -/
theorem found_iff_of_unmerged_failed {deadEnd : DeadEnd} {p : Path} {route : Route}
    (h : r.unmerged.resolve importer specifier = .ok (.failed deadEnd)) :
    r.resolve importer specifier = .ok (.found p route) ↔
      ComesAfter (fun c => r.probe c.1 = .ok none)
        (fun c => r.probe c.1 = .ok (some p) ∧ c.2 = route)
        (r.tableCandidates importer specifier) := by
  rw [resolve_eq_unmerged_bind, h, ← search_eq_some_iff]
  change Except.map _ (r.search (r.tableCandidates importer specifier)) = _ ↔ _
  cases r.search (r.tableCandidates importer specifier) with
  | error fault => exact ⟨fun h => (by cases h), fun h => (by cases h)⟩
  | ok found =>
    cases found with
    | none => exact ⟨fun h => (by cases h), fun h => (by cases h)⟩
    | some c =>
      constructor
      · intro h
        cases h
        rfl
      · intro h
        cases h
        rfl

theorem fault_iff_of_unmerged_failed {deadEnd : DeadEnd} {fault : RenameFault}
    (h : r.unmerged.resolve importer specifier = .ok (.failed deadEnd)) :
    r.resolve importer specifier = .error fault ↔
      ComesAfter (fun c => r.probe c.1 = .ok none) (fun c => r.FaultsAt c.1 fault)
        (r.tableCandidates importer specifier) := by
  rw [resolve_eq_unmerged_bind, h]
  simp only [← probe_eq_error_iff]
  rw [← search_eq_error_iff]
  exact map_eq_error_iff

theorem mem_candidates_of_mem_tableCandidates {c : Path × Route}
    (hc : c ∈ r.tableCandidates importer specifier) : c ∈ r.candidates importer specifier := by
  have hempty : specifier ≠ "" := by
    rintro rfl
    rw [tableCandidates, if_pos (.inl rfl)] at hc
    cases hc
  rw [candidates_eq_append hempty]
  exact List.mem_append_right _ hc

/-- The application's rename tables and its addons' tables only add to what specifiers lead to,
unless they lead to a fault.  A path has the same owner without them.  What is found or supplied
without them stays what it is, and so does a fault.  What leads nowhere without them leads nowhere
for the same reason, or is found by one of the tables, or comes to a fault: the last just if a
candidate of the tables cannot be probed and those before it lead nowhere.  Where no ending holds a
slash, such a candidate is one that goes up to the root of all paths. -/
theorem tables_only_add_unless_fault (r : Resolver) (importer : Path) (specifier : String) :
    (∀ p, (r.unmerged.owner? p).map Package.plain = (r.owner? p).map Package.plain) ∧
    ((∀ deadEnd, r.unmerged.resolve importer specifier ≠ .ok (.failed deadEnd)) →
      r.resolve importer specifier = r.unmerged.resolve importer specifier) ∧
    ∀ deadEnd, r.unmerged.resolve importer specifier = .ok (.failed deadEnd) →
      (r.resolve importer specifier = .ok (.failed deadEnd) ∨
        (∃ p route, route.isMerged = true ∧
          r.resolve importer specifier = .ok (.found p route)) ∨
        ∃ fault, r.resolve importer specifier = .error fault) ∧
      (∀ p route, r.resolve importer specifier = .ok (.found p route) ↔
        ComesAfter (fun c => r.probe c.1 = .ok none)
          (fun c => r.probe c.1 = .ok (some p) ∧ c.2 = route)
          (r.tableCandidates importer specifier)) ∧
      (∀ fault, r.resolve importer specifier = .error fault ↔
        ComesAfter (fun c => r.probe c.1 = .ok none) (fun c => r.FaultsAt c.1 fault)
          (r.tableCandidates importer specifier)) ∧
      ((∀ ending ∈ r.settings.extensions, '/' ∉ ending.toList) → importer.IsWritten →
        (∀ pkg ∈ r.packages, pkg.root.IsWritten) → ∀ fault,
          (r.resolve importer specifier = .error fault ↔ r.settings.extensions ≠ [] ∧
            ComesAfter (fun c => r.probe c.1 = .ok none)
              (fun c => c.1.normal.parts = [] ∧ fault = .nameless c.1.normal)
              (r.tableCandidates importer specifier))) := by
  refine ⟨map_plain_owner?_unmerged r, fun h => ?_, fun deadEnd h => ⟨?_,
    fun p route => found_iff_of_unmerged_failed h, fun fault => fault_iff_of_unmerged_failed h,
    fun hends himporter hroots fault => ?_⟩⟩
  · rw [resolve_eq_unmerged_bind]
    cases hout : r.unmerged.resolve importer specifier with
    | error fault => rfl
    | ok out =>
      cases out with
      | supplied => rfl
      | found p route => rfl
      | failed deadEnd => exact absurd hout (h deadEnd)
  · cases hout : r.resolve importer specifier with
    | error fault => exact .inr (.inr ⟨fault, rfl⟩)
    | ok out =>
      have hsearch := hout
      rw [resolve_eq_unmerged_bind, h] at hsearch
      obtain ⟨found, hfound, rfl⟩ := map_eq_ok_iff.1 hsearch
      cases found with
      | none => exact .inl rfl
      | some c =>
        obtain ⟨before, c', after, hsplit, -, -, hroute⟩ := search_eq_some_iff.1 hfound
        have hc' : c' ∈ r.tableCandidates importer specifier :=
          hsplit ▸ List.mem_append_cons_self
        exact .inr (.inl ⟨c.1, c.2, hroute ▸ isMerged_of_mem_tableCandidates hc', rfl⟩)
  · rw [fault_iff_of_unmerged_failed h, ← comesAfter_and_left]
    refine comesAfter_congr_right fun c hc => ?_
    exact faultsAt_iff_of_noSlash hends (isWritten_of_mem_candidates himporter hroots
      (mem_candidates_of_mem_tableCandidates hc))

/-- An addon that supplies a module of the application from the root of all paths. -/
def strayAddon : Package where
  name := "kit"
  root := ⟨.root, ["shop", "node_modules", "kit"]⟩
  kind := .addon
  appModules := [("./x.js", "/")]

def strayShop : Resolver := { shopResolver with addons := [strayAddon] }

/-- Without the addon's table there is no such module; with it there is a fault. -/
theorem tables_only_add_unless_fault_stray :
    strayShop.unmerged.resolve ⟨.root, ["shop", "app.js"]⟩ "shop/x" =
        .ok (.failed .noPackageFile) ∧
      (∀ ending ∈ strayShop.settings.extensions, '/' ∉ ending.toList) ∧
      Path.IsWritten ⟨.root, ["shop", "app.js"]⟩ ∧
      (∀ pkg ∈ strayShop.packages, pkg.root.IsWritten) ∧
      strayShop.resolve ⟨.root, ["shop", "app.js"]⟩ "shop/x" = .error (.nameless Path.top) := by
  have hlost : strayShop.unmerged.resolve ⟨.root, ["shop", "app.js"]⟩ "shop/x" =
      .ok (.failed .noPackageFile) := by
    decide +kernel
  have hends : ∀ ending ∈ strayShop.settings.extensions, '/' ∉ ending.toList := by decide
  have himporter : Path.IsWritten ⟨.root, ["shop", "app.js"]⟩ := by decide
  have hroots : ∀ pkg ∈ strayShop.packages, pkg.root.IsWritten := by
    intro pkg hpkg
    rcases List.mem_cons.1 hpkg with rfl | hpkg
    · decide
    · rw [List.mem_singleton.1 hpkg]
      decide
  obtain ⟨-, -, hfailed⟩ := tables_only_add_unless_fault strayShop ⟨.root, ["shop", "app.js"]⟩
    "shop/x"
  obtain ⟨-, -, -, hfault⟩ := hfailed _ hlost
  refine ⟨hlost, hends, himporter, hroots, (hfault hends himporter hroots _).2 ⟨by decide, ?_⟩⟩
  exact ⟨[], (Path.top, .appModule), [], by decide, by simp, by decide, by decide⟩

end Resolver

end BundleReach
