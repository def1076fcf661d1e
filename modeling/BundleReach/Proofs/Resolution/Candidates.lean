import BundleReach.Proofs.Outcome
import BundleReach.Resolution.Resolver

/-!
# The candidates of a specifier

Which paths a specifier may mean can be told before any of them is probed: its candidates.
Resolving the specifier is a search along them, each under the route that it stands for, and the
first that leads to a file is what is found.

* `candidates` — the paths that a specifier may mean, in order.
* `ComesAfter` — the first answer along a list; `comesAfter_flatMap_iff` along lists of lists,
  `comesAfter_reverse_iff` from the end of a list.
* `search_eq_some_iff`, `search_eq_error_iff` — a search finds what the first candidate leads to
  that does not lead nowhere, or comes to a fault where that one cannot be probed.
* `resolve_eq_search`, `resolve_cases` — resolving is searching, but for what needs no search.
-/

namespace BundleReach

open BundleReach.Path (RenameFault)

/-! ## What comes after what -/

section

variable {α β : Type} {P Q : α → Prop} {a : α} {as bs : List α}

/-- Some item is of one kind, and all items before it are of another. -/
def ComesAfter (P Q : α → Prop) (as : List α) : Prop :=
  ∃ before a after, as = before ++ a :: after ∧ (∀ b ∈ before, P b) ∧ Q a

theorem not_comesAfter_nil : ¬ ComesAfter P Q [] := by
  rintro ⟨before, a, after, hsplit, -⟩
  exact List.append_ne_nil_of_right_ne_nil before (List.cons_ne_nil a after) hsplit.symm

theorem comesAfter_cons_iff : ComesAfter P Q (a :: as) ↔ Q a ∨ (P a ∧ ComesAfter P Q as) := by
  constructor
  · rintro ⟨before, b, after, hsplit, hbefore, hb⟩
    cases before with
    | nil =>
      obtain ⟨rfl, -⟩ := List.cons.inj hsplit
      exact .inl hb
    | cons first before =>
      obtain ⟨rfl, rfl⟩ := List.cons.inj hsplit
      exact .inr ⟨hbefore a List.mem_cons_self, before, b, after, rfl,
        fun c hc => hbefore c (List.mem_cons_of_mem a hc), hb⟩
  · rintro (ha | ⟨ha, before, b, after, rfl, hbefore, hb⟩)
    · exact ⟨[], a, as, rfl, by simp, ha⟩
    · exact ⟨a :: before, b, after, rfl, List.forall_mem_cons.2 ⟨ha, hbefore⟩, hb⟩

theorem comesAfter_singleton_iff : ComesAfter P Q [a] ↔ Q a := by
  rw [comesAfter_cons_iff]
  exact ⟨fun h => h.elim id fun h => absurd h.2 not_comesAfter_nil, .inl⟩

theorem comesAfter_congr_right {Q' : α → Prop} (h : ∀ a ∈ as, (Q a ↔ Q' a)) :
    ComesAfter P Q as ↔ ComesAfter P Q' as := by
  refine exists_congr fun before => exists_congr fun a => exists_congr fun after =>
    and_congr_right fun hsplit => and_congr_right fun _ => h a ?_
  rw [hsplit]
  exact List.mem_append_cons_self

theorem comesAfter_and_left {c : Prop} :
    ComesAfter P (fun a => c ∧ Q a) as ↔ c ∧ ComesAfter P Q as := by
  constructor
  · rintro ⟨before, a, after, hsplit, hbefore, hc, ha⟩
    exact ⟨hc, before, a, after, hsplit, hbefore, ha⟩
  · rintro ⟨hc, before, a, after, hsplit, hbefore, ha⟩
    exact ⟨before, a, after, hsplit, hbefore, hc, ha⟩

theorem comesAfter_append_iff :
    ComesAfter P Q (as ++ bs) ↔
      ComesAfter P Q as ∨ (∀ a ∈ as, P a) ∧ ComesAfter P Q bs := by
  induction as with
  | nil => simp [not_comesAfter_nil]
  | cons a as ih =>
    rw [List.cons_append, comesAfter_cons_iff, ih, comesAfter_cons_iff, List.forall_mem_cons,
      and_or_left, or_assoc, and_assoc]

theorem comesAfter_map_iff {f : β → α} {bs : List β} :
    ComesAfter P Q (bs.map f) ↔ ComesAfter (P ∘ f) (Q ∘ f) bs := by
  induction bs with
  | nil => simp [not_comesAfter_nil]
  | cons b bs ih =>
    rw [List.map_cons, comesAfter_cons_iff, ih, comesAfter_cons_iff]
    rfl

/-- Where some items are left out, the others give the first answer. -/
theorem comesAfter_filter_iff {keep : α → Bool} :
    ComesAfter P Q (as.filter keep) ↔
      ComesAfter (fun a => keep a = true → P a) (fun a => keep a = true ∧ Q a) as := by
  induction as with
  | nil => simp [not_comesAfter_nil]
  | cons a as ih =>
    rw [comesAfter_cons_iff, ← ih]
    by_cases ha : keep a = true
    · rw [List.filter_cons_of_pos ha, comesAfter_cons_iff]
      simp [ha]
    · rw [List.filter_cons_of_neg ha]
      simp [ha]

/-- The first answer along lists of lists comes from the first list that does not lead nowhere. -/
theorem comesAfter_flatMap_iff {f : β → List α} {bs : List β} :
    ComesAfter P Q (bs.flatMap f) ↔
      ComesAfter (fun b => ∀ a ∈ f b, P a) (fun b => ComesAfter P Q (f b)) bs := by
  induction bs with
  | nil => simp [not_comesAfter_nil]
  | cons b bs ih => rw [List.flatMap_cons, comesAfter_append_iff, ih, comesAfter_cons_iff]

/-- From the end of a list, the first answer comes from the last item that does not lead
nowhere. -/
theorem comesAfter_reverse_iff :
    ComesAfter P Q as.reverse ↔
      ∃ before a after, as = before ++ a :: after ∧ (∀ b ∈ after, P b) ∧ Q a := by
  constructor
  · rintro ⟨before, a, after, hsplit, hbefore, ha⟩
    refine ⟨after.reverse, a, before.reverse, ?_, fun b hb => ?_, ha⟩
    · rw [← List.reverse_inj, hsplit]
      simp
    · exact hbefore b (List.mem_reverse.1 hb)
  · rintro ⟨before, a, after, rfl, hafter, ha⟩
    refine ⟨after.reverse, a, before.reverse, by simp, fun b hb => ?_, ha⟩
    exact hafter b (List.mem_reverse.1 hb)

end

namespace Package

/-- The paths that the whole of a package may mean: its entries, then its index. -/
def entryCandidates (pkg : Package) (entries : List (Option String)) : List Path :=
  (entries.filterMap fun entry => entry.filter (· ≠ "")).map pkg.root.child ++
    [pkg.root.child "index"]

/-- The paths that a path within a package may mean. -/
def candidates (pkg : Package) (subpath : String) : List Path :=
  match pkg.exports.bind
      (Exports.matchExports · (if subpath = "" then "." else "./" ++ subpath)) with
  | some target => [pkg.root.child target]
  | none =>
    if pkg.exports.isSome && !pkg.isApp then []
    else if subpath = "" then pkg.entryCandidates [pkg.module, pkg.main]
    else [pkg.root.child subpath]

theorem candidates_of_exports_none {pkg : Package} {subpath : String} (h : pkg.exports = none) :
    pkg.candidates subpath =
      if subpath = "" then pkg.entryCandidates [pkg.module, pkg.main]
      else [pkg.root.child subpath] := by
  rw [candidates, h]
  rfl

end Package

/-- What a search comes to is what a specifier leads to. -/
def Resolution.ofSearch (deadEnd : DeadEnd) : Option (Path × Route) → Resolution
  | some (p, route) => .found p route
  | none => .failed deadEnd

namespace Resolver

variable {r : Resolver}

/-! ## Candidates -/

/-- The paths that a specifier may mean that begins with a package's name. -/
def bareCandidates (r : Resolver) (importer : Path) (specifier : String) : List Path :=
  let (name, subpath) := splitPackageName specifier
  match r.packageFor? importer name with
  | none => []
  | some pkg => pkg.candidates subpath

/-- The files of an addon for some names in the application's namespace. -/
def addonCandidates (wanted : List String) (addon : Package) : List Path :=
  (addon.appModules.filter fun e => wanted.contains e.1).map fun e => addon.root.child e.2

/-- The files of addons that may supply a module of the application. -/
def appModuleCandidates (r : Resolver) (specifier : String) : List Path :=
  let (name, subpath) := splitPackageName specifier
  if name ≠ r.app.name ∨ subpath = "" then []
  else
    r.addons.reverse.flatMap
      (addonCandidates (("" :: r.settings.extensions).map fun ending => "./" ++ subpath ++ ending))

/-- The paths that a renamed module may mean. -/
def renamedModuleCandidates (r : Resolver) (importer : Path) (specifier : String) : List Path :=
  match r.renamedModule? specifier with
  | none => []
  | some renamed =>
    if renamed = specifier then []
    else r.bareCandidates importer renamed ++ r.appModuleCandidates renamed

/-- The paths that a module in a renamed package may mean. -/
def renamedPackageCandidates (r : Resolver) (specifier : String) : List Path :=
  let (name, subpath) := splitPackageName specifier
  match Table.find? name r.app.renamedPackages with
  | none => []
  | some renamed =>
    if renamed = "" ∨ renamed = name then []
    else
      r.bareCandidates (r.app.root.child manifestName)
        (if subpath = "" then renamed else renamed ++ "/" ++ subpath)

/-- What the rename tables and the addons' tables make of a specifier. -/
def mergedCandidates (r : Resolver) (importer : Path) (specifier : String) :
    List (Path × Route) :=
  (r.renamedModuleCandidates importer specifier).map (·, .renamedModule) ++
    ((r.renamedPackageCandidates specifier).map (·, .renamedPackage) ++
      (r.appModuleCandidates specifier).map (·, .appModule))

/-- The paths that a specifier may mean, with the routes that lead to them. -/
def candidates (r : Resolver) (importer : Path) (specifier : String) : List (Path × Route) :=
  if isRelative specifier then [(importer.parent.child specifier, .relative)]
  else if Text.beginsWith "/" specifier then [(Path.ofString specifier, .absolute)]
  else
    (r.bareCandidates importer specifier).map (·, .package) ++
      r.mergedCandidates importer specifier

/-- Why a specifier leads nowhere if none of its candidates leads to a file. -/
def deadEnd (r : Resolver) (importer : Path) (specifier : String) : DeadEnd :=
  if isRelative specifier then .noRelativeFile
  else if Text.beginsWith "/" specifier then .noAbsoluteFile
  else r.bareDeadEnd importer specifier

/-! ## Searching -/

/-- The file of the first path that leads to one. -/
def firstFile (r : Resolver) : List Path → Except RenameFault (Option Path)
  | [] => .ok none
  | p :: rest => do
    match ← r.probe p with
    | some found => return some found
    | none => firstFile r rest

/-- The file of the first candidate that leads to one, with the candidate's route. -/
def search (r : Resolver) : List (Path × Route) → Except RenameFault (Option (Path × Route))
  | [] => .ok none
  | (p, route) :: rest => do
    match ← r.probe p with
    | some found => return some (found, route)
    | none => search r rest

theorem firstFile_singleton (p : Path) : r.firstFile [p] = r.probe p := by
  rw [firstFile]
  cases r.probe p with
  | error fault => rfl
  | ok found => cases found <;> rfl

/-- To go on where nothing is found is to search on. -/
theorem firstFile_append {ps qs : List Path} {next : Option Path → Except RenameFault (Option Path)}
    (hfound : ∀ p, next (some p) = .ok (some p)) (hnone : next none = r.firstFile qs) :
    r.firstFile ps >>= next = r.firstFile (ps ++ qs) := by
  induction ps with
  | nil => exact hnone
  | cons p rest ih =>
    rw [List.cons_append, firstFile, firstFile]
    cases r.probe p with
    | error fault => rfl
    | ok found =>
      cases found with
      | some q => exact hfound q
      | none => exact ih

/-- To label what is found, and to go on where nothing is, is to search on. -/
theorem search_map_append {ps : List Path} {route : Route} {ds : List (Path × Route)}
    {next : Option Path → Except RenameFault (Option (Path × Route))}
    (hfound : ∀ p, next (some p) = .ok (some (p, route))) (hnone : next none = r.search ds) :
    r.firstFile ps >>= next = r.search (ps.map (·, route) ++ ds) := by
  induction ps with
  | nil => exact hnone
  | cons p rest ih =>
    rw [List.map_cons, List.cons_append, firstFile, search]
    cases r.probe p with
    | error fault => rfl
    | ok found =>
      cases found with
      | some q => exact hfound q
      | none => exact ih

/-- A search comes to a fault where the first candidates lead nowhere and the next one cannot be
probed. -/
theorem search_eq_error_iff {cs : List (Path × Route)} {fault : RenameFault} :
    r.search cs = .error fault ↔
      ComesAfter (fun c => r.probe c.1 = .ok none) (fun c => r.probe c.1 = .error fault) cs := by
  induction cs with
  | nil => exact ⟨fun h => (by cases h), fun h => absurd h not_comesAfter_nil⟩
  | cons c rest ih =>
    rw [search, comesAfter_cons_iff, ← ih]
    cases r.probe c.1 with
    | error fault' => simp [bind, Except.bind]
    | ok found => cases found <;> simp [bind, Except.bind, pure, Except.pure]

/-- A search finds what the first candidate that does not lead nowhere leads to. -/
theorem search_eq_some_iff {cs : List (Path × Route)} {p : Path} {route : Route} :
    r.search cs = .ok (some (p, route)) ↔
      ComesAfter (fun c => r.probe c.1 = .ok none)
        (fun c => r.probe c.1 = .ok (some p) ∧ c.2 = route) cs := by
  induction cs with
  | nil => exact ⟨fun h => (by cases h), fun h => absurd h not_comesAfter_nil⟩
  | cons c rest ih =>
    rw [search, comesAfter_cons_iff, ← ih]
    cases r.probe c.1 with
    | error fault => simp [bind, Except.bind]
    | ok found => cases found <;> simp [bind, Except.bind, pure, Except.pure]

/-- A search finds nothing where all of its candidates lead nowhere. -/
theorem search_eq_none_iff {cs : List (Path × Route)} :
    r.search cs = .ok none ↔ ∀ c ∈ cs, r.probe c.1 = .ok none := by
  induction cs with
  | nil => simp [search]
  | cons c rest ih =>
    rw [search, List.forall_mem_cons, ← ih]
    cases r.probe c.1 with
    | error fault => simp [bind, Except.bind]
    | ok found => cases found <;> simp [bind, Except.bind, pure, Except.pure]

/-- To search on is to search further where nothing has been found. -/
theorem search_append (cs ds : List (Path × Route)) :
    r.search (cs ++ ds) = r.search cs >>= fun found =>
      match found with
      | some c => .ok (some c)
      | none => r.search ds := by
  induction cs with
  | nil => rfl
  | cons c rest ih =>
    rw [List.cons_append, search, search, ih]
    cases r.probe c.1 with
    | error fault => rfl
    | ok found => cases found <;> rfl

/-! ## Resolving is searching -/

theorem probeEntries_eq_firstFile (pkg : Package) (entries : List (Option String)) :
    r.probeEntries pkg entries = r.firstFile (pkg.entryCandidates entries) := by
  induction entries with
  | nil => exact (firstFile_singleton _).symm
  | cons entry rest ih =>
    unfold probeEntries
    split
    · exact ih
    · exact ih
    · rename_i file hfile
      have hpresent : (some file).filter (· ≠ "") = some file := by
        simpa [Option.filter] using hfile
      rw [Package.entryCandidates, List.filterMap_cons_some hpresent, List.map_cons,
        List.cons_append, ← List.singleton_append, ← firstFile_singleton]
      exact firstFile_append (fun _ => rfl) ih

theorem resolveInPackage_eq_firstFile (pkg : Package) (subpath : String) :
    r.resolveInPackage pkg subpath = r.firstFile (pkg.candidates subpath) := by
  simp only [resolveInPackage, Package.candidates]
  cases pkg.exports.bind
      (Exports.matchExports · (if subpath = "" then "." else "./" ++ subpath)) with
  | some target => exact (firstFile_singleton _).symm
  | none =>
    simp only
    split
    · rfl
    · split
      · exact probeEntries_eq_firstFile _ _
      · exact (firstFile_singleton _).symm

theorem resolveBare_eq_firstFile (importer : Path) (specifier : String) :
    r.resolveBare importer specifier = r.firstFile (r.bareCandidates importer specifier) := by
  simp only [resolveBare, bareCandidates]
  cases r.packageFor? importer (splitPackageName specifier).1 with
  | none => rfl
  | some pkg => exact resolveInPackage_eq_firstFile _ _

theorem probeAppModules_eq_firstFile (addon : Package) (wanted : List String)
    (files : Table String String) :
    r.probeAppModules addon wanted files = r.firstFile
      ((files.filter fun e => wanted.contains e.1).map fun e => addon.root.child e.2) := by
  induction files with
  | nil => rfl
  | cons file rest ih =>
    rw [probeAppModules, List.filter_cons]
    split
    · rw [List.map_cons, ← List.singleton_append, ← firstFile_singleton]
      exact firstFile_append (fun _ => rfl) ih
    · exact ih

theorem probeAddons_eq_firstFile (wanted : List String) (addons : List Package) :
    r.probeAddons wanted addons = r.firstFile (addons.flatMap (addonCandidates wanted)) := by
  induction addons with
  | nil => rfl
  | cons addon rest ih =>
    rw [probeAddons, probeAppModules_eq_firstFile, List.flatMap_cons]
    exact firstFile_append (fun _ => rfl) ih

theorem resolveAppModule_eq_firstFile (specifier : String) :
    r.resolveAppModule specifier = r.firstFile (r.appModuleCandidates specifier) := by
  simp only [resolveAppModule, appModuleCandidates]
  split
  · rfl
  · exact probeAddons_eq_firstFile _ _

theorem resolveRenamedModule_eq_firstFile (importer : Path) (specifier : String) :
    r.resolveRenamedModule importer specifier =
      r.firstFile (r.renamedModuleCandidates importer specifier) := by
  rw [resolveRenamedModule, renamedModuleCandidates]
  cases r.renamedModule? specifier with
  | none => rfl
  | some renamed =>
    simp only
    split
    · rfl
    · rw [resolveBare_eq_firstFile]
      exact firstFile_append (fun _ => rfl) (resolveAppModule_eq_firstFile _)

theorem resolveRenamedPackage_eq_firstFile (specifier : String) :
    r.resolveRenamedPackage specifier = r.firstFile (r.renamedPackageCandidates specifier) := by
  simp only [resolveRenamedPackage, renamedPackageCandidates]
  cases Table.find? (splitPackageName specifier).1 r.app.renamedPackages with
  | none => rfl
  | some renamed =>
    simp only
    split
    · rfl
    · exact resolveBare_eq_firstFile _ _

theorem resolveMerged_eq_search (importer : Path) (specifier : String) :
    r.resolveMerged importer specifier = r.search (r.mergedCandidates importer specifier) := by
  rw [resolveMerged, resolveRenamedModule_eq_firstFile, mergedCandidates]
  refine search_map_append (fun _ => rfl) ?_
  simp only
  rw [resolveRenamedPackage_eq_firstFile]
  refine search_map_append (fun _ => rfl) ?_
  simp only
  rw [resolveAppModule_eq_firstFile, ← List.append_nil (List.map _ _)]
  refine search_map_append (fun _ => rfl) rfl

/-- What a specifier leads to, unless it is empty or supplied at run time, is what a search along
its candidates comes to. -/
theorem resolve_eq_search {importer : Path} {specifier : String} (hempty : specifier ≠ "")
    (hruntime : isRuntimeModule r.settings.externals specifier = false) :
    r.resolve importer specifier = (r.search (r.candidates importer specifier)).map
      (Resolution.ofSearch (r.deadEnd importer specifier)) := by
  rw [resolve, if_neg hempty, hruntime, if_neg Bool.false_ne_true, candidates, deadEnd]
  by_cases hrelative : isRelative specifier = true
  · rw [if_pos hrelative, if_pos hrelative, if_pos hrelative, search]
    cases r.probe (importer.parent.child specifier) with
    | error fault => rfl
    | ok found => cases found <;> rfl
  rw [if_neg hrelative, if_neg hrelative, if_neg hrelative]
  by_cases habsolute : Text.beginsWith "/" specifier = true
  · rw [if_pos habsolute, if_pos habsolute, if_pos habsolute, search]
    cases r.probe (Path.ofString specifier) with
    | error fault => rfl
    | ok found => cases found <;> rfl
  rw [if_neg habsolute, if_neg habsolute, if_neg habsolute, resolveBare_eq_firstFile]
  have hsearch : r.search ((r.bareCandidates importer specifier).map (·, .package) ++
        r.mergedCandidates importer specifier) =
      r.firstFile (r.bareCandidates importer specifier) >>= fun found =>
        match found with
        | some p => .ok (some (p, .package))
        | none => r.resolveMerged importer specifier :=
    (search_map_append (fun _ => rfl) (resolveMerged_eq_search importer specifier)).symm
  rw [hsearch]
  cases r.firstFile (r.bareCandidates importer specifier) with
  | error fault => rfl
  | ok found =>
    cases found with
    | some p => rfl
    | none =>
      change r.resolveMerged importer specifier >>= _ = Except.map _ (r.resolveMerged _ _)
      cases r.resolveMerged importer specifier with
      | error fault => rfl
      | ok merged => cases merged <;> rfl

/-- Resolving a specifier refuses an empty one, tells that it is supplied at run time, or searches
along its candidates. -/
theorem resolve_cases (r : Resolver) (importer : Path) (specifier : String) :
    (specifier = "" ∧ r.resolve importer specifier = .ok (.failed .emptySpecifier)) ∨
    (specifier ≠ "" ∧ isRuntimeModule r.settings.externals specifier = true ∧
      r.resolve importer specifier = .ok .supplied) ∨
    (specifier ≠ "" ∧ isRuntimeModule r.settings.externals specifier = false ∧
      r.resolve importer specifier = (r.search (r.candidates importer specifier)).map
        (Resolution.ofSearch (r.deadEnd importer specifier))) := by
  by_cases hempty : specifier = ""
  · refine .inl ⟨hempty, ?_⟩
    rw [resolve, if_pos hempty]
    rfl
  cases hruntime : isRuntimeModule r.settings.externals specifier with
  | true =>
    refine .inr (.inl ⟨hempty, rfl, ?_⟩)
    rw [resolve, if_neg hempty, if_pos hruntime]
    rfl
  | false => exact .inr (.inr ⟨hempty, rfl, resolve_eq_search hempty hruntime⟩)

end Resolver

end BundleReach
