import BundleReach.Graph.Basic
import BundleReach.Proofs.FileTree.Below
import BundleReach.Proofs.Package.Lookup
import BundleReach.Proofs.Package.Manifest

/-!
# Packages in depth-first order

The plain way to find what an application depends on: a recursive visit that takes the names a
package declares one after the other, and goes into a package when it first comes up.  The search
with an agenda finds the same packages in the same order, and is never cut short.

* `Visits` — visiting the dependencies of a package, with all that comes up on the way.
* `Visits.account` — what is met by a visit, and what is found.
* `lookUp_cases` — what can come of one step of the search.
* `discover_eq_ok_iff` — the search finds what a visit finds.
* `discover_eq_locateAddons` — it ends by itself.
-/

namespace BundleReach

variable {t : FileTree} {root owner place : Path} {name : String} {names rest : List String}
  {met met' : List Path} {found : List Package} {agenda : List Sought} {m : Manifest}
  {pkg app : Package}

/-! ## The visit -/

/-- Visiting the dependencies with some names that the package in the folder `owner` declares finds
packages; `met` are the folders that have been met before, and `met'` those that have been met
after.  A package is followed by what comes up in visiting its own dependencies. -/
inductive Visits (t : FileTree) (root : Path) :
    Path → List String → List Path → List Package → List Path → Prop where
  | done {owner : Path} {met : List Path} : Visits t root owner [] met [] met
  /-- There is no such package, or it has been met. -/
  | pass {owner : Path} {name : String} {rest : List String} {met met' : List Path}
      {found : List Package}
      (known : ∀ place, findPackageRoot t root owner name = some place → place ∈ met)
      (more : Visits t root owner rest met found met') :
      Visits t root owner (name :: rest) met found met'
  /-- It has no manifest that can be read. -/
  | unreadable {owner place : Path} {name : String} {rest : List String} {met met' : List Path}
      {found : List Package} (leads : findPackageRoot t root owner name = some place)
      (fresh : place ∉ met) (unread : manifestAt? t place = none)
      (more : Visits t root owner rest (place :: met) found met') :
      Visits t root owner (name :: rest) met found met'
  | enter {owner place : Path} {name : String} {rest : List String} {met met₁ met' : List Path}
      {m : Manifest} {pkg : Package} {inside others : List Package}
      (leads : findPackageRoot t root owner name = some place) (fresh : place ∉ met)
      (read : manifestAt? t place = some m) (described : m.package place .addon = .ok pkg)
      (inner : Visits t root pkg.root pkg.dependencies (place :: met) inside met₁)
      (more : Visits t root owner rest met₁ others met') :
      Visits t root owner (name :: rest) met (pkg :: inside ++ others) met'

/-! ## Paths of manifests -/

theorem child_manifestName (p : Path) :
    p.child manifestName = ⟨p.anchor, p.parts ++ [manifestName]⟩ :=
  Path.child_of_isPart (by decide) p

/-! ## One step of the search -/

/-- The names of one package, to be looked for before an agenda. -/
def soughtBy (owner : Path) (names : List String) : List Sought := names.map (owner, ·)

theorem soughtBy_cons (owner : Path) (name : String) (names : List String) :
    soughtBy owner (name :: names) = (owner, name) :: soughtBy owner names := rfl

theorem discover_nil (most : Nat) (met : List Path) : discover t root most [] met = .ok [] := by
  cases most <;> rfl

theorem discover_cons_of_known
    (h : ∀ place, findPackageRoot t root owner name = some place → place ∈ met) (most : Nat)
    (agenda : List Sought) :
    discover t root most ((owner, name) :: agenda) met = discover t root most agenda met := by
  cases most with
  | zero => rfl
  | succ most =>
    rw [discover, discoverWith]
    cases hfind : findPackageRoot t root owner name with
    | none => rfl
    | some place =>
      simp only
      rw [if_pos (h place hfind)]

theorem discover_cons_of_unread (hfind : findPackageRoot t root owner name = some place)
    (hfresh : place ∉ met) (hread : manifestAt? t place = none) (most : Nat)
    (agenda : List Sought) :
    discover t root most ((owner, name) :: agenda) met =
      discover t root most agenda (place :: met) := by
  cases most with
  | zero => rfl
  | succ most =>
    rw [discover, discoverWith, hfind]
    simp only
    rw [if_neg hfresh, hread]

/-- A package that first comes up is gone into. -/
theorem discover_cons_of_described (hfind : findPackageRoot t root owner name = some place)
    (hfresh : place ∉ met) (hread : manifestAt? t place = some m)
    (hpkg : m.package place .addon = .ok pkg) (most : Nat) (agenda : List Sought) :
    discover t root (most + 1) ((owner, name) :: agenda) met =
      (discover t root most (soughtBy pkg.root pkg.dependencies ++ agenda) (place :: met)).map
        (pkg :: ·) := by
  rw [discover, discoverWith, hfind]
  simp only
  rw [if_neg hfresh, hread]
  simp only [hpkg]
  change (discover t root most (soughtBy pkg.root pkg.dependencies ++ agenda) (place :: met) >>=
    fun found => .ok (pkg :: found)) = _
  cases discover t root most (soughtBy pkg.root pkg.dependencies ++ agenda) (place :: met) <;> rfl

/-- The search ends where a package's dependencies cannot be listed. -/
theorem discover_cons_of_unlistable (hfind : findPackageRoot t root owner name = some place)
    (hfresh : place ∉ met) (hread : manifestAt? t place = some m) {fault : Unlistable}
    (hpkg : m.package place .addon = .error fault) (most : Nat) (agenda : List Sought) :
    discover t root (most + 1) ((owner, name) :: agenda) met = .error (.unlistable fault) := by
  rw [discover, discoverWith, hfind]
  simp only
  rw [if_neg hfresh, hread]
  simp only [hpkg]
  rfl

/-- What comes of looking up a name that a package declares, `met` being the folders that have been
met before. -/
inductive LookUp (t : FileTree) (root owner : Path) (name : String) (met : List Path) : Prop where
  | known (known : ∀ place, findPackageRoot t root owner name = some place → place ∈ met)
  | unread {place : Path} (leads : findPackageRoot t root owner name = some place)
      (fresh : place ∉ met) (unread : manifestAt? t place = none)
  | unlistable {place : Path} {m : Manifest} {fault : Unlistable}
      (leads : findPackageRoot t root owner name = some place) (fresh : place ∉ met)
      (read : manifestAt? t place = some m) (fails : m.package place .addon = .error fault)
  | described {place : Path} {m : Manifest} {pkg : Package}
      (leads : findPackageRoot t root owner name = some place) (fresh : place ∉ met)
      (read : manifestAt? t place = some m) (described : m.package place .addon = .ok pkg)

theorem lookUp_cases (t : FileTree) (root owner : Path) (name : String) (met : List Path) :
    LookUp t root owner name met := by
  by_cases hknown : ∀ place, findPackageRoot t root owner name = some place → place ∈ met
  · exact .known hknown
  push Not at hknown
  obtain ⟨place, hleads, hfresh⟩ := hknown
  cases hread : manifestAt? t place with
  | none => exact .unread hleads hfresh hread
  | some m =>
    cases hpkg : m.package place .addon with
    | error fault => exact .unlistable hleads hfresh hread hpkg
    | ok pkg => exact .described hleads hfresh hread hpkg

/-! ## Folders still to be met -/

/-- The folders that packages can be in: the top and whatever a tree has entries for. -/
def packagePlaces (t : FileTree) : List Path := Path.top :: t.places

theorem mem_packagePlaces_of_findPackageRoot
    (h : findPackageRoot t root owner name = some place) : place ∈ packagePlaces t := by
  obtain ⟨folder, -, hcopy, -⟩ := findPackageRoot_eq_some_iff.1 h
  rw [copyAt?] at hcopy
  split at hcopy
  · rename_i hfile
    cases hcopy
    rw [child_manifestName] at hfile
    obtain ⟨parts, -, -, hwalk, hat, -⟩ := FileTree.exists_walk_of_isFile (by simp) hfile
    rw [FileTree.resolve_eq_of_walk hwalk]
    cases parts with
    | nil => exact List.mem_cons_self
    | cons part rest =>
      exact List.mem_cons_of_mem _ (List.mem_map.2 ⟨_, Table.mem_of_find? hat, rfl⟩)
  · cases hcopy

/-- How many folders have not been met. -/
def unmet (t : FileTree) (met : List Path) : Nat :=
  ((packagePlaces t).filter fun p => p ∉ met).length

theorem unmet_le (t : FileTree) (met : List Path) : unmet t met ≤ t.entries.length + 1 := by
  refine (List.length_filter_le _ _).trans ?_
  rw [packagePlaces, List.length_cons, FileTree.length_places]

/-- A folder that a name leads to leaves fewer when it is met. -/
theorem unmet_lt_of_leads (hleads : findPackageRoot t root owner name = some place)
    (hfresh : place ∉ met) : unmet t (place :: met) < unmet t met := by
  refine length_filter_lt (mem_packagePlaces_of_findPackageRoot hleads) (decide_eq_true hfresh)
    fun p => ?_
  rw [decide_eq_true_eq, decide_eq_true_eq, List.mem_cons, not_or]
  exact and_comm

/-! ## What a visit meets -/

/-- A folder that has been met is dealt with: it has no manifest that can be read, or the package
that was found there has had its dependencies met. -/
def Handled (t : FileTree) (root : Path) (found : List Package) (met : List Path)
    (place : Path) : Prop :=
  manifestAt? t place = none ∨
    ∃ m pkg, manifestAt? t place = some m ∧ m.package place .addon = .ok pkg ∧ pkg ∈ found ∧
      ∀ name ∈ pkg.dependencies, ∀ next, findPackageRoot t root place name = some next → next ∈ met

theorem Handled.mono {more : List Package} (h : Handled t root found met place)
    (hfound : found ⊆ more) (hmet : met ⊆ met') : Handled t root more met' place := by
  rcases h with hnone | ⟨m, pkg, hread, hdescribed, hpkg, hnext⟩
  · exact .inl hnone
  · exact .inr ⟨m, pkg, hread, hdescribed, hfound hpkg,
      fun n hn next hleads => hmet (hnext n hn next hleads)⟩

/-- What a visit of some names leaves behind: all that the names lead to has been met, and whatever
has been met on the way is dealt with. -/
structure Account (t : FileTree) (root owner : Path) (names : List String) (met : List Path)
    (found : List Package) (met' : List Path) : Prop where
  kept : met ⊆ met'
  named : ∀ name ∈ names, ∀ place, findPackageRoot t root owner name = some place → place ∈ met'
  handled : ∀ place ∈ met', place ∈ met ∨ Handled t root found met' place
  once : (found.map Package.root).Nodup
  fresh : ∀ pkg ∈ found, pkg.root ∉ met
  noted : ∀ pkg ∈ found, pkg.root ∈ met'
  /-- Each package that was found leaves fewer folders to be met. -/
  bounded : found.length + unmet t met' ≤ unmet t met

namespace Account

theorem done : Account t root owner [] met [] met where
  kept := List.Subset.refl _
  named _ h := absurd h List.not_mem_nil
  handled _ hplace := .inl hplace
  once := List.nodup_nil
  fresh _ h := absurd h List.not_mem_nil
  noted _ h := absurd h List.not_mem_nil
  bounded := (Nat.zero_add _).le

theorem pass (h : Account t root owner rest met found met')
    (known : ∀ place, findPackageRoot t root owner name = some place → place ∈ met) :
    Account t root owner (name :: rest) met found met' where
  __ := h
  named n hn place hplace := by
    rcases List.mem_cons.1 hn with rfl | hn
    · exact h.kept (known place hplace)
    · exact h.named n hn place hplace

theorem unreadable (h : Account t root owner rest (place :: met) found met')
    (leads : findPackageRoot t root owner name = some place) (fresh : place ∉ met)
    (unread : manifestAt? t place = none) :
    Account t root owner (name :: rest) met found met' where
  kept p hp := h.kept (List.mem_cons_of_mem _ hp)
  named n hn p hp := by
    rcases List.mem_cons.1 hn with rfl | hn
    · exact Option.some.inj (leads.symm.trans hp) ▸ h.kept List.mem_cons_self
    · exact h.named n hn p hp
  handled p hp := by
    rcases h.handled p hp with hmet | hrest
    · rcases List.mem_cons.1 hmet with rfl | hmet
      · exact .inr (.inl unread)
      · exact .inl hmet
    · exact .inr hrest
  once := h.once
  fresh pkg hpkg hmet := h.fresh pkg hpkg (List.mem_cons_of_mem _ hmet)
  noted := h.noted
  bounded := h.bounded.trans (unmet_lt_of_leads leads fresh).le

/-- A package that is gone into: what it leads to has been met before the rest is visited. -/
theorem enter {met₁ : List Path} {inside others : List Package}
    (hi : Account t root pkg.root pkg.dependencies (pkg.root :: met) inside met₁)
    (ho : Account t root owner rest met₁ others met')
    (leads : findPackageRoot t root owner name = some pkg.root) (fresh : pkg.root ∉ met)
    (read : manifestAt? t pkg.root = some m) (described : m.package pkg.root .addon = .ok pkg) :
    Account t root owner (name :: rest) met (pkg :: inside ++ others) met' where
  kept p hp := ho.kept (hi.kept (List.mem_cons_of_mem _ hp))
  named n hn p hp := by
    rcases List.mem_cons.1 hn with rfl | hn
    · exact Option.some.inj (leads.symm.trans hp) ▸ ho.kept (hi.kept List.mem_cons_self)
    · exact ho.named n hn p hp
  handled p hp := by
    rcases ho.handled p hp with hmet | hlater
    · rcases hi.handled p hmet with hmet | hinside
      · rcases List.mem_cons.1 hmet with rfl | hmet
        · exact .inr (.inr ⟨m, pkg, read, described, List.mem_cons_self,
            fun n hn next hleads => ho.kept (hi.named n hn next hleads)⟩)
        · exact .inl hmet
      · exact .inr (hinside.mono
          (fun q hq => List.mem_cons_of_mem _ (List.mem_append_left _ hq)) ho.kept)
    · exact .inr (hlater.mono (fun q hq => List.mem_append_right _ hq) (List.Subset.refl _))
  once := by
    rw [List.cons_append, List.map_cons, List.map_append, List.nodup_cons, List.nodup_append]
    refine ⟨fun hmem => ?_, hi.once, ho.once, fun a ha b hb hab => ?_⟩
    · rcases List.mem_append.1 hmem with hmem | hmem
      · obtain ⟨q, hq, hroot⟩ := List.mem_map.1 hmem
        exact hi.fresh q hq (hroot ▸ List.mem_cons_self)
      · obtain ⟨q, hq, hroot⟩ := List.mem_map.1 hmem
        exact ho.fresh q hq (hroot ▸ hi.kept List.mem_cons_self)
    · -- What was found inside had been met when the rest was visited.
      obtain ⟨q, hq, rfl⟩ := List.mem_map.1 ha
      obtain ⟨q', hq', rfl⟩ := List.mem_map.1 hb
      exact ho.fresh q' hq' (hab ▸ hi.noted q hq)
  fresh q hq hmet := by
    rcases List.mem_append.1 hq with hq | hq
    · rcases List.mem_cons.1 hq with rfl | hq
      · exact fresh hmet
      · exact hi.fresh q hq (List.mem_cons_of_mem _ hmet)
    · exact ho.fresh q hq (hi.kept (List.mem_cons_of_mem _ hmet))
  noted q hq := by
    rcases List.mem_append.1 hq with hq | hq
    · rcases List.mem_cons.1 hq with rfl | hq
      · exact ho.kept (hi.kept List.mem_cons_self)
      · exact ho.kept (hi.noted q hq)
    · exact ho.noted q hq
  bounded := by
    have hlt := unmet_lt_of_leads leads fresh
    have hinside := hi.bounded
    have hothers := ho.bounded
    rw [List.length_append, List.length_cons]
    omega

end Account

theorem Visits.account (h : Visits t root owner names met found met') :
    Account t root owner names met found met' := by
  induction h with
  | done => exact .done
  | pass known _ ih => exact ih.pass known
  | unreadable leads fresh unread _ ih => exact ih.unreadable leads fresh unread
  | enter leads fresh read described _ _ ihi iho =>
    obtain rfl := root_of_package described
    exact ihi.enter iho leads fresh read described

/-! ## The search and the visit -/

theorem map_nil_append {ε α : Type} (x : Except ε (List α)) : x.map ([] ++ ·) = x := by
  cases x <;> rfl

/-- The search does with the names at the head of its agenda what a visit of them does, and goes on
with the rest; by then it has used up as many packages as the visit has found. -/
theorem Visits.discover_eq (h : Visits t root owner names met found met') (most : Nat)
    (agenda : List Sought) :
    discover t root (found.length + most) (soughtBy owner names ++ agenda) met =
      (discover t root most agenda met').map (found ++ ·) := by
  induction h generalizing most agenda with
  | done =>
    rw [List.length_nil, Nat.zero_add, soughtBy, List.map_nil, List.nil_append, map_nil_append]
  | pass known _ ih =>
    rw [soughtBy_cons, List.cons_append, discover_cons_of_known known]
    exact ih most agenda
  | unreadable leads fresh unread _ ih =>
    rw [soughtBy_cons, List.cons_append, discover_cons_of_unread leads fresh unread]
    exact ih most agenda
  | @enter owner place name rest met met₁ met' m pkg inside others leads fresh read described _ _
      ihi iho =>
    have hlen : (pkg :: inside ++ others).length + most =
        inside.length + (others.length + most) + 1 := by
      rw [List.length_append, List.length_cons]
      omega
    rw [hlen, soughtBy_cons, List.cons_append,
      discover_cons_of_described leads fresh read described, ihi, iho]
    cases discover t root most agenda met' with
    | error fault => rfl
    | ok found => exact congrArg Except.ok (by simp)

/-- A search that comes to an end within so many packages has visited the names at the head of its
agenda: by the packages that may still come up, and for each number of them by the names. -/
theorem exists_visits (most : Nat) (hmost : unmet t met ≤ most) (agenda : List Sought)
    (h : discover t root most (soughtBy owner names ++ agenda) met = .ok found) :
    ∃ inside met', Visits t root owner names met inside met' := by
  induction most using Nat.strong_induction_on generalizing owner names met agenda found with
  | _ most ihm =>
  induction names generalizing met agenda found with
  | nil => exact ⟨[], met, .done⟩
  | cons name rest ihr =>
    rw [soughtBy_cons, List.cons_append] at h
    cases lookUp_cases t root owner name met with
    | known hknown =>
      rw [discover_cons_of_known hknown] at h
      obtain ⟨inside, met', hvisits⟩ := ihr hmost agenda h
      exact ⟨inside, met', .pass hknown hvisits⟩
    | unread hleads hfresh hread =>
      have hlt := unmet_lt_of_leads hleads hfresh
      rw [discover_cons_of_unread hleads hfresh hread] at h
      obtain ⟨inside, met', hvisits⟩ := ihr (hlt.le.trans hmost) agenda h
      exact ⟨inside, met', .unreadable hleads hfresh hread hvisits⟩
    | unlistable hleads hfresh hread hfails =>
      have hlt := unmet_lt_of_leads hleads hfresh
      obtain ⟨most, rfl⟩ : ∃ n, most = n + 1 := Nat.exists_eq_succ_of_ne_zero (by omega)
      rw [discover_cons_of_unlistable hleads hfresh hread hfails] at h
      cases h
    | described hleads hfresh hread hpkg =>
      have hlt := unmet_lt_of_leads hleads hfresh
      obtain ⟨most, rfl⟩ : ∃ n, most = n + 1 := Nat.exists_eq_succ_of_ne_zero (by omega)
      rw [discover_cons_of_described hleads hfresh hread hpkg, map_eq_ok_iff] at h
      obtain ⟨more, hmore, -⟩ := h
      obtain ⟨inside, met₁, hinner⟩ := ihm most (Nat.lt_succ_self most) (by omega) _ hmore
      -- What was found inside has been used up when the search goes on with the rest.
      have hbound := hinner.account.bounded
      obtain ⟨left, rfl⟩ : ∃ left, most = inside.length + left :=
        Nat.exists_eq_add_of_le (by omega)
      rw [hinner.discover_eq, map_eq_ok_iff] at hmore
      obtain ⟨others, hothers, -⟩ := hmore
      obtain ⟨others, met', hvisits⟩ := ihm left (by omega) (by omega) _ hothers
      exact ⟨_, met', .enter hleads hfresh hread hpkg hinner hvisits⟩

/-- The search finds what a visit finds, if it may find as many packages as there are folders still
to be met. -/
theorem discover_eq_ok_iff (most : Nat) (hmost : unmet t met ≤ most) :
    discover t root most (soughtBy owner names) met = .ok found ↔
      ∃ met', Visits t root owner names met found met' := by
  have hfinds : ∀ {inside met'}, Visits t root owner names met inside met' →
      discover t root most (soughtBy owner names) met = .ok inside := by
    intro inside met' hvisits
    have hbound := hvisits.account.bounded
    obtain ⟨left, rfl⟩ : ∃ left, most = inside.length + left := Nat.exists_eq_add_of_le (by omega)
    have heq := hvisits.discover_eq left []
    rw [List.append_nil, discover_nil] at heq
    rw [heq, Except.map, List.append_nil]
  constructor
  · intro h
    obtain ⟨inside, met', hvisits⟩ := exists_visits most hmost [] (by rwa [List.append_nil])
    obtain rfl := Except.ok.inj ((hfinds hvisits).symm.trans h)
    exact ⟨met', hvisits⟩
  · rintro ⟨met', hvisits⟩
    exact hfinds hvisits

/-! ## The packages of an output -/

/-- The addons of an application are those that a visit of its dependencies finds. -/
theorem locateAddons_eq_ok_iff :
    locateAddons t root app = .ok found ↔
      ∃ met, Visits t root app.root app.dependencies [app.root] found met :=
  discover_eq_ok_iff _ (unmet_le t _)

theorem locatePackages_eq_ok_iff {packages : List Package} :
    locatePackages t root = .ok packages ↔
      ∃ app found, loadApp t root = .ok app ∧ locateAddons t root app = .ok found ∧
        packages = app :: found := by
  rw [locatePackages, bind_eq_ok_iff]
  constructor
  · rintro ⟨app, happ, h⟩
    obtain ⟨found, hfound, h⟩ := bind_eq_ok_iff.1 h
    exact ⟨app, found, happ, hfound, (pure_eq_ok_iff.1 h).symm⟩
  · rintro ⟨app, found, happ, hfound, rfl⟩
    exact ⟨app, happ, bind_eq_ok_iff.2 ⟨found, hfound, rfl⟩⟩

/-- No two packages of an output are in one folder. -/
theorem nodup_roots_of_locatePackages {packages : List Package}
    (h : locatePackages t root = .ok packages) : (packages.map Package.root).Nodup := by
  obtain ⟨app, found, -, hfound, rfl⟩ := locatePackages_eq_ok_iff.1 h
  obtain ⟨met, hvisits⟩ := locateAddons_eq_ok_iff.1 hfound
  rw [List.map_cons, List.nodup_cons]
  refine ⟨fun hmem => ?_, hvisits.account.once⟩
  obtain ⟨pkg, hpkg, hroot⟩ := List.mem_map.1 hmem
  exact hvisits.account.fresh pkg hpkg (List.mem_singleton.2 hroot)

/-- What a visit finds is no application. -/
theorem Visits.isApp_eq_false (h : Visits t root owner names met found met') :
    ∀ pkg ∈ found, pkg.isApp = false := by
  induction h with
  | done => simp
  | pass _ _ ih => exact ih
  | unreadable _ _ _ _ ih => exact ih
  | @enter owner place name rest met met₁ met' m pkg inside others _ _ _ described _ _ ih₁ ih₂ =>
    intro q hq
    rcases List.mem_append.1 hq with hq | hq
    · rcases List.mem_cons.1 hq with rfl | hq
      · rw [Package.isApp, kind_of_package described]
        rfl
      · exact ih₁ q hq
    · exact ih₂ q hq

/-- A search that may find as many packages as there are folders still to be met does not do
anything else where it may find one more. -/
theorem discover_succ (most : Nat) (hmost : unmet t met ≤ most) :
    discover t root (most + 1) agenda met = discover t root most agenda met := by
  induction most using Nat.strong_induction_on generalizing agenda met with
  | _ most ihm =>
  induction agenda generalizing met with
  | nil => rw [discover_nil, discover_nil]
  | cons sought agenda iha =>
    obtain ⟨owner, name⟩ := sought
    cases lookUp_cases t root owner name met with
    | known hknown =>
      rw [discover_cons_of_known hknown, discover_cons_of_known hknown]
      exact iha hmost
    | unread hleads hfresh hread =>
      have hlt := unmet_lt_of_leads hleads hfresh
      rw [discover_cons_of_unread hleads hfresh hread, discover_cons_of_unread hleads hfresh hread]
      exact iha (hlt.le.trans hmost)
    | unlistable hleads hfresh hread hfails =>
      have hlt := unmet_lt_of_leads hleads hfresh
      obtain ⟨most, rfl⟩ : ∃ n, most = n + 1 := Nat.exists_eq_succ_of_ne_zero (by omega)
      rw [discover_cons_of_unlistable hleads hfresh hread hfails,
        discover_cons_of_unlistable hleads hfresh hread hfails]
    | described hleads hfresh hread hpkg =>
      have hlt := unmet_lt_of_leads hleads hfresh
      obtain ⟨most, rfl⟩ : ∃ n, most = n + 1 := Nat.exists_eq_succ_of_ne_zero (by omega)
      rw [discover_cons_of_described hleads hfresh hread hpkg,
        discover_cons_of_described hleads hfresh hread hpkg,
        ihm most (Nat.lt_succ_self most) (by omega)]

/-- However many packages the search may find, beyond a number that the tree gives, it comes to the
same end. -/
theorem discover_eq_locateAddons {most : Nat} (h : t.entries.length + 1 ≤ most) :
    discover t root most app.sought [app.root] = locateAddons t root app := by
  induction most, h using Nat.le_induction with
  | base => rfl
  | succ most hle ih => rw [discover_succ most ((unmet_le t _).trans hle), ih]

/-- The packages of an output are its application and then what a recursive visit of its declared
dependencies finds, each package followed by what it is the first to lead to.  No two of them are in
one folder.  The search for them ends by itself: to let it find more packages changes nothing. -/
theorem packages_in_depth_first_order (t : FileTree) (root : Path) :
    (∀ packages, locatePackages t root = .ok packages ↔
      ∃ app found met, loadApp t root = .ok app ∧
        Visits t root app.root app.dependencies [app.root] found met ∧ packages = app :: found) ∧
    (∀ packages, locatePackages t root = .ok packages →
      (packages.map Package.root).Nodup ∧
        ∃ app found, packages = app :: found ∧ app.isApp = true ∧ app.root = root) ∧
    ∀ app most, t.entries.length + 1 ≤ most →
      discover t root most app.sought [app.root] = locateAddons t root app := by
  refine ⟨fun packages => ?_, fun packages h => ⟨nodup_roots_of_locatePackages h, ?_⟩,
    fun app most h => discover_eq_locateAddons h⟩
  · rw [locatePackages_eq_ok_iff]
    constructor
    · rintro ⟨app, found, happ, hfound, rfl⟩
      obtain ⟨met, hvisits⟩ := locateAddons_eq_ok_iff.1 hfound
      exact ⟨app, found, met, happ, hvisits, rfl⟩
    · rintro ⟨app, found, met, happ, hvisits, rfl⟩
      exact ⟨app, found, happ, locateAddons_eq_ok_iff.2 ⟨met, hvisits⟩, rfl⟩
  · obtain ⟨app, found, happ, -, rfl⟩ := locatePackages_eq_ok_iff.1 h
    exact ⟨app, found, rfl, isApp_of_loadApp happ, root_of_loadApp happ⟩

/-- An output with packages `a` and `b` that depend on each other, a link to `b` that `a` depends on
as well, and a package without a manifest that can be read. -/
def cyclicOutput : FileTree where
  entries := [(["app"], .folder),
    (["app", "package.json"], .file ("\x7b\"name\":\"app\",\"ember-addon\":" ++
      "\x7b\"type\":\"app\"\x7d," ++
      "\"dependencies\":[\"bad\",\"a\",\"b\",\"gone\"]\x7d").toUTF8.toList),
    (["app", "node_modules"], .folder),
    (["app", "node_modules", "a"], .folder),
    (["app", "node_modules", "a", "package.json"],
      .file "\x7b\"dependencies\":[\"a\",\"c\"]\x7d".toUTF8.toList),
    (["app", "node_modules", "b"], .folder),
    (["app", "node_modules", "b", "package.json"],
      .file "\x7b\"dependencies\":[\"a\"]\x7d".toUTF8.toList),
    (["app", "node_modules", "bad"], .folder),
    (["app", "node_modules", "bad", "package.json"], .file [0x7b]),
    (["app", "node_modules", "c"], .link ⟨.here, ["b"]⟩)]

/-- The package that the link leads to comes before its turn, by way of the one that depends on the
link. -/
theorem packages_in_depth_first_order_cyclic :
    ∃ packages, locatePackages cyclicOutput ⟨.root, ["app"]⟩ = .ok packages ∧
      packages.map Package.name = ["app", "a", "b"] ∧ (packages.map Package.root).Nodup ∧
      cyclicOutput.entries.length + 1 ≤ 100 ∧ ∀ app ∈ packages.head?,
        discover cyclicOutput ⟨.root, ["app"]⟩ 100 app.sought [app.root] =
          locateAddons cyclicOutput ⟨.root, ["app"]⟩ app := by
  have hnames : ((locatePackages cyclicOutput ⟨.root, ["app"]⟩).toOption.map fun packages =>
      packages.map Package.name) = some ["app", "a", "b"] := by
    decide +kernel
  cases h : locatePackages cyclicOutput ⟨.root, ["app"]⟩ with
  | error fault =>
    rw [h] at hnames
    cases hnames
  | ok packages =>
    rw [h] at hnames
    have hlen : cyclicOutput.entries.length + 1 ≤ 100 := by decide
    exact ⟨packages, rfl, Option.some.inj hnames,
      ((packages_in_depth_first_order _ _).2.1 packages h).1, hlen,
      fun app _ => (packages_in_depth_first_order _ _).2.2 app 100 hlen⟩

end BundleReach
