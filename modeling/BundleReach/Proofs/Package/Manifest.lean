import BundleReach.Package.Discovery
import BundleReach.Proofs.Outcome

/-!
# What manifests come to

A manifest describes a package whatever its members hold, unless its dependencies cannot be listed:
`package_eq_error_iff`.  An application's manifest has to be one of an application as well:
`loadApp_cases`.

* `Unlists` — the values that are no list of any sort, with the fault that they lead to.
* `root_of_package`, `dependencies_of_package` — what is read off a package.
-/

namespace BundleReach

variable {t : FileTree} {root : Path} {app pkg : Package} {m : Manifest} {kind : PackageKind}

/-! ## Dependencies that cannot be listed -/

/-- A value that is no list of any sort, and does not count as nothing either. -/
inductive Unlists : Json → Unlistable → Prop where
  | yes : Unlists (.bool true) .bool
  | int {i : Int} (nonzero : i ≠ 0) : Unlists (.int i) .int
  | float {d : Numeral.Double} (nonzero : d.isInt 0 = false) : Unlists (.float d) .float

namespace Manifest

/-- Of all values only `true` and numbers that are not zero cannot be listed. -/
theorem listed_eq_error_iff {j : Json} {fault : Unlistable} :
    listed j = .error fault ↔ Unlists j fault := by
  constructor
  · intro h
    unfold listed at h
    split at h
    · cases h
    · cases h
    · cases h
    · cases h
    · rename_i b
      cases b
      · cases h
      · cases h
        exact .yes
    · split at h
      · cases h
      · rename_i hzero
        cases h
        exact .int hzero
    · split at h
      · cases h
      · rename_i hzero
        cases h
        exact .float (Bool.eq_false_iff.2 hzero)
  · rintro (_ | hzero | hzero)
    · rfl
    · rw [listed, if_neg hzero]
    · rw [listed, if_neg (by simp [hzero])]

theorem exists_listed_iff {j : Json} :
    (∃ items, listed j = .ok items) ↔ ∀ fault, ¬ Unlists j fault := by
  simp only [← listed_eq_error_iff]
  cases listed j with
  | error fault => exact iff_of_false nofun fun h => h fault rfl
  | ok items => exact iff_of_true ⟨items, rfl⟩ nofun

/-- What is read while a package is worked on: of an application only. -/
def listedAtWork (m : Manifest) (kind : PackageKind) : Except Unlistable (List Json) :=
  if kind = .app then listed (m.get "devDependencies") else .ok []

theorem listedAtWork_eq_error_iff {fault : Unlistable} :
    m.listedAtWork kind = .error fault ↔
      kind = .app ∧ Unlists (m.get "devDependencies") fault := by
  cases kind with
  | app => rw [listedAtWork, if_pos rfl, listed_eq_error_iff, and_iff_right rfl]
  | addon => exact iff_of_false nofun nofun

theorem dependencies_eq (m : Manifest) (kind : PackageKind) :
    m.dependencies kind = listed (m.get "dependencies") >>= fun always =>
      m.listedAtWork kind >>= fun atWork =>
        .ok ((always ++ atWork.filter fun d => !always.any (·.same d)).map Json.wording) := by
  cases kind <;> rfl

/-- Dependencies cannot be listed if the first of the members that are read that is no list of any
sort is at fault; of a package that is no application only one member is read. -/
theorem dependencies_eq_error_iff {fault : Unlistable} :
    m.dependencies kind = .error fault ↔
      Unlists (m.get "dependencies") fault ∨
        (∀ u, ¬ Unlists (m.get "dependencies") u) ∧ kind = .app ∧
          Unlists (m.get "devDependencies") fault := by
  rw [dependencies_eq, bind_eq_error_iff, listed_eq_error_iff, ← exists_listed_iff,
    ← listedAtWork_eq_error_iff]
  refine or_congr_right ⟨?_, ?_⟩
  · rintro ⟨always, halways, h⟩
    rcases bind_eq_error_iff.1 h with h | ⟨atWork, -, h⟩
    · exact ⟨⟨always, halways⟩, h⟩
    · cases h
  · rintro ⟨⟨always, halways⟩, h⟩
    exact ⟨always, halways, bind_eq_error_iff.2 (.inl h)⟩

/-- A manifest describes a package unless its dependencies cannot be listed. -/
theorem package_eq_error_iff {fault : Unlistable} :
    m.package root kind = .error fault ↔
      Unlists (m.get "dependencies") fault ∨
        (∀ u, ¬ Unlists (m.get "dependencies") u) ∧ kind = .app ∧
          Unlists (m.get "devDependencies") fault := by
  rw [← dependencies_eq_error_iff, package, bind_eq_error_iff]
  refine ⟨fun h => h.elim id ?_, .inl⟩
  rintro ⟨names, -, h⟩
  cases h

/-- The manifest of an application describes it unless either of its members cannot be listed. -/
theorem package_app_fails_iff :
    (∃ u, m.package root .app = .error u) ↔
      ∃ u, Unlists (m.get "dependencies") u ∨ Unlists (m.get "devDependencies") u := by
  simp only [package_eq_error_iff]
  constructor
  · rintro ⟨u, h | ⟨-, -, h⟩⟩
    · exact ⟨u, .inl h⟩
    · exact ⟨u, .inr h⟩
  · rintro ⟨u, h | h⟩
    · exact ⟨u, .inl h⟩
    · by_cases hfirst : ∃ u', Unlists (m.get "dependencies") u'
      · exact hfirst.imp fun _ h => .inl h
      · exact ⟨u, .inr ⟨not_exists.1 hfirst, trivial, h⟩⟩

end Manifest

/-! ## What is read off a package -/

/-- A package's folder is the one that its manifest is in. -/
theorem root_of_package (h : m.package root kind = .ok pkg) : pkg.root = root := by
  obtain ⟨dependencies, -, h⟩ := bind_eq_ok_iff.1 h
  rw [← pure_eq_ok_iff.1 h]

theorem kind_of_package (h : m.package root kind = .ok pkg) : pkg.kind = kind := by
  obtain ⟨dependencies, -, h⟩ := bind_eq_ok_iff.1 h
  rw [← pure_eq_ok_iff.1 h]

theorem dependencies_of_package (h : m.package root kind = .ok pkg) :
    m.dependencies kind = .ok pkg.dependencies := by
  obtain ⟨dependencies, hnames, h⟩ := bind_eq_ok_iff.1 h
  rw [← pure_eq_ok_iff.1 h]
  exact hnames

/-- An application depends on whatever its manifest would have an addon depend on. -/
theorem dependencies_addon_subset (happ : m.package root .app = .ok app)
    (haddon : m.package root .addon = .ok pkg) : pkg.dependencies ⊆ app.dependencies := by
  have hnames := dependencies_of_package happ
  have hnames' := dependencies_of_package haddon
  rw [Manifest.dependencies_eq] at hnames hnames'
  obtain ⟨always, halways, hnames⟩ := bind_eq_ok_iff.1 hnames
  obtain ⟨atWork, -, hnames⟩ := bind_eq_ok_iff.1 hnames
  obtain ⟨always', halways', hnames'⟩ := bind_eq_ok_iff.1 hnames'
  obtain ⟨nothing, hnothing, hnames'⟩ := bind_eq_ok_iff.1 hnames'
  obtain rfl := Except.ok.inj (halways.symm.trans halways')
  obtain rfl : [] = nothing := Except.ok.inj hnothing
  rw [← Except.ok.inj hnames, ← Except.ok.inj hnames', List.filter_nil, List.append_nil,
    List.map_append]
  exact List.subset_append_left _ _

/-! ## Applications -/

/-- A manifest says that its package is an application, and names it. -/
structure Manifest.IsApplication (m : Manifest) : Prop where
  type : ((m.addonMeta?.getD []).get "type").same (.text "app") = true
  named : ∃ name, m.get "name" = .text name ∧ name ≠ ""

/-- An output is refused for a reason that its folder or its application's manifest gives. -/
def Refused (t : FileTree) (root : Path) : Prop :=
  ∃ fault, loadApp t root = .error fault ∧ ∀ u, fault ≠ .unlistable u

theorem refused_of_manifestAt?_eq_none (h : manifestAt? t root = none) : Refused t root := by
  rw [manifestAt?] at h
  split at h
  · rename_i hread
    exact ⟨.noManifest root, by simp only [loadApp, hread]; rfl, nofun⟩
  · rename_i bytes hread
    cases hmanifest : Manifest.read bytes with
    | error fault =>
      exact ⟨.badManifest (root.child manifestName) fault,
        by simp only [loadApp, hread, hmanifest]; rfl, nofun⟩
    | ok m =>
      rw [hmanifest] at h
      cases h

/-- What is made of a manifest that can be read. -/
theorem loadApp_of_manifestAt? (h : manifestAt? t root = some m) :
    loadApp t root =
      if ((m.addonMeta?.getD []).get "type").same (.text "app") = true then
        match m.get "name" with
        | .text name =>
          if name = "" then .error (.nameless (root.child manifestName))
          else (m.package root .app).mapError .unlistable
        | _ => .error (.nameless (root.child manifestName))
      else .error (.notAnApplication (root.child manifestName)) := by
  rw [manifestAt?] at h
  split at h
  · cases h
  · rename_i bytes hread
    cases hmanifest : Manifest.read bytes with
    | error fault =>
      rw [hmanifest] at h
      cases h
    | ok m' =>
      rw [hmanifest] at h
      cases h
      simp only [loadApp, hread, hmanifest]
      rfl

theorem loadApp_of_isApplication (h : manifestAt? t root = some m) (happ : m.IsApplication) :
    loadApp t root = (m.package root .app).mapError .unlistable := by
  obtain ⟨name, hname, hne⟩ := happ.named
  rw [loadApp_of_manifestAt? h, if_pos happ.type, hname]
  exact if_neg hne

theorem refused_of_not_isApplication (h : manifestAt? t root = some m)
    (hnot : ¬ m.IsApplication) : Refused t root := by
  rw [Refused, loadApp_of_manifestAt? h]
  split
  · rename_i htype
    split
    · rename_i name hname
      split
      · exact ⟨_, rfl, nofun⟩
      · rename_i hne
        exact absurd ⟨htype, name, hname, hne⟩ hnot
    · exact ⟨_, rfl, nofun⟩
  · exact ⟨_, rfl, nofun⟩

/-- An application is loaded from the manifest of one, and then only its dependencies can be at
fault; an output without such a manifest is refused. -/
theorem loadApp_cases (t : FileTree) (root : Path) :
    (∃ m, manifestAt? t root = some m ∧ m.IsApplication ∧
      loadApp t root = (m.package root .app).mapError .unlistable) ∨
    (∀ m, manifestAt? t root = some m → ¬ m.IsApplication) ∧ Refused t root := by
  cases hm : manifestAt? t root with
  | none => exact .inr ⟨nofun, refused_of_manifestAt?_eq_none hm⟩
  | some m =>
    by_cases happ : m.IsApplication
    · exact .inl ⟨m, rfl, happ, loadApp_of_isApplication hm happ⟩
    · exact .inr ⟨fun m' h => Option.some.inj h ▸ happ, refused_of_not_isApplication hm happ⟩

/-- A loaded application is the one that its folder's manifest describes. -/
theorem exists_manifest_of_loadApp (h : loadApp t root = .ok app) :
    ∃ m, manifestAt? t root = some m ∧ m.IsApplication ∧ m.package root .app = .ok app := by
  rcases loadApp_cases t root with ⟨m, hm, happ, hload⟩ | ⟨-, fault, hload, -⟩
  · rw [hload] at h
    exact ⟨m, hm, happ, mapError_eq_ok_iff.1 h⟩
  · rw [hload] at h
    cases h

/-- Loading an application fails by its dependencies where a manifest of one has such. -/
theorem loadApp_eq_unlistable_iff {u : Unlistable} :
    loadApp t root = .error (.unlistable u) ↔
      ∃ m, manifestAt? t root = some m ∧ m.IsApplication ∧
        m.package root .app = .error u := by
  rcases loadApp_cases t root with ⟨m, hm, happ, hload⟩ | ⟨hnone, fault, hload, hother⟩
  · rw [hload]
    constructor
    · intro h
      refine ⟨m, hm, happ, ?_⟩
      cases hpkg : m.package root .app with
      | error u' =>
        rw [hpkg] at h
        cases h
        rfl
      | ok pkg =>
        rw [hpkg] at h
        cases h
    · rintro ⟨m', hm', -, hpkg⟩
      obtain rfl := Option.some.inj (hm.symm.trans hm')
      rw [hpkg]
      rfl
  · rw [hload]
    refine iff_of_false (fun h => hother u (Except.error.inj h)) ?_
    rintro ⟨m, hm, happ, -⟩
    exact hnone m hm happ

theorem root_of_loadApp (h : loadApp t root = .ok app) : app.root = root := by
  obtain ⟨m, -, -, hpackage⟩ := exists_manifest_of_loadApp h
  exact root_of_package hpackage

theorem isApp_of_loadApp (h : loadApp t root = .ok app) : app.isApp = true := by
  obtain ⟨m, -, -, hpackage⟩ := exists_manifest_of_loadApp h
  rw [Package.isApp, kind_of_package hpackage]
  rfl

end BundleReach
