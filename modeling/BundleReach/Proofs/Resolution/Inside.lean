import BundleReach.Proofs.Package.Lookup
import BundleReach.Proofs.Path.Endings
import BundleReach.Proofs.Resolution.Faults
import BundleReach.Proofs.Resolution.Looks

/-!
# Whether a package's modules lie inside it

A specifier that goes up nowhere is looked for inside the package that it names, with two
exceptions.  A path within the package that begins with a slash is not one: it leads away, to
wherever it says from the top of all paths.  And a path that names nothing leads to the package's
own folder, whose name gets the endings, so that files beside the folder are looked at.  Without any
path within the package, its manifest says where to look, inside or not.

* `probeLooks_inside_iff`, `looksAlong_inside_iff` — when a candidate, or one after the other, is
  looked for inside a folder only.
* `LeavesPackage` — the ways out of a package.
* `looks_inside_unless_leaving` — there are no others.
-/

namespace BundleReach

namespace Resolver

variable {r : Resolver} {p q c folder : Path} {cs : List Path} {endings : List String}

/-! ## Candidates inside a folder -/

/-- By its text alone, a path is a folder or lies below it. -/
def Inside (folder q : Path) : Prop := q.normal.isWithin folder = true

/-- A folder keeps its name where files are looked for: it is a file itself, or no ending that is
tried changes its name. -/
def KeepsName (r : Resolver) (folder : Path) : Prop :=
  r.tree.isFile folder = true ∨ ∀ q ∈ r.endingLooks folder r.settings.extensions, q = folder

/-- A candidate lies below a folder, or is the folder, which keeps its name. -/
def Stays (r : Resolver) (folder c : Path) : Prop :=
  c.normal.IsBelow folder ∨ c.normal = folder ∧ r.KeepsName folder

/-- With endings, the name of a path below a folder makes paths in the folder. -/
theorem inside_of_mem_endingLooks (hp : p.IsPlain) (hbelow : p.IsBelow folder)
    (hq : q ∈ r.endingLooks p endings) : Inside folder q := by
  obtain ⟨ending, -, hname⟩ := exists_rename_of_mem_endingLooks hq
  obtain ⟨hnormal, hparent, -⟩ := hp.renamed_normal hname
  unfold Inside
  rw [hnormal]
  refine Path.isWithin_trans (Path.isWithin_parent q) ?_
  rw [hparent]
  exact hbelow.isWithin_parent

/-- With endings, a folder's own name makes paths beside it, unless it makes the same name. -/
theorem inside_self_iff_of_mem_endingLooks (hfolder : folder.IsPlain)
    (hq : q ∈ r.endingLooks folder endings) : Inside folder q ↔ q = folder := by
  obtain ⟨ending, -, hname⟩ := exists_rename_of_mem_endingLooks hq
  obtain ⟨hnormal, -, hlength⟩ := hfolder.renamed_normal hname
  unfold Inside
  rw [hnormal]
  constructor
  · intro hwithin
    exact Path.eq_of_isWithin_of_length_le hwithin (Nat.le_of_eq hlength)
  · rintro rfl
    exact Path.isWithin_self q

/-- Index files lie in the folder that they are looked for in.  An ending that would lead out of it
has broken the folder's name before. -/
theorem inside_of_mem_indexLooks (hp : p.IsPlain) (hwithin : p.isWithin folder = true)
    (hq : q ∈ r.indexLooks p) : Inside folder q := by
  unfold indexLooks at hq
  split at hq
  · rename_i hnone
    split at hq
    · obtain ⟨ending, hending, rfl⟩ := List.mem_map.1 (mem_of_mem_upToFile hq)
      obtain ⟨named, hname, -⟩ := probeEndings_eq_none_iff.1 hnone ending hending
      have hindex : Path.IsName "index" := by decide
      obtain ⟨first, hchild⟩ :=
        Path.child_append_of_rename (Path.isPlain_iff.1 hp).1 hname hindex.toIsPart
      have hnormal : (p.child ("index" ++ ending)).normal = p.child ("index" ++ ending) := by
        refine Path.normal_of_ne_up ?_
        intro part hpart
        rw [hchild] at hpart
        rcases List.mem_append.1 hpart with hpart | hpart
        · exact hp.ne_up part hpart
        · rw [List.mem_singleton.1 hpart]
          exact hindex.append_ne_up first
      unfold Inside
      rw [hnormal, hchild]
      exact Path.isWithin_trans (Path.isWithin_append p _) hwithin
    · cases hq
  · cases hq

/-- A candidate is looked for inside a folder only, just if it stays in it. -/
theorem probeLooks_inside_iff (hfolder : folder.IsPlain) (hc : c.normal.IsPlain) :
    (∀ q ∈ r.probeLooks c, Inside folder q) ↔ r.Stays folder c := by
  have hself : Inside folder c.normal ↔ c.normal.isWithin folder = true := by
    rw [Inside, hc.normal_eq]
  rw [probeLooks, List.forall_mem_cons, hself, Path.isWithin_iff_eq_or_isBelow, Stays]
  constructor
  · rintro ⟨heq | hbelow, hlooks⟩
    · right
      refine ⟨heq, ?_⟩
      rw [heq] at hlooks
      by_cases hfile : r.tree.isFile folder = true
      · exact .inl hfile
      · rw [if_neg hfile] at hlooks
        right
        intro q hq
        exact (inside_self_iff_of_mem_endingLooks hfolder hq).1
          (hlooks q (List.mem_append_left _ hq))
    · exact .inl hbelow
  · rintro (hbelow | ⟨heq, hkeeps⟩)
    · refine ⟨.inr hbelow, fun q hq => ?_⟩
      split at hq
      · cases hq
      · rcases List.mem_append.1 hq with hq | hq
        · exact inside_of_mem_endingLooks hc hbelow hq
        · exact inside_of_mem_indexLooks hc hbelow.1 hq
    · rw [heq]
      refine ⟨.inl rfl, fun q hq => ?_⟩
      rcases hkeeps with hfile | hkeeps
      · rw [if_pos hfile] at hq
        cases hq
      · split at hq
        · cases hq
        · rcases List.mem_append.1 hq with hq | hq
          · exact (inside_self_iff_of_mem_endingLooks hfolder hq).2 (hkeeps q hq)
          · exact inside_of_mem_indexLooks hfolder (Path.isWithin_self folder) hq

/-- Candidates are looked for inside a folder only, just if none of those that it gets to leaves
it. -/
theorem looksAlong_inside_iff (hfolder : folder.IsPlain) (hcs : ∀ c ∈ cs, c.normal.IsPlain) :
    (∀ q ∈ r.looksAlong cs, Inside folder q) ↔
      ¬ ComesAfter (fun c => r.probe c = .ok none) (fun c => ¬ r.Stays folder c) cs := by
  induction cs with
  | nil => simp [looksAlong, not_comesAfter_nil]
  | cons c rest ih =>
    obtain ⟨hc, hrest⟩ := List.forall_mem_cons.1 hcs
    rw [looksAlong, List.forall_mem_append, probeLooks_inside_iff hfolder hc, comesAfter_cons_iff,
      not_or, not_not, not_and]
    refine and_congr_right fun _ => ?_
    cases hprobe : r.probe c with
    | error fault => simp
    | ok found =>
      cases found with
      | some file => simp
      | none =>
        rw [← ih hrest]
        simp

/-! ## Packages without exports -/

variable {pkg : Package} {subpath : String}

/-- The paths that are looked at for a path within a package. -/
def packageLooks (r : Resolver) (pkg : Package) (subpath : String) : List Path :=
  r.looksAlong (pkg.candidates subpath)

/-- How a path that goes up nowhere leaves the package that it is looked for in. -/
inductive LeavesPackage (r : Resolver) (pkg : Package) (subpath : String) : Prop where
  /-- A slash comes first in it, and from the top of all paths it leads elsewhere. -/
  | rooted : Text.beginsWith "/" subpath = true →
      ¬ r.Stays pkg.root.normal (.ofString subpath) → LeavesPackage r pkg subpath
  /-- It names nothing, and the package's folder does not keep its name. -/
  | nameless : subpath ≠ "" → Text.beginsWith "/" subpath = false → Path.partsOf subpath = [] →
      ¬ r.KeepsName pkg.root.normal → LeavesPackage r pkg subpath
  /-- There is none, and looking along the manifest's entries gets to one that leads elsewhere. -/
  | entry : subpath = "" →
      ComesAfter (fun c => r.probe c = .ok none) (fun c => ¬ r.Stays pkg.root.normal c)
        (pkg.entryCandidates [pkg.module, pkg.main]) → LeavesPackage r pkg subpath

/-! ### The ways out -/

/-- Without a path within it, a package is left by its entries. -/
theorem leavesPackage_empty_iff :
    r.LeavesPackage pkg "" ↔
      ComesAfter (fun c => r.probe c = .ok none) (fun c => ¬ r.Stays pkg.root.normal c)
        (pkg.entryCandidates [pkg.module, pkg.main]) := by
  constructor
  · intro h
    cases h with
    | rooted hslash _ => cases hslash
    | nameless hne _ _ _ => exact absurd rfl hne
    | entry _ hleads => exact hleads
  · intro hleads
    exact .entry rfl hleads

theorem leavesPackage_rooted_iff (hslash : Text.beginsWith "/" subpath = true) :
    r.LeavesPackage pkg subpath ↔ ¬ r.Stays pkg.root.normal (.ofString subpath) := by
  constructor
  · intro h
    cases h with
    | rooted _ hleads => exact hleads
    | nameless _ hslash' _ _ => simp [hslash] at hslash'
    | entry hempty _ =>
      subst hempty
      cases hslash
  · intro hleads
    exact .rooted hslash hleads

theorem leavesPackage_nameless_iff (hne : subpath ≠ "")
    (hslash : Text.beginsWith "/" subpath = false) (hparts : Path.partsOf subpath = []) :
    r.LeavesPackage pkg subpath ↔ ¬ r.KeepsName pkg.root.normal := by
  constructor
  · intro h
    cases h with
    | rooted hslash' _ => simp [hslash] at hslash'
    | nameless _ _ _ hkeeps => exact hkeeps
    | entry hempty _ => exact absurd hempty hne
  · intro hkeeps
    exact .nameless hne hslash hparts hkeeps

/-- A path that names something and has no slash at its front leaves no package. -/
theorem not_leavesPackage_of_named (hslash : Text.beginsWith "/" subpath = false)
    (hparts : Path.partsOf subpath ≠ []) : ¬ r.LeavesPackage pkg subpath := by
  intro h
  cases h with
  | rooted hslash' _ => simp [hslash] at hslash'
  | nameless _ _ hnone _ => exact hparts hnone
  | entry hempty _ =>
    subst hempty
    exact hparts (by decide)

/-! ### What is looked at -/

theorem exists_child_of_mem_candidates (hexports : pkg.exports = none)
    (hc : c ∈ pkg.candidates subpath) : ∃ s, c = pkg.root.child s := by
  rw [Package.candidates_of_exports_none hexports] at hc
  split at hc
  · rcases List.mem_append.1 hc with hc | hc
    · obtain ⟨s, -, rfl⟩ := List.mem_map.1 hc
      exact ⟨s, rfl⟩
    · exact ⟨"index", List.mem_singleton.1 hc⟩
  · exact ⟨subpath, List.mem_singleton.1 hc⟩

/-- A path that names something and has no slash at its front leads below the package's folder. -/
theorem stays_of_named (hup : ∀ piece ∈ Text.pieces '/' subpath, piece ≠ Path.up)
    (hslash : Text.beginsWith "/" subpath = false) (hparts : Path.partsOf subpath ≠ []) :
    r.Stays pkg.root.normal (pkg.root.child subpath) := by
  left
  rw [Path.child_of_not_beginsWith hslash, Path.normal_below (Path.ne_up_of_mem_partsOf hup)]
  refine ⟨Path.isWithin_append pkg.root.normal _, ?_⟩
  intro heq
  have hlength := congrArg (fun q : Path => q.parts.length) heq
  simp only [List.length_append] at hlength
  exact hparts (List.eq_nil_of_length_eq_zero (by omega))

/-- For a path that goes up nowhere, nothing outside a package without exports is looked at, just if
the path does not leave the package. -/
theorem packageLooks_inside_iff (hexports : pkg.exports = none) (hroot : pkg.root.IsWritten)
    (habsolute : pkg.root.isAbsolute = true)
    (hup : ∀ piece ∈ Text.pieces '/' subpath, piece ≠ Path.up) :
    (∀ q ∈ r.packageLooks pkg subpath, Inside pkg.root.normal q) ↔
      ¬ r.LeavesPackage pkg subpath := by
  have hplain : ∀ c ∈ pkg.candidates subpath, c.normal.IsPlain := by
    intro c hc
    obtain ⟨s, rfl⟩ := exists_child_of_mem_candidates hexports hc
    exact (hroot.child s).isPlain_normal (Path.isAbsolute_child habsolute s)
  rw [packageLooks, looksAlong_inside_iff (hroot.isPlain_normal habsolute) hplain,
    Package.candidates_of_exports_none hexports]
  refine not_congr ?_
  by_cases hsub : subpath = ""
  · rw [if_pos hsub, hsub, leavesPackage_empty_iff]
  rw [if_neg hsub, comesAfter_singleton_iff]
  by_cases hslash : Text.beginsWith "/" subpath = true
  · rw [Path.child_of_beginsWith hslash, leavesPackage_rooted_iff hslash]
  have hslash := eq_false_of_ne_true hslash
  by_cases hparts : Path.partsOf subpath = []
  · have hchild : pkg.root.child subpath = pkg.root := by
      rw [Path.child_of_not_beginsWith hslash, hparts, List.append_nil]
    have hstays : r.Stays pkg.root.normal pkg.root ↔ r.KeepsName pkg.root.normal :=
      ⟨fun h => h.elim (fun hbelow => absurd rfl hbelow.2) And.right, fun h => .inr ⟨rfl, h⟩⟩
    rw [hchild, hstays, leavesPackage_nameless_iff hsub hslash hparts]
  · exact iff_of_false (not_not_intro (stays_of_named hup hslash hparts))
      (not_leavesPackage_of_named hslash hparts)

/-- A specifier that names a package without exports, and after it a path that goes up nowhere, is
looked for in the package.  What is found is the file among the paths that are looked at, and
nothing but what stands there has a part in the outcome.  All of them lie inside the package, unless
the path leaves it: a path that names something and has no slash at its front never does. -/
theorem looks_inside_unless_leaving (importer : Path) (specifier : String)
    (hpkg : r.packageFor? importer (splitPackageName specifier).1 = some pkg)
    (hexports : pkg.exports = none) (hroot : pkg.root.IsWritten)
    (habsolute : pkg.root.isAbsolute = true) (hsub : (splitPackageName specifier).2 = subpath)
    (hup : ∀ piece ∈ Text.pieces '/' subpath, piece ≠ Path.up) :
    r.resolveBare importer specifier = r.resolveInPackage pkg subpath ∧
    (∀ file, r.resolveInPackage pkg subpath = .ok (some file) ↔
      ∃ q ∈ r.packageLooks pkg subpath, r.tree.isFile q = true ∧ file = r.tree.resolve q) ∧
    (∀ t, (∀ q ∈ r.packageLooks pkg subpath, SeenAlike r.tree t q) →
      (r.onTree t).resolveInPackage pkg subpath = r.resolveInPackage pkg subpath) ∧
    ((∀ q ∈ r.packageLooks pkg subpath, Inside pkg.root.normal q) ↔
      ¬ r.LeavesPackage pkg subpath) ∧
    (Text.beginsWith "/" subpath = false → Path.partsOf subpath ≠ [] →
      ∀ q ∈ r.packageLooks pkg subpath, Inside pkg.root.normal q) := by
  have hinside := packageLooks_inside_iff (r := r) hexports hroot habsolute hup
  refine ⟨?_, fun file => ?_, fun t h => ?_, hinside,
    fun hslash hparts => hinside.2 (not_leavesPackage_of_named hslash hparts)⟩
  · simp only [resolveBare, hpkg, hsub]
  · rw [resolveInPackage_eq_firstFile, firstFile_eq_some_iff]
    rfl
  · rw [resolveInPackage_eq_firstFile, resolveInPackage_eq_firstFile]
    exact firstFile_eq_of_seenAlike h

/-- A package without exports that is installed for an application, beside a file of its own. -/
def kitPackage : Package where
  name := "kit"
  root := ⟨.root, ["shop", "node_modules", "kit"]⟩
  kind := .addon

def secretShop : Resolver :=
  { shopResolver with
    addons := [kitPackage]
    tree := (shopResolver.tree.write ⟨.root, ["shop", "secret.js"]⟩ (.file [])).write
      ⟨.root, ["shop", "node_modules", "kit", "package.json"]⟩ (.file []) }

/-- With a slash at its front, a path within the package leads to the application's file. -/
theorem looks_inside_unless_leaving_secret :
    secretShop.packageFor? ⟨.root, ["shop", "app.js"]⟩ "kit" = some kitPackage ∧
      kitPackage.exports = none ∧ kitPackage.root.IsWritten ∧
      kitPackage.root.isAbsolute = true ∧
      (splitPackageName "kit//shop/secret.js").2 = "/shop/secret.js" ∧
      (∀ piece ∈ Text.pieces '/' "/shop/secret.js", piece ≠ Path.up) ∧
      secretShop.resolveBare ⟨.root, ["shop", "app.js"]⟩ "kit//shop/secret.js" =
        .ok (some ⟨.root, ["shop", "secret.js"]⟩) ∧
      ¬ ∀ q ∈ secretShop.packageLooks kitPackage "/shop/secret.js",
        Inside kitPackage.root.normal q := by
  have hpkg : secretShop.packageFor? ⟨.root, ["shop", "app.js"]⟩ "kit" = some kitPackage := by
    rfl
  have hroot : kitPackage.root.IsWritten := by decide
  have hsub : (splitPackageName "kit//shop/secret.js").2 = "/shop/secret.js" := by decide
  have hup : ∀ piece ∈ Text.pieces '/' "/shop/secret.js", piece ≠ Path.up := by decide
  obtain ⟨hbare, -, -, hinside, -⟩ :=
    looks_inside_unless_leaving _ "kit//shop/secret.js" hpkg rfl hroot rfl hsub hup
  refine ⟨hpkg, rfl, hroot, rfl, hsub, hup, ?_, ?_⟩
  · rw [hbare]
    decide +kernel
  · rw [hinside, not_not, leavesPackage_rooted_iff (by decide)]
    rintro (hbelow | ⟨heq, -⟩)
    · exact absurd hbelow.1 (by decide)
    · exact absurd heq (by decide)

end Resolver

end BundleReach
