import BundleReach.Proofs.Package.Lookup
import BundleReach.Proofs.Resolution.Faults

/-!
# The package that owns a path

Of the packages whose folders hold a path, the one whose folder is deepest owns it.  The folders
that hold one path lie within each other, so there is one innermost package at most, wherever in the
list of packages it stands.

* `Path.IsAncestor`, `Path.Holds` — the folders above a path, and those that hold it.
* `Innermost` — a package that holds a path, with all others that hold it further out.
* `owner_innermost` — the owner of a path is its innermost package, if any package holds it.
-/

namespace BundleReach

/-! ## Folders that hold a path -/

namespace Path

variable {p q root : Path}

/-- A path is met on the way up from another one. -/
inductive IsAncestor (root : Path) : Path → Prop
  | parent {p : Path} : p.parts ≠ [] → p.parent = root → IsAncestor root p
  | further {p : Path} : p.parts ≠ [] → IsAncestor root p.parent → IsAncestor root p

/-- A path is another one or is met on the way up from it. -/
def Holds (root p : Path) : Prop := p = root ∨ root.IsAncestor p

theorem isBelow_parent (h : p.parts ≠ []) : p.IsBelow p.parent := by
  refine ⟨isWithin_parent p, fun heq => ?_⟩
  have hlength : p.parts.length = p.parts.length - 1 := by
    conv_lhs => rw [heq]
    exact List.length_dropLast
  have hpos := List.length_pos_iff.2 h
  omega

theorem IsBelow.parts_ne_nil (h : p.IsBelow root) : p.parts ≠ [] := by
  intro hnil
  refine h.2 (eq_of_isWithin_of_length_le h.1 ?_)
  rw [hnil]
  exact Nat.zero_le _

/-- The ancestors of a path are the paths that it lies below. -/
theorem isAncestor_iff : root.IsAncestor p ↔ p.IsBelow root := by
  constructor
  · intro h
    induction h with
    | parent hp hparent => exact hparent ▸ isBelow_parent hp
    | further hp _ ih => exact (isBelow_parent hp).trans ih
  · -- the way up is as long as the path has parts
    intro h
    induction hlength : p.parts.length generalizing p with
    | zero => exact absurd (List.length_eq_zero_iff.1 hlength) h.parts_ne_nil
    | succ n ih =>
      rcases isWithin_iff_eq_or_isBelow.1 h.isWithin_parent with heq | hbelow
      · exact .parent h.parts_ne_nil heq
      · refine .further h.parts_ne_nil (ih hbelow ?_)
        rw [parent, List.length_dropLast, hlength, Nat.add_sub_cancel]

theorem holds_iff : root.Holds p ↔ p.isWithin root = true := by
  rw [Holds, isAncestor_iff, isWithin_iff_eq_or_isBelow]

end Path

/-! ## The innermost package -/

/-- A package holds a path, and the folders of all other packages that hold it are further up. -/
structure Innermost (packages : List Package) (p : Path) (pkg : Package) : Prop where
  member : pkg ∈ packages
  holds : pkg.root.Holds p
  innermost : ∀ other ∈ packages, other ≠ pkg → other.root.Holds p →
    other.root.IsAncestor pkg.root

variable {packages : List Package} {p : Path} {pkg other : Package}

theorem Innermost.of_subset {packages' : List Package} (h : Innermost packages p pkg)
    (hpkg : pkg ∈ packages') (hsub : packages' ⊆ packages) : Innermost packages' p pkg :=
  ⟨hpkg, h.holds, fun other hother => h.innermost other (hsub hother)⟩

/-- A path has no two innermost packages: each would be further out than the other one. -/
theorem Innermost.unique (h : Innermost packages p pkg) (h' : Innermost packages p other) :
    other = pkg := by
  by_contra hne
  have hout := Path.isAncestor_iff.1 (h.innermost other h'.member hne h'.holds)
  have hin := Path.isAncestor_iff.1 (h'.innermost pkg h.member (Ne.symm hne) h.holds)
  exact hout.asymm hin

namespace Resolver

variable {r : Resolver}

/-- The deepest of some packages is no less deep than any of them. -/
theorem length_le_foldl_deeper (first : Package) (rest : List Package)
    (hpkg : pkg ∈ first :: rest) :
    pkg.root.parts.length ≤ (rest.foldl deeper first).root.parts.length := by
  induction rest generalizing first pkg with
  | nil => rw [List.mem_singleton.1 hpkg, List.foldl_nil]
  | cons next rest ih =>
    rw [List.foldl_cons]
    have hdeeper := ih (deeper first next) List.mem_cons_self
    have hfirst : first.root.parts.length ≤ (deeper first next).root.parts.length := by
      rw [deeper]
      split <;> omega
    have hnext : next.root.parts.length ≤ (deeper first next).root.parts.length := by
      rw [deeper]
      split <;> omega
    rcases List.mem_cons.1 hpkg with rfl | hpkg
    · exact hfirst.trans hdeeper
    rcases List.mem_cons.1 hpkg with rfl | hpkg
    · exact hnext.trans hdeeper
    · exact ih (deeper first next) (List.mem_cons_of_mem _ hpkg)

theorem owner?_eq_none_iff :
    r.owner? p = none ↔ ∀ pkg ∈ r.packages, ¬ pkg.root.Holds p := by
  simp only [Path.holds_iff]
  rw [← List.filter_eq_nil_iff (p := fun pkg : Package => p.isWithin pkg.root), owner?]
  split
  · rename_i hfilter
    exact ⟨fun _ => hfilter, fun _ => rfl⟩
  · rename_i first rest hfilter
    rw [hfilter]
    exact ⟨fun h => (by cases h), fun h => (by cases h)⟩

/-- The owner of a path is an innermost package: of two folders that hold a path one is within the
other, and the deeper one is the one further in. -/
theorem innermost_of_owner? (hroots : (r.packages.map Package.root).Nodup)
    (h : r.owner? p = some pkg) : Innermost r.packages p pkg := by
  rw [owner?] at h
  split at h
  · cases h
  · rename_i first rest hfilter
    cases h
    have hholding : ∀ pkg, pkg ∈ first :: rest ↔ pkg ∈ r.packages ∧ p.isWithin pkg.root = true := by
      intro pkg
      rw [← hfilter, List.mem_filter]
    obtain ⟨hmember, hwithin⟩ := (hholding _).1 (foldl_deeper_mem first rest)
    refine ⟨hmember, Path.holds_iff.2 hwithin, fun other hother hne hholds => ?_⟩
    rw [Path.holds_iff] at hholds
    have hdepth := length_le_foldl_deeper first rest ((hholding other).2 ⟨hother, hholds⟩)
    have hroot : other.root ≠ (rest.foldl deeper first).root := fun heq =>
      hne (List.inj_on_of_nodup_map hroots hother hmember heq)
    rw [Path.isAncestor_iff]
    rcases Path.isWithin_total hwithin hholds with hin | hout
    · exact ⟨hin, Ne.symm hroot⟩
    · exact absurd (Path.eq_of_isWithin_of_length_le hout hdepth) hroot

theorem owner?_eq_some_iff (hroots : (r.packages.map Package.root).Nodup) :
    r.owner? p = some pkg ↔ Innermost r.packages p pkg := by
  refine ⟨innermost_of_owner? hroots, fun h => ?_⟩
  cases howner : r.owner? p with
  | none => exact absurd h.holds (owner?_eq_none_iff.1 howner pkg h.member)
  | some own => rw [h.unique (innermost_of_owner? hroots howner)]

/-- Where packages have distinct folders, a path has no owner if none of them holds it, and else the
one that is innermost; in which order the packages stand makes no difference. -/
theorem owner_innermost (r : Resolver) (p : Path) (hroots : (r.packages.map Package.root).Nodup) :
    (r.owner? p = none ↔ ∀ pkg ∈ r.packages, ¬ pkg.root.Holds p) ∧
    (∀ pkg, r.owner? p = some pkg ↔ Innermost r.packages p pkg) ∧
    ((∃ pkg ∈ r.packages, pkg.root.Holds p) → ∃! pkg, Innermost r.packages p pkg) ∧
    ∀ r' : Resolver, r'.packages.Perm r.packages → r'.owner? p = r.owner? p := by
  refine ⟨owner?_eq_none_iff, fun pkg => owner?_eq_some_iff hroots, ?_, fun r' hperm => ?_⟩
  · rintro ⟨pkg, hpkg, hholds⟩
    cases howner : r.owner? p with
    | none => exact absurd hholds (owner?_eq_none_iff.1 howner pkg hpkg)
    | some own =>
      have hown := innermost_of_owner? hroots howner
      exact ⟨own, hown, fun other hother => hown.unique hother⟩
  · have hroots' : (r'.packages.map Package.root).Nodup := (hperm.map _).nodup_iff.2 hroots
    refine Option.ext fun pkg => ?_
    rw [owner?_eq_some_iff hroots, owner?_eq_some_iff hroots']
    exact ⟨fun h => h.of_subset (hperm.mem_iff.1 h.member) hperm.symm.subset,
      fun h => h.of_subset (hperm.mem_iff.2 h.member) hperm.subset⟩

/-- A package that is installed within another one. -/
def innerPackage : Package :=
  { name := "inner", root := ⟨.root, ["shop", "outer", "inner"]⟩, kind := .addon }

/-- An application with a package and one that is installed within that, located before it. -/
def nestedResolver : Resolver where
  tree := .bare
  app := { name := "shop", root := ⟨.root, ["shop"]⟩, kind := .app }
  addons := [innerPackage, { name := "outer", root := ⟨.root, ["shop", "outer"]⟩, kind := .addon }]
  settings := .initial 4

theorem owner_innermost_nested :
    (nestedResolver.packages.map Package.root).Nodup ∧
      nestedResolver.owner? ⟨.root, ["shop", "outer", "inner", "index.js"]⟩ = some innerPackage ∧
      Innermost nestedResolver.packages ⟨.root, ["shop", "outer", "inner", "index.js"]⟩
        innerPackage := by
  have hroots : (nestedResolver.packages.map Package.root).Nodup := by decide
  have howner : nestedResolver.owner? ⟨.root, ["shop", "outer", "inner", "index.js"]⟩ =
      some innerPackage := rfl
  exact ⟨hroots, howner, ((owner_innermost nestedResolver _ hroots).2.1 innerPackage).1 howner⟩

end Resolver

end BundleReach
