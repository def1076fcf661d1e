import BundleReach.Package.Discovery
import BundleReach.Proofs.FileTree.WellFormed

/-!
# Looking a package up

A name is looked up in a folder and in those above it, nearest first and not above the root.  Which
folder answers is said without any list of them: `findPackageRoot_eq_some_iff`.

* `Path.isWithin_total` — paths that hold one path lie within each other.
* `mem_searchFolders_iff` — the folders that are searched.
* `copyAt?` — the copy of a package that is installed in a folder.
-/

namespace BundleReach

/-! ## Paths within each other -/

namespace Path

variable {p q r : Path}

theorem isWithin_iff_parts : p.isWithin q = true ↔ p.anchor = q.anchor ∧ q.parts <+: p.parts := by
  rw [isWithin, Bool.and_eq_true, beq_iff_eq, List.isPrefixOf_iff_prefix]

theorem isWithin_trans (hpq : p.isWithin q = true) (hqr : q.isWithin r = true) :
    p.isWithin r = true := by
  rw [isWithin_iff_parts] at *
  exact ⟨hpq.1.trans hqr.1, hqr.2.trans hpq.2⟩

/-- A path within another one that is no deeper is that one. -/
theorem eq_of_isWithin_of_length_le (h : p.isWithin q = true)
    (hlen : p.parts.length ≤ q.parts.length) : p = q := by
  obtain ⟨hanchor, hpre⟩ := isWithin_iff_parts.1 h
  have hparts := hpre.eq_of_length_le hlen
  cases p
  cases q
  cases hanchor
  cases hparts
  rfl

theorem isWithin_antisymm (hpq : p.isWithin q = true) (hqp : q.isWithin p = true) : p = q :=
  eq_of_isWithin_of_length_le hpq (isWithin_iff_parts.1 hqp).2.length_le

/-- Of two paths that hold a path, one lies within the other. -/
theorem isWithin_total (hq : p.isWithin q = true) (hr : p.isWithin r = true) :
    q.isWithin r = true ∨ r.isWithin q = true := by
  rw [isWithin_iff_parts] at hq hr
  have hanchor : q.anchor = r.anchor := hq.1.symm.trans hr.1
  rcases List.prefix_or_prefix_of_prefix hq.2 hr.2 with h | h
  · exact .inr (isWithin_iff_parts.2 ⟨hanchor.symm, h⟩)
  · exact .inl (isWithin_iff_parts.2 ⟨hanchor, h⟩)

theorem isWithin_parent (p : Path) : p.isWithin p.parent = true :=
  isWithin_iff_parts.2 ⟨rfl, List.dropLast_prefix p.parts⟩

/-- A path lies within another one and is not that one itself. -/
def IsBelow (p q : Path) : Prop := p.isWithin q = true ∧ p ≠ q

theorem IsBelow.asymm (h : p.IsBelow q) : ¬ q.IsBelow p :=
  fun h' => h.2 (isWithin_antisymm h.1 h'.1)

theorem IsBelow.trans (hpq : p.IsBelow q) (hqr : q.IsBelow r) : p.IsBelow r := by
  refine ⟨isWithin_trans hpq.1 hqr.1, ?_⟩
  rintro rfl
  exact hpq.asymm hqr

/-- The path above one that lies below another is within that one still. -/
theorem IsBelow.isWithin_parent (h : p.IsBelow q) : p.parent.isWithin q = true := by
  obtain ⟨hanchor, rest, hparts⟩ := isWithin_iff.1 h.1
  have hne : rest ≠ [] := by
    rintro rfl
    refine h.2 (eq_of_isWithin_of_length_le h.1 ?_)
    rw [hparts, List.append_nil]
  refine isWithin_iff.2 ⟨hanchor, rest.dropLast, ?_⟩
  rw [parent, hparts, List.dropLast_append_of_ne_nil hne]

theorem isWithin_iff_eq_or_isBelow : p.isWithin q = true ↔ p = q ∨ p.IsBelow q := by
  constructor
  · intro h
    by_cases heq : p = q
    · exact .inl heq
    · exact .inr ⟨h, heq⟩
  · rintro (rfl | h)
    · exact isWithin_self p
    · exact h.1

/-! ## Paths above a path -/

/-- So many of the paths above a path are those that are no further above it. -/
theorem mem_upwards_iff {n : Nat} :
    q ∈ upwards n p ↔ p.isWithin q = true ∧ p.parts.length ≤ q.parts.length + n := by
  induction n generalizing p with
  | zero =>
    rw [upwards, List.mem_singleton]
    constructor
    · rintro rfl
      exact ⟨isWithin_self q, Nat.le_refl _⟩
    · rintro ⟨hwithin, hlen⟩
      exact (eq_of_isWithin_of_length_le hwithin hlen).symm
  | succ n ih =>
    have hlen : p.parent.parts.length = p.parts.length - 1 := List.length_dropLast
    rw [upwards, List.mem_cons, ih, hlen]
    constructor
    · rintro (rfl | ⟨hwithin, hle⟩)
      · exact ⟨isWithin_self q, by omega⟩
      · exact ⟨isWithin_trans (isWithin_parent p) hwithin, by omega⟩
    · rintro ⟨hwithin, hle⟩
      exact (isWithin_iff_eq_or_isBelow.1 hwithin).imp Eq.symm fun hbelow =>
        ⟨hbelow.isWithin_parent, by omega⟩

/-- The paths above a path come nearest first, up to the top at most. -/
theorem pairwise_upwards {n : Nat} (h : n ≤ p.parts.length) : (upwards n p).Pairwise IsBelow := by
  induction n generalizing p with
  | zero => exact List.pairwise_singleton _ p
  | succ n ih =>
    have hlen : p.parent.parts.length = p.parts.length - 1 := List.length_dropLast
    rw [upwards, List.pairwise_cons]
    refine ⟨fun q hq => ?_, ih (by omega)⟩
    have hwithin := (mem_upwards_iff.1 hq).1
    refine ⟨isWithin_trans (isWithin_parent p) hwithin, ?_⟩
    rintro rfl
    have := (isWithin_iff_parts.1 hwithin).2.length_le
    omega

end Path

/-! ## The folders that are searched -/

variable {t : FileTree} {root start folder place : Path} {name : String}

theorem mem_searchFolders_iff :
    folder ∈ searchFolders root start ↔
      folder = start ∨ start.isWithin folder = true ∧ folder.isWithin root = true := by
  rw [searchFolders]
  by_cases hstart : start.isWithin root = true
  · rw [if_pos hstart, Path.mem_upwards_iff]
    have hlen := (Path.isWithin_iff_parts.1 hstart).2.length_le
    constructor
    · rintro ⟨hwithin, hle⟩
      refine .inr ⟨hwithin, (Path.isWithin_total hwithin hstart).elim id fun hroot => ?_⟩
      -- A folder above the root that is as deep as the root is the root.
      obtain rfl := Path.eq_of_isWithin_of_length_le hroot (by omega)
      exact Path.isWithin_self root
    · rintro (rfl | ⟨hwithin, hroot⟩)
      · exact ⟨Path.isWithin_self folder, by omega⟩
      · have := (Path.isWithin_iff_parts.1 hroot).2.length_le
        exact ⟨hwithin, by omega⟩
  · rw [if_neg hstart, List.mem_singleton]
    refine ⟨.inl, fun h => h.elim id fun ⟨hwithin, hroot⟩ => ?_⟩
    exact absurd (Path.isWithin_trans hwithin hroot) hstart

theorem pairwise_searchFolders (root start : Path) :
    (searchFolders root start).Pairwise Path.IsBelow := by
  rw [searchFolders]
  split
  · exact Path.pairwise_upwards (Nat.sub_le _ _)
  · exact List.pairwise_singleton _ start

/-- A folder is searched from another one: it is that folder, or above it and not above the root.
Packages are not installed in a package folder itself. -/
structure Searched (root start folder : Path) : Prop where
  notPackageFolder : folder.name ≠ packageFolder
  reached : folder = start ∨ start.isWithin folder = true ∧ folder.isWithin root = true

theorem mem_filter_searchFolders_iff :
    folder ∈ (searchFolders root start).filter (·.name != packageFolder) ↔
      Searched root start folder := by
  rw [List.mem_filter, mem_searchFolders_iff, bne_iff_ne]
  exact ⟨fun h => ⟨h.2, h.1⟩, fun h => ⟨h.reached, h.notPackageFolder⟩⟩

/-- What holds a folder that is searched holds the folder that the search starts from. -/
theorem Searched.isWithin (h : Searched root start folder) : start.isWithin folder = true := by
  rcases h.reached with rfl | ⟨hwithin, -⟩
  · exact Path.isWithin_self folder
  · exact hwithin

/-! ## Copies of packages -/

/-- The folder of the copy of a package that is installed in a folder, links taken out. -/
def copyAt? (t : FileTree) (name : String) (folder : Path) : Option Path :=
  if t.isFile ((installPlace folder name).child manifestName) then
    some (t.resolve (installPlace folder name))
  else none

theorem copyAt?_eq_none_iff :
    copyAt? t name folder = none ↔
      t.isFile ((installPlace folder name).child manifestName) = false := by
  rw [copyAt?]
  split
  · rename_i h
    simp [h]
  · rename_i h
    simpa using h

/-- What is looked up is the first copy on the way up. -/
theorem findPackageRoot_eq_findSome? :
    findPackageRoot t root start name =
      ((searchFolders root start).filter (·.name != packageFolder)).findSome? (copyAt? t name) := by
  simp only [findPackageRoot]
  generalize (searchFolders root start).filter (·.name != packageFolder) = folders
  induction folders with
  | nil => rfl
  | cons first rest ih =>
    rw [List.map_cons, List.find?_cons, List.findSome?_cons, copyAt?]
    cases t.isFile ((installPlace first name).child manifestName) with
    | true => rfl
    | false => exact ih

/-- Of a list in an order, the first item with an answer is the least one that has any. -/
theorem findSome?_eq_some_iff_of_pairwise {α β : Type} {before : α → α → Prop}
    (hasymm : ∀ {a b}, before a b → ¬ before b a) {as : List α} (h : as.Pairwise before)
    {answer? : α → Option β} {b : β} :
    as.findSome? answer? = some b ↔
      ∃ a ∈ as, answer? a = some b ∧ ∀ a' ∈ as, before a' a → answer? a' = none := by
  rw [List.findSome?_eq_some_iff]
  constructor
  · rintro ⟨early, a, late, rfl, ha, hearly⟩
    refine ⟨a, List.mem_append_cons_self, ha, fun a' ha' hbefore => ?_⟩
    rw [List.pairwise_append, List.pairwise_cons] at h
    rcases List.mem_append.1 ha' with hmem | hmem
    · exact hearly a' hmem
    rcases List.mem_cons.1 hmem with rfl | hmem
    · exact absurd hbefore (hasymm hbefore)
    · exact absurd hbefore (hasymm (h.2.1.1 a' hmem))
  · rintro ⟨a, ha, hanswer, hnone⟩
    obtain ⟨early, late, rfl⟩ := List.append_of_mem ha
    rw [List.pairwise_append] at h
    refine ⟨early, a, late, rfl, hanswer, fun a' ha' => hnone a' (List.mem_append_left _ ha') ?_⟩
    exact h.2.2 a' ha' a List.mem_cons_self

/-- A name means the copy in a folder that is searched if no folder below that one that is searched
too holds any. -/
theorem findPackageRoot_eq_some_iff :
    findPackageRoot t root start name = some place ↔
      ∃ folder, Searched root start folder ∧ copyAt? t name folder = some place ∧
        ∀ nearer, Searched root start nearer → nearer.IsBelow folder →
          copyAt? t name nearer = none := by
  rw [findPackageRoot_eq_findSome?, findSome?_eq_some_iff_of_pairwise Path.IsBelow.asymm
    ((pairwise_searchFolders root start).filter _)]
  simp only [mem_filter_searchFolders_iff]

/-! ## Looking up from below -/

section

variable {above : Path} (hbelow : folder.isWithin above = true)
  (hclear : ∀ between, folder.isWithin between = true → between.IsBelow above →
    copyAt? t name between = none)

include hbelow hclear

/-- Within the root, a name means what it means further up, if there is no copy on the way up. -/
theorem findPackageRoot_of_isWithin_root (hroot : above.isWithin root = true)
    (h : findPackageRoot t root above name = some place) :
    findPackageRoot t root folder name = some place := by
  obtain ⟨f, hf, hcopy, hnearest⟩ := findPackageRoot_eq_some_iff.1 h
  have hfroot : f.isWithin root = true := by
    rcases hf.reached with rfl | ⟨-, hfroot⟩
    · exact hroot
    · exact hfroot
  have hsearched : Searched root folder f :=
    ⟨hf.notPackageFolder, .inr ⟨Path.isWithin_trans hbelow hf.isWithin, hfroot⟩⟩
  refine findPackageRoot_eq_some_iff.2 ⟨f, hsearched, hcopy, fun nearer hn hnf => ?_⟩
  -- A nearer folder is on the way up to the other one, or is searched from there as well.
  rcases Path.isWithin_total hn.isWithin hbelow with hin | hout
  · rcases Path.isWithin_iff_eq_or_isBelow.1 hin with rfl | hin
    · exact hnearest nearer ⟨hn.notPackageFolder, .inl rfl⟩ hnf
    · exact hclear nearer hn.isWithin hin
  · exact hnearest nearer
      ⟨hn.notPackageFolder, .inr ⟨hout, Path.isWithin_trans hnf.1 hfroot⟩⟩ hnf

/-- Below a folder that is not within the root nothing is found but what is installed below it. -/
theorem findPackageRoot_of_not_isWithin_root (hroot : above.isWithin root = false)
    (hne : folder ≠ above) : findPackageRoot t root folder name = none := by
  rw [Option.eq_none_iff_forall_ne_some]
  intro place h
  obtain ⟨f, hf, hcopy, -⟩ := findPackageRoot_eq_some_iff.1 h
  suffices hfbelow : f.IsBelow above by
    rw [hclear f hf.isWithin hfbelow] at hcopy
    cases hcopy
  rcases hf.reached with rfl | ⟨hwithin, hfroot⟩
  · exact ⟨hbelow, hne⟩
  · have hnot : ¬ above.isWithin root = true := by simp [hroot]
    -- The root holds what the search starts from, so it lies within the folder.
    have hin := Path.isWithin_trans hwithin hfroot
    have habove := (Path.isWithin_total hbelow hin).resolve_left hnot
    refine ⟨Path.isWithin_trans hfroot habove, ?_⟩
    rintro rfl
    exact hnot hfroot

/-- What a name means further up it means below as well, or it means nothing there. -/
theorem findPackageRoot_cases (h : findPackageRoot t root above name = some place) :
    ((above.isWithin root = true ∨ folder = above) ∧
      findPackageRoot t root folder name = some place) ∨
    ((above.isWithin root = false ∧ folder ≠ above) ∧
      findPackageRoot t root folder name = none) := by
  by_cases hsame : folder = above
  · subst hsame
    exact .inl ⟨.inr rfl, h⟩
  cases hroot : above.isWithin root with
  | true => exact .inl ⟨.inl rfl, findPackageRoot_of_isWithin_root hbelow hclear hroot h⟩
  | false =>
    exact .inr ⟨⟨rfl, hsame⟩, findPackageRoot_of_not_isWithin_root hbelow hclear hroot hsame⟩

end

end BundleReach
