import BundleReach.Proofs.Bundle.Artifact
import BundleReach.Proofs.FileTree.Below
import BundleReach.Proofs.Path.Relative
import Mathlib.Data.String.Basic

/-!
# Listings

A listing of a folder tells the module files below it, each by its path as seen from there.  No two
files are seen alike, whatever the folder's own path is like, so none hides another.

* `pairwise_sorted`, `sorted_eq_of_perm` — sorting puts paths in order, part by part, whatever order
  they come in.
* `lists_listArtifact` — a listing has every module file once, in the order of their paths.
* `mem_keys_listArtifact_iff` — which names are listed.
* `child_name_of_mem_children` — a folder is found again by its name.
-/

namespace BundleReach

variable {t : FileTree} {folder p q : Path} {extensions rest : List String}

/-! ## The order of paths -/

namespace Path

theorem partsLE_total (as bs : List String) : partsLE as bs = true ∨ partsLE bs as = true := by
  induction as generalizing bs with
  | nil => exact .inl rfl
  | cons a as ih =>
    cases bs with
    | nil => exact .inr rfl
    | cons b bs =>
      by_cases hab : a = b
      · simpa [partsLE, hab] using ih bs
      · rw [partsLE, if_neg hab, partsLE, if_neg (Ne.symm hab), decide_eq_true_eq,
          decide_eq_true_eq]
        exact lt_or_gt_of_ne hab

theorem partsLE_trans {as bs cs : List String} (hab : partsLE as bs = true)
    (hbc : partsLE bs cs = true) : partsLE as cs = true := by
  induction as generalizing bs cs with
  | nil => rfl
  | cons a as ih =>
    cases bs with
    | nil => cases hab
    | cons b bs =>
      cases cs with
      | nil => cases hbc
      | cons c cs =>
        rw [partsLE] at hab hbc ⊢
        by_cases h : a = b
        · subst h
          rw [if_pos rfl] at hab
          by_cases hac : a = c
          · rw [if_pos hac] at hbc ⊢
            exact ih hab hbc
          · rwa [if_neg hac] at hbc ⊢
        · rw [if_neg h, decide_eq_true_eq] at hab
          have hac : a < c := by
            by_cases h' : b = c
            · exact h' ▸ hab
            · rw [if_neg h', decide_eq_true_eq] at hbc
              exact lt_trans hab hbc
          rw [if_neg (ne_of_lt hac), decide_eq_true_eq]
          exact hac

theorem partsLE_antisymm {as bs : List String} (hab : partsLE as bs = true)
    (hba : partsLE bs as = true) : as = bs := by
  induction as generalizing bs with
  | nil =>
    cases bs with
    | nil => rfl
    | cons b bs => cases hba
  | cons a as ih =>
    cases bs with
    | nil => cases hab
    | cons b bs =>
      rw [partsLE] at hab hba
      by_cases h : a = b
      · subst h
        rw [if_pos rfl] at hab hba
        rw [ih hab hba]
      · rw [if_neg h, decide_eq_true_eq] at hab
        rw [if_neg (Ne.symm h), decide_eq_true_eq] at hba
        exact absurd hab (lt_asymm hba)

/-- Sorted paths are in order, part by part. -/
theorem pairwise_sorted (ps : List Path) : (sorted ps).Pairwise fun p q => p.le q = true := by
  have htrans : ∀ p q r : Path, p.le q = true → q.le r = true → p.le r = true :=
    fun _ _ _ hpq hqr => partsLE_trans hpq hqr
  have htotal : ∀ p q : Path, (p.le q || q.le p) = true := by
    intro p q
    rw [Bool.or_eq_true]
    exact partsLE_total p.parts q.parts
  exact pairwise_inOrder htrans htotal ps

/-- Sorting forgets the order that paths of one anchor came in. -/
theorem sorted_eq_of_perm {ps qs : List Path} (anchor : Anchor) (h : ps.Perm qs)
    (hanchor : ∀ p ∈ ps, p.anchor = anchor) : sorted ps = sorted qs := by
  have hperm : (sorted ps).Perm (sorted qs) :=
    ((inOrder_perm le ps).trans h).trans (inOrder_perm le qs).symm
  refine hperm.eq_of_pairwise (fun p q hp hq hpq hqp => ?_) (pairwise_sorted ps)
    (pairwise_sorted qs)
  have hp' := hanchor p (mem_sorted.1 hp)
  have hq' := hanchor q (h.mem_iff.2 (mem_sorted.1 hq))
  have hparts : p.parts = q.parts := partsLE_antisymm hpq hqp
  cases p
  cases q
  cases hparts
  cases hp'
  cases hq'
  rfl

end Path

/-! ## Below a folder -/

namespace FileTree.WellFormed

/-- What is seen below a folder is reached from it by names. -/
theorem exists_names_of_mem_below (ht : t.WellFormed) (h : p ∈ t.below folder) :
    ∃ rest, rest ≠ [] ∧ (∀ part ∈ rest, Path.IsName part) ∧
      p = ⟨folder.anchor, folder.parts ++ rest⟩ := by
  cases hwalk : t.walk folder with
  | error fault => simp [below, hwalk] at h
  | ok place =>
    obtain ⟨rest, hne, hmem, rfl⟩ := (mem_below_iff hwalk).1 h
    exact ⟨rest, hne, fun part hpart => ht.names _ hmem part (List.mem_append_right _ hpart), rfl⟩

/-- Nothing is seen twice below a folder. -/
theorem nodup_below (ht : t.WellFormed) (folder : Path) : (t.below folder).Nodup := by
  rw [below]
  split
  · rename_i place _
    let path? (parts : List String) : Option Path :=
      if place.isPrefixOf parts ∧ parts ≠ place then
        some ⟨folder.anchor, folder.parts ++ parts.drop place.length⟩
      else none
    have hkeys : t.entries.filterMap (fun e => path? e.1) =
        (Table.keys t.entries).filterMap path? := by
      rw [Table.keys, List.filterMap_map]
      rfl
    have hinj : ∀ k k' p, p ∈ path? k → p ∈ path? k' → k = k' := by
      intro k k' p hk hk'
      simp only [path?, Option.mem_def, Option.ite_none_right_eq_some,
        List.isPrefixOf_iff_prefix, Option.some.injEq] at hk hk'
      obtain ⟨⟨⟨rest, rfl⟩, -⟩, rfl⟩ := hk
      obtain ⟨⟨⟨rest', rfl⟩, -⟩, heq⟩ := hk'
      have hparts := List.append_cancel_left (Path.mk.inj heq).2
      rw [List.drop_left, List.drop_left] at hparts
      rw [hparts]
    exact hkeys ▸ ht.once.filterMap hinj
  · exact List.nodup_nil

/-- No two of the paths below a folder are seen alike from it. -/
theorem relativeTo_injOn_below (ht : t.WellFormed) (hp : p ∈ t.below folder)
    (hq : q ∈ t.below folder) (h : folder.relativeTo p = folder.relativeTo q) : p = q := by
  obtain ⟨rest, hne, hnames, rfl⟩ := ht.exists_names_of_mem_below hp
  obtain ⟨rest', hne', hnames', rfl⟩ := ht.exists_names_of_mem_below hq
  rw [Path.relativeTo_below hne fun part hpart => (hnames part hpart).ne_up,
    Path.relativeTo_below hne' fun part hpart => (hnames' part hpart).ne_up,
    String.append_right_inj] at h
  rw [← Path.partsOf_intercalate fun part hpart => (hnames part hpart).toIsPart, h,
    Path.partsOf_intercalate fun part hpart => (hnames' part hpart).toIsPart]

/-- What is in a folder is reached from it by one name. -/
theorem exists_name_of_mem_children (ht : t.WellFormed) (h : p ∈ t.children folder) :
    ∃ name, Path.IsName name ∧ p = ⟨folder.anchor, folder.parts ++ [name]⟩ := by
  rw [children] at h
  split at h
  · rename_i place _
    obtain ⟨name, hname, rfl⟩ := List.mem_map.1 h
    obtain ⟨e, he, hnext⟩ := List.mem_filterMap.1 hname
    refine ⟨name, ht.names e.1 (List.mem_map.2 ⟨e, he, rfl⟩) name ?_, rfl⟩
    rw [nextPart?_eq_some_iff.1 hnext]
    exact List.mem_append_right _ (List.mem_singleton.2 rfl)
  · cases h

/-- A folder's own name leads to it from the folder above. -/
theorem child_name_of_mem_children (ht : t.WellFormed) (h : p ∈ t.children folder) :
    folder.child p.name = p := by
  obtain ⟨name, hname, rfl⟩ := ht.exists_name_of_mem_children h
  rw [Path.name, List.getLastD_concat, Path.child_of_isPart hname.toIsPart]

end FileTree.WellFormed

/-! ## Listings of folders -/

/-- A table lists the module files below a folder: each of them once, under its path as seen from
the folder, in the order of the paths. -/
def Lists (t : FileTree) (folder : Path) (extensions : List String) (listing : Table String Path) :
    Prop :=
  ∃ files : List Path, listing = files.map (fun p => (folder.relativeTo p, p)) ∧
    (Table.keys listing).Nodup ∧ files.Pairwise (fun p q => p.le q = true) ∧
      ∀ p, p ∈ files ↔
        p ∈ t.below folder ∧ t.isFile p = true ∧ isModuleName extensions p.name = true

/-- A listing has every module file below its folder. -/
theorem lists_listArtifact (ht : t.WellFormed) (folder : Path) (extensions : List String) :
    Lists t folder extensions (listArtifact t folder extensions) := by
  let files := (Path.sorted (t.below folder)).filter fun p =>
    t.isFile p && isModuleName extensions p.name
  have hmem : ∀ p, p ∈ files ↔
      p ∈ t.below folder ∧ t.isFile p = true ∧ isModuleName extensions p.name = true := by
    intro p
    rw [List.mem_filter, mem_sorted, Bool.and_eq_true]
  have hfiles : files.Nodup := by
    refine List.Nodup.filter _ ?_
    exact ((inOrder_perm _ _).nodup_iff).2 (ht.nodup_below folder)
  have hids : (files.map folder.relativeTo).Nodup := hfiles.map_on fun p hp q hq heq =>
    ht.relativeTo_injOn_below ((hmem p).1 hp).1 ((hmem q).1 hq).1 heq
  have hkeys : (Table.keys (files.map fun p => (folder.relativeTo p, p))).Nodup := by
    rwa [Table.keys, List.map_map]
  have hlisting : listArtifact t folder extensions = files.map fun p => (folder.relativeTo p, p) :=
    Table.ofEntries_of_nodup hkeys
  exact ⟨files, hlisting, hlisting ▸ hkeys, (Path.pairwise_sorted _).filter _, hmem⟩

/-- What is found in a listing is a file. -/
theorem isFile_of_find?_listArtifact (ht : t.WellFormed) {id : String}
    (h : Table.find? id (listArtifact t folder extensions) = some p) : t.isFile p = true := by
  obtain ⟨files, hlisting, -, -, hmem⟩ := lists_listArtifact ht folder extensions
  have hentry := Table.mem_of_find? h
  rw [hlisting] at hentry
  obtain ⟨q, hq, heq⟩ := List.mem_map.1 hentry
  obtain ⟨-, rfl⟩ := Prod.mk.inj heq
  exact ((hmem q).1 hq).2.1

/-- What names lead to below a folder is listed if it is seen there and is a module file. -/
theorem mem_keys_listArtifact_iff (ht : t.WellFormed) (hne : rest ≠ [])
    (hnames : ∀ part ∈ rest, Path.IsName part) :
    "./" ++ "/".intercalate rest ∈ Table.keys (listArtifact t folder extensions) ↔
      ⟨folder.anchor, folder.parts ++ rest⟩ ∈ t.below folder ∧
        t.isFile ⟨folder.anchor, folder.parts ++ rest⟩ = true ∧
        isModuleName extensions (⟨folder.anchor, folder.parts ++ rest⟩ : Path).name = true := by
  have hid : folder.relativeTo ⟨folder.anchor, folder.parts ++ rest⟩ =
      "./" ++ "/".intercalate rest :=
    Path.relativeTo_below hne fun part hpart => (hnames part hpart).ne_up
  rw [mem_keys_listArtifact]
  constructor
  · rintro ⟨p, hp, hfile, hmodule, hsame⟩
    obtain ⟨rest', hne', hnames', rfl⟩ := ht.exists_names_of_mem_below hp
    rw [Path.relativeTo_below hne' fun part hpart => (hnames' part hpart).ne_up,
      String.append_right_inj] at hsame
    have hrest : rest' = rest := by
      rw [← Path.partsOf_intercalate fun part hpart => (hnames' part hpart).toIsPart, hsame,
        Path.partsOf_intercalate fun part hpart => (hnames part hpart).toIsPart]
    subst hrest
    exact ⟨hp, hfile, hmodule⟩
  · rintro ⟨hp, hfile, hmodule⟩
    exact ⟨_, hp, hfile, hmodule, hid⟩

/-! ## Folders of bundles -/

/-- An orphan stands for a folder of the bundles folder that has no bundle's name. -/
theorem exists_folder_of_orphan {bundles : List Bundle} (h : t.isFolder folder = true) {b : Bundle}
    (hb : b ∈ (observeArtifacts t folder extensions bundles).2.getD []) :
    ∃ d ∈ t.children folder, t.isFolder d = true ∧ d.name ∉ bundles.map Bundle.name ∧
      b = orphanBundle t extensions d := by
  rw [observeArtifacts_of_isFolder bundles h] at hb
  obtain ⟨d, hd, rfl⟩ := List.mem_map.1 hb
  obtain ⟨hchild, hkept⟩ := List.mem_filter.1 (mem_sorted.1 hd)
  obtain ⟨hfolder, hfree⟩ := Bool.and_eq_true_iff.1 hkept
  rw [Bool.not_eq_true', ← Bool.not_eq_true, List.contains_iff_mem] at hfree
  exact ⟨d, hchild, hfolder, hfree, rfl⟩

/-- Where there is a bundles folder, every bundle, orphans included, ships what the folder of its
name holds. -/
theorem physical_observeArtifacts (ht : t.WellFormed) {bundles : List Bundle}
    (h : t.isFolder folder = true) {b : Bundle}
    (hb : b ∈ (observeArtifacts t folder extensions bundles).1 ++
      (observeArtifacts t folder extensions bundles).2.getD []) :
    b.physical = some (if t.isFolder (folder.child b.name)
      then listArtifact t (folder.child b.name) extensions else []) := by
  rcases List.mem_append.1 hb with hb | hb
  · exact physical_of_mem_observeArtifacts h hb
  · obtain ⟨d, hd, hfolder, -, rfl⟩ := exists_folder_of_orphan h hb
    have hchild : folder.child (orphanBundle t extensions d).name = d :=
      ht.child_name_of_mem_children hd
    rw [hchild, if_pos hfolder]
    rfl

/-- A folder of the bundles folder has a bundle of its name. -/
theorem exists_bundle_of_folder (extensions : List String) (bundles : List Bundle)
    (h : t.isFolder folder = true) {d : Path} (hd : d ∈ t.children folder)
    (hfolder : t.isFolder d = true) :
    ∃ b ∈ (observeArtifacts t folder extensions bundles).1 ++
      (observeArtifacts t folder extensions bundles).2.getD [], b.name = d.name := by
  by_cases hname : d.name ∈ bundles.map Bundle.name
  · obtain ⟨b, hb, hb'⟩ := List.mem_map.1 hname
    have hmem : b.observe t folder extensions ∈
        (observeArtifacts t folder extensions bundles).1 := by
      rw [observeArtifacts_of_isFolder bundles h]
      exact List.mem_map.2 ⟨b, hb, rfl⟩
    exact ⟨_, List.mem_append_left _ hmem, hb'⟩
  · have hmem := orphan_mem_observeArtifacts extensions h hd hfolder hname
    exact ⟨_, List.mem_append_right _ hmem, rfl⟩

/-- A folder that a name leads to from a folder stands in it. -/
theorem mem_children_of_isFolder {name : String} (hname : Path.IsName name)
    (h : t.isFolder (folder.child name) = true) : folder.child name ∈ t.children folder := by
  rw [Path.child_of_isPart hname.toIsPart] at h ⊢
  rw [FileTree.isFolder, beq_iff_eq] at h
  obtain ⟨goal, hgoal, -⟩ := FileTree.exists_walk_of_entry? h
  obtain ⟨place, hplace, left, hleft⟩ := FileTree.walkThrough_append _ hgoal
  have hthere : ∃ e, t.at? (place ++ [name]) = some e := by
    cases left <;>
    · obtain ⟨e, he, -⟩ := FileTree.of_walkFrom_cons hname.ne_up hleft
      exact ⟨e, he⟩
  obtain ⟨e, he⟩ := hthere
  obtain ⟨entry, hentry, hkey⟩ := List.mem_map.1 (FileTree.mem_keys_of_at? he)
  have hnames : name ∈ t.names place :=
    List.mem_filterMap.2 ⟨entry, hentry, FileTree.WellFormed.nextPart?_eq_some_iff.2 hkey⟩
  have hwalk : t.walk folder = .ok place := hplace
  rw [FileTree.children, hwalk]
  exact List.mem_map.2 ⟨name, hnames, rfl⟩

end BundleReach
