import BundleReach.Proofs.Bundle.Listing
import BundleReach.Proofs.FileTree.Alike

/-!
# Bundles in trees that are alike

What bundles ship is told by which files stand below the bundles folder, and not by what is in them.
So in trees that are alike, the same is seen of them: entries may come in another order, but
listings are sorted.

* `FileTree.Alike.below_perm`, `listArtifact_eq` — what is seen of a folder.
* `observeArtifacts_eq` — what is seen of bundles.
* `below_of_mem_physical` — all that bundles ship is below the bundles folder.
-/

namespace BundleReach

open BundleReach.Path (IsName)
open FileTree (Alike)

variable {t t' : FileTree}

/-! ## What is seen of bundles -/

section

variable (h : Alike t t') (ht : t.WellFormed) (ht' : t'.WellFormed)
include h ht ht'

/-- The same is seen below a folder, whatever its order. -/
theorem FileTree.Alike.below_perm (folder : Path) : (t.below folder).Perm (t'.below folder) := by
  rw [List.perm_ext_iff_of_nodup (ht.nodup_below folder) (ht'.nodup_below folder)]
  intro p
  cases hwalk : t.walk folder with
  | error fault =>
    have hwalk' : t'.walk folder = .error fault := h.walk_eq ▸ hwalk
    rw [below, below, hwalk, hwalk']
  | ok place =>
    have hwalk' : t'.walk folder = .ok place := h.walk_eq ▸ hwalk
    rw [mem_below_iff hwalk, mem_below_iff hwalk']
    refine exists_congr fun rest => and_congr_right fun hne => and_congr_left fun _ => ?_
    exact h.mem_keys_iff fun hnil => hne (List.append_eq_nil_iff.1 hnil).2

theorem listArtifact_eq : listArtifact t = listArtifact t' := by
  funext folder extensions
  have hsorted : Path.sorted (t.below folder) = Path.sorted (t'.below folder) := by
    refine Path.sorted_eq_of_perm folder.anchor (h.below_perm ht ht' folder) ?_
    intro p hp
    obtain ⟨rest, -, -, rfl⟩ := ht.exists_names_of_mem_below hp
    rfl
  rw [listArtifact, listArtifact, hsorted, h.isFile_eq]

theorem orphanFolders_eq : orphanFolders t = orphanFolders t' := by
  funext folder bundles
  rw [orphanFolders, orphanFolders, h.isFolder_eq]
  refine Path.sorted_eq_of_perm folder.anchor
    ((h.children_perm ht ht' folder).filter _) ?_
  intro p hp
  obtain ⟨name, -, rfl⟩ := ht.exists_name_of_mem_children (List.mem_of_mem_filter hp)
  rfl

/-- The same is seen of bundles on disk. -/
theorem observeArtifacts_eq : observeArtifacts t = observeArtifacts t' := by
  have hlist := listArtifact_eq h ht ht'
  have hobserve : Bundle.observe t = Bundle.observe t' := by
    funext folder extensions b
    simp only [Bundle.observe, h.isFolder_eq, hlist]
  have horphan : orphanBundle t = orphanBundle t' := by
    funext extensions folder
    rw [orphanBundle, orphanBundle, hlist]
  funext folder extensions bundles
  rw [observeArtifacts, observeArtifacts, h.isFolder_eq, hobserve, horphan,
    orphanFolders_eq h ht ht']

end

/-- A file that a bundle ships is below the bundles folder. -/
theorem below_of_mem_physical {folder : Path} {extensions : List String} {bundles : List Bundle}
    (ht : t.WellFormed) (hnames : ∀ b ∈ bundles, IsName b.name)
    (hunseen : ∀ b ∈ bundles, b.physical = none) {b : Bundle}
    (hb : b ∈ (observeArtifacts t folder extensions bundles).1 ++
      (observeArtifacts t folder extensions bundles).2.getD []) {shipped : Table String Path}
    (hshipped : b.physical = some shipped) {e : String × Path} (he : e ∈ shipped) :
    ∃ rest, rest ≠ [] ∧ (∀ part ∈ rest, IsName part) ∧
      e.2 = ⟨folder.anchor, folder.parts ++ rest⟩ := by
  by_cases hfolder : t.isFolder folder = true
  · have hname : IsName b.name := by
      rcases List.mem_append.1 hb with hb | hb
      · rw [observeArtifacts_of_isFolder bundles hfolder] at hb
        obtain ⟨b', hb', rfl⟩ := List.mem_map.1 hb
        exact hnames b' hb'
      · obtain ⟨d, hd, -, -, rfl⟩ := exists_folder_of_orphan hfolder hb
        obtain ⟨name, hname, rfl⟩ := ht.exists_name_of_mem_children hd
        have hlast : (orphanBundle t extensions ⟨folder.anchor, folder.parts ++ [name]⟩).name =
            name := by
          rw [orphanBundle, Path.name, List.getLastD_concat]
        rwa [hlast]
    rw [physical_observeArtifacts ht hfolder hb, Option.some.injEq] at hshipped
    subst hshipped
    split at he
    · obtain ⟨files, hlisting, -, -, hmem⟩ := lists_listArtifact ht (folder.child b.name) extensions
      rw [hlisting] at he
      obtain ⟨p, hp, rfl⟩ := List.mem_map.1 he
      obtain ⟨rest, -, hrest, hpath⟩ := ht.exists_names_of_mem_below ((hmem p).1 hp).1
      refine ⟨b.name :: rest, List.cons_ne_nil _ _, ?_, ?_⟩
      · intro part hpart
        rcases List.mem_cons.1 hpart with rfl | hpart
        · exact hname
        · exact hrest part hpart
      · rw [hpath, Path.child_of_isPart hname.toIsPart, List.append_assoc]
        rfl
    · cases he
  · rw [observeArtifacts, if_neg hfolder, Option.getD_none, List.append_nil] at hb
    rw [hunseen b hb] at hshipped
    cases hshipped

end BundleReach
