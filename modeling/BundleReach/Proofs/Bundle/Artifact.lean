import BundleReach.Bundle.Artifact
import BundleReach.Proofs.FileTree.WellFormed

/-!
# What is seen of bundles on disk

Looking for the files that bundles ship changes neither their names nor their entries
(`map_observeArtifacts`).  Every folder that belongs to no bundle is seen as an orphan
(`orphan_mem_observeArtifacts`) with a name of its own (`nodup_names_observeArtifacts`), and a
listing holds the module files below its folder (`mem_keys_listArtifact`).
-/

namespace BundleReach

variable {t : FileTree} {folder : Path} {extensions : List String}

theorem mem_sorted {p : Path} {ps : List Path} : p ∈ Path.sorted ps ↔ p ∈ ps :=
  mem_inOrder

/-- A listing names each module file below its folder, and nothing else. -/
theorem mem_keys_listArtifact {m : String} :
    m ∈ Table.keys (listArtifact t folder extensions) ↔ ∃ p ∈ t.below folder,
      t.isFile p = true ∧ isModuleName extensions p.name = true ∧ folder.relativeTo p = m := by
  rw [listArtifact, Table.mem_keys_ofEntries, Table.keys, List.map_map, List.mem_map]
  constructor
  · rintro ⟨p, hp, rfl⟩
    obtain ⟨hp, hfile⟩ := List.mem_filter.1 hp
    obtain ⟨hfile, hname⟩ := Bool.and_eq_true_iff.1 hfile
    exact ⟨p, mem_sorted.1 hp, hfile, hname, rfl⟩
  · rintro ⟨p, hp, hfile, hname, rfl⟩
    exact ⟨p, List.mem_filter.2 ⟨mem_sorted.2 hp, Bool.and_eq_true_iff.2 ⟨hfile, hname⟩⟩, rfl⟩

/-- Bundles keep their names and entries when their files are looked for. -/
theorem map_observeArtifacts (bundles : List Bundle) :
    (observeArtifacts t folder extensions bundles).1.map (fun b => (b.name, b.entries)) =
      bundles.map fun b => (b.name, b.entries) := by
  rw [observeArtifacts]
  split
  · rw [List.map_map]
    rfl
  · rfl

theorem observeArtifacts_of_isFolder (bundles : List Bundle) (h : t.isFolder folder = true) :
    observeArtifacts t folder extensions bundles =
      (bundles.map (Bundle.observe t folder extensions),
        some ((orphanFolders t folder bundles).map (orphanBundle t extensions))) := by
  rw [observeArtifacts, if_pos h]

/-- Where there is a bundles folder, a bundle ships what the folder of its name holds. -/
theorem physical_of_mem_observeArtifacts {bundles : List Bundle} {b : Bundle}
    (h : t.isFolder folder = true)
    (hb : b ∈ (observeArtifacts t folder extensions bundles).1) :
    b.physical = some (if t.isFolder (folder.child b.name)
      then listArtifact t (folder.child b.name) extensions else []) := by
  rw [observeArtifacts_of_isFolder bundles h] at hb
  obtain ⟨b', -, rfl⟩ := List.mem_map.1 hb
  rfl

/-- A folder of the bundles folder that has no bundle's name is an orphan. -/
theorem orphan_mem_observeArtifacts (extensions : List String) {bundles : List Bundle} {p : Path}
    (h : t.isFolder folder = true) (hp : p ∈ t.children folder) (hfolder : t.isFolder p = true)
    (hname : p.name ∉ bundles.map Bundle.name) :
    orphanBundle t extensions p ∈
      ((observeArtifacts t folder extensions bundles).2.getD []) := by
  rw [observeArtifacts_of_isFolder bundles h]
  refine List.mem_map.2 ⟨p, mem_sorted.2 (List.mem_filter.2 ⟨hp, ?_⟩), rfl⟩
  rw [hfolder, Bool.true_and, Bool.not_eq_true', ← Bool.not_eq_true, List.contains_iff_mem]
  exact hname

/-- A bundle ships no file twice. -/
theorem nodup_shipped_observeArtifacts {bundles : List Bundle}
    (hb : ∀ b ∈ bundles, b.physical = none) {b : Bundle}
    (h : b ∈ (observeArtifacts t folder extensions bundles).1 ∨
      b ∈ (observeArtifacts t folder extensions bundles).2.getD []) :
    (Table.keys (b.physical.getD [])).Nodup := by
  have hlist : ∀ folder, (Table.keys (listArtifact t folder extensions)).Nodup :=
    fun folder => Table.nodup_keys_ofEntries _
  by_cases hfolder : t.isFolder folder = true
  · rw [observeArtifacts_of_isFolder bundles hfolder] at h
    rcases h with h | h
    · obtain ⟨b, -, rfl⟩ := List.mem_map.1 h
      rw [Bundle.observe]
      simp only [Option.getD_some]
      split
      · exact hlist _
      · exact List.nodup_nil
    · obtain ⟨p, -, rfl⟩ := List.mem_map.1 h
      exact hlist p
  · rw [observeArtifacts, if_neg hfolder] at h
    rcases h with h | h
    · rw [hb b h]
      exact List.nodup_nil
    · cases h

/-- No two bundles on disk have one name, orphans included. -/
theorem nodup_names_observeArtifacts (ht : t.WellFormed) {bundles : List Bundle}
    (hn : (bundles.map Bundle.name).Nodup) :
    (((observeArtifacts t folder extensions bundles).1 ++
      (observeArtifacts t folder extensions bundles).2.getD []).map Bundle.name).Nodup := by
  by_cases hfolder : t.isFolder folder = true
  · rw [observeArtifacts_of_isFolder bundles hfolder, List.map_append, List.map_map,
      Option.getD_some, List.map_map, List.nodup_append]
    refine ⟨hn, ?_, ?_⟩
    · have hsorted : (orphanFolders t folder bundles).Perm _ := inOrder_perm _ _
      refine ((hsorted.map Path.name).nodup_iff).2 ?_
      exact (ht.nodup_names_children folder).sublist (List.filter_sublist.map Path.name)
    · -- A folder with the name of a bundle is no orphan.
      rintro name hb _ horphan rfl
      obtain ⟨p, hp, rfl⟩ := List.mem_map.1 horphan
      have hfree := (Bool.and_eq_true_iff.1 (List.mem_filter.1 (mem_sorted.1 hp)).2).2
      rw [Bool.not_eq_true', ← Bool.not_eq_true, List.contains_iff_mem] at hfree
      exact hfree hb
  · rw [observeArtifacts, if_neg hfolder, Option.getD_none, List.append_nil]
    exact hn

end BundleReach
