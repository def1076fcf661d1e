import BundleReach.Bundle.Basic
import BundleReach.Proofs.Graph.Closure
import Mathlib.Data.List.Nodup
import Mathlib.Data.List.Perm.Subperm

/-!
# Bundles have names of their own

A name with a number is tried for one more number than there are names taken, so one of them is free
(`freeName_not_mem`).  Hence no two bundles of a graph share a name (`nodup_names_partition`), and
the closure found under a bundle's name is the closure of its entries (`closureOf_closures`).
-/

namespace BundleReach

/-! ## Free names -/

/-- The name with a number that is tried for it. -/
def numbered (candidate : String) (n : Nat) : String := candidate ++ "-" ++ toString n

theorem numbered_injective (candidate : String) : Function.Injective (numbered candidate) := by
  intro m n h
  have hrepr : Nat.repr m = Nat.repr n := (String.append_right_inj _).1 h
  have hdigits : Nat.toDigits 10 m = Nat.toDigits 10 n := by
    rw [← Nat.toList_repr, ← Nat.toList_repr, hrepr]
  calc m = Nat.ofDigitChars 10 (Nat.toDigits 10 m) 0 := Nat.ofDigitChars_ten_toDigits.symm
    _ = Nat.ofDigitChars 10 (Nat.toDigits 10 n) 0 := by rw [hdigits]
    _ = n := Nat.ofDigitChars_ten_toDigits

/-- A name that comes up taken stands for numbers that are all taken. -/
theorem numbered_mem_of_numberedName_mem {taken : List String} {candidate : String}
    {tries n : Nat} (h : numberedName taken candidate tries n ∈ taken) {i : Nat} (hi : i ≤ tries) :
    numbered candidate (n + i) ∈ taken := by
  induction tries generalizing n i with
  | zero =>
    obtain rfl : i = 0 := Nat.le_zero.1 hi
    exact h
  | succ tries ih =>
    rw [numberedName] at h
    split at h
    · rename_i hn
      cases i with
      | zero => exact hn
      | succ i =>
        rw [Nat.add_succ, ← Nat.succ_add]
        exact ih h (Nat.le_of_succ_le_succ hi)
    · rename_i hn
      exact absurd h hn

/-- The name found is free. -/
theorem freeName_not_mem (taken : List String) (candidate : String) :
    freeName taken candidate ∉ taken := by
  rw [freeName]
  split
  · intro h
    -- All numbers tried would be taken, and there is one more of them than names taken.
    have hsubset : (List.range (taken.length + 1)).map (fun i => numbered candidate (2 + i)) ⊆
        taken := by
      intro name hname
      obtain ⟨i, hi, rfl⟩ := List.mem_map.1 hname
      exact numbered_mem_of_numberedName_mem h (Nat.le_of_lt_succ (List.mem_range.1 hi))
    have hnodup : ((List.range (taken.length + 1)).map
        fun i => numbered candidate (2 + i)).Nodup := by
      refine List.Nodup.map (fun i j hij => ?_) List.nodup_range
      exact Nat.add_left_cancel (numbered_injective candidate hij)
    have hlen := (hnodup.subperm hsubset).length_le
    rw [List.length_map, List.length_range] at hlen
    exact Nat.not_succ_le_self _ hlen
  · assumption

theorem bundleName_not_mem (taken : List String) (entryId : String) :
    bundleName taken entryId ∉ taken := by
  rw [bundleName]
  generalize (if Text.beginsWith "./" entryId then _ else _ : List Char) = path
  split
  · assumption
  · exact freeName_not_mem _ _

/-! ## The bundles of a graph -/

variable {g : ModuleGraph}

/-- Names given one after the other differ from those taken and from each other. -/
theorem nodup_names_lazyBundles (taken : List String) (entries : List Path) :
    ((lazyBundles g taken entries).map Bundle.name).Nodup ∧
      ∀ b ∈ lazyBundles g taken entries, b.name ∉ taken := by
  induction entries generalizing taken with
  | nil => exact ⟨List.nodup_nil, fun b hb => by cases hb⟩
  | cons entry rest ih =>
    obtain ⟨hnodup, hfree⟩ := ih (bundleName taken (g.idOf entry) :: taken)
    rw [lazyBundles]
    refine ⟨List.nodup_cons.2 ⟨fun h => ?_, hnodup⟩, fun b hb => ?_⟩
    · obtain ⟨b, hb, hname⟩ := List.mem_map.1 h
      exact hfree b hb (hname ▸ List.mem_cons_self)
    · rcases List.mem_cons.1 hb with rfl | hb
      · exact bundleName_not_mem _ _
      · exact fun h => hfree b hb (List.mem_cons_of_mem _ h)

theorem nodup_names_partition (g : ModuleGraph) : ((partition g).map Bundle.name).Nodup := by
  rw [partition]
  split
  · exact List.nodup_nil
  · rename_i main rest _
    obtain ⟨hnodup, hfree⟩ := nodup_names_lazyBundles (g := g) [mainBundleName] rest
    refine List.nodup_cons.2 ⟨fun h => ?_, hnodup⟩
    obtain ⟨b, hb, hname⟩ := List.mem_map.1 h
    exact hfree b hb (hname ▸ List.mem_cons_self)

theorem entries_lazyBundles (taken : List String) (entries : List Path) :
    (lazyBundles g taken entries).map Bundle.entries = entries.map fun p => [p] := by
  induction entries generalizing taken with
  | nil => rfl
  | cons entry rest ih =>
    rw [lazyBundles, List.map_cons, ih, List.map_cons]

/-- There is one bundle for each place where bundles begin, in order. -/
theorem entries_partition (g : ModuleGraph) :
    (partition g).map Bundle.entries = g.bundleEntries.map fun p => [p] := by
  rw [partition]
  split
  · rename_i h
    rw [h]
    rfl
  · rename_i h
    rw [h, List.map_cons, entries_lazyBundles, List.map_cons]

theorem physical_of_mem_lazyBundles {taken : List String} {entries : List Path} {b : Bundle}
    (hb : b ∈ lazyBundles g taken entries) : b.physical = none := by
  induction entries generalizing taken with
  | nil => cases hb
  | cons entry rest ih =>
    rw [lazyBundles] at hb
    rcases List.mem_cons.1 hb with rfl | hb
    · rfl
    · exact ih hb

/-- Of the bundles of a graph it is not known what they ship. -/
theorem physical_of_mem_partition {b : Bundle} (hb : b ∈ partition g) : b.physical = none := by
  rw [partition] at hb
  split at hb
  · cases hb
  · rcases List.mem_cons.1 hb with rfl | hb
    · rfl
    · exact physical_of_mem_lazyBundles hb

/-! ## Closures by name -/

theorem keys_closures (g : ModuleGraph) (bundles : List Bundle) :
    Table.keys (bundles.map fun b => (b.name, closure g b.entries)) = bundles.map Bundle.name := by
  rw [Table.keys, List.map_map]
  rfl

/-- Where no two bundles share a name, a bundle's closure is that of its entries. -/
theorem closureOf_closures {bundles : List Bundle} (hn : (bundles.map Bundle.name).Nodup)
    {b : Bundle} (hb : b ∈ bundles) :
    closureOf (closures g bundles) b = closure g b.entries := by
  have hkeys : (Table.keys (bundles.map fun b => (b.name, closure g b.entries))).Nodup := by
    rwa [keys_closures]
  rw [closureOf, closures, Table.ofEntries_of_nodup hkeys,
    Table.find?_of_mem hkeys (List.mem_map.2 ⟨b, hb, rfl⟩)]
  rfl

/-- Nothing belongs to the closure of a bundle whose name no bundle has. -/
theorem closureOf_closures_of_not_mem {bundles : List Bundle} {b : Bundle}
    (hb : b.name ∉ bundles.map Bundle.name) : closureOf (closures g bundles) b = [] := by
  have hnone : Table.find? b.name (closures g bundles) = none := by
    rw [Table.find?_eq_none_iff, closures, Table.mem_keys_ofEntries, keys_closures]
    exact hb
  rw [closureOf, hnone]
  rfl

/-- No closure holds a module twice. -/
theorem nodup_closureOf {bundles : List Bundle} (hn : (bundles.map Bundle.name).Nodup)
    (b : Bundle) : (closureOf (closures g bundles) b).Nodup := by
  by_cases hb : b.name ∈ bundles.map Bundle.name
  · obtain ⟨b', hb', hname⟩ := List.mem_map.1 hb
    have heq : closureOf (closures g bundles) b = closure g b'.entries := by
      rw [← closureOf_closures hn hb', closureOf, closureOf, hname]
    rw [heq]
    exact nodup_closure g b'.entries
  · rw [closureOf_closures_of_not_mem hb]
    exact List.nodup_nil

/-- The closure of a bundle goes by its name alone. -/
theorem closureOf_eq_of_name {c : Closures} {b b' : Bundle} (h : b.name = b'.name) :
    closureOf c b = closureOf c b' := by
  rw [closureOf, h, closureOf]

end BundleReach
