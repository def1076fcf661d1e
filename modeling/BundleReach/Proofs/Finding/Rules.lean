import BundleReach.Finding.Rules
import Mathlib.Data.List.Basic

/-!
# Outputs without findings

What each rule says of an output in which it finds nothing.
-/

namespace BundleReach

variable {g : ModuleGraph}

/-- Nothing is found in an output where no rule finds anything. -/
theorem findings_eq_nil_iff {t : FileTree} {bundles : List Bundle} {c : Closures}
    {packages : List Package} :
    findings t g bundles c packages = [] ↔ parseErrors g = [] ∧ unresolvedImports g = [] ∧
      (∀ b ∈ bundles, bundleMismatches g c b = []) ∧ crossBundleDuplicates t g bundles c = [] ∧
        (∀ pkg ∈ packages, brokenPublicAssets t g pkg = []) ∧
          (missingExports g g.edges []).1 = [] := by
  simp only [findings, List.append_eq_nil_iff, List.flatMap_eq_nil_iff, and_assoc]

theorem fault_of_parseErrors (h : parseErrors g = []) {e : Path × Module} (he : e ∈ g.modules) :
    e.2.fault = none := by
  rw [parseErrors, List.filterMap_eq_nil_iff] at h
  exact Option.map_eq_none_iff.1 (h e he)

theorem unresolved_of_unresolvedImports (h : unresolvedImports g = []) : g.unresolved = [] :=
  List.map_eq_nil_iff.1 h

/-- A bundle that nothing is wrong with ships exactly what it needs. -/
theorem shipped_iff_needed {c : Closures} {b : Bundle} {shipped : Table String Path}
    (h : bundleMismatches g c b = []) (hb : b.physical = some shipped) (m : String) :
    m ∈ Table.keys shipped ↔ m ∈ (closureOf c b).map g.idOf := by
  rw [bundleMismatches, hb] at h
  obtain ⟨hextra, hmissing⟩ := List.append_eq_nil_iff.1 h
  rw [List.map_eq_nil_iff, List.filter_eq_nil_iff] at hextra hmissing
  constructor
  · intro hm
    have := hextra m hm
    rwa [Bool.not_eq_true', Bool.not_eq_false, List.contains_iff_mem] at this
  · intro hm
    have := hmissing m hm
    rwa [Bool.not_eq_true', Bool.not_eq_false, Table.has_iff_mem_keys] at this

end BundleReach
