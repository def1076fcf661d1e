import BundleReach.Proofs.Finding.Exports
import BundleReach.Proofs.Finding.Rules

/-!
# What is found about bundles

Three kinds of findings are about bundles: a file that a bundle ships and does not need, a module
that it needs and does not ship, and a module that bundles ship with different contents.  Each kind
can be told from all the others, so what one rule has found is picked out of all that is found.

* `filterMap_findings` — of all findings, two rules have those about bundles.
* `filterMap_unneeded`, `filterMap_lacked` — what is found of one bundle.
* `missingFromBundle_mem_findings_iff` — when a module is found missing from a bundle.
-/

namespace BundleReach

variable {α : Type} {t : FileTree} {g : ModuleGraph} {bundles : List Bundle} {c : Closures}
  {packages : List Package}

/-! ## Findings about bundles -/

namespace Finding

/-- Whether a finding is about what bundles ship. -/
def isOfBundles : Finding → Bool
  | unreachableInBundle .. | missingFromBundle .. | crossBundleDuplicate .. => true
  | _ => false

/-- The file that a finding tells a bundle to ship without need. -/
def unneeded? (bundle : String) : Finding → Option String
  | unreachableInBundle m b => if b = bundle then some m else none
  | _ => none

/-- The module that a finding tells a bundle to need and not to ship. -/
def lacked? (bundle : String) : Finding → Option String
  | missingFromBundle m b => if b = bundle then some m else none
  | _ => none

/-- The module that a finding tells bundles to ship with different contents, and the bundles. -/
def differing? : Finding → Option (String × List String)
  | crossBundleDuplicate m names => some (m, names)
  | _ => none

end Finding

theorem isOfBundles_of_mem_parseErrors {f : Finding} (h : f ∈ parseErrors g) :
    f.isOfBundles = false := by
  obtain ⟨e, -, he⟩ := List.mem_filterMap.1 h
  obtain ⟨fault, -, rfl⟩ := Option.map_eq_some_iff.1 he
  rfl

theorem isOfBundles_of_mem_unresolvedImports {f : Finding} (h : f ∈ unresolvedImports g) :
    f.isOfBundles = false := by
  obtain ⟨u, -, rfl⟩ := List.mem_map.1 h
  rfl

theorem isOfBundles_of_mem_brokenPublicAssets {pkg : Package} {f : Finding}
    (h : f ∈ brokenPublicAssets t g pkg) : f.isOfBundles = false := by
  obtain ⟨asset, -, hasset⟩ := List.mem_filterMap.1 h
  simp only at hasset
  split at hasset
  · cases hasset
  · cases hasset
    rfl

theorem isOfBundles_of_mem_missingExports {f : Finding}
    (h : f ∈ (missingExports g g.edges []).1) : f.isOfBundles = false := by
  obtain ⟨e, -, q, -, n, -, -, -, rfl⟩ := (mem_missingExports .nil).1 h
  rfl

/-- Of all findings, the rules on mismatches and on duplicates have those about bundles. -/
theorem filterMap_findings {pick : Finding → Option α}
    (hpick : ∀ f, f.isOfBundles = false → pick f = none) :
    (findings t g bundles c packages).filterMap pick =
      bundles.flatMap (fun b => (bundleMismatches g c b).filterMap pick) ++
        (crossBundleDuplicates t g bundles c).filterMap pick := by
  have hnone : ∀ rule : List Finding, (∀ f ∈ rule, f.isOfBundles = false) →
      rule.filterMap pick = [] :=
    fun rule hrule => List.filterMap_eq_nil_iff.2 fun f hf => hpick f (hrule f hf)
  have hassets : ∀ f ∈ packages.flatMap (brokenPublicAssets t g), f.isOfBundles = false := by
    intro f hf
    obtain ⟨pkg, -, hf⟩ := List.mem_flatMap.1 hf
    exact isOfBundles_of_mem_brokenPublicAssets hf
  simp only [findings, List.filterMap_append]
  rw [hnone _ fun _ => isOfBundles_of_mem_parseErrors,
    hnone _ fun _ => isOfBundles_of_mem_unresolvedImports, hnone _ hassets,
    hnone _ fun _ => isOfBundles_of_mem_missingExports, List.filterMap_flatMap]
  simp only [List.nil_append, List.append_nil]

/-! ## Mismatches -/

/-- The modules that a bundle needs, by their paths as seen from the root. -/
def neededIds (g : ModuleGraph) (c : Closures) (b : Bundle) : List String :=
  (closureOf c b).map g.idOf

theorem bundleMismatches_of_physical {b : Bundle} {shipped : Table String Path}
    (h : b.physical = some shipped) :
    bundleMismatches g c b =
      ((Table.keys shipped).filter fun m => decide (m ∉ neededIds g c b)).map
          (.unreachableInBundle · b.name) ++
        ((neededIds g c b).filter fun m => decide (m ∉ Table.keys shipped)).map
          (.missingFromBundle · b.name) := by
  have hextra : ∀ m, (!(neededIds g c b).contains m) = decide (m ∉ neededIds g c b) := by
    intro m
    rw [Bool.eq_iff_iff, Bool.not_eq_true', ← Bool.not_eq_true, List.contains_iff_mem,
      decide_eq_true_eq]
  have hmissing : ∀ m, (!Table.has m shipped) = decide (m ∉ Table.keys shipped) := by
    intro m
    rw [Bool.eq_iff_iff, Bool.not_eq_true', ← Bool.not_eq_true, Table.has_iff_mem_keys,
      decide_eq_true_eq]
  simp only [← hextra, ← hmissing]
  rw [bundleMismatches, h]
  rfl

/-- A mismatch is told of the bundle that has it. -/
theorem bundle?_of_mem_bundleMismatches {b : Bundle} {f : Finding}
    (h : f ∈ bundleMismatches g c b) : f.bundle? = some b.name := by
  cases hb : b.physical with
  | none => simp [bundleMismatches, hb] at h
  | some shipped =>
    rw [bundleMismatches_of_physical hb] at h
    rcases List.mem_append.1 h with h | h
    · obtain ⟨m, -, rfl⟩ := List.mem_map.1 h
      rfl
    · obtain ⟨m, -, rfl⟩ := List.mem_map.1 h
      rfl

/-- Where no two bundles have one name, what is found of a bundle by its name is found of it. -/
theorem flatMap_mismatches_eq {pick : Finding → Option α} {b : Bundle}
    (hpick : ∀ f, f.bundle? ≠ some b.name → pick f = none)
    (hn : (bundles.map Bundle.name).Nodup) (hb : b ∈ bundles) :
    bundles.flatMap (fun b => (bundleMismatches g c b).filterMap pick) =
      (bundleMismatches g c b).filterMap pick := by
  have hother : ∀ b', b'.name ≠ b.name → (bundleMismatches g c b').filterMap pick = [] := by
    intro b' hname
    refine List.filterMap_eq_nil_iff.2 fun f hf => hpick f ?_
    rw [bundle?_of_mem_bundleMismatches hf]
    exact fun h => hname (Option.some.inj h)
  induction bundles with
  | nil => cases hb
  | cons first rest ih =>
    rw [List.map_cons, List.nodup_cons] at hn
    rw [List.flatMap_cons]
    rcases List.mem_cons.1 hb with rfl | hb
    · have hrest : rest.flatMap (fun b => (bundleMismatches g c b).filterMap pick) = [] := by
        refine List.flatMap_eq_nil_iff.2 fun b' hb' => hother b' fun hname => hn.1 ?_
        exact List.mem_map.2 ⟨b', hb', hname⟩
      rw [hrest, List.append_nil]
    · have hfirst : first.name ≠ b.name :=
        fun hname => hn.1 (List.mem_map.2 ⟨b, hb, hname.symm⟩)
      rw [hother first hfirst, List.nil_append, ih hn.2 hb]

theorem exists_of_mem_crossBundleDuplicates {f : Finding}
    (h : f ∈ crossBundleDuplicates t g bundles c) :
    ∃ e ∈ g.modules, ∃ names, f = .crossBundleDuplicate e.2.id names := by
  obtain ⟨e, he, hf⟩ := List.mem_filterMap.1 h
  simp only [Option.ite_none_right_eq_some, Option.some.injEq] at hf
  exact ⟨e, he, _, hf.2.symm⟩

/-- What is told of a bundle is one of its mismatches. -/
theorem filterMap_findings_of_bundle {pick : Finding → Option α} {b : Bundle}
    (hpick : ∀ f, f.bundle? ≠ some b.name → pick f = none)
    (hn : (bundles.map Bundle.name).Nodup) (hb : b ∈ bundles) :
    (findings t g bundles c packages).filterMap pick =
      (bundleMismatches g c b).filterMap pick := by
  have hapart : ∀ f : Finding, f.isOfBundles = false → pick f = none := by
    intro f hf
    refine hpick f ?_
    cases f with
    | unreachableInBundle | missingFromBundle | crossBundleDuplicate => cases hf
    | parseError | unresolvedImport | brokenPublicAsset | missingExport =>
      exact Option.some_ne_none _ |>.symm
  have hduplicates : (crossBundleDuplicates t g bundles c).filterMap pick = [] := by
    refine List.filterMap_eq_nil_iff.2 fun f hf => hpick f ?_
    obtain ⟨e, -, names, rfl⟩ := exists_of_mem_crossBundleDuplicates hf
    exact (Option.some_ne_none _).symm
  rw [filterMap_findings hapart, flatMap_mismatches_eq hpick hn hb, hduplicates, List.append_nil]

/-- A finding that names a bundle is a mismatch of a bundle of that name. -/
theorem exists_mem_bundleMismatches {f : Finding} {name : String} (hname : f.bundle? = some name)
    (h : f ∈ findings t g bundles c packages) :
    ∃ b ∈ bundles, b.name = name ∧ f ∈ bundleMismatches g c b := by
  have hof : f.isOfBundles ≠ false := by
    cases f with
    | unreachableInBundle | missingFromBundle => exact Bool.noConfusion
    | _ => cases hname
  simp only [findings, List.mem_append] at h
  rcases h with ((((h | h) | h) | h) | h) | h
  · exact absurd (isOfBundles_of_mem_parseErrors h) hof
  · exact absurd (isOfBundles_of_mem_unresolvedImports h) hof
  · obtain ⟨b, hb, h⟩ := List.mem_flatMap.1 h
    exact ⟨b, hb, Option.some.inj ((bundle?_of_mem_bundleMismatches h).symm.trans hname), h⟩
  · obtain ⟨e, -, names, rfl⟩ := exists_of_mem_crossBundleDuplicates h
    cases hname
  · obtain ⟨pkg, -, h⟩ := List.mem_flatMap.1 h
    exact absurd (isOfBundles_of_mem_brokenPublicAssets h) hof
  · exact absurd (isOfBundles_of_mem_missingExports h) hof

variable {b : Bundle} {shipped : Table String Path}

/-- What is told of a bundle is told of what it ships without need, and of what it needs and does
not ship. -/
theorem filterMap_findings_of_physical {pick : Finding → Option α}
    (hpick : ∀ f, f.bundle? ≠ some b.name → pick f = none)
    (hn : (bundles.map Bundle.name).Nodup) (hb : b ∈ bundles)
    (hshipped : b.physical = some shipped) :
    (findings t g bundles c packages).filterMap pick =
      ((Table.keys shipped).filter fun m => decide (m ∉ neededIds g c b)).filterMap
          (fun m => pick (.unreachableInBundle m b.name)) ++
        ((neededIds g c b).filter fun m => decide (m ∉ Table.keys shipped)).filterMap
          fun m => pick (.missingFromBundle m b.name) := by
  rw [filterMap_findings_of_bundle hpick hn hb, bundleMismatches_of_physical hshipped,
    List.filterMap_append, List.filterMap_map, List.filterMap_map]
  rfl

/-- The files found to be shipped by a bundle without need are those that are not ids of its
closure. -/
theorem filterMap_unneeded (hn : (bundles.map Bundle.name).Nodup) (hb : b ∈ bundles)
    (hshipped : b.physical = some shipped) :
    (findings t g bundles c packages).filterMap (Finding.unneeded? b.name) =
      (Table.keys shipped).filter fun m => decide (m ∉ neededIds g c b) := by
  have hpick : ∀ f : Finding, f.bundle? ≠ some b.name → f.unneeded? b.name = none := by
    intro f hf
    cases f with
    | unreachableInBundle m b' => exact if_neg fun h => hf (congrArg some h)
    | _ => rfl
  rw [filterMap_findings_of_physical hpick hn hb hshipped]
  simp only [Finding.unneeded?, if_true, List.filterMap_some, List.filterMap_none, List.append_nil]

/-- The modules found to be needed by a bundle and not shipped are the ids of its closure that it
does not ship. -/
theorem filterMap_lacked (hn : (bundles.map Bundle.name).Nodup) (hb : b ∈ bundles)
    (hshipped : b.physical = some shipped) :
    (findings t g bundles c packages).filterMap (Finding.lacked? b.name) =
      (neededIds g c b).filter fun m => decide (m ∉ Table.keys shipped) := by
  have hpick : ∀ f : Finding, f.bundle? ≠ some b.name → f.lacked? b.name = none := by
    intro f hf
    cases f with
    | missingFromBundle m b' => exact if_neg fun h => hf (congrArg some h)
    | _ => rfl
  rw [filterMap_findings_of_physical hpick hn hb hshipped]
  simp only [Finding.lacked?, if_true, List.filterMap_some, List.filterMap_none, List.nil_append]

/-- A module is found missing from a bundle exactly where the bundle needs it and does not ship
it. -/
theorem missingFromBundle_mem_findings_iff (hn : (bundles.map Bundle.name).Nodup)
    (hb : b ∈ bundles) (hshipped : b.physical = some shipped) {m : String} :
    .missingFromBundle m b.name ∈ findings t g bundles c packages ↔
      m ∈ neededIds g c b ∧ m ∉ Table.keys shipped := by
  have hlacked : .missingFromBundle m b.name ∈ findings t g bundles c packages ↔
      m ∈ (findings t g bundles c packages).filterMap (Finding.lacked? b.name) := by
    rw [List.mem_filterMap]
    constructor
    · intro h
      exact ⟨_, h, if_pos rfl⟩
    · rintro ⟨f, hf, hpick⟩
      cases f with
      | missingFromBundle m' b' =>
        obtain ⟨hname, hm⟩ := Option.ite_none_right_eq_some.1 hpick
        rwa [← hname, ← Option.some.inj hm]
      | _ => cases hpick
  rw [hlacked, filterMap_lacked hn hb hshipped, List.mem_filter, decide_eq_true_eq]

end BundleReach
