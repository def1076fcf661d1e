import BundleReach.Proofs.FileTree.WellFormed
import BundleReach.Proofs.Resolution.Candidates

/-!
# Where resolution comes to a fault

Probing a path adds endings to its name, and a path without a name has nothing to add them to.  So a
specifier whose candidate goes up to the root of all paths does not lead nowhere: resolving it comes
to a fault.  The other way to a fault is an ending that makes more than one part of a name.

* `probe_eq_error_iff` — where probing comes to a fault.
* `faultsAt_iff_of_noSlash` — with endings that hold no slash, only at the root of all paths.
* `resolve_faults_iff` — where resolving does.
-/

namespace BundleReach

open BundleReach.Path (RenameFault)

namespace Resolver

variable {r : Resolver} {p : Path} {fault : RenameFault}

/-! ## Probing -/

/-- The first endings give a path names under which there is no file, and the next one gives it no
name at all. -/
def BreaksName (r : Resolver) (p : Path) (fault : RenameFault) : List String → Prop :=
  ComesAfter (fun ending => ∃ q, p.rename (p.name ++ ending) = .ok q ∧ r.tree.isFile q = false)
    fun ending => p.rename (p.name ++ ending) = .error fault

/-- Probing a path comes to a fault: it leads to no file, and an ending that is tried breaks its
name. -/
structure FaultsAt (r : Resolver) (p : Path) (fault : RenameFault) : Prop where
  noFile : r.tree.isFile p.normal = false
  breaks : r.BreaksName p.normal fault r.settings.extensions

theorem probeEndings_eq_error_iff {endings : List String} :
    r.probeEndings p endings = .error fault ↔ r.BreaksName p fault endings := by
  induction endings with
  | nil => exact ⟨fun h => (by cases h), fun h => absurd h not_comesAfter_nil⟩
  | cons ending rest ih =>
    rw [probeEndings, bind_eq_error_iff, BreaksName, comesAfter_cons_iff]
    refine or_congr_right ⟨?_, ?_⟩
    · rintro ⟨q, hname, h⟩
      split at h
      · cases h
      · rename_i hfile
        exact ⟨⟨q, hname, Bool.not_eq_true _ ▸ hfile⟩, ih.1 h⟩
    · rintro ⟨⟨q, hname, hfile⟩, h⟩
      refine ⟨q, hname, ?_⟩
      rw [hfile, if_neg Bool.false_ne_true]
      exact ih.2 h

/-- Once no ending breaks the name, nothing can go wrong. -/
theorem probe_eq_error_iff : r.probe p = .error fault ↔ r.FaultsAt p fault := by
  rw [probe]
  by_cases hfile : r.tree.isFile p.normal = true
  · rw [if_pos hfile]
    refine ⟨fun h => (by cases h), fun h => ?_⟩
    rw [h.noFile] at hfile
    cases hfile
  · rw [if_neg hfile, bind_eq_error_iff, probeEndings_eq_error_iff]
    refine ⟨?_, fun h => .inl h.breaks⟩
    rintro (h | ⟨found, -, h⟩)
    · exact ⟨Bool.not_eq_true _ ▸ hfile, h⟩
    · cases found with
      | some q => cases h
      | none =>
        simp only at h
        split at h
        · cases h
        · cases h

/-! ## At the root of all paths -/

/-- Without parts, a path leads to no file. -/
theorem isFile_of_parts_nil {t : FileTree} (h : p.parts = []) : t.isFile p = false := by
  have hwalk : t.walk p = .ok [] := by
    obtain ⟨anchor, parts⟩ := p
    obtain rfl : parts = [] := h
    exact FileTree.Firm.top.walk_eq anchor
  rw [FileTree.isFile]
  unfold FileTree.entry?
  rw [hwalk]
  rfl

theorem name_of_parts_nil (h : p.parts = []) : p.name = "" := by
  rw [Path.name, h]
  rfl

/-- With endings that hold no slash, probing comes to a fault only where nothing is left of a path:
there is no name to add an ending to. -/
theorem faultsAt_iff_of_noSlash (hends : ∀ ending ∈ r.settings.extensions, '/' ∉ ending.toList)
    (hp : p.IsWritten) :
    r.FaultsAt p fault ↔
      r.settings.extensions ≠ [] ∧ p.normal.parts = [] ∧ fault = .nameless p.normal := by
  constructor
  · rintro ⟨hfile, before, ending, after, hsplit, -, hbreaks⟩
    have hmem : ending ∈ r.settings.extensions := hsplit ▸ List.mem_append_cons_self
    have hnil : p.normal.parts = [] := by
      by_contra hparts
      have hname := hp.normal.isPart_name hparts
      rw [Path.rename_eq_ok hname.ne_empty (hname.append (hends ending hmem))] at hbreaks
      cases hbreaks
    refine ⟨List.ne_nil_of_mem hmem, hnil, ?_⟩
    rw [Path.rename_of_nameless (name_of_parts_nil hnil)] at hbreaks
    exact (Except.error.inj hbreaks).symm
  · rintro ⟨hne, hnil, rfl⟩
    obtain ⟨ending, rest, hcons⟩ := List.exists_cons_of_ne_nil hne
    exact ⟨isFile_of_parts_nil hnil, [], ending, rest, hcons, by simp,
      Path.rename_of_nameless (name_of_parts_nil hnil) _⟩

/-! ## Written candidates -/

theorem foldl_deeper_mem (first : Package) (rest : List Package) :
    rest.foldl deeper first ∈ first :: rest := by
  induction rest generalizing first with
  | nil => exact List.mem_cons_self
  | cons next rest ih =>
    rcases List.mem_cons.1 (ih (deeper first next)) with hself | hrest
    · rw [List.foldl_cons, hself, deeper]
      split
      · exact List.mem_cons_of_mem _ List.mem_cons_self
      · exact List.mem_cons_self
    · exact List.mem_cons_of_mem _ (List.mem_cons_of_mem _ hrest)

theorem mem_packages_of_owner? {pkg : Package} (h : r.owner? p = some pkg) :
    pkg ∈ r.packages := by
  rw [owner?] at h
  split at h
  · cases h
  · rename_i first rest hfilter
    have hmem := foldl_deeper_mem first rest
    rw [← hfilter, Option.some.inj h] at hmem
    exact List.mem_of_mem_filter hmem

/-- What a name means is one of the packages. -/
theorem mem_packages_of_packageFor? {importer : Path} {name : String} {pkg : Package}
    (h : r.packageFor? importer name = some pkg) : pkg ∈ r.packages := by
  rw [packageFor?] at h
  split at h
  · rename_i own hown
    obtain ⟨howner, -⟩ := Option.filter_eq_some_iff.1 hown
    exact Option.some.inj h ▸ mem_packages_of_owner? howner
  · split at h
    · exact Option.some.inj h ▸ List.mem_cons_self
    · obtain ⟨root, -, hfind⟩ := Option.bind_eq_some_iff.1 h
      exact List.mem_of_find?_eq_some hfind

section

variable {importer : Path} {specifier : String}

theorem isWritten_of_mem_bareCandidates (hroots : ∀ pkg ∈ r.packages, pkg.root.IsWritten)
    (hp : p ∈ r.bareCandidates importer specifier) : p.IsWritten := by
  simp only [bareCandidates] at hp
  split at hp
  · cases hp
  · rename_i pkg hpkg
    have hroot := hroots pkg (mem_packages_of_packageFor? hpkg)
    have hone : ∀ {s : String}, p ∈ [pkg.root.child s] → p.IsWritten :=
      fun h => List.mem_singleton.1 h ▸ hroot.child _
    rw [Package.candidates] at hp
    split at hp
    · exact hone hp
    split at hp
    · cases hp
    split at hp
    · rcases List.mem_append.1 hp with hp | hp
      · obtain ⟨file, -, rfl⟩ := List.mem_map.1 hp
        exact hroot.child file
      · exact hone hp
    · exact hone hp

theorem isWritten_of_mem_appModuleCandidates (hroots : ∀ pkg ∈ r.packages, pkg.root.IsWritten)
    (hp : p ∈ r.appModuleCandidates specifier) : p.IsWritten := by
  simp only [appModuleCandidates] at hp
  split at hp
  · cases hp
  · obtain ⟨addon, haddon, hp⟩ := List.mem_flatMap.1 hp
    obtain ⟨e, -, rfl⟩ := List.mem_map.1 hp
    exact (hroots addon (List.mem_cons_of_mem _ (List.mem_reverse.1 haddon))).child _

/-- The candidates of a specifier are written if its importer and the packages' folders are. -/
theorem isWritten_of_mem_candidates (himporter : importer.IsWritten)
    (hroots : ∀ pkg ∈ r.packages, pkg.root.IsWritten) {c : Path × Route}
    (hc : c ∈ r.candidates importer specifier) : c.1.IsWritten := by
  have hbare : ∀ {importer specifier p}, p ∈ r.bareCandidates importer specifier → p.IsWritten :=
    fun hp => isWritten_of_mem_bareCandidates hroots hp
  have happ : ∀ {specifier p}, p ∈ r.appModuleCandidates specifier → p.IsWritten :=
    fun hp => isWritten_of_mem_appModuleCandidates hroots hp
  rw [candidates] at hc
  split at hc
  · rw [List.mem_singleton.1 hc]
    exact himporter.parent.child specifier
  split at hc
  · rw [List.mem_singleton.1 hc]
    exact Path.isWritten_ofString specifier
  rw [mergedCandidates] at hc
  simp only [List.mem_append, List.mem_map] at hc
  rcases hc with ⟨p, hp, rfl⟩ | ⟨p, hp, rfl⟩ | ⟨p, hp, rfl⟩ | ⟨p, hp, rfl⟩
  · exact hbare hp
  · rw [renamedModuleCandidates] at hp
    split at hp
    · cases hp
    split at hp
    · cases hp
    · exact (List.mem_append.1 hp).elim hbare happ
  · simp only [renamedPackageCandidates] at hp
    split at hp
    · cases hp
    split at hp
    · cases hp
    · exact hbare hp
  · exact happ hp

end

/-! ## Resolving -/

/-- Resolving a specifier gets to a candidate of some kind: the specifier is neither empty nor
supplied at run time, and the candidates before that one lead nowhere. -/
structure GetsTo (r : Resolver) (importer : Path) (specifier : String) (kind : Path → Prop) :
    Prop where
  notEmpty : specifier ≠ ""
  notSupplied : isRuntimeModule r.settings.externals specifier = false
  candidate : ComesAfter (fun c => r.probe c.1 = .ok none) (fun c => kind c.1)
    (r.candidates importer specifier)

theorem resolve_eq_error_iff (r : Resolver) (importer : Path) (specifier : String)
    (fault : RenameFault) :
    r.resolve importer specifier = .error fault ↔
      r.GetsTo importer specifier (r.FaultsAt · fault) := by
  rcases r.resolve_cases importer specifier with ⟨hempty, heq⟩ | ⟨-, hruntime, heq⟩ |
    ⟨hempty, hruntime, heq⟩
  · rw [heq]
    exact ⟨fun h => (by cases h), fun h => absurd hempty h.notEmpty⟩
  · rw [heq]
    refine ⟨fun h => (by cases h), fun h => ?_⟩
    rw [h.notSupplied] at hruntime
    cases hruntime
  · rw [heq, map_eq_error_iff, search_eq_error_iff]
    simp only [probe_eq_error_iff]
    exact ⟨fun h => ⟨hempty, hruntime, h⟩, fun h => h.candidate⟩

/-- Resolving a specifier comes to a fault where it gets to a candidate that cannot be probed.
Where no ending holds a slash, that is a candidate that goes up to the root of all paths, so that no
name is left to try endings on. -/
theorem resolve_faults_iff (r : Resolver) (importer : Path) (specifier : String)
    (fault : RenameFault) :
    (r.resolve importer specifier = .error fault ↔
      r.GetsTo importer specifier (r.FaultsAt · fault)) ∧
    ((∀ ending ∈ r.settings.extensions, '/' ∉ ending.toList) → importer.IsWritten →
      (∀ pkg ∈ r.packages, pkg.root.IsWritten) →
        (r.resolve importer specifier = .error fault ↔ r.settings.extensions ≠ [] ∧
          r.GetsTo importer specifier fun p =>
            p.normal.parts = [] ∧ fault = .nameless p.normal)) := by
  refine ⟨resolve_eq_error_iff r importer specifier fault, fun hends himporter hroots => ?_⟩
  rw [resolve_eq_error_iff]
  have hat : ∀ c ∈ r.candidates importer specifier, (r.FaultsAt c.1 fault ↔
      r.settings.extensions ≠ [] ∧ c.1.normal.parts = [] ∧ fault = .nameless c.1.normal) :=
    fun c hc => faultsAt_iff_of_noSlash hends (isWritten_of_mem_candidates himporter hroots hc)
  constructor
  · rintro ⟨hempty, hruntime, before, c, after, hsplit, hbefore, hc⟩
    obtain ⟨hne, hnil, hfault⟩ := (hat c (hsplit ▸ List.mem_append_cons_self)).1 hc
    exact ⟨hne, hempty, hruntime, before, c, after, hsplit, hbefore, hnil, hfault⟩
  · rintro ⟨hne, hempty, hruntime, before, c, after, hsplit, hbefore, hnil, hfault⟩
    exact ⟨hempty, hruntime, before, c, after, hsplit, hbefore,
      (hat c (hsplit ▸ List.mem_append_cons_self)).2 ⟨hne, hnil, hfault⟩⟩

/-- An application without addons, in a folder where nothing else is. -/
def shopResolver : Resolver where
  tree := FileTree.bare.write ⟨.root, ["shop", "app.js"]⟩ (.file [])
  app := { name := "shop", root := ⟨.root, ["shop"]⟩, kind := .app }
  addons := []
  settings := .initial 4

theorem resolve_faults_iff_top :
    (∀ ending ∈ shopResolver.settings.extensions, '/' ∉ ending.toList) ∧
      Path.IsWritten ⟨.root, ["shop", "app.js"]⟩ ∧
      (∀ pkg ∈ shopResolver.packages, pkg.root.IsWritten) ∧
      shopResolver.resolve ⟨.root, ["shop", "app.js"]⟩ "/" = .error (.nameless Path.top) := by
  have hends : ∀ ending ∈ shopResolver.settings.extensions, '/' ∉ ending.toList := by decide
  have himporter : Path.IsWritten ⟨.root, ["shop", "app.js"]⟩ := by decide
  have hroots : ∀ pkg ∈ shopResolver.packages, pkg.root.IsWritten := by
    intro pkg hpkg
    rw [List.mem_singleton.1 hpkg]
    decide
  refine ⟨hends, himporter, hroots, ?_⟩
  refine ((resolve_faults_iff shopResolver _ "/" _).2 hends himporter hroots).2
    ⟨by decide, by decide, by decide, ?_⟩
  exact ⟨[], (Path.top, .absolute), [], by decide, by simp, by decide, by decide⟩

end Resolver

end BundleReach
