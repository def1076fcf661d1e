import BundleReach.Proofs.Path.Endings
import BundleReach.Proofs.Resolution.Merging
import BundleReach.Proofs.Resolution.Patterns

/-!
# Renamed modules

An application may give a module another name.  What leads nowhere by itself is then looked for
under the other name, but not as it is written: if it has the ending that scripts have, that is
taken off.  Where a package lets others import all its files, the ending is put back when files are
looked for, as long as no other file comes first.  Exports are gone by as they are written, and
those that have the name with its ending do not have it without.

* `splitPackageName_append` — an ending of a specifier goes to the path within the package.
* `Resolver.GetsScriptEnding`, `Resolver.ShutOut` — where the ending is put back, and where the name
  without it leads nowhere; `Resolver.shutOut_of_only_scriptEnding`, by exports.
* `Resolver.renamed_like_replacement_iff` — when a renamed module leads to what its other name leads
  to.
-/

namespace BundleReach

open BundleReach.Path (RenameFault FinishesInName)

/-! ## Specifiers with endings -/

/-- Parts written with slashes between them, an ending after the last one. -/
theorem intercalate_concat_append (parts : List String) (last ending : String) :
    "/".intercalate (parts ++ [last ++ ending]) = "/".intercalate (parts ++ [last]) ++ ending := by
  rw [← String.toList_inj, String.toList_append, String.toList_intercalate,
    String.toList_intercalate, List.map_append, List.map_append, List.map_singleton,
    List.map_singleton, String.toList_append]
  generalize parts.map String.toList = lists
  induction lists with
  | nil => simp
  | cons first rest ih =>
    cases rest with
    | nil => simp [List.intercalate_cons_cons]
    | cons next rest =>
      simp only [List.cons_append, List.intercalate_cons_cons] at ih ⊢
      rw [ih]
      simp only [List.append_assoc]

/-- An ending goes to the path within a package, if there is one. -/
theorem splitPackageName_append {s ending : String} (hsub : (splitPackageName s).2 ≠ "")
    (hending : '/' ∉ ending.toList) :
    splitPackageName (s ++ ending) =
      ((splitPackageName s).1, (splitPackageName s).2 ++ ending) := by
  obtain ⟨before, last, hpieces⟩ := Text.exists_pieces_concat s
  have hs : Text.pieces '/' s = before ++ [last] := by
    have h := hpieces "" (by decide)
    rwa [String.append_empty, String.append_empty] at h
  have hne : s ≠ "" := by
    rintro rfl
    exact hsub (by decide)
  have hat : Text.beginsWith "@" (s ++ ending) = Text.beginsWith "@" s :=
    Text.beginsWith_append rfl hne ending
  have hlength : (Text.pieces '/' (s ++ ending)).length = (Text.pieces '/' s).length := by
    rw [hpieces ending hending, hs, List.length_append, List.length_append]
    rfl
  simp only [splitPackageName, hat, hlength] at hsub ⊢
  generalize (if Text.beginsWith "@" s = true ∧ 2 ≤ (Text.pieces '/' s).length then 2 else 1) =
    width at hsub ⊢
  rw [hs] at hsub
  have hwidth : width ≤ before.length := by
    by_contra hlong
    have hpast : (before ++ [last]).length ≤ width := by
      rw [List.length_append, List.length_singleton]
      omega
    rw [List.drop_eq_nil_of_le hpast] at hsub
    exact hsub rfl
  rw [hpieces ending hending, hs, List.take_append_of_le_length hwidth,
    List.take_append_of_le_length hwidth, List.drop_append_of_le_length hwidth,
    List.drop_append_of_le_length hwidth, intercalate_concat_append]

namespace Resolver

variable {r : Resolver} {importer p q : Path} {k v : String} {endings : List String}

/-! ## Endings that are put back -/

/-- An ending leads to a file where it makes the file's name and those before it make names under
which there is none. -/
theorem probeEndings_eq_some_iff_comesAfter :
    r.probeEndings p endings = .ok (some q) ↔
      ComesAfter (fun ending => ∃ q, p.rename (p.name ++ ending) = .ok q ∧ r.tree.isFile q = false)
        (fun ending => p.rename (p.name ++ ending) = .ok q ∧ r.tree.isFile q = true) endings := by
  induction endings with
  | nil => exact ⟨fun h => (by cases h), fun h => absurd h not_comesAfter_nil⟩
  | cons ending rest ih =>
    rw [probeEndings, bind_eq_ok_iff, comesAfter_cons_iff]
    constructor
    · rintro ⟨named, hname, h⟩
      split at h
      · rename_i hfile
        cases h
        exact .inl ⟨hname, hfile⟩
      · rename_i hfile
        exact .inr ⟨⟨named, hname, eq_false_of_ne_true hfile⟩, ih.1 h⟩
    · rintro (⟨hname, hfile⟩ | ⟨⟨named, hname, hfile⟩, h⟩)
      · refine ⟨q, hname, ?_⟩
        rw [if_pos hfile]
        rfl
      · refine ⟨named, hname, ?_⟩
        rw [hfile, if_neg Bool.false_ne_true]
        exact ih.2 h

/-- A path within a package gets the ending that scripts have back when it is probed: with the
ending it leads to a file, and neither without it nor with the endings that are tried before it is
there another one. -/
structure GetsScriptEnding (r : Resolver) (pkg : Package) (sub : String) : Prop where
  named : FinishesInName sub
  below : Text.beginsWith "/" sub = false
  file : r.tree.isFile (pkg.root.child (sub ++ ".js")).normal = true
  noFile : r.tree.isFile (pkg.root.child sub).normal = false
  tried : ComesAfter
    (fun ending => '/' ∉ ending.toList ∧
      r.tree.isFile (pkg.root.child (sub ++ ending)).normal = false)
    (· = ".js") r.settings.extensions

/-- A path that gets the ending back leads to the same file as with the ending. -/
theorem GetsScriptEnding.probe_eq {pkg : Package} {sub : String} (h : r.GetsScriptEnding pkg sub) :
    r.probe (pkg.root.child sub) = r.probe (pkg.root.child (sub ++ ".js")) := by
  have hwith : r.probe (pkg.root.child (sub ++ ".js")) =
      .ok (some (r.tree.resolve (pkg.root.child (sub ++ ".js")).normal)) := by
    rw [probe, if_pos h.file]
    rfl
  have hname : ∀ ending : String, '/' ∉ ending.toList →
      (pkg.root.child sub).normal.rename ((pkg.root.child sub).normal.name ++ ending) =
        .ok (pkg.root.child (sub ++ ending)).normal :=
    fun ending hending => Path.rename_normal_child pkg.root h.named h.below hending
  have hends : r.probeEndings (pkg.root.child sub).normal r.settings.extensions =
      .ok (some (pkg.root.child (sub ++ ".js")).normal) := by
    obtain ⟨before, ending, after, hextensions, hbefore, rfl⟩ := h.tried
    refine probeEndings_eq_some_iff_comesAfter.2
      ⟨before, ".js", after, hextensions, fun ending hmem => ?_, hname _ (by decide), h.file⟩
    obtain ⟨hslash, hfile⟩ := hbefore ending hmem
    exact ⟨_, hname ending hslash, hfile⟩
  rw [hwith, probe, h.noFile, if_neg Bool.false_ne_true, hends]
  rfl

theorem resolveBare_of_exports_none {specifier : String} {pkg : Package}
    (hpkg : r.packageFor? importer (splitPackageName specifier).1 = some pkg)
    (hexports : pkg.exports = none) (hsub : (splitPackageName specifier).2 ≠ "") :
    r.resolveBare importer specifier = r.probe (pkg.root.child (splitPackageName specifier).2) := by
  simp only [resolveBare, hpkg]
  rw [resolveInPackage_eq_firstFile, Package.candidates_of_exports_none hexports, if_neg hsub,
    firstFile_singleton]

/-- In a package without exports, a specifier that gets the ending back leads to the same file as
with the ending. -/
theorem GetsScriptEnding.resolveBare_eq {specifier : String} {pkg : Package}
    (hpkg : r.packageFor? importer (splitPackageName specifier).1 = some pkg)
    (hexports : pkg.exports = none) (h : r.GetsScriptEnding pkg (splitPackageName specifier).2) :
    r.resolveBare importer specifier = r.resolveBare importer (specifier ++ ".js") := by
  have hsub := h.named.ne_empty
  have hsplit := splitPackageName_append hsub (by decide : '/' ∉ ".js".toList)
  have hpkg' : r.packageFor? importer (splitPackageName (specifier ++ ".js")).1 = some pkg := by
    rw [hsplit]
    exact hpkg
  have hsub' : (splitPackageName (specifier ++ ".js")).2 ≠ "" := by
    rw [hsplit]
    exact fun hempty => hsub (String.append_eq_empty_iff.1 hempty).1
  rw [resolveBare_of_exports_none hpkg hexports hsub, h.probe_eq,
    resolveBare_of_exports_none hpkg' hexports hsub', hsplit]

/-- The package that a specifier names in a module does not let others import it. -/
def ShutOut (r : Resolver) (importer : Path) (specifier : String) : Prop :=
  ∃ pkg exports, r.packageFor? importer (splitPackageName specifier).1 = some pkg ∧
    pkg.isApp = false ∧ pkg.exports = some exports ∧
    Exports.matchExports exports (if (splitPackageName specifier).2 = "" then "."
      else "./" ++ (splitPackageName specifier).2) = none

theorem ShutOut.resolveBare_eq {specifier : String} (h : r.ShutOut importer specifier) :
    r.resolveBare importer specifier = .ok none := by
  obtain ⟨pkg, exports, hpkg, happ, hexports, hmatch⟩ := h
  simp only [resolveBare, hpkg]
  rw [resolveInPackage_eq_firstFile, Package.candidates, hexports]
  simp only [Option.bind_some, hmatch, Option.isSome_some, happ]
  rfl

/-- A package that lets others import a module under its name with the ending, and nothing else,
does not let them import it under the name without it. -/
theorem shutOut_of_only_scriptEnding {specifier : String} {pkg : Package} {target : Json}
    (hpkg : r.packageFor? importer (splitPackageName specifier).1 = some pkg)
    (happ : pkg.isApp = false)
    (hexports : pkg.exports =
      some (.object [("./" ++ (splitPackageName specifier).2 ++ ".js", target)]))
    (hmark : '*' ∉ (splitPackageName specifier).2.toList) : r.ShutOut importer specifier := by
  refine ⟨pkg, _, hpkg, happ, hexports, ?_⟩
  -- No name of the exports is the key, and none is a pattern.
  generalize (splitPackageName specifier).2 = sub at hmark ⊢
  have hpath : Text.beginsWith "." ("./" ++ sub ++ ".js") = true := by
    rw [Text.beginsWith, String.toList_append, String.toList_append]
    rfl
  have htargets : Exports.targets (.object [("./" ++ sub ++ ".js", target)]) =
      [("./" ++ sub ++ ".js", target)] :=
    Exports.targets_of_paths fun name hname => List.mem_singleton.1 hname ▸ hpath
  have hpattern : '*' ∉ ("./" ++ sub ++ ".js").toList := by
    rw [String.toList_append, String.toList_append, List.mem_append, List.mem_append, not_or,
      not_or]
    exact ⟨⟨by decide, hmark⟩, by decide⟩
  have hkey : "./" ++ sub ++ ".js" ≠ if sub = "" then "." else "./" ++ sub := by
    split
    · rename_i hsub
      subst hsub
      decide
    · intro heq
      have hlength := congrArg (fun s : String => s.toList.length) heq
      simp at hlength
  have hmatch : ∀ key, Exports.wildcardMatch ("./" ++ sub ++ ".js").toList key = none := by
    intro key
    rw [Exports.wildcardMatch, if_neg]
    rwa [List.contains_iff_mem]
  rw [Exports.matchExports, htargets, Table.find?, if_neg hkey]
  simp only [Table.find?, Exports.matchPattern, hmatch]

/-! ## Renamed modules -/

/-- A text is what is left without the ending that scripts have, and the ending, if it has it. -/
theorem withoutScriptEnding_append (h : Text.finishesWith ".js" v = true) :
    withoutScriptEnding v ++ ".js" = v := by
  obtain ⟨cs, hcs⟩ := List.isSuffixOf_iff_suffix.1 h
  have htaken : v.toList.take (v.toList.length - 3) = cs := by
    rw [← hcs, List.length_append]
    simp
  rw [withoutScriptEnding, if_pos h, Text.dropEnd, htaken, ← String.toList_inj,
    String.toList_append, String.toList_ofList, hcs]

theorem withoutScriptEnding_of_not_finishesWith (h : Text.finishesWith ".js" v = false) :
    withoutScriptEnding v = v := by
  rw [withoutScriptEnding, h, if_neg Bool.false_ne_true]

theorem renamedModule?_of_entry (h : Table.find? k r.app.renamedModules = some v) :
    r.renamedModule? k = some (withoutScriptEnding v) := by
  rw [renamedModule?, List.findSome?_cons, String.append_empty, h]
  rfl

/-- A renamed module is found where what the table has for it is found, its script ending taken off,
and it is not the name that is renamed: in its package, or else with an addon. -/
theorem resolveRenamedModule_eq_some_iff (h : Table.find? k r.app.renamedModules = some v) :
    r.resolveRenamedModule importer k = .ok (some q) ↔
      withoutScriptEnding v ≠ k ∧
        (r.resolveBare importer (withoutScriptEnding v) = .ok (some q) ∨
          r.resolveBare importer (withoutScriptEnding v) = .ok none ∧
            r.resolveAppModule (withoutScriptEnding v) = .ok (some q)) := by
  rw [resolveRenamedModule, renamedModule?_of_entry h]
  simp only
  by_cases hsame : withoutScriptEnding v = k
  · simp [hsame, pure, Except.pure]
  · rw [if_neg hsame, bind_eq_ok_iff]
    constructor
    · rintro ⟨found, hbare, hnext⟩
      cases found with
      | some found =>
        cases hnext
        exact ⟨hsame, .inl hbare⟩
      | none => exact ⟨hsame, .inr ⟨hbare, hnext⟩⟩
    · rintro ⟨-, hbare | ⟨hbare, happ⟩⟩
      · exact ⟨some q, hbare, rfl⟩
      · exact ⟨none, hbare, happ⟩

/-- What leads nowhere without the tables is found as a renamed module just if it is one. -/
theorem found_renamedModule_iff {deadEnd : DeadEnd} (hempty : k ≠ "")
    (hrelative : isRelative k = false) (habsolute : Text.beginsWith "/" k = false)
    (hfailed : r.unmerged.resolve importer k = .ok (.failed deadEnd)) :
    r.resolve importer k = .ok (.found q .renamedModule) ↔
      r.resolveRenamedModule importer k = .ok (some q) := by
  have htables : r.tableCandidates importer k = r.mergedCandidates importer k := by
    simp [tableCandidates, hempty, hrelative, habsolute]
  rw [found_iff_of_unmerged_failed hfailed, ← search_eq_some_iff, htables,
    ← resolveMerged_eq_search, resolveMerged, bind_eq_ok_iff]
  constructor
  · rintro ⟨found, hfound, h⟩
    cases found with
    | some found =>
      cases h
      exact hfound
    | none =>
      -- What the other tables find is found by other routes.
      obtain ⟨found', -, h⟩ := bind_eq_ok_iff.1 h
      cases found' with
      | some found' => cases h
      | none =>
        obtain ⟨found'', -, h⟩ := bind_eq_ok_iff.1 h
        cases found'' with
        | some found'' => cases h
        | none => cases h
  · intro h
    exact ⟨some q, h, rfl⟩

/-- What leads nowhere without the tables, and has been given another name that leads to a file, is
found as that file just if it is not the empty specifier, and if the file is what the other name
leads to when its script ending is taken off.  So it is if the name has no such ending; or if the
name, in a package without exports, gets the ending back when it is probed.  But where the name
without the ending is not among the package's exports, nothing is found by it. -/
theorem renamed_like_replacement_iff (importer : Path) {deadEnd : DeadEnd}
    (hentry : Table.find? k r.app.renamedModules = some v) (hne : v ≠ k)
    (hfailed : r.unmerged.resolve importer k = .ok (.failed deadEnd))
    (hrelative : isRelative k = false) (habsolute : Text.beginsWith "/" k = false)
    (hbare : r.resolveBare importer v = .ok (some q)) :
    (r.resolve importer k = .ok (.found q .renamedModule) ↔
      k ≠ "" ∧ withoutScriptEnding v ≠ k ∧
        (r.resolveBare importer (withoutScriptEnding v) = .ok (some q) ∨
          r.resolveBare importer (withoutScriptEnding v) = .ok none ∧
            r.resolveAppModule (withoutScriptEnding v) = .ok (some q))) ∧
    (Text.finishesWith ".js" v = false → k ≠ "" →
      r.resolve importer k = .ok (.found q .renamedModule)) ∧
    (Text.finishesWith ".js" v = true → k ≠ "" → withoutScriptEnding v ≠ k →
      ∀ pkg, r.packageFor? importer (splitPackageName (withoutScriptEnding v)).1 = some pkg →
        pkg.exports = none →
          r.GetsScriptEnding pkg (splitPackageName (withoutScriptEnding v)).2 →
            r.resolve importer k = .ok (.found q .renamedModule)) ∧
    (r.ShutOut importer (withoutScriptEnding v) →
      (splitPackageName (withoutScriptEnding v)).1 ≠ r.app.name →
        ∀ p, r.resolve importer k ≠ .ok (.found p .renamedModule)) := by
  have hfound : ∀ p, r.resolve importer k = .ok (.found p .renamedModule) ↔
      k ≠ "" ∧ withoutScriptEnding v ≠ k ∧
        (r.resolveBare importer (withoutScriptEnding v) = .ok (some p) ∨
          r.resolveBare importer (withoutScriptEnding v) = .ok none ∧
            r.resolveAppModule (withoutScriptEnding v) = .ok (some p)) := by
    intro p
    by_cases hempty : k = ""
    · subst hempty
      simp [resolve, pure, Except.pure]
    · rw [found_renamedModule_iff hempty hrelative habsolute hfailed,
        resolveRenamedModule_eq_some_iff hentry]
      exact (and_iff_right hempty).symm
  refine ⟨hfound q, fun hends hempty => ?_, fun hends hempty hsame pkg hpkg hexports hgets => ?_,
    fun hshut hname p h => ?_⟩
  · have hself := withoutScriptEnding_of_not_finishesWith hends
    rw [hfound, hself]
    exact ⟨hempty, hne, .inl hbare⟩
  · rw [hfound, hgets.resolveBare_eq hpkg hexports, withoutScriptEnding_append hends]
    exact ⟨hempty, hsame, .inl hbare⟩
  · obtain ⟨-, -, hbare' | ⟨-, happ⟩⟩ := (hfound p).1 h
    · rw [hshut.resolveBare_eq] at hbare'
      cases hbare'
    · simp only [resolveAppModule, hname, ne_eq, not_false_eq_true, true_or, if_true] at happ
      cases happ

/-- A package that lets others import a module under its name with the ending only. -/
def newPackage : Package where
  name := "new"
  root := ⟨.root, ["shop", "node_modules", "new"]⟩
  kind := .addon
  exports := some (.object [("./thing.js", .text "./thing.js")])

/-- An application that has the module in place of an old one. -/
def thingShop : Resolver where
  tree := (shopResolver.tree.write ⟨.root, ["shop", "node_modules", "new", "package.json"]⟩
    (.file [])).write ⟨.root, ["shop", "node_modules", "new", "thing.js"]⟩ (.file [])
  app := { shopResolver.app with renamedModules := [("old/thing.js", "new/thing.js")] }
  addons := [newPackage]
  settings := .initial 4

/-- The module that the old one is replaced with is there, and is not found in its place. -/
theorem renamed_like_replacement_iff_unlisted :
    Table.find? "old/thing.js" thingShop.app.renamedModules = some "new/thing.js" ∧
      "new/thing.js" ≠ "old/thing.js" ∧
      thingShop.unmerged.resolve ⟨.root, ["shop", "app.js"]⟩ "old/thing.js" =
        .ok (.failed (.absentPackage "old")) ∧
      isRelative "old/thing.js" = false ∧ Text.beginsWith "/" "old/thing.js" = false ∧
      thingShop.resolveBare ⟨.root, ["shop", "app.js"]⟩ "new/thing.js" =
        .ok (some ⟨.root, ["shop", "node_modules", "new", "thing.js"]⟩) ∧
      ∀ p, thingShop.resolve ⟨.root, ["shop", "app.js"]⟩ "old/thing.js" ≠
        .ok (.found p .renamedModule) := by
  have hentry : Table.find? "old/thing.js" thingShop.app.renamedModules = some "new/thing.js" := by
    decide
  have hne : "new/thing.js" ≠ "old/thing.js" := by decide
  have hfailed : thingShop.unmerged.resolve ⟨.root, ["shop", "app.js"]⟩ "old/thing.js" =
      .ok (.failed (.absentPackage "old")) := by
    decide +kernel
  have hrelative : isRelative "old/thing.js" = false := by decide
  have habsolute : Text.beginsWith "/" "old/thing.js" = false := by decide
  have hbare : thingShop.resolveBare ⟨.root, ["shop", "app.js"]⟩ "new/thing.js" =
      .ok (some ⟨.root, ["shop", "node_modules", "new", "thing.js"]⟩) := by
    decide +kernel
  obtain ⟨-, -, -, hshut⟩ :=
    renamed_like_replacement_iff _ hentry hne hfailed hrelative habsolute hbare
  refine ⟨hentry, hne, hfailed, hrelative, habsolute, hbare, hshut ?_ (by decide)⟩
  exact shutOut_of_only_scriptEnding rfl rfl rfl (by decide)

end Resolver

end BundleReach
