import BundleReach.Proofs.Audit.Stages
import BundleReach.Proofs.Finding.Rules
import BundleReach.Proofs.Plain

/-!
# Clean audits

An audit that finds nothing vouches for the bundles: each of them can be loaded from what it holds.
The proof goes through all stages of an audit.

* `exactlyOne_of_found` — an import that does not lead to a dead end does one of three things.
* `clean_audit_self_contained` — the bundles of a clean audit are self-contained.
-/

namespace BundleReach

variable {t : FileTree} {r : GraphBuilder} {main : Path} {g : ModuleGraph}

/-! ## What a clean audit vouches for -/

/-- One of three things holds, and only one. -/
def ExactlyOne (a b c : Prop) : Prop := (a ∧ ¬ b ∧ ¬ c) ∨ (¬ a ∧ b ∧ ¬ c) ∨ (¬ a ∧ ¬ b ∧ c)

/-- An import is supplied at run time. -/
def ImportSupplied (r : GraphBuilder) (p : Path) (ref : ImportRef) : Prop :=
  r.resolve p ref.specifier = .ok .supplied

/-- An import that is not dynamic leads to one of some modules. -/
def ImportStays (r : GraphBuilder) (modules : List Path) (p : Path) (ref : ImportRef) : Prop :=
  ref.kind ≠ .dynamic ∧ ∃ q route, r.resolve p ref.specifier = .ok (.found q route) ∧ q ∈ modules

/-- A dynamic import leads to where one of some bundles begins. -/
def ImportDefers (r : GraphBuilder) (bundles : List Bundle) (p : Path) (ref : ImportRef) : Prop :=
  ref.kind = .dynamic ∧ ∃ q route, r.resolve p ref.specifier = .ok (.found q route) ∧
    ∃ b ∈ bundles, b.entries = [q]

/-- The bundles of an audit can be loaded from what they hold. -/
structure SelfContained (r : GraphBuilder) (bundlesFolder : Path) (a : Audit) : Prop where
  /-- Each module of a bundle has been read, and each of its imports is supplied at run time, or
  stays in the bundle, or waits at the entry of a bundle. -/
  imports : ∀ b ∈ a.computed, ∀ p ∈ closureOf a.closures b, ∃ m facts,
    Table.find? p a.graph.modules = some m ∧ m.facts = some facts ∧ m.fault = none ∧
      r.factsOf p = .ok facts ∧ ∀ ref ∈ facts.imports,
        ExactlyOne (ImportSupplied r p ref) (ImportStays r (closureOf a.closures b) p ref)
          (ImportDefers r a.computed p ref)
  /-- The folder of a bundle holds the modules of its closure and no others. -/
  shipped : r.tree.isFolder bundlesFolder = true → ∀ b ∈ a.computed, ∃ files,
    b.physical = some files ∧
      (files = if r.tree.isFolder (bundlesFolder.child b.name)
        then listArtifact r.tree (bundlesFolder.child b.name) r.settings.extensions else []) ∧
      ∀ m, m ∈ Table.keys files ↔ m ∈ (closureOf a.closures b).map a.graph.idOf
  /-- No other folder beside the bundles holds a module file. -/
  alone : r.tree.isFolder bundlesFolder = true → ∀ folder ∈ r.tree.children bundlesFolder,
    r.tree.isFolder folder = true → folder.name ∉ a.computed.map Bundle.name →
      ∀ p ∈ r.tree.below folder, r.tree.isFile p = true →
        isModuleName r.settings.extensions p.name = false

/-- An import that resolves, and not to a dead end, does one of the three. -/
theorem exactlyOne_of_found (h : Complete r main g) {p : Path} {ref : ImportRef}
    (hp : g.hasModule p = true) (href : ref ∈ importsAt r p) (hu : g.unresolved = [])
    {modules : List Path} {bundles : List Bundle}
    (hstays : ∀ q route, ref.kind ≠ .dynamic →
      r.resolve p ref.specifier = .ok (.found q route) → q ∈ modules)
    (hdefers : ∀ q ∈ g.bundleEntries, ∃ b ∈ bundles, b.entries = [q]) :
    ExactlyOne (ImportSupplied r p ref) (ImportStays r modules p ref)
      (ImportDefers r bundles p ref) := by
  obtain ⟨links, hlinks⟩ := h.settled p hp
  obtain ⟨resolution, hres⟩ := exists_resolve_of_mem hlinks.resolved href
  -- What is found is not supplied.
  have hfound : ∀ {q route}, r.resolve p ref.specifier = .ok (.found q route) →
      ¬ ImportSupplied r p ref := by
    intro q route hq hs
    rw [ImportSupplied, hq] at hs
    cases hs
  cases resolution with
  | supplied =>
    refine .inl ⟨hres, ?_, ?_⟩
    · rintro ⟨-, q, route, hq, -⟩
      exact hfound hq hres
    · rintro ⟨-, q, route, hq, -⟩
      exact hfound hq hres
  | failed deadEnd => exact absurd hres (h.not_failed_of_unresolved hu hp href deadEnd)
  | found q route =>
    by_cases hkind : ref.kind = .dynamic
    · refine .inr (.inr ⟨hfound hres, fun hs => hs.1 hkind, hkind, q, route, hres, ?_⟩)
      exact hdefers q ((h.found_mem hp href hres).2 hkind)
    · exact .inr (.inl ⟨hfound hres, ⟨hkind, q, route, hres, hstays q route hkind hres⟩,
        fun hd => hkind hd.1⟩)

/-- The bundles of a clean audit are self-contained.  Every module of a bundle has been read;
each of its imports is supplied at run time, leads to a module of the same bundle, or is dynamic
and leads to where a bundle begins; and what is on disk is what the bundles need. -/
theorem clean_audit_self_contained (e : Environment) (t : FileTree) (output : Path)
    (given : Option Settings) (a : Audit) (h : runAudit e t output given = .ok a)
    (hclean : a.findings = []) :
    ∃ settings app addons,
      settingsFor e t (t.resolve output) given = .ok settings ∧
      loadApp t (t.resolve output) = .ok app ∧
      locateAddons t (t.resolve output) app = .ok addons ∧
      SelfContained ⟨⟨t, app, addons, settings⟩, e.parse⟩
        ((t.resolve output).child settings.bundlesFolder) a := by
  obtain ⟨settings, app, addons, main, built, hsettings, happ, haddons, hbuilt, rfl⟩ :=
    exists_of_runAudit h
  refine ⟨settings, app, addons, hsettings, happ, haddons, ?_⟩
  have hcomplete := (buildGraphIn_eq_ok_iff.1 hbuilt).2.complete.freeze
  obtain ⟨hparse, hresolve, hship, -⟩ := findings_eq_nil_iff.1 hclean
  refine ⟨fun b hb p hp => ?_, fun hfolder b hb => ?_, fun hfolder d hd hdir hname p hp hfile => ?_⟩
  · obtain ⟨entry, hentry, hclosure⟩ := closureOf_computed hb
    rw [hclosure] at hp ⊢
    have hm := hcomplete.hasModule_of_mem_closure hentry hp
    have hfind := hcomplete.find?_modules (p := p)
    rw [if_pos hm] at hfind
    have hfault : (moduleAt _ p).fault = none :=
      fault_of_parseErrors hparse (Table.mem_of_find? hfind)
    cases hread : t.factsOf e.parse p with
    | error fault =>
      have hsome := (moduleAt_of_error (r := ⟨⟨t, app, addons, settings⟩, e.parse⟩) hread).2.1
      rw [hsome] at hfault
      cases hfault
    | ok facts =>
      obtain ⟨hfacts, -, himports⟩ :=
        moduleAt_of_ok (r := ⟨⟨t, app, addons, settings⟩, e.parse⟩) hread
      refine ⟨_, facts, hfind, hfacts, hfault, hread, fun ref href => ?_⟩
      rw [← himports] at href
      exact exactlyOne_of_found hcomplete hm href (unresolved_of_unresolvedImports hresolve)
        (fun q route hkind hres => hcomplete.mem_closure_of_found hm hp href hkind hres)
        fun q hq => exists_computed hq
  · have hfiles := physical_of_mem_observeArtifacts hfolder hb
    exact ⟨_, hfiles, rfl, shipped_iff_needed (hship b (List.mem_append_left _ hb)) hfiles⟩
  · -- The folder is an orphan that needs nothing, so it ships nothing.
    rw [names_computed] at hname
    have horphan := orphan_mem_observeArtifacts settings.extensions hfolder hd hdir hname
    have hneeds := shipped_iff_needed (hship _ (List.mem_append_right _ horphan)) rfl
      (d.relativeTo p)
    rw [closureOf_closures_of_not_mem hname] at hneeds
    refine Bool.eq_false_iff.2 fun hmodule => List.not_mem_nil (hneeds.1 ?_)
    exact mem_keys_listArtifact.2 ⟨p, hp, hfile, hmodule, rfl⟩

/-- Scripts that load, offer on and wait for each other, and one module that is supplied at run
time. -/
def shopScripts : List (String × PlainScript) := [
  ("app.js", [.load "./cart.js", .load "rsvp", .wait "./later.js"]),
  ("cart.js", [.pass "./names.js"]),
  ("names.js", [.offer "a"]),
  ("later.js", [.load "./names.js"])]

/-- The application, with two bundles that ship what they need. -/
def shopOutput : FileTree :=
  plainOutput shopScripts [("main", shopScripts.take 3), ("later", shopScripts.drop 2)]

theorem clean_audit_self_contained_shop :
    ∃ a, runAudit (plainEnvironment shopScripts) shopOutput ⟨.root, ["app"]⟩
        (some (.initial 4)) = .ok a ∧
      (a.findings = [] ∧
        (a.computed.map fun b => (b.name, (closureOf a.closures b).map a.graph.idOf)) =
          [("main", ["./app.js", "./cart.js", "./names.js"]),
            ("later", ["./later.js", "./names.js"])] ∧
        (a.graph.edges.map fun e => (e.specifier, e.kind)) =
          [("./cart.js", .static), ("./names.js", .reexport), ("./later.js", .dynamic),
            ("./names.js", .static)] ∧
        a.graph.externalsOf (appFile "app.js") = ["rsvp"]) ∧
      ∃ settings app addons,
        settingsFor (plainEnvironment shopScripts) shopOutput
          (shopOutput.resolve ⟨.root, ["app"]⟩) (some (.initial 4)) = .ok settings ∧
        loadApp shopOutput (shopOutput.resolve ⟨.root, ["app"]⟩) = .ok app ∧
        locateAddons shopOutput (shopOutput.resolve ⟨.root, ["app"]⟩) app = .ok addons ∧
        SelfContained ⟨⟨shopOutput, app, addons, settings⟩, (plainEnvironment shopScripts).parse⟩
          ((shopOutput.resolve ⟨.root, ["app"]⟩).child settings.bundlesFolder) a := by
  refine exists_ok_and ?_ fun a ha hview => clean_audit_self_contained _ _ _ _ a ha hview.1
  decide +kernel

end BundleReach
