import BundleReach.Proofs.Graph.TwoPhases
import BundleReach.Proofs.Plain

/-!
# Every import is accounted for

A build follows the imports of many modules at once, those of one module being left off wherever
another module comes up.  At the end none of them has been lost and none has been followed twice.

* `Accounts` — imports of a module, each accounted for once: by an edge that ends at a module, by an
  edge without an end and a record, or as supplied at run time.
* `OnePass.records` — records go with the edges that lead nowhere, in order.
* `imports_accounted_for` — what a built graph holds of imports.
-/

namespace BundleReach

variable {r : GraphBuilder} {main : Path} {g : ModuleGraph}

/-! ## The account of one module -/

/-- What is held of imports of a module `p`: its edges, its records of what leads nowhere and the
specifiers that are supplied at run time.  Each import adds to them what it resolves to, in the
order in which imports are written, and nothing else is held. -/
inductive Accounts (r : GraphBuilder) (p : Path) :
    List ImportRef → List ImportEdge → List UnresolvedImport → List String → Prop where
  | done : Accounts r p [] [] [] []
  | resolved {ref : ImportRef} {refs : List ImportRef} {edges : List ImportEdge}
      {records : List UnresolvedImport} {supplied : List String} {q : Path} {route : Route}
      (resolves : r.resolve p ref.specifier = .ok (.found q route))
      (more : Accounts r p refs edges records supplied) :
      Accounts r p (ref :: refs) (⟨p, ref.specifier, ref.kind, some q, ref.names⟩ :: edges) records
        supplied
  | unresolved {ref : ImportRef} {refs : List ImportRef} {edges : List ImportEdge}
      {records : List UnresolvedImport} {supplied : List String} {deadEnd : DeadEnd}
      (resolves : r.resolve p ref.specifier = .ok (.failed deadEnd))
      (more : Accounts r p refs edges records supplied) :
      Accounts r p (ref :: refs) (⟨p, ref.specifier, ref.kind, none, ref.names⟩ :: edges)
        (⟨p, ref.specifier, ref.kind, deadEnd.reason, ref.line⟩ :: records) supplied
  | supplied {ref : ImportRef} {refs : List ImportRef} {edges : List ImportEdge}
      {records : List UnresolvedImport} {supplied : List String}
      (resolves : r.resolve p ref.specifier = .ok .supplied)
      (more : Accounts r p refs edges records supplied) :
      Accounts r p (ref :: refs) edges records (ref.specifier :: supplied)

/-- The links that imports resolve to account for them. -/
theorem accounts_of_resolveLinks {p : Path} {refs : List ImportRef} {links : List Link}
    (h : resolveLinks r p refs = .ok links) :
    Accounts r p refs (links.filterMap (·.edge? p)) (links.filterMap (·.record? p))
      (links.filterMap (·.external?)) := by
  induction refs generalizing links with
  | nil =>
    cases h
    exact .done
  | cons ref refs ih =>
    obtain ⟨resolution, rest, hres, hrest, rfl⟩ := resolveLinks_cons_eq_ok_iff.1 h
    have hmore := ih hrest
    cases resolution with
    | supplied => exact .supplied hres hmore
    | found q route => exact .resolved hres hmore
    | failed deadEnd => exact .unresolved hres hmore

/-- A module that states facts has the imports that stand there. -/
theorem importsAt_of_facts {p : Path} {facts : ModuleFacts}
    (h : (moduleAt r p).facts = some facts) :
    r.factsOf p = .ok facts ∧ importsAt r p = facts.imports := by
  cases hread : r.factsOf p with
  | error fault =>
    rw [(moduleAt_of_error hread).1] at h
    cases h
  | ok facts' =>
    obtain ⟨hfacts, -, himports⟩ := moduleAt_of_ok hread
    obtain rfl := Option.some.inj (hfacts.symm.trans h)
    exact ⟨rfl, himports⟩

/-- A module with a fault has no imports to follow. -/
theorem importsAt_of_fault {p : Path} (h : (moduleAt r p).fault.isSome = true) :
    importsAt r p = [] := by
  cases hread : r.factsOf p with
  | error fault => exact (moduleAt_of_error hread).2.2
  | ok facts =>
    rw [(moduleAt_of_ok hread).2.1] at h
    cases h

/-- The views of a module that has been settled. -/
theorem Settled.accounts {p : Path} {links : List Link} (h : Settled r g p links) :
    Accounts r p (importsAt r p) (g.outEdges p) (g.unresolved.filter (·.importer = p))
      (g.externalsOf p) := by
  have hedges : g.outEdges p = links.filterMap (·.edge? p) := congrArg Trace.edges h.trace
  have hrecords : g.unresolved.filter (·.importer = p) = links.filterMap (·.record? p) :=
    congrArg Trace.unresolved h.trace
  have hexternals : g.externalsOf p = links.filterMap (·.external?) :=
    congrArg Trace.externals h.trace
  rw [hedges, hrecords, hexternals]
  exact accounts_of_resolveLinks h.resolved

/-! ## Records and edges that lead nowhere -/

/-- A record is that of an edge that leads nowhere. -/
structure RecordOf (e : ImportEdge) (u : UnresolvedImport) : Prop where
  importer : u.importer = e.importer
  specifier : u.specifier = e.specifier
  kind : u.kind = e.kind

/-- The edges that lead nowhere. -/
def deadEdges (g : ModuleGraph) : List ImportEdge := g.edges.filter (·.target = none)

/-- A link brings a record where it brings an edge that leads nowhere, and only there. -/
theorem Link.record?_of_edge? (p : Path) (l : Link) :
    List.Forall₂ RecordOf ((l.edge? p).toList.filter (·.target = none)) (l.record? p).toList := by
  cases h : l.resolution with
  | supplied => simp [Link.edge?, Link.record?, h]
  | found q route => simp [Link.edge?, Link.record?, Link.edge, Link.target?, h]
  | failed deadEnd =>
    simp only [Link.edge?, Link.record?, Link.edge, Link.target?, h]
    exact .cons ⟨rfl, rfl, rfl⟩ .nil

/-- The records of a built graph are those of the edges that lead nowhere, one for each and in the
same order. -/
theorem OnePass.records (h : OnePass r main g) :
    List.Forall₂ RecordOf (deadEdges g) g.unresolved := by
  refine h.invariant (P := fun g => List.Forall₂ RecordOf (deadEdges g) g.unresolved) .nil ?_ ?_
  · intro g p ref resolution _ _ hg
    rw [deadEdges, ModuleGraph.edges_addLink, List.filter_append, ModuleGraph.unresolved_addLink]
    exact List.rel_append hg (Link.record?_of_edge? p _)
  · intro g q _ hg
    rwa [deadEdges, ModuleGraph.edges_addModule, ModuleGraph.unresolved_addModule]

/-! ## The account of a graph -/

/-- All imports are accounted for in a graph, each once. -/
structure Accounted (r : GraphBuilder) (g : ModuleGraph) : Prop where
  /-- What is held of a module that states facts accounts for the imports that stand there. -/
  imports : ∀ p m facts, Table.find? p g.modules = some m → m.facts = some facts →
    r.factsOf p = .ok facts ∧
      Accounts r p facts.imports (g.outEdges p) (g.unresolved.filter (·.importer = p))
        (g.externalsOf p)
  /-- Nothing is held of a module with a fault. -/
  faulty : ∀ p m, Table.find? p g.modules = some m → m.fault.isSome = true →
    g.outEdges p = [] ∧ g.unresolved.filter (·.importer = p) = [] ∧ g.externalsOf p = []
  /-- Nothing is held of what is no module of the graph. -/
  others : ∀ p, g.hasModule p = false →
    g.outEdges p = [] ∧ g.unresolved.filter (·.importer = p) = [] ∧ g.externalsOf p = []
  /-- The edges that leave a module are its own among all edges. -/
  edges : ∀ p, g.outEdges p = g.edges.filter (·.importer = p)
  /-- There is one record for each edge that leads nowhere, in the same order. -/
  records : List.Forall₂ RecordOf (deadEdges g) g.unresolved

/-- Whatever the order in which readings end, a built graph accounts for each import of each of its
modules once: by an edge that ends at the module found, by an edge without an end and a record, or
as supplied at run time and without an edge.  Modules with a fault have no edges, and there is one
record for each edge that leads nowhere. -/
theorem imports_accounted_for (r : GraphBuilder) (order : EndOrder) (main : Path) (g : ModuleGraph)
    (h : buildGraphIn r order main = .ok g) : Accounted r g := by
  have hpass := (buildGraphIn_eq_ok_iff.1 h).2
  have hcomplete := hpass.complete
  have hmodule : ∀ {p m}, Table.find? p g.modules = some m →
      m = moduleAt r p ∧ ∃ links, Settled r g p links := by
    intro p m hm
    rw [hcomplete.find?_modules] at hm
    split at hm
    · rename_i hp
      exact ⟨(Option.some.inj hm).symm, hcomplete.settled p hp⟩
    · cases hm
  have hnothing : ∀ {p}, g.traceOf p = {} →
      g.outEdges p = [] ∧ g.unresolved.filter (·.importer = p) = [] ∧ g.externalsOf p = [] :=
    fun ht => ⟨congrArg Trace.edges ht, congrArg Trace.unresolved ht, congrArg Trace.externals ht⟩
  refine ⟨fun p m facts hm hfacts => ?_, fun p m hm hfault => ?_, fun p hp => ?_, hcomplete.edges,
    hpass.records⟩
  · obtain ⟨rfl, links, hlinks⟩ := hmodule hm
    obtain ⟨hread, himports⟩ := importsAt_of_facts hfacts
    exact ⟨hread, himports ▸ hlinks.accounts⟩
  · obtain ⟨rfl, links, hlinks⟩ := hmodule hm
    have hresolved := hlinks.resolved
    rw [importsAt_of_fault hfault] at hresolved
    cases hresolved
    exact hnothing hlinks.trace
  · exact hnothing (hcomplete.tidy p hp)

/-- Scripts with imports of all kinds, two of one module, one that leads nowhere and one that is
supplied at run time.  The last script has a fault. -/
def mixedScripts : List (String × PlainScript) := [
  ("app.js", [.load "rsvp", .take "a" "./names.js", .load "./gone.js", .pass "./names.js",
    .wait "./later.js"]),
  ("names.js", [.offer "a"]),
  ("later.js", [.load "./names.js", .load "./broken.js"]),
  ("broken.js", [.load "./app.js"])]

/-- A parser knows all of them but the last one. -/
def mixedBuilder : GraphBuilder :=
  { plainBuilder mixedScripts with
    parse := PlainScript.parser (mixedScripts.dropLast.map Prod.snd) }

theorem imports_accounted_for_mixed :
    ∃ g, buildGraphIn mixedBuilder .asked (appFile "app.js") = .ok g ∧
      ((g.modules.map fun e => (e.2.id, e.2.fault.isSome)) =
          [("./app.js", false), ("./names.js", false), ("./later.js", false),
            ("./broken.js", true)] ∧
        (g.edges.map fun e => (g.idOf e.importer, e.kind, g.targetId e.target)) =
          [("./app.js", .static, "./names.js"), ("./app.js", .static, unresolvedName),
            ("./app.js", .reexport, "./names.js"), ("./app.js", .dynamic, "./later.js"),
            ("./later.js", .static, "./names.js"), ("./later.js", .static, "./broken.js")] ∧
        (g.unresolved.map fun u => (u.specifier, u.line)) = [("./gone.js", 3)] ∧
        g.externalsOf (appFile "app.js") = ["rsvp"]) ∧
      Accounted mixedBuilder g := by
  refine exists_ok_and ?_ fun g hg _ => imports_accounted_for _ _ _ g hg
  decide +kernel

end BundleReach
