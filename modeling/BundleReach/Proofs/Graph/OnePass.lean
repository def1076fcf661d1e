import BundleReach.Proofs.Graph.Change

/-!
# Building in one pass

The plain way to build a module graph: a recursive walk that reads a module when it first comes up,
puts it into the graph and follows its imports in the order in which they are written.  Nothing is
read ahead and nothing is remembered but the graph itself.

* `Follows` — following imports of a module, with all that comes up on the way.
* `WalksEntries`, `OnePass` — walks from one bundle entry after the other.
* `Follows.invariant`, `WalksEntries.invariant` — what a link and a module that joins keep, a walk
  keeps.
* `ModuleGraph.traceOf` — all that a graph holds of the imports of one module.
-/

namespace BundleReach

variable {r : GraphBuilder}

/-! ## The walk -/

/-- The imports of a module; one that cannot be read has none. -/
def importsAt (r : GraphBuilder) (p : Path) : List ImportRef :=
  match r.factsOf p with
  | .ok facts => facts.imports
  | .error _ => []

/-- The module at a path, read there and then. -/
def moduleAt (r : GraphBuilder) (p : Path) : Module := r.moduleFor p (some (r.factsOf p))

/-- Following imports of the module `p` one after the other takes one graph to another.  A module
that comes up for the first time is read and its own imports are followed before going on. -/
inductive Follows (r : GraphBuilder) :
    Path → List ImportRef → ModuleGraph → ModuleGraph → Prop where
  | done {p : Path} {g : ModuleGraph} : Follows r p [] g g
  | pass {p : Path} {ref : ImportRef} {rest : List ImportRef} {g g' : ModuleGraph}
      {resolution : Resolution} (resolves : r.resolve p ref.specifier = .ok resolution)
      (known : ∀ q, (Link.mk ref resolution).loads? = some q → g.hasModule q = true)
      (more : Follows r p rest (g.addLink p ⟨ref, resolution⟩) g') :
      Follows r p (ref :: rest) g g'
  | enter {p q : Path} {ref : ImportRef} {rest : List ImportRef} {g g₁ g' : ModuleGraph}
      {resolution : Resolution} (resolves : r.resolve p ref.specifier = .ok resolution)
      (loads : (Link.mk ref resolution).loads? = some q) (fresh : g.hasModule q = false)
      (inner : Follows r q (importsAt r q)
        ((g.addLink p ⟨ref, resolution⟩).addModule (moduleAt r q)) g₁)
      (more : Follows r p rest g₁ g') : Follows r p (ref :: rest) g g'

/-- Walking from the bundle entries from a number on, those included that come up on the way, takes
one graph to another. -/
inductive WalksEntries (r : GraphBuilder) : Nat → ModuleGraph → ModuleGraph → Prop where
  | done {i : Nat} {g : ModuleGraph} (last : g.bundleEntries[i]? = none) : WalksEntries r i g g
  | known {i : Nat} {p : Path} {g g' : ModuleGraph} (entry : g.bundleEntries[i]? = some p)
      (seen : g.hasModule p = true) (more : WalksEntries r (i + 1) g g') : WalksEntries r i g g'
  | walk {i : Nat} {p : Path} {g g₁ g' : ModuleGraph} (entry : g.bundleEntries[i]? = some p)
      (fresh : g.hasModule p = false)
      (inner : Follows r p (importsAt r p) (g.addModule (moduleAt r p)) g₁)
      (more : WalksEntries r (i + 1) g₁ g') : WalksEntries r i g g'

/-- The graph that one pass over the modules builds, from the main module on. -/
def OnePass (r : GraphBuilder) (main : Path) (g : ModuleGraph) : Prop :=
  WalksEntries r 0 (({ root := r.app.root } : ModuleGraph).addBundleEntry main) g

/-! ## One result -/

theorem Follows.unique {p : Path} {refs : List ImportRef} {g g₁ g₂ : ModuleGraph}
    (h₁ : Follows r p refs g g₁) (h₂ : Follows r p refs g g₂) : g₁ = g₂ := by
  induction h₁ generalizing g₂ with
  | done =>
    cases h₂
    rfl
  | pass resolves known _ ih =>
    cases h₂ with
    | pass resolves' _ more' =>
      obtain rfl := Except.ok.inj (resolves.symm.trans resolves')
      exact ih more'
    | enter resolves' loads' fresh' _ _ =>
      obtain rfl := Except.ok.inj (resolves.symm.trans resolves')
      rw [known _ loads'] at fresh'
      cases fresh'
  | enter resolves loads fresh _ _ ih₁ ih₂ =>
    cases h₂ with
    | pass resolves' known' _ =>
      obtain rfl := Except.ok.inj (resolves.symm.trans resolves')
      rw [known' _ loads] at fresh
      cases fresh
    | enter resolves' loads' _ inner' more' =>
      obtain rfl := Except.ok.inj (resolves.symm.trans resolves')
      obtain rfl := Option.some.inj (loads.symm.trans loads')
      obtain rfl := ih₁ inner'
      exact ih₂ more'

theorem WalksEntries.unique {i : Nat} {g g₁ g₂ : ModuleGraph} (h₁ : WalksEntries r i g g₁)
    (h₂ : WalksEntries r i g g₂) : g₁ = g₂ := by
  induction h₁ generalizing g₂ with
  | done last =>
    cases h₂ with
    | done => rfl
    | known entry' | walk entry' =>
      rw [last] at entry'
      cases entry'
  | known entry seen _ ih =>
    cases h₂ with
    | done last' =>
      rw [last'] at entry
      cases entry
    | known _ _ more' => exact ih more'
    | walk entry' fresh' =>
      obtain rfl := Option.some.inj (entry.symm.trans entry')
      rw [seen] at fresh'
      cases fresh'
  | walk entry fresh inner _ ih =>
    cases h₂ with
    | done last' =>
      rw [last'] at entry
      cases entry
    | known entry' seen' =>
      obtain rfl := Option.some.inj (entry.symm.trans entry')
      rw [fresh] at seen'
      cases seen'
    | walk entry' _ inner' more' =>
      obtain rfl := Option.some.inj (entry.symm.trans entry')
      obtain rfl := inner.unique inner'
      exact ih more'

/-- A module that can be read states facts. -/
theorem moduleAt_of_ok {p : Path} {facts : ModuleFacts} (h : r.factsOf p = .ok facts) :
    (moduleAt r p).facts = some facts ∧ (moduleAt r p).fault = none ∧
      importsAt r p = facts.imports := by
  rw [moduleAt, importsAt, h]
  exact ⟨rfl, rfl, rfl⟩

/-- A module that cannot be read has a fault, and nothing is known of its imports. -/
theorem moduleAt_of_error {p : Path} {fault : ModuleFault} (h : r.factsOf p = .error fault) :
    (moduleAt r p).facts = none ∧ (moduleAt r p).fault = some fault.summary ∧
      importsAt r p = [] := by
  rw [moduleAt, importsAt, h]
  exact ⟨rfl, rfl, rfl⟩

theorem hasModule_addModule_moduleAt {g : ModuleGraph} {p q : Path} :
    (g.addModule (moduleAt r q)).hasModule p = true ↔ g.hasModule p = true ∨ p = q :=
  ModuleGraph.hasModule_addModule

/-! ## Graphs only grow -/

/-- A graph has grown out of another one: modules and entries have joined after those there were. -/
structure Grows (g g' : ModuleGraph) : Prop where
  modules : g.modules <+: g'.modules
  entries : g.bundleEntries <+: g'.bundleEntries

namespace Grows

theorem refl (g : ModuleGraph) : Grows g g := ⟨List.prefix_rfl, List.prefix_rfl⟩

theorem trans {g₁ g₂ g₃ : ModuleGraph} (h : Grows g₁ g₂) (h' : Grows g₂ g₃) : Grows g₁ g₃ :=
  ⟨h.modules.trans h'.modules, h.entries.trans h'.entries⟩

theorem hasModule {g g' : ModuleGraph} (h : Grows g g') {p : Path} (hp : g.hasModule p = true) :
    g'.hasModule p = true := by
  rw [ModuleGraph.hasModule_iff] at hp ⊢
  exact (h.modules.map Prod.fst).subset hp

theorem addLink (g : ModuleGraph) (p : Path) (l : Link) : Grows g (g.addLink p l) := by
  refine ⟨by simp, ?_⟩
  rw [ModuleGraph.bundleEntries_addLink]
  split
  · exact prefix_joinOnce _ _
  · exact List.prefix_rfl

theorem addModule (g : ModuleGraph) (m : Module) : Grows g (g.addModule m) := by
  refine ⟨?_, by simp⟩
  cases h : g.hasModule m.path with
  | true => simp [ModuleGraph.addModule_of_hasModule h]
  | false =>
    rw [ModuleGraph.modules_addModule h]
    exact List.prefix_append _ _

end Grows

theorem Follows.grows {p : Path} {refs : List ImportRef} {g g' : ModuleGraph}
    (h : Follows r p refs g g') : Grows g g' := by
  induction h with
  | done => exact .refl _
  | pass _ _ _ ih => exact (Grows.addLink _ _ _).trans ih
  | enter _ _ _ _ _ ih₁ ih₂ =>
    exact (((Grows.addLink _ _ _).trans (Grows.addModule _ _)).trans ih₁).trans ih₂

theorem WalksEntries.grows {i : Nat} {g g' : ModuleGraph} (h : WalksEntries r i g g') :
    Grows g g' := by
  induction h with
  | done => exact .refl _
  | known _ _ _ ih => exact ih
  | walk _ _ inner _ ih => exact ((Grows.addModule _ _).trans inner.grows).trans ih

/-! ## Invariants -/

/-- What a link of a module in the graph and a module that joins both keep, a walk keeps. -/
theorem Follows.invariant {P : ModuleGraph → Prop}
    (hlink : ∀ g p ref resolution, r.resolve p ref.specifier = .ok resolution →
      g.hasModule p = true → P g → P (g.addLink p ⟨ref, resolution⟩))
    (hmodule : ∀ g q, g.hasModule q = false → P g → P (g.addModule (moduleAt r q)))
    {p : Path} {refs : List ImportRef} {g g' : ModuleGraph} (h : Follows r p refs g g')
    (hp : g.hasModule p = true) (hg : P g) : P g' := by
  induction h with
  | done => exact hg
  | pass resolves _ _ ih => exact ih (by simpa using hp) (hlink _ _ _ _ resolves hp hg)
  | enter resolves _ fresh inner _ ih₁ ih₂ =>
    have hq := ih₁ (hasModule_addModule_moduleAt.2 (.inr rfl))
      (hmodule _ _ (by simpa using fresh) (hlink _ _ _ _ resolves hp hg))
    refine ih₂ (inner.grows.hasModule ?_) hq
    exact hasModule_addModule_moduleAt.2 (.inl (by simpa using hp))

theorem WalksEntries.invariant {P : ModuleGraph → Prop}
    (hlink : ∀ g p ref resolution, r.resolve p ref.specifier = .ok resolution →
      g.hasModule p = true → P g → P (g.addLink p ⟨ref, resolution⟩))
    (hmodule : ∀ g q, g.hasModule q = false → P g → P (g.addModule (moduleAt r q)))
    {i : Nat} {g g' : ModuleGraph} (h : WalksEntries r i g g') (hg : P g) : P g' := by
  induction h with
  | done => exact hg
  | known _ _ _ ih => exact ih hg
  | walk _ fresh inner _ ih =>
    exact ih (inner.invariant hlink hmodule (hasModule_addModule_moduleAt.2 (.inr rfl))
      (hmodule _ _ fresh hg))

/-! ## What the graph holds of a module -/

/-- What a graph holds of the imports of one module. -/
structure Trace where
  edges : List ImportEdge := []
  externals : List String := []
  unresolved : List UnresolvedImport := []

namespace Trace

/-- One trace after another. -/
def append (s t : Trace) : Trace :=
  ⟨s.edges ++ t.edges, s.externals ++ t.externals, s.unresolved ++ t.unresolved⟩

/-- What links of a module leave in a graph. -/
def ofLinks (p : Path) (links : List Link) : Trace :=
  ⟨links.filterMap (·.edge? p), links.filterMap (·.external?), links.filterMap (·.record? p)⟩

@[simp] theorem empty_append (s : Trace) : append {} s = s := by simp [append]

theorem append_assoc (s t u : Trace) : (s.append t).append u = s.append (t.append u) := by
  simp [append]

theorem ofLinks_cons (p : Path) (l : Link) (links : List Link) :
    ofLinks p (l :: links) = (ofLinks p [l]).append (ofLinks p links) := by
  simp only [ofLinks, append, List.filterMap_cons, List.filterMap_nil]
  cases l.edge? p <;> cases l.external? <;> cases l.record? p <;> rfl

end Trace

namespace ModuleGraph

variable {g : ModuleGraph} {p q : Path} {l : Link}

/-- What a graph holds of the imports of a module. -/
def traceOf (g : ModuleGraph) (p : Path) : Trace :=
  ⟨g.outEdges p, g.externalsOf p, g.unresolved.filter (·.importer = p)⟩

theorem importer_record? {u : UnresolvedImport} (h : l.record? p = some u) : u.importer = p := by
  rw [Link.record?] at h
  split at h
  · rw [← Option.some.inj h]
  · cases h

theorem importer_edge? {e : ImportEdge} (h : l.edge? p = some e) : e.importer = p := by
  rw [Link.edge?] at h
  split at h
  · cases h
  · rw [← Option.some.inj h]
    rfl

/-- Where the edges kept for a module are its own among all edges, one more link leaves it so. -/
theorem outEdges_addLink_eq_filter (h : g.outEdges q = g.edges.filter (·.importer = q)) :
    (g.addLink p l).outEdges q = (g.addLink p l).edges.filter (·.importer = q) := by
  rw [edges_addLink, List.filter_append, ← h]
  by_cases hq : q = p
  · subst hq
    have hself : (l.edge? q).toList.filter (·.importer = q) = (l.edge? q).toList := by
      rw [List.filter_eq_self]
      intro e he
      simpa using importer_edge? (Option.mem_toList.1 he)
    rw [outEdges_addLink_self, hself]
  · have hother : (l.edge? p).toList.filter (·.importer = q) = [] := by
      rw [List.filter_eq_nil_iff]
      intro e he
      simpa [importer_edge? (Option.mem_toList.1 he)] using Ne.symm hq
    rw [outEdges_addLink_of_ne hq, hother, List.append_nil]

theorem traceOf_addLink_self :
    (g.addLink p l).traceOf p = (g.traceOf p).append (.ofLinks p [l]) := by
  have hu : (l.record? p).toList.filter (·.importer = p) = (l.record? p).toList := by
    rw [List.filter_eq_self]
    intro u hu
    simpa using importer_record? (Option.mem_toList.1 hu)
  rw [traceOf, outEdges_addLink_self, externalsOf_addLink_self, unresolved_addLink,
    List.filter_append, hu]
  simp only [Trace.append, traceOf, Trace.ofLinks, List.filterMap_cons, List.filterMap_nil]
  cases l.edge? p <;> cases l.external? <;> cases l.record? p <;> rfl

theorem traceOf_addLink_of_ne (hq : q ≠ p) : (g.addLink p l).traceOf q = g.traceOf q := by
  have hu : (l.record? p).toList.filter (·.importer = q) = [] := by
    rw [List.filter_eq_nil_iff]
    intro u hu
    simpa [importer_record? (Option.mem_toList.1 hu)] using Ne.symm hq
  rw [traceOf, outEdges_addLink_of_ne hq, externalsOf_addLink_of_ne hq, unresolved_addLink,
    List.filter_append, hu, List.append_nil, traceOf]

/-- A module that joins leaves what the graph holds of imports, if there is nothing of its own. -/
theorem traceOf_addModule {m : Module} (hf : g.hasModule m.path = false)
    (hm : g.traceOf m.path = {}) : (g.addModule m).traceOf q = g.traceOf q := by
  have hout : (g.addModule m).outEdges q = g.outEdges q := by
    by_cases hq : q = m.path
    · rw [hq, outEdges_addModule_self hf]
      exact (congrArg Trace.edges hm).symm
    · exact outEdges_addModule_of_ne hq
  rw [traceOf, hout, externalsOf_addModule, unresolved_addModule, traceOf]

/-- Nothing is held of the imports of a module before it comes up. -/
def Tidy (g : ModuleGraph) : Prop := ∀ q, g.hasModule q = false → g.traceOf q = {}

theorem Tidy.addLink (hg : g.Tidy) (hp : g.hasModule p = true) : (g.addLink p l).Tidy := by
  intro q hq
  rw [hasModule_addLink] at hq
  rw [traceOf_addLink_of_ne (fun e => by simp [e, hp] at hq), hg q hq]

theorem Tidy.addModule {m : Module} (hg : g.Tidy) (hf : g.hasModule m.path = false) :
    (g.addModule m).Tidy := by
  intro q hq
  rw [traceOf_addModule hf (hg _ hf)]
  refine hg q (Bool.eq_false_iff.2 fun h => ?_)
  rw [hasModule_addModule.2 (.inl h)] at hq
  cases hq

end ModuleGraph

theorem Follows.tidy {p : Path} {refs : List ImportRef} {g g' : ModuleGraph}
    (h : Follows r p refs g g') (hp : g.hasModule p = true) (hg : g.Tidy) : g'.Tidy :=
  h.invariant (fun _ _ _ _ _ hp hg => hg.addLink hp) (fun _ _ hf hg => hg.addModule hf) hp hg

end BundleReach
