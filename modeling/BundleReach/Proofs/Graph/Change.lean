import BundleReach.Graph.Build
import BundleReach.Proofs.Outcome

/-!
# What changes do to a graph

Each change of a graph is told by what it does to the graph's views: its modules, the edges that
leave a module, what a module imports from the run time, and its bundle entries.  All later proofs
go by these equations and leave the tables that hold the views closed.
-/

namespace BundleReach

namespace ModuleGraph

variable {g : ModuleGraph} {p q : Path}

/-- What a module imports that is supplied at run time. -/
def externalsOf (g : ModuleGraph) (p : Path) : List String := (Table.find? p g.external).getD []

theorem hasModule_iff : g.hasModule p = true ↔ p ∈ Table.keys g.modules := Table.has_iff_mem_keys

theorem not_hasModule_iff : g.hasModule p = false ↔ p ∉ Table.keys g.modules := by
  rw [← hasModule_iff, Bool.not_eq_true]

/-! ## One more edge -/

theorem outEdges_addEdge_self (e : ImportEdge) :
    (g.addEdge e).outEdges e.importer = g.outEdges e.importer ++ [e] := by
  simp only [outEdges, addEdge, Table.find?_change_self, Option.getD_some]

theorem outEdges_addEdge_of_ne {e : ImportEdge} (h : p ≠ e.importer) :
    (g.addEdge e).outEdges p = g.outEdges p := by
  simp only [outEdges, addEdge, Table.find?_change_of_ne h]

/-! ## One more import from the run time -/

theorem externalsOf_addExternal_self (specifier : String) :
    (g.addExternal p specifier).externalsOf p = g.externalsOf p ++ [specifier] := by
  simp only [externalsOf, addExternal, Table.find?_change_self, Option.getD_some]

theorem externalsOf_addExternal_of_ne (h : q ≠ p) (specifier : String) :
    (g.addExternal p specifier).externalsOf q = g.externalsOf q := by
  simp only [externalsOf, addExternal, Table.find?_change_of_ne h]

/-! ## One more module -/

section

variable {m : Module}

theorem addModule_of_hasModule (h : g.hasModule m.path = true) : g.addModule m = g := by
  rw [addModule, if_pos h]

theorem modules_addModule (h : g.hasModule m.path = false) :
    (g.addModule m).modules = g.modules ++ [(m.path, m)] := by
  rw [addModule, if_neg (by simp [h])]
  exact Table.put_of_not_mem m (not_hasModule_iff.1 h)

@[simp] theorem root_addModule : (g.addModule m).root = g.root := by
  rw [addModule]
  split <;> rfl

@[simp] theorem edges_addModule : (g.addModule m).edges = g.edges := by
  rw [addModule]
  split <;> rfl

@[simp] theorem bundleEntries_addModule : (g.addModule m).bundleEntries = g.bundleEntries := by
  rw [addModule]
  split <;> rfl

@[simp] theorem unresolved_addModule : (g.addModule m).unresolved = g.unresolved := by
  rw [addModule]
  split <;> rfl

@[simp] theorem externalsOf_addModule : (g.addModule m).externalsOf p = g.externalsOf p := by
  rw [addModule]
  split <;> rfl

theorem hasModule_addModule :
    (g.addModule m).hasModule p = true ↔ g.hasModule p = true ∨ p = m.path := by
  cases h : g.hasModule m.path with
  | true =>
    rw [addModule_of_hasModule h]
    exact ⟨.inl, fun h' => h'.elim id fun e => e ▸ h⟩
  | false => simp [hasModule_iff, modules_addModule h, Table.keys]

theorem outEdges_addModule_of_ne (h : p ≠ m.path) :
    (g.addModule m).outEdges p = g.outEdges p := by
  rw [addModule]
  split
  · rfl
  · simp only [outEdges, Table.find?_put_of_ne h]

theorem outEdges_addModule_self (h : g.hasModule m.path = false) :
    (g.addModule m).outEdges m.path = [] := by
  rw [addModule, if_neg (by simp [h])]
  simp only [outEdges, Table.find?_put_self, Option.getD_some]

end

end ModuleGraph

/-! ## One more link -/

namespace Link

/-- The edge that a link brings: none if its end is supplied at run time. -/
def edge? (l : Link) (importer : Path) : Option ImportEdge :=
  if l.resolution = .supplied then none else some (l.edge importer)

/-- What a link imports that is supplied at run time. -/
def external? (l : Link) : Option String :=
  if l.resolution = .supplied then some l.ref.specifier else none

/-- What is recorded of a link that leads nowhere. -/
def record? (l : Link) (importer : Path) : Option UnresolvedImport :=
  match l.resolution with
  | .failed deadEnd => some ⟨importer, l.ref.specifier, l.ref.kind, deadEnd.reason, l.ref.line⟩
  | _ => none

variable {l : Link} {p q : Path}

theorem target?_eq_some_iff : l.target? = some q ↔ ∃ route, l.resolution = .found q route := by
  rw [target?]
  split
  · rename_i p route h
    rw [h]
    exact ⟨fun e => ⟨route, by rw [Option.some.inj e]⟩, fun ⟨_, e⟩ => by cases e; rfl⟩
  · rename_i hn
    exact ⟨fun e => (by cases e), fun ⟨route, e⟩ => absurd e (hn q route)⟩

theorem loads?_eq_some_iff : l.loads? = some q ↔ l.ref.kind ≠ .dynamic ∧ l.target? = some q := by
  rw [loads?]
  split <;> simp_all

theorem defers?_eq_some_iff : l.defers? = some q ↔ l.ref.kind = .dynamic ∧ l.target? = some q := by
  rw [defers?]
  split <;> simp_all

/-- The end of a link is loaded with its importer, or a bundle begins at it. -/
theorem loads?_or_defers? (h : l.target? = some q) : l.loads? = some q ∨ l.defers? = some q := by
  by_cases hk : l.ref.kind = .dynamic
  · exact .inr (defers?_eq_some_iff.2 ⟨hk, h⟩)
  · exact .inl (loads?_eq_some_iff.2 ⟨hk, h⟩)

end Link

namespace ModuleGraph

variable {g : ModuleGraph} {p q : Path} {l : Link}

/-! ### The three sorts of links -/

theorem addLink_supplied (h : l.resolution = .supplied) :
    g.addLink p l = g.addExternal p l.ref.specifier := by
  rw [addLink, h]

theorem addLink_failed {deadEnd : DeadEnd} (h : l.resolution = .failed deadEnd) :
    g.addLink p l = (g.addEdge (l.edge p)).addUnresolved
      ⟨p, l.ref.specifier, l.ref.kind, deadEnd.reason, l.ref.line⟩ := by
  rw [addLink, h]

theorem addLink_found {route : Route} (h : l.resolution = .found q route) :
    g.addLink p l = if l.ref.kind = .dynamic then (g.addEdge (l.edge p)).addBundleEntry q
      else g.addEdge (l.edge p) := by
  rw [addLink, h]

/-! ### What a link does to the views -/

@[simp] theorem root_addLink : (g.addLink p l).root = g.root := by
  cases h : l.resolution with
  | supplied => rw [addLink_supplied h]; rfl
  | failed deadEnd => rw [addLink_failed h]; rfl
  | found q route => rw [addLink_found h]; split <;> rfl

@[simp] theorem modules_addLink : (g.addLink p l).modules = g.modules := by
  cases h : l.resolution with
  | supplied => rw [addLink_supplied h]; rfl
  | failed deadEnd => rw [addLink_failed h]; rfl
  | found q route => rw [addLink_found h]; split <;> rfl

@[simp] theorem hasModule_addLink : (g.addLink p l).hasModule q = g.hasModule q := by
  rw [hasModule, modules_addLink, hasModule]

theorem edges_addLink : (g.addLink p l).edges = g.edges ++ (l.edge? p).toList := by
  cases h : l.resolution with
  | supplied => simp [addLink_supplied h, Link.edge?, h, addExternal]
  | failed deadEnd => simp [addLink_failed h, Link.edge?, h, addUnresolved, addEdge]
  | found q route =>
    rw [addLink_found h]
    split <;> simp [Link.edge?, h, addBundleEntry, addEdge]

theorem unresolved_addLink :
    (g.addLink p l).unresolved = g.unresolved ++ (l.record? p).toList := by
  cases h : l.resolution with
  | supplied => simp [addLink_supplied h, Link.record?, h, addExternal]
  | failed deadEnd => simp [addLink_failed h, Link.record?, h, addUnresolved, addEdge]
  | found q route =>
    rw [addLink_found h]
    split <;> simp [Link.record?, h, addBundleEntry, addEdge]

theorem bundleEntries_addLink :
    (g.addLink p l).bundleEntries =
      match l.defers? with
      | some q => joinOnce q g.bundleEntries
      | none => g.bundleEntries := by
  cases h : l.resolution with
  | supplied => simp [addLink_supplied h, Link.defers?, Link.target?, h, addExternal]
  | failed deadEnd =>
    simp [addLink_failed h, Link.defers?, Link.target?, h, addUnresolved, addEdge]
  | found q route =>
    rw [addLink_found h]
    split <;> simp [*, Link.defers?, Link.target?, addBundleEntry, addEdge]

theorem nodup_bundleEntries_addLink (h : g.bundleEntries.Nodup) :
    (g.addLink p l).bundleEntries.Nodup := by
  rw [bundleEntries_addLink]
  split
  · exact nodup_joinOnce _ h
  · exact h

theorem outEdges_addLink_self :
    (g.addLink p l).outEdges p = g.outEdges p ++ (l.edge? p).toList := by
  have hself : (g.addEdge (l.edge p)).outEdges p = g.outEdges p ++ [l.edge p] :=
    outEdges_addEdge_self (l.edge p)
  cases h : l.resolution with
  | supplied => simp [addLink_supplied h, Link.edge?, h, addExternal, outEdges]
  | failed deadEnd =>
    rw [addLink_failed h, Link.edge?, if_neg (by simp [h])]
    exact hself
  | found q route =>
    rw [Link.edge?, if_neg (by simp [h]), addLink_found h]
    split <;> exact hself

theorem outEdges_addLink_of_ne (hq : q ≠ p) : (g.addLink p l).outEdges q = g.outEdges q := by
  have hne : (g.addEdge (l.edge p)).outEdges q = g.outEdges q := outEdges_addEdge_of_ne hq
  cases h : l.resolution with
  | supplied => rw [addLink_supplied h]; rfl
  | failed deadEnd => rw [addLink_failed h]; exact hne
  | found q route => rw [addLink_found h]; split <;> exact hne

theorem externalsOf_addLink_self :
    (g.addLink p l).externalsOf p = g.externalsOf p ++ l.external?.toList := by
  cases h : l.resolution with
  | supplied =>
    rw [addLink_supplied h, externalsOf_addExternal_self, Link.external?, if_pos h]
    rfl
  | failed deadEnd =>
    simp [addLink_failed h, Link.external?, h, externalsOf, addEdge, addUnresolved]
  | found q route =>
    rw [addLink_found h]
    split <;> simp [Link.external?, h, externalsOf, addEdge, addBundleEntry]

theorem externalsOf_addLink_of_ne (hq : q ≠ p) :
    (g.addLink p l).externalsOf q = g.externalsOf q := by
  cases h : l.resolution with
  | supplied => rw [addLink_supplied h]; exact externalsOf_addExternal_of_ne hq _
  | failed deadEnd => rw [addLink_failed h]; rfl
  | found q route => rw [addLink_found h]; split <;> rfl

end ModuleGraph

/-! ## All links of a module -/

section

variable {r : GraphBuilder} {p : Path} {refs : List ImportRef} {links : List Link}

theorem resolveLinks_cons_eq_ok_iff {ref : ImportRef} :
    resolveLinks r p (ref :: refs) = .ok links ↔ ∃ resolution rest,
      r.resolve p ref.specifier = .ok resolution ∧ resolveLinks r p refs = .ok rest ∧
        ⟨ref, resolution⟩ :: rest = links := by
  rw [resolveLinks, bind_eq_ok_iff]
  refine exists_congr fun resolution => ?_
  rw [bind_eq_ok_iff, ← exists_and_left]
  exact exists_congr fun rest => and_congr_right fun _ => and_congr_right fun _ => pure_eq_ok_iff

/-- The links of a module are its imports with what they resolve to. -/
theorem mem_resolveLinks_iff (h : resolveLinks r p refs = .ok links) {l : Link} :
    l ∈ links ↔ l.ref ∈ refs ∧ r.resolve p l.ref.specifier = .ok l.resolution := by
  induction refs generalizing links with
  | nil =>
    cases h
    simp
  | cons ref refs ih =>
    obtain ⟨resolution, rest, hr, hrest, rfl⟩ := resolveLinks_cons_eq_ok_iff.1 h
    rw [List.mem_cons, ih hrest, List.mem_cons]
    constructor
    · rintro (rfl | ⟨hl, hres⟩)
      · exact ⟨.inl rfl, hr⟩
      · exact ⟨.inr hl, hres⟩
    · rintro ⟨hl | hl, hres⟩
      · refine .inl ?_
        obtain ⟨ref', resolution'⟩ := l
        cases hl
        rw [Except.ok.inj (hr.symm.trans hres)]
      · exact .inr ⟨hl, hres⟩

theorem exists_resolve_of_mem (h : resolveLinks r p refs = .ok links) {ref : ImportRef}
    (href : ref ∈ refs) : ∃ resolution, r.resolve p ref.specifier = .ok resolution := by
  induction refs generalizing links with
  | nil => cases href
  | cons ref' refs ih =>
    obtain ⟨resolution, rest, hr, hrest, -⟩ := resolveLinks_cons_eq_ok_iff.1 h
    rcases List.mem_cons.1 href with rfl | href
    · exact ⟨resolution, hr⟩
    · exact ih hrest href

end

end BundleReach
