import BundleReach.Proofs.Graph.OnePass

/-!
# Modules that are settled

A walk leaves a module when all its imports have been followed.  From then on the module is settled:
what the graph holds of its imports is what its links bring, one after the other, and whatever they
lead to has come up.  At the end of a build every module is: `OnePass.complete`.
-/

namespace BundleReach

variable {r : GraphBuilder}

/-- All links of a module are in the graph, and nothing else that would be the module's. -/
structure Settled (r : GraphBuilder) (g : ModuleGraph) (p : Path) (links : List Link) : Prop where
  resolved : resolveLinks r p (importsAt r p) = .ok links
  trace : g.traceOf p = .ofLinks p links
  /-- What is loaded with the module is in the graph. -/
  loaded : ∀ l ∈ links, ∀ q, l.loads? = some q → g.hasModule q = true
  /-- A bundle begins where the module defers to. -/
  deferred : ∀ l ∈ links, ∀ q, l.defers? = some q → q ∈ g.bundleEntries

theorem Settled.grows {g g' : ModuleGraph} {p : Path} {links : List Link} (h : Settled r g p links)
    (hg : Grows g g') (ht : g'.traceOf p = g.traceOf p) : Settled r g' p links where
  resolved := h.resolved
  trace := ht.trans h.trace
  loaded l hl q hq := hg.hasModule (h.loaded l hl q hq)
  deferred l hl q hq := hg.entries.subset (h.deferred l hl q hq)

/-! ## Where a walk may go on -/

/-- A walk may follow imports of a module: it has come up, and nothing is held of modules that have
not. -/
structure Ready (g : ModuleGraph) (p : Path) : Prop where
  here : g.hasModule p = true
  tidy : g.Tidy

namespace Ready

variable {g g' : ModuleGraph} {p q : Path} {l : Link}

theorem addLink (h : Ready g p) : Ready (g.addLink p l) p :=
  ⟨by simpa using h.here, h.tidy.addLink h.here⟩

theorem at_other (h : Ready g p) (hq : g.hasModule q = true) : Ready g q := ⟨hq, h.tidy⟩

theorem addModule (hg : g.Tidy) (hf : g.hasModule q = false) :
    Ready (g.addModule (moduleAt r q)) q :=
  ⟨hasModule_addModule_moduleAt.2 (.inr rfl), hg.addModule hf⟩

/-- After a link to a module that comes up for the first time, the walk may go on there. -/
theorem enter (h : Ready g p) (hf : g.hasModule q = false) :
    Ready ((g.addLink p l).addModule (moduleAt r q)) q :=
  addModule h.addLink.tidy (by simpa using hf)

end Ready

/-- A module that comes up leaves what is held of all modules. -/
theorem traceOf_addModule_moduleAt {g : ModuleGraph} {q : Path} (hg : g.Tidy)
    (hf : g.hasModule q = false) (x : Path) :
    (g.addModule (moduleAt r q)).traceOf x = g.traceOf x :=
  ModuleGraph.traceOf_addModule hf (hg _ hf)

/-! ## What following imports brings -/

/-- Imports of a module have been followed from one graph to another: their links have joined what
is held of the module, and what they lead to has come up. -/
structure Brings (r : GraphBuilder) (p : Path) (refs : List ImportRef) (g g' : ModuleGraph)
    (links : List Link) : Prop where
  resolved : resolveLinks r p refs = .ok links
  trace : g'.traceOf p = (g.traceOf p).append (.ofLinks p links)
  loaded : ∀ l ∈ links, ∀ q, l.loads? = some q → g'.hasModule q = true
  deferred : ∀ l ∈ links, ∀ q, l.defers? = some q → q ∈ g'.bundleEntries

theorem Brings.nil (p : Path) (g : ModuleGraph) : Brings r p [] g g [] where
  resolved := rfl
  trace := by simp [Trace.ofLinks, Trace.append]
  loaded l hl := by cases hl
  deferred l hl := by cases hl

/-- One import more, followed first: the graph after it holds what it brings. -/
theorem Brings.cons {p : Path} {ref : ImportRef} {rest : List ImportRef} {g g₁ g' : ModuleGraph}
    {resolution : Resolution} {links : List Link} (more : Brings r p rest g₁ g' links)
    (resolves : r.resolve p ref.specifier = .ok resolution)
    (htrace : g₁.traceOf p = (g.traceOf p).append (.ofLinks p [⟨ref, resolution⟩]))
    (hgrows : Grows (g.addLink p ⟨ref, resolution⟩) g₁) (hgrows' : Grows g₁ g')
    (hloads : ∀ q, (Link.mk ref resolution).loads? = some q → g₁.hasModule q = true) :
    Brings r p (ref :: rest) g g' (⟨ref, resolution⟩ :: links) := by
  refine ⟨resolveLinks_cons_eq_ok_iff.2 ⟨resolution, links, resolves, more.resolved, rfl⟩, ?_,
    fun l hl q hq => ?_, fun l hl q hq => ?_⟩
  · rw [more.trace, htrace, Trace.append_assoc, ← Trace.ofLinks_cons]
  · rcases List.mem_cons.1 hl with rfl | hl
    · exact hgrows'.hasModule (hloads q hq)
    · exact more.loaded l hl q hq
  · rcases List.mem_cons.1 hl with rfl | hl
    · refine (hgrows.trans hgrows').entries.subset ?_
      rw [ModuleGraph.bundleEntries_addLink, hq]
      exact mem_joinOnce.2 (.inr rfl)
    · exact more.deferred l hl q hq

namespace Follows

variable {p : Path} {refs : List ImportRef} {g g' : ModuleGraph}

theorem ready (h : Follows r p refs g g') (hg : Ready g p) : Ready g' p :=
  ⟨h.grows.hasModule hg.here, h.tidy hg.here hg.tidy⟩

/-- Following imports of a module leaves alone what is held of the others in the graph. -/
theorem traceOf_of_ne (h : Follows r p refs g g') (hg : Ready g p) {q : Path}
    (hq : g.hasModule q = true) (hqp : q ≠ p) : g'.traceOf q = g.traceOf q := by
  induction h generalizing q with
  | done => rfl
  | pass _ _ _ ih =>
    rw [ih hg.addLink (by simpa using hq) hqp, ModuleGraph.traceOf_addLink_of_ne hqp]
  | @enter p q' ref rest g g₁ g' resolution _ _ fresh inner more ih₁ ih₂ =>
    have hready : Ready ((g.addLink p ⟨ref, resolution⟩).addModule (moduleAt r q')) q' :=
      hg.enter fresh
    have hkeep : ∀ {x}, g.hasModule x = true →
        ((g.addLink p ⟨ref, resolution⟩).addModule (moduleAt r q')).hasModule x = true :=
      fun hx => hasModule_addModule_moduleAt.2 (.inl (by simpa using hx))
    have hne : q ≠ q' := fun e => by simp [← e, hq] at fresh
    have hback := (inner.ready hready).at_other (inner.grows.hasModule (hkeep hg.here))
    calc g'.traceOf q
        = g₁.traceOf q := ih₂ hback (inner.grows.hasModule (hkeep hq)) hqp
      _ = ((g.addLink p ⟨ref, resolution⟩).addModule (moduleAt r q')).traceOf q :=
          ih₁ hready (hkeep hq) hne
      _ = (g.addLink p ⟨ref, resolution⟩).traceOf q :=
          traceOf_addModule_moduleAt hg.addLink.tidy (by simpa using fresh) q
      _ = g.traceOf q := ModuleGraph.traceOf_addLink_of_ne hqp

/-- What the walk has entered stays ready for what follows, and nothing of the importer changes. -/
theorem after_enter {q : Path} {l : Link} {g₁ : ModuleGraph} (hg : Ready g p)
    (fresh : g.hasModule q = false)
    (inner : Follows r q (importsAt r q) ((g.addLink p l).addModule (moduleAt r q)) g₁) :
    Ready g₁ p ∧ Grows (g.addLink p l) g₁ ∧
      g₁.traceOf p = (g.traceOf p).append (.ofLinks p [l]) := by
  have hready : Ready ((g.addLink p l).addModule (moduleAt r q)) q := hg.enter fresh
  have hp : ((g.addLink p l).addModule (moduleAt r q)).hasModule p = true :=
    hasModule_addModule_moduleAt.2 (.inl (by simpa using hg.here))
  have hne : p ≠ q := fun e => by simp [← e, hg.here] at fresh
  refine ⟨(inner.ready hready).at_other (inner.grows.hasModule hp),
    (Grows.addModule _ _).trans inner.grows, ?_⟩
  rw [inner.traceOf_of_ne hready hp hne,
    traceOf_addModule_moduleAt hg.addLink.tidy (by simpa using fresh),
    ModuleGraph.traceOf_addLink_self]

/-- Following imports brings their links into the graph. -/
theorem exists_brings (h : Follows r p refs g g') (hg : Ready g p) :
    ∃ links, Brings r p refs g g' links := by
  induction h with
  | done => exact ⟨[], .nil _ _⟩
  | pass resolves known more ih =>
    obtain ⟨links, hlinks⟩ := ih hg.addLink
    refine ⟨_, hlinks.cons resolves ModuleGraph.traceOf_addLink_self (.refl _) more.grows ?_⟩
    intro q hq
    simpa using known q hq
  | enter resolves loads fresh inner more _ ih₂ =>
    obtain ⟨hback, hgrows, htrace⟩ := after_enter hg fresh inner
    obtain ⟨links, hlinks⟩ := ih₂ hback
    refine ⟨_, hlinks.cons resolves htrace hgrows more.grows fun q hq => ?_⟩
    rw [Option.some.inj (hq.symm.trans loads)]
    exact inner.grows.hasModule (hasModule_addModule_moduleAt.2 (.inr rfl))

/-- A module whose imports have been followed from the first to the last is settled. -/
theorem settled_self {q : Path} (h : Follows r q (importsAt r q) g g') (hg : Ready g q)
    (ht : g.traceOf q = {}) : ∃ links, Settled r g' q links := by
  obtain ⟨links, hlinks⟩ := h.exists_brings hg
  refine ⟨links, hlinks.resolved, ?_, hlinks.loaded, hlinks.deferred⟩
  rw [hlinks.trace, ht, Trace.empty_append]

/-- Modules that come up on the way are settled at the end. -/
theorem settled_of_fresh (h : Follows r p refs g g') (hg : Ready g p) {q : Path}
    (hq : g.hasModule q = false) (hq' : g'.hasModule q = true) :
    ∃ links, Settled r g' q links := by
  induction h generalizing q with
  | done => simp [hq] at hq'
  | pass _ _ _ ih => exact ih hg.addLink (by simpa using hq) hq'
  | @enter p q' ref rest g g₁ g' resolution _ _ fresh inner more ih₁ ih₂ =>
    obtain ⟨hback, -, -⟩ := after_enter hg fresh inner
    have hready : Ready ((g.addLink p ⟨ref, resolution⟩).addModule (moduleAt r q')) q' :=
      hg.enter fresh
    cases hq₁ : g₁.hasModule q with
    | false => exact ih₂ hback hq₁ hq'
    | true =>
      have hsettled : ∃ links, Settled r g₁ q links := by
        by_cases hne : q = q'
        · subst hne
          refine inner.settled_self hready ?_
          rw [traceOf_addModule_moduleAt hg.addLink.tidy (by simpa using fresh)]
          exact hg.addLink.tidy _ (by simpa using fresh)
        · refine ih₁ hready (Bool.eq_false_iff.2 fun hm => ?_) hq₁
          rcases hasModule_addModule_moduleAt.1 hm with hm | hm
          · simp [hq] at hm
          · exact hne hm
      obtain ⟨links, hs⟩ := hsettled
      have hqp : q ≠ p := fun e => by simp [e, hg.here] at hq
      exact ⟨links, hs.grows more.grows (more.traceOf_of_ne hback hq₁ hqp)⟩

end Follows

/-! ## The end of a build -/

namespace WalksEntries

variable {i : Nat} {g g' : ModuleGraph}

theorem settled (h : WalksEntries r i g g') (hg : g.Tidy)
    (hs : ∀ q, g.hasModule q = true → ∃ links, Settled r g q links) {q : Path}
    (hq : g'.hasModule q = true) : ∃ links, Settled r g' q links := by
  induction h with
  | done => exact hs q hq
  | known _ _ _ ih => exact ih hg hs hq
  | @walk i p g g₁ g' _ fresh inner _ ih =>
    have hready : Ready (g.addModule (moduleAt r p)) p := .addModule hg fresh
    have hkeep := traceOf_addModule_moduleAt (r := r) hg fresh
    refine ih (inner.ready hready).tidy (fun x hx => ?_) hq
    by_cases hxp : x = p
    · subst hxp
      exact inner.settled_self hready ((hkeep x).trans (hg x fresh))
    · cases hxg : g.hasModule x with
      | true =>
        have hx₁ := hasModule_addModule_moduleAt (r := r) (q := p) |>.2 (.inl hxg)
        obtain ⟨links, hx⟩ := hs x hxg
        exact ⟨links, hx.grows ((Grows.addModule _ _).trans inner.grows)
          ((inner.traceOf_of_ne hready hx₁ hxp).trans (hkeep x))⟩
      | false =>
        refine inner.settled_of_fresh hready (Bool.eq_false_iff.2 fun hm => ?_) hx
        rcases hasModule_addModule_moduleAt.1 hm with hm | hm
        · simp [hxg] at hm
        · exact hxp hm

/-- Every bundle entry has come up at the end, if those before the first one looked at have. -/
theorem hasModule_of_mem (h : WalksEntries r i g g')
    (hb : ∀ j p, j < i → g.bundleEntries[j]? = some p → g.hasModule p = true) {p : Path}
    (hp : p ∈ g'.bundleEntries) : g'.hasModule p = true := by
  induction h with
  | @done i g last =>
    obtain ⟨j, hj⟩ := List.mem_iff_getElem?.1 hp
    refine hb j p (Nat.lt_of_not_le fun hij => ?_) hj
    rw [List.getElem?_eq_none_iff] at last
    rw [List.getElem?_eq_none (Nat.le_trans last hij)] at hj
    cases hj
  | @known i x g g' entry seen _ ih =>
    refine ih (fun j y hj hy => ?_) hp
    rcases Nat.lt_succ_iff_lt_or_eq.1 hj with hj | rfl
    · exact hb j y hj hy
    · rw [← Option.some.inj (entry.symm.trans hy)]
      exact seen
  | @walk i x g g₁ g' entry _ inner _ ih =>
    have hgrows := (Grows.addModule g (moduleAt r x)).trans inner.grows
    refine ih (fun j y hj hy => ?_) hp
    have hlen : i < g.bundleEntries.length := (List.getElem?_eq_some_iff.1 entry).1
    have hold : ∀ k, k ≤ i → g₁.bundleEntries[k]? = g.bundleEntries[k]? := by
      intro k hk
      obtain ⟨more, hmore⟩ := hgrows.entries
      rw [← hmore, List.getElem?_append_left (by omega)]
    rw [hold j (by omega)] at hy
    rcases Nat.lt_succ_iff_lt_or_eq.1 hj with hj | rfl
    · exact hgrows.hasModule (hb j y hj hy)
    · rw [← Option.some.inj (entry.symm.trans hy)]
      exact inner.grows.hasModule (hasModule_addModule_moduleAt.2 (.inr rfl))

end WalksEntries

/-- What is true of a graph that has been built to the end. -/
structure Complete (r : GraphBuilder) (main : Path) (g : ModuleGraph) : Prop where
  root : g.root = r.app.root
  main_mem : main ∈ g.bundleEntries
  nodup_entries : g.bundleEntries.Nodup
  entries : ∀ p ∈ g.bundleEntries, g.hasModule p = true
  settled : ∀ p, g.hasModule p = true → ∃ links, Settled r g p links
  nodup : (Table.keys g.modules).Nodup
  modules : ∀ e ∈ g.modules, e = (e.1, moduleAt r e.1)
  /-- The edges kept for a module are its own among all edges. -/
  edges : ∀ p, g.outEdges p = g.edges.filter (·.importer = p)
  tidy : g.Tidy

/-- A module carries its path as seen from the root. -/
theorem Complete.id_of_mem {main : Path} {g : ModuleGraph} (h : Complete r main g)
    {e : Path × Module} (he : e ∈ g.modules) : e.2.id = g.idOf e.1 := by
  rw [ModuleGraph.idOf, h.root]
  exact congrArg (fun e => Module.id e.2) (h.modules e he)

namespace OnePass

variable {main : Path} {g : ModuleGraph}

/-- What a graph without modules has, and what links and joining modules keep, a built graph has. -/
theorem invariant {P : ModuleGraph → Prop} (h : OnePass r main g)
    (hstart : P { root := r.app.root, bundleEntries := [main] })
    (hlink : ∀ g p ref resolution, r.resolve p ref.specifier = .ok resolution →
      g.hasModule p = true → P g → P (g.addLink p ⟨ref, resolution⟩))
    (hmodule : ∀ g q, g.hasModule q = false → P g → P (g.addModule (moduleAt r q))) : P g :=
  WalksEntries.invariant hlink hmodule h hstart

theorem nodup_entries (h : OnePass r main g) : g.bundleEntries.Nodup := by
  refine h.invariant (P := fun g => g.bundleEntries.Nodup) (List.pairwise_singleton _ main) ?_ ?_
  · intro g p ref resolution _ _ hg
    exact ModuleGraph.nodup_bundleEntries_addLink hg
  · intro g q _ hg
    rwa [ModuleGraph.bundleEntries_addModule]

/-- Every module comes up once, as it is read there and then. -/
theorem modules (h : OnePass r main g) :
    (Table.keys g.modules).Nodup ∧ ∀ e ∈ g.modules, e = (e.1, moduleAt r e.1) := by
  refine h.invariant (P := fun g => (Table.keys g.modules).Nodup ∧
    ∀ e ∈ g.modules, e = (e.1, moduleAt r e.1)) ⟨List.nodup_nil, by simp⟩ ?_ ?_
  · intro g p ref resolution _ _ hg
    rwa [ModuleGraph.modules_addLink]
  · rintro g q hq ⟨hnodup, heq⟩
    have hq' : g.hasModule (moduleAt r q).path = false := hq
    rw [ModuleGraph.modules_addModule hq', Table.keys_append]
    refine ⟨?_, ?_⟩
    · rw [List.nodup_append]
      refine ⟨hnodup, List.pairwise_singleton _ _, fun a ha b hb => ?_⟩
      rw [List.mem_singleton.1 hb]
      rintro rfl
      exact ModuleGraph.not_hasModule_iff.1 hq ha
    · intro e he
      rcases List.mem_append.1 he with he | he
      · exact heq e he
      · rw [List.mem_singleton.1 he]
        rfl

/-- The edges kept for a module are those edges of the graph that leave it, in the same order. -/
theorem outEdges_eq_filter (h : OnePass r main g) (p : Path) :
    g.outEdges p = g.edges.filter (·.importer = p) := by
  refine (h.invariant (P := fun g => g.Tidy ∧ ∀ p, g.outEdges p = g.edges.filter (·.importer = p))
    ⟨fun _ _ => rfl, fun _ => rfl⟩ ?_ ?_).2 p
  · rintro g p ref resolution _ hp ⟨htidy, hout⟩
    exact ⟨htidy.addLink hp, fun q => ModuleGraph.outEdges_addLink_eq_filter (hout q)⟩
  · rintro g q hq ⟨htidy, hout⟩
    refine ⟨htidy.addModule hq, fun x => ?_⟩
    have hkeep : (g.addModule (moduleAt r q)).outEdges x = g.outEdges x :=
      congrArg Trace.edges (traceOf_addModule_moduleAt htidy hq x)
    rw [hkeep, ModuleGraph.edges_addModule, hout x]

theorem complete (h : OnePass r main g) : Complete r main g where
  root := h.invariant (P := fun g => g.root = r.app.root) rfl
    (fun g p ref resolution _ _ hg => by rwa [ModuleGraph.root_addLink])
    (fun g q _ hg => by rwa [ModuleGraph.root_addModule])
  main_mem := h.grows.entries.subset (List.mem_singleton.2 rfl)
  nodup_entries := h.nodup_entries
  entries p hp := h.hasModule_of_mem (fun j p hj => absurd hj (Nat.not_lt_zero j)) hp
  settled p hp := h.settled (fun _ _ => rfl) (fun q hq => by cases hq) hp
  nodup := h.modules.1
  modules := h.modules.2
  edges := h.outEdges_eq_filter
  tidy := h.invariant (fun _ _ => rfl) (fun _ _ _ _ _ hp hg => hg.addLink hp)
    fun _ _ hf hg => hg.addModule hf

end OnePass

namespace Complete

variable {main : Path} {g : ModuleGraph}

/-- A module of the graph is what is found under its path. -/
theorem find?_modules (h : Complete r main g) {p : Path} :
    Table.find? p g.modules = if g.hasModule p then some (moduleAt r p) else none := by
  cases hp : g.hasModule p with
  | false => exact Table.find?_eq_none_iff.2 (ModuleGraph.not_hasModule_iff.1 hp)
  | true =>
    obtain ⟨m, hm⟩ := Table.mem_keys_iff.1 (ModuleGraph.hasModule_iff.1 hp)
    have hmodule : (p, m) = (p, moduleAt r p) := h.modules (p, m) (Table.mem_of_find? hm)
    rw [hm, (Prod.mk.inj hmodule).2]
    rfl

/-- The edges that leave a module are its imports, but for those supplied at run time. -/
theorem mem_outEdges_iff (h : Complete r main g) {p : Path} {e : ImportEdge} :
    e ∈ g.outEdges p ↔ g.hasModule p = true ∧ ∃ ref ∈ importsAt r p, ∃ resolution,
      r.resolve p ref.specifier = .ok resolution ∧ resolution ≠ .supplied ∧
        e = (Link.mk ref resolution).edge p := by
  cases hp : g.hasModule p with
  | false =>
    have hnone : g.outEdges p = [] := congrArg Trace.edges (h.tidy p hp)
    simp [hnone]
  | true =>
    obtain ⟨links, hlinks⟩ := h.settled p hp
    have hout : g.outEdges p = links.filterMap (·.edge? p) := congrArg Trace.edges hlinks.trace
    rw [hout, List.mem_filterMap]
    constructor
    · rintro ⟨l, hl, he⟩
      obtain ⟨href, hres⟩ := (mem_resolveLinks_iff hlinks.resolved).1 hl
      rw [Link.edge?] at he
      split at he
      · cases he
      · rename_i hs
        exact ⟨rfl, l.ref, href, l.resolution, hres, hs, (Option.some.inj he).symm⟩
    · rintro ⟨-, ref, href, resolution, hres, hs, rfl⟩
      refine ⟨⟨ref, resolution⟩, (mem_resolveLinks_iff hlinks.resolved).2 ⟨href, hres⟩, ?_⟩
      rw [Link.edge?, if_neg hs]

end Complete

end BundleReach
