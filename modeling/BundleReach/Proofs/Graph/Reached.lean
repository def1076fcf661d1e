import BundleReach.Proofs.Graph.Closure
import BundleReach.Proofs.Graph.TwoPhases

/-!
# What closures in a built graph hold

In a graph that has been built, a successor of a module is what one of its imports leads to other
than dynamically.  So a closure holds modules of the graph, and with a module all that it imports
other than dynamically; and since bundles begin at what is imported dynamically, every module lies
in the closure of an entry.

* `Complete.hasModule_of_mem_closure`, `Complete.mem_closure_of_found` — what closures hold.
* `OnePass.induction` — what imports pass on from the main module holds of every module.
* `OnePass.exists_entry_of_hasModule` — every module lies in the closure of an entry.
* `mem_closure_of_buildGraphIn` — closures by the edges of a built graph.
-/

namespace BundleReach

variable {r : GraphBuilder} {main : Path} {g : ModuleGraph}

/-! ## Frozen graphs -/

theorem takeUp_freeze (fuel : Nat) (stack seen : List Path) :
    takeUp (g.apply .freeze) fuel stack seen = takeUp g fuel stack seen := by
  induction fuel generalizing stack seen with
  | zero => rfl
  | succ fuel ih =>
    cases stack with
    | nil => rfl
    | cons p stack =>
      rw [takeUp, takeUp, ih]
      rfl

theorem closureAfter_freeze (entries seen : List Path) :
    closureAfter (g.apply .freeze) entries seen = closureAfter g entries seen := by
  induction entries generalizing seen with
  | nil => rfl
  | cons entry rest ih =>
    simp only [closureAfter, ih, takeUp_freeze]
    rfl

/-- Freezing a graph changes no closure. -/
theorem closure_freeze (g : ModuleGraph) (entries : List Path) :
    closure (g.apply .freeze) entries = closure g entries :=
  closureAfter_freeze entries []

/-! ## Successors and closures -/

namespace Complete

/-- Freezing a graph changes none of its views. -/
theorem freeze (h : Complete r main g) : Complete r main (g.apply .freeze) where
  root := h.root
  main_mem := h.main_mem
  nodup_entries := h.nodup_entries
  entries := h.entries
  settled p hp := by
    obtain ⟨links, hlinks⟩ := h.settled p hp
    exact ⟨links, hlinks.resolved, hlinks.trace, hlinks.loaded, hlinks.deferred⟩
  nodup := h.nodup
  modules := h.modules
  edges := h.edges
  tidy := h.tidy

/-- A successor of a module is what one of its imports leads to other than dynamically. -/
theorem mem_successors_iff (h : Complete r main g) {p q : Path} :
    q ∈ g.successors followedKinds p ↔ g.hasModule p = true ∧ ∃ ref ∈ importsAt r p,
      ref.kind ≠ .dynamic ∧ ∃ route, r.resolve p ref.specifier = .ok (.found q route) := by
  rw [mem_successors_followedKinds]
  constructor
  · rintro ⟨e, he, hkind, htarget⟩
    obtain ⟨hp, ref, href, resolution, hres, -, rfl⟩ := h.mem_outEdges_iff.1 he
    obtain ⟨route, rfl⟩ := Link.target?_eq_some_iff.1 htarget
    exact ⟨hp, ref, href, hkind, route, hres⟩
  · rintro ⟨hp, ref, href, hkind, route, hres⟩
    refine ⟨_, h.mem_outEdges_iff.2 ⟨hp, ref, href, _, hres, by simp, rfl⟩, hkind, rfl⟩

/-- What an import of a module leads to is a module of the graph, or a bundle begins at it. -/
theorem found_mem (h : Complete r main g) {p q : Path} (hp : g.hasModule p = true)
    {ref : ImportRef} (href : ref ∈ importsAt r p) {route : Route}
    (hres : r.resolve p ref.specifier = .ok (.found q route)) :
    (ref.kind ≠ .dynamic → g.hasModule q = true) ∧
      (ref.kind = .dynamic → q ∈ g.bundleEntries) := by
  obtain ⟨links, hlinks⟩ := h.settled p hp
  have hl : (⟨ref, .found q route⟩ : Link) ∈ links :=
    (mem_resolveLinks_iff hlinks.resolved).2 ⟨href, hres⟩
  refine ⟨fun hk => ?_, fun hk => ?_⟩
  · exact hlinks.loaded _ hl q (Link.loads?_eq_some_iff.2 ⟨hk, rfl⟩)
  · exact hlinks.deferred _ hl q (Link.defers?_eq_some_iff.2 ⟨hk, rfl⟩)

theorem hasModule_of_mem_closure (h : Complete r main g) {entry p : Path}
    (hentry : entry ∈ g.bundleEntries) (hp : p ∈ closure g [entry]) : g.hasModule p = true := by
  refine (mem_closure_iff.1 hp).mem_of_closed (s := (g.hasModule · = true))
    (fun q hq => ?_) fun q hq x hx => ?_
  · rw [List.mem_singleton.1 hq]
    exact h.entries entry hentry
  · obtain ⟨-, ref, href, hkind, route, hres⟩ := h.mem_successors_iff.1 hx
    exact (h.found_mem hq href hres).1 hkind

/-- A closure holds with a module what the module imports other than dynamically. -/
theorem mem_closure_of_found (h : Complete r main g) {entries : List Path} {p q : Path}
    (hm : g.hasModule p = true) (hp : p ∈ closure g entries) {ref : ImportRef}
    (href : ref ∈ importsAt r p) (hkind : ref.kind ≠ .dynamic) {route : Route}
    (hres : r.resolve p ref.specifier = .ok (.found q route)) : q ∈ closure g entries := by
  rw [mem_closure_iff] at hp ⊢
  exact .step hp (h.mem_successors_iff.2 ⟨hm, ref, href, hkind, route, hres⟩)

/-- Where nothing unresolved is recorded, no import of a module leads nowhere. -/
theorem not_failed_of_unresolved (h : Complete r main g) (hu : g.unresolved = []) {p : Path}
    (hp : g.hasModule p = true) {ref : ImportRef} (href : ref ∈ importsAt r p)
    (deadEnd : DeadEnd) : r.resolve p ref.specifier ≠ .ok (.failed deadEnd) := by
  intro hres
  obtain ⟨links, hlinks⟩ := h.settled p hp
  have hl : (⟨ref, .failed deadEnd⟩ : Link) ∈ links :=
    (mem_resolveLinks_iff hlinks.resolved).2 ⟨href, hres⟩
  have htrace : (g.unresolved.filter (·.importer = p)) = links.filterMap (·.record? p) :=
    congrArg Trace.unresolved hlinks.trace
  rw [hu, List.filter_nil, eq_comm, List.filterMap_eq_nil_iff] at htrace
  cases htrace _ hl

end Complete

/-! ## From the main module on -/

namespace OnePass

/-- What holds of the main module, and of whatever an import of a module leads to of which it
holds, holds of every module. -/
theorem induction {P : Path → Prop} (h : OnePass r main g) (hmain : P main)
    (hstep : ∀ p, g.hasModule p = true → P p → ∀ ref ∈ importsAt r p, ∀ q route,
      r.resolve p ref.specifier = .ok (.found q route) → P q)
    {p : Path} (hp : g.hasModule p = true) : P p := by
  classical
  have hclosed := h.complete.isClosed
  -- The modules of which it holds are closed under imports, so no others have been read.
  have hpart : Closed r main ((Table.keys g.modules).filter fun p => decide (P p)) := by
    refine ⟨List.mem_filter.2 ⟨hclosed.main_mem, decide_eq_true hmain⟩, fun x hx => ?_⟩
    obtain ⟨hx, hPx⟩ := List.mem_filter.1 hx
    obtain ⟨links, hlinks, hin⟩ := hclosed.links x hx
    refine ⟨links, hlinks, fun l hl q hq => List.mem_filter.2 ⟨hin l hl q hq, ?_⟩⟩
    obtain ⟨href, hres⟩ := (mem_resolveLinks_iff hlinks).1 hl
    obtain ⟨route, hroute⟩ := Link.target?_eq_some_iff.1 hq
    rw [hroute] at hres
    exact decide_eq_true
      (hstep x (ModuleGraph.hasModule_iff.2 hx) (of_decide_eq_true hPx) l.ref href q route hres)
  obtain ⟨readings, hread, hin⟩ := hpart.readModules .asked
  obtain rfl := h.unique (onePass_iff_readModules .asked |>.2 ⟨readings, hread, rfl⟩)
  have hmem := (mem_keys_iff_of_readModules hread p).2 (ModuleGraph.hasModule_iff.1 hp)
  exact of_decide_eq_true (List.mem_filter.1 (hin p hmem)).2

/-- Every module of a graph lies in the closure of a place where bundles begin. -/
theorem exists_entry_of_hasModule (h : OnePass r main g) {p : Path} (hp : g.hasModule p = true) :
    ∃ entry ∈ g.bundleEntries, p ∈ closure g [entry] := by
  have hself : ∀ q, q ∈ closure g [q] :=
    fun q => mem_closure_iff.2 (.entry (List.mem_singleton.2 rfl))
  refine h.induction (P := fun p => ∃ entry ∈ g.bundleEntries, p ∈ closure g [entry])
    ⟨main, h.complete.main_mem, hself main⟩ (fun x hx hPx ref href q route hres => ?_) hp
  by_cases hkind : ref.kind = .dynamic
  · exact ⟨q, (h.complete.found_mem hx href hres).2 hkind, hself q⟩
  · obtain ⟨entry, hentry, hmem⟩ := hPx
    exact ⟨entry, hentry, h.complete.mem_closure_of_found hx hmem href hkind hres⟩

end OnePass

/-- In a built graph a closure is what can be reached along the edges of the graph that are static
or re-exports. -/
theorem mem_closure_of_buildGraphIn {order : EndOrder} (h : buildGraphIn r order main = .ok g)
    {entries : List Path} {p : Path} :
    p ∈ closure g entries ↔ ∃ entry ∈ entries, Relation.ReflTransGen (EdgeLoads g) entry p :=
  mem_closure_iff_edgeLoads (buildGraphIn_eq_ok_iff.1 h).2.complete.edges

end BundleReach
