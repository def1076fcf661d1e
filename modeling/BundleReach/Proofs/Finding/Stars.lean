import BundleReach.Proofs.Finding.Exports
import BundleReach.Proofs.Graph.TwoPhases
import BundleReach.Proofs.Plain

/-!
# Star re-exports as they are written

The rule about missing names goes by the edges of the graph; what modules offer on stands in their
facts.  In a built graph the two agree but for one kind of import: one that is supplied at run time
leaves no edge, so a module that offers it on as a whole counts as known although what it offers is
not.

* `starStep_iff`, `unknown_iff` — edges and facts, one import at a time.
* `buildGraph_known_iff` — when the names of a module count as known, told by the facts.
-/

namespace BundleReach

variable {r : GraphBuilder} {main : Path} {g : ModuleGraph} {p q : Path}

/-! ## Written star re-exports -/

/-- The facts of a module of the graph say that it offers a module on as a whole. -/
def StarRef (g : ModuleGraph) (p : Path) (ref : ImportRef) : Prop :=
  ∃ m facts, Table.find? p g.modules = some m ∧ m.facts = some facts ∧ ref ∈ facts.imports ∧
    ref.kind = .reexport ∧ ref.names = ["*"]

/-- A star re-export of a module leads to another one. -/
def StarLeads (r : GraphBuilder) (g : ModuleGraph) (p q : Path) : Prop :=
  ∃ ref, StarRef g p ref ∧ ∃ route, r.resolve p ref.specifier = .ok (.found q route)

/-- Star re-exports lead from one module to another, one after the other. -/
def StarChain (r : GraphBuilder) (g : ModuleGraph) : Path → Path → Prop :=
  Relation.ReflTransGen (StarLeads r g)

/-- Each star re-export of a module leads to a module whose own names are known. -/
def StarsKnown (r : GraphBuilder) (g : ModuleGraph) (p : Path) : Prop :=
  ∀ ref, StarRef g p ref → ∃ q route, r.resolve p ref.specifier = .ok (.found q route) ∧
    ∃ own, KnownNames g q own

/-- One of the star re-exports of a module is supplied at run time. -/
def StarsSupplied (r : GraphBuilder) (g : ModuleGraph) (p : Path) : Prop :=
  ∃ ref, StarRef g p ref ∧ r.resolve p ref.specifier = .ok .supplied

/-! ## Edges and facts -/

/-- The imports of a module are those in its facts. -/
theorem mem_importsAt_iff {ref : ImportRef} :
    ref ∈ importsAt r p ↔ ∃ facts, (moduleAt r p).facts = some facts ∧ ref ∈ facts.imports := by
  cases h : r.factsOf p with
  | ok facts =>
    obtain ⟨hfacts, -, himports⟩ := moduleAt_of_ok h
    simp [hfacts, himports]
  | error fault =>
    obtain ⟨hfacts, -, himports⟩ := moduleAt_of_error h
    simp [hfacts, himports]

theorem starRef_iff (h : Complete r main g) {ref : ImportRef} :
    StarRef g p ref ↔ g.hasModule p = true ∧ ref ∈ importsAt r p ∧ ref.kind = .reexport ∧
      ref.names = ["*"] := by
  rw [StarRef, h.find?_modules, mem_importsAt_iff]
  constructor
  · rintro ⟨m, facts, hm, hfacts, href, hstar⟩
    split at hm
    · rename_i hp
      obtain rfl := Option.some.inj hm
      exact ⟨hp, ⟨facts, hfacts, href⟩, hstar⟩
    · cases hm
  · rintro ⟨hp, ⟨facts, hfacts, href⟩, hstar⟩
    rw [if_pos hp]
    exact ⟨_, facts, rfl, hfacts, href, hstar⟩

/-- The edges by which a module offers others on are its star re-exports that are not supplied at
run time. -/
theorem mem_outEdges_star_iff (h : Complete r main g) {e : ImportEdge} :
    e ∈ g.outEdges p ∧ IsStar e ↔ ∃ ref, StarRef g p ref ∧ ∃ resolution,
      r.resolve p ref.specifier = .ok resolution ∧ resolution ≠ .supplied ∧
        e = (Link.mk ref resolution).edge p := by
  rw [h.mem_outEdges_iff]
  constructor
  · rintro ⟨⟨hp, ref, href, resolution, hres, hs, rfl⟩, hstar⟩
    exact ⟨ref, (starRef_iff h).2 ⟨hp, href, hstar⟩, resolution, hres, hs, rfl⟩
  · rintro ⟨ref, hstar, resolution, hres, hs, rfl⟩
    obtain ⟨hp, href, hstar⟩ := (starRef_iff h).1 hstar
    exact ⟨⟨hp, ref, href, resolution, hres, hs, rfl⟩, hstar⟩

/-- Along star edges a module offers on what its star re-exports lead to. -/
theorem starStep_iff (h : Complete r main g) : StarStep g p q ↔ StarLeads r g p q := by
  constructor
  · rintro ⟨e, he, hstar, htarget⟩
    obtain ⟨ref, href, resolution, hres, -, rfl⟩ := (mem_outEdges_star_iff h).1 ⟨he, hstar⟩
    obtain ⟨route, rfl⟩ := Link.target?_eq_some_iff.1 htarget
    exact ⟨ref, href, route, hres⟩
  · rintro ⟨ref, hstar, route, hres⟩
    obtain ⟨he, hstar⟩ := (mem_outEdges_star_iff h).2 ⟨ref, hstar, _, hres, by simp, rfl⟩
    exact ⟨_, he, hstar, rfl⟩

theorem starReaches_iff (h : Complete r main g) : StarReaches g p q ↔ StarChain r g p q := by
  have hstep : StarStep g = StarLeads r g := by
    funext p q
    exact propext (starStep_iff h)
  rw [StarReaches, StarChain, hstep]

/-- A star re-export makes a module unknown where it leads nowhere, and only there. -/
theorem unknown_iff (h : Complete r main g) :
    Unknown g p ↔ (¬ ∃ own, KnownNames g p own) ∨ ∃ ref, StarRef g p ref ∧ ∃ deadEnd,
      r.resolve p ref.specifier = .ok (.failed deadEnd) := by
  refine or_congr_right ⟨?_, ?_⟩
  · rintro ⟨e, he, hstar, htarget⟩
    obtain ⟨ref, href, resolution, hres, hs, rfl⟩ := (mem_outEdges_star_iff h).1 ⟨he, hstar⟩
    refine ⟨ref, href, ?_⟩
    cases resolution with
    | found q route => cases htarget
    | supplied => exact absurd rfl hs
    | failed deadEnd => exact ⟨deadEnd, hres⟩
  · rintro ⟨ref, hstar, deadEnd, hres⟩
    obtain ⟨he, hstar⟩ := (mem_outEdges_star_iff h).2 ⟨ref, hstar, _, hres, by simp, rfl⟩
    exact ⟨_, he, hstar, rfl⟩

theorem exists_resolve_of_starRef (h : Complete r main g) {ref : ImportRef}
    (hstar : StarRef g p ref) : ∃ resolution, r.resolve p ref.specifier = .ok resolution := by
  obtain ⟨hp, href, -⟩ := (starRef_iff h).1 hstar
  obtain ⟨links, hlinks⟩ := h.settled p hp
  exact exists_resolve_of_mem hlinks.resolved href

/-! ## When names count as known -/

/-- The names of a module count as known if its own are and if, from it on, each star re-export is
supplied at run time or leads to a module whose own names are known. -/
theorem not_unknowable_iff (h : Complete r main g) :
    ¬ Unknowable g p ↔ (∃ own, KnownNames g p own) ∧ ∀ q, StarChain r g p q → ∀ ref,
      StarRef g q ref → r.resolve q ref.specifier = .ok .supplied ∨
        ∃ x route, r.resolve q ref.specifier = .ok (.found x route) ∧
          ∃ own, KnownNames g x own := by
  have hown : ∀ {x}, ¬ Unknown g x → ∃ own, KnownNames g x own :=
    fun hx => Classical.not_not.1 fun hnone => hx (.inl hnone)
  constructor
  · intro hknown
    refine ⟨hown fun hu => hknown ⟨p, .refl, hu⟩, fun q hq ref hstar => ?_⟩
    obtain ⟨resolution, hres⟩ := exists_resolve_of_starRef h hstar
    cases resolution with
    | supplied => exact .inl hres
    | found x route =>
      refine .inr ⟨x, route, hres, hown fun hu => hknown ⟨x, ?_, hu⟩⟩
      exact (starReaches_iff h).2 (hq.tail ⟨ref, hstar, route, hres⟩)
    | failed deadEnd =>
      refine absurd ⟨q, (starReaches_iff h).2 hq, ?_⟩ hknown
      exact (unknown_iff h).2 (.inr ⟨ref, hstar, deadEnd, hres⟩)
  · rintro ⟨hp, hstars⟩ ⟨q, hq, hu⟩
    replace hq := (starReaches_iff h).1 hq
    rcases (unknown_iff h).1 hu with hnone | ⟨ref, hstar, deadEnd, hres⟩
    · -- The last module of a chain is the first one, or a star re-export leads to it.
      have hsome : ∃ own, KnownNames g q own := by
        rcases hq.cases_tail with rfl | ⟨x, hx, ref, hstar, route, hres⟩
        · exact hp
        · rcases hstars x hx ref hstar with hs | ⟨y, route', hres', hy⟩
          · rw [hres] at hs
            cases hs
          · rw [hres] at hres'
            cases hres'
            exact hy
      exact hnone hsome
    · rcases hstars q hq ref hstar with hs | ⟨x, route, hres', -⟩
      · rw [hres] at hs
        cases hs
      · rw [hres] at hres'
        cases hres'

/-- What the rule about missing names goes by, told by the facts of a built graph.  The names of a
module count as known if its own are and if, from it on, each star re-export leads to a module whose
own names are known or is supplied at run time.  So where names count as known, all that is offered
on is known, except where a star re-export on the way is supplied at run time.  A name is found
missing where it is taken from a module whose names count as known and along whose star re-exports
no module owns it. -/
theorem known_iff_stars_known_or_supplied (r : GraphBuilder) (main : Path) (g : ModuleGraph)
    (h : buildGraph r main = .ok g) (earlier : List NameQuery) :
    (∀ p,
      ((offeredNames g p (memoryAfter g earlier)).1.isSome = true ↔
        (∃ own, KnownNames g p own) ∧ ∀ q, StarChain r g p q → ∀ ref, StarRef g q ref →
          r.resolve q ref.specifier = .ok .supplied ∨
            ∃ x route, r.resolve q ref.specifier = .ok (.found x route) ∧
              ∃ own, KnownNames g x own) ∧
      (((offeredNames g p (memoryAfter g earlier)).1.isSome = true →
          ∀ q, StarChain r g p q → StarsKnown r g q) ↔
        ((offeredNames g p (memoryAfter g earlier)).1.isSome = true →
          ∀ q, StarChain r g p q → ¬ StarsSupplied r g q))) ∧
    ∀ f, f ∈ (missingExports g g.edges (memoryAfter g earlier)).1 ↔
      ∃ e ∈ g.edges, ∃ q, e.target = some q ∧ ∃ n ∈ wantedNames e,
        (offeredNames g q (memoryAfter g earlier)).1.isSome = true ∧
          ¬ (Owns g q n ∨ n ≠ "default" ∧ ∃ x, StarChain r g q x ∧ Owns g x n) ∧
            f = .missingExport (g.idOf e.importer) n (g.idOf q) := by
  have hcomplete := (buildGraphIn_eq_ok_iff.1 h).2.complete
  have hsound : Sound g (memoryAfter g earlier) := memoryAfter_sound earlier
  have hknown : ∀ p,
      (offeredNames g p (memoryAfter g earlier)).1.isSome = true ↔ ¬ Unknowable g p := by
    intro p
    have hexact := offeredNames_exact hsound p
    generalize (offeredNames g p (memoryAfter g earlier)).1 = answer at hexact ⊢
    cases answer with
    | none => exact iff_of_false (by simp) fun hn => hn hexact
    | some names => exact iff_of_true rfl hexact.1
  refine ⟨fun p => ?_, fun f => ?_⟩
  · rw [hknown, not_unknowable_iff hcomplete]
    refine ⟨.rfl, imp_congr_right fun ⟨_, hstars⟩ => forall_congr' fun q =>
      imp_congr_right fun hq => ?_⟩
    constructor
    · rintro hall ⟨ref, hstar, hs⟩
      obtain ⟨x, route, hres, -⟩ := hall ref hstar
      rw [hs] at hres
      cases hres
    · intro hnone ref hstar
      exact (hstars q hq ref hstar).resolve_left fun hs => hnone ⟨ref, hstar, hs⟩
  · rw [mem_missingExports hsound]
    simp only [hknown, offers_iff, starReaches_iff hcomplete]

/-! ## A star re-export that is supplied at run time -/

/-- The star re-exports of a module. -/
def starRefs (g : ModuleGraph) (p : Path) : List ImportRef :=
  (((Table.find? p g.modules).bind Module.facts).elim [] ModuleFacts.imports).filter fun ref =>
    ref.kind = .reexport ∧ ref.names = ["*"]

theorem mem_starRefs_iff {ref : ImportRef} : ref ∈ starRefs g p ↔ StarRef g p ref := by
  rw [starRefs, List.mem_filter, decide_eq_true_eq, StarRef]
  constructor
  · rintro ⟨href, hstar⟩
    cases hfacts : (Table.find? p g.modules).bind Module.facts with
    | none =>
      rw [hfacts] at href
      cases href
    | some facts =>
      rw [hfacts] at href
      obtain ⟨m, hm, hfacts⟩ := Option.bind_eq_some_iff.1 hfacts
      exact ⟨m, facts, hm, hfacts, href, hstar⟩
  · rintro ⟨m, facts, hm, hfacts, href, hstar⟩
    rw [hm, Option.bind_some, hfacts]
    exact ⟨href, hstar⟩

/-- An application that takes a name from a module which offers on what is supplied at run time. -/
def barrelScripts : List (String × PlainScript) := [
  ("app.js", [.take "setOwner" "./barrel.js"]),
  ("barrel.js", [.pass "@ember/application", .pass "./names.js", .offer "version"]),
  ("names.js", [.offer "a"])]

/-- All names of the module count as known, and the one that is supplied at run time is found
missing. -/
theorem known_iff_stars_known_or_supplied_barrel :
    ∃ g, buildGraph (plainBuilder barrelScripts) (appFile "app.js") = .ok g ∧
      StarsSupplied (plainBuilder barrelScripts) g (appFile "barrel.js") ∧
      (offeredNames g (appFile "barrel.js") []).1.isSome = true ∧
      .missingExport "./app.js" "setOwner" "./barrel.js" ∈ (missingExports g g.edges []).1 := by
  have hview : ∃ g, buildGraph (plainBuilder barrelScripts) (appFile "app.js") = .ok g ∧
      starRefs g (appFile "barrel.js") =
        [⟨"@ember/application", .reexport, ["*"], 1⟩, ⟨"./names.js", .reexport, ["*"], 2⟩] ∧
      ownNames? g (appFile "barrel.js") = some ["version"] ∧
      starRefs g (appFile "names.js") = [] ∧ ownNames? g (appFile "names.js") = some ["a"] ∧
      g.root = ⟨.root, ["app"]⟩ ∧
      g.edges.head? = some ⟨appFile "app.js", "./barrel.js", .static, some (appFile "barrel.js"),
        ["setOwner"]⟩ := by
    decide +kernel
  have hsupplied : (plainBuilder barrelScripts).resolve (appFile "barrel.js")
      "@ember/application" = .ok .supplied := by
    decide +kernel
  have hfound : (plainBuilder barrelScripts).resolve (appFile "barrel.js") "./names.js" =
      .ok (.found (appFile "names.js") .relative) := by
    decide +kernel
  obtain ⟨g, hg, hstars, hversion, hnone, ha, hroot, hedge⟩ := hview
  rw [ownNames?_eq_some_iff] at hversion ha
  obtain ⟨hknown, hmissing⟩ := known_iff_stars_known_or_supplied _ _ g hg []
  -- From the module on, star re-exports lead to one other module, which has none.
  have hlast : ∀ {ref}, ¬ StarRef g (appFile "names.js") ref := by
    intro ref href
    rw [← mem_starRefs_iff, hnone] at href
    cases href
  have hchain : ∀ {q}, StarChain (plainBuilder barrelScripts) g (appFile "barrel.js") q →
      q = appFile "barrel.js" ∨ q = appFile "names.js" := by
    intro q hq
    induction hq with
    | refl => exact .inl rfl
    | tail _ hstep ih =>
      obtain ⟨ref, href, route, hres⟩ := hstep
      rcases ih with rfl | rfl
      · rw [← mem_starRefs_iff, hstars] at href
        simp only [List.mem_cons, List.not_mem_nil, or_false] at href
        rcases href with rfl | rfl
        · rw [hsupplied] at hres
          cases hres
        · rw [hfound] at hres
          cases hres
          exact .inr rfl
      · exact absurd href hlast
  have hsome : (offeredNames g (appFile "barrel.js") []).1.isSome = true := by
    refine (hknown (appFile "barrel.js")).1.2 ⟨⟨_, hversion⟩, fun q hq ref href => ?_⟩
    rcases hchain hq with rfl | rfl
    · rw [← mem_starRefs_iff, hstars] at href
      simp only [List.mem_cons, List.not_mem_nil, or_false] at href
      rcases href with rfl | rfl
      · exact .inl hsupplied
      · exact .inr ⟨_, _, hfound, _, ha⟩
    · exact absurd href hlast
  have hlacks : ∀ {q}, q = appFile "barrel.js" ∨ q = appFile "names.js" →
      ¬ Owns g q "setOwner" := by
    rintro q (rfl | rfl) ⟨own, hown, hmem⟩
    · obtain rfl := hversion.unique hown
      revert hmem
      decide
    · obtain rfl := ha.unique hown
      revert hmem
      decide
  refine ⟨g, hg, ⟨⟨"@ember/application", .reexport, ["*"], 1⟩, ?_, hsupplied⟩, hsome, ?_⟩
  · rw [← mem_starRefs_iff, hstars]
    exact List.mem_cons_self
  · refine (hmissing _).2 ⟨_, List.mem_of_head? hedge, _, rfl, "setOwner", by decide, hsome, ?_, ?_⟩
    · rintro (ho | ⟨-, x, hx, ho⟩)
      · exact hlacks (.inl rfl) ho
      · exact hlacks (hchain hx) ho
    · rw [ModuleGraph.idOf, ModuleGraph.idOf, hroot]
      decide +kernel

end BundleReach
