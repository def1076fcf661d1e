import BundleReach.Proofs.Graph.Accounts
import BundleReach.Proofs.Graph.DepthFirst

/-!
# The first walk of a build

A graph is put together by a walk from the main module and then by walks from where bundles begin
besides.  The first of them lists what is loaded with the main module, in the order of the recursive
walk over the graph that is built: links are followed in the order in which their edges end up, and
those that defer to a bundle or lead nowhere bring no module up.

* `Complete.successors_eq` — the successors of a module are what its links load.
* `Follows.depthFirst` — following imports brings modules up in depth-first order.
* `firstWalk`, `OnePass.firstWalk_depthFirst` — the first modules of a graph.
* `closure_depth_first_unless_overtaken` — closures against both walks; `closure_importsTwice`,
  where they differ.
-/

namespace BundleReach

variable {r : GraphBuilder} {main : Path} {readings : Readings} {g : ModuleGraph}

/-! ## Successors and links -/

/-- The edge of a link is followed where the link loads a module, and to that module. -/
theorem Link.edge?_bind_followed (l : Link) (p : Path) :
    ((l.edge? p).bind fun e => if e.kind ∈ followedKinds then e.target else none) = l.loads? := by
  have hfollowed : (l.edge p).kind ∈ followedKinds ↔ l.ref.kind ≠ .dynamic := by
    rw [Link.edge]
    cases l.ref.kind <;> simp [followedKinds]
  rw [Link.edge?]
  split
  · -- What is supplied at run time is no module of the graph.
    rename_i hsupplied
    simp [Link.loads?, Link.target?, hsupplied]
  · rw [Option.bind_some, Link.loads?]
    by_cases hkind : l.ref.kind = .dynamic
    · rw [if_neg fun h => hfollowed.1 h hkind, if_pos hkind]
    · rw [if_pos (hfollowed.2 hkind), if_neg hkind]
      rfl

/-- The successors of a module are what its links load with it, in their order. -/
theorem Complete.successors_eq (h : Complete r main g) {p : Path} {links : List Link}
    (hp : g.hasModule p = true) (hlinks : resolveLinks r p (importsAt r p) = .ok links) :
    g.successors followedKinds p = links.filterMap Link.loads? := by
  obtain ⟨links', hsettled⟩ := h.settled p hp
  obtain rfl := Except.ok.inj (hlinks.symm.trans hsettled.resolved)
  have hout : g.outEdges p = links.filterMap (·.edge? p) := congrArg Trace.edges hsettled.trace
  rw [ModuleGraph.successors, hout, List.filterMap_filterMap]
  exact List.filterMap_congr fun l _ => l.edge?_bind_followed p

/-! ## The order in which modules come up -/

theorem keys_modules_addModule {q : Path} (hq : g.hasModule q = false) :
    Table.keys (g.addModule (moduleAt r q)).modules = Table.keys g.modules ++ [q] := by
  rw [ModuleGraph.modules_addModule hq, Table.keys_append]
  rfl

/-- On the way to a graph that is built, following imports of a module brings up what a depth-first
walk over that graph lists, from what the links load. -/
theorem Follows.depthFirst {p : Path} {refs : List ImportRef} {g' built : ModuleGraph}
    (h : Follows r p refs g g') (hc : Complete r main built) (hgrows : Grows g' built) :
    ∃ links below, resolveLinks r p refs = .ok links ∧
      Table.keys g'.modules = Table.keys g.modules ++ below ∧
      DepthFirst built (links.filterMap Link.loads?) (Table.keys g.modules) below := by
  induction h with
  | done => exact ⟨[], [], rfl, (List.append_nil _).symm, .done⟩
  | @pass p ref rest g g' resolution resolves known _ ih =>
    obtain ⟨links, below, hlinks, hkeys, hwalk⟩ := ih hgrows
    rw [ModuleGraph.modules_addLink] at hkeys hwalk
    refine ⟨⟨ref, resolution⟩ :: links, below,
      resolveLinks_cons_eq_ok_iff.2 ⟨resolution, links, resolves, hlinks, rfl⟩, hkeys, ?_⟩
    cases hloads : (Link.mk ref resolution).loads? with
    | none => rwa [List.filterMap_cons_none hloads]
    | some q =>
      rw [List.filterMap_cons_some hloads]
      exact .known (ModuleGraph.hasModule_iff.1 (known q hloads)) hwalk
  | @enter p q ref rest g g₁ g' resolution resolves loads fresh _ more ih₁ ih₂ =>
    obtain ⟨inner, below, hinner, hkeys₁, hbelow⟩ := ih₁ (more.grows.trans hgrows)
    obtain ⟨links, later, hlinks, hkeys₂, hlater⟩ := ih₂ hgrows
    rw [keys_modules_addModule (by simpa using fresh), ModuleGraph.modules_addLink] at hkeys₁ hbelow
    have hq : built.hasModule q = true := by
      refine (more.grows.trans hgrows).hasModule (ModuleGraph.hasModule_iff.2 ?_)
      rw [hkeys₁]
      simp
    rw [← hc.successors_eq hq hinner] at hbelow
    have hkeys : Table.keys g₁.modules = Table.keys g.modules ++ q :: below := by
      rw [hkeys₁, List.append_assoc, List.singleton_append]
    rw [hkeys] at hkeys₂ hlater
    refine ⟨⟨ref, resolution⟩ :: links, q :: (below ++ later),
      resolveLinks_cons_eq_ok_iff.2 ⟨resolution, links, resolves, hlinks, rfl⟩, ?_, ?_⟩
    · rw [hkeys₂, List.append_assoc, List.cons_append]
    · rw [List.filterMap_cons_some loads]
      exact .visit (ModuleGraph.not_hasModule_iff.1 fresh) hbelow hlater

/-! ## The first walk -/

/-- The graph after the first walk, from the main module. -/
def firstWalk (r : GraphBuilder) (readings : Readings) (main : Path) : ModuleGraph :=
  walkFrom r readings main (({ root := r.app.root } : ModuleGraph).addBundleEntry main)

/-- The first walk follows the imports of the main module, and the others go on from there. -/
theorem Reads.firstWalk_follows (h : Reads r main readings) :
    Follows r main (importsAt r main)
        ((({ root := r.app.root } : ModuleGraph).addBundleEntry main).addModule (moduleAt r main))
        (firstWalk r readings main) ∧
      Grows (firstWalk r readings main) (assemble r readings main) := by
  have hfirst := (walkFrom_follows h h.main_mem h.within_start).1
  refine ⟨hfirst, ?_⟩
  have hpass : WalksEntries r 0 _ _ := h.onePass.1
  generalize assemble r readings main = g at hpass ⊢
  cases hpass with
  | done last => cases last
  | known entry seen _ => cases seen
  | walk entry _ inner more =>
    obtain rfl := Option.some.inj entry
    rw [firstWalk, hfirst.unique inner]
    exact more.grows

/-- The first walk lists, at the front of the graph, what a depth-first walk over the graph lists
from the main module. -/
theorem Reads.firstWalk_depthFirst (h : Reads r main readings) :
    Table.keys (firstWalk r readings main).modules <+:
        Table.keys (assemble r readings main).modules ∧
      DepthFirst (assemble r readings main) [main] []
        (Table.keys (firstWalk r readings main).modules) := by
  obtain ⟨hfollows, hgrows⟩ := h.firstWalk_follows
  have hc := h.onePass.1.complete
  refine ⟨hgrows.modules.map Prod.fst, ?_⟩
  obtain ⟨links, below, hlinks, hkeys, hwalk⟩ := hfollows.depthFirst hc hgrows
  rw [keys_modules_addModule rfl] at hkeys hwalk
  rw [← hc.successors_eq (hc.entries main hc.main_mem) hlinks] at hwalk
  have hnone : main ∉ ([] : List Path) := List.not_mem_nil
  have hvisit := DepthFirst.visit hnone hwalk .done
  rw [hkeys]
  rwa [List.append_nil] at hvisit

/-! ## Closures against walks -/

/-- The closure of entries lists what the recursive walk in depth lists, which follows imports in
the order in which they are written and comes to an end on every graph.  It lists them in the same
order exactly where no module overtakes another one, which a module that several others import, or
one that is imported twice, may do.  If the graph is one that is built, the modules of the first
walk come first in it and are in the order of the recursive walk from the main module; so the
closure of the main module holds them and no others, and has them in that order under the same
condition. -/
theorem closure_depth_first_unless_overtaken (g : ModuleGraph) (entries : List Path) :
    (∃ order, (∀ order', DepthFirst g entries [] order' ↔ order' = order) ∧
      (closure g entries).Perm order ∧
      (closure g entries = order ↔ ∀ t s, ¬ Overtakes g (closure g entries) t s)) ∧
    ∀ (r : GraphBuilder) (order : EndOrder) (main : Path), buildGraphIn r order main = .ok g →
      ∃ readings first, readModules r order (r.tree.resolve main) = .ok readings ∧
        assemble r readings (r.tree.resolve main) = g ∧
        first = Table.keys (firstWalk r readings (r.tree.resolve main)).modules ∧
        first <+: Table.keys g.modules ∧
        DepthFirst g [r.tree.resolve main] [] first ∧
        (closure g [r.tree.resolve main]).Perm first ∧
        (closure g [r.tree.resolve main] = first ↔
          ∀ t s, ¬ Overtakes g (closure g [r.tree.resolve main]) t s) := by
  constructor
  · obtain ⟨order, horder⟩ := exists_depthFirst g entries
    refine ⟨order, fun order' => ⟨fun h => h.unique horder, ?_⟩, horder.closure_perm,
      horder.closure_eq_iff⟩
    rintro rfl
    exact horder
  · intro r order main h
    obtain ⟨readings, hread, rfl⟩ :=
      (onePass_iff_readModules order).1 (buildGraphIn_eq_ok_iff.1 h).2
    obtain ⟨hfront, hwalk⟩ := (readModules_reads hread).firstWalk_depthFirst
    exact ⟨readings, _, hread, rfl, rfl, hfront, hwalk, hwalk.closure_perm, hwalk.closure_eq_iff⟩

/-- Scripts two of which import a third one. -/
def sharedScripts : List (String × PlainScript) := [
  ("app.js", [.load "./b.js", .load "./c.js"]),
  ("b.js", [.load "./c.js", .load "./d.js"]),
  ("c.js", [.offer "c"]),
  ("d.js", [.offer "d"])]

/-- The walk lists the module that two others import before the one that only the second of them
imports.  In the closure it is overtaken. -/
theorem closure_depth_first_unless_overtaken_shared :
    ∃ g first, buildGraphIn (plainBuilder sharedScripts) .asked (appFile "app.js") = .ok g ∧
      first <+: Table.keys g.modules ∧ DepthFirst g [appFile "app.js"] [] first ∧
      (closure g [appFile "app.js"]).Perm first ∧
      first = ["app.js", "b.js", "c.js", "d.js"].map appFile ∧
      closure g [appFile "app.js"] = ["app.js", "b.js", "d.js", "c.js"].map appFile ∧
      ∃ t s, Overtakes g (closure g [appFile "app.js"]) t s := by
  have hview : ∃ g, buildGraphIn (plainBuilder sharedScripts) .asked (appFile "app.js") = .ok g ∧
      Table.keys g.modules = ["app.js", "b.js", "c.js", "d.js"].map appFile ∧
      closure g [appFile "app.js"] = ["app.js", "b.js", "d.js", "c.js"].map appFile := by
    decide +kernel
  have hmain : (plainBuilder sharedScripts).tree.resolve (appFile "app.js") = appFile "app.js" := by
    decide +kernel
  obtain ⟨g, hg, hkeys, hclosure⟩ := hview
  obtain ⟨_, first, -, -, -, hfront, hwalk, hperm, hsame⟩ :=
    (closure_depth_first_unless_overtaken g []).2 _ _ _ hg
  rw [hmain] at hwalk hperm hsame
  -- The walk lists as many modules as the graph has.
  have hfirst : first = ["app.js", "b.js", "c.js", "d.js"].map appFile := by
    rw [hkeys] at hfront
    refine hfront.eq_of_length ?_
    rw [← hperm.length_eq, hclosure]
    rfl
  refine ⟨g, first, hg, hfront, hwalk, hperm, hfirst, hclosure, ?_⟩
  by_contra hnone
  have heq := hsame.2 fun t s h => hnone ⟨t, s, h⟩
  rw [hclosure, hfirst] at heq
  revert heq
  decide

/-! ## A module that is imported twice -/

/-- The place of a module beside others. -/
def besideOthers (name : String) : Path := ⟨.root, [name]⟩

/-- A module that imports another one, a third one, and then the other one again. -/
def importsTwice : ModuleGraph :=
  (["b.js", "c.js", "b.js"].map fun name =>
    (⟨besideOthers "a.js", name, .static, some (besideOthers name), []⟩ : ImportEdge)).foldl
      ModuleGraph.addEdge { root := ⟨.root, []⟩ }

/-- The walk lists the module imported twice by its first import, the closure by its last. -/
theorem closure_importsTwice :
    DepthFirst importsTwice [besideOthers "a.js"] []
        [besideOthers "a.js", besideOthers "b.js", besideOthers "c.js"] ∧
      closure importsTwice [besideOthers "a.js"] =
        [besideOthers "a.js", besideOthers "c.js", besideOthers "b.js"] := by
  let a := besideOthers "a.js"
  let b := besideOthers "b.js"
  let c := besideOthers "c.js"
  have hagain : DepthFirst importsTwice [b] [a, b, c] [] := .known (by decide) .done
  have hthird : DepthFirst importsTwice [c, b] [a, b] [c] :=
    @DepthFirst.visit importsTwice c [b] [a, b] [] [] (by decide) .done hagain
  have hbelow : DepthFirst importsTwice [b, c, b] [a] [b, c] :=
    @DepthFirst.visit importsTwice b [c, b] [a] [] [c] (by decide) .done hthird
  exact ⟨@DepthFirst.visit importsTwice a [] [] [b, c] [] (by decide) hbelow .done, by decide⟩

end BundleReach
