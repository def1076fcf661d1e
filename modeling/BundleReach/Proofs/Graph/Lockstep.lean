import BundleReach.Proofs.Graph.TwoPhases
import BundleReach.Proofs.Resolution.Alike

/-!
# Graphs built in lockstep

A build reads the modules of its graph, and no other file.  So where a second tree is alike and has
the same contents for these modules, a build there makes the same steps: whatever comes up for the
first time in one comes up in the other, and states the same facts.

* `Follows.onTree`, `WalksEntries.onTree` — the walks go in lockstep.
* `buildGraphIn_onTree` — so both builds come to the same graph, in whatever order readings end.
-/

namespace BundleReach

open FileTree (Alike)

variable {r : GraphBuilder} {t : FileTree} {p main : Path} {g g' : ModuleGraph}

/-- Building in another tree. -/
def GraphBuilder.onTree (r : GraphBuilder) (t : FileTree) : GraphBuilder := { r with tree := t }

/-- What is read of the modules of a graph is the same in another tree. -/
def ModulesAlike (r : GraphBuilder) (t : FileTree) (g : ModuleGraph) : Prop :=
  ∀ p, g.hasModule p = true → (r.onTree t).factsOf p = r.factsOf p

theorem ModulesAlike.of_grows (h : ModulesAlike r t g') (hgrows : Grows g g') :
    ModulesAlike r t g := fun p hp => h p (hgrows.hasModule hp)

theorem importsAt_onTree (h : (r.onTree t).factsOf p = r.factsOf p) :
    importsAt (r.onTree t) p = importsAt r p := by
  rw [importsAt, importsAt, h]

theorem moduleAt_onTree (h : (r.onTree t).factsOf p = r.factsOf p) :
    moduleAt (r.onTree t) p = moduleAt r p := by
  rw [moduleAt, moduleAt, h]
  rfl

/-! ## Walks -/

/-- Imports are followed in lockstep. -/
theorem Follows.onTree (h : Alike r.tree t) {refs : List ImportRef}
    (hfollows : Follows r p refs g g') (hread : ModulesAlike r t g') :
    Follows (r.onTree t) p refs g g' := by
  have hresolve : (r.onTree t).resolve = r.resolve := Resolver.resolve_onTree h
  induction hfollows with
  | done => exact .done
  | pass resolves known _ ih =>
    rw [← hresolve] at resolves
    exact .pass resolves known (ih hread)
  | @enter p q ref rest g g₁ g' resolution resolves loads fresh inner more ih₁ ih₂ =>
    rw [← hresolve] at resolves
    have hinner : ModulesAlike r t g₁ := hread.of_grows more.grows
    -- The module that comes up is read there and then, and is in the graph from now on.
    have hq : g₁.hasModule q = true :=
      inner.grows.hasModule (hasModule_addModule_moduleAt.2 (.inr rfl))
    have hstep := ih₁ hinner
    rw [← importsAt_onTree (hinner q hq), ← moduleAt_onTree (hinner q hq)] at hstep
    exact .enter resolves loads fresh hstep (ih₂ hread)

/-- Walks from the bundle entries go in lockstep. -/
theorem WalksEntries.onTree (h : Alike r.tree t) {i : Nat} (hwalks : WalksEntries r i g g')
    (hread : ModulesAlike r t g') : WalksEntries (r.onTree t) i g g' := by
  induction hwalks with
  | done last => exact .done last
  | known entry seen _ ih => exact .known entry seen (ih hread)
  | @walk i p g g₁ g' entry fresh inner more ih =>
    have hinner : ModulesAlike r t g₁ := hread.of_grows more.grows
    have hp : g₁.hasModule p = true :=
      inner.grows.hasModule (hasModule_addModule_moduleAt.2 (.inr rfl))
    have hstep := inner.onTree h hinner
    rw [← importsAt_onTree (hinner p hp), ← moduleAt_onTree (hinner p hp)] at hstep
    exact .walk entry fresh hstep (ih hread)

/-! ## Builds -/

/-- A graph that is built in one tree is built in the other. -/
theorem buildGraphIn_onTree (h : Alike r.tree t) {order : EndOrder}
    (hbuilt : buildGraphIn r order main = .ok g) (hread : ModulesAlike r t g) :
    buildGraphIn (r.onTree t) order main = .ok g := by
  obtain ⟨hworkers, hpass⟩ := buildGraphIn_eq_ok_iff.1 hbuilt
  refine buildGraphIn_eq_ok_iff.2 ⟨hworkers, ?_⟩
  have hmain : (r.onTree t).tree.resolve main = r.tree.resolve main := by
    rw [h.resolve_eq]
    rfl
  rw [hmain]
  exact WalksEntries.onTree h hpass hread

end BundleReach
