import BundleReach.Facts.Basic
import BundleReach.Package.Basic
import BundleReach.Table

/-!
# Module graphs

A module graph holds modules and the imports between them.  It grows by changes until it is frozen;
after that every change is refused.  Beside the list of all edges it keeps, for each module, the
edges that leave it and the modules that import it.

Main definitions: `ModuleGraph`, `Change`, `ModuleGraph.change` and `ModuleGraph.successors`.
-/

namespace BundleReach

/-- A module of a graph. -/
structure Module where
  path : Path
  /-- The path as seen from the graph's root. -/
  id : String
  package : Option Package := none
  facts : Option ModuleFacts := none
  /-- Why the module states no facts. -/
  fault : Option String := none
  deriving Repr

/-- An import from one module to another; without a target it leads nowhere. -/
structure ImportEdge where
  importer : Path
  specifier : String
  kind : LinkKind
  target : Option Path
  names : List String
  deriving DecidableEq, Repr

/-- An import that leads nowhere, with the reason. -/
structure UnresolvedImport where
  importer : Path
  specifier : String
  kind : LinkKind
  reason : String
  line : Nat
  deriving DecidableEq, Repr

/-- Modules, and the imports between them. -/
structure ModuleGraph where
  root : Path
  modules : Table Path Module := []
  edges : List ImportEdge := []
  /-- Where bundles begin: the main entry and what is imported dynamically. -/
  bundleEntries : List Path := []
  unresolved : List UnresolvedImport := []
  /-- What each module imports that is supplied at run time. -/
  external : Table Path (List String) := []
  /-- The edges that leave each module. -/
  out : Table Path (List ImportEdge) := []
  /-- The modules that import each module, in the order of their first edge to it. -/
  importers : Table Path (List Path) := []
  frozen : Bool := false
  deriving Repr

/-- What can be done to a graph. -/
inductive Change where
  | addModule (m : Module)
  | addEdge (e : ImportEdge)
  | addBundleEntry (p : Path)
  | addUnresolved (u : UnresolvedImport)
  | addExternal (importer : Path) (specifier : String)
  | freeze

/-- How an import that leads nowhere is called where a module's name belongs. -/
def unresolvedName : String := "<unresolved>"

/-- A list with one more item at its end, unless it is there already. -/
def joinOnce {α : Type} [DecidableEq α] (a : α) (as : List α) : List α :=
  if a ∈ as then as else as ++ [a]

section

variable {α : Type} [DecidableEq α]

theorem mem_joinOnce {a b : α} {as : List α} : b ∈ joinOnce a as ↔ b ∈ as ∨ b = a := by
  rw [joinOnce]
  split
  · rename_i h
    exact ⟨.inl, fun h' => h'.elim id fun e => e ▸ h⟩
  · rw [List.mem_append, List.mem_singleton]

theorem nodup_joinOnce (a : α) {as : List α} (h : as.Nodup) : (joinOnce a as).Nodup := by
  rw [joinOnce]
  split
  · exact h
  · rename_i ha
    rw [List.nodup_append]
    exact ⟨h, by simp, fun b hb c hc => by
      rw [List.mem_singleton] at hc
      exact fun e => ha (hc ▸ e ▸ hb)⟩

/-- Items joined stay where they are. -/
theorem prefix_joinOnce (a : α) (as : List α) : as <+: joinOnce a as := by
  rw [joinOnce]
  split
  · exact List.prefix_rfl
  · exact List.prefix_append _ _

theorem mem_foldl_joinOnce {a : α} {as bs : List α} :
    a ∈ bs.foldl (fun as b => joinOnce b as) as ↔ a ∈ as ∨ a ∈ bs := by
  induction bs generalizing as with
  | nil => simp
  | cons b bs ih => rw [List.foldl_cons, ih, mem_joinOnce, List.mem_cons, or_assoc]

theorem nodup_foldl_joinOnce {as : List α} (bs : List α) (h : as.Nodup) :
    (bs.foldl (fun as b => joinOnce b as) as).Nodup := by
  induction bs generalizing as with
  | nil => exact h
  | cons b bs ih => exact ih (nodup_joinOnce b h)

/-- Where one of the items kept is let go, fewer are kept. -/
theorem length_filter_lt {a : α} {as : List α} {keep keep' : α → Bool} (ha : a ∈ as)
    (hk : keep a = true) (hk' : ∀ b, keep' b = true ↔ keep b = true ∧ b ≠ a) :
    (as.filter keep').length < (as.filter keep).length := by
  have hsplit : as.filter keep' = (as.filter keep).filter (· ≠ a) := by
    rw [List.filter_filter]
    refine List.filter_congr fun b _ => ?_
    rw [Bool.eq_iff_iff, hk' b, Bool.and_eq_true, decide_eq_true_eq]
    exact and_comm
  rw [hsplit, List.length_filter_lt_length_iff_exists]
  exact ⟨a, List.mem_filter.2 ⟨ha, hk⟩, by simp⟩

end

namespace ModuleGraph

def hasModule (g : ModuleGraph) (p : Path) : Bool := Table.has p g.modules

/-- A graph with one more module; a module that is there already stays. -/
def addModule (g : ModuleGraph) (m : Module) : ModuleGraph :=
  if g.hasModule m.path then g
  else { g with modules := Table.put m.path m g.modules, out := Table.put m.path [] g.out }

/-- A graph with one more edge. -/
def addEdge (g : ModuleGraph) (e : ImportEdge) : ModuleGraph :=
  { g with
    edges := g.edges ++ [e]
    out := Table.change e.importer [] (· ++ [e]) g.out
    importers := match e.target with
      | some p => Table.change p [] (joinOnce e.importer) g.importers
      | none => g.importers }

def addBundleEntry (g : ModuleGraph) (p : Path) : ModuleGraph :=
  { g with bundleEntries := joinOnce p g.bundleEntries }

def addUnresolved (g : ModuleGraph) (u : UnresolvedImport) : ModuleGraph :=
  { g with unresolved := g.unresolved ++ [u] }

def addExternal (g : ModuleGraph) (importer : Path) (specifier : String) : ModuleGraph :=
  { g with external := Table.change importer [] (· ++ [specifier]) g.external }

/-- What a change makes of a graph that is not frozen. -/
def apply (g : ModuleGraph) : Change → ModuleGraph
  | .addModule m => g.addModule m
  | .addEdge e => g.addEdge e
  | .addBundleEntry p => g.addBundleEntry p
  | .addUnresolved u => g.addUnresolved u
  | .addExternal importer specifier => g.addExternal importer specifier
  | .freeze => { g with frozen := true }

/-- Changes a graph; a frozen one can only be frozen again. -/
def change (g : ModuleGraph) (c : Change) : Except String ModuleGraph :=
  match c with
  | .freeze => .ok (g.apply .freeze)
  | c =>
    if g.frozen then .error "module graph is frozen; analysis may not mutate it"
    else .ok (g.apply c)

/-- A graph after some changes, those refused left out. -/
def changeAll (g : ModuleGraph) (changes : List Change) : ModuleGraph :=
  changes.foldl (fun g c => (g.change c).toOption.getD g) g

/-! ## Questions -/

/-- A path as seen from the graph's root. -/
def idOf (g : ModuleGraph) (p : Path) : String := g.root.relativeTo p

/-- How the end of an edge is called. -/
def targetId (g : ModuleGraph) (target : Option Path) : String :=
  match target with
  | some p => g.idOf p
  | none => unresolvedName

/-- The edges that leave a module. -/
def outEdges (g : ModuleGraph) (p : Path) : List ImportEdge := (Table.find? p g.out).getD []

/-- The modules that import a module. -/
def importersOf (g : ModuleGraph) (p : Path) : List Path := (Table.find? p g.importers).getD []

/-- The modules that a module imports by links of some kinds. -/
def successors (g : ModuleGraph) (kinds : List LinkKind) (p : Path) : List Path :=
  (g.outEdges p).filterMap fun e => if e.kind ∈ kinds then e.target else none

end ModuleGraph

end BundleReach
