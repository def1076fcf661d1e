import BundleReach.Facts.Module
import BundleReach.Graph.Basic
import BundleReach.Resolution.Resolver

/-!
# Building a module graph

A graph is built from the main module in two phases.  First every module that can be reached is read
and its imports are resolved, wave by wave: a wave holds what the wave before it imports and no wave
before held.  Then the graph is put together by a walk in depth, imports in the order in which they
are written, from one bundle entry after the other.

Main definitions: `GraphBuilder`, `readModules` for the first phase, `assemble` for the second, and
`buildGraph`.
-/

namespace BundleReach

open BundleReach.Path (RenameFault)

/-- What a graph is built with: a resolver of specifiers and a parser of scripts. -/
structure GraphBuilder extends Resolver where
  parse : Script.Parser

/-- The facts of a module. -/
def GraphBuilder.factsOf (r : GraphBuilder) (p : Path) : Except ModuleFault ModuleFacts :=
  r.tree.factsOf r.parse p

/-- Why no graph can be built. -/
inductive BuildFault where
  /-- The settings allow no module to be read at all. -/
  | noWorkers
  | rename (fault : RenameFault)
  deriving DecidableEq, Repr

def BuildFault.message : BuildFault → String
  | noWorkers => "max_workers must be greater than 0"
  | rename fault => fault.message

/-- An import with what it leads to. -/
structure Link where
  ref : ImportRef
  resolution : Resolution
  deriving DecidableEq, Repr

/-- What reading a module yields. -/
structure Reading where
  outcome : Except ModuleFault ModuleFacts
  /-- The module's imports in the order in which they are written. -/
  links : List Link

/-- The modules read, in the order of reading. -/
abbrev Readings := Table Path Reading

/-! ## First phase -/

/-- Resolves imports of a module one after the other. -/
def resolveLinks (r : GraphBuilder) (importer : Path) :
    List ImportRef → Except RenameFault (List Link)
  | [] => .ok []
  | ref :: rest => do
    let resolution ← r.resolve importer ref.specifier
    return ⟨ref, resolution⟩ :: (← resolveLinks r importer rest)

/-- Reads a module and resolves its imports. -/
def readModule (r : GraphBuilder) (p : Path) : Except RenameFault Reading := do
  match r.factsOf p with
  | .error fault => return ⟨.error fault, []⟩
  | .ok facts => return ⟨.ok facts, ← resolveLinks r p facts.imports⟩

/-- The file that a link leads to. -/
def Link.target? (l : Link) : Option Path :=
  match l.resolution with
  | .found p _ => some p
  | _ => none

/-- The links of a module that has been read. -/
def linksRead (readings : Readings) (p : Path) : List Link :=
  ((Table.find? p readings).map Reading.links).getD []

/-- The modules that a wave leads to for the first time, its modules looked through in order. -/
def nextWave (queued wave : List Path) (readings : Readings) : List Path :=
  (wave.flatMap fun p => (linksRead readings p).filterMap Link.target?).foldl
    (fun new p => if p ∈ queued then new else joinOnce p new) []

/-- The readings of a wave are asked for in order and go on side by side: an order in which they
end.  All of them do, each once. -/
structure EndOrder where
  ended : Readings → Readings
  perm : ∀ wave, (ended wave).Perm wave

/-- Readings end in the order in which they are asked for. -/
def EndOrder.asked : EndOrder := ⟨id, fun _ => .refl _⟩

/-- Reads modules wave by wave, those in `queued` having been put in a wave before.  Readings are
kept in the order in which they end. -/
def readWaves (r : GraphBuilder) (order : EndOrder) :
    Nat → List Path → List Path → Except RenameFault Readings
  | 0, _, _ => .ok []
  | _, [], _ => .ok []
  | waves + 1, wave, queued => do
    let ended := order.ended (← wave.mapM fun p => do return (p, ← readModule r p))
    let next := nextWave queued wave ended
    return ended ++ (← readWaves r order waves next (queued ++ next))

/-- Reads every module that can be reached from a module.  There are no more waves than files, and
the first module itself. -/
def readModules (r : GraphBuilder) (order : EndOrder) (main : Path) : Except RenameFault Readings :=
  readWaves r order (r.tree.entries.length + 2) [main] [main]

/-! ## Second phase -/

/-- The module at a path, given what reading it came to, if it has been read. -/
def GraphBuilder.moduleFor (r : GraphBuilder) (p : Path)
    (outcome : Option (Except ModuleFault ModuleFacts)) : Module :=
  { path := p
    id := r.app.root.relativeTo p
    package := r.owner? p
    facts := match outcome with
      | some (.ok facts) => some facts
      | _ => none
    fault := match outcome with
      | some (.error fault) => some fault.summary
      | _ => none }

/-- The module that a reading gives. -/
def moduleOf (r : GraphBuilder) (readings : Readings) (p : Path) : Module :=
  r.moduleFor p ((Table.find? p readings).map Reading.outcome)

/-- The links of a module that has been read, each with the module. -/
def linksOf (readings : Readings) (p : Path) : List (Path × Link) :=
  (linksRead readings p).map (p, ·)

namespace Link

/-- The edge of a link. -/
def edge (l : Link) (importer : Path) : ImportEdge :=
  ⟨importer, l.ref.specifier, l.ref.kind, l.target?, l.ref.names⟩

/-- The module that is loaded together with the importer of a link. -/
def loads? (l : Link) : Option Path := if l.ref.kind = .dynamic then none else l.target?

/-- The module at which a bundle begins because of a link. -/
def defers? (l : Link) : Option Path := if l.ref.kind = .dynamic then l.target? else none

end Link

/-- A graph with all that a link of a module brings, save the module at its other end. -/
def ModuleGraph.addLink (g : ModuleGraph) (importer : Path) (l : Link) : ModuleGraph :=
  match l.resolution with
  | .failed deadEnd => (g.addEdge (l.edge importer)).addUnresolved
      ⟨importer, l.ref.specifier, l.ref.kind, deadEnd.reason, l.ref.line⟩
  | .supplied => g.addExternal importer l.ref.specifier
  | .found p _ =>
    let g := g.addEdge (l.edge importer)
    if l.ref.kind = .dynamic then g.addBundleEntry p else g

/-- Follows links one after the other; `enter` goes on where a module comes up for the first
time. -/
def followWith (r : GraphBuilder) (readings : Readings)
    (enter : List (Path × Link) → ModuleGraph → ModuleGraph) :
    List (Path × Link) → ModuleGraph → ModuleGraph
  | [], g => g
  | (importer, l) :: rest, g =>
    let g := g.addLink importer l
    match l.loads? with
    | none => followWith r readings enter rest g
    | some p =>
      if g.hasModule p then followWith r readings enter rest g
      else enter (linksOf readings p ++ rest) (g.addModule (moduleOf r readings p))

/-- Follows links until so many modules have come up. -/
def follow (r : GraphBuilder) (readings : Readings) :
    Nat → List (Path × Link) → ModuleGraph → ModuleGraph
  | 0 => fun _ g => g
  | modules + 1 => followWith r readings (follow r readings modules)

/-- Walks in depth from a module that has not come up yet. -/
def walkFrom (r : GraphBuilder) (readings : Readings) (p : Path) (g : ModuleGraph) : ModuleGraph :=
  follow r readings (readings.length + 1) (linksOf readings p)
    (g.addModule (moduleOf r readings p))

/-- Walks from the bundle entries from a number on, those included that come up on the way. -/
def walkEntries (r : GraphBuilder) (readings : Readings) : Nat → Nat → ModuleGraph → ModuleGraph
  | 0, _, g => g
  | fuel + 1, index, g =>
    match g.bundleEntries[index]? with
    | none => g
    | some p =>
      walkEntries r readings fuel (index + 1)
        (if g.hasModule p then g else walkFrom r readings p g)

/-- Puts a graph together from what has been read. -/
def assemble (r : GraphBuilder) (readings : Readings) (main : Path) : ModuleGraph :=
  walkEntries r readings (readings.length + 2) 0
    (({ root := r.app.root } : ModuleGraph).addBundleEntry main)

/-- The graph of the modules that can be reached from a module, readings ending in some order. -/
def buildGraphIn (r : GraphBuilder) (order : EndOrder) (main : Path) :
    Except BuildFault ModuleGraph := do
  if r.settings.workers.value ≤ 0 then throw .noWorkers
  let main := r.tree.resolve main
  let readings ← (readModules r order main).mapError BuildFault.rename
  return assemble r readings main

/-- The graph of the modules that can be reached from a module. -/
def buildGraph (r : GraphBuilder) (main : Path) : Except BuildFault ModuleGraph :=
  buildGraphIn r .asked main

end BundleReach
