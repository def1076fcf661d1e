import BundleReach.Graph.Basic

/-!
# The names that a module offers

Besides its own names, a module that offers another one on as a whole offers all of that one's names
but its default.  Where one of the modules in such a chain is not known, neither are the names.
Modules may offer each other on; one that is being asked already adds nothing.

Answers are remembered.  What is known of a module in the course of asking another one may lack
names that come round, so it is remembered only if it was asked for itself, or if it is that nothing
is known.  Each module that is asked in turn is one of the graph's and is not being asked yet, so
asking comes to an end.

Main definition: `offeredNames`.
-/

namespace BundleReach

/-- Answers remembered: the names that modules offer, or that nothing is known of them. -/
abbrev NameMemory := Table Path (Option (List String))

/-- The names that a module is known to offer by itself. -/
def ownNames? (g : ModuleGraph) (p : Path) : Option (List String) := do
  let m ← Table.find? p g.modules
  (← m.facts).knownExports?

/-- The edges by which a module offers another one on as a whole. -/
def starEdges (g : ModuleGraph) (p : Path) : List ImportEdge :=
  (g.outEdges p).filter fun e => e.kind = .reexport ∧ e.names = ["*"]

/-- Names with those of an offered module added to them. -/
def mergeNames (names inner : List String) : List String :=
  (inner.filter (· != "default")).foldl (fun names n => joinOnce n names) names

/-- How many modules of a graph are not being asked. -/
def unasked (g : ModuleGraph) (visiting : List Path) : Nat :=
  ((Table.keys g.modules).filter (· ∉ visiting)).length

theorem mem_keys_of_ownNames? {g : ModuleGraph} {p : Path} {own : List String}
    (h : ownNames? g p = some own) : p ∈ Table.keys g.modules := by
  cases hm : Table.find? p g.modules with
  | none => simp [ownNames?, hm] at h
  | some m => exact Table.mem_keys_iff.2 ⟨m, hm⟩

/-- Asking one more module leaves fewer that are not being asked. -/
theorem unasked_cons_lt {g : ModuleGraph} {p : Path} {visiting : List Path}
    (hv : p ∉ visiting) (hp : p ∈ Table.keys g.modules) :
    unasked g (p :: visiting) < unasked g visiting := by
  refine length_filter_lt hp (decide_eq_true hv) fun q => ?_
  rw [decide_eq_true_eq, decide_eq_true_eq, List.mem_cons, not_or]
  exact and_comm

mutual

/-- The names that a module offers, asked for in the course of asking those in `visiting`. -/
def askNames (g : ModuleGraph) (visiting : List Path) (p : Path) (memory : NameMemory) :
    Option (List String) × NameMemory :=
  match Table.find? p memory with
  | some answer => (answer, memory)
  | none =>
    if _hv : p ∈ visiting then (some [], memory)
    else
      match _ho : ownNames? g p with
      | none => (none, memory)
      | some own =>
        let (answer, memory) :=
          namesThrough g (p :: visiting) (starEdges g p)
            (own.foldl (fun names n => joinOnce n names) []) memory
        (answer, if visiting.isEmpty || answer.isNone then Table.put p answer memory else memory)
termination_by (unasked g visiting, 0)
decreasing_by exact Prod.Lex.left _ _ (unasked_cons_lt _hv (mem_keys_of_ownNames? _ho))

/-- The names with those added that modules at the ends of edges offer. -/
def namesThrough (g : ModuleGraph) (visiting : List Path) :
    List ImportEdge → List String → NameMemory → Option (List String) × NameMemory
  | [], names, memory => (some names, memory)
  | e :: rest, names, memory =>
    match e.target with
    | none => (none, memory)
    | some q =>
      match askNames g visiting q memory with
      | (none, memory) => (none, memory)
      | (some inner, memory) => namesThrough g visiting rest (mergeNames names inner) memory
termination_by edges => (unasked g visiting, edges.length + 1)

end

/-- The names that a module offers, if they are known. -/
def offeredNames (g : ModuleGraph) (p : Path) (memory : NameMemory) :
    Option (List String) × NameMemory :=
  askNames g [] p memory

end BundleReach
