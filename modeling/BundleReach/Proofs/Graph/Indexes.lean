import BundleReach.Proofs.Graph.Change
import Mathlib.Data.List.Induction
import Mathlib.Data.List.TakeWhile

/-!
# The indexes of a graph

Beside its edges a graph keeps two indexes: for each module, the edges that leave it and the modules
that import it.  The theorems below hold after any sequence of changes, refused ones included, and
not only for the graphs that a build comes to.

* `changeAll_eq` — what changes do is done by those before the graph is frozen.
* `ImportersIndexed.apply` — the importers kept for a module are those of the edges to it, each
  once, in the order of their first edges.
* `outEdges_made` — the edges kept for a module are those added since the module was.
* `indexes_agree_unless_edge_ahead` — so both indexes agree with the edges, unless an edge has been
  added ahead of the module that it leaves.
-/

namespace BundleReach

/-! ## Lists without their repetitions -/

section

variable {α : Type} [DecidableEq α]

/-- An item joins a list without repetitions unless it is there. -/
theorem eraseDups_concat (as : List α) (a : α) :
    (as ++ [a]).eraseDups = joinOnce a as.eraseDups := by
  rw [List.eraseDups_append, joinOnce]
  by_cases h : a ∈ as
  · have hnone : [a].removeAll as = [] := by simp [List.removeAll, h]
    rw [hnone, if_pos (List.mem_eraseDups.2 h), List.eraseDups_nil, List.append_nil]
  · have hself : [a].removeAll as = [a] := by simp [List.removeAll, h]
    have hfresh : a ∉ as.eraseDups := fun hmem => h (List.mem_eraseDups.1 hmem)
    rw [hself, if_neg hfresh]
    rfl

theorem nodup_eraseDups (as : List α) : as.eraseDups.Nodup := by
  induction as using List.reverseRecOn with
  | nil => exact List.nodup_nil
  | append_singleton as a ih =>
    rw [eraseDups_concat]
    exact nodup_joinOnce a ih

end

/-! ## What a change adds -/

namespace Change

/-- The edge that a change adds. -/
def edge? : Change → Option ImportEdge
  | addEdge e => some e
  | _ => none

/-- The module that a change adds at a path. -/
def moduleAt? (p : Path) : Change → Option Module
  | addModule m => if m.path = p then some m else none
  | _ => none

/-- The place at which a change has a bundle begin. -/
def entry? : Change → Option Path
  | addBundleEntry p => some p
  | _ => none

/-- The edge from a path that a change adds. -/
def edgeFrom? (p : Path) (c : Change) : Option ImportEdge := c.edge?.filter (·.importer = p)

def isFreeze : Change → Bool
  | freeze => true
  | _ => false

variable {p : Path} {c : Change} {m : Module}

theorem moduleAt?_eq_some_iff : c.moduleAt? p = some m ↔ c = .addModule m ∧ m.path = p := by
  cases c with
  | addModule m' =>
    by_cases hp : m'.path = p
    · rw [moduleAt?, if_pos hp, Option.some.injEq, addModule.injEq]
      exact ⟨fun h => ⟨h, h ▸ hp⟩, fun h => h.1⟩
    · rw [moduleAt?, if_neg hp]
      refine ⟨nofun, ?_⟩
      rintro ⟨h, hm⟩
      cases h
      exact absurd hm hp
  | addEdge | addBundleEntry | addUnresolved | addExternal | freeze => exact ⟨nofun, nofun⟩

end Change

/-- The changes that are not refused: those before the graph is frozen. -/
def granted (changes : List Change) : List Change := changes.takeWhile fun c => !c.isFreeze

/-- The changes since a module was added at a path: all of them, if none was. -/
def sinceModule (p : Path) (changes : List Change) : List Change :=
  if changes.any fun c => (c.moduleAt? p).isSome then
    (changes.dropWhile fun c => (c.moduleAt? p).isNone).tail
  else changes

/-- An edge from a path is added ahead of the module at the path. -/
def EdgeAhead (p : Path) (changes : List Change) : Prop :=
  ∃ before m after, changes = before ++ .addModule m :: after ∧ m.path = p ∧
    (∀ c ∈ before, c.moduleAt? p = none) ∧ ∃ e, .addEdge e ∈ before ∧ e.importer = p

namespace ModuleGraph

variable {g : ModuleGraph} {p : Path}

/-! ## The importers of a module -/

/-- The importers of the edges to a path, each once, in the order of their first edges. -/
def consumers (g : ModuleGraph) (p : Path) : List Path :=
  ((g.edges.filter fun e => e.target = some p).map ImportEdge.importer).eraseDups

/-- The importers kept for each path are those of the edges to it. -/
def ImportersIndexed (g : ModuleGraph) : Prop := ∀ p, g.importersOf p = g.consumers p

theorem importersOf_addEdge (e : ImportEdge) :
    (g.addEdge e).importersOf p =
      if e.target = some p then joinOnce e.importer (g.importersOf p) else g.importersOf p := by
  unfold importersOf addEdge
  cases htarget : e.target with
  | none => simp
  | some q =>
    by_cases hq : q = p
    · subst hq
      simp [Table.find?_change_self]
    · simp [Table.find?_change_of_ne (Ne.symm hq), hq]

theorem consumers_addEdge (e : ImportEdge) :
    (g.addEdge e).consumers p =
      if e.target = some p then joinOnce e.importer (g.consumers p) else g.consumers p := by
  have hedges : (g.addEdge e).edges = g.edges ++ [e] := rfl
  unfold consumers
  rw [hedges, List.filter_append, List.map_append]
  by_cases htarget : e.target = some p
  · simp [htarget, eraseDups_concat]
  · simp [htarget]

@[simp] theorem importersOf_addModule {m : Module} :
    (g.addModule m).importersOf p = g.importersOf p := by
  rw [addModule]
  split <;> rfl

theorem ImportersIndexed.addModule (h : g.ImportersIndexed) (m : Module) :
    (g.addModule m).ImportersIndexed := by
  intro p
  rw [importersOf_addModule, h p, consumers, consumers, edges_addModule]

/-- No change parts the importers kept from the edges. -/
theorem ImportersIndexed.apply (h : g.ImportersIndexed) (c : Change) :
    (g.apply c).ImportersIndexed := by
  cases c with
  | addEdge e =>
    intro p
    show (g.addEdge e).importersOf p = (g.addEdge e).consumers p
    rw [importersOf_addEdge, consumers_addEdge, h p]
  | addModule m => exact h.addModule m
  | addBundleEntry | addUnresolved | addExternal | freeze => exact h

/-! ## Changes of a graph without modules -/

/-- What changes make of a graph in which nothing is yet. -/
def made (root : Path) (changes : List Change) : ModuleGraph :=
  changes.foldl apply { root := root }

theorem made_concat (root : Path) (changes : List Change) (c : Change) :
    made root (changes ++ [c]) = (made root changes).apply c := by
  simp [made]

theorem edges_made (root : Path) (changes : List Change) :
    (made root changes).edges = changes.filterMap Change.edge? := by
  induction changes using List.reverseRecOn with
  | nil => rfl
  | append_singleton changes c ih =>
    rw [made_concat, List.filterMap_append, ← ih]
    cases c with
    | addModule m => simp [apply, Change.edge?]
    | addEdge e => simp [apply, addEdge, Change.edge?]
    | addBundleEntry | addUnresolved | addExternal | freeze =>
      simp [apply, addBundleEntry, addUnresolved, addExternal, Change.edge?]

theorem bundleEntries_made (root : Path) (changes : List Change) :
    (made root changes).bundleEntries = (changes.filterMap Change.entry?).eraseDups := by
  induction changes using List.reverseRecOn with
  | nil => rfl
  | append_singleton changes c ih =>
    rw [made_concat, List.filterMap_append]
    cases c with
    | addModule m => simp [apply, Change.entry?, ih, List.filterMap_cons]
    | addBundleEntry q =>
      simp [apply, addBundleEntry, Change.entry?, ih, eraseDups_concat]
    | addEdge | addUnresolved | addExternal | freeze =>
      simp [apply, addEdge, addUnresolved, addExternal, Change.entry?, ih, List.filterMap_cons]

theorem find?_modules_addModule (m : Module) :
    Table.find? p (g.addModule m).modules =
      (Table.find? p g.modules).or (if m.path = p then some m else none) := by
  rw [addModule]
  by_cases hhas : g.hasModule m.path = true
  · rw [if_pos hhas]
    by_cases hp : m.path = p
    · subst hp
      obtain ⟨m', hm'⟩ := Option.isSome_iff_exists.1 hhas
      rw [hm', Option.some_or]
    · rw [if_neg hp, Option.or_none]
  · rw [if_neg hhas]
    by_cases hp : m.path = p
    · subst hp
      have hnone : Table.find? m.path g.modules = none :=
        Option.not_isSome_iff_eq_none.1 hhas
      rw [Table.find?_put_self, hnone, Option.none_or, if_pos rfl]
    · rw [Table.find?_put_of_ne (Ne.symm hp), if_neg hp, Option.or_none]

/-- The module at a path is the first one that was added there. -/
theorem find?_modules_made (root p : Path) (changes : List Change) :
    Table.find? p (made root changes).modules = changes.findSome? (Change.moduleAt? p) := by
  induction changes using List.reverseRecOn with
  | nil => rfl
  | append_singleton changes c ih =>
    rw [made_concat, List.findSome?_append, ← ih]
    cases c with
    | addModule m =>
      show Table.find? p ((made root changes).addModule m).modules = _
      rw [find?_modules_addModule]
      simp [Change.moduleAt?]
    | addEdge | addBundleEntry | addUnresolved | addExternal | freeze =>
      simp [apply, addEdge, addBundleEntry, addUnresolved, addExternal, Change.moduleAt?]

/-! ## The edges that leave a module -/

section

variable {changes before after : List Change} {m : Module}

/-- Where a module is added at a path first, the changes since are those that follow. -/
theorem sinceModule_split (hm : m.path = p) (hbefore : ∀ c ∈ before, c.moduleAt? p = none) :
    sinceModule p (before ++ .addModule m :: after) = after := by
  have hadds : (Change.addModule m).moduleAt? p = some m := if_pos hm
  have hany : (before ++ .addModule m :: after).any (fun c => (c.moduleAt? p).isSome) = true := by
    simp [hadds]
  have hdrop : before.dropWhile (fun c => (c.moduleAt? p).isNone) = [] := by
    rw [List.dropWhile_eq_nil_iff]
    intro c hc
    rw [hbefore c hc]
    rfl
  rw [sinceModule, if_pos hany, List.dropWhile_append, hdrop]
  simp [hadds]

theorem sinceModule_of_forall_none (h : ∀ c ∈ changes, c.moduleAt? p = none) :
    sinceModule p changes = changes := by
  have hany : ¬ changes.any (fun c => (c.moduleAt? p).isSome) = true := by
    rw [List.any_eq_true]
    rintro ⟨c, hc, hsome⟩
    rw [h c hc] at hsome
    cases hsome
  rw [sinceModule, if_neg hany]

/-- A module is added at a path for a first time, or never. -/
theorem first_module_or_none (p : Path) (changes : List Change) :
    (∃ before m after, changes = before ++ .addModule m :: after ∧ m.path = p ∧
      ∀ c ∈ before, c.moduleAt? p = none) ∨ ∀ c ∈ changes, c.moduleAt? p = none := by
  induction changes with
  | nil => exact .inr (by simp)
  | cons c rest ih =>
    cases hc : c.moduleAt? p with
    | none =>
      rcases ih with ⟨before, m, after, rfl, hm, hbefore⟩ | hnone
      · exact .inl ⟨c :: before, m, after, rfl, hm, by simpa [hc] using hbefore⟩
      · exact .inr (by simpa [hc] using hnone)
    | some m =>
      obtain ⟨rfl, hm⟩ := Change.moduleAt?_eq_some_iff.1 hc
      exact .inl ⟨[], m, rest, rfl, hm, by simp⟩

/-- One more change is since a module was added, unless it is the one that adds it. -/
theorem sinceModule_concat (p : Path) (changes : List Change) (c : Change) :
    sinceModule p (changes ++ [c]) =
      if (c.moduleAt? p).isSome ∧ ∀ c' ∈ changes, c'.moduleAt? p = none then []
      else sinceModule p changes ++ [c] := by
  rcases first_module_or_none p changes with ⟨before, m, after, rfl, hm, hbefore⟩ | hnone
  · have hfirst : ¬ ∀ c' ∈ before ++ .addModule m :: after, c'.moduleAt? p = none := by
      intro h
      have hadds := h (.addModule m) (by simp)
      rw [Change.moduleAt?, if_pos hm] at hadds
      cases hadds
    rw [if_neg fun h => hfirst h.2, sinceModule_split hm hbefore, List.append_assoc,
      List.cons_append, sinceModule_split hm hbefore]
  · cases hc : c.moduleAt? p with
    | none =>
      have hall : ∀ c' ∈ changes ++ [c], c'.moduleAt? p = none := by
        simpa [or_imp, forall_and, hc] using hnone
      rw [if_neg (by simp), sinceModule_of_forall_none hall, sinceModule_of_forall_none hnone]
    | some m =>
      obtain ⟨rfl, hm⟩ := Change.moduleAt?_eq_some_iff.1 hc
      rw [if_pos ⟨rfl, hnone⟩, sinceModule_split hm hnone]

theorem sinceModule_concat_of_none {c : Change} (hc : c.moduleAt? p = none) :
    sinceModule p (changes ++ [c]) = sinceModule p changes ++ [c] := by
  rw [sinceModule_concat, if_neg]
  rintro ⟨hsome, -⟩
  rw [hc] at hsome
  cases hsome

end

theorem outEdges_addEdge (e : ImportEdge) :
    (g.addEdge e).outEdges p = g.outEdges p ++ if e.importer = p then [e] else [] := by
  by_cases he : e.importer = p
  · subst he
    rw [outEdges_addEdge_self, if_pos rfl]
  · rw [outEdges_addEdge_of_ne (Ne.symm he), if_neg he, List.append_nil]

theorem outEdges_addModule (m : Module) :
    (g.addModule m).outEdges p =
      if m.path = p ∧ g.hasModule p = false then [] else g.outEdges p := by
  by_cases hp : m.path = p
  · subst hp
    cases hhas : g.hasModule m.path with
    | true => rw [addModule_of_hasModule hhas, if_neg (by simp)]
    | false => rw [outEdges_addModule_self hhas, if_pos ⟨rfl, rfl⟩]
  · rw [outEdges_addModule_of_ne (Ne.symm hp), if_neg fun h => hp h.1]

theorem hasModule_made (root p : Path) (changes : List Change) :
    (made root changes).hasModule p = false ↔ ∀ c ∈ changes, c.moduleAt? p = none := by
  rw [hasModule, Table.has, find?_modules_made, Option.isSome_eq_false_iff,
    Option.isNone_iff_eq_none, List.findSome?_eq_none_iff]

/-- The edges kept for a module are those added since the module was. -/
theorem outEdges_made (root p : Path) (changes : List Change) :
    (made root changes).outEdges p =
      (sinceModule p changes).filterMap (Change.edgeFrom? p) := by
  induction changes using List.reverseRecOn with
  | nil => rfl
  | append_singleton changes c ih =>
    rw [made_concat]
    cases c with
    | addModule m =>
      show ((made root changes).addModule m).outEdges p = _
      simp only [outEdges_addModule, hasModule_made, sinceModule_concat]
      by_cases hfirst : m.path = p ∧ ∀ c' ∈ changes, c'.moduleAt? p = none
      · rw [if_pos hfirst, if_pos (by simpa [Change.moduleAt?] using hfirst)]
        rfl
      · rw [if_neg hfirst, if_neg (by simpa [Change.moduleAt?] using hfirst), ih,
          List.filterMap_append]
        simp [Change.edgeFrom?, Change.edge?]
    | addEdge e =>
      show ((made root changes).addEdge e).outEdges p = _
      rw [outEdges_addEdge, sinceModule_concat_of_none rfl, ih, List.filterMap_append]
      by_cases he : e.importer = p
      · have hfrom : (Change.addEdge e).edgeFrom? p = some e := by
          simp [Change.edgeFrom?, Change.edge?, Option.filter, he]
        rw [if_pos he, List.filterMap_cons_some hfrom, List.filterMap_nil]
      · simp [Change.edgeFrom?, Change.edge?, he]
    | addBundleEntry | addUnresolved | addExternal | freeze =>
      rw [sinceModule_concat_of_none rfl, List.filterMap_append, ← ih]
      simp [apply, addBundleEntry, addUnresolved, addExternal, outEdges, Change.edgeFrom?,
        Change.edge?]

theorem edges_made_filter (root p : Path) (changes : List Change) :
    ((made root changes).edges.filter fun e => e.importer = p) =
      changes.filterMap (Change.edgeFrom? p) := by
  rw [edges_made, List.filter_filterMap]
  rfl

/-- The edges kept for a path are all edges from it, unless one came ahead of the module there. -/
theorem outEdges_made_eq_iff (root p : Path) (changes : List Change) :
    (made root changes).outEdges p = ((made root changes).edges.filter fun e => e.importer = p) ↔
      ¬ EdgeAhead p changes := by
  rw [outEdges_made, edges_made_filter]
  have hnoEdge (m : Module) : (Change.addModule m).edgeFrom? p = none := rfl
  constructor
  · rintro h ⟨before, m, after, rfl, hm, hbefore, e, he, hep⟩
    rw [sinceModule_split hm hbefore, List.filterMap_append, List.filterMap_cons_none (hnoEdge m),
      List.self_eq_append_left, List.filterMap_eq_nil_iff] at h
    have hnone := h _ he
    simp [Change.edgeFrom?, Change.edge?, hep] at hnone
  · intro hahead
    rcases first_module_or_none p changes with ⟨before, m, after, rfl, hm, hbefore⟩ | hnone
    · rw [sinceModule_split hm hbefore, List.filterMap_append, List.filterMap_cons_none (hnoEdge m),
        List.self_eq_append_left, List.filterMap_eq_nil_iff]
      intro c hc
      cases c with
      | addEdge e =>
        have hep : e.importer ≠ p := by
          intro hep
          exact hahead ⟨before, m, after, rfl, hm, hbefore, e, hc, hep⟩
        simp [Change.edgeFrom?, Change.edge?, hep]
      | addModule | addBundleEntry | addUnresolved | addExternal | freeze => rfl
    · rw [sinceModule_of_forall_none hnone]

/-! ## Refused changes -/

theorem changeAll_of_frozen (h : g.frozen = true) (changes : List Change) :
    g.changeAll changes = g := by
  have hkeeps (c : Change) : (g.change c).toOption.getD g = g := by
    cases c with
    | freeze =>
      show { g with frozen := true } = g
      rw [← h]
    | addModule | addEdge | addBundleEntry | addUnresolved | addExternal =>
      simp [change, h, Except.toOption]
  induction changes with
  | nil => rfl
  | cons c rest ih =>
    show ((g.change c).toOption.getD g).changeAll rest = g
    rw [hkeeps c, ih]

theorem frozen_apply {c : Change} (hc : c.isFreeze = false) : (g.apply c).frozen = g.frozen := by
  cases c with
  | freeze => cases hc
  | addModule m =>
    show (g.addModule m).frozen = g.frozen
    rw [addModule]
    split <;> rfl
  | addEdge | addBundleEntry | addUnresolved | addExternal => rfl

/-- What changes do is done by those before the graph is frozen. -/
theorem changeAll_eq (h : g.frozen = false) (changes : List Change) :
    g.changeAll changes =
      { (granted changes).foldl apply g with frozen := changes.any Change.isFreeze } := by
  induction changes generalizing g with
  | nil =>
    show g = { g with frozen := false }
    rw [← h]
  | cons c rest ih =>
    show ((g.change c).toOption.getD g).changeAll rest = _
    cases hc : c.isFreeze with
    | true =>
      have hgranted : granted (c :: rest) = [] := by simp [granted, hc]
      have hfreeze : c = .freeze := by cases c <;> first | rfl | cases hc
      rw [hgranted, List.any_cons, hc, hfreeze]
      exact changeAll_of_frozen rfl rest
    | false =>
      have hgranted : granted (c :: rest) = c :: granted rest := by simp [granted, hc]
      have hchange : g.change c = .ok (g.apply c) := by
        cases c with
        | freeze => cases hc
        | addModule | addEdge | addBundleEntry | addUnresolved | addExternal => simp [change, h]
      rw [hgranted, List.any_cons, hc, hchange]
      exact ih ((frozen_apply hc).trans h)

/-! ## The indexes against the edges -/

/-- What the views of a graph tell of the changes that were asked of it. -/
structure IndexesTell (changes : List Change) (g : ModuleGraph) : Prop where
  edges : g.edges = (granted changes).filterMap Change.edge?
  /-- The edges kept for a path are those of the graph, unless one was added too early. -/
  out : ∀ p, g.outEdges p = (g.edges.filter fun e => e.importer = p) ↔
    ¬ EdgeAhead p (granted changes)
  /-- What is kept in any case. -/
  kept : ∀ p, g.outEdges p =
    (sinceModule p (granted changes)).filterMap (Change.edgeFrom? p)
  importers : g.ImportersIndexed
  nodup_entries : g.bundleEntries.Nodup
  entries : g.bundleEntries = ((granted changes).filterMap Change.entry?).eraseDups
  modules : ∀ p, Table.find? p g.modules = (granted changes).findSome? (Change.moduleAt? p)

theorem importersIndexed_made (root : Path) (changes : List Change) :
    (made root changes).ImportersIndexed := by
  induction changes using List.reverseRecOn with
  | nil => exact fun _ => rfl
  | append_singleton changes c ih =>
    rw [made_concat]
    exact ih.apply c

/-- After any changes, refused ones included, the importers kept for each path, the bundle entries
and the modules agree with what was added.  So do the edges kept for a path, if and only if no edge
from there was added ahead of its module: adding a module lets go of the edges kept before. -/
theorem indexes_agree_unless_edge_ahead (root : Path) (changes : List Change) :
    IndexesTell changes (({ root := root } : ModuleGraph).changeAll changes) := by
  have hmade : (({ root := root } : ModuleGraph).changeAll changes) =
      { made root (granted changes) with frozen := changes.any Change.isFreeze } :=
    changeAll_eq rfl changes
  have hentries := bundleEntries_made root (granted changes)
  rw [hmade]
  constructor
  case edges => exact edges_made root (granted changes)
  case out => exact fun p => outEdges_made_eq_iff root p (granted changes)
  case kept => exact fun p => outEdges_made root p (granted changes)
  case importers => exact importersIndexed_made root (granted changes)
  case nodup_entries => exact hentries ▸ nodup_eraseDups _
  case entries => exact hentries
  case modules => exact fun p => find?_modules_made root p (granted changes)

/-- An edge from one module to another. -/
def earlyEdge : ImportEdge :=
  ⟨⟨.root, ["a.js"]⟩, "./b.js", .static, some ⟨.root, ["b.js"]⟩, []⟩

/-- An edge that comes ahead of its module stays among the edges, but not among those kept for the
module. -/
theorem early_edge_is_let_go :
    let g := ({ root := ⟨.root, []⟩ } : ModuleGraph).changeAll
      [.addEdge earlyEdge, .addModule { path := earlyEdge.importer, id := "./a.js" }]
    g.edges = [earlyEdge] ∧ g.outEdges earlyEdge.importer = [] ∧
      g.outEdges earlyEdge.importer ≠ g.edges.filter fun e => e.importer = earlyEdge.importer := by
  decide

/-! ## Links -/

/-- A link leaves the importers kept and the edges in step. -/
theorem ImportersIndexed.addLink (h : g.ImportersIndexed) (p : Path) (l : Link) :
    (g.addLink p l).ImportersIndexed := by
  have hedge := h.apply (.addEdge (l.edge p))
  cases hl : l.resolution with
  | supplied =>
    rw [addLink_supplied hl]
    exact h.apply (.addExternal p l.ref.specifier)
  | failed deadEnd =>
    rw [addLink_failed hl]
    exact hedge.apply (.addUnresolved _)
  | found q route =>
    rw [addLink_found hl]
    split
    · exact hedge.apply (.addBundleEntry q)
    · exact hedge

end ModuleGraph

end BundleReach
