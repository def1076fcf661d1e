import BundleReach.Proofs.Audit.Consumers
import BundleReach.Report.Dot

/-!
# The layout of a drawing

The lines of a DOT document are those of its clusters, of the modules outside of them, of its edges,
and of the stand-in for imports that lead nowhere.  In the drawing of a finished audit each module
that the focus shows is declared once, in one cluster or outside of all, and nothing else is; each
edge shown ends at what is declared.

* `Layout` — the statements of a document, and `Drawing.lines_eq` that its lines are theirs.
* `Drawing.ShowsNode`, `Drawing.ShowsArrow` — what a focus shows.
* `Drawing.nodup_clustered` — no module is put in two clusters.
* `drawing_laid_out` — all of it, for finished audits.
-/

namespace BundleReach

/-- One text holds another where its characters stand together in it. -/
theorem Text.holds_iff {part s : String} :
    Text.holds part s = true ↔ part.toList <:+: s.toList := by
  rw [Text.holds]
  generalize s.toList = cs
  induction cs with
  | nil => rw [Text.isWithin, List.isEmpty_iff, List.infix_nil]
  | cons c cs ih =>
    rw [Text.isWithin, Bool.or_eq_true, List.isPrefixOf_iff_prefix, ih, List.infix_cons_iff]

/-! ## Layouts -/

/-- A bundle's cluster, with the bundle's number among all of them. -/
structure Cluster where
  index : Nat
  bundle : Bundle
  members : List String

/-- The statements of a DOT document. -/
structure Layout where
  clusters : List Cluster
  /-- The modules outside of clusters. -/
  loose : List String
  arrows : List Arrow
  /-- Whether there is a node for what leads nowhere. -/
  hole : Bool

namespace Layout

/-- The modules drawn in clusters. -/
def clustered (l : Layout) : List String := l.clusters.flatMap Cluster.members

/-- The modules declared, each as often as it is. -/
def declared (l : Layout) : List String := l.clustered ++ l.loose

/-- The lines of a document. -/
def lines (d : Drawing) (l : Layout) : List String :=
  ["digraph ModuleGraph \x7b", "  rankdir=LR;"] ++
    l.clusters.flatMap (fun c => d.clusterLines c.index c.bundle c.members) ++
    l.loose.map (fun id => "  " ++ inQuotes id ++ ";") ++ l.arrows.map Arrow.line ++
    (if l.hole then ["  \"" ++ unresolvedName ++ "\" [shape=octagon, color=red];"] else []) ++
    ["\x7d"]

end Layout

namespace Drawing

variable {d : Drawing} {focus : String} {chosen placed : List String} {index : Nat}

/-- The clusters of bundles from a number on; a bundle without modules of its own has none. -/
def clustersFrom (d : Drawing) (chosen : List String) :
    Nat → List String → List Bundle → List Cluster
  | _, _, [] => []
  | index, placed, b :: rest =>
    (if (d.members chosen placed b).isEmpty then [] else
      [⟨index, b, d.members chosen placed b⟩]) ++
    clustersFrom d chosen (index + 1) (placed ++ d.members chosen placed b) rest

/-- The layout that a focus leads to. -/
def layout (d : Drawing) (focus : String) : Layout :=
  let s := d.selection focus
  let clusters := d.clustersFrom s.nodes 0 [] d.bundles
  { clusters := clusters
    loose := s.nodes.filter fun id => !(clusters.flatMap Cluster.members).contains id
    arrows := s.arrows
    hole := s.arrows.any (·.target == unresolvedName) }

theorem clusters_eq (d : Drawing) (chosen : List String) (index : Nat) (placed : List String)
    (bundles : List Bundle) :
    d.clusters chosen index placed bundles =
      ((d.clustersFrom chosen index placed bundles).flatMap
          (fun c => d.clusterLines c.index c.bundle c.members),
        placed ++ (d.clustersFrom chosen index placed bundles).flatMap Cluster.members) := by
  induction bundles generalizing index placed with
  | nil => rw [clusters, clustersFrom, List.flatMap_nil, List.flatMap_nil, List.append_nil]
  | cons b rest ih =>
    rw [clusters, ih, clustersFrom, List.flatMap_append, List.flatMap_append]
    by_cases hnone : d.members chosen placed b = []
    · rw [hnone]
      simp
    · rw [if_neg (by simpa using hnone), if_neg (by simpa using hnone), List.flatMap_singleton,
        List.flatMap_singleton, List.append_assoc]

/-- The lines of a document are those of its layout. -/
theorem lines_eq (d : Drawing) (focus : String) :
    d.lines focus = (d.layout focus).lines d := by
  rw [lines, clusters_eq]
  rfl

/-! ## What a focus shows -/

/-- A module's path holds the focus. -/
def Focused (d : Drawing) (focus id : String) : Prop :=
  id ∈ d.nodes ∧ focus.toList <:+: id.toList

/-- A focus that no module's path holds, or that is empty, is none. -/
def Unfocused (d : Drawing) (focus : String) : Prop :=
  focus = "" ∨ ∀ id ∈ d.nodes, ¬ focus.toList <:+: id.toList

/-- The focus shows an edge: it touches a module whose path holds the focus. -/
def ShowsArrow (d : Drawing) (focus : String) (a : Arrow) : Prop :=
  d.Unfocused focus ∨ d.Focused focus a.source ∨ d.Focused focus a.target

/-- The focus shows a module: its path holds the focus, or it is at the end of an edge that touches
such a module. -/
def ShowsNode (d : Drawing) (focus id : String) : Prop :=
  id ∈ d.nodes ∧ (d.Unfocused focus ∨ d.Focused focus id ∨ ∃ a ∈ d.arrows,
    (d.Focused focus a.source ∨ d.Focused focus a.target) ∧ (id = a.source ∨ id = a.target))

instance (d : Drawing) (focus id : String) : Decidable (d.Focused focus id) :=
  inferInstanceAs (Decidable (_ ∧ _))

instance (d : Drawing) (focus : String) : Decidable (d.Unfocused focus) :=
  inferInstanceAs (Decidable (_ ∨ ∀ id ∈ d.nodes, ¬ focus.toList <:+: id.toList))

instance (d : Drawing) (focus : String) (a : Arrow) : Decidable (d.ShowsArrow focus a) :=
  inferInstanceAs (Decidable (_ ∨ _ ∨ _))

theorem mem_focused_iff {id : String} :
    id ∈ d.nodes.filter (Text.holds focus) ↔ d.Focused focus id := by
  rw [List.mem_filter, Text.holds_iff, Focused]

theorem unfocused_iff :
    (focus = "" ∨ d.nodes.filter (Text.holds focus) = []) ↔ d.Unfocused focus := by
  rw [Unfocused, List.filter_eq_nil_iff]
  simp only [Text.holds_iff]

theorem touches_focused_iff {a : Arrow} :
    a.touches (d.nodes.filter (Text.holds focus)) = true ↔
      d.Focused focus a.source ∨ d.Focused focus a.target := by
  rw [Arrow.touches, Bool.or_eq_true, List.contains_iff_mem, List.contains_iff_mem,
    mem_focused_iff, mem_focused_iff]

/-- What a focus selects among the edges is what it shows, in their order. -/
theorem arrows_selection (d : Drawing) (focus : String) :
    (d.selection focus).arrows = d.arrows.filter fun a => d.ShowsArrow focus a := by
  rw [selection]
  by_cases hall : d.Unfocused focus
  · rw [if_pos (unfocused_iff.2 hall)]
    exact (List.filter_eq_self.2 fun a _ => decide_eq_true (.inl hall)).symm
  · rw [if_neg (mt unfocused_iff.1 hall)]
    refine List.filter_congr fun a _ => ?_
    rw [Bool.eq_iff_iff, decide_eq_true_eq, touches_focused_iff, ShowsArrow, or_iff_right hall]

/-- What a focus selects among the modules is what it shows. -/
theorem mem_nodes_selection {id : String} :
    id ∈ (d.selection focus).nodes ↔ d.ShowsNode focus id := by
  by_cases hall : d.Unfocused focus
  · rw [selection, if_pos (unfocused_iff.2 hall)]
    exact ⟨fun h => ⟨h, .inl hall⟩, fun h => h.1⟩
  · have hends : ∀ arrow : Arrow, id ∈ [arrow.source, arrow.target] ↔
        id = arrow.source ∨ id = arrow.target := by simp
    rw [selection, if_neg (mt unfocused_iff.1 hall), mem_inOrder, mem_foldl_joinOnce,
      or_iff_right List.not_mem_nil, List.mem_append, mem_focused_iff, ShowsNode,
      or_iff_right hall]
    simp only [List.mem_filter, List.mem_flatMap, List.contains_iff_mem, touches_focused_iff, hends]
    constructor
    · rintro (hid | ⟨⟨a, ⟨ha, htouch⟩, hend⟩, hid⟩)
      · exact ⟨hid.1, .inl hid⟩
      · exact ⟨hid, .inr ⟨a, ha, htouch, hend⟩⟩
    · rintro ⟨hid, hfocus | ⟨a, ha, htouch, hend⟩⟩
      · exact .inl hfocus
      · exact .inr ⟨⟨a, ⟨ha, htouch⟩, hend⟩, hid⟩

theorem nodup_nodes_selection (hd : d.nodes.Nodup) : (d.selection focus).nodes.Nodup := by
  rw [selection]
  split
  · exact hd
  · exact (inOrder_perm _ _).nodup_iff.2 (nodup_foldl_joinOnce _ List.nodup_nil)

/-! ## Clusters -/

theorem mem_members {b : Bundle} {id : String} (h : id ∈ d.members chosen placed b) :
    id ∈ chosen ∧ id ∉ placed := by
  obtain ⟨-, h⟩ := List.mem_filter.1 h
  rw [Bool.and_eq_true, Bool.and_eq_true] at h
  exact ⟨by simpa using h.1.1, by simpa using h.1.2⟩

/-- No module is put in two clusters: what has been placed is left out of later ones. -/
theorem nodup_clustered (hd : d.nodes.Nodup) (bundles : List Bundle) :
    ((d.clustersFrom chosen index placed bundles).flatMap Cluster.members).Nodup ∧
      ∀ id ∈ (d.clustersFrom chosen index placed bundles).flatMap Cluster.members,
        id ∈ chosen ∧ id ∉ placed := by
  induction bundles generalizing index placed with
  | nil => exact ⟨List.nodup_nil, fun id hid => by cases hid⟩
  | cons b rest ih =>
    obtain ⟨hnodup, hlater⟩ := @ih (placed ++ d.members chosen placed b) (index + 1)
    have hfirst : (if (d.members chosen placed b).isEmpty then [] else
        [(⟨index, b, d.members chosen placed b⟩ : Cluster)]).flatMap Cluster.members =
          d.members chosen placed b := by
      by_cases hnone : d.members chosen placed b = []
      · simp [hnone]
      · rw [if_neg (by simpa using hnone), List.flatMap_singleton]
    rw [clustersFrom, List.flatMap_append, hfirst]
    refine ⟨List.nodup_append.2 ⟨hd.filter _, hnodup, fun id hid id' hid' => ?_⟩, fun id hid => ?_⟩
    · rintro rfl
      exact (hlater id hid').2 (List.mem_append_right _ hid)
    · rcases List.mem_append.1 hid with hid | hid
      · exact mem_members hid
      · obtain ⟨hchosen, hplaced⟩ := hlater id hid
        exact ⟨hchosen, fun h => hplaced (List.mem_append_left _ h)⟩

/-- A cluster is that of a bundle under the bundle's number, and there is something in it. -/
theorem of_mem_clustersFrom {bundles : List Bundle} {c : Cluster}
    (hc : c ∈ d.clustersFrom chosen index placed bundles) :
    c.members ≠ [] ∧ ∃ i, c.index = index + i ∧ bundles[i]? = some c.bundle := by
  induction bundles generalizing index placed with
  | nil => cases hc
  | cons b rest ih =>
    rw [clustersFrom, List.mem_append] at hc
    rcases hc with hc | hc
    · split at hc
      · cases hc
      · rename_i hsome
        rw [List.mem_singleton.1 hc]
        exact ⟨by simpa using hsome, 0, rfl, rfl⟩
    · obtain ⟨hsome, i, hi, hb⟩ := ih hc
      exact ⟨hsome, i + 1, by omega, by simpa using hb⟩

/-- Clusters stand in the order of their bundles, so no two have one number. -/
theorem pairwise_clustersFrom (d : Drawing) (chosen : List String) (index : Nat)
    (placed : List String) (bundles : List Bundle) :
    (d.clustersFrom chosen index placed bundles).Pairwise (·.index < ·.index) := by
  induction bundles generalizing index placed with
  | nil => exact .nil
  | cons b rest ih =>
    rw [clustersFrom, List.pairwise_append]
    refine ⟨?_, ih _ _, fun c hc c' hc' => ?_⟩
    · split
      · exact .nil
      · exact List.pairwise_singleton _ _
    · obtain ⟨-, i, hi, -⟩ := of_mem_clustersFrom hc'
      split at hc
      · cases hc
      · rw [List.mem_singleton.1 hc]
        show index < c'.index
        omega

/-- Of the modules that a focus selects, none is put in two clusters of the layout. -/
theorem nodup_clustered_layout (hd : d.nodes.Nodup) (focus : String) :
    (d.layout focus).clustered.Nodup ∧
      ∀ id ∈ (d.layout focus).clustered, id ∈ (d.selection focus).nodes ∧ id ∉ [] :=
  nodup_clustered hd d.bundles

theorem nodup_declared (hd : d.nodes.Nodup) (focus : String) :
    (d.layout focus).declared.Nodup := by
  obtain ⟨hclustered, -⟩ := nodup_clustered_layout hd focus
  refine List.nodup_append.2 ⟨hclustered, (nodup_nodes_selection hd).filter _, ?_⟩
  rintro id hid id' hid' rfl
  have hloose := (List.mem_filter.1 hid').2
  rw [Bool.not_eq_true', List.contains_eq_mem, decide_eq_false_iff_not] at hloose
  exact hloose hid

theorem mem_declared_iff (hd : d.nodes.Nodup) {id : String} :
    id ∈ (d.layout focus).declared ↔ d.ShowsNode focus id := by
  obtain ⟨-, hclustered⟩ := nodup_clustered_layout hd focus
  rw [← mem_nodes_selection, Layout.declared, List.mem_append]
  constructor
  · rintro (hid | hid)
    · exact (hclustered id hid).1
    · exact List.mem_of_mem_filter hid
  · intro hid
    by_cases hin : id ∈ (d.layout focus).clustered
    · exact .inl hin
    · refine .inr (List.mem_filter.2 ⟨hid, ?_⟩)
      rw [Bool.not_eq_true', List.contains_eq_mem, decide_eq_false_iff_not]
      exact hin

end Drawing

/-! ## Finished audits -/

/-- A document declares what the focus shows, each once. -/
structure LaidOut (d : Drawing) (focus : String) (l : Layout) : Prop where
  rendered : d.lines focus = l.lines d
  /-- Clusters are those of bundles, each under its bundle's number, and none is empty. -/
  clusters : ∀ c ∈ l.clusters, c.members ≠ [] ∧ d.bundles[c.index]? = some c.bundle
  numbered : l.clusters.Pairwise (·.index < ·.index)
  /-- In one cluster or outside of all, each module shown is declared once, and nothing else. -/
  once : l.declared.Nodup
  nodes : ∀ id, id ∈ l.declared ↔ d.ShowsNode focus id
  /-- The edges shown are drawn in their order. -/
  arrows : l.arrows = d.arrows.filter fun a => d.ShowsArrow focus a
  /-- An edge ends where a module is declared, or at the node for what leads nowhere. -/
  ends : ∀ a ∈ l.arrows, a.source ∈ l.declared ∧
    (a.target ∈ l.declared ∨ a.target = unresolvedName ∧ l.hole = true)
  hole : l.hole = true ↔ ∃ a ∈ l.arrows, a.target = unresolvedName
  /-- The node for what leads nowhere is no module. -/
  apart : unresolvedName ∉ l.declared

/-- Where no two modules have one id, none has that of an import that leads nowhere, and edges end
at modules or nowhere, a drawing is laid out. -/
theorem Drawing.laidOut {d : Drawing} (hnodes : d.nodes.Nodup) (hapart : unresolvedName ∉ d.nodes)
    (hends : ∀ a ∈ d.arrows, a.source ∈ d.nodes ∧ (a.target ∈ d.nodes ∨ a.target = unresolvedName))
    (focus : String) : LaidOut d focus (d.layout focus) := by
  have harrows : (d.layout focus).arrows = d.arrows.filter fun a => d.ShowsArrow focus a :=
    d.arrows_selection focus
  have hhole : (d.layout focus).hole = true ↔
      ∃ a ∈ (d.layout focus).arrows, a.target = unresolvedName := by
    refine List.any_eq_true.trans (exists_congr fun a => and_congr_right fun _ => ?_)
    exact beq_iff_eq
  -- Both ends of an edge that is shown are shown.
  have hshown : ∀ a ∈ (d.layout focus).arrows, ∀ id, (id = a.source ∨ id = a.target) →
      id ∈ d.nodes → d.ShowsNode focus id := by
    intro a ha id hend hid
    obtain ⟨hall, hshows⟩ := List.mem_filter.1 (harrows ▸ ha)
    rcases of_decide_eq_true hshows with hun | htouch
    · exact ⟨hid, .inl hun⟩
    · exact ⟨hid, .inr (.inr ⟨a, hall, htouch, hend⟩)⟩
  refine ⟨d.lines_eq focus, fun c hc => ?_, d.pairwise_clustersFrom _ _ _ _,
    Drawing.nodup_declared hnodes focus, fun id => Drawing.mem_declared_iff hnodes, harrows,
    fun a ha => ?_, hhole, fun h => hapart ((Drawing.mem_declared_iff hnodes).1 h).1⟩
  · obtain ⟨hsome, i, hi, hb⟩ := Drawing.of_mem_clustersFrom hc
    exact ⟨hsome, by rw [hi, Nat.zero_add, hb]⟩
  · obtain ⟨hsource, htarget⟩ := hends a (List.mem_of_mem_filter (harrows ▸ ha))
    refine ⟨(Drawing.mem_declared_iff hnodes).2 (hshown a ha _ (.inl rfl) hsource), ?_⟩
    refine htarget.imp (fun htarget => ?_) fun htarget => ⟨htarget, hhole.2 ⟨a, ha, htarget⟩⟩
    exact (Drawing.mem_declared_iff hnodes).2 (hshown a ha _ (.inr rfl) htarget)

/-- Where no two modules have one id, the drawing of a graph built to the end is laid out. -/
theorem Complete.laidOut_drawing {r : GraphBuilder} {main : Path} {d : Drawing}
    (h : Complete r main d.graph) (hnodes : d.nodes.Nodup) (focus : String) :
    LaidOut d focus (d.layout focus) := by
  have hid : ∀ p, d.graph.hasModule p = true → d.graph.idOf p ∈ d.nodes := by
    intro p hp
    obtain ⟨m, hm⟩ := Table.mem_keys_iff.1 (ModuleGraph.hasModule_iff.1 hp)
    have hmem := Table.mem_of_find? hm
    exact List.mem_map.2 ⟨(p, m), hmem, h.id_of_mem hmem⟩
  refine Drawing.laidOut hnodes (fun hmem => ?_) (fun arrow harrow => ?_) focus
  · obtain ⟨e, he, hname⟩ := List.mem_map.1 hmem
    obtain ⟨cs, hcs⟩ := Path.exists_toList_relativeTo d.graph.root e.1
    have hid' : d.graph.root.relativeTo e.1 = unresolvedName := (h.id_of_mem he).symm.trans hname
    rw [hid'] at hcs
    cases hcs
  · obtain ⟨e, he, rfl⟩ := List.mem_map.1 harrow
    have hout : e ∈ d.graph.outEdges e.importer := by
      rw [h.edges]
      exact List.mem_filter.2 ⟨he, by simp⟩
    obtain ⟨hsource, htarget⟩ := h.hasModule_of_mem_outEdges hout
    refine ⟨hid _ hsource, ?_⟩
    cases hto : e.target with
    | none => exact .inr rfl
    | some q => exact .inl (hid q (htarget q hto))

/-- What a finished audit of a well-formed tree draws is laid out, whatever the focus: each module
shown is declared once, in one cluster or outside of all, and no other; the edges shown are drawn in
their order, each between nodes that are declared; and there is a node for what leads nowhere where
an edge shown leads there. -/
theorem drawing_laid_out (e : Environment) (t : FileTree) (output : Path) (given : Option Settings)
    (a : Audit) (focus : String) (ht : t.WellFormed)
    (h : runAudit e t output given = .ok a) :
    LaidOut a.drawing focus (a.drawing.layout focus) := by
  obtain ⟨r, main, built, hs, rfl⟩ := stages_of_runAudit h
  have hnodes : (auditGraph t (t.resolve output) r.settings (r.app :: r.addons)
      built).drawing.nodes.Nodup := hs.nodup_ids ht
  exact Complete.laidOut_drawing hs.onePass.complete.freeze hnodes focus

/-- The focus leaves one module out, and shows an edge that leads nowhere. -/
theorem drawing_laid_out_stale :
    staleOutput.WellFormed ∧
      ∃ a, runAudit (plainEnvironment staleScripts) staleOutput ⟨.root, ["app"]⟩
          (some (.initial 4)) = .ok a ∧
        ((a.drawing.layout "later").clusters.map (fun c => (c.index, c.bundle.name, c.members)) =
            [(0, "main", ["./app.js", "./names.js"]), (1, "later", ["./later.js"])] ∧
          (a.drawing.layout "later").arrows.map (fun w => (w.source, w.target)) =
            [("./app.js", "./later.js"), ("./later.js", "./names.js"),
              ("./later.js", unresolvedName)] ∧
          (a.drawing.layout "later").hole = true) ∧
        LaidOut a.drawing "later" (a.drawing.layout "later") := by
  refine ⟨wellFormed_staleOutput, exists_ok_and ?_ fun a ha _ =>
    drawing_laid_out _ _ _ _ a _ wellFormed_staleOutput ha⟩
  decide +kernel

end BundleReach
