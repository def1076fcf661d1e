import BundleReach.Proofs.Audit.Duplicates
import BundleReach.Proofs.Audit.Records
import BundleReach.Proofs.Graph.Indexes

/-!
# Who imports whom

The record of a module lists what it imports, and the modules that import it.  The two lists come
from two indexes of the graph, each kept for itself while the graph grows.

* `Complete.mem_importersOf_iff` — a module is among the importers of another one if and only if an
  edge leads from the one to the other.
* `ConsumptionTold` — what the records of an audit are meant to tell of imports and importers.
* `consumption_told` — they do: one list is the inverse of the other.
-/

namespace BundleReach

/-! ## The importers in a built graph -/

section

variable {r : GraphBuilder} {main : Path} {g : ModuleGraph} {p q : Path}

/-- The importers kept by a build are those of its edges. -/
theorem OnePass.importersIndexed (h : OnePass r main g) : g.ImportersIndexed := by
  refine h.invariant (P := ModuleGraph.ImportersIndexed) (fun _ => rfl) ?_ ?_
  · intro g p ref resolution _ _ hg
    exact hg.addLink p ⟨ref, resolution⟩
  · intro g q _ hg
    exact hg.addModule (moduleAt r q)

theorem ModuleGraph.mem_consumers_iff :
    q ∈ g.consumers p ↔ ∃ e ∈ g.edges, e.importer = q ∧ e.target = some p := by
  rw [consumers, List.mem_eraseDups, List.mem_map]
  constructor
  · rintro ⟨e, he, himporter⟩
    obtain ⟨hedge, htarget⟩ := List.mem_filter.1 he
    exact ⟨e, hedge, himporter, by simpa using htarget⟩
  · rintro ⟨e, hedge, himporter, htarget⟩
    exact ⟨e, List.mem_filter.2 ⟨hedge, by simpa using htarget⟩, himporter⟩

/-- The ends of an edge are modules. -/
theorem Complete.hasModule_of_mem_outEdges (h : Complete r main g) {e : ImportEdge}
    (he : e ∈ g.outEdges p) : g.hasModule p = true ∧
      ∀ q, e.target = some q → g.hasModule q = true := by
  obtain ⟨hp, ref, href, resolution, hres, -, rfl⟩ := h.mem_outEdges_iff.1 he
  refine ⟨hp, fun q hq => ?_⟩
  obtain ⟨route, rfl⟩ := Link.target?_eq_some_iff.1 hq
  by_cases hkind : ref.kind = .dynamic
  · exact h.entries q ((h.found_mem hp href hres).2 hkind)
  · exact (h.found_mem hp href hres).1 hkind

/-- Importers are modules, from which an edge leads to what they import. -/
theorem Complete.mem_consumers_iff (h : Complete r main g) :
    q ∈ g.consumers p ↔ g.hasModule q = true ∧ ∃ e ∈ g.outEdges q, e.target = some p := by
  rw [ModuleGraph.mem_consumers_iff]
  constructor
  · rintro ⟨e, hedge, himporter, htarget⟩
    have hout : e ∈ g.outEdges q := by
      rw [h.edges]
      exact List.mem_filter.2 ⟨hedge, by simpa using himporter⟩
    exact ⟨(h.hasModule_of_mem_outEdges hout).1, e, hout, htarget⟩
  · rintro ⟨-, e, hout, htarget⟩
    rw [h.edges] at hout
    obtain ⟨hedge, himporter⟩ := List.mem_filter.1 hout
    exact ⟨e, hedge, by simpa using himporter, htarget⟩

end

/-! ## What records are meant to tell -/

/-- What the records of an audit tell of imports and importers. -/
structure ConsumptionTold (a : Audit) : Prop where
  recorded : ∀ e ∈ a.graph.modules, ∃ record, Table.find? e.2.id a.records = some record
  /-- The record of a module lists the edges that leave it, in order. -/
  imports : ∀ e ∈ a.graph.modules, ∀ record, Table.find? e.2.id a.records = some record →
    record.imports = (a.graph.edges.filter fun x => x.importer = e.1).map fun x =>
      ⟨x.specifier, x.kind, a.graph.targetId x.target⟩
  /-- It lists the importers of the edges that lead to it, in the order of their first such edge. -/
  consumedFrom : ∀ e ∈ a.graph.modules, ∀ record, Table.find? e.2.id a.records = some record →
    record.consumedFrom = (a.graph.consumers e.1).map a.graph.idOf
  nodup : ∀ e ∈ a.records, e.2.consumedFrom.Nodup
  /-- A module is listed as an importer of another one if and only if its own record lists an import
  that leads there. -/
  inverse : ∀ e ∈ a.graph.modules, ∀ e' ∈ a.graph.modules, ∀ record record',
    Table.find? e.2.id a.records = some record → Table.find? e'.2.id a.records = some record' →
      (e.2.id ∈ record'.consumedFrom ↔ ∃ i ∈ record.imports, i.resolved = e'.2.id)
  /-- The record of a file that is no module of the graph lists neither. -/
  stray : ∀ id record, Table.find? id a.records = some record →
    (∀ e ∈ a.graph.modules, e.2.id ≠ id) → record.consumedFrom = [] ∧ record.imports = []

section

variable {e : Environment} {t : FileTree} {output : Path} {given : Option Settings}
  {r : GraphBuilder} {main : Path} {built : ModuleGraph} {bundles : List Bundle} {c : Closures}
  {records : Table String ModuleRecord} {id : String}

/-- What bundles ship changes no list of imports or importers. -/
theorem consumption_foldl_recordShipped (hb : ∀ b ∈ bundles, b.shipped.Nodup)
    (records : Table String ModuleRecord) (id : String) :
    (recordIn (bundles.foldl recordShipped records) id).consumedFrom =
        (recordIn records id).consumedFrom ∧
      (recordIn (bundles.foldl recordShipped records) id).imports =
        (recordIn records id).imports := by
  rw [recordIn_foldl_recordShipped hb]
  exact ⟨rfl, rfl⟩

namespace Stages

/-- The record of a module lists its edges and its importers. -/
theorem consumption_recorded (h : Stages e t output given r main built) (ht : t.WellFormed)
    {e : Path × Module} (he : e ∈ built.modules) :
    (recordIn h.audit.records e.2.id).consumedFrom = (built.consumers e.1).map built.idOf ∧
      (recordIn h.audit.records e.2.id).imports =
        (built.edges.filter fun x => x.importer = e.1).map fun x =>
          ⟨x.specifier, x.kind, built.targetId x.target⟩ := by
  have hpath : e.2.path = e.1 :=
    congrArg (fun e => Module.path e.2) (h.onePass.complete.modules e he)
  have hrecord := recordIn_graphRecords (g := h.audit.graph) (h.nodup_ids ht) h.audit.bundles
    h.audit.closures he
  obtain ⟨hfrom, himports⟩ := consumption_foldl_recordShipped h.nodup_shipped
    (graphRecords h.audit.graph h.audit.bundles h.audit.closures) e.2.id
  constructor
  · calc (recordIn h.audit.records e.2.id).consumedFrom
        = (recordOf h.audit.graph h.audit.bundles h.audit.closures e.2).consumedFrom :=
          hrecord ▸ hfrom
      _ = (built.importersOf e.1).map built.idOf := by
          rw [← hpath]
          rfl
      _ = (built.consumers e.1).map built.idOf := by
          rw [h.onePass.importersIndexed e.1]
  · calc (recordIn h.audit.records e.2.id).imports
        = (recordOf h.audit.graph h.audit.bundles h.audit.closures e.2).imports :=
          hrecord ▸ himports
      _ = (built.outEdges e.1).map fun x => ⟨x.specifier, x.kind, built.targetId x.target⟩ := by
          rw [← hpath]
          rfl
      _ = _ := by rw [h.onePass.complete.edges]

theorem consumption_of_stray (h : Stages e t output given r main built)
    (hid : ∀ e ∈ built.modules, e.2.id ≠ id) :
    (recordIn h.audit.records id).consumedFrom = [] ∧
      (recordIn h.audit.records id).imports = [] := by
  obtain ⟨hfrom, himports⟩ := consumption_foldl_recordShipped h.nodup_shipped
    (graphRecords h.audit.graph h.audit.bundles h.audit.closures) id
  have hnone : recordIn (graphRecords h.audit.graph h.audit.bundles h.audit.closures) id = {} :=
    recordIn_graphRecords_of_not_mem hid
  rw [hnone] at hfrom himports
  exact ⟨hfrom, himports⟩

theorem nodup_consumedFrom (h : Stages e t output given r main built) (ht : t.WellFormed)
    (id : String) : (recordIn h.audit.records id).consumedFrom.Nodup := by
  by_cases hid : ∃ e ∈ built.modules, e.2.id = id
  · obtain ⟨e, he, rfl⟩ := hid
    rw [(h.consumption_recorded ht he).1]
    refine List.Nodup.map_on (fun p hp q hq heq => ?_) (nodup_eraseDups _)
    obtain ⟨hp, -⟩ := h.onePass.complete.mem_consumers_iff.1 hp
    obtain ⟨hq, -⟩ := h.onePass.complete.mem_consumers_iff.1 hq
    exact h.idOf_injective ht hp hq heq
  · rw [(h.consumption_of_stray fun e he hid' => hid ⟨e, he, hid'⟩).1]
    exact List.nodup_nil

/-- The end of an edge is called by a module's id if and only if the module is the end. -/
theorem targetId_eq_iff (h : Stages e t output given r main built) (ht : t.WellFormed)
    {p q : Path} {e : ImportEdge} (he : e ∈ built.outEdges q) (hp : built.hasModule p = true) :
    built.targetId e.target = built.idOf p ↔ e.target = some p := by
  cases htarget : e.target with
  | none =>
    refine ⟨fun hcalled => ?_, nofun⟩
    -- Ids begin with a dot, which the name for a missing end does not.
    obtain ⟨cs, hcs⟩ := Path.exists_toList_relativeTo built.root p
    have hname : unresolvedName.toList = '.' :: cs := by
      rw [← hcs]
      exact congrArg String.toList hcalled
    cases hname
  | some x =>
    have hx := (h.onePass.complete.hasModule_of_mem_outEdges he).2 x htarget
    rw [Option.some.injEq]
    exact ⟨fun hcalled => h.idOf_injective ht hx hp hcalled, fun hxp => congrArg built.idOf hxp⟩

/-- Among the importers recorded are those modules whose own records list an import of it. -/
theorem mem_consumedFrom_iff (h : Stages e t output given r main built) (ht : t.WellFormed)
    {e e' : Path × Module} (he : e ∈ built.modules) (he' : e' ∈ built.modules) :
    e.2.id ∈ (recordIn h.audit.records e'.2.id).consumedFrom ↔
      ∃ i ∈ (recordIn h.audit.records e.2.id).imports, i.resolved = e'.2.id := by
  have hcomplete := h.onePass.complete
  have hmodule : built.hasModule e.1 = true :=
    ModuleGraph.hasModule_iff.2 (List.mem_map.2 ⟨e, he, rfl⟩)
  have hmodule' : built.hasModule e'.1 = true :=
    ModuleGraph.hasModule_iff.2 (List.mem_map.2 ⟨e', he', rfl⟩)
  have hlisted : e.2.id ∈ (recordIn h.audit.records e'.2.id).consumedFrom ↔
      e.1 ∈ built.consumers e'.1 := by
    rw [(h.consumption_recorded ht he').1, List.mem_map, h.id_of_mem he]
    constructor
    · rintro ⟨q, hq, heq⟩
      rwa [← h.idOf_injective ht (hcomplete.mem_consumers_iff.1 hq).1 hmodule heq]
    · intro hmem
      exact ⟨e.1, hmem, rfl⟩
  have himport : (∃ i ∈ (recordIn h.audit.records e.2.id).imports, i.resolved = e'.2.id) ↔
      ∃ x ∈ built.outEdges e.1, x.target = some e'.1 := by
    rw [(h.consumption_recorded ht he).2, ← hcomplete.edges, h.id_of_mem he']
    constructor
    · rintro ⟨i, hi, hresolved⟩
      obtain ⟨x, hx, rfl⟩ := List.mem_map.1 hi
      exact ⟨x, hx, (h.targetId_eq_iff ht hx hmodule').1 hresolved⟩
    · rintro ⟨x, hx, htarget⟩
      exact ⟨_, List.mem_map.2 ⟨x, hx, rfl⟩, (h.targetId_eq_iff ht hx hmodule').2 htarget⟩
  rw [hlisted, himport, hcomplete.mem_consumers_iff]
  exact and_iff_right hmodule

end Stages

/-- The lists of importers in the records are the inverse of the lists of imports. -/
theorem consumption_told (e : Environment) (t : FileTree) (output : Path) (given : Option Settings)
    (a : Audit) (ht : t.WellFormed) (h : runAudit e t output given = .ok a) :
    ConsumptionTold a := by
  obtain ⟨r, main, built, hs, rfl⟩ := stages_of_runAudit h
  constructor
  case recorded =>
    intro e he
    exact Table.mem_keys_iff.1 ((hs.mem_keys_records e.2.id).2 (.inl ⟨e, he, rfl⟩))
  case imports =>
    intro e he record hfind
    exact recordIn_of_find? hfind ▸ (hs.consumption_recorded ht he).2
  case consumedFrom =>
    intro e he record hfind
    exact recordIn_of_find? hfind ▸ (hs.consumption_recorded ht he).1
  case nodup =>
    intro e he
    have hfind := Table.find?_of_mem hs.nodup_keys_records he
    exact recordIn_of_find? hfind ▸ hs.nodup_consumedFrom ht e.1
  case inverse =>
    intro e he e' he' record record' hfind hfind'
    exact recordIn_of_find? hfind ▸ recordIn_of_find? hfind' ▸ hs.mem_consumedFrom_iff ht he he'
  case stray =>
    intro id record hfind hid
    exact recordIn_of_find? hfind ▸ hs.consumption_of_stray hid

end

/-- The module that two bundles share is imported by a module of each.  The script that is only
shipped has both lists empty. -/
theorem consumption_told_stale :
    staleOutput.WellFormed ∧
      ∃ a, runAudit (plainEnvironment staleScripts) staleOutput ⟨.root, ["app"]⟩
          (some (.initial 4)) = .ok a ∧
        (a.records.map fun e => (e.1, e.2.consumedFrom, e.2.imports.map ImportRecord.resolved)) =
          [("./app.js", [], ["./cart.js", "./later.js"]),
            ("./cart.js", ["./app.js"], ["./names.js"]),
            ("./names.js", ["./cart.js", "./later.js"], []),
            ("./later.js", ["./app.js"], ["./names.js", unresolvedName]), ("./stray.js", [], [])] ∧
        ConsumptionTold a := by
  refine ⟨wellFormed_staleOutput, exists_ok_and ?_ fun a ha _ =>
    consumption_told _ _ _ _ a wellFormed_staleOutput ha⟩
  decide +kernel

end BundleReach
