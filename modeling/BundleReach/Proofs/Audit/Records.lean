import BundleReach.Proofs.Audit.Stages
import BundleReach.Proofs.Plain

/-!
# What the records tell

An audit keeps a record of each module of the graph, and of whatever else a bundle ships.  The
records are made in two steps, from the closures and from the folders on disk; each step goes
through the bundles in order, so that a record lists bundles in their order.

* `bundlesReaching_eq`, `recordIn_recordShipped` — what each of the steps lists.
* `RecordsTell` — what the records of an audit are meant to tell.
* `records_tell` — they do: every module belongs to a bundle, and its record says to which.
-/

namespace BundleReach

variable {g : ModuleGraph} {bundles : List Bundle} {c : Closures} {p : Path} {id : String}
  {records : Table String ModuleRecord}

/-! ## Names of bundles -/

/-- The names of those bundles that pass a test, in order. -/
def namesOf (bundles : List Bundle) (test : Bundle → Bool) : List String :=
  (bundles.filter test).map Bundle.name

theorem namesOf_cons (b : Bundle) (bundles : List Bundle) (test : Bundle → Bool) :
    namesOf (b :: bundles) test = namesOf [b] test ++ namesOf bundles test := by
  rw [namesOf, List.filter_cons]
  cases h : test b <;> simp [namesOf, h]

theorem nodup_namesOf (h : (bundles.map Bundle.name).Nodup) (test : Bundle → Bool) :
    (namesOf bundles test).Nodup :=
  h.sublist (List.filter_sublist.map Bundle.name)

/-! ## Bundles that need a module -/

/-- A bundle needs a module if its closure holds it. -/
def Bundle.needs (c : Closures) (p : Path) (b : Bundle) : Bool := closureOf c b |>.contains p

/-- The bundles listed for a module are those that need it, each once. -/
theorem bundlesReaching_eq (h : ∀ b, (closureOf c b).Nodup) (bundles : List Bundle) (p : Path) :
    bundlesReaching bundles c p = namesOf bundles (Bundle.needs c p) := by
  induction bundles with
  | nil => rfl
  | cons b rest ih =>
    have hone : ((closureOf c b).filter (· == p)).map (fun _ => b.name) =
        namesOf [b] (Bundle.needs c p) := by
      by_cases hp : p ∈ closureOf c b
      · have hneeds : Bundle.needs c p b = true := List.contains_iff_mem.2 hp
        rw [List.filter_beq, List.count_eq_one_of_mem (h b) hp, namesOf,
          List.filter_cons_of_pos hneeds]
        rfl
      · have hneeds : ¬ Bundle.needs c p b = true := fun hc => hp (List.contains_iff_mem.1 hc)
        rw [List.filter_beq, List.count_eq_zero_of_not_mem hp, namesOf,
          List.filter_cons_of_neg hneeds]
        rfl
    rw [namesOf_cons, ← ih, ← hone, bundlesReaching, List.flatMap_cons]
    rfl

/-! ## Bundles that ship a module -/

/-- The files that a bundle ships, by their paths within its folder. -/
def Bundle.shipped (b : Bundle) : List String := Table.keys (b.physical.getD [])

/-- A bundle ships a module if a file of its folder has the module's path. -/
def Bundle.ships (id : String) (b : Bundle) : Bool := b.shipped.contains id

/-- What records tell about a module: nothing, if there is no record of it. -/
def recordIn (records : Table String ModuleRecord) (id : String) : ModuleRecord :=
  (Table.find? id records).getD {}

theorem recordIn_of_find? {record : ModuleRecord} (h : Table.find? id records = some record) :
    recordIn records id = record := by
  rw [recordIn, h, Option.getD_some]

theorem find?_recordShipped {b : Bundle} (hb : b.shipped.Nodup)
    (records : Table String ModuleRecord) (id : String) :
    Table.find? id (recordShipped records b) =
      if id ∈ b.shipped then
        some { recordIn records id with
          shippedIn := (recordIn records id).shippedIn ++ [b.name] }
      else Table.find? id records :=
  Table.find?_foldl_change hb _ _ records

theorem recordIn_recordShipped {b : Bundle} (hb : b.shipped.Nodup)
    (records : Table String ModuleRecord) (id : String) :
    recordIn (recordShipped records b) id =
      { recordIn records id with
        shippedIn := (recordIn records id).shippedIn ++ namesOf [b] (Bundle.ships id) } := by
  rw [recordIn, find?_recordShipped hb]
  by_cases hid : id ∈ b.shipped
  · have hships : Bundle.ships id b = true := List.contains_iff_mem.2 hid
    rw [if_pos hid, namesOf, List.filter_cons_of_pos hships]
    rfl
  · have hships : ¬ Bundle.ships id b = true := fun hc => hid (List.contains_iff_mem.1 hc)
    rw [if_neg hid, namesOf, List.filter_cons_of_neg hships]
    simp only [List.filter_nil, List.map_nil, List.append_nil]
    rfl

/-- Going through the bundles adds to a record the names of those that ship the module. -/
theorem recordIn_foldl_recordShipped (hb : ∀ b ∈ bundles, b.shipped.Nodup)
    (records : Table String ModuleRecord) (id : String) :
    recordIn (bundles.foldl recordShipped records) id =
      { recordIn records id with
        shippedIn := (recordIn records id).shippedIn ++ namesOf bundles (Bundle.ships id) } := by
  induction bundles generalizing records with
  | nil => simp [namesOf]
  | cons b rest ih =>
    rw [List.foldl_cons, ih fun b' hb' => hb b' (List.mem_cons_of_mem b hb'),
      recordIn_recordShipped (hb b List.mem_cons_self), namesOf_cons b rest]
    simp only [List.append_assoc]

theorem bundles_foldl_recordShipped (hb : ∀ b ∈ bundles, b.shipped.Nodup)
    (records : Table String ModuleRecord) (id : String) :
    (recordIn (bundles.foldl recordShipped records) id).bundles =
      (recordIn records id).bundles := by
  rw [recordIn_foldl_recordShipped hb]

theorem shippedIn_foldl_recordShipped (hb : ∀ b ∈ bundles, b.shipped.Nodup)
    (records : Table String ModuleRecord) (id : String) :
    (recordIn (bundles.foldl recordShipped records) id).shippedIn =
      (recordIn records id).shippedIn ++ namesOf bundles (Bundle.ships id) := by
  rw [recordIn_foldl_recordShipped hb]

/-- There is a record of what there was one of before, and of what is shipped. -/
theorem mem_keys_foldl_recordShipped (hb : ∀ b ∈ bundles, b.shipped.Nodup)
    (records : Table String ModuleRecord) (id : String) :
    id ∈ Table.keys (bundles.foldl recordShipped records) ↔
      id ∈ Table.keys records ∨ ∃ b ∈ bundles, id ∈ b.shipped := by
  induction bundles generalizing records with
  | nil => simp
  | cons b rest ih =>
    have hone : id ∈ Table.keys (recordShipped records b) ↔
        id ∈ Table.keys records ∨ id ∈ b.shipped := by
      rw [Table.mem_keys_iff, find?_recordShipped (hb b List.mem_cons_self)]
      by_cases hid : id ∈ b.shipped
      · simp [hid]
      · simp [hid, Table.mem_keys_iff]
    rw [List.foldl_cons, ih fun b' hb' => hb b' (List.mem_cons_of_mem b hb'), hone, or_assoc]
    refine or_congr_right ?_
    simp only [List.mem_cons, exists_eq_or_imp]

theorem nodup_keys_foldl_recordShipped (bundles : List Bundle) (h : (Table.keys records).Nodup) :
    (Table.keys (bundles.foldl recordShipped records)).Nodup := by
  induction bundles generalizing records with
  | nil => exact h
  | cons b rest ih => exact ih (Table.nodup_keys_foldl_change _ _ _ h)

/-! ## The records of a graph -/

/-- The records of the modules of a graph, before it is looked at what bundles ship. -/
def graphRecords (g : ModuleGraph) (bundles : List Bundle) (c : Closures) :
    Table String ModuleRecord :=
  Table.ofEntries (g.modules.map fun e => (e.2.id, recordOf g bundles c e.2))

theorem mem_keys_graphRecords (g : ModuleGraph) (bundles : List Bundle) (c : Closures)
    (id : String) :
    id ∈ Table.keys (graphRecords g bundles c) ↔ ∃ e ∈ g.modules, e.2.id = id := by
  rw [graphRecords, Table.mem_keys_ofEntries, Table.keys, List.map_map, List.mem_map]
  rfl

/-- Where no two modules have one id, a module's record is found under its id. -/
theorem recordIn_graphRecords (hn : (g.modules.map fun e => e.2.id).Nodup)
    (bundles : List Bundle) (c : Closures) {e : Path × Module} (he : e ∈ g.modules) :
    recordIn (graphRecords g bundles c) e.2.id = recordOf g bundles c e.2 := by
  have hkeys : (Table.keys (g.modules.map fun e => (e.2.id, recordOf g bundles c e.2))).Nodup := by
    rwa [Table.keys, List.map_map]
  rw [recordIn, graphRecords, Table.ofEntries_of_nodup hkeys,
    Table.find?_of_mem hkeys (List.mem_map.2 ⟨e, he, rfl⟩)]
  rfl

theorem recordIn_graphRecords_of_not_mem (h : ∀ e ∈ g.modules, e.2.id ≠ id) :
    recordIn (graphRecords g bundles c) id = {} := by
  have hnone : Table.find? id (graphRecords g bundles c) = none := by
    rw [Table.find?_eq_none_iff, mem_keys_graphRecords g bundles c id]
    rintro ⟨e, he, hid⟩
    exact h e he hid
  rw [recordIn, hnone]
  rfl

/-- What is recorded of a graph says nothing of what bundles ship. -/
theorem shippedIn_graphRecords (hn : (g.modules.map fun e => e.2.id).Nodup) (id : String) :
    (recordIn (graphRecords g bundles c) id).shippedIn = [] := by
  by_cases h : ∃ e ∈ g.modules, e.2.id = id
  · obtain ⟨e, he, rfl⟩ := h
    rw [recordIn_graphRecords hn bundles c he]
    rfl
  · rw [recordIn_graphRecords_of_not_mem fun e he hid => h ⟨e, he, hid⟩]

/-! ## What records are meant to tell -/

/-- What the records of an audit tell of modules and bundles. -/
structure RecordsTell (a : Audit) : Prop where
  /-- A bundle of the graph has the closure of its entries, an orphan has none. -/
  closures : (∀ b ∈ a.computed, closureOf a.closures b = closure a.graph b.entries) ∧
    ∀ b ∈ a.orphans, closureOf a.closures b = []
  /-- The closures of the bundles hold the modules of the graph, and nothing else. -/
  covered : ∀ p, p ∈ Table.keys a.graph.modules ↔ ∃ b ∈ a.computed, p ∈ closureOf a.closures b
  /-- There are records of the modules of the graph and of what the bundles ship. -/
  keys : ∀ id, id ∈ Table.keys a.records ↔
    (∃ e ∈ a.graph.modules, e.2.id = id) ∨ ∃ b ∈ a.bundles, id ∈ b.shipped
  once : (Table.keys a.records).Nodup
  /-- No two bundles have one name. -/
  names : (a.bundles.map Bundle.name).Nodup
  /-- The record of a module of the graph lists the bundles whose closures hold the module, of which
  there is at least one. -/
  needed : ∀ e ∈ a.graph.modules, ∃ record, Table.find? e.2.id a.records = some record ∧
    record.bundles = namesOf a.bundles (Bundle.needs a.closures e.1) ∧ record.bundles ≠ []
  /-- The record of a file that is no module of the graph lists no bundle that needs it. -/
  stray : ∀ id record, Table.find? id a.records = some record →
    (∀ e ∈ a.graph.modules, e.2.id ≠ id) → record.bundles = []
  /-- A record lists the bundles that ship a file with its id. -/
  shipped : ∀ id record, Table.find? id a.records = some record →
    record.shippedIn = namesOf a.bundles (Bundle.ships id)
  /-- No record lists a bundle twice. -/
  nodup : ∀ e ∈ a.records, e.2.bundles.Nodup ∧ e.2.shippedIn.Nodup

section

variable {e : Environment} {t : FileTree} {output : Path} {given : Option Settings}
  {r : GraphBuilder} {main : Path} {built : ModuleGraph}

/-- The audit of a built graph. -/
abbrev Stages.audit (_ : Stages e t output given r main built) : Audit :=
  auditGraph t (t.resolve output) r.settings (r.app :: r.addons) built

namespace Stages

/-- The closures of the bundles hold the modules of the graph, and nothing else. -/
theorem covered (h : Stages e t output given r main built) (p : Path) :
    p ∈ Table.keys h.audit.graph.modules ↔
      ∃ b ∈ h.audit.computed, p ∈ closureOf h.audit.closures b := by
  constructor
  · intro hp
    obtain ⟨entry, hentry, hmem⟩ :=
      h.onePass.exists_entry_of_hasModule (ModuleGraph.hasModule_iff.2 hp)
    obtain ⟨b, hb, hentries⟩ := exists_computed hentry
    refine ⟨b, hb, ?_⟩
    rwa [closureOf_eq_closure hb, hentries, closure_freeze]
  · rintro ⟨b, hb, hp⟩
    obtain ⟨entry, hentry, hclosure⟩ := closureOf_computed hb
    rw [hclosure] at hp
    exact ModuleGraph.hasModule_iff.1
      (h.onePass.complete.freeze.hasModule_of_mem_closure hentry hp)

theorem nodup_names (h : Stages e t output given r main built) (ht : t.WellFormed) :
    (h.audit.bundles.map Bundle.name).Nodup :=
  nodup_names_observeArtifacts ht (nodup_names_partition _)

/-- Nothing belongs to the closure of an orphan. -/
theorem closureOf_orphan (h : Stages e t output given r main built) (ht : t.WellFormed)
    {b : Bundle} (hb : b ∈ h.audit.orphans) : closureOf h.audit.closures b = [] := by
  refine closureOf_closures_of_not_mem fun hname => ?_
  rw [← names_computed t (t.resolve output) r.settings (r.app :: r.addons)] at hname
  have hnodup := h.nodup_names ht
  rw [Audit.bundles, List.map_append, List.nodup_append] at hnodup
  exact hnodup.2.2 b.name hname b.name (List.mem_map.2 ⟨b, hb, rfl⟩) rfl

theorem nodup_shipped (h : Stages e t output given r main built) :
    ∀ b ∈ h.audit.bundles, b.shipped.Nodup := fun _ hb =>
  nodup_shipped_observeArtifacts (fun _ hb => physical_of_mem_partition hb) (List.mem_append.1 hb)

theorem mem_keys_records (h : Stages e t output given r main built) (id : String) :
    id ∈ Table.keys h.audit.records ↔
      (∃ e ∈ h.audit.graph.modules, e.2.id = id) ∨ ∃ b ∈ h.audit.bundles, id ∈ b.shipped := by
  rw [← mem_keys_graphRecords h.audit.graph h.audit.bundles h.audit.closures id]
  exact mem_keys_foldl_recordShipped h.nodup_shipped _ id

theorem nodup_keys_records (h : Stages e t output given r main built) :
    (Table.keys h.audit.records).Nodup :=
  nodup_keys_foldl_recordShipped _ (Table.nodup_keys_ofEntries _)

/-- The record of a module of the graph lists the bundles that need it, and there is one. -/
theorem bundles_recorded (h : Stages e t output given r main built) (ht : t.WellFormed)
    {e : Path × Module} (he : e ∈ h.audit.graph.modules) :
    (recordIn h.audit.records e.2.id).bundles =
        namesOf h.audit.bundles (Bundle.needs h.audit.closures e.1) ∧
      (recordIn h.audit.records e.2.id).bundles ≠ [] := by
  have hpath : e.2.path = e.1 :=
    congrArg (fun e => Module.path e.2) (h.onePass.complete.modules e he)
  have hlists : (recordIn h.audit.records e.2.id).bundles =
      namesOf h.audit.bundles (Bundle.needs h.audit.closures e.1) := by
    calc (recordIn h.audit.records e.2.id).bundles
        = (recordIn (graphRecords h.audit.graph h.audit.bundles h.audit.closures) e.2.id).bundles :=
          bundles_foldl_recordShipped h.nodup_shipped _ _
      _ = bundlesReaching h.audit.bundles h.audit.closures e.2.path := by
          rw [recordIn_graphRecords (g := h.audit.graph) (h.nodup_ids ht) _ _ he]
          rfl
      _ = namesOf h.audit.bundles (Bundle.needs h.audit.closures e.1) := by
          rw [hpath]
          exact bundlesReaching_eq (nodup_closureOf (nodup_names_partition _)) _ _
  refine ⟨hlists, fun hnil => ?_⟩
  obtain ⟨b, hb, hmem⟩ := (h.covered e.1).1 (List.mem_map.2 ⟨e, he, rfl⟩)
  have hname : b.name ∈ namesOf h.audit.bundles (Bundle.needs h.audit.closures e.1) :=
    List.mem_map.2 ⟨b, List.mem_filter.2
      ⟨List.mem_append_left _ hb, List.contains_iff_mem.2 hmem⟩, rfl⟩
  rw [← hlists, hnil] at hname
  cases hname

/-- A record that is of no module of the graph lists no bundle that needs it. -/
theorem stray_recorded (h : Stages e t output given r main built)
    (hid : ∀ e ∈ h.audit.graph.modules, e.2.id ≠ id) :
    (recordIn h.audit.records id).bundles = [] := by
  calc (recordIn h.audit.records id).bundles
      = (recordIn (graphRecords h.audit.graph h.audit.bundles h.audit.closures) id).bundles :=
        bundles_foldl_recordShipped h.nodup_shipped _ id
    _ = [] := by rw [recordIn_graphRecords_of_not_mem hid]

/-- A record lists the bundles that ship a file with its id. -/
theorem shippedIn_recorded (h : Stages e t output given r main built) (ht : t.WellFormed)
    (id : String) :
    (recordIn h.audit.records id).shippedIn = namesOf h.audit.bundles (Bundle.ships id) := by
  calc (recordIn h.audit.records id).shippedIn
      = (recordIn (graphRecords h.audit.graph h.audit.bundles h.audit.closures) id).shippedIn ++
          namesOf h.audit.bundles (Bundle.ships id) :=
        shippedIn_foldl_recordShipped h.nodup_shipped _ id
    _ = namesOf h.audit.bundles (Bundle.ships id) := by
        rw [shippedIn_graphRecords (g := h.audit.graph) (h.nodup_ids ht), List.nil_append]

/-- No record lists a bundle twice. -/
theorem nodup_recorded (h : Stages e t output given r main built) (ht : t.WellFormed)
    (id : String) :
    (recordIn h.audit.records id).bundles.Nodup ∧
      (recordIn h.audit.records id).shippedIn.Nodup := by
  refine ⟨?_, ?_⟩
  · by_cases hid : ∃ e ∈ h.audit.graph.modules, e.2.id = id
    · obtain ⟨e, he, rfl⟩ := hid
      rw [(h.bundles_recorded ht he).1]
      exact nodup_namesOf (h.nodup_names ht) _
    · rw [h.stray_recorded fun e he hid' => hid ⟨e, he, hid'⟩]
      exact List.nodup_nil
  · rw [h.shippedIn_recorded ht]
    exact nodup_namesOf (h.nodup_names ht) _

end Stages

end

/-- Every module belongs to a bundle, and the records say so: those of the graph's modules list the
bundles that need them, and all records list the bundles that ship them. -/
theorem records_tell (e : Environment) (t : FileTree) (output : Path) (given : Option Settings)
    (a : Audit) (ht : t.WellFormed) (h : runAudit e t output given = .ok a) : RecordsTell a := by
  obtain ⟨r, main, built, hs, rfl⟩ := stages_of_runAudit h
  refine ⟨⟨fun b hb => closureOf_eq_closure hb, fun b hb => hs.closureOf_orphan ht hb⟩, hs.covered,
    hs.mem_keys_records, hs.nodup_keys_records, hs.nodup_names ht, fun e he => ?_,
    fun id record hfind hid => ?_, fun id record hfind => ?_, fun e he => ?_⟩
  · obtain ⟨record, hfind⟩ :=
      Table.mem_keys_iff.1 ((hs.mem_keys_records e.2.id).2 (.inl ⟨e, he, rfl⟩))
    exact ⟨record, hfind, recordIn_of_find? hfind ▸ hs.bundles_recorded ht he⟩
  · exact recordIn_of_find? hfind ▸ hs.stray_recorded hid
  · exact recordIn_of_find? hfind ▸ hs.shippedIn_recorded ht id
  · exact recordIn_of_find? (Table.find?_of_mem hs.nodup_keys_records he) ▸
      hs.nodup_recorded ht e.1

/-- The manifest of an application that is one value. -/
def leftoverManifest : String :=
  "\x7b\"name\":\"app\",\"ember-addon\":\x7b\"type\":\"app\",\"main\":\"x.json\"\x7d\x7d"

/-- The application, with a bundle for it and one left over. -/
def leftoverOutput : FileTree where
  entries := [(["app"], .folder), (["app", "package.json"], .file leftoverManifest.toUTF8.toList),
    (["app", "x.json"], .file [0x31]), (["app", "dist"], .folder),
    (["app", "dist", "main"], .folder), (["app", "dist", "main", "x.json"], .file [0x31]),
    (["app", "dist", "old"], .folder), (["app", "dist", "old", "y.json"], .file [0x32])]

theorem records_tell_leftover :
    leftoverOutput.WellFormed ∧
      ∃ a, runAudit (plainEnvironment []) leftoverOutput ⟨.root, ["app"]⟩ (some (.initial 4)) =
          .ok a ∧
        (a.records.map fun e => (e.1, e.2.bundles, e.2.shippedIn)) =
          [("./x.json", ["main"], ["main"]), ("./y.json", [], ["old"])] ∧
        RecordsTell a := by
  have hformed : leftoverOutput.WellFormed := ⟨by decide +kernel, by decide +kernel⟩
  refine ⟨hformed, exists_ok_and ?_ fun a ha _ => records_tell _ _ _ _ a hformed ha⟩
  decide +kernel

end BundleReach
