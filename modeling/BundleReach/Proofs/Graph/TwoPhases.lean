import BundleReach.Proofs.Graph.Settled
import BundleReach.Proofs.Graph.Waves

/-!
# Two phases and one pass

The second phase puts a graph together from what the first one has read: one loop over a stack of
links, cut short after so many modules.  It never is cut short, since each module that comes up has
been read and comes up once (`room`), and the loop follows the links of a module as the recursive
walk does (`Simulates`).  So building in two phases comes to the graph of one pass, whatever the
order in which readings end.

* `follow_succ` — the loop is not cut short.
* `exists_simulates`, `walkEntries_walks` — the loop is the walk.
* `mem_keys_iff_of_readModules` — what is read is what comes up.
* `onePass_iff_readModules`, `buildGraphIn_eq_ok_iff` — both phases together.
-/

namespace BundleReach

variable {r : GraphBuilder} {main : Path} {readings : Readings} {g : ModuleGraph}

/-! ## What has been read -/

namespace Reads

variable {p : Path}

/-- What has been read of a module is what reading it there and then yields. -/
theorem exists_reading (h : Reads r main readings) (hp : p ∈ Table.keys readings) :
    ∃ reading, Table.find? p readings = some reading ∧ readModule r p = .ok reading := by
  obtain ⟨reading, hf⟩ := Table.mem_keys_iff.1 hp
  exact ⟨reading, hf, h.read _ (Table.mem_of_find? hf)⟩

theorem moduleOf_eq (h : Reads r main readings) (hp : p ∈ Table.keys readings) :
    moduleOf r readings p = moduleAt r p := by
  obtain ⟨reading, hf, hread⟩ := h.exists_reading hp
  rw [moduleOf, hf, moduleAt, Option.map_some, (readModule_eq_ok_iff.1 hread).1]

theorem resolveLinks_linksRead (h : Reads r main readings) (hp : p ∈ Table.keys readings) :
    resolveLinks r p (importsAt r p) = .ok (linksRead readings p) := by
  obtain ⟨reading, hf, hread⟩ := h.exists_reading hp
  rw [linksRead, hf]
  exact (readModule_eq_ok_iff.1 hread).2

end Reads

/-- All that links lead to has been read. -/
def LeadIn (readings : Readings) (links : List Link) : Prop :=
  ∀ l ∈ links, ∀ q, l.target? = some q → q ∈ Table.keys readings

theorem Reads.leadIn_linksRead (h : Reads r main readings) {p : Path}
    (hp : p ∈ Table.keys readings) : LeadIn readings (linksRead readings p) := by
  intro l hl q hq
  obtain ⟨reading, hf, -⟩ := h.exists_reading hp
  rw [linksRead, hf] at hl
  exact h.closed _ (Table.mem_of_find? hf) l hl q hq

/-- Nothing has come up in a graph that has not been read, and bundles begin once. -/
structure Within (readings : Readings) (g : ModuleGraph) : Prop where
  modules : ∀ p, g.hasModule p = true → p ∈ Table.keys readings
  entries : ∀ p ∈ g.bundleEntries, p ∈ Table.keys readings
  nodup : g.bundleEntries.Nodup

namespace Within

theorem addLink (h : Within readings g) (p : Path) {l : Link}
    (hl : ∀ q, l.target? = some q → q ∈ Table.keys readings) :
    Within readings (g.addLink p l) where
  modules q hq := h.modules q (by simpa using hq)
  entries q hq := by
    rw [ModuleGraph.bundleEntries_addLink] at hq
    split at hq
    · rename_i q' hd
      rcases mem_joinOnce.1 hq with hq | rfl
      · exact h.entries q hq
      · exact hl q (Link.defers?_eq_some_iff.1 hd).2
    · exact h.entries q hq
  nodup := ModuleGraph.nodup_bundleEntries_addLink h.nodup

theorem addModule (h : Within readings g) {q : Path} (hq : q ∈ Table.keys readings) :
    Within readings (g.addModule (moduleAt r q)) where
  modules p hp := by
    rcases hasModule_addModule_moduleAt.1 hp with hp | rfl
    · exact h.modules p hp
    · exact hq
  entries p hp := h.entries p (by simpa using hp)
  nodup := by simpa using h.nodup

end Within

/-! ## Modules still to come up -/

/-- How many modules that have been read have not come up. -/
def room (readings : Readings) (g : ModuleGraph) : Nat :=
  ((Table.keys readings).filter fun p => !g.hasModule p).length

@[simp] theorem room_addLink (p : Path) (l : Link) :
    room readings (g.addLink p l) = room readings g := by
  simp [room]

theorem room_le (readings : Readings) (g : ModuleGraph) : room readings g ≤ readings.length :=
  Nat.le_trans (List.length_filter_le _ _) (Nat.le_of_eq (List.length_map _))

theorem room_mono {g' : ModuleGraph} (h : Grows g g') : room readings g' ≤ room readings g := by
  rw [room, room, ← List.countP_eq_length_filter, ← List.countP_eq_length_filter]
  refine List.countP_mono_left fun p _ hp => ?_
  rw [Bool.not_eq_true', Bool.eq_false_iff] at hp ⊢
  exact fun hm => hp (h.hasModule hm)

/-- A module that comes up leaves room for fewer. -/
theorem room_addModule_lt {q : Path} (hq : q ∈ Table.keys readings) (hf : g.hasModule q = false) :
    room readings (g.addModule (moduleAt r q)) < room readings g := by
  refine length_filter_lt hq (by rw [hf]; rfl) fun p => ?_
  simp only [Bool.not_eq_true', Bool.eq_false_iff, ne_eq, hasModule_addModule_moduleAt, not_or]

/-! ## The loop and the walk -/

section

variable {p q : Path} {l : Link}

theorem follow_cons_of_none (h : l.loads? = none) (modules : Nat) (rest : List (Path × Link))
    (g : ModuleGraph) :
    follow r readings (modules + 1) ((p, l) :: rest) g =
      follow r readings (modules + 1) rest (g.addLink p l) := by
  rw [follow, followWith, h]

theorem follow_cons_of_hasModule (h : l.loads? = some q) (hq : g.hasModule q = true)
    (modules : Nat) (rest : List (Path × Link)) :
    follow r readings (modules + 1) ((p, l) :: rest) g =
      follow r readings (modules + 1) rest (g.addLink p l) := by
  rw [follow, followWith, h]
  exact if_pos (by simpa using hq)

theorem follow_cons_of_fresh (h : l.loads? = some q) (hq : g.hasModule q = false)
    (modules : Nat) (rest : List (Path × Link)) :
    follow r readings (modules + 1) ((p, l) :: rest) g =
      follow r readings modules (linksOf readings q ++ rest)
        ((g.addLink p l).addModule (moduleOf r readings q)) := by
  rw [follow, followWith, h]
  exact if_neg (by simpa using hq)

end

/-- What a module on the stack leads to has been read. -/
theorem leadIn_append_linksOf (hr : Reads r main readings) {q : Path}
    (hq : q ∈ Table.keys readings) {rest : List (Path × Link)}
    (hrest : LeadIn readings (rest.map Prod.snd)) :
    LeadIn readings ((linksOf readings q ++ rest).map Prod.snd) := by
  intro l hl
  rw [List.map_append, List.mem_append] at hl
  rcases hl with hl | hl
  · refine hr.leadIn_linksRead hq l ?_
    simpa [linksOf] using hl
  · exact hrest l hl

/-- The loop is not cut short where there is no room for so many modules. -/
theorem follow_succ (hr : Reads r main readings) {modules : Nat} {stack : List (Path × Link)}
    (hs : LeadIn readings (stack.map Prod.snd)) (hroom : room readings g < modules) :
    follow r readings (modules + 1) stack g = follow r readings modules stack g := by
  induction modules generalizing stack g with
  | zero => exact absurd hroom (Nat.not_lt_zero _)
  | succ modules ih =>
    induction stack generalizing g with
    | nil => rfl
    | cons e rest ihs =>
      obtain ⟨p, l⟩ := e
      have hrest : LeadIn readings (rest.map Prod.snd) :=
        fun l' hl' => hs l' (List.mem_cons_of_mem l hl')
      have hmore := ihs hrest (g := g.addLink p l) (by rwa [room_addLink])
      cases hload : l.loads? with
      | none => rw [follow_cons_of_none hload, follow_cons_of_none hload, hmore]
      | some q =>
        cases hf : g.hasModule q with
        | true =>
          rw [follow_cons_of_hasModule hload hf, follow_cons_of_hasModule hload hf, hmore]
        | false =>
          have hq : q ∈ Table.keys readings :=
            hs l List.mem_cons_self q (Link.loads?_eq_some_iff.1 hload).2
          have hlt := room_addModule_lt (r := r) hq
            (show (g.addLink p l).hasModule q = false by simpa using hf)
          rw [room_addLink] at hlt
          rw [follow_cons_of_fresh hload hf, follow_cons_of_fresh hload hf, hr.moduleOf_eq hq]
          exact ih (leadIn_append_linksOf hr hq hrest) (by omega)

/-- The walk along imports of a module goes from one graph to another, and so does the loop over
their links, whatever else is on the stack. -/
structure Simulates (r : GraphBuilder) (readings : Readings) (modules : Nat) (p : Path)
    (refs : List ImportRef) (links : List Link) (g g' : ModuleGraph) : Prop where
  follows : Follows r p refs g g'
  within : Within readings g'
  loop : ∀ rest : List (Path × Link), LeadIn readings (rest.map Prod.snd) →
    follow r readings modules (links.map (p, ·) ++ rest) g = follow r readings modules rest g'

namespace Simulates

variable {modules : Nat} {p q : Path} {ref : ImportRef} {refs : List ImportRef}
  {resolution : Resolution} {links inner : List Link} {g₁ g' : ModuleGraph}

theorem nil (hg : Within readings g) : Simulates r readings modules p [] [] g g where
  follows := .done
  within := hg
  loop _ _ := rfl

/-- Nothing new comes up with the first import. -/
theorem pass (resolves : r.resolve p ref.specifier = .ok resolution)
    (known : ∀ q, (Link.mk ref resolution).loads? = some q → g.hasModule q = true)
    (more : Simulates r readings (modules + 1) p refs links (g.addLink p ⟨ref, resolution⟩) g') :
    Simulates r readings (modules + 1) p (ref :: refs) (⟨ref, resolution⟩ :: links) g g' where
  follows := .pass resolves known more.follows
  within := more.within
  loop rest hrest := by
    rw [List.map_cons, List.cons_append, ← more.loop rest hrest]
    cases hload : (Link.mk ref resolution).loads? with
    | none => exact follow_cons_of_none hload modules _ g
    | some q => exact follow_cons_of_hasModule hload (known q hload) modules _

/-- A module comes up with the first import, and its own imports are followed first.  There is room
for one module less in the meantime, which makes no difference to the loop. -/
theorem enter (hr : Reads r main readings) (hin : LeadIn readings links)
    (hq : q ∈ Table.keys readings) (resolves : r.resolve p ref.specifier = .ok resolution)
    (loads : (Link.mk ref resolution).loads? = some q) (fresh : g.hasModule q = false)
    (first : Simulates r readings modules q (importsAt r q) (linksRead readings q)
      ((g.addLink p ⟨ref, resolution⟩).addModule (moduleAt r q)) g₁)
    (hroom : room readings g₁ < modules)
    (more : Simulates r readings (modules + 1) p refs links g₁ g') :
    Simulates r readings (modules + 1) p (ref :: refs) (⟨ref, resolution⟩ :: links) g g' where
  follows := .enter resolves loads fresh first.follows more.follows
  within := more.within
  loop rest hrest := by
    have hstack : LeadIn readings ((links.map (p, ·) ++ rest).map Prod.snd) := by
      intro l hl
      rw [List.map_append, List.mem_append] at hl
      rcases hl with hl | hl
      · exact hin l (by simpa using hl)
      · exact hrest l hl
    calc follow r readings (modules + 1)
          ((p, ⟨ref, resolution⟩) :: (links.map (p, ·) ++ rest)) g
        = follow r readings modules (linksOf readings q ++ (links.map (p, ·) ++ rest))
            ((g.addLink p ⟨ref, resolution⟩).addModule (moduleAt r q)) := by
          rw [follow_cons_of_fresh loads fresh, hr.moduleOf_eq hq]
      _ = follow r readings modules (links.map (p, ·) ++ rest) g₁ := first.loop _ hstack
      _ = follow r readings (modules + 1) (links.map (p, ·) ++ rest) g₁ :=
          (follow_succ hr hstack hroom).symm
      _ = follow r readings (modules + 1) rest g' := more.loop rest hrest

end Simulates

/-- Following the links of a module on top of the stack is the walk along its imports. -/
theorem exists_simulates (hr : Reads r main readings) {modules : Nat} {p : Path}
    {refs : List ImportRef} {links : List Link} (hlinks : resolveLinks r p refs = .ok links)
    (hin : LeadIn readings links) (hg : Within readings g) (hroom : room readings g < modules) :
    ∃ g', Simulates r readings modules p refs links g g' := by
  -- By the room left, and for each room by the imports that are left.
  induction modules generalizing p refs links g with
  | zero => exact absurd hroom (Nat.not_lt_zero _)
  | succ modules ih =>
    induction refs generalizing links g with
    | nil =>
      cases hlinks
      exact ⟨g, .nil hg⟩
    | cons ref refs ihr =>
      obtain ⟨resolution, more, hres, hmore, rfl⟩ := resolveLinks_cons_eq_ok_iff.1 hlinks
      have hin' : LeadIn readings more := fun l hl => hin l (List.mem_cons_of_mem _ hl)
      have hg' : Within readings (g.addLink p ⟨ref, resolution⟩) :=
        hg.addLink p (hin _ List.mem_cons_self)
      by_cases hknown : ∀ q, (Link.mk ref resolution).loads? = some q → g.hasModule q = true
      · obtain ⟨g', hsim⟩ := ihr hmore hin' hg' (by rwa [room_addLink])
        exact ⟨g', .pass hres hknown hsim⟩
      · obtain ⟨q, hq⟩ := not_forall.1 hknown
        obtain ⟨hload, hfresh⟩ := Classical.not_imp.1 hq
        have hf : g.hasModule q = false := Bool.eq_false_iff.2 hfresh
        have hqk : q ∈ Table.keys readings :=
          hin _ List.mem_cons_self q (Link.loads?_eq_some_iff.1 hload).2
        have hlt : room readings ((g.addLink p ⟨ref, resolution⟩).addModule (moduleAt r q)) <
            modules := by
          have := room_addModule_lt (r := r) hqk
            (show (g.addLink p ⟨ref, resolution⟩).hasModule q = false by simpa using hf)
          rw [room_addLink] at this
          omega
        obtain ⟨g₁, hfirst⟩ := ih (hr.resolveLinks_linksRead hqk) (hr.leadIn_linksRead hqk)
          (hg'.addModule hqk) hlt
        have hroom₁ := Nat.lt_of_le_of_lt (room_mono hfirst.follows.grows) hlt
        obtain ⟨g', hsim⟩ := ihr hmore hin' hfirst.within (Nat.lt_succ_of_lt hroom₁)
        exact ⟨g', .enter hr hin' hqk hres hload hf hfirst hroom₁ hsim⟩

/-- Walking from a module that has not come up yet is the walk along its imports. -/
theorem walkFrom_follows (hr : Reads r main readings) {p : Path} (hp : p ∈ Table.keys readings)
    (hg : Within readings g) :
    Follows r p (importsAt r p) (g.addModule (moduleAt r p)) (walkFrom r readings p g) ∧
      Within readings (walkFrom r readings p g) := by
  have hroom := room_le readings (g.addModule (moduleAt r p))
  obtain ⟨g', hsim⟩ := exists_simulates hr (hr.resolveLinks_linksRead hp)
    (hr.leadIn_linksRead hp) (hg.addModule hp) (Nat.lt_succ_of_le hroom)
  have hwalk : walkFrom r readings p g = g' := by
    have hloop := hsim.loop [] fun l hl => by cases hl
    rw [List.append_nil] at hloop
    rw [walkFrom, hr.moduleOf_eq hp]
    exact hloop
  rw [hwalk]
  exact ⟨hsim.follows, hsim.within⟩

/-- Walking from the bundle entries is not cut short: there are no more of them than modules that
have been read. -/
theorem walkEntries_walks (hr : Reads r main readings) {fuel i : Nat} (hg : Within readings g)
    (hi : i ≤ g.bundleEntries.length) (hfuel : readings.length < i + fuel) :
    WalksEntries r i g (walkEntries r readings fuel i g) ∧
      Within readings (walkEntries r readings fuel i g) := by
  have hlen : ∀ {g}, Within readings g → g.bundleEntries.length ≤ readings.length := by
    intro g hg
    have := (hg.nodup.subperm hg.entries).length_le
    rwa [Table.keys, List.length_map] at this
  induction fuel generalizing i g with
  | zero =>
    have := hlen hg
    omega
  | succ fuel ih =>
    rw [walkEntries]
    split
    · rename_i hlast
      exact ⟨.done hlast, hg⟩
    · rename_i p hp
      have hi' : i < g.bundleEntries.length := (List.getElem?_eq_some_iff.1 hp).1
      cases hf : g.hasModule p with
      | true =>
        rw [if_pos rfl]
        obtain ⟨hwalks, hwithin⟩ := ih hg hi' (by omega)
        exact ⟨.known hp hf hwalks, hwithin⟩
      | false =>
        rw [if_neg (by simp)]
        have hpk := hg.entries p (List.mem_of_getElem? hp)
        obtain ⟨hfollows, hwithin⟩ := walkFrom_follows hr hpk hg
        have hgrows := hfollows.grows.entries.length_le
        rw [ModuleGraph.bundleEntries_addModule] at hgrows
        obtain ⟨hwalks, hwithin₂⟩ := ih (i := i + 1) hwithin (by omega) (by omega)
        exact ⟨.walk hp hf hfollows hwalks, hwithin₂⟩

/-- To begin with there is the main module as an entry, which has been read. -/
theorem Reads.within_start (hr : Reads r main readings) :
    Within readings (({ root := r.app.root } : ModuleGraph).addBundleEntry main) where
  modules p hp := by cases hp
  entries p hp := by
    rw [List.mem_singleton.1 hp]
    exact hr.main_mem
  nodup := List.pairwise_singleton _ main

/-- The second phase builds the graph of one pass, and puts nothing into it that has not been
read. -/
theorem Reads.onePass (hr : Reads r main readings) :
    OnePass r main (assemble r readings main) ∧ Within readings (assemble r readings main) :=
  walkEntries_walks hr hr.within_start (Nat.zero_le _) (by omega)

/-! ## Both phases -/

/-- The modules of a graph that has been built are closed under imports. -/
theorem Complete.isClosed (h : Complete r main g) : Closed r main (Table.keys g.modules) where
  main_mem := ModuleGraph.hasModule_iff.1 (h.entries main h.main_mem)
  links p hp := by
    obtain ⟨links, hlinks⟩ := h.settled p (ModuleGraph.hasModule_iff.2 hp)
    refine ⟨links, hlinks.resolved, fun l hl q hq => ModuleGraph.hasModule_iff.1 ?_⟩
    rcases Link.loads?_or_defers? hq with hq | hq
    · exact hlinks.loaded l hl q hq
    · exact h.entries q (hlinks.deferred l hl q hq)

/-- A module read there and then states facts or has a fault, and not both. -/
theorem facts_or_fault_moduleAt (r : GraphBuilder) (p : Path) :
    ((moduleAt r p).facts.isSome = true ∧ (moduleAt r p).fault = none) ∨
      ((moduleAt r p).facts = none ∧ (moduleAt r p).fault.isSome = true) := by
  cases h : r.factsOf p with
  | ok facts =>
    obtain ⟨hfacts, hfault, -⟩ := moduleAt_of_ok h
    exact .inl ⟨by rw [hfacts]; rfl, hfault⟩
  | error fault =>
    obtain ⟨hfacts, hfault, -⟩ := moduleAt_of_error h
    exact .inr ⟨hfacts, by rw [hfault]; rfl⟩

/-- What is read in the first phase is what comes up in the second. -/
theorem mem_keys_iff_of_readModules {order : EndOrder}
    (h : readModules r order main = .ok readings) (p : Path) :
    p ∈ Table.keys readings ↔ p ∈ Table.keys (assemble r readings main).modules := by
  obtain ⟨hpass, hwithin⟩ := (readModules_reads h).onePass
  constructor
  · intro hp
    obtain ⟨readings', hread, hin⟩ := hpass.complete.isClosed.readModules order
    obtain rfl := Except.ok.inj (h.symm.trans hread)
    exact hin p hp
  · intro hp
    exact hwithin.modules p (ModuleGraph.hasModule_iff.2 hp)

/-- Both phases come to a graph where one pass does, and to the same one. -/
theorem onePass_iff_readModules (order : EndOrder) :
    OnePass r main g ↔ ∃ readings, readModules r order main = .ok readings ∧
      assemble r readings main = g := by
  constructor
  · intro h
    obtain ⟨readings, hread, -⟩ := h.complete.isClosed.readModules order
    exact ⟨readings, hread, (readModules_reads hread).onePass.1.unique h⟩
  · rintro ⟨readings, hread, rfl⟩
    exact (readModules_reads hread).onePass.1

/-- A graph is built where at least one module may be read at a time and one pass builds it. -/
theorem buildGraphIn_eq_ok_iff {order : EndOrder} :
    buildGraphIn r order main = .ok g ↔
      0 < r.settings.workers.value ∧ OnePass r (r.tree.resolve main) g := by
  rw [onePass_iff_readModules order]
  by_cases hw : r.settings.workers.value ≤ 0
  · have hbuild : buildGraphIn r order main = .error .noWorkers := by
      rw [buildGraphIn, if_pos hw]
      rfl
    rw [hbuild]
    exact ⟨fun h => (by cases h), fun h => absurd h.1 (Int.not_lt.2 hw)⟩
  · have hbuild : buildGraphIn r order main =
        (readModules r order (r.tree.resolve main)).mapError BuildFault.rename >>=
          fun readings => pure (assemble r readings (r.tree.resolve main)) := by
      rw [buildGraphIn, if_neg hw]
    rw [hbuild]
    cases readModules r order (r.tree.resolve main) with
    | error fault =>
      refine ⟨fun h => (by cases h), ?_⟩
      rintro ⟨-, _, hok, -⟩
      cases hok
    | ok readings =>
      constructor
      · intro h
        exact ⟨Int.not_le.1 hw, readings, rfl, Except.ok.inj h⟩
      · rintro ⟨-, _, hok, rfl⟩
        obtain rfl := Except.ok.inj hok
        rfl

/-- Building in two phases refines building in one pass.  Whatever the order in which readings end,
the modules read are those of the graph, each of which states facts or has a fault, and the graph is
the one that a recursive walk builds which reads every module when it first comes up. -/
theorem two_phases_refine_one_pass (r : GraphBuilder) (order : EndOrder) (main : Path) :
    (∀ g, OnePass r main g ↔
      ∃ readings, readModules r order main = .ok readings ∧ assemble r readings main = g) ∧
    (∀ readings, readModules r order main = .ok readings →
      (∀ p, p ∈ Table.keys readings ↔ p ∈ Table.keys (assemble r readings main).modules) ∧
      ∀ e ∈ (assemble r readings main).modules,
        (e.2.facts.isSome = true ∧ e.2.fault = none) ∨
          (e.2.facts = none ∧ e.2.fault.isSome = true)) ∧
    ∀ g, buildGraphIn r order main = .ok g ↔
      0 < r.settings.workers.value ∧ OnePass r (r.tree.resolve main) g := by
  refine ⟨fun g => onePass_iff_readModules order, fun readings hread => ⟨?_, fun e he => ?_⟩,
    fun g => buildGraphIn_eq_ok_iff⟩
  · exact mem_keys_iff_of_readModules hread
  · rw [(readModules_reads hread).onePass.1.complete.modules e he]
    exact facts_or_fault_moduleAt r e.1

end BundleReach
