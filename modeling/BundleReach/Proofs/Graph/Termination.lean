import BundleReach.Proofs.FileTree.WellFormed
import BundleReach.Proofs.Graph.TwoPhases
import BundleReach.Proofs.Plain
import Mathlib.Algebra.BigOperators.Group.List.Basic

/-!
# Building comes to an end

Both phases of building are loops that stop by themselves, and the counts that the model puts on
them never cut them short.  Reading goes on for as long as there is a wave, and no file of the tree
is put in two waves; the second phase goes on for as long as there are links on the stack and bundle
entries that have not been scanned, and a module comes up once.

* `ReadsWaves` — reading wave by wave, with the waves that are read.
* `FollowsLinks`, `ScansEntries` — the second phase, with the modules that come up and the entries
  that are scanned.
* `ReadsWaves.nodup_flatten`, `ReadsWaves.length_le` — the bounds of the first phase.
* `ScansEntries.keys_eq`, `ScansEntries.scans_eq` — the bounds of the second one.
* `building_ends` — all of it together, and when there is a graph at the end.
-/

namespace BundleReach

open BundleReach.Path (RenameFault)

variable {r : GraphBuilder} {order : EndOrder} {main : Path} {readings : Readings}

/-! ## The files of a tree -/

namespace FileTree

variable {t : FileTree} {p : Path}

/-- The files of a tree, each once, under the paths that resolving leaves as they are. -/
def canonicalFiles (t : FileTree) : List Path :=
  (t.places.filter fun p => t.isFile p ∧ t.resolve p = p).dedup

theorem mem_canonicalFiles : p ∈ t.canonicalFiles ↔ t.isFile p = true ∧ t.resolve p = p := by
  rw [canonicalFiles, List.mem_dedup, List.mem_filter, decide_eq_true_eq]
  refine ⟨And.right, fun h => ⟨?_, h⟩⟩
  rw [← h.2]
  exact resolve_mem_places h.1

theorem length_canonicalFiles_le (t : FileTree) : t.canonicalFiles.length ≤ t.entries.length := by
  rw [← length_places]
  exact ((List.dedup_sublist _).trans List.filter_sublist).length_le

end FileTree

theorem Resolver.IsFilePlace.mem_canonicalFiles {p : Path} (h : r.IsFilePlace p) :
    p ∈ r.tree.canonicalFiles := by
  obtain ⟨q, hq, rfl⟩ := h
  exact FileTree.mem_canonicalFiles.2
    ⟨FileTree.isFile_resolve hq, FileTree.resolve_resolve_of_isFile hq⟩

/-! ## Reading a module -/

theorem exists_resolveLinks_iff {p : Path} {refs : List ImportRef} :
    (∃ links, resolveLinks r p refs = .ok links) ↔
      ∀ ref ∈ refs, ∃ resolution, r.resolve p ref.specifier = .ok resolution := by
  constructor
  · rintro ⟨links, hlinks⟩ ref href
    exact exists_resolve_of_mem hlinks href
  · intro h
    induction refs with
    | nil => exact ⟨[], rfl⟩
    | cons ref refs ih =>
      obtain ⟨resolution, hres⟩ := h ref List.mem_cons_self
      obtain ⟨rest, hrest⟩ := ih fun ref' href' => h ref' (List.mem_cons_of_mem _ href')
      exact ⟨_, resolveLinks_cons_eq_ok_iff.2 ⟨resolution, rest, hres, hrest, rfl⟩⟩

/-- No fault escapes the resolver at the imports of a module. -/
def Resolves (r : GraphBuilder) (p : Path) : Prop :=
  ∀ ref ∈ importsAt r p, ∃ resolution, r.resolve p ref.specifier = .ok resolution

/-- Reading a module fails only where a fault escapes the resolver. -/
theorem exists_readModule_iff {p : Path} :
    (∃ reading, readModule r p = .ok reading) ↔ Resolves r p := by
  rw [Resolves, ← exists_resolveLinks_iff]
  constructor
  · rintro ⟨reading, hread⟩
    exact ⟨reading.links, (readModule_eq_ok_iff.1 hread).2⟩
  · rintro ⟨links, hlinks⟩
    exact ⟨_, exists_readModule hlinks⟩

/-! ## Waves -/

/-- Reading goes on for as long as there is a wave, the paths in `queued` having been put in a wave
before: the waves that are read, and what comes of it. -/
inductive ReadsWaves (r : GraphBuilder) (order : EndOrder) :
    List Path → List Path → List (List Path) → Except RenameFault Readings → Prop where
  | done {queued : List Path} : ReadsWaves r order [] queued [] (.ok [])
  | fault {wave queued : List Path} {fault : RenameFault} (left : wave ≠ [])
      (escapes : (wave.mapM fun p => do return (p, ← readModule r p)) = .error fault) :
      ReadsWaves r order wave queued [wave] (.error fault)
  | wave {wave queued : List Path} {ended : Readings} {waves : List (List Path)}
      {outcome : Except RenameFault Readings} (left : wave ≠ [])
      (read : IsWave r order wave ended)
      (more : ReadsWaves r order (nextWave queued wave ended)
        (queued ++ nextWave queued wave ended) waves outcome) :
      ReadsWaves r order wave queued (wave :: waves) (outcome.map (ended ++ ·))

namespace IsWave

variable {wave : List Path} {ended : Readings}

theorem unique {ended' : Readings} (h : IsWave r order wave ended)
    (h' : IsWave r order wave ended') : ended = ended' := by
  obtain ⟨asked, hasked, rfl⟩ := h
  obtain ⟨asked', hasked', rfl⟩ := h'
  rw [Except.ok.inj (hasked.symm.trans hasked')]

theorem not_fault {fault : RenameFault} (h : IsWave r order wave ended) :
    (wave.mapM fun p => do return (p, ← readModule r p)) ≠ .error fault := by
  obtain ⟨asked, hasked, -⟩ := h
  rw [hasked]
  exact fun h => (by cases h)

/-- A wave is read where each of its modules is. -/
theorem exists_iff (order : EndOrder) (wave : List Path) :
    (∃ ended, IsWave r order wave ended) ↔ ∀ p ∈ wave, Resolves r p := by
  constructor
  · rintro ⟨ended, h⟩ p hp
    obtain ⟨e, he, rfl⟩ := List.mem_map.1 (h.perm_keys.mem_iff.2 hp)
    exact exists_readModule_iff.1 ⟨e.2, h.read he⟩
  · intro h
    exact exists_of_read order wave fun p hp => exists_readModule_iff.2 (h p hp)

/-- What a wave leads to are files of the tree. -/
theorem mem_canonicalFiles (h : IsWave r order wave ended) (hw : wave.Nodup) {queued : List Path}
    {q : Path} (hq : q ∈ nextWave queued wave ended) : q ∈ r.tree.canonicalFiles := by
  obtain ⟨⟨e, he, l, hl, hlq⟩, -⟩ := (h.mem_nextWave_iff hw).1 hq
  have hlinks := (readModule_eq_ok_iff.1 (h.read he)).2
  exact (isFilePlace_of_mem_resolveLinks hlinks hl hlq).mem_canonicalFiles

end IsWave

namespace ReadsWaves

variable {wave queued : List Path} {waves : List (List Path)}
  {outcome : Except RenameFault Readings}

theorem unique {waves' : List (List Path)} {outcome' : Except RenameFault Readings}
    (h : ReadsWaves r order wave queued waves outcome)
    (h' : ReadsWaves r order wave queued waves' outcome') :
    waves = waves' ∧ outcome = outcome' := by
  induction h generalizing waves' outcome' with
  | done =>
    cases h' with
    | done => exact ⟨rfl, rfl⟩
    | fault left => exact absurd rfl left
    | wave left => exact absurd rfl left
  | fault left escapes =>
    cases h' with
    | done => exact absurd rfl left
    | fault _ escapes' => exact ⟨rfl, escapes.symm.trans escapes' ▸ rfl⟩
    | wave _ read' => exact absurd escapes read'.not_fault
  | wave left read _ ih =>
    cases h' with
    | done => exact absurd rfl left
    | fault _ escapes' => exact absurd escapes' read.not_fault
    | wave _ read' more' =>
      obtain rfl := read.unique read'
      obtain ⟨rfl, rfl⟩ := ih more'
      exact ⟨rfl, rfl⟩

/-- No path is put in two waves: what later waves hold has not been queued, and is a file. -/
theorem fresh (h : ReadsWaves r order wave queued waves outcome) (hw : wave.Nodup)
    (hwq : ∀ p ∈ wave, p ∈ queued) :
    waves.flatten.Nodup ∧ ∀ p ∈ waves.flatten, p ∈ wave ∨
      p ∉ queued ∧ p ∈ r.tree.canonicalFiles := by
  induction h with
  | done => exact ⟨List.nodup_nil, fun p hp => by cases hp⟩
  | fault =>
    rw [List.flatten_singleton]
    exact ⟨hw, fun p hp => .inl hp⟩
  | @wave wave queued ended waves outcome _ read _ ih =>
    obtain ⟨hnodup, hlater⟩ := ih (nodup_nextWave _ _ _)
      fun p hp => List.mem_append_right queued hp
    have hnew : ∀ p ∈ waves.flatten, p ∉ queued ∧ p ∈ r.tree.canonicalFiles := by
      intro p hp
      rcases hlater p hp with hp | ⟨hpq, hfile⟩
      · exact ⟨(mem_nextWave.1 hp).2, read.mem_canonicalFiles hw hp⟩
      · exact ⟨fun hq => hpq (List.mem_append_left _ hq), hfile⟩
    rw [List.flatten_cons]
    refine ⟨List.nodup_append.2 ⟨hw, hnodup, fun p hp q hq => ?_⟩, fun p hp => ?_⟩
    · rintro rfl
      exact (hnew p hq).1 (hwq p hp)
    · exact (List.mem_append.1 hp).imp_right (hnew p)

theorem ne_nil_of_mem (h : ReadsWaves r order wave queued waves outcome) {w : List Path}
    (hw : w ∈ waves) : w ≠ [] := by
  induction h with
  | done => cases hw
  | fault left => rwa [List.mem_singleton.1 hw]
  | wave left _ _ ih =>
    rcases List.mem_cons.1 hw with rfl | hw
    · exact left
    · exact ih hw

/-- Reading comes to an end well unless a fault escapes the resolver at a module of a wave. -/
theorem isOk_iff (h : ReadsWaves r order wave queued waves outcome) :
    (∃ readings, outcome = .ok readings) ↔ ∀ p ∈ waves.flatten, Resolves r p := by
  induction h with
  | done => exact ⟨fun _ p hp => (by cases hp), fun _ => ⟨[], rfl⟩⟩
  | fault _ escapes =>
    rw [List.flatten_singleton, ← IsWave.exists_iff order]
    refine ⟨fun ⟨_, h⟩ => (by cases h), fun ⟨ended, h⟩ => absurd escapes h.not_fault⟩
  | @wave wave queued ended waves outcome _ read _ ih =>
    have hwave := (IsWave.exists_iff order wave).1 ⟨ended, read⟩
    simp only [map_eq_ok_iff, List.flatten_cons, List.forall_mem_append]
    rw [← ih]
    constructor
    · rintro ⟨_, readings, hok, -⟩
      exact ⟨hwave, readings, hok⟩
    · rintro ⟨-, readings, hok⟩
      exact ⟨_, readings, hok, rfl⟩

end ReadsWaves

/-- One wave, and then the others. -/
theorem readWaves_cons {waves : Nat} {p : Path} {wave queued : List Path} :
    readWaves r order (waves + 1) (p :: wave) queued =
      ((p :: wave).mapM fun p => do return (p, ← readModule r p)) >>= fun asked =>
        (readWaves r order waves (nextWave queued (p :: wave) (order.ended asked))
          (queued ++ nextWave queued (p :: wave) (order.ended asked))).map
            (order.ended asked ++ ·) := by
  rw [readWaves]
  · refine bind_congr fun asked => ?_
    show readWaves r order waves _ _ >>= _ = _
    cases readWaves r order waves _ _ <;> rfl
  · exact List.cons_ne_nil p wave

/-- With enough waves left for the files that no wave has held, reading is not cut short. -/
theorem exists_readsWaves {waves : Nat} {wave queued : List Path} (hw : wave.Nodup)
    (hwq : ∀ p ∈ wave, p ∈ queued) (hq : queued.Nodup)
    (hfiles : ∀ p ∈ queued, p ∈ main :: r.tree.canonicalFiles)
    (hwaves : wave ≠ [] → r.tree.canonicalFiles.length + 1 < queued.length + waves) :
    ∃ read, ReadsWaves r order wave queued read (readWaves r order waves wave queued) := by
  induction waves generalizing wave queued with
  | zero =>
    have hlen := (hq.subperm hfiles).length_le
    rw [List.length_cons] at hlen
    obtain rfl : wave = [] := Decidable.byContradiction fun hne => by
      have := hwaves hne
      omega
    rw [readWaves]
    exact ⟨[], .done⟩
  | succ waves ih =>
    cases wave with
    | nil => exact ⟨[], .done⟩
    | cons p wave =>
      cases hasked : (p :: wave).mapM fun p => do return (p, ← readModule r p) with
      | error fault =>
        rw [readWaves_cons, hasked]
        exact ⟨[p :: wave], .fault (List.cons_ne_nil p wave) hasked⟩
      | ok asked =>
        have hended : IsWave r order (p :: wave) (order.ended asked) := ⟨asked, hasked, rfl⟩
        have hmore := ih (nodup_nextWave _ _ _) (fun q hq' => List.mem_append_right queued hq')
          (nodup_append_nextWave hq (p :: wave) _)
          (fun q hq' => (List.mem_append.1 hq').elim (hfiles q) fun hq' =>
            List.mem_cons_of_mem main (hended.mem_canonicalFiles hw hq'))
          (fun hne => by
            have hpos := List.length_pos_iff.2 hne
            have := hwaves (List.cons_ne_nil p wave)
            rw [List.length_append]
            omega)
        obtain ⟨read, hread⟩ := hmore
        rw [readWaves_cons, hasked]
        exact ⟨(p :: wave) :: read, .wave (List.cons_ne_nil p wave) hended hread⟩

/-- The first phase stops by itself. -/
theorem exists_readsWaves_readModules (r : GraphBuilder) (order : EndOrder) (main : Path) :
    ∃ waves, ReadsWaves r order [main] [main] waves (readModules r order main) := by
  have hone : [main].Nodup := List.pairwise_singleton _ main
  have hfiles : ∀ p ∈ [main], p ∈ main :: r.tree.canonicalFiles := by
    intro p hp
    rw [List.mem_singleton.1 hp]
    exact List.mem_cons_self
  refine exists_readsWaves hone (fun p hp => hp) hone hfiles fun _ => ?_
  have := r.tree.length_canonicalFiles_le
  rw [List.length_singleton]
  omega

namespace ReadsWaves

variable {waves : List (List Path)} {outcome : Except RenameFault Readings}

theorem nodup_flatten (h : ReadsWaves r order [main] [main] waves outcome) :
    waves.flatten.Nodup :=
  (h.fresh (List.pairwise_singleton _ main) fun _ hp => hp).1

/-- There are no more waves than files, and the first module itself. -/
theorem length_le (h : ReadsWaves r order [main] [main] waves outcome) :
    waves.length ≤ r.tree.canonicalFiles.length + 1 := by
  obtain ⟨hnodup, hmem⟩ := h.fresh (List.pairwise_singleton _ main) fun _ hp => hp
  have hfiles : waves.flatten ⊆ main :: r.tree.canonicalFiles := fun p hp =>
    (hmem p hp).elim (fun hp => List.mem_singleton.1 hp ▸ List.mem_cons_self)
      fun hp => List.mem_cons_of_mem main hp.2
  have hpos : ∀ n ∈ waves.map List.length, 1 ≤ n := by
    intro n hn
    obtain ⟨w, hw, rfl⟩ := List.mem_map.1 hn
    exact List.length_pos_iff.2 (h.ne_nil_of_mem hw)
  calc waves.length
      = (waves.map List.length).length := (List.length_map _).symm
    _ ≤ (waves.map List.length).sum := List.length_le_sum_of_one_le _ hpos
    _ = waves.flatten.length := List.length_flatten.symm
    _ ≤ (main :: r.tree.canonicalFiles).length := (hnodup.subperm hfiles).length_le
    _ = r.tree.canonicalFiles.length + 1 := List.length_cons

end ReadsWaves

/-! ## Putting the graph together -/

variable {g g' : ModuleGraph}

/-- Following links goes on for as long as there are any on the stack: the modules that come up on
the way, in order, and the graph at the end. -/
inductive FollowsLinks (r : GraphBuilder) (readings : Readings) :
    List (Path × Link) → ModuleGraph → List Path → ModuleGraph → Prop where
  | done {g : ModuleGraph} : FollowsLinks r readings [] g [] g
  | pass {p : Path} {l : Link} {rest : List (Path × Link)} {visits : List Path}
      {g g' : ModuleGraph} (known : ∀ q, l.loads? = some q → g.hasModule q = true)
      (more : FollowsLinks r readings rest (g.addLink p l) visits g') :
      FollowsLinks r readings ((p, l) :: rest) g visits g'
  | visit {p q : Path} {l : Link} {rest : List (Path × Link)} {visits : List Path}
      {g g' : ModuleGraph} (loads : l.loads? = some q) (fresh : g.hasModule q = false)
      (more : FollowsLinks r readings (linksOf readings q ++ rest)
        ((g.addLink p l).addModule (moduleOf r readings q)) visits g') :
      FollowsLinks r readings ((p, l) :: rest) g (q :: visits) g'

/-- Scanning the bundle entries from a number on goes on for as long as there are any, those
included that come up on the way: the modules that come up and the entries scanned, in order, and
the graph at the end. -/
inductive ScansEntries (r : GraphBuilder) (readings : Readings) :
    Nat → ModuleGraph → List Path → List Path → ModuleGraph → Prop where
  | done {i : Nat} {g : ModuleGraph} (last : g.bundleEntries[i]? = none) :
      ScansEntries r readings i g [] [] g
  | known {i : Nat} {p : Path} {visits scans : List Path} {g g' : ModuleGraph}
      (entry : g.bundleEntries[i]? = some p) (seen : g.hasModule p = true)
      (more : ScansEntries r readings (i + 1) g visits scans g') :
      ScansEntries r readings i g visits (p :: scans) g'
  | walk {i : Nat} {p : Path} {inner visits scans : List Path} {g g₁ g' : ModuleGraph}
      (entry : g.bundleEntries[i]? = some p) (fresh : g.hasModule p = false)
      (follows : FollowsLinks r readings (linksOf readings p)
        (g.addModule (moduleOf r readings p)) inner g₁)
      (more : ScansEntries r readings (i + 1) g₁ visits scans g') :
      ScansEntries r readings i g (p :: inner ++ visits) (p :: scans) g'

/-- A module that joins under a new path is the last one. -/
theorem keys_addModule_moduleOf {q : Path} (h : g.hasModule q = false) :
    Table.keys (g.addModule (moduleOf r readings q)).modules = Table.keys g.modules ++ [q] := by
  rw [ModuleGraph.modules_addModule (m := moduleOf r readings q) h, Table.keys_append]
  rfl

namespace FollowsLinks

variable {stack : List (Path × Link)} {visits : List Path}

theorem unique {visits' : List Path} {g₁ g₂ : ModuleGraph}
    (h : FollowsLinks r readings stack g visits g₁)
    (h' : FollowsLinks r readings stack g visits' g₂) : visits = visits' ∧ g₁ = g₂ := by
  induction h generalizing visits' g₂ with
  | done =>
    cases h'
    exact ⟨rfl, rfl⟩
  | pass known _ ih =>
    cases h' with
    | pass _ more' => exact ih more'
    | visit loads' fresh' =>
      rw [known _ loads'] at fresh'
      cases fresh'
  | visit loads fresh _ ih =>
    cases h' with
    | pass known' =>
      rw [known' _ loads] at fresh
      cases fresh
    | visit loads' _ more' =>
      obtain rfl := Option.some.inj (loads.symm.trans loads')
      obtain ⟨rfl, rfl⟩ := ih more'
      exact ⟨rfl, rfl⟩

/-- The modules that come up are those that have joined the graph. -/
theorem keys_eq (h : FollowsLinks r readings stack g visits g') :
    Table.keys g'.modules = Table.keys g.modules ++ visits := by
  induction h with
  | done => rw [List.append_nil]
  | pass _ _ ih => rw [ih, ModuleGraph.modules_addLink]
  | visit _ fresh _ ih =>
    rw [ih, keys_addModule_moduleOf (by simpa using fresh), ModuleGraph.modules_addLink,
      List.append_assoc, List.singleton_append]

theorem grows (h : FollowsLinks r readings stack g visits g') : Grows g g' := by
  induction h with
  | done => exact .refl _
  | pass _ _ ih => exact (Grows.addLink _ _ _).trans ih
  | visit _ _ _ ih => exact ((Grows.addLink _ _ _).trans (Grows.addModule _ _)).trans ih

end FollowsLinks

/-- Following links stops by itself where there is room for all modules that can come up. -/
theorem exists_followsLinks (hr : Reads r main readings) {modules : Nat}
    {stack : List (Path × Link)} (hs : LeadIn readings (stack.map Prod.snd))
    (hroom : room readings g < modules) :
    ∃ visits, FollowsLinks r readings stack g visits (follow r readings modules stack g) := by
  -- By the room left, and for each room by the stack.
  induction modules generalizing stack g with
  | zero => exact absurd hroom (Nat.not_lt_zero _)
  | succ modules ih =>
    induction stack generalizing g with
    | nil => exact ⟨[], .done⟩
    | cons e rest ihs =>
      obtain ⟨p, l⟩ := e
      have hrest : LeadIn readings (rest.map Prod.snd) :=
        fun l' hl' => hs l' (List.mem_cons_of_mem l hl')
      obtain ⟨visits, hmore⟩ := ihs hrest (g := g.addLink p l) (by rwa [room_addLink])
      cases hload : l.loads? with
      | none =>
        rw [follow_cons_of_none hload]
        exact ⟨visits, .pass (fun q hq => by rw [hload] at hq; cases hq) hmore⟩
      | some q =>
        cases hf : g.hasModule q with
        | true =>
          rw [follow_cons_of_hasModule hload hf]
          exact ⟨visits, .pass (fun q' hq' => Option.some.inj (hload.symm.trans hq') ▸ hf) hmore⟩
        | false =>
          have hq : q ∈ Table.keys readings :=
            hs l List.mem_cons_self q (Link.loads?_eq_some_iff.1 hload).2
          have hlt := room_addModule_lt (r := r) hq
            (show (g.addLink p l).hasModule q = false by simpa using hf)
          rw [room_addLink] at hlt
          rw [follow_cons_of_fresh hload hf, hr.moduleOf_eq hq]
          obtain ⟨visits', hvisit⟩ := ih (leadIn_append_linksOf hr hq hrest)
            (g := (g.addLink p l).addModule (moduleAt r q)) (by omega)
          refine ⟨q :: visits', .visit hload hf ?_⟩
          rw [hr.moduleOf_eq hq]
          exact hvisit

namespace ScansEntries

variable {i : Nat} {visits scans : List Path}

theorem unique {visits' scans' : List Path} {g₁ g₂ : ModuleGraph}
    (h : ScansEntries r readings i g visits scans g₁)
    (h' : ScansEntries r readings i g visits' scans' g₂) :
    visits = visits' ∧ scans = scans' ∧ g₁ = g₂ := by
  induction h generalizing visits' scans' g₂ with
  | done last =>
    cases h' with
    | done => exact ⟨rfl, rfl, rfl⟩
    | known entry' | walk entry' =>
      rw [last] at entry'
      cases entry'
  | known entry seen _ ih =>
    cases h' with
    | done last' =>
      rw [last'] at entry
      cases entry
    | known entry' _ more' =>
      obtain rfl := Option.some.inj (entry.symm.trans entry')
      obtain ⟨rfl, rfl, rfl⟩ := ih more'
      exact ⟨rfl, rfl, rfl⟩
    | walk entry' fresh' =>
      obtain rfl := Option.some.inj (entry.symm.trans entry')
      rw [seen] at fresh'
      cases fresh'
  | walk entry fresh follows _ ih =>
    cases h' with
    | done last' =>
      rw [last'] at entry
      cases entry
    | known entry' seen' =>
      obtain rfl := Option.some.inj (entry.symm.trans entry')
      rw [fresh] at seen'
      cases seen'
    | walk entry' _ follows' more' =>
      obtain rfl := Option.some.inj (entry.symm.trans entry')
      obtain ⟨rfl, rfl⟩ := follows.unique follows'
      obtain ⟨rfl, rfl, rfl⟩ := ih more'
      exact ⟨rfl, rfl, rfl⟩

/-- The modules that come up are those that have joined the graph. -/
theorem keys_eq (h : ScansEntries r readings i g visits scans g') :
    Table.keys g'.modules = Table.keys g.modules ++ visits := by
  induction h with
  | done => rw [List.append_nil]
  | known _ _ _ ih => exact ih
  | walk _ fresh follows _ ih =>
    rw [ih, follows.keys_eq, keys_addModule_moduleOf fresh]
    simp

theorem grows (h : ScansEntries r readings i g visits scans g') : Grows g g' := by
  induction h with
  | done => exact .refl _
  | known _ _ _ ih => exact ih
  | walk _ _ follows _ ih => exact ((Grows.addModule _ _).trans follows.grows).trans ih

/-- The entries scanned are the bundle entries from the number on, each in its turn. -/
theorem scans_eq (h : ScansEntries r readings i g visits scans g') :
    scans = g'.bundleEntries.drop i := by
  have hdrop : ∀ {i p} {g g' : ModuleGraph}, Grows g g' → g.bundleEntries[i]? = some p →
      g'.bundleEntries.drop i = p :: g'.bundleEntries.drop (i + 1) := by
    intro i p g g' hgrows hp
    obtain ⟨later, hlater⟩ := hgrows.entries
    obtain ⟨hi, rfl⟩ := List.getElem?_eq_some_iff.1 hp
    rw [← hlater, List.drop_eq_getElem_cons (by rw [List.length_append]; omega),
      List.getElem_append_left hi]
  induction h with
  | done last => exact (List.drop_eq_nil_of_le (List.getElem?_eq_none_iff.1 last)).symm
  | known entry _ more ih => rw [hdrop more.grows entry, ih]
  | walk entry _ follows more ih =>
    rw [hdrop (((Grows.addModule _ _).trans follows.grows).trans more.grows) entry, ih]

end ScansEntries

/-- Scanning the bundle entries stops by itself: there are no more of them than modules that have
been read. -/
theorem exists_scansEntries (hr : Reads r main readings) {fuel i : Nat} (hg : Within readings g)
    (hi : i ≤ g.bundleEntries.length) (hfuel : readings.length < i + fuel) :
    ∃ visits scans, ScansEntries r readings i g visits scans (walkEntries r readings fuel i g) := by
  induction fuel generalizing i g with
  | zero =>
    have hlen := (hg.nodup.subperm hg.entries).length_le
    rw [Table.keys, List.length_map] at hlen
    omega
  | succ fuel ih =>
    rw [walkEntries]
    split
    · rename_i hlast
      exact ⟨[], [], .done hlast⟩
    · rename_i p hp
      have hi' : i < g.bundleEntries.length := (List.getElem?_eq_some_iff.1 hp).1
      cases hf : g.hasModule p with
      | true =>
        rw [if_pos rfl]
        obtain ⟨visits, scans, hmore⟩ := ih (i := i + 1) hg hi' (by omega)
        exact ⟨visits, p :: scans, .known hp hf hmore⟩
      | false =>
        rw [if_neg (by simp)]
        have hpk := hg.entries p (List.mem_of_getElem? hp)
        have hwithin := (walkFrom_follows hr hpk hg).2
        obtain ⟨inner, hinner⟩ : ∃ inner, FollowsLinks r readings (linksOf readings p)
            (g.addModule (moduleOf r readings p)) inner (walkFrom r readings p g) := by
          refine exists_followsLinks hr (fun l hl => ?_) (Nat.lt_succ_of_le (room_le _ _))
          exact hr.leadIn_linksRead hpk l (by simpa [linksOf] using hl)
        have hgrows := hinner.grows.entries.length_le
        rw [ModuleGraph.bundleEntries_addModule] at hgrows
        obtain ⟨visits, scans, hmore⟩ := ih (i := i + 1) hwithin (by omega) (by omega)
        exact ⟨p :: inner ++ visits, p :: scans, .walk hp hf hinner hmore⟩

/-- The second phase stops by itself. -/
theorem Reads.exists_scansEntries (hr : Reads r main readings) :
    ∃ visits scans, ScansEntries r readings 0
      (({ root := r.app.root } : ModuleGraph).addBundleEntry main) visits scans
      (assemble r readings main) :=
  BundleReach.exists_scansEntries hr hr.within_start (Nat.zero_le _) (by omega)

/-! ## Both phases -/

/-- There is a graph at the end where some module may be read at a time and both phases end well. -/
theorem exists_buildGraphIn_iff {main : Path} :
    (∃ g, buildGraphIn r order main = .ok g) ↔ 0 < r.settings.workers.value ∧
      ∃ readings, readModules r order (r.tree.resolve main) = .ok readings := by
  simp only [buildGraphIn_eq_ok_iff, onePass_iff_readModules order, exists_and_left]
  refine and_congr_right fun _ => ?_
  constructor
  · rintro ⟨_, readings, hread, -⟩
    exact ⟨readings, hread⟩
  · rintro ⟨readings, hread⟩
    exact ⟨_, readings, hread, rfl⟩

/-- Whatever imports lead round, building comes to an end.  Reading stops by itself: no path is put
in two waves, and there are no more waves than files of the tree and one.  So does the second phase,
in which each module comes up once and each bundle entry is scanned once.  There is a graph at the
end where some module may be read at a time, unless a fault escapes the resolver at an import of a
module in a wave. -/
theorem building_ends (r : GraphBuilder) (order : EndOrder) (main : Path) :
    (∃ waves, ReadsWaves r order [r.tree.resolve main] [r.tree.resolve main] waves
      (readModules r order (r.tree.resolve main))) ∧
    (∀ waves outcome,
      ReadsWaves r order [r.tree.resolve main] [r.tree.resolve main] waves outcome →
      outcome = readModules r order (r.tree.resolve main) ∧ waves.flatten.Nodup ∧
        waves.length ≤ r.tree.canonicalFiles.length + 1 ∧
        ((∃ g, buildGraphIn r order main = .ok g) ↔
          0 < r.settings.workers.value ∧ ∀ p ∈ waves.flatten, Resolves r p)) ∧
    ∀ readings, readModules r order (r.tree.resolve main) = .ok readings →
      (∃ visits scans g, ScansEntries r readings 0
        (({ root := r.app.root } : ModuleGraph).addBundleEntry (r.tree.resolve main))
        visits scans g) ∧
      ∀ visits scans g, ScansEntries r readings 0
        (({ root := r.app.root } : ModuleGraph).addBundleEntry (r.tree.resolve main))
        visits scans g →
        g = assemble r readings (r.tree.resolve main) ∧ visits = Table.keys g.modules ∧
          visits.Nodup ∧ scans = g.bundleEntries ∧ scans.Nodup := by
  obtain ⟨waves, hwaves⟩ := exists_readsWaves_readModules r order (r.tree.resolve main)
  refine ⟨⟨waves, hwaves⟩, fun waves' outcome h => ?_, fun readings hread => ⟨?_, ?_⟩⟩
  · obtain ⟨rfl, rfl⟩ := h.unique hwaves
    refine ⟨rfl, h.nodup_flatten, h.length_le, ?_⟩
    rw [exists_buildGraphIn_iff, h.isOk_iff]
  · obtain ⟨visits, scans, h⟩ := (readModules_reads hread).exists_scansEntries
    exact ⟨visits, scans, _, h⟩
  · intro visits scans g h
    have hr := readModules_reads hread
    obtain ⟨visits', scans', h'⟩ := hr.exists_scansEntries
    obtain ⟨-, -, rfl⟩ := h.unique h'
    have hcomplete := hr.onePass.1.complete
    have hkeys : visits = Table.keys (assemble r readings (r.tree.resolve main)).modules :=
      h.keys_eq.symm
    have hscans : scans = (assemble r readings (r.tree.resolve main)).bundleEntries := by
      rw [h.scans_eq, List.drop_zero]
    exact ⟨rfl, hkeys, hkeys ▸ hcomplete.nodup, hscans, hscans ▸ hcomplete.nodup_entries⟩

/-- Two scripts that import each other. -/
def roundScripts : List (String × PlainScript) := [
  ("app.js", [.load "./names.js"]),
  ("names.js", [.load "./app.js"])]

/-- No module may be read at all. -/
def idleBuilder : GraphBuilder := { plainBuilder roundScripts with settings := .initial 0 }

/-- Where no module may be read at all there is no graph, though no fault escapes the resolver. -/
theorem no_graph_without_workers :
    (readModules idleBuilder .asked (appFile "app.js")).toOption.isSome = true ∧
      buildGraph idleBuilder (appFile "app.js") = .error .noWorkers := by
  refine ⟨by decide +kernel, ?_⟩
  rfl

end BundleReach
