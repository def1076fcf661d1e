import BundleReach.Proofs.Graph.OnePass
import BundleReach.Proofs.Resolution.Found
import Mathlib.Data.List.Perm.Subperm

/-!
# Reading in waves

Reading wave by wave comes to an end before the waves run out: every wave but the last puts at least
one file of the tree in a wave for the first time.  Whatever the order in which the readings of a
wave end, what has been read at the end is closed under imports: `readModules_reads`.  It lies in
every closed set, and such a set is enough for reading to succeed: `Closed.readModules`.
-/

namespace BundleReach

variable {r : GraphBuilder} {order : EndOrder}

/-! ## Reading a module -/

theorem readModule_eq_ok_iff {p : Path} {reading : Reading} :
    readModule r p = .ok reading ↔
      reading.outcome = r.factsOf p ∧
        resolveLinks r p (importsAt r p) = .ok reading.links := by
  obtain ⟨outcome, links⟩ := reading
  rw [readModule, importsAt]
  cases r.factsOf p with
  | error fault =>
    simp only [pure_eq_ok_iff, resolveLinks, Reading.mk.injEq, Except.ok.injEq]
    exact and_congr_left' eq_comm
  | ok facts =>
    simp only [bind_eq_ok_iff, pure_eq_ok_iff, Reading.mk.injEq]
    constructor
    · rintro ⟨links', hlinks, rfl, rfl⟩
      exact ⟨rfl, hlinks⟩
    · rintro ⟨rfl, hlinks⟩
      exact ⟨links, hlinks, rfl, rfl⟩

/-- A module is read when its imports can be resolved. -/
theorem exists_readModule {p : Path} {links : List Link}
    (h : resolveLinks r p (importsAt r p) = .ok links) :
    readModule r p = .ok ⟨r.factsOf p, links⟩ :=
  readModule_eq_ok_iff.2 ⟨rfl, h⟩

theorem isFilePlace_of_mem_resolveLinks {p q : Path} {refs : List ImportRef} {links : List Link}
    (h : resolveLinks r p refs = .ok links) {l : Link} (hl : l ∈ links)
    (hq : l.target? = some q) : r.IsFilePlace q := by
  obtain ⟨route, hroute⟩ := Link.target?_eq_some_iff.1 hq
  have hres := ((mem_resolveLinks_iff h).1 hl).2
  rw [hroute] at hres
  exact Resolver.resolve_found hres

/-! ## One wave -/

/-- The readings of a wave, in the order in which they end. -/
def IsWave (r : GraphBuilder) (order : EndOrder) (wave : List Path) (ended : Readings) : Prop :=
  ∃ asked, (wave.mapM fun p => do return (p, ← readModule r p)) = .ok asked ∧
    order.ended asked = ended

theorem readWaves_succ_eq_ok_iff {waves : Nat} {p : Path} {wave queued : List Path}
    {readings : Readings} :
    readWaves r order (waves + 1) (p :: wave) queued = .ok readings ↔
      ∃ ended rest, IsWave r order (p :: wave) ended ∧
        readWaves r order waves (nextWave queued (p :: wave) ended)
          (queued ++ nextWave queued (p :: wave) ended) = .ok rest ∧
        ended ++ rest = readings := by
  simp only [readWaves, bind_eq_ok_iff (α := Readings), pure_eq_ok_iff, IsWave]
  constructor
  · rintro ⟨asked, hasked, rest, hrest, rfl⟩
    exact ⟨_, rest, ⟨asked, hasked, rfl⟩, hrest, rfl⟩
  · rintro ⟨_, rest, ⟨asked, hasked, rfl⟩, hrest, rfl⟩
    exact ⟨asked, hasked, rest, hrest, rfl⟩

namespace IsWave

variable {wave : List Path} {ended : Readings}

theorem perm_keys (h : IsWave r order wave ended) : (Table.keys ended).Perm wave := by
  obtain ⟨asked, hasked, rfl⟩ := h
  have hkeys : Table.keys asked = wave := by
    have hread := mapM_eq_ok_iff.1 hasked
    clear hasked
    induction hread with
    | nil => rfl
    | cons hp _ ih =>
      obtain ⟨reading, _, he⟩ := bind_eq_ok_iff.1 hp
      rw [Table.keys, List.map_cons, ← pure_eq_ok_iff.1 he, ← ih]
      rfl
  rw [← hkeys]
  exact (order.perm asked).map Prod.fst

theorem read (h : IsWave r order wave ended) {e : Path × Reading} (he : e ∈ ended) :
    readModule r e.1 = .ok e.2 := by
  obtain ⟨asked, hasked, rfl⟩ := h
  replace he : e ∈ asked := (order.perm asked).mem_iff.1 he
  have hread := mapM_eq_ok_iff.1 hasked
  clear hasked
  induction hread with
  | nil => cases he
  | cons hp _ ih =>
    rcases List.mem_cons.1 he with rfl | he
    · obtain ⟨reading, hr, hreading⟩ := bind_eq_ok_iff.1 hp
      rw [← pure_eq_ok_iff.1 hreading]
      exact hr
    · exact ih he

/-- A wave is read if each of its modules is. -/
theorem exists_of_read (order : EndOrder) (wave : List Path)
    (h : ∀ p ∈ wave, ∃ reading, readModule r p = .ok reading) :
    ∃ ended, IsWave r order wave ended := by
  suffices ∃ asked, (wave.mapM fun p => do return (p, ← readModule r p)) = .ok asked by
    obtain ⟨asked, hasked⟩ := this
    exact ⟨_, asked, hasked, rfl⟩
  simp only [mapM_eq_ok_iff]
  induction wave with
  | nil => exact ⟨[], .nil⟩
  | cons p wave ih =>
    obtain ⟨reading, hp⟩ := h p List.mem_cons_self
    obtain ⟨rest, hrest⟩ := ih fun q hq => h q (List.mem_cons_of_mem p hq)
    exact ⟨(p, reading) :: rest, .cons (bind_eq_ok_iff.2 ⟨reading, hp, rfl⟩) hrest⟩

end IsWave

/-! ## The next wave -/

theorem nextWave_eq (queued wave : List Path) (readings : Readings) :
    nextWave queued wave readings =
      ((wave.flatMap fun p => (linksRead readings p).filterMap Link.target?).filter
        (· ∉ queued)).foldl (fun new p => joinOnce p new) [] := by
  rw [nextWave, List.foldl_filter]
  simp only [decide_eq_true_eq, ite_not]

theorem mem_nextWave {queued wave : List Path} {readings : Readings} {q : Path} :
    q ∈ nextWave queued wave readings ↔
      (∃ p ∈ wave, ∃ l ∈ linksRead readings p, l.target? = some q) ∧ q ∉ queued := by
  simp only [nextWave_eq, mem_foldl_joinOnce, List.not_mem_nil, false_or, List.mem_filter,
    List.mem_flatMap, List.mem_filterMap, decide_eq_true_eq]

theorem nodup_nextWave (queued wave : List Path) (readings : Readings) :
    (nextWave queued wave readings).Nodup := by
  rw [nextWave_eq]
  exact nodup_foldl_joinOnce _ List.nodup_nil

theorem linksRead_of_mem {readings : Readings} (hn : (Table.keys readings).Nodup) {p : Path}
    {reading : Reading} (h : (p, reading) ∈ readings) : linksRead readings p = reading.links := by
  rw [linksRead, Table.find?_of_mem hn h]
  rfl

theorem nodup_append_nextWave {queued : List Path} (hq : queued.Nodup) (wave : List Path)
    (readings : Readings) : (queued ++ nextWave queued wave readings).Nodup := by
  refine List.nodup_append.2 ⟨hq, nodup_nextWave queued wave readings, fun p hp q hnew => ?_⟩
  rintro rfl
  exact (mem_nextWave.1 hnew).2 hp

/-- What a wave that has been read leads to, by the readings themselves. -/
theorem IsWave.mem_nextWave_iff {wave queued : List Path} {ended : Readings}
    (h : IsWave r order wave ended) (hw : wave.Nodup) {q : Path} :
    q ∈ nextWave queued wave ended ↔
      (∃ e ∈ ended, ∃ l ∈ e.2.links, l.target? = some q) ∧ q ∉ queued := by
  have hkeys : (Table.keys ended).Nodup := h.perm_keys.nodup_iff.2 hw
  rw [mem_nextWave]
  refine and_congr_left fun _ => ⟨?_, ?_⟩
  · rintro ⟨p, hp, l, hl, hlq⟩
    obtain ⟨e, he, rfl⟩ := List.mem_map.1 (h.perm_keys.mem_iff.2 hp)
    rw [linksRead_of_mem hkeys he] at hl
    exact ⟨e, he, l, hl, hlq⟩
  · rintro ⟨e, he, l, hl, hlq⟩
    rw [← linksRead_of_mem hkeys he] at hl
    exact ⟨e.1, h.perm_keys.mem_iff.1 (List.mem_map_of_mem he), l, hl, hlq⟩

/-! ## All waves -/

/-- What reading the rest of the waves comes to, given a wave and all that has been queued. -/
structure ReadsOn (r : GraphBuilder) (wave queued : List Path) (readings : Readings) : Prop where
  nodup : (Table.keys readings).Nodup
  wave_subset : ∀ p ∈ wave, p ∈ Table.keys readings
  fresh : ∀ p ∈ Table.keys readings, p ∈ wave ∨ p ∉ queued
  read : ∀ e ∈ readings, readModule r e.1 = .ok e.2
  closed : ∀ e ∈ readings, ∀ l ∈ e.2.links, ∀ q, l.target? = some q →
    q ∈ queued ∨ q ∈ Table.keys readings

namespace ReadsOn

theorem nil (queued : List Path) : ReadsOn r [] queued [] where
  nodup := List.nodup_nil
  wave_subset p hp := by cases hp
  fresh p hp := by cases hp
  read e he := by cases he
  closed e he := by cases he

/-- One wave, and what its modules lead to. -/
theorem wave {wave queued : List Path} {ended rest : Readings} (hw : wave.Nodup)
    (hq : ∀ p ∈ wave, p ∈ queued) (h : IsWave r order wave ended)
    (more : ReadsOn r (nextWave queued wave ended) (queued ++ nextWave queued wave ended) rest) :
    ReadsOn r wave queued (ended ++ rest) := by
  have hperm : (Table.keys ended).Perm wave := h.perm_keys
  have hnodup : (Table.keys ended).Nodup := hperm.nodup_iff.2 hw
  -- What is read later has not been queued before.
  have hlater : ∀ p ∈ Table.keys rest, p ∉ queued := by
    intro p hp
    rcases more.fresh p hp with hp | hp
    · exact (mem_nextWave.1 hp).2
    · exact fun hpq => hp (List.mem_append_left _ hpq)
  refine ⟨?_, ?_, ?_, ?_, ?_⟩
  · rw [Table.keys_append, List.nodup_append]
    refine ⟨hnodup, more.nodup, fun p hp p' hp' => ?_⟩
    rintro rfl
    exact hlater p hp' (hq p (hperm.mem_iff.1 hp))
  · intro p hp
    rw [Table.keys_append]
    exact List.mem_append_left _ (hperm.mem_iff.2 hp)
  · intro p hp
    rw [Table.keys_append] at hp
    rcases List.mem_append.1 hp with hp | hp
    · exact .inl (hperm.mem_iff.1 hp)
    · exact .inr (hlater p hp)
  · intro e he
    rcases List.mem_append.1 he with he | he
    · exact h.read he
    · exact more.read e he
  · intro e he l hl q hlq
    rw [Table.keys_append, List.mem_append]
    rcases List.mem_append.1 he with he | he
    · by_cases hqq : q ∈ queued
      · exact .inl hqq
      · have hnext := (h.mem_nextWave_iff hw).2 ⟨⟨e, he, l, hl, hlq⟩, hqq⟩
        exact .inr (.inr (more.wave_subset q hnext))
    · rcases more.closed e he l hl q hlq with hqq | hq'
      · rcases List.mem_append.1 hqq with hqq | hq'
        · exact .inl hqq
        · exact .inr (.inr (more.wave_subset q hq'))
      · exact .inr (.inr hq')

end ReadsOn

/-- Reading wave by wave, with enough waves left for the files that no wave has held. -/
theorem readWaves_reads (main : Path) {waves : Nat} {wave queued : List Path}
    {readings : Readings} (h : readWaves r order waves wave queued = .ok readings)
    (hw : wave.Nodup) (hwq : ∀ p ∈ wave, p ∈ queued) (hq : queued.Nodup)
    (hplaces : ∀ p ∈ queued, p ∈ main :: r.tree.places)
    (hwaves : wave ≠ [] → r.tree.entries.length + 1 < queued.length + waves) :
    ReadsOn r wave queued readings := by
  induction waves generalizing wave queued readings with
  | zero =>
    have hlen : queued.length ≤ r.tree.entries.length + 1 := by
      have := (hq.subperm hplaces).length_le
      rwa [List.length_cons, FileTree.length_places] at this
    obtain rfl : wave = [] := Decidable.byContradiction fun hne => by
      have := hwaves hne
      omega
    rw [readWaves] at h
    cases h
    exact .nil queued
  | succ waves ih =>
    cases wave with
    | nil =>
      rw [readWaves] at h
      · cases h
        exact .nil queued
      · intro h0
        cases h0
    | cons p wave =>
      obtain ⟨ended, rest, hended, hrest, rfl⟩ := readWaves_succ_eq_ok_iff.1 h
      refine .wave hw hwq hended (ih hrest (nodup_nextWave _ _ _) ?_ ?_ ?_ ?_)
      · exact fun q hq' => List.mem_append_right _ hq'
      · exact nodup_append_nextWave hq (p :: wave) ended
      · intro q hq'
        rcases List.mem_append.1 hq' with hq' | hq'
        · exact hplaces q hq'
        · obtain ⟨⟨e, he, l, hl, hlq⟩, -⟩ := (hended.mem_nextWave_iff hw).1 hq'
          have hlinks := (readModule_eq_ok_iff.1 (hended.read he)).2
          exact List.mem_cons_of_mem main (isFilePlace_of_mem_resolveLinks hlinks hl hlq).mem_places
      · intro hne
        have hpos := List.length_pos_iff.2 hne
        have := hwaves (List.cons_ne_nil p wave)
        rw [List.length_append]
        omega

/-! ## Everything that can be reached -/

/-- A set of modules that holds the main module and whatever its modules lead to. -/
structure Closed (r : GraphBuilder) (main : Path) (s : List Path) : Prop where
  main_mem : main ∈ s
  links : ∀ p ∈ s, ∃ links, resolveLinks r p (importsAt r p) = .ok links ∧
    ∀ l ∈ links, ∀ q, l.target? = some q → q ∈ s

/-- Readings of modules, each once, that hold the main module and whatever its modules lead to. -/
structure Reads (r : GraphBuilder) (main : Path) (readings : Readings) : Prop where
  nodup : (Table.keys readings).Nodup
  main_mem : main ∈ Table.keys readings
  read : ∀ e ∈ readings, readModule r e.1 = .ok e.2
  closed : ∀ e ∈ readings, ∀ l ∈ e.2.links, ∀ q, l.target? = some q → q ∈ Table.keys readings

/-- The first phase reads everything that can be reached, whatever the order in which readings
end. -/
theorem readModules_reads {main : Path} {readings : Readings}
    (h : readModules r order main = .ok readings) : Reads r main readings := by
  have hone : [main].Nodup := List.pairwise_singleton _ main
  have hon : ReadsOn r [main] [main] readings := by
    refine readWaves_reads main h hone (fun p hp => hp) hone (fun p hp => ?_) fun _ => ?_
    · rw [List.mem_singleton.1 hp]
      exact List.mem_cons_self
    · rw [List.length_singleton]
      omega
  have hmain : main ∈ Table.keys readings := hon.wave_subset main (List.mem_singleton.2 rfl)
  refine ⟨hon.nodup, hmain, hon.read, fun e he l hl q hq => ?_⟩
  rcases hon.closed e he l hl q hq with hq | hq
  · rw [List.mem_singleton.1 hq]
    exact hmain
  · exact hq

/-- Within a closed set reading succeeds, wave by wave. -/
theorem Closed.readWaves {main : Path} {s : List Path} (hs : Closed r main s) (order : EndOrder)
    {waves : Nat} {wave queued : List Path} (hw : ∀ p ∈ wave, p ∈ s) (hn : wave.Nodup) :
    ∃ readings, BundleReach.readWaves r order waves wave queued = .ok readings ∧
      ∀ p ∈ Table.keys readings, p ∈ s := by
  have hend : ∃ readings : Readings, (.ok [] : Except Path.RenameFault Readings) = .ok readings ∧
      ∀ p ∈ Table.keys readings, p ∈ s := ⟨[], rfl, fun p hp => by cases hp⟩
  induction waves generalizing wave queued with
  | zero => exact hend
  | succ waves ih =>
    cases wave with
    | nil => exact hend
    | cons p wave =>
      obtain ⟨ended, hended⟩ := IsWave.exists_of_read order (p :: wave) fun q hq => by
        obtain ⟨links, hlinks, -⟩ := hs.links q (hw q hq)
        exact ⟨_, exists_readModule hlinks⟩
      have hperm := hended.perm_keys
      have hnext : ∀ q ∈ nextWave queued (p :: wave) ended, q ∈ s := by
        intro q hq
        obtain ⟨⟨e, he, l, hl, hlq⟩, -⟩ := (hended.mem_nextWave_iff hn).1 hq
        have hx : e.1 ∈ p :: wave := hperm.mem_iff.1 (List.mem_map_of_mem he)
        obtain ⟨links, hlinks, hin⟩ := hs.links e.1 (hw e.1 hx)
        have hread := (readModule_eq_ok_iff.1 (hended.read he)).2
        rw [hlinks] at hread
        exact hin l (Except.ok.inj hread ▸ hl) q hlq
      obtain ⟨rest, hrest, hin⟩ := ih hnext (nodup_nextWave _ _ _)
      refine ⟨_, readWaves_succ_eq_ok_iff.2 ⟨ended, rest, hended, hrest, rfl⟩, fun q hq => ?_⟩
      rw [Table.keys_append] at hq
      rcases List.mem_append.1 hq with hq | hq
      · exact hw q (hperm.mem_iff.1 hq)
      · exact hin q hq

/-- A closed set is all it takes for the first phase to succeed, and nothing outside is read. -/
theorem Closed.readModules {main : Path} {s : List Path} (hs : Closed r main s)
    (order : EndOrder) :
    ∃ readings, BundleReach.readModules r order main = .ok readings ∧
      ∀ p ∈ Table.keys readings, p ∈ s := by
  refine hs.readWaves order (fun p hp => ?_) (List.pairwise_singleton _ main)
  rw [List.mem_singleton.1 hp]
  exact hs.main_mem

end BundleReach
