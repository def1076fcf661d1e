import BundleReach.Graph.Closure
import Mathlib.Data.List.Perm.Subperm
import Mathlib.Logic.Relation

/-!
# Closures hold what is loaded together

The closure of entries is taken with a stack and a mark on every module that has been seen.  Each
module is marked before it is put on the stack, and a mark can only be put on the end of an edge, so
there are turns enough for all of them.

* `Empties`, `ClosesAfter` — the same loops without a bound on their turns; `closes_closure` says
  that they come to an end with the closure.
* `Empties.takes`, `Empties.nodup` — what emptying a stack takes up, and that nothing is taken up
  twice.
* `mem_closure_iff` — what the closure holds is what the entries reach.
* `closure_exact` — all of it, told by the edges that leave modules; `mem_closure_iff_edgeLoads`, by
  the edges of the graph where these are the same.
-/

namespace BundleReach

variable {g : ModuleGraph} {p q : Path}

/-! ## Modules not seen yet -/

theorem mem_keepLast {α : Type} [DecidableEq α] {a : α} {as : List α} :
    a ∈ keepLast as ↔ a ∈ as := by
  induction as with
  | nil => rfl
  | cons b rest ih =>
    rw [keepLast]
    split
    · rename_i hb
      rw [ih, List.mem_cons]
      exact ⟨.inr, fun h => h.elim (fun e => e ▸ hb) id⟩
    · rw [List.mem_cons, List.mem_cons, ih]

theorem nodup_keepLast {α : Type} [DecidableEq α] (as : List α) : (keepLast as).Nodup := by
  induction as with
  | nil => exact List.nodup_nil
  | cons b rest ih =>
    rw [keepLast]
    split
    · exact ih
    · rename_i hb
      exact List.nodup_cons.2 ⟨fun h => hb (mem_keepLast.1 h), ih⟩

theorem mem_freshSuccessors {seen : List Path} :
    q ∈ freshSuccessors g seen p ↔ q ∈ g.successors followedKinds p ∧ q ∉ seen := by
  rw [freshSuccessors, mem_keepLast, List.mem_filter, decide_eq_true_eq]

/-- A module is imported other than dynamically by an edge that leaves its importer. -/
theorem mem_successors_followedKinds :
    q ∈ g.successors followedKinds p ↔
      ∃ e ∈ g.outEdges p, e.kind ≠ .dynamic ∧ e.target = some q := by
  rw [ModuleGraph.successors, List.mem_filterMap]
  refine exists_congr fun e => and_congr_right fun _ => ?_
  cases e.kind <;> simp [followedKinds]

theorem mem_targets_of_mem_successors (h : q ∈ g.successors followedKinds p) : q ∈ targets g := by
  obtain ⟨e, he, -, htarget⟩ := mem_successors_followedKinds.1 h
  rw [ModuleGraph.outEdges] at he
  cases hp : Table.find? p g.out with
  | none =>
    rw [hp] at he
    cases he
  | some edges =>
    rw [hp] at he
    have hmem : q ∈ edges.filterMap ImportEdge.target := List.mem_filterMap.2 ⟨e, he, htarget⟩
    exact List.mem_flatMap.2 ⟨(p, edges), Table.mem_of_find? hp, hmem⟩

/-- How many ends of edges have not been seen. -/
def unseen (g : ModuleGraph) (seen : List Path) : Nat := ((targets g).filter (· ∉ seen)).length

theorem unseen_le (g : ModuleGraph) (seen : List Path) : unseen g seen ≤ (targets g).length :=
  List.length_filter_le _ _

/-- Modules that are marked for the first time are fewer to mark later on. -/
theorem unseen_append_freshSuccessors (seen : List Path) (p : Path) :
    (freshSuccessors g seen p).length + unseen g (seen ++ freshSuccessors g seen p) ≤
      unseen g seen := by
  have hfresh : freshSuccessors g seen p ⊆
      ((targets g).filter (· ∉ seen)).filter (· ∈ freshSuccessors g seen p) := by
    intro q hq
    obtain ⟨hsucc, hseen⟩ := mem_freshSuccessors.1 hq
    have htargets : q ∈ targets g := mem_targets_of_mem_successors hsucc
    exact List.mem_filter.2
      ⟨List.mem_filter.2 ⟨htargets, decide_eq_true hseen⟩, decide_eq_true hq⟩
  have hnodup : (freshSuccessors g seen p).Nodup := nodup_keepLast _
  have hlen := (hnodup.subperm hfresh).length_le
  have hrest : (targets g).filter (· ∉ seen ++ freshSuccessors g seen p) =
      ((targets g).filter (· ∉ seen)).filter fun q => !decide (q ∈ freshSuccessors g seen p) := by
    rw [List.filter_filter]
    refine List.filter_congr fun q _ => ?_
    rw [Bool.eq_iff_iff]
    simp only [List.mem_append, not_or, decide_eq_true_eq, Bool.and_eq_true, Bool.not_eq_true',
      decide_eq_false_iff_not]
    exact and_comm
  have hsplit := List.length_eq_length_filter_add (l := (targets g).filter (· ∉ seen))
    (· ∈ freshSuccessors g seen p)
  rw [unseen, unseen, hrest]
  omega

/-! ## The loop without a bound -/

/-- Emptying a stack: the module on top is taken up, and what it is loaded with and has not been
seen is marked and put on the stack, turn by turn until nothing is left.  Yields the modules taken
up and all that have been seen. -/
inductive Empties (g : ModuleGraph) : List Path → List Path → List Path → List Path → Prop where
  | done {seen : List Path} : Empties g [] seen [] seen
  | turn {p : Path} {stack seen order seen' : List Path}
      (more : Empties g (freshSuccessors g seen p ++ stack) (seen ++ freshSuccessors g seen p) order
        seen') : Empties g (p :: stack) seen (p :: order) seen'

namespace Empties

variable {stack seen order order' seen' seen'' : List Path}

theorem unique (h : Empties g stack seen order seen') (h' : Empties g stack seen order' seen'') :
    order = order' ∧ seen' = seen'' := by
  induction h generalizing order' with
  | done =>
    cases h'
    exact ⟨rfl, rfl⟩
  | turn _ ih =>
    cases h' with
    | turn more' =>
      obtain ⟨rfl, rfl⟩ := ih more'
      exact ⟨rfl, rfl⟩

end Empties

theorem takeUp_cons (g : ModuleGraph) (fuel : Nat) (p : Path) (stack seen : List Path) :
    takeUp g (fuel + 1) (p :: stack) seen =
      (p :: (takeUp g fuel (freshSuccessors g seen p ++ stack)
          (seen ++ freshSuccessors g seen p)).1,
        (takeUp g fuel (freshSuccessors g seen p ++ stack)
          (seen ++ freshSuccessors g seen p)).2) :=
  rfl

/-- With a turn for each module on the stack and for each that may still be marked, the stack is
emptied. -/
theorem takeUp_empties (g : ModuleGraph) (fuel : Nat) {stack seen : List Path}
    (hfuel : stack.length + unseen g seen ≤ fuel) :
    Empties g stack seen (takeUp g fuel stack seen).1 (takeUp g fuel stack seen).2 := by
  induction fuel generalizing stack seen with
  | zero =>
    obtain rfl : stack = [] := List.length_eq_zero_iff.1 (by omega)
    exact .done
  | succ fuel ih =>
    cases stack with
    | nil => exact .done
    | cons p stack =>
      have hless := unseen_append_freshSuccessors (g := g) seen p
      rw [List.length_cons] at hfuel
      rw [takeUp_cons]
      refine .turn (ih ?_)
      rw [List.length_append]
      omega

/-! ## Taking up modules -/

/-- What taking up modules from a stack yields: the modules taken up, and all that are marked. -/
structure Takes (g : ModuleGraph) (stack seen order seen' : List Path) : Prop where
  stack_subset : ∀ p ∈ stack, p ∈ order
  closed : ∀ p ∈ order, ∀ q ∈ g.successors followedKinds p, q ∈ seen'
  marked : ∀ q, q ∈ seen' ↔ q ∈ seen ∨ q ∈ order
  reached : ∀ p ∈ order, Reaches g stack p

theorem Takes.nil (seen : List Path) : Takes g [] seen [] seen where
  stack_subset p hp := by cases hp
  closed p hp := by cases hp
  marked q := (or_iff_left List.not_mem_nil).symm
  reached p hp := by cases hp

theorem Reaches.trans {entries stack : List Path} (h : Reaches g stack p)
    (hs : ∀ q ∈ stack, Reaches g entries q) : Reaches g entries p := by
  induction h with
  | entry hp => exact hs _ hp
  | step _ hq ih => exact .step ih hq

/-- One turn: the module on top is taken up and what it leads to for the first time is marked. -/
theorem Takes.cons {stack seen order seen' : List Path} (hp : p ∈ seen)
    (more : Takes g (freshSuccessors g seen p ++ stack) (seen ++ freshSuccessors g seen p) order
      seen') : Takes g (p :: stack) seen (p :: order) seen' := by
  refine ⟨fun q hq => ?_, fun x hx q hq => ?_, fun q => ?_, fun x hx => ?_⟩
  · rcases List.mem_cons.1 hq with rfl | hq
    · exact List.mem_cons_self
    · exact List.mem_cons_of_mem p (more.stack_subset q (List.mem_append_right _ hq))
  · rcases List.mem_cons.1 hx with rfl | hx
    · -- What the module itself leads to is marked by now.
      refine (more.marked q).2 (.inl (List.mem_append.2 ?_))
      by_cases hqs : q ∈ seen
      · exact .inl hqs
      · exact .inr (mem_freshSuccessors.2 ⟨hq, hqs⟩)
    · exact more.closed x hx q hq
  · rw [more.marked, List.mem_append, List.mem_cons]
    constructor
    · rintro ((hq | hq) | hq)
      · exact .inl hq
      · exact .inr (.inr (more.stack_subset q (List.mem_append_left _ hq)))
      · exact .inr (.inr hq)
    · rintro (hq | rfl | hq)
      · exact .inl (.inl hq)
      · exact .inl (.inl hp)
      · exact .inr hq
  · rcases List.mem_cons.1 hx with rfl | hx
    · exact .entry List.mem_cons_self
    · refine (more.reached x hx).trans fun q hq => ?_
      rcases List.mem_append.1 hq with hq | hq
      · exact .step (.entry List.mem_cons_self) (mem_freshSuccessors.1 hq).1
      · exact .entry (List.mem_cons_of_mem p hq)

namespace Empties

variable {stack seen order seen' : List Path}

/-- After a turn the stack holds marked modules only, as before. -/
theorem stack_marked (hstack : ∀ q ∈ p :: stack, q ∈ seen) :
    ∀ q ∈ freshSuccessors g seen p ++ stack, q ∈ seen ++ freshSuccessors g seen p := by
  intro q hq
  rcases List.mem_append.1 hq with hq | hq
  · exact List.mem_append_right _ hq
  · exact List.mem_append_left _ (hstack q (List.mem_cons_of_mem p hq))

/-- Emptying a stack of marked modules takes up all that can be reached from it. -/
theorem takes (h : Empties g stack seen order seen') (hstack : ∀ p ∈ stack, p ∈ seen) :
    Takes g stack seen order seen' := by
  induction h with
  | done => exact .nil _
  | turn _ ih => exact .cons (hstack _ List.mem_cons_self) (ih (stack_marked hstack))

/-- Nothing is taken up twice, and nothing that was marked before, but for what was on the stack. -/
theorem nodup (h : Empties g stack seen order seen') (hstack : ∀ p ∈ stack, p ∈ seen)
    (hn : stack.Nodup) : order.Nodup ∧ ∀ p ∈ order, p ∈ stack ∨ p ∉ seen := by
  induction h with
  | done => exact ⟨List.nodup_nil, fun p hp => by cases hp⟩
  | @turn p stack seen order seen' _ ih =>
    obtain ⟨hp, hn⟩ := List.nodup_cons.1 hn
    have hnodup : (freshSuccessors g seen p ++ stack).Nodup := by
      rw [List.nodup_append]
      refine ⟨nodup_keepLast _, hn, fun a ha b hb => ?_⟩
      rintro rfl
      exact (mem_freshSuccessors.1 ha).2 (hstack a (List.mem_cons_of_mem p hb))
    obtain ⟨horder, hfresh⟩ := ih (stack_marked hstack) hnodup
    have hlater : ∀ q ∈ order, q ∈ stack ∨ q ∉ seen := by
      intro q hq
      rcases hfresh q hq with hq | hq
      · rcases List.mem_append.1 hq with hq | hq
        · exact .inr (mem_freshSuccessors.1 hq).2
        · exact .inl hq
      · exact .inr fun hs => hq (List.mem_append_left _ hs)
    refine ⟨List.nodup_cons.2 ⟨fun hpo => ?_, horder⟩, fun q hq => ?_⟩
    · rcases hlater p hpo with hps | hps
      · exact hp hps
      · exact hps (hstack p List.mem_cons_self)
    · rcases List.mem_cons.1 hq with rfl | hq
      · exact .inl List.mem_cons_self
      · exact (hlater q hq).imp_left (List.mem_cons_of_mem p)

end Empties

/-! ## Closures -/

/-- Closing entries one after the other, after what has been seen before them: from an entry that
has not been seen a stack is emptied, and the others go by what has been seen by then. -/
inductive ClosesAfter (g : ModuleGraph) : List Path → List Path → List Path → Prop where
  | done {seen : List Path} : ClosesAfter g [] seen []
  | skip {entry : Path} {rest seen order : List Path} (marked : entry ∈ seen)
      (more : ClosesAfter g rest seen order) : ClosesAfter g (entry :: rest) seen order
  | take {entry : Path} {rest seen seen' order later : List Path} (fresh : entry ∉ seen)
      (inner : Empties g [entry] (seen ++ [entry]) order seen')
      (more : ClosesAfter g rest seen' later) :
      ClosesAfter g (entry :: rest) seen (order ++ later)

/-- The turns that a closure has are enough to empty all of its stacks. -/
theorem closes_closureAfter (g : ModuleGraph) (entries seen : List Path) :
    ClosesAfter g entries seen (closureAfter g entries seen) := by
  induction entries generalizing seen with
  | nil => exact .done
  | cons entry rest ih =>
    by_cases hentry : entry ∈ seen
    · rw [closureAfter, if_pos hentry]
      exact .skip hentry (ih seen)
    · have hfuel : [entry].length + unseen g (seen ++ [entry]) ≤ (targets g).length + 1 := by
        have := unseen_le g (seen ++ [entry])
        rw [List.length_singleton]
        omega
      rw [closureAfter, if_neg hentry]
      exact .take hentry (takeUp_empties g _ hfuel) (ih _)

theorem closes_closure (g : ModuleGraph) (entries : List Path) :
    ClosesAfter g entries [] (closure g entries) :=
  closes_closureAfter g entries []

/-- Whatever holds the entries, and with a module what it is loaded with, holds what the entries
reach. -/
theorem Reaches.mem_of_closed {entries : List Path} {s : Path → Prop}
    (hentries : ∀ p ∈ entries, s p)
    (hstep : ∀ p, s p → ∀ q ∈ g.successors followedKinds p, s q) (h : Reaches g entries p) :
    s p := by
  induction h with
  | entry hp => exact hentries _ hp
  | step _ hq ih => exact hstep _ ih _ hq

/-- Marks hold with a module all that it is loaded with. -/
def Marks (g : ModuleGraph) (seen : List Path) : Prop :=
  ∀ p ∈ seen, ∀ q ∈ g.successors followedKinds p, q ∈ seen

/-- What the closure of entries adds to marks: nothing but what the entries reach, and all of it. -/
structure Adds (g : ModuleGraph) (entries seen order : List Path) : Prop where
  reached : ∀ p ∈ order, Reaches g entries p
  all : ∀ p, Reaches g entries p → p ∈ seen ∨ p ∈ order

namespace Adds

variable {entry : Path} {rest seen seen' order more : List Path}

theorem nil (hseen : Marks g seen) : Adds g [] seen [] where
  reached p hp := by cases hp
  all p hp := .inl (hp.mem_of_closed (s := (· ∈ seen)) (fun p hp => by cases hp) hseen)

/-- What is reached from fewer entries is reached from more. -/
theorem reaches_cons (h : Reaches g rest p) : Reaches g (entry :: rest) p :=
  h.trans fun _ hq => .entry (List.mem_cons_of_mem entry hq)

/-- An entry that is marked adds nothing. -/
theorem skip (hseen : Marks g seen) (hentry : entry ∈ seen) (h : Adds g rest seen order) :
    Adds g (entry :: rest) seen order where
  reached p hp := reaches_cons (h.reached p hp)
  all p hp := by
    refine hp.mem_of_closed (s := fun p => p ∈ seen ∨ p ∈ order) (fun q hq => ?_)
      fun x hx q hq => ?_
    · rcases List.mem_cons.1 hq with rfl | hq
      · exact .inl hentry
      · exact h.all q (.entry hq)
    · rcases hx with hx | hx
      · exact .inl (hseen x hx q hq)
      · exact h.all q (.step (h.reached x hx) hq)

theorem mem_marked_iff (ht : Takes g [entry] (seen ++ [entry]) order seen') :
    q ∈ seen' ↔ q ∈ seen ∨ q ∈ order := by
  rw [ht.marked, List.mem_append, or_assoc]
  exact or_congr_right (or_iff_right_of_imp fun hq => ht.stack_subset q hq)

/-- Taking up from an entry leaves marks that are closed again. -/
theorem marks (hseen : Marks g seen) (ht : Takes g [entry] (seen ++ [entry]) order seen') :
    Marks g seen' := by
  intro p hp q hq
  rcases (mem_marked_iff ht).1 hp with hp | hp
  · exact (mem_marked_iff ht).2 (.inl (hseen p hp q hq))
  · exact ht.closed p hp q hq

/-- An entry that is not marked adds all that is taken up from it. -/
theorem take (hseen : Marks g seen) (ht : Takes g [entry] (seen ++ [entry]) order seen')
    (h : Adds g rest seen' more) : Adds g (entry :: rest) seen (order ++ more) where
  reached p hp := by
    rcases List.mem_append.1 hp with hp | hp
    · exact (ht.reached p hp).trans fun q hq =>
        .entry (List.mem_singleton.1 hq ▸ List.mem_cons_self)
    · exact reaches_cons (h.reached p hp)
  all p hp := by
    have hkeep : ∀ q, q ∈ seen' ∨ q ∈ more → q ∈ seen ∨ q ∈ order ++ more := by
      intro q hq
      rw [mem_marked_iff ht, or_assoc] at hq
      rwa [List.mem_append]
    refine hp.mem_of_closed (s := fun p => p ∈ seen ∨ p ∈ order ++ more)
      (fun q hq => hkeep q ?_) fun x hx q hq => hkeep q ?_
    · rcases List.mem_cons.1 hq with rfl | hq
      · exact .inl ((mem_marked_iff ht).2 (.inr (ht.stack_subset q (List.mem_singleton.2 rfl))))
      · exact h.all q (.entry hq)
    · rcases hx with hx | hx
      · exact .inl (marks hseen ht x ((mem_marked_iff ht).2 (.inl hx)) q hq)
      · rcases List.mem_append.1 hx with hx | hx
        · exact .inl (ht.closed x hx q hq)
        · exact h.all q (.step (h.reached x hx) hq)

end Adds

namespace ClosesAfter

variable {entries seen order order' : List Path}

theorem unique (h : ClosesAfter g entries seen order) (h' : ClosesAfter g entries seen order') :
    order = order' := by
  induction h generalizing order' with
  | done =>
    cases h'
    rfl
  | skip marked _ ih =>
    cases h' with
    | skip _ more' => exact ih more'
    | take fresh' => exact absurd marked fresh'
  | take fresh inner _ ih =>
    cases h' with
    | skip marked' => exact absurd marked' fresh
    | take _ inner' more' =>
      obtain ⟨rfl, rfl⟩ := inner.unique inner'
      rw [ih more']

/-- An entry that is taken up is marked when its stack is begun. -/
theorem takes_entry {entry : Path} {seen' : List Path}
    (inner : Empties g [entry] (seen ++ [entry]) order seen') :
    Takes g [entry] (seen ++ [entry]) order seen' :=
  inner.takes fun _ hp => List.mem_append_right _ hp

/-- After marks that are closed, the closure of entries adds what the entries reach. -/
theorem adds (h : ClosesAfter g entries seen order) (hseen : Marks g seen) :
    Adds g entries seen order := by
  induction h with
  | done => exact .nil hseen
  | skip marked _ ih => exact .skip hseen marked (ih hseen)
  | take _ inner _ ih =>
    exact .take hseen (takes_entry inner) (ih (Adds.marks hseen (takes_entry inner)))

/-- Nothing is added twice, and nothing that has been seen. -/
theorem nodup (h : ClosesAfter g entries seen order) :
    order.Nodup ∧ ∀ p ∈ order, p ∉ seen := by
  induction h with
  | done => exact ⟨List.nodup_nil, fun p hp => by cases hp⟩
  | skip _ _ ih => exact ih
  | @take entry rest seen seen' order later fresh inner _ ih =>
    obtain ⟨horder, hnew⟩ := inner.nodup (fun p hp => List.mem_append_right _ hp)
      (List.pairwise_singleton _ entry)
    obtain ⟨hlater, hunseen⟩ := ih
    have hmarked : ∀ p, p ∈ seen' ↔ p ∈ seen ∨ p ∈ order :=
      fun p => Adds.mem_marked_iff (takes_entry inner)
    refine ⟨?_, fun p hp hps => ?_⟩
    · rw [List.nodup_append]
      refine ⟨horder, hlater, fun a ha b hb => ?_⟩
      rintro rfl
      exact hunseen a hb ((hmarked a).2 (.inr ha))
    · rcases List.mem_append.1 hp with hp | hp
      · rcases hnew p hp with he | hn
        · exact fresh (List.mem_singleton.1 he ▸ hps)
        · exact hn (List.mem_append_left _ hps)
      · exact hunseen p hp ((hmarked p).2 (.inl hps))

end ClosesAfter

/-- The closure of entries holds what the entries reach, and nothing else. -/
theorem mem_closure_iff {entries : List Path} : p ∈ closure g entries ↔ Reaches g entries p := by
  have hadds : Adds g entries [] (closure g entries) :=
    (closes_closure g entries).adds fun p hp => by cases hp
  exact ⟨hadds.reached p, fun hp => (hadds.all p hp).resolve_left List.not_mem_nil⟩

theorem nodup_closure (g : ModuleGraph) (entries : List Path) : (closure g entries).Nodup :=
  (closes_closure g entries).nodup.1

/-! ## Closures by edges -/

/-- A module is loaded with another one: an edge that leaves the other one and is static or a
re-export ends at it. -/
def LoadedWith (g : ModuleGraph) (p q : Path) : Prop :=
  ∃ e ∈ g.outEdges p, (e.kind = .static ∨ e.kind = .reexport) ∧ e.target = some q

theorem mem_successors_iff_loadedWith :
    q ∈ g.successors followedKinds p ↔ LoadedWith g p q := by
  rw [mem_successors_followedKinds, LoadedWith]
  refine exists_congr fun e => and_congr_right fun _ => and_congr_left' ?_
  cases e.kind <;> simp

theorem reaches_iff {entries : List Path} :
    Reaches g entries p ↔ ∃ entry ∈ entries, Relation.ReflTransGen (LoadedWith g) entry p := by
  constructor
  · intro h
    induction h with
    | entry hp => exact ⟨_, hp, .refl⟩
    | step _ hq ih =>
      obtain ⟨entry, hentry, hp⟩ := ih
      exact ⟨entry, hentry, hp.tail (mem_successors_iff_loadedWith.1 hq)⟩
  · rintro ⟨entry, hentry, hp⟩
    induction hp with
    | refl => exact .entry hentry
    | tail _ hq ih => exact .step ih (mem_successors_iff_loadedWith.2 hq)

/-- The closure of entries is exactly what can be reached from them along static edges and
re-exports that end at a module, the entries included.  The loop that computes it comes to an end on
every graph, with one result, and takes nothing up twice.  So which modules it holds goes by which
entries there are, and not by their order or repetitions, and closures of lists joined hold what
either closure holds. -/
theorem closure_exact (g : ModuleGraph) (entries : List Path) :
    (∀ order, ClosesAfter g entries [] order ↔ order = closure g entries) ∧
    (closure g entries).Nodup ∧
    (∀ p, p ∈ closure g entries ↔
      ∃ entry ∈ entries, Relation.ReflTransGen (LoadedWith g) entry p) ∧
    (∀ entries', (∀ p, p ∈ entries' ↔ p ∈ entries) →
      ∀ p, p ∈ closure g entries' ↔ p ∈ closure g entries) ∧
    ∀ more p, p ∈ closure g (entries ++ more) ↔ p ∈ closure g entries ∨ p ∈ closure g more := by
  refine ⟨fun order => ?_, nodup_closure g entries, fun p => ?_, fun entries' hsame p => ?_,
    fun more p => ?_⟩
  · constructor
    · intro h
      exact h.unique (closes_closure g entries)
    · rintro rfl
      exact closes_closure g entries
  · rw [mem_closure_iff, reaches_iff]
  · simp only [mem_closure_iff, reaches_iff, hsame]
  · simp only [mem_closure_iff, reaches_iff, List.mem_append, or_and_right, exists_or]

/-- An edge of the graph that is static or a re-export leads from one module to another. -/
def EdgeLoads (g : ModuleGraph) (p q : Path) : Prop :=
  ∃ e ∈ g.edges, e.importer = p ∧ (e.kind = .static ∨ e.kind = .reexport) ∧ e.target = some q

/-- Where the edges that leave modules are those of the graph, a closure is what can be reached
along the edges of the graph. -/
theorem mem_closure_iff_edgeLoads (h : ∀ p, g.outEdges p = g.edges.filter (·.importer = p))
    {entries : List Path} :
    p ∈ closure g entries ↔ ∃ entry ∈ entries, Relation.ReflTransGen (EdgeLoads g) entry p := by
  have hloads : LoadedWith g = EdgeLoads g := by
    funext p q
    simp only [LoadedWith, EdgeLoads, h, List.mem_filter, decide_eq_true_eq, and_assoc]
  rw [mem_closure_iff, reaches_iff, hloads]

end BundleReach
