import BundleReach.Proofs.Graph.Closure
import Mathlib.Data.List.Induction
import Mathlib.Data.List.TakeWhile

/-!
# Closures and the depth-first order

The recursive walk lists a module, then what it is loaded with, import by import, each with all that
comes up below it, and passes over what has been listed.  The closure keeps a stack instead and
marks modules when they are put on it.  Both list the same modules, but a mark that is set early
keeps a module back: where an import written ahead leads to a module that is listed later all the
same, the closure has left the order of the walk.

* `DepthFirst` — the walk, with one result on every graph (`DepthFirst.unique`,
  `exists_depthFirst`).
* `nextUp?`, `InTurn` — which module the walk lists next, told from those listed so far.
* `Overtakes` — a module listed ahead of another one whose import comes first.
* `DepthFirst.closure_perm`, `DepthFirst.closure_eq_iff` — the closure against the walk.
-/

namespace BundleReach

variable {g : ModuleGraph} {p q : Path}

/-! ## The walk -/

/-- Walking from modules one after the other, after what has been listed: a module that comes up for
the first time is listed, and what it is loaded with is walked from before going on. -/
inductive DepthFirst (g : ModuleGraph) : List Path → List Path → List Path → Prop where
  | done {listed : List Path} : DepthFirst g [] listed []
  | known {p : Path} {rest listed order : List Path} (old : p ∈ listed)
      (more : DepthFirst g rest listed order) : DepthFirst g (p :: rest) listed order
  | visit {p : Path} {rest listed below later : List Path} (new : p ∉ listed)
      (inner : DepthFirst g (g.successors followedKinds p) (listed ++ [p]) below)
      (more : DepthFirst g rest (listed ++ p :: below) later) :
      DepthFirst g (p :: rest) listed (p :: (below ++ later))

namespace DepthFirst

variable {todo listed order order' : List Path}

theorem unique (h : DepthFirst g todo listed order) (h' : DepthFirst g todo listed order') :
    order = order' := by
  induction h generalizing order' with
  | done =>
    cases h'
    rfl
  | known old _ ih =>
    cases h' with
    | known _ more' => exact ih more'
    | visit new' => exact absurd old new'
  | visit new _ _ ih₁ ih₂ =>
    cases h' with
    | known old' => exact absurd old' new
    | visit _ inner' more' =>
      obtain rfl := ih₁ inner'
      rw [ih₂ more']

/-- Nothing is listed that the modules to walk from do not reach. -/
theorem reached (h : DepthFirst g todo listed order) (hp : p ∈ order) : Reaches g todo p := by
  induction h with
  | done => cases hp
  | known _ _ ih => exact Adds.reaches_cons (ih hp)
  | @visit x rest listed below later _ _ _ ih₁ ih₂ =>
    rcases List.mem_cons.1 hp with rfl | hp
    · exact .entry List.mem_cons_self
    · rcases List.mem_append.1 hp with hp | hp
      · exact (ih₁ hp).trans fun q hq => .step (.entry List.mem_cons_self) hq
      · exact Adds.reaches_cons (ih₂ hp)

/-- In the end the modules to walk from are listed, and with a module what it is loaded with. -/
theorem covers (h : DepthFirst g todo listed order) :
    (∀ p ∈ todo, p ∈ listed ++ order) ∧
      ∀ p ∈ order, ∀ q ∈ g.successors followedKinds p, q ∈ listed ++ order := by
  induction h with
  | done => exact ⟨fun p hp => (by cases hp), fun p hp => (by cases hp)⟩
  | known old _ ih =>
    refine ⟨fun p hp => ?_, ih.2⟩
    rcases List.mem_cons.1 hp with rfl | hp
    · exact List.mem_append_left _ old
    · exact ih.1 p hp
  | @visit x rest listed below later _ _ _ ih₁ ih₂ =>
    have hbelow : ∀ q ∈ listed ++ [x] ++ below, q ∈ listed ++ x :: (below ++ later) := by
      intro q hq
      simp only [List.mem_append, List.mem_cons] at hq ⊢
      tauto
    have hlater : ∀ q ∈ listed ++ x :: below ++ later, q ∈ listed ++ x :: (below ++ later) := by
      intro q hq
      simpa using hq
    refine ⟨fun p hp => ?_, fun p hp q hq => ?_⟩
    · rcases List.mem_cons.1 hp with rfl | hp
      · exact List.mem_append_right _ List.mem_cons_self
      · exact hlater p (ih₂.1 p hp)
    · rcases List.mem_cons.1 hp with rfl | hp
      · exact hbelow q (ih₁.1 q hq)
      · rcases List.mem_append.1 hp with hp | hp
        · exact hbelow q (ih₁.2 p hp q hq)
        · exact hlater q (ih₂.2 p hp q hq)

/-- Nothing is listed twice, and nothing that has been listed. -/
theorem nodup (h : DepthFirst g todo listed order) : order.Nodup ∧ ∀ p ∈ order, p ∉ listed := by
  induction h with
  | done => exact ⟨List.nodup_nil, fun p hp => (by cases hp)⟩
  | known _ _ ih => exact ih
  | @visit x rest listed below later new _ _ ih₁ ih₂ =>
    obtain ⟨hbelow, hfresh⟩ := ih₁
    obtain ⟨hlater, hrest⟩ := ih₂
    have hx : x ∉ below ++ later := by
      intro hx
      rcases List.mem_append.1 hx with hx | hx
      · exact hfresh x hx (List.mem_append_right _ (List.mem_singleton.2 rfl))
      · exact hrest x hx (List.mem_append_right _ List.mem_cons_self)
    refine ⟨List.nodup_cons.2 ⟨hx, List.nodup_append.2 ⟨hbelow, hlater, fun a ha b hb => ?_⟩⟩,
      fun p hp => ?_⟩
    · rintro rfl
      exact hrest a hb (List.mem_append_right _ (List.mem_cons_of_mem x ha))
    · rcases List.mem_cons.1 hp with rfl | hp
      · exact new
      · rcases List.mem_append.1 hp with hp | hp
        · exact fun hl => hfresh p hp (List.mem_append_left _ hl)
        · exact fun hl => hrest p hp (List.mem_append_left _ hl)

/-- The walk from entries lists what they reach. -/
theorem mem_iff_reaches {entries : List Path} (h : DepthFirst g entries [] order) :
    p ∈ order ↔ Reaches g entries p := by
  constructor
  · exact h.reached
  · intro hp
    exact hp.mem_of_closed (s := (· ∈ order)) h.covers.1 h.covers.2

end DepthFirst

/-- Within modules that hold all ends of edges, as many as are not listed bound the depth of a
walk. -/
theorem exists_depthFirst_within {within : List Path} (hg : targets g ⊆ within) {n : Nat}
    {todo listed : List Path} (htodo : todo ⊆ within)
    (hn : (within.filter (· ∉ listed)).length ≤ n) : ∃ order, DepthFirst g todo listed order := by
  -- By the number of modules that are not listed, and for each number by what is to walk from.
  induction n generalizing todo listed with
  | zero =>
    refine ⟨[], ?_⟩
    induction todo with
    | nil => exact .done
    | cons p rest ih =>
      have hnone : within.filter (· ∉ listed) = [] := List.length_eq_zero_iff.1 (by omega)
      have hp : p ∈ listed := by
        simpa using List.filter_eq_nil_iff.1 hnone p (htodo List.mem_cons_self)
      exact .known hp (ih fun q hq => htodo (List.mem_cons_of_mem p hq))
  | succ n ih =>
    induction todo generalizing listed with
    | nil => exact ⟨[], .done⟩
    | cons p rest ihr =>
      have hrest : rest ⊆ within := fun q hq => htodo (List.mem_cons_of_mem p hq)
      by_cases hp : p ∈ listed
      · obtain ⟨order, horder⟩ := ihr hrest hn
        exact ⟨order, .known hp horder⟩
      · have hless : ∀ below, (within.filter (· ∉ listed ++ p :: below)).length ≤ n := by
          intro below
          have hsome : (within.filter (· ∉ listed ++ p :: below)).length ≤
              (within.filter (· ∉ listed ++ [p])).length := by
            refine List.Sublist.length_le (List.monotone_filter_right within fun q hq => ?_)
            simp only [List.mem_append, List.mem_cons, decide_eq_true_eq] at hq ⊢
            tauto
          have hfewer : (within.filter (· ∉ listed ++ [p])).length <
              (within.filter (· ∉ listed)).length := by
            refine length_filter_lt (htodo List.mem_cons_self) (decide_eq_true hp) fun q => ?_
            simp only [decide_eq_true_eq, List.mem_append, List.mem_singleton, not_or, ne_eq]
          omega
        have hsucc : g.successors followedKinds p ⊆ within :=
          fun q hq => hg (mem_targets_of_mem_successors hq)
        obtain ⟨below, hbelow⟩ := ih hsucc (hless [])
        obtain ⟨later, hlater⟩ := ih hrest (hless below)
        exact ⟨_, .visit hp hbelow hlater⟩

/-- The walk comes to an end on every graph. -/
theorem exists_depthFirst (g : ModuleGraph) (entries : List Path) :
    ∃ order, DepthFirst g entries [] order :=
  exists_depthFirst_within (List.subset_append_left (targets g) entries)
    (List.subset_append_right (targets g) entries) (Nat.le_refl _)

/-- The closure lists what the walk lists, in some order. -/
theorem DepthFirst.closure_perm {entries order : List Path} (h : DepthFirst g entries [] order) :
    (closure g entries).Perm order := by
  refine (List.perm_ext_iff_of_nodup (nodup_closure g entries) h.nodup.1).2 fun p => ?_
  rw [mem_closure_iff, h.mem_iff_reaches]

/-! ## The next module -/

/-- What the modules listed are loaded with, from the last one back. -/
def upcoming (g : ModuleGraph) (listed : List Path) : List Path :=
  listed.reverse.flatMap (g.successors followedKinds)

theorem upcoming_concat (listed : List Path) (p : Path) :
    upcoming g (listed ++ [p]) = g.successors followedKinds p ++ upcoming g listed := by
  rw [upcoming, List.reverse_append, List.reverse_singleton, List.flatMap_append,
    List.flatMap_singleton, upcoming]

theorem mem_upcoming {listed : List Path} :
    q ∈ upcoming g listed ↔ ∃ p ∈ listed, q ∈ g.successors followedKinds p := by
  simp only [upcoming, List.mem_flatMap, List.mem_reverse]

/-- The module that a walk lists next: of what the last module listed is loaded with the first that
is not listed, or else of what the one before it is loaded with, and so on, the entries last. -/
def nextUp? (g : ModuleGraph) (entries listed : List Path) : Option Path :=
  (upcoming g listed ++ entries).find? (· ∉ listed)

/-- Modules are listed in turn, after what has been listed: each when it is next. -/
def InTurn (g : ModuleGraph) (entries listed order : List Path) : Prop :=
  ∀ before p after, order = before ++ p :: after → nextUp? g entries (listed ++ before) = some p

namespace InTurn

variable {entries listed order order' : List Path}

theorem nil : InTurn g entries listed [] := by
  intro before p after h
  simp at h

theorem cons (hp : nextUp? g entries listed = some p)
    (h : InTurn g entries (listed ++ [p]) order) : InTurn g entries listed (p :: order) := by
  intro before q after hsplit
  cases before with
  | nil =>
    rw [List.append_nil, hp, (List.cons.inj hsplit).1]
  | cons x before =>
    obtain ⟨rfl, hrest⟩ := List.cons.inj hsplit
    rw [← h before q after hrest, List.append_assoc, List.singleton_append]

theorem head (h : InTurn g entries listed (p :: order)) : nextUp? g entries listed = some p := by
  have hp := h [] p order rfl
  rwa [List.append_nil] at hp

theorem tail (h : InTurn g entries listed (p :: order)) :
    InTurn g entries (listed ++ [p]) order := by
  intro before q after hsplit
  have hq := h (p :: before) q after (congrArg (p :: ·) hsplit)
  rwa [List.append_assoc, List.singleton_append]

theorem append (h : InTurn g entries listed order)
    (h' : InTurn g entries (listed ++ order) order') :
    InTurn g entries listed (order ++ order') := by
  induction order generalizing listed with
  | nil => rwa [List.append_nil] at h'
  | cons p order ih =>
    refine cons h.head (ih h.tail ?_)
    rwa [List.append_assoc, List.singleton_append]

/-- Going in turn until nothing is next lists the same, whoever does it. -/
theorem unique (h : InTurn g entries listed order) (h' : InTurn g entries listed order')
    (hend : nextUp? g entries (listed ++ order) = none)
    (hend' : nextUp? g entries (listed ++ order') = none) : order = order' := by
  induction order generalizing listed order' with
  | nil =>
    cases order' with
    | nil => rfl
    | cons p' order' =>
      rw [List.append_nil, h'.head] at hend
      cases hend
  | cons p order ih =>
    cases order' with
    | nil =>
      rw [List.append_nil, h.head] at hend'
      cases hend'
    | cons p' order' =>
      obtain rfl := Option.some.inj (h.head.symm.trans h'.head)
      have happend : ∀ rest, listed ++ [p] ++ rest = listed ++ p :: rest := fun rest => by simp
      rw [ih h.tail h'.tail (by rwa [happend]) (by rwa [happend])]

end InTurn

/-! ## The walk goes in turn -/

/-- What is left of modules when one more is listed. -/
theorem filter_not_mem_concat (listed todo : List Path) (p : Path) :
    todo.filter (· ∉ listed ++ [p]) = (todo.filter (· ∉ listed)).filter (· ≠ p) := by
  rw [List.filter_filter]
  refine List.filter_congr fun q _ => ?_
  rw [Bool.eq_iff_iff]
  simp only [List.mem_append, List.mem_singleton, not_or, decide_eq_true_eq, Bool.and_eq_true]
  exact and_comm

/-- Where the next modules are those to walk from and then others, the walk goes in turn and leaves
the others next. -/
theorem DepthFirst.inTurn {entries todo listed order others : List Path}
    (h : DepthFirst g todo listed order)
    (hnext : (upcoming g listed ++ entries).filter (· ∉ listed) =
      (todo ++ others).filter (· ∉ listed)) :
    InTurn g entries listed order ∧
      (upcoming g (listed ++ order) ++ entries).filter (· ∉ listed ++ order) =
        others.filter (· ∉ listed ++ order) := by
  induction h generalizing others with
  | done => exact ⟨.nil, by simpa using hnext⟩
  | @known p rest listed order old _ ih =>
    refine ih ?_
    rw [hnext, List.cons_append, List.filter_cons_of_neg (by simpa using old)]
  | @visit p rest listed below later new _ _ ih₁ ih₂ =>
    have hhead : nextUp? g entries listed = some p := by
      rw [nextUp?, ← List.head?_filter, hnext, List.cons_append,
        List.filter_cons_of_pos (by simpa using new), List.head?_cons]
    -- Below the module, what was still to walk from is among the others.
    have hinner : (upcoming g (listed ++ [p]) ++ entries).filter (· ∉ listed ++ [p]) =
        (g.successors followedKinds p ++ (rest ++ others)).filter (· ∉ listed ++ [p]) := by
      have hothers : (upcoming g listed ++ entries).filter (· ∉ listed ++ [p]) =
          (rest ++ others).filter (· ∉ listed ++ [p]) := by
        rw [filter_not_mem_concat, hnext, ← filter_not_mem_concat, List.cons_append,
          List.filter_cons_of_neg (by simp)]
      rw [upcoming_concat, List.append_assoc, List.filter_append (g.successors followedKinds p),
        hothers, List.filter_append (g.successors followedKinds p)]
    obtain ⟨hbelow, hrest⟩ := ih₁ hinner
    have happend : listed ++ [p] ++ below = listed ++ p :: below := by simp
    rw [happend] at hrest
    obtain ⟨hlater, hothers⟩ := ih₂ hrest
    refine ⟨.cons hhead (hbelow.append (by rwa [happend])), ?_⟩
    have hall : listed ++ p :: below ++ later = listed ++ p :: (below ++ later) := by simp
    rwa [hall] at hothers

/-- The walk from entries lists each module when it is next, until none is. -/
theorem DepthFirst.inTurn_entries {entries order : List Path}
    (h : DepthFirst g entries [] order) :
    InTurn g entries [] order ∧ nextUp? g entries order = none := by
  have hstart : (upcoming g [] ++ entries).filter (· ∉ ([] : List Path)) =
      (entries ++ []).filter (· ∉ ([] : List Path)) := by
    simp [upcoming]
  obtain ⟨hturn, hend⟩ := h.inTurn hstart
  refine ⟨hturn, ?_⟩
  rw [nextUp?, ← List.head?_filter, List.head?_eq_none_iff]
  simpa using hend

/-! ## What the closure lists next -/

/-- Where a closure may go on after what has been listed: at what some module listed is loaded with,
or, when all of that is listed, at the first entry that is not. -/
structure AtEntry (g : ModuleGraph) (entries listed : List Path) (t : Path) : Prop where
  closed : Marks g listed
  mem : t ∈ entries
  earlier : ∀ s ∈ entries.takeWhile (· ≠ t), s ∈ listed

theorem AtEntry.of_mem_iff {entries listed listed' : List Path} {t : Path}
    (h : AtEntry g entries listed t) (hsame : ∀ p, p ∈ listed ↔ p ∈ listed') :
    AtEntry g entries listed' t where
  closed p hp q hq := (hsame q).1 (h.closed p ((hsame p).2 hp) q hq)
  mem := h.mem
  earlier s hs := (hsame s).1 (h.earlier s hs)

/-- An entry that is listed is none to go on at. -/
theorem AtEntry.cons {entry t : Path} {rest listed : List Path} (h : AtEntry g rest listed t)
    (hentry : entry ∈ listed) : AtEntry g (entry :: rest) listed t where
  closed := h.closed
  mem := List.mem_cons_of_mem entry h.mem
  earlier s hs := by
    rw [List.takeWhile_cons] at hs
    split at hs
    · rcases List.mem_cons.1 hs with rfl | hs
      · exact hentry
      · exact h.earlier s hs
    · cases hs

/-- An item of two lists joined is one of the first or one of the second. -/
theorem split_append {α : Type} {as bs before after : List α} {a : α}
    (h : as ++ bs = before ++ a :: after) :
    (∃ more, as = before ++ a :: more) ∨ ∃ rest, before = as ++ rest ∧ bs = rest ++ a :: after := by
  rcases List.append_eq_append_iff.1 h with ⟨rest, hbefore, hbs⟩ | ⟨more, has, hmore⟩
  · exact .inr ⟨rest, hbefore, hbs⟩
  · cases more with
    | nil => exact .inr ⟨[], by simpa using has.symm, hmore.symm⟩
    | cons x more =>
      obtain ⟨rfl, -⟩ := List.cons.inj hmore
      exact .inl ⟨more, has⟩

/-- From a stack, a module is taken up that was on it, or that one taken up before is loaded
with. -/
theorem Empties.led {stack seen order seen' before after : List Path} {t : Path}
    (h : Empties g stack seen order seen') (hsplit : order = before ++ t :: after) :
    t ∈ stack ∨ t ∈ upcoming g before := by
  induction h generalizing before with
  | done => simp at hsplit
  | @turn p stack seen order seen' _ ih =>
    cases before with
    | nil =>
      obtain ⟨rfl, -⟩ := List.cons.inj hsplit
      exact .inl List.mem_cons_self
    | cons x before =>
      obtain ⟨rfl, hrest⟩ := List.cons.inj hsplit
      rcases ih hrest with ht | ht
      · rcases List.mem_append.1 ht with ht | ht
        · exact .inr (mem_upcoming.2 ⟨p, List.mem_cons_self, (mem_freshSuccessors.1 ht).1⟩)
        · exact .inl (List.mem_cons_of_mem p ht)
      · obtain ⟨q, hq, ht⟩ := mem_upcoming.1 ht
        exact .inr (mem_upcoming.2 ⟨q, List.mem_cons_of_mem p hq, ht⟩)

/-- A closure goes on at what a module listed is loaded with, or at an entry. -/
theorem ClosesAfter.led {entries seen order before after : List Path} {t : Path}
    (h : ClosesAfter g entries seen order) (hseen : Marks g seen)
    (hsplit : order = before ++ t :: after) :
    t ∈ upcoming g before ∨ AtEntry g entries (seen ++ before) t := by
  induction h generalizing before with
  | done => simp at hsplit
  | skip marked _ ih =>
    exact (ih hseen hsplit).imp_right fun ht => ht.cons (List.mem_append_left _ marked)
  | @take entry rest seen seen' order later fresh inner _ ih =>
    have hmarked : ∀ p, p ∈ seen' ↔ p ∈ seen ∨ p ∈ order :=
      fun p => Adds.mem_marked_iff (takes_entry inner)
    rcases split_append hsplit with ⟨more, horder⟩ | ⟨before', rfl, hlater⟩
    · cases before with
      | nil =>
        -- Only the entry itself is on the stack to begin with.
        cases inner with
        | turn =>
          obtain ⟨rfl, -⟩ := List.cons.inj horder
          exact .inr ⟨by simpa using hseen, List.mem_cons_self, fun s hs => by simp at hs⟩
      | cons x before =>
        cases inner with
        | turn more =>
          obtain ⟨rfl, hrest⟩ := List.cons.inj horder
          refine .inl (mem_upcoming.2 ?_)
          rcases more.led hrest with ht | ht
          · rw [List.append_nil] at ht
            exact ⟨entry, List.mem_cons_self, (mem_freshSuccessors.1 ht).1⟩
          · obtain ⟨q, hq, ht⟩ := mem_upcoming.1 ht
            exact ⟨q, List.mem_cons_of_mem entry hq, ht⟩
    · refine (ih (Adds.marks hseen (takes_entry inner)) hlater).imp (fun ht => ?_) fun ht => ?_
      · obtain ⟨q, hq, ht⟩ := mem_upcoming.1 ht
        exact mem_upcoming.2 ⟨q, List.mem_append_right _ hq, ht⟩
      · have hentry : entry ∈ seen ++ (order ++ before') :=
          List.mem_append_right _ (List.mem_append_left _
            ((takes_entry inner).stack_subset entry (List.mem_singleton.2 rfl)))
        refine (ht.of_mem_iff fun p => ?_).cons hentry
        rw [List.mem_append, List.mem_append, List.mem_append, hmarked, or_assoc]

theorem mem_closure_of_mem_upcoming {entries listed : List Path}
    (hlisted : ∀ p ∈ listed, p ∈ closure g entries) (hq : q ∈ upcoming g listed) :
    q ∈ closure g entries := by
  obtain ⟨p, hp, hq⟩ := mem_upcoming.1 hq
  exact mem_closure_iff.2 (.step (mem_closure_iff.1 (hlisted p hp)) hq)

/-- After a closure nothing is next. -/
theorem nextUp?_closure (g : ModuleGraph) (entries : List Path) :
    nextUp? g entries (closure g entries) = none := by
  rw [nextUp?, List.find?_eq_none]
  intro q hq
  have hlisted : q ∈ closure g entries := by
    rcases List.mem_append.1 hq with hq | hq
    · exact mem_closure_of_mem_upcoming (fun p hp => hp) hq
    · exact mem_closure_iff.2 (.entry hq)
  simpa using hlisted

/-! ## Modules that are overtaken -/

/-- What comes ahead of an item in two lists joined comes ahead of it in the first, or in the second
where the first does not hold the item. -/
theorem mem_takeWhile_ne_append {α : Type} [DecidableEq α] {as bs : List α} {s t : α} :
    s ∈ (as ++ bs).takeWhile (· ≠ t) ↔
      s ∈ as.takeWhile (· ≠ t) ∨ t ∉ as ∧ s ∈ bs.takeWhile (· ≠ t) := by
  induction as with
  | nil => simp
  | cons a as ih =>
    by_cases ha : a = t
    · simp [ha]
    · rw [List.cons_append, List.takeWhile_cons_of_pos (by simpa using ha),
        List.takeWhile_cons_of_pos (by simpa using ha), List.mem_cons, List.mem_cons, ih,
        List.mem_cons, not_or, or_assoc, and_iff_right (Ne.symm ha)]

/-- The first item that is not listed, told by what comes ahead of it. -/
theorem find?_not_mem_eq_some_iff {α : Type} [DecidableEq α] {as listed : List α} {t : α} :
    as.find? (· ∉ listed) = some t ↔
      t ∉ listed ∧ t ∈ as ∧ ∀ s ∈ as.takeWhile (· ≠ t), s ∈ listed := by
  induction as with
  | nil => simp
  | cons a as ih =>
    by_cases ha : a ∈ listed
    · rw [List.find?_cons_of_neg (by simpa using ha), ih]
      refine and_congr_right fun ht => ?_
      have hat : a ≠ t := fun e => ht (e ▸ ha)
      rw [List.takeWhile_cons_of_pos (by simpa using hat), List.mem_cons, List.forall_mem_cons,
        or_iff_right (Ne.symm hat), and_iff_right ha]
    · rw [List.find?_cons_of_pos (by simpa using ha), Option.some_inj]
      constructor
      · rintro rfl
        exact ⟨ha, List.mem_cons_self, fun s hs => by simp at hs⟩
      · rintro ⟨-, -, hlisted⟩
        by_contra hat
        rw [List.takeWhile_cons_of_pos (by simpa using hat)] at hlisted
        exact ha (hlisted a List.mem_cons_self)

/-- What comes ahead of a module among what is upcoming: what some module listed is loaded with
ahead of it, where none listed after that one is loaded with it. -/
theorem mem_takeWhile_upcoming {listed : List Path} {s t : Path} :
    s ∈ (upcoming g listed).takeWhile (· ≠ t) ↔ ∃ before q between,
      listed = before ++ q :: between ∧
        s ∈ (g.successors followedKinds q).takeWhile (· ≠ t) ∧
        ∀ p ∈ between, t ∉ g.successors followedKinds p := by
  induction listed using List.reverseRecOn with
  | nil => simp [upcoming]
  | append_singleton listed p ih =>
    rw [upcoming_concat, mem_takeWhile_ne_append, ih]
    constructor
    · rintro (hs | ⟨ht, before, q, between, rfl, hs, hbetween⟩)
      · exact ⟨listed, p, [], rfl, hs, fun x hx => by cases hx⟩
      · refine ⟨before, q, between ++ [p], by simp, hs, fun x hx => ?_⟩
        rcases List.mem_append.1 hx with hx | hx
        · exact hbetween x hx
        · rwa [List.mem_singleton.1 hx]
    · rintro ⟨before, q, between, hsplit, hs, hbetween⟩
      rcases List.eq_nil_or_concat' between with rfl | ⟨between, x, rfl⟩
      · obtain ⟨rfl, hpq⟩ := List.append_inj' hsplit rfl
        obtain rfl := List.singleton_inj.1 hpq
        exact .inl hs
      · rw [← List.cons_append, ← List.append_assoc] at hsplit
        obtain ⟨rfl, hpx⟩ := List.append_inj' hsplit rfl
        obtain rfl := List.singleton_inj.1 hpx
        have hp : t ∉ g.successors followedKinds p :=
          hbetween p (List.mem_append_right _ (List.mem_singleton.2 rfl))
        exact .inr ⟨hp, before, q, between, rfl, hs,
          fun x hx => hbetween x (List.mem_append_left _ hx)⟩

/-- In an order, a module overtakes another one: some module listed ahead of both imports the other
one first, none listed in between imports the module that overtakes, and the other one is listed
after it all the same. -/
def Overtakes (g : ModuleGraph) (order : List Path) (t s : Path) : Prop :=
  ∃ before q between after, order = before ++ q :: (between ++ t :: after) ∧ s ∈ after ∧
    s ∈ (g.successors followedKinds q).takeWhile (· ≠ t) ∧
    ∀ p ∈ between, t ∉ g.successors followedKinds p

/-- The closure goes in turn where no module overtakes another one. -/
theorem inTurn_closure_iff {entries : List Path} :
    InTurn g entries [] (closure g entries) ↔ ∀ t s, ¬ Overtakes g (closure g entries) t s := by
  have hnodup := nodup_closure g entries
  constructor
  · rintro hturn t s ⟨before, q, between, after, hsplit, hs, hahead, hbetween⟩
    rw [← List.cons_append, ← List.append_assoc] at hsplit
    have hnext := hturn _ t after hsplit
    obtain ⟨-, -, hlisted⟩ := find?_not_mem_eq_some_iff.1 hnext
    have hs' := hlisted s (mem_takeWhile_ne_append.2
      (.inl (mem_takeWhile_upcoming.2 ⟨before, q, between, rfl, hahead, hbetween⟩)))
    rw [hsplit] at hnodup
    exact (List.nodup_append.1 hnodup).2.2 s hs' s (List.mem_cons_of_mem t hs) rfl
  · intro hnone before t after hsplit
    rw [List.nil_append]
    have ht : t ∉ before := by
      rw [hsplit] at hnodup
      exact fun hb => (List.nodup_append.1 hnodup).2.2 t hb t List.mem_cons_self rfl
    refine find?_not_mem_eq_some_iff.2 ⟨ht, ?_⟩
    rcases (closes_closure g entries).led (fun p hp => by cases hp) hsplit with hup | hentry
    · refine ⟨List.mem_append_left _ hup, fun s hs => ?_⟩
      have hahead := (mem_takeWhile_ne_append.1 hs).resolve_right fun h => h.1 hup
      have hst : s ≠ t := by simpa using List.mem_takeWhile_imp hahead
      have hmem : s ∈ closure g entries := by
        refine mem_closure_of_mem_upcoming (fun p hp => ?_) (List.takeWhile_subset _ hahead)
        rw [hsplit]
        exact List.mem_append_left _ hp
      obtain ⟨x, q, between, rfl, hahead, hbetween⟩ := mem_takeWhile_upcoming.1 hahead
      -- A module still to come would be overtaken.
      by_contra hs
      rw [hsplit, List.mem_append, or_iff_right hs, List.mem_cons, or_iff_right hst] at hmem
      refine hnone t s ⟨x, q, between, after, ?_, hmem, hahead, hbetween⟩
      rw [hsplit, List.append_assoc, List.cons_append]
    · rw [List.nil_append] at hentry
      refine ⟨List.mem_append_right _ hentry.mem, fun s hs => ?_⟩
      rcases mem_takeWhile_ne_append.1 hs with hs | ⟨-, hs⟩
      · obtain ⟨p, hp, hq⟩ := mem_upcoming.1 (List.takeWhile_subset _ hs)
        exact hentry.closed p hp s hq
      · exact hentry.earlier s hs

/-- The closure has the order of the walk exactly where no module overtakes another one in it. -/
theorem DepthFirst.closure_eq_iff {entries order : List Path}
    (h : DepthFirst g entries [] order) :
    closure g entries = order ↔ ∀ t s, ¬ Overtakes g (closure g entries) t s := by
  obtain ⟨hturn, hend⟩ := h.inTurn_entries
  rw [← inTurn_closure_iff]
  constructor
  · intro heq
    rwa [heq]
  · intro hclosure
    exact hclosure.unique hturn (nextUp?_closure g entries) hend

end BundleReach
