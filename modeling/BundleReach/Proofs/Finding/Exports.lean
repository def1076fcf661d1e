import BundleReach.Finding.Rules
import Mathlib.Logic.Relation

/-!
# Names offered along chains and rounds

Modules that offer each other on may form rounds of any shape, and answers are remembered from one
question to the next.  Neither can be told from the answers.

* `IsStar`, `KnownNames` — what is read off an edge and off the facts of a module; what the search
  follows and looks up is told by these (`mem_starEdges_iff`, `ownNames?_eq_some_iff`).
* `Offers` — the least way to say which names modules offer; `offers_iff` spells it out.
* `Unknowable` — somewhere along the chains from a module the names are not known.
* `askNames_spec` — what an answer is worth that is given while other modules are being asked: it
  holds all names along chains that avoid those modules, and no others than are offered.
* `Sound`, `memoryAfter_sound` — whatever is asked, only exact answers are remembered.
* `answers_do_not_depend_on_memory` — so each question has one answer, asked first or last.
-/

namespace BundleReach

variable {g : ModuleGraph} {p q x : Path} {n : String}

/-! ## What modules offer -/

/-- An import offers a module on as a whole: it is a re-export, and of all names. -/
def IsStar (e : ImportEdge) : Prop := e.kind = .reexport ∧ e.names = ["*"]

/-- A module offers another one on as a whole. -/
def StarStep (g : ModuleGraph) (p q : Path) : Prop :=
  ∃ e ∈ g.outEdges p, IsStar e ∧ e.target = some q

/-- Names are those that a module is known to have by itself: its facts say so. -/
def KnownNames (g : ModuleGraph) (p : Path) (names : List String) : Prop :=
  ∃ m facts, Table.find? p g.modules = some m ∧ m.facts = some facts ∧
    facts.exports = .known names

/-- A chain of modules leads from one to another, each offering the next one on as a whole. -/
def StarReaches (g : ModuleGraph) : Path → Path → Prop := Relation.ReflTransGen (StarStep g)

/-- A name is one of a module's own. -/
def Owns (g : ModuleGraph) (p : Path) (n : String) : Prop := ∃ own, KnownNames g p own ∧ n ∈ own

/-- The names that modules offer: their own, and all but the default of what they offer on. -/
inductive Offers (g : ModuleGraph) : Path → String → Prop where
  | own {p : Path} {n : String} : Owns g p n → Offers g p n
  | through {p q : Path} {n : String} : StarStep g p q → Offers g q n → n ≠ "default" →
      Offers g p n

/-- The names of a module are not known by itself: there is no such module, or its own names are not
known, or it offers on what is nowhere. -/
def Unknown (g : ModuleGraph) (p : Path) : Prop :=
  (¬ ∃ own, KnownNames g p own) ∨ ∃ e ∈ g.outEdges p, IsStar e ∧ e.target = none

/-- Along a chain from a module there is one whose names are not known. -/
def Unknowable (g : ModuleGraph) (p : Path) : Prop := ∃ q, StarReaches g p q ∧ Unknown g q

theorem ownNames?_eq_some_iff {own : List String} :
    ownNames? g p = some own ↔ KnownNames g p own := by
  constructor
  · intro h
    obtain ⟨m, hm, h⟩ := Option.bind_eq_some_iff.1 h
    obtain ⟨facts, hfacts, h⟩ := Option.bind_eq_some_iff.1 h
    refine ⟨m, facts, hm, hfacts, ?_⟩
    rw [ModuleFacts.knownExports?] at h
    split at h
    · rename_i names hnames
      rw [hnames, Option.some.inj h]
    · cases h
  · rintro ⟨m, facts, hm, hfacts, hnames⟩
    simp [ownNames?, hm, hfacts, ModuleFacts.knownExports?, hnames]

theorem ownNames?_eq_none_iff : ownNames? g p = none ↔ ¬ ∃ own, KnownNames g p own := by
  simp only [← ownNames?_eq_some_iff, not_exists, Option.eq_none_iff_forall_ne_some, ne_eq]

theorem KnownNames.unique {own own' : List String} (h : KnownNames g p own)
    (h' : KnownNames g p own') : own = own' :=
  Option.some.inj ((ownNames?_eq_some_iff.2 h).symm.trans (ownNames?_eq_some_iff.2 h'))

/-- The edges that are followed are those by which modules are offered on as a whole. -/
theorem mem_starEdges_iff {e : ImportEdge} : e ∈ starEdges g p ↔ e ∈ g.outEdges p ∧ IsStar e := by
  rw [starEdges, List.mem_filter, decide_eq_true_eq, IsStar]

theorem Offers.of_chain (h : StarReaches g p q) (ho : Owns g q n) (hn : n ≠ "default") :
    Offers g p n := by
  induction h using Relation.ReflTransGen.head_induction_on with
  | refl => exact .own ho
  | head hstep _ ih => exact .through hstep ih hn

/-- A module offers its own names, and all others but the default that a module owns to which a
chain leads. -/
theorem offers_iff :
    Offers g p n ↔ Owns g p n ∨ n ≠ "default" ∧ ∃ q, StarReaches g p q ∧ Owns g q n := by
  constructor
  · intro h
    induction h with
    | own ho => exact .inl ho
    | @through p q n hstep _ hn ih =>
      refine .inr ⟨hn, ?_⟩
      rcases ih with ho | ⟨-, x, hx, ho⟩
      · exact ⟨q, .single hstep, ho⟩
      · exact ⟨x, .head hstep hx, ho⟩
  · rintro (ho | ⟨hn, q, hq, ho⟩)
    · exact .own ho
    · exact .of_chain hq ho hn

theorem Unknowable.of_unknown (h : Unknown g p) : Unknowable g p := ⟨p, .refl, h⟩

theorem Unknowable.through (hstep : StarStep g p q) (h : Unknowable g q) : Unknowable g p := by
  obtain ⟨x, hx, hu⟩ := h
  exact ⟨x, .head hstep hx, hu⟩

/-! ## Chains that avoid modules -/

/-- A chain leads from one module to another and passes through none of some modules. -/
inductive StarAvoids (g : ModuleGraph) (visiting : List Path) : Path → Path → Prop where
  | here {p : Path} : p ∉ visiting → StarAvoids g visiting p p
  | step {p q x : Path} : p ∉ visiting → StarStep g p q → StarAvoids g visiting q x →
      StarAvoids g visiting p x

namespace StarAvoids

variable {visiting : List Path}

theorem not_mem (h : StarAvoids g visiting p q) : p ∉ visiting := by
  cases h with
  | here hp => exact hp
  | step hp => exact hp

theorem not_end_mem (h : StarAvoids g visiting p q) : q ∉ visiting := by
  induction h with
  | here hp => exact hp
  | step _ _ _ ih => exact ih

theorem of_starReaches (h : StarReaches g p q) : StarAvoids g [] p q := by
  induction h using Relation.ReflTransGen.head_induction_on with
  | refl => exact .here List.not_mem_nil
  | head hstep _ ih => exact .step List.not_mem_nil hstep ih

/-- A chain passes through a module or avoids it.  What follows the last time avoids it too. -/
theorem avoids_or (h : StarAvoids g visiting q x) (p : Path) :
    StarAvoids g (p :: visiting) q x ∨ x = p ∨
      ∃ q', StarStep g p q' ∧ StarAvoids g (p :: visiting) q' x := by
  induction h with
  | @here y hy =>
    by_cases hyp : y = p
    · exact .inr (.inl hyp)
    · exact .inl (.here (by simp [hyp, hy]))
  | @step y z x hy hstep _ ih =>
    rcases ih with hz | hlast
    · by_cases hyp : y = p
      · exact .inr (.inr ⟨z, hyp ▸ hstep, hz⟩)
      · exact .inl (.step (by simp [hyp, hy]) hstep hz)
    · exact .inr hlast

/-- A chain that leads on from a module need not come back to it. -/
theorem first_step (h : StarAvoids g visiting p x) :
    x = p ∨ ∃ q, StarStep g p q ∧ StarAvoids g (p :: visiting) q x := by
  rcases h.avoids_or p with h | h
  · exact absurd List.mem_cons_self h.not_mem
  · exact h

end StarAvoids

/-! ## What answers are worth -/

/-- An answer for a module given while others are being asked.  If it is names, all is known along
the chains that avoid those, and the names along them are there; if not, something is not known. -/
def Answers (g : ModuleGraph) (visiting : List Path) (p : Path) :
    Option (List String) → Prop
  | none => Unknowable g p
  | some names =>
    (∀ x, StarAvoids g visiting p x →
      ¬ Unknown g x ∧ ∀ n, Owns g x n → x = p ∨ n ≠ "default" → n ∈ names) ∧
    ∀ n ∈ names, Offers g p n

/-- An answer for a module is exact: the names that it offers, if all of them are known. -/
def Exact (g : ModuleGraph) (p : Path) : Option (List String) → Prop
  | none => Unknowable g p
  | some names => ¬ Unknowable g p ∧ ∀ n, n ∈ names ↔ Offers g p n

theorem Exact.answers {answer : Option (List String)} (h : Exact g p answer)
    (visiting : List Path) : Answers g visiting p answer := by
  have reaches : ∀ {q x}, StarAvoids g visiting q x → StarReaches g q x := by
    intro q x hx
    induction hx with
    | here => exact .refl
    | step _ hstep _ ih => exact .head hstep ih
  cases answer with
  | none => exact h
  | some names =>
    obtain ⟨hknown, hnames⟩ := h
    refine ⟨fun x hx => ⟨fun hu => hknown ⟨x, reaches hx, hu⟩, fun n ho hn => ?_⟩,
      fun n hn => (hnames n).1 hn⟩
    refine (hnames n).2 (offers_iff.2 ?_)
    rcases hn with rfl | hn
    · exact .inl ho
    · exact .inr ⟨hn, x, reaches hx, ho⟩

/-- An answer given while nothing else is being asked is exact. -/
theorem Answers.exact {answer : Option (List String)} (h : Answers g [] p answer) :
    Exact g p answer := by
  cases answer with
  | none => exact h
  | some names =>
    obtain ⟨hall, honly⟩ := h
    refine ⟨?_, fun n => ⟨honly n, fun ho => ?_⟩⟩
    · rintro ⟨x, hx, hu⟩
      exact (hall x (.of_starReaches hx)).1 hu
    · rcases offers_iff.1 ho with ho | ⟨hn, x, hx, ho⟩
      · exact (hall p (.of_starReaches .refl)).2 n ho (.inl rfl)
      · exact (hall x (.of_starReaches hx)).2 n ho (.inr hn)

/-- Only exact answers are remembered. -/
def Sound (g : ModuleGraph) (memory : NameMemory) : Prop :=
  ∀ p answer, Table.find? p memory = some answer → Exact g p answer

theorem Sound.nil : Sound g [] := fun p answer h => by cases h

theorem Sound.put {memory : NameMemory} {answer : Option (List String)} (h : Sound g memory)
    (ha : Exact g p answer) : Sound g (Table.put p answer memory) := by
  intro q answer' hf
  by_cases hq : q = p
  · subst hq
    rw [Table.find?_put_self] at hf
    exact Option.some.inj hf ▸ ha
  · rw [Table.find?_put_of_ne hq] at hf
    exact h q answer' hf

/-! ## Asking -/

section

variable {visiting : List Path} {memory : NameMemory}

theorem askNames_of_find? {answer : Option (List String)} (h : Table.find? p memory = some answer) :
    askNames g visiting p memory = (answer, memory) := by
  rw [askNames, h]

theorem askNames_of_mem (h : Table.find? p memory = none) (hv : p ∈ visiting) :
    askNames g visiting p memory = (some [], memory) := by
  rw [askNames, h]
  simp only [dif_pos hv]

theorem askNames_of_ownNames?_none (h : Table.find? p memory = none) (hv : p ∉ visiting)
    (ho : ownNames? g p = none) : askNames g visiting p memory = (none, memory) := by
  rw [askNames, h]
  simp only [dif_neg hv]
  split
  · rfl
  · rename_i ho'
    rw [ho] at ho'
    cases ho'

/-- What asking a module whose own names are known comes to, and whether it is remembered. -/
theorem askNames_of_ownNames? {own : List String} (h : Table.find? p memory = none)
    (hv : p ∉ visiting) (ho : ownNames? g p = some own) :
    ∃ answer memory', namesThrough g (p :: visiting) (starEdges g p)
        (own.foldl (fun names n => joinOnce n names) []) memory = (answer, memory') ∧
      askNames g visiting p memory = (answer,
        if visiting.isEmpty || answer.isNone then Table.put p answer memory' else memory') := by
  refine ⟨_, _, rfl, ?_⟩
  rw [askNames, h]
  simp only [dif_neg hv]
  split
  · rename_i ho'
    rw [ho] at ho'
    cases ho'
  · rename_i own' ho'
    rw [ho] at ho'
    cases ho'
    rfl

end

theorem mem_mergeNames {names inner : List String} :
    n ∈ mergeNames names inner ↔ n ∈ names ∨ n ∈ inner ∧ n ≠ "default" := by
  rw [mergeNames, mem_foldl_joinOnce, List.mem_filter, bne_iff_ne]

theorem namesThrough_of_no_target {visiting : List Path} {e : ImportEdge} (h : e.target = none)
    (rest : List ImportEdge) (names : List String) (memory : NameMemory) :
    namesThrough g visiting (e :: rest) names memory = (none, memory) := by
  rw [namesThrough, h]

theorem namesThrough_of_no_answer {visiting : List Path} {e : ImportEdge}
    (h : e.target = some q) {memory memory' : NameMemory}
    (ha : askNames g visiting q memory = (none, memory')) (rest : List ImportEdge)
    (names : List String) :
    namesThrough g visiting (e :: rest) names memory = (none, memory') := by
  rw [namesThrough, h]
  simp only [ha]

theorem namesThrough_of_answer {visiting : List Path} {e : ImportEdge} (h : e.target = some q)
    {memory memory' : NameMemory} {inner : List String}
    (ha : askNames g visiting q memory = (some inner, memory')) (rest : List ImportEdge)
    (names : List String) :
    namesThrough g visiting (e :: rest) names memory =
      namesThrough g visiting rest (mergeNames names inner) memory' := by
  rw [namesThrough, h]
  simp only [ha]

/-- What following edges is worth while other modules are being asked, names having been found
before. -/
def Gathers (g : ModuleGraph) (visiting : List Path) (edges : List ImportEdge)
    (names : List String) : Option (List String) → Prop
  | none => ∃ e ∈ edges, e.target = none ∨ ∃ q, e.target = some q ∧ Unknowable g q
  | some all =>
    (∀ e ∈ edges, ∃ q, e.target = some q ∧ ∀ x, StarAvoids g visiting q x →
      ¬ Unknown g x ∧ ∀ n, Owns g x n → n ≠ "default" → n ∈ all) ∧
    (∀ n ∈ names, n ∈ all) ∧
    ∀ n ∈ all, n ∈ names ∨ n ≠ "default" ∧ ∃ e ∈ edges, ∃ q, e.target = some q ∧ Offers g q n

/-- What one edge leads to adds up with what the edges after it are worth. -/
theorem Gathers.cons {visiting : List Path} {e : ImportEdge} {rest : List ImportEdge}
    {names inner : List String} {result : Option (List String)} (ht : e.target = some q)
    (hanswer : Answers g visiting q (some inner))
    (hrest : Gathers g visiting rest (mergeNames names inner) result) :
    Gathers g visiting (e :: rest) names result := by
  cases result with
  | none =>
    obtain ⟨e', he', hunknown⟩ := hrest
    exact ⟨e', List.mem_cons_of_mem e he', hunknown⟩
  | some all =>
    obtain ⟨hreach, honly⟩ := hanswer
    obtain ⟨hedges, hmore, hback⟩ := hrest
    refine ⟨fun e' he' => ?_, fun n hn => hmore n (mem_mergeNames.2 (.inl hn)), fun n hn => ?_⟩
    · rcases List.mem_cons.1 he' with rfl | he'
      · refine ⟨q, ht, fun x hx => ⟨(hreach x hx).1, fun n ho hn => ?_⟩⟩
        exact hmore n (mem_mergeNames.2 (.inr ⟨(hreach x hx).2 n ho (.inr hn), hn⟩))
      · exact hedges e' he'
    · rcases hback n hn with hn | ⟨hd, e', he', ho⟩
      · rcases mem_mergeNames.1 hn with hn | ⟨hn, hd⟩
        · exact .inl hn
        · exact .inr ⟨hd, e, List.mem_cons_self, q, ht, honly n hn⟩
      · exact .inr ⟨hd, e', List.mem_cons_of_mem e he', ho⟩

/-- What the modules at the ends of edges are asked adds up. -/
theorem namesThrough_spec {visiting : List Path}
    (hask : ∀ q memory, Sound g memory → Sound g (askNames g visiting q memory).2 ∧
      Answers g visiting q (askNames g visiting q memory).1)
    (edges : List ImportEdge) (names : List String) {memory : NameMemory} (hm : Sound g memory) :
    Sound g (namesThrough g visiting edges names memory).2 ∧
      Gathers g visiting edges names (namesThrough g visiting edges names memory).1 := by
  induction edges generalizing names memory with
  | nil =>
    rw [namesThrough]
    exact ⟨hm, fun e he => (by cases he), fun n hn => hn, fun n hn => .inl hn⟩
  | cons e rest ih =>
    cases ht : e.target with
    | none =>
      rw [namesThrough_of_no_target ht]
      exact ⟨hm, e, List.mem_cons_self, .inl ht⟩
    | some q =>
      obtain ⟨hsound, hanswer⟩ := hask q memory hm
      cases hresult : askNames g visiting q memory with | mk answer memory' =>
      rw [hresult] at hsound hanswer
      cases answer with
      | none =>
        rw [namesThrough_of_no_answer ht hresult]
        exact ⟨hsound, e, List.mem_cons_self, .inr ⟨q, ht, hanswer⟩⟩
      | some inner =>
        rw [namesThrough_of_answer ht hresult]
        obtain ⟨hsound', hrest⟩ := ih (mergeNames names inner) hsound
        exact ⟨hsound', .cons ht hanswer hrest⟩

/-- A module's own names with those that its edges lead to are an answer for the module. -/
theorem Gathers.answers {visiting : List Path} {own : List String}
    {answer : Option (List String)} (ho : KnownNames g p own)
    (h : Gathers g (p :: visiting) (starEdges g p)
      (own.foldl (fun names n => joinOnce n names) []) answer) : Answers g visiting p answer := by
  cases answer with
  | none =>
    obtain ⟨e, he, hnone | ⟨q, hq, hunknown⟩⟩ := h
    · obtain ⟨he, hstar⟩ := mem_starEdges_iff.1 he
      exact .of_unknown (.inr ⟨e, he, hstar, hnone⟩)
    · obtain ⟨he, hstar⟩ := mem_starEdges_iff.1 he
      exact .through ⟨e, he, hstar, hq⟩ hunknown
  | some names =>
    obtain ⟨hedges, hown, honly⟩ := h
    refine ⟨fun x hx => ?_, fun n hn => ?_⟩
    · rcases hx.first_step with rfl | ⟨q, ⟨e, he, hstar, hq⟩, hx⟩
      · refine ⟨?_, fun n hn _ => ?_⟩
        · rintro (hu | ⟨e, he, hstar, hnone⟩)
          · exact hu ⟨own, ho⟩
          · obtain ⟨q, hq, -⟩ := hedges e (mem_starEdges_iff.2 ⟨he, hstar⟩)
            rw [hnone] at hq
            cases hq
        · obtain ⟨own', ho', hn⟩ := hn
          obtain rfl := ho.unique ho'
          exact hown n (mem_foldl_joinOnce.2 (.inr hn))
      · obtain ⟨q', hq', hreach⟩ := hedges e (mem_starEdges_iff.2 ⟨he, hstar⟩)
        rw [hq] at hq'
        cases hq'
        refine ⟨(hreach x hx).1, fun n hn hd => ?_⟩
        -- The module itself is not on the chain, so its default is none of these.
        rcases hd with rfl | hd
        · exact absurd List.mem_cons_self hx.not_end_mem
        · exact (hreach x hx).2 n hn hd
    · rcases honly n hn with hn | ⟨hd, e, he, q, hq, hoff⟩
      · rw [mem_foldl_joinOnce] at hn
        exact .own ⟨own, ho, hn.resolve_left List.not_mem_nil⟩
      · obtain ⟨he, hstar⟩ := mem_starEdges_iff.1 he
        exact .through ⟨e, he, hstar, hq⟩ hoff hd

/-- Whatever is being asked already: from exact answers come answers that are worth something, and
what is remembered then is exact again. -/
theorem askNames_spec (visiting : List Path) (p : Path) {memory : NameMemory}
    (hm : Sound g memory) :
    Sound g (askNames g visiting p memory).2 ∧
      Answers g visiting p (askNames g visiting p memory).1 := by
  induction hk : unasked g visiting using Nat.strongRecOn generalizing visiting p memory with
  | ind k ih =>
    cases hf : Table.find? p memory with
    | some answer =>
      rw [askNames_of_find? hf]
      exact ⟨hm, (hm p answer hf).answers visiting⟩
    | none =>
      by_cases hv : p ∈ visiting
      · rw [askNames_of_mem hf hv]
        exact ⟨hm, fun x hx => absurd hv hx.not_mem, fun n hn => by cases hn⟩
      · cases ho : ownNames? g p with
        | none =>
          rw [askNames_of_ownNames?_none hf hv ho]
          exact ⟨hm, .of_unknown (.inl (ownNames?_eq_none_iff.1 ho))⟩
        | some own =>
          obtain ⟨answer, memory', hthrough, hanswer⟩ := askNames_of_ownNames? hf hv ho
          -- One module more is being asked: the modules at the ends of its edges may be asked.
          have hask : ∀ q memory, Sound g memory →
              Sound g (askNames g (p :: visiting) q memory).2 ∧
                Answers g (p :: visiting) q (askNames g (p :: visiting) q memory).1 := by
            intro q memory hm
            refine ih _ ?_ (p :: visiting) q hm rfl
            rw [← hk]
            exact unasked_cons_lt hv (mem_keys_of_ownNames? ho)
          have hspec := namesThrough_spec hask (starEdges g p)
            (own.foldl (fun names n => joinOnce n names) []) hm
          rw [hthrough] at hspec
          obtain ⟨hsound, hspec⟩ := hspec
          have hworth : Answers g visiting p answer := hspec.answers (ownNames?_eq_some_iff.1 ho)
          rw [hanswer]
          refine ⟨?_, hworth⟩
          -- Only what is exact is remembered.
          split
          · rename_i hkeep
            refine hsound.put ?_
            cases answer with
            | none => exact hworth
            | some names =>
              have hempty : visiting = [] := by simpa using hkeep
              subst hempty
              exact hworth.exact
          · exact hsound

/-! ## Questions one after the other -/

theorem offeredNames_exact {memory : NameMemory} (hm : Sound g memory) (p : Path) :
    Exact g p (offeredNames g p memory).1 :=
  (askNames_spec [] p hm).2.exact

theorem offeredNames_sound {memory : NameMemory} (hm : Sound g memory) (p : Path) :
    Sound g (offeredNames g p memory).2 :=
  (askNames_spec [] p hm).1

theorem mem_lackedNames {answer : Option (List String)} (h : Exact g p answer)
    {wanted : List String} :
    n ∈ lackedNames answer wanted ↔ n ∈ wanted ∧ ¬ Unknowable g p ∧ ¬ Offers g p n := by
  cases answer with
  | none =>
    have hu : Unknowable g p := h
    simp [lackedNames, hu]
  | some names =>
    obtain ⟨hknown, hnames⟩ := h
    simp [lackedNames, hknown, hnames]

/-- All exact answers for a module lack the same names. -/
theorem lackedNames_eq {answer answer' : Option (List String)} (h : Exact g p answer)
    (h' : Exact g p answer') (wanted : List String) :
    lackedNames answer wanted = lackedNames answer' wanted := by
  cases answer with
  | none =>
    cases answer' with
    | none => rfl
    | some names' => exact absurd h h'.1
  | some names =>
    cases answer' with
    | none => exact absurd h' h.1
    | some names' =>
      refine List.filter_congr fun n _ => ?_
      rw [Bool.eq_iff_iff]
      simp [h.2 n, h'.2 n]

theorem missingExports_cons_of_skip {e : ImportEdge} (h : e.target = none ∨ wantedNames e = [])
    (rest : List ImportEdge) (memory : NameMemory) :
    missingExports g (e :: rest) memory = missingExports g rest memory := by
  rw [missingExports]
  split
  · rename_i htarget hwanted
    rcases h with h | h
    · rw [htarget] at h
      cases h
    · rw [hwanted] at h
      cases h
  · rfl

theorem missingExports_cons_of_ask {e : ImportEdge} (ht : e.target = some q)
    (hw : wantedNames e ≠ []) (rest : List ImportEdge) (memory : NameMemory) :
    missingExports g (e :: rest) memory =
      ((lackedNames (offeredNames g q memory).1 (wantedNames e)).map
          (.missingExport (g.idOf e.importer) · (g.idOf q)) ++
        (missingExports g rest (offeredNames g q memory).2).1,
        (missingExports g rest (offeredNames g q memory).2).2) := by
  rw [missingExports, ht]
  split
  · rename_i hq hwanted
    cases hq
    rw [hwanted]
  · rename_i hno
    obtain ⟨first, more, hcons⟩ := List.exists_cons_of_ne_nil hw
    exact absurd hcons (hno q first more rfl)

/-- Looking for missing names remembers only exact answers, and finds the same from whatever is
remembered. -/
theorem missingExports_sound (edges : List ImportEdge) {memory memory' : NameMemory}
    (hm : Sound g memory) (hm' : Sound g memory') :
    Sound g (missingExports g edges memory).2 ∧
      (missingExports g edges memory).1 = (missingExports g edges memory').1 := by
  induction edges generalizing memory memory' with
  | nil => exact ⟨hm, rfl⟩
  | cons e rest ih =>
    by_cases hskip : e.target = none ∨ wantedNames e = []
    · rw [missingExports_cons_of_skip hskip, missingExports_cons_of_skip hskip]
      exact ih hm hm'
    · obtain ⟨ht, hw⟩ := not_or.1 hskip
      obtain ⟨q, hq⟩ := Option.ne_none_iff_exists'.1 ht
      rw [missingExports_cons_of_ask hq hw, missingExports_cons_of_ask hq hw]
      obtain ⟨hsound, hsame⟩ := ih (offeredNames_sound hm q) (offeredNames_sound hm' q)
      refine ⟨hsound, ?_⟩
      dsimp only
      rw [lackedNames_eq (offeredNames_exact hm q) (offeredNames_exact hm' q), hsame]

/-- A name is found missing where an edge takes it from a module that is known not to offer it. -/
theorem mem_missingExports {edges : List ImportEdge} {memory : NameMemory} (hm : Sound g memory)
    {f : Finding} :
    f ∈ (missingExports g edges memory).1 ↔ ∃ e ∈ edges, ∃ q, e.target = some q ∧
      ∃ n ∈ wantedNames e, ¬ Unknowable g q ∧ ¬ Offers g q n ∧
        f = .missingExport (g.idOf e.importer) n (g.idOf q) := by
  induction edges generalizing memory with
  | nil => simp [missingExports]
  | cons e rest ih =>
    simp only [List.mem_cons, exists_eq_or_imp]
    by_cases hskip : e.target = none ∨ wantedNames e = []
    · rw [missingExports_cons_of_skip hskip, ih hm]
      refine (or_iff_right ?_).symm
      rintro ⟨q, hq, n, hn, -⟩
      rcases hskip with h | h
      · rw [h] at hq
        cases hq
      · rw [h] at hn
        cases hn
    · obtain ⟨ht, hw⟩ := not_or.1 hskip
      obtain ⟨q, hq⟩ := Option.ne_none_iff_exists'.1 ht
      rw [missingExports_cons_of_ask hq hw, List.mem_append, ih (offeredNames_sound hm q),
        List.mem_map]
      refine or_congr_left ?_
      simp only [mem_lackedNames (offeredNames_exact hm q)]
      constructor
      · rintro ⟨n, ⟨hn, hknown, ho⟩, rfl⟩
        exact ⟨q, hq, n, hn, hknown, ho, rfl⟩
      · rintro ⟨q', hq', n, hn, hknown, ho, rfl⟩
        obtain rfl := Option.some.inj (hq.symm.trans hq')
        exact ⟨n, ⟨hn, hknown, ho⟩, rfl⟩

/-- A question about names: which of them a module offers, or which are missing anywhere. -/
inductive NameQuery where
  | offered (p : Path)
  | missing

/-- What is remembered after a question. -/
def NameQuery.remembered (g : ModuleGraph) (memory : NameMemory) : NameQuery → NameMemory
  | offered p => (offeredNames g p memory).2
  | missing => (missingExports g g.edges memory).2

/-- What is remembered after questions, nothing having been remembered before. -/
def memoryAfter (g : ModuleGraph) (queries : List NameQuery) : NameMemory :=
  queries.foldl (NameQuery.remembered g) []

theorem NameQuery.remembered_sound (query : NameQuery) {memory : NameMemory}
    (hm : Sound g memory) : Sound g (query.remembered g memory) := by
  cases query with
  | offered p => exact offeredNames_sound hm p
  | missing => exact (missingExports_sound g.edges hm hm).1

theorem memoryAfter_sound (queries : List NameQuery) : Sound g (memoryAfter g queries) := by
  suffices ∀ memory, Sound g memory → Sound g (queries.foldl (NameQuery.remembered g) memory) from
    this [] .nil
  induction queries with
  | nil => exact fun memory hm => hm
  | cons query rest ih => exact fun memory hm => ih _ (query.remembered_sound hm)

/-- Whatever has been asked before, the answer for a module is the one that is given first: that
something along the chains from the module is not known, or else the least set of names that holds
its own and what it offers on.  The names found missing are the same too.  Asking comes to an end on
every graph, since each module that is asked in turn is not being asked yet. -/
theorem answers_do_not_depend_on_memory (g : ModuleGraph) (earlier : List NameQuery) :
    (∀ p,
      ((offeredNames g p (memoryAfter g earlier)).1 = none ↔
        ∃ q, StarReaches g p q ∧ Unknown g q) ∧
      (∀ names, (offeredNames g p (memoryAfter g earlier)).1 = some names → ∀ n,
        (n ∈ names ↔ Owns g p n ∨ n ≠ "default" ∧ ∃ q, StarReaches g p q ∧ Owns g q n) ∧
          (n ∈ names ↔ Offers g p n)) ∧
      Option.Rel (fun names names' => ∀ n, n ∈ names ↔ n ∈ names')
        (offeredNames g p (memoryAfter g earlier)).1 (offeredNames g p []).1) ∧
    (missingExports g g.edges (memoryAfter g earlier)).1 = (missingExports g g.edges []).1 := by
  have hsound : Sound g (memoryAfter g earlier) := memoryAfter_sound earlier
  refine ⟨fun p => ?_, (missingExports_sound g.edges hsound .nil).2⟩
  have hexact := offeredNames_exact hsound p
  have hfresh : Exact g p (offeredNames g p []).1 := offeredNames_exact .nil p
  generalize (offeredNames g p (memoryAfter g earlier)).1 = answer at hexact ⊢
  generalize (offeredNames g p []).1 = first at hfresh ⊢
  cases answer with
  | none =>
    refine ⟨⟨fun _ => hexact, fun _ => rfl⟩, fun names h => (by cases h), ?_⟩
    cases first with
    | none => exact .none
    | some names' => exact absurd hexact hfresh.1
  | some names =>
    obtain ⟨hknown, hnames⟩ := hexact
    refine ⟨⟨fun h => (by cases h), fun h => absurd h hknown⟩, ?_, ?_⟩
    · intro names' h n
      obtain rfl := Option.some.inj h
      exact ⟨(hnames n).trans offers_iff, hnames n⟩
    · cases first with
      | none => exact absurd hfresh hknown
      | some names' => exact .some fun n => (hnames n).trans (hfresh.2 n).symm

end BundleReach
