import BundleReach.Proofs.FileTree.WellFormed

/-!
# Canonical paths

A path that links do not lead round is resolved to one that no link stands on the way of.  Such a
path is canonical, whether anything is there or not: resolving it changes nothing.

* `LoopFree` — links do not lead a path round, however deep they lead (`loopFree_iff`).
* `resolve_resolve_of_loopFree` — resolving twice is resolving once.
* `resolve_eq_of_walk_eq` — paths that lead to one place are resolved to one path.
* `isPlain_resolve_of_loopFree` — a resolved path is plain, even where nothing is.
-/

namespace BundleReach

namespace FileTree

variable {t : FileTree} {place parts goal : List String} {p q : Path}

/-! ## Paths that do not lead round -/

/-- Links do not lead a path round: taking them out comes to an end. -/
def LoopFree (t : FileTree) (p : Path) : Prop :=
  ∃ depth goal, t.resolveThrough depth [] p.parts = some goal

/-- It is enough to look for links as deep as there are entries. -/
theorem loopFree_iff :
    t.LoopFree p ↔ (t.resolveThrough t.entries.length [] p.parts).isSome = true := by
  rw [Option.isSome_iff_exists]
  constructor
  · rintro ⟨depth, goal, h⟩
    refine ⟨goal, ?_⟩
    rw [← resolveThrough_eq_of_le (Nat.le_max_right depth t.entries.length)]
    exact resolveThrough_mono (Nat.le_max_left depth _) h
  · rintro ⟨goal, h⟩
    exact ⟨_, goal, h⟩

instance (t : FileTree) (p : Path) : Decidable (t.LoopFree p) :=
  decidable_of_iff _ loopFree_iff.symm

/-! ## Clear places -/

/-- A place where no link stands, with none on the way to it, whether anything is there or not. -/
inductive Clear (t : FileTree) : List String → Prop
  | top : Clear t []
  | step {place : List String} {part : String} (before : Clear t place) (down : part ≠ Path.up)
      (noLink : ∀ target, t.at? (place ++ [part]) ≠ some (.link target)) :
      Clear t (place ++ [part])

namespace Clear

theorem dropLast (h : t.Clear place) : t.Clear place.dropLast := by
  cases h with
  | top => exact .top
  | step before =>
    rw [List.dropLast_concat]
    exact before

theorem linkStart (h : t.Clear place) (target : Path) : t.Clear (linkStart place target) := by
  rw [FileTree.linkStart]
  split
  · exact .top
  · exact h

/-- Taking links out leads from clear places to clear ones, if it does so from where links lead. -/
theorem of_resolveFrom {follow : List String → List String → Option (List String)}
    (hf : ∀ {place parts goal}, t.Clear place → follow place parts = some goal → t.Clear goal)
    (hp : t.Clear place) (h : t.resolveFrom follow place parts = some goal) : t.Clear goal := by
  induction parts generalizing place with
  | nil => exact Option.some.inj h ▸ hp
  | cons part rest ih =>
    rw [resolveFrom] at h
    by_cases hup : part = Path.up
    · rw [if_pos hup] at h
      exact ih hp.dropLast h
    · rw [if_neg hup] at h
      split at h
      · obtain ⟨next, hnext, hrest⟩ := Option.bind_eq_some_iff.1 h
        exact ih (hf (hp.linkStart _) hnext) hrest
      · rename_i hlink
        exact ih (.step hp hup hlink) h

theorem of_resolveThrough (depth : Nat) (hp : t.Clear place)
    (h : t.resolveThrough depth place parts = some goal) : t.Clear goal := by
  induction depth generalizing place parts goal with
  | zero => exact of_resolveFrom (fun _ h => by cases h) hp h
  | succ depth ih => exact of_resolveFrom (fun hp h => ih hp h) hp h

/-- A clear place is reached by the parts that lead to it. -/
theorem resolveFrom_append (h : t.Clear place)
    (follow : List String → List String → Option (List String)) (rest : List String) :
    t.resolveFrom follow [] (place ++ rest) = t.resolveFrom follow place rest := by
  induction h generalizing rest with
  | top => rfl
  | @step place part before down noLink ih =>
    rw [List.append_assoc, ih, List.singleton_append, resolveFrom, if_neg down]
    split
    · rename_i target hlink
      exact absurd hlink (noLink target)
    · rfl

theorem resolve_eq (h : t.Clear place) (a : Anchor) : t.resolve ⟨a, place⟩ = ⟨.root, place⟩ := by
  have hend : t.resolveThrough 0 [] place = some place := by
    rw [resolveThrough, ← List.append_nil place, h.resolveFrom_append, List.append_nil, resolveFrom]
  exact resolve_eq_of_resolveThrough hend

theorem ne_up (h : t.Clear place) : ∀ part ∈ place, part ≠ Path.up := by
  induction h with
  | top => exact fun part hpart => by cases hpart
  | step before down _ ih =>
    intro q hq
    rcases List.mem_append.1 hq with hq | hq
    · exact ih q hq
    · exact List.mem_singleton.1 hq ▸ down

end Clear

/-! ## Canonical paths -/

/-- Links that do not lead round are taken out, and the place is clear. -/
theorem LoopFree.exists_clear (h : t.LoopFree p) :
    ∃ place, t.Clear place ∧ t.resolve p = ⟨.root, place⟩ := by
  obtain ⟨depth, place, h⟩ := h
  exact ⟨place, .of_resolveThrough depth .top h, resolve_eq_of_resolveThrough h⟩

/-- Resolving a resolved path changes nothing. -/
theorem resolve_resolve_of_loopFree (h : t.LoopFree p) : t.resolve (t.resolve p) = t.resolve p := by
  obtain ⟨place, hclear, heq⟩ := h.exists_clear
  rw [heq, hclear.resolve_eq]

/-- Links do not lead round on the way to the end of a walk. -/
theorem LoopFree.of_walk (h : t.walk p = .ok place) : t.LoopFree p :=
  ⟨mostLinks, place, resolveThrough_eq_of_walkThrough mostLinks h⟩

/-- Where links do not lead a path round, they do not lead round what it begins with. -/
theorem LoopFree.of_append {a b : Anchor} {rest : List String}
    (h : t.LoopFree ⟨a, parts ++ rest⟩) : t.LoopFree ⟨b, parts⟩ := by
  obtain ⟨depth, goal, h⟩ := h
  rw [resolveThrough_append] at h
  obtain ⟨next, hnext, -⟩ := Option.bind_eq_some_iff.1 h
  exact ⟨depth, next, hnext⟩

/-- A path that is led round stays as it is, so where it is not, neither was it before. -/
theorem LoopFree.of_resolve (h : t.LoopFree (t.resolve p)) : t.LoopFree p := by
  by_contra hnot
  rw [loopFree_iff, Option.not_isSome_iff_eq_none] at hnot
  rw [resolve, hnot, Option.getD_none, loopFree_iff, hnot] at h
  cases h

/-- Paths that lead to one place are resolved to one path. -/
theorem resolve_eq_of_walk_eq (hp : t.walk p = .ok place) (hq : t.walk q = .ok place) :
    t.resolve p = t.resolve q := by
  rw [resolve_eq_of_walk hp, resolve_eq_of_walk hq]

end FileTree

/-! ## Written links -/

/-- A link's target is a path as texts write it. -/
def Entry.IsWritten : Entry → Prop
  | .link target => target.IsWritten
  | _ => True

instance (e : Entry) : Decidable e.IsWritten :=
  match e with
  | .link target => inferInstanceAs (Decidable target.IsWritten)
  | .file _ => isTrue trivial
  | .folder => isTrue trivial

namespace FileTree

variable {t : FileTree} {place parts goal : List String} {p : Path}

/-- The targets of a tree's links are paths as texts write them. -/
def LinksWritten (t : FileTree) : Prop := ∀ e ∈ t.entries, e.2.IsWritten

instance (t : FileTree) : Decidable t.LinksWritten :=
  inferInstanceAs (Decidable (∀ e ∈ t.entries, e.2.IsWritten))

theorem LinksWritten.target (h : t.LinksWritten) {target : Path}
    (hlink : t.at? place = some (.link target)) : target.IsWritten := by
  cases place with
  | nil => cases hlink
  | cons first rest => exact h _ (Table.mem_of_find? hlink)

/-- Only parts of paths come up where links are taken out. -/
theorem isPart_of_resolveFrom {follow : List String → List String → Option (List String)}
    (hl : t.LinksWritten)
    (hf : ∀ {place parts goal}, (∀ part ∈ place, Path.IsPart part) →
      (∀ part ∈ parts, Path.IsPart part) → follow place parts = some goal →
        ∀ part ∈ goal, Path.IsPart part)
    (hplace : ∀ part ∈ place, Path.IsPart part) (hparts : ∀ part ∈ parts, Path.IsPart part)
    (h : t.resolveFrom follow place parts = some goal) : ∀ part ∈ goal, Path.IsPart part := by
  induction parts generalizing place with
  | nil => exact Option.some.inj h ▸ hplace
  | cons part rest ih =>
    have hrest : ∀ q ∈ rest, Path.IsPart q := fun q hq => hparts q (List.mem_cons_of_mem part hq)
    rw [resolveFrom] at h
    by_cases hup : part = Path.up
    · rw [if_pos hup] at h
      exact ih (fun q hq => hplace q (List.dropLast_subset _ hq)) hrest h
    · rw [if_neg hup] at h
      split at h
      · rename_i target hlink
        obtain ⟨next, hnext, h⟩ := Option.bind_eq_some_iff.1 h
        have hstart : ∀ q ∈ linkStart place target, Path.IsPart q := by
          rw [linkStart]
          split
          · exact fun q hq => by cases hq
          · exact hplace
        exact ih (hf hstart (hl.target hlink) hnext) hrest h
      · refine ih (fun q hq => ?_) hrest h
        rcases List.mem_append.1 hq with hq | hq
        · exact hplace q hq
        · exact List.mem_singleton.1 hq ▸ hparts part List.mem_cons_self

theorem isPart_of_resolveThrough (hl : t.LinksWritten) (depth : Nat)
    (hplace : ∀ part ∈ place, Path.IsPart part) (hparts : ∀ part ∈ parts, Path.IsPart part)
    (h : t.resolveThrough depth place parts = some goal) : ∀ part ∈ goal, Path.IsPart part := by
  induction depth generalizing place parts goal with
  | zero => exact isPart_of_resolveFrom hl (fun _ _ h => by cases h) hplace hparts h
  | succ depth ih =>
    exact isPart_of_resolveFrom hl (fun hplace hparts h => ih hplace hparts h) hplace hparts h

/-- A resolved path is plain, whether anything is there or not. -/
theorem isPlain_resolve_of_loopFree (hl : t.LinksWritten) (hp : p.IsWritten) (h : t.LoopFree p) :
    (t.resolve p).IsPlain := by
  obtain ⟨depth, goal, hgoal⟩ := h
  rw [resolve_eq_of_resolveThrough hgoal]
  have hparts := isPart_of_resolveThrough hl depth (fun part hpart => by cases hpart) hp hgoal
  have hclear := Clear.of_resolveThrough depth .top hgoal
  exact ⟨rfl, fun part hpart => ⟨hparts part hpart, hclear.ne_up part hpart⟩⟩

end FileTree

end BundleReach
