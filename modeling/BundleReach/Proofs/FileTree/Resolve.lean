import BundleReach.FileTree.Basic
import Mathlib.Data.Finset.Card

/-!
# Walking and resolving

A walk along a path fails where nothing is; resolving the path goes on there.  Where the walk comes
to an end, both come to the same place: `resolve_eq_of_walk`.  A file's place is one under which the
tree has an entry, so a tree has no more resolved files than entries: `resolve_mem_places`.

Resolving looks for links within the targets of links no deeper than a tree has entries.  That is
deep enough for whatever does not lead round: `resolveThrough_eq_of_le`.
-/

namespace BundleReach.FileTree

variable {t : FileTree} {place parts rest goal : List String}

/-! ## Resolving step by step -/

/-- Parts and further ones are resolved one after the other. -/
theorem resolveFrom_append {follow : List String → List String → Option (List String)} :
    t.resolveFrom follow place (parts ++ rest) =
      (t.resolveFrom follow place parts).bind fun next => t.resolveFrom follow next rest := by
  induction parts generalizing place with
  | nil => rfl
  | cons part parts ih =>
    rw [List.cons_append, resolveFrom, resolveFrom]
    by_cases hup : part = Path.up
    · rw [if_pos hup, if_pos hup, ih]
    · rw [if_neg hup, if_neg hup]
      split
      · rw [Option.bind_assoc]
        exact Option.bind_congr fun next _ => ih
      · exact ih

theorem resolveThrough_append (depth : Nat) :
    t.resolveThrough depth place (parts ++ rest) =
      (t.resolveThrough depth place parts).bind fun next => t.resolveThrough depth next rest := by
  cases depth <;> exact resolveFrom_append

/-- What is resolved stays so where more links are followed. -/
theorem resolveFrom_mono {follow follow' : List String → List String → Option (List String)}
    (hf : ∀ place parts goal, follow place parts = some goal → follow' place parts = some goal)
    (h : t.resolveFrom follow place parts = some goal) :
    t.resolveFrom follow' place parts = some goal := by
  induction parts generalizing place with
  | nil => exact h
  | cons part rest ih =>
    rw [resolveFrom] at h ⊢
    by_cases hup : part = Path.up
    · rw [if_pos hup] at h ⊢
      exact ih h
    · rw [if_neg hup] at h ⊢
      split
      · rename_i target hlink
        simp only [hlink] at h
        obtain ⟨next, hnext, hrest⟩ := Option.bind_eq_some_iff.1 h
        exact Option.bind_eq_some_iff.2 ⟨next, hf _ _ _ hnext, ih hrest⟩
      · rename_i hlink
        refine ih ?_
        split at h
        · rename_i target htarget
          exact absurd htarget (hlink target)
        · exact h

theorem resolveThrough_succ {depth : Nat} (h : t.resolveThrough depth place parts = some goal) :
    t.resolveThrough (depth + 1) place parts = some goal := by
  induction depth generalizing place parts goal with
  | zero => exact resolveFrom_mono (fun _ _ _ h => by cases h) h
  | succ depth ih => exact resolveFrom_mono (fun _ _ _ h => ih h) h

theorem resolveThrough_mono {depth depth' : Nat} (hle : depth ≤ depth')
    (h : t.resolveThrough depth place parts = some goal) :
    t.resolveThrough depth' place parts = some goal := by
  induction depth', hle using Nat.le_induction with
  | base => exact h
  | succ depth' _ ih => exact resolveThrough_succ ih

/-! ## How deep links lead -/

/-- Where a step meets no link, it is the same however deep links are looked for. -/
theorem resolveThrough_of_noLink {part : String}
    (h : part = Path.up ∨ ∀ target, t.at? (place ++ [part]) ≠ some (.link target))
    (depth depth' : Nat) :
    t.resolveThrough depth place [part] = t.resolveThrough depth' place [part] := by
  have hstep : ∀ follow, t.resolveFrom follow place [part] =
      some (if part = Path.up then place.dropLast else place ++ [part]) := by
    intro follow
    rw [resolveFrom]
    by_cases hup : part = Path.up
    · rw [if_pos hup, if_pos hup]
      rfl
    · rw [if_neg hup, if_neg hup]
      split
      · rename_i target hlink
        exact absurd hlink (h.resolve_left hup target)
      · rfl
  cases depth <;> cases depth' <;> exact (hstep _).trans (hstep _).symm

/-- Where every step is the same at two depths, so is everything. -/
theorem resolveThrough_congr {depth depth' : Nat}
    (h : ∀ place part, t.resolveThrough depth place [part] = t.resolveThrough depth' place [part]) :
    t.resolveThrough depth = t.resolveThrough depth' := by
  funext place parts
  induction parts generalizing place with
  | nil => cases depth <;> cases depth' <;> rfl
  | cons part rest ih =>
    rw [← List.singleton_append, resolveThrough_append, resolveThrough_append, h]
    exact Option.bind_congr fun next _ => ih next

/-- The entries of a tree that can be resolved, links within the targets of links so deep. -/
def ending (t : FileTree) (depth : Nat) : Finset (List String) :=
  (Table.keys t.entries).toFinset.filter fun place =>
    (t.resolveThrough depth place.dropLast (place.drop (place.length - 1))).isSome

theorem mem_ending {depth : Nat} {part : String} :
    place ++ [part] ∈ t.ending depth ↔
      place ++ [part] ∈ Table.keys t.entries ∧
        (t.resolveThrough depth place [part]).isSome = true := by
  rw [ending, Finset.mem_filter, List.mem_toFinset, List.dropLast_concat, List.length_append,
    List.length_singleton, Nat.add_sub_cancel, List.drop_left]

theorem ending_subset (t : FileTree) (depth : Nat) : t.ending depth ⊆ t.ending (depth + 1) := by
  refine Finset.monotone_filter_right _ fun place _ h => ?_
  obtain ⟨goal, hgoal⟩ := Option.isSome_iff_exists.1 h
  exact Option.isSome_iff_exists.2 ⟨goal, resolveThrough_succ hgoal⟩

/-- Where no more entries can be resolved one deeper, nothing changes any more. -/
theorem resolveThrough_stable {depth : Nat} (h : t.ending (depth + 1) = t.ending depth) :
    ∀ depth', depth ≤ depth' → t.resolveThrough depth' = t.resolveThrough depth := by
  have hone : t.resolveThrough (depth + 1) = t.resolveThrough depth := by
    refine resolveThrough_congr fun place part => ?_
    by_cases hlink : part = Path.up ∨ ∀ target, t.at? (place ++ [part]) ≠ some (.link target)
    · exact resolveThrough_of_noLink hlink _ _
    · obtain ⟨-, target, hlink⟩ : part ≠ Path.up ∧ ∃ target,
          t.at? (place ++ [part]) = some (.link target) := by
        simpa only [not_or, not_forall, not_not] using hlink
      cases hhere : t.resolveThrough depth place [part] with
      | some goal => exact resolveThrough_succ hhere
      | none =>
        cases hnext : t.resolveThrough (depth + 1) place [part] with
        | none => rfl
        | some goal =>
          have hmem : place ++ [part] ∈ t.ending (depth + 1) := by
            refine mem_ending.2 ⟨?_, Option.isSome_iff_exists.2 ⟨goal, hnext⟩⟩
            cases place <;> exact Table.mem_keys_iff.2 ⟨_, hlink⟩
          rw [h, mem_ending, hhere] at hmem
          cases hmem.2
  intro depth' hle
  induction depth', hle using Nat.le_induction with
  | base => rfl
  | succ depth' _ ih =>
    calc t.resolveThrough (depth' + 1)
        = t.resolveFrom (t.resolveThrough depth') := rfl
      _ = t.resolveThrough (depth + 1) := by rw [ih]; rfl
      _ = t.resolveThrough depth := hone

/-- Links within the targets of links are looked for no deeper than there are entries: at each depth
up to the last one that matters, one more entry can be resolved. -/
theorem resolveThrough_eq_of_le {depth : Nat} (h : t.entries.length ≤ depth) :
    t.resolveThrough depth = t.resolveThrough t.entries.length := by
  have hstable : ∃ d ≤ t.entries.length, t.ending (d + 1) = t.ending d := by
    by_contra hnone
    have hgrows : ∀ d, d ≤ t.entries.length + 1 → d ≤ (t.ending d).card := by
      intro d hd
      induction d with
      | zero => exact Nat.zero_le _
      | succ d ih =>
        have hne : t.ending d ≠ t.ending (d + 1) := fun heq =>
          hnone ⟨d, Nat.le_of_succ_le_succ hd, heq.symm⟩
        have hlt := Finset.card_lt_card ((t.ending_subset d).ssubset_of_ne hne)
        have hle := ih (Nat.le_of_succ_le hd)
        omega
    have hbound : (t.ending (t.entries.length + 1)).card ≤ t.entries.length := by
      refine (Finset.card_filter_le _ _).trans ((List.toFinset_card_le _).trans ?_)
      rw [Table.keys, List.length_map]
    have hmore := hgrows (t.entries.length + 1) le_rfl
    omega
  obtain ⟨d, hd, heq⟩ := hstable
  rw [resolveThrough_stable heq depth (hd.trans h), resolveThrough_stable heq _ hd]

/-- What is resolved at some depth is the resolved path. -/
theorem resolve_eq_of_resolveThrough {depth : Nat} {p : Path}
    (h : t.resolveThrough depth [] p.parts = some goal) : t.resolve p = ⟨.root, goal⟩ := by
  have hdeep : t.resolveThrough t.entries.length [] p.parts = some goal := by
    rcases Nat.le_total depth t.entries.length with hle | hle
    · exact resolveThrough_mono hle h
    · rw [← h, resolveThrough_eq_of_le hle]
  rw [resolve, hdeep, Option.getD_some]

/-! ## Walks that end -/

theorem resolveFrom_eq_of_walkFrom
    {follow : List String → List String → Except AccessFault (List String)}
    {follow' : List String → List String → Option (List String)}
    (hf : ∀ place parts rest goal, follow place (parts ++ rest) = .ok goal →
      ∃ next, follow' place parts = some next ∧ t.resolveFrom follow' next rest = some goal)
    (h : t.walkFrom follow place parts = .ok goal) :
    t.resolveFrom follow' place parts = some goal := by
  induction parts generalizing place with
  | nil =>
    rw [walkFrom] at h
    rw [resolveFrom]
    exact congrArg some (Except.ok.inj h)
  | cons part rest ih =>
    rw [walkFrom] at h
    rw [resolveFrom]
    split at h
    · by_cases hu : part = Path.up
      · rw [if_pos hu] at h ⊢
        exact ih h
      · rw [if_neg hu] at h ⊢
        split at h
        · cases h
        · rename_i target ht
          simp only [ht]
          exact Option.bind_eq_some_iff.2 (hf _ _ _ _ h)
        · rename_i e hl he
          split
          · rename_i target ht
            exact absurd (Option.some.inj (he.symm.trans ht)) (hl target)
          · exact ih h
    · cases h
    · cases h

/-- A walk through so many links meets none within targets deeper than that. -/
theorem resolveThrough_eq_of_walkThrough (links : Nat)
    (h : t.walkThrough links place parts = .ok goal) :
    t.resolveThrough links place parts = some goal := by
  induction links generalizing place parts goal with
  | zero => exact resolveFrom_eq_of_walkFrom (fun _ _ _ _ h => by cases h) h
  | succ links ih =>
    refine resolveFrom_eq_of_walkFrom (fun place parts rest goal h => ?_) h
    have hwhole := ih h
    rw [resolveThrough_append] at hwhole
    obtain ⟨next, hnext, hrest⟩ := Option.bind_eq_some_iff.1 hwhole
    exact ⟨next, hnext, resolveThrough_succ hrest⟩

/-- Where a walk ends, the resolved path is. -/
theorem resolve_eq_of_walk {p : Path} {place : List String} (h : t.walk p = .ok place) :
    t.resolve p = ⟨.root, place⟩ :=
  resolve_eq_of_resolveThrough (resolveThrough_eq_of_walkThrough mostLinks h)

/-! ## The places of a tree -/

/-- The paths without links under which a tree has entries. -/
def places (t : FileTree) : List Path := t.entries.map fun e => ⟨.root, e.1⟩

@[simp] theorem length_places (t : FileTree) : t.places.length = t.entries.length :=
  List.length_map _

theorem mem_places_of_at? {parts : List String} {e : Entry} (h : t.at? parts = some e)
    (hf : e ≠ .folder) : (⟨.root, parts⟩ : Path) ∈ t.places := by
  cases parts with
  | nil => exact absurd (Option.some.inj h).symm hf
  | cons part rest => exact List.mem_map.2 ⟨_, Table.mem_of_find? h, rfl⟩

/-- A file's resolved path is one of the tree's places. -/
theorem resolve_mem_places {p : Path} (h : t.isFile p = true) : t.resolve p ∈ t.places := by
  rw [isFile, entry?] at h
  cases hw : t.walk p with
  | error fault => simp [hw] at h
  | ok place =>
    rw [resolve_eq_of_walk hw]
    simp only [hw] at h
    split at h
    · rename_i content hc
      exact mem_places_of_at? hc (by simp)
    · cases h

end BundleReach.FileTree
