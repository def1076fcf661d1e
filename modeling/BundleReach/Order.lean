/-!
# Lists in order

Lists are put in order by insertion: what is listed from a folder is mostly in order already.

Main definition: `inOrder`.
-/

namespace BundleReach

variable {α : Type} {le : α → α → Bool} {a b : α} {as : List α}

/-- An item put before the first one that it need not come after. -/
def insertInOrder (le : α → α → Bool) (a : α) : List α → List α
  | [] => [a]
  | b :: bs => if le a b then a :: b :: bs else b :: insertInOrder le a bs

/-- The items of a list in order; those that could change places keep theirs. -/
def inOrder (le : α → α → Bool) (as : List α) : List α := as.foldr (insertInOrder le) []

theorem insertInOrder_perm (le : α → α → Bool) (a : α) (as : List α) :
    (insertInOrder le a as).Perm (a :: as) := by
  induction as with
  | nil => exact .refl _
  | cons b bs ih =>
    rw [insertInOrder]
    split
    · exact .refl _
    · exact (ih.cons b).trans (.swap a b bs)

theorem inOrder_perm (le : α → α → Bool) (as : List α) : (inOrder le as).Perm as := by
  induction as with
  | nil => exact .refl _
  | cons a as ih => exact (insertInOrder_perm le a _).trans (ih.cons a)

theorem mem_inOrder : a ∈ inOrder le as ↔ a ∈ as := (inOrder_perm le as).mem_iff

section

variable (htrans : ∀ a b c, le a b = true → le b c = true → le a c = true)
  (htotal : ∀ a b, (le a b || le b a) = true)

include htrans htotal

theorem pairwise_insertInOrder (h : as.Pairwise fun a b => le a b = true) :
    (insertInOrder le a as).Pairwise fun a b => le a b = true := by
  induction as with
  | nil => exact List.pairwise_singleton _ a
  | cons b bs ih =>
    obtain ⟨hb, hbs⟩ := List.pairwise_cons.1 h
    rw [insertInOrder]
    split
    · rename_i hab
      refine List.pairwise_cons.2 ⟨fun c hc => ?_, h⟩
      rcases List.mem_cons.1 hc with rfl | hc
      · exact hab
      · exact htrans a b c hab (hb c hc)
    · rename_i hab
      have hba : le b a = true := by
        rcases Bool.or_eq_true_iff.1 (htotal a b) with h | h
        · exact absurd h hab
        · exact h
      refine List.pairwise_cons.2 ⟨fun c hc => ?_, ih hbs⟩
      rcases List.mem_cons.1 ((insertInOrder_perm le a bs).mem_iff.1 hc) with rfl | hc
      · exact hba
      · exact hb c hc

theorem pairwise_inOrder (as : List α) : (inOrder le as).Pairwise fun a b => le a b = true := by
  induction as with
  | nil => exact .nil
  | cons a as ih => exact pairwise_insertInOrder htrans htotal ih

end

end BundleReach
