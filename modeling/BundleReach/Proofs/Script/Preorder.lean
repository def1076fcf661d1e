import BundleReach.Script.Tree
import Mathlib.Data.List.Forall2
import Mathlib.Order.Basic

/-!
# Reading order

The place of a node in a tree is the list of child indices that lead to it from the root.  The
recursive preorder lists the nodes by the lexicographic order of their places, each of them once; a
loop that keeps the nodes still to visit on a stack meets them in the same order; and wherever the
texts of the nodes stand, as long as children are nested in their parents and siblings come one
after the other, nodes start in that order.

* `Tree.at?`, `Tree.places` — the node at a place, and all places in reading order.
* `Tree.forall₂_places`, `Tree.mem_places_iff`, `Tree.pairwise_places` — the places of a tree are
  those of its preorder, all of them, in increasing order.
* `Tree.walks_iff` — the loop with a stack lists the preorder.
* `Tree.Layout.start_le` — reading order is the order in which nodes start.
-/

namespace BundleReach.Script.Tree

/-! ## Trees on one line -/

/-- A node without children on the first line. -/
def leaf (k : Kind) (text : String) : Tree := node ⟨k, none, text, 1⟩ []

/-- A node on the first line. -/
def branch (k : Kind) (text : String) (cs : List Tree) : Tree := node ⟨k, none, text, 1⟩ cs

/-! ## Places -/

/-- The node at a place, if the place is in the tree. -/
def at? : Tree → List Nat → Option Tree
  | t, [] => some t
  | t, i :: p => t.children[i]?.bind fun c => at? c p

mutual

/-- The places of a tree in reading order. -/
def places : Tree → List (List Nat)
  | node _ cs => [] :: placesFrom 0 cs

/-- The places in the children from the given index on. -/
def placesFrom (i : Nat) : List Tree → List (List Nat)
  | [] => []
  | t :: ts => (places t).map (i :: ·) ++ placesFrom (i + 1) ts

end

variable {t n : Tree} {p q : List Nat}

theorem at?_append (t : Tree) (p q : List Nat) :
    t.at? (p ++ q) = (t.at? p).bind fun n => n.at? q := by
  induction p generalizing t with
  | nil => rfl
  | cons i p ih =>
    rw [List.cons_append, at?, at?, Option.bind_assoc]
    congr 1
    funext c
    exact ih c

theorem isSome_at?_of_append (h : (t.at? (p ++ q)).isSome = true) : (t.at? p).isSome = true := by
  rw [at?_append] at h
  cases hp : t.at? p with
  | none => rw [hp] at h; exact h
  | some n => rfl

mutual

/-- The preorder lists the nodes at the places. -/
theorem forall₂_places (t : Tree) :
    List.Forall₂ (fun p n => t.at? p = some n) t.places t.preorder := by
  cases t with
  | node l cs =>
    rw [places, preorder_node]
    exact .cons rfl (forall₂_placesFrom l cs 0 cs rfl)

theorem forall₂_placesFrom (l : Label) (cs : List Tree) (i : Nat) (ts : List Tree)
    (hdrop : cs.drop i = ts) :
    List.Forall₂ (fun p n => (node l cs).at? p = some n) (placesFrom i ts) (preorderAll ts) := by
  cases ts with
  | nil =>
    rw [placesFrom, preorderAll]
    exact .nil
  | cons t ts =>
    have hchild : cs[i]? = some t := by
      rw [← List.head?_drop, hdrop, List.head?_cons]
    have hrest : cs.drop (i + 1) = ts := by
      rw [← List.tail_drop, hdrop, List.tail_cons]
    rw [placesFrom, preorderAll]
    refine List.rel_append ?_ (forall₂_placesFrom l cs (i + 1) ts hrest)
    refine List.forall₂_map_left_iff.2 ((forall₂_places t).imp fun p n h => ?_)
    show (cs[i]?.bind fun c => c.at? p) = some n
    rw [hchild]
    exact h

end

theorem mem_placesFrom {cs : List Tree} {c : Tree} {j : Nat} (i : Nat) (hc : cs[j]? = some c)
    (hp : p ∈ c.places) : (i + j) :: p ∈ placesFrom i cs := by
  induction cs generalizing i j with
  | nil => cases hc
  | cons t ts ih =>
    rw [placesFrom]
    cases j with
    | zero =>
      rw [List.getElem?_cons_zero, Option.some_inj] at hc
      rw [hc]
      exact List.mem_append_left _ (List.mem_map_of_mem hp)
    | succ j =>
      rw [List.getElem?_cons_succ] at hc
      have hmem := ih (i + 1) hc
      rw [show i + 1 + j = i + (j + 1) by omega] at hmem
      exact List.mem_append_right _ hmem

/-- No place is left out. -/
theorem mem_places_iff : p ∈ t.places ↔ (t.at? p).isSome = true := by
  constructor
  · intro h
    obtain ⟨n, hn⟩ : ∃ n, t.at? p = some n := by
      obtain ⟨i, hi, rfl⟩ := List.mem_iff_getElem.1 h
      exact ⟨_, (forall₂_places t).get hi (by rwa [← (forall₂_places t).length_eq])⟩
    rw [hn]
    rfl
  · intro h
    induction p generalizing t with
    | nil =>
      cases t with
      | node l cs =>
        rw [places]
        exact List.mem_cons_self
    | cons i p ih =>
      cases t with
      | node l cs =>
        rw [at?] at h
        cases hc : (node l cs).children[i]? with
        | none =>
          rw [hc] at h
          cases h
        | some c =>
          rw [hc] at h
          have hmem := mem_placesFrom 0 hc (ih h)
          rw [Nat.zero_add] at hmem
          rw [places]
          exact List.mem_cons_of_mem _ hmem

theorem index_le_of_mem_placesFrom {i : Nat} {ts : List Tree} (h : p ∈ placesFrom i ts) :
    ∃ j q, p = j :: q ∧ i ≤ j := by
  induction ts generalizing i with
  | nil =>
    rw [placesFrom] at h
    cases h
  | cons t ts ih =>
    rw [placesFrom, List.mem_append, List.mem_map] at h
    rcases h with ⟨q, -, rfl⟩ | h
    · exact ⟨i, q, rfl, Nat.le_refl i⟩
    · obtain ⟨j, q, rfl, hj⟩ := ih h
      exact ⟨j, q, rfl, by omega⟩

mutual

/-- Reading order is the lexicographic order of places, and no place comes twice. -/
theorem pairwise_places (t : Tree) : t.places.Pairwise (· < ·) := by
  cases t with
  | node l cs =>
    rw [places]
    refine List.Pairwise.cons (fun p hp => ?_) (pairwise_placesFrom 0 cs)
    obtain ⟨j, q, rfl, -⟩ := index_le_of_mem_placesFrom hp
    exact List.nil_lt_cons j q

theorem pairwise_placesFrom (i : Nat) (ts : List Tree) :
    (placesFrom i ts).Pairwise (· < ·) := by
  cases ts with
  | nil =>
    rw [placesFrom]
    exact .nil
  | cons t ts =>
    rw [placesFrom]
    refine List.pairwise_append.2 ⟨?_, pairwise_placesFrom (i + 1) ts, fun p hp q hq => ?_⟩
    · refine List.pairwise_map.2 ((pairwise_places t).imp fun h => ?_)
      exact List.cons_lt_cons_iff.2 (.inr ⟨rfl, h⟩)
    · obtain ⟨p, -, rfl⟩ := List.mem_map.1 hp
      obtain ⟨j, q, rfl, hj⟩ := index_le_of_mem_placesFrom hq
      exact List.cons_lt_cons_iff.2 (.inl hj)

end

/-! ## The loop with a stack -/

/-- What is visited, in order, from a stack of nodes whose first one comes next: a visited node is
replaced by its children. -/
inductive Walks : List Tree → List Tree → Prop where
  | done : Walks [] []
  | visit {l cs stack visited} : Walks (cs ++ stack) visited →
      Walks (node l cs :: stack) (node l cs :: visited)

theorem preorderAll_append (ts us : List Tree) :
    preorderAll (ts ++ us) = preorderAll ts ++ preorderAll us := by
  rw [preorderAll_eq_flatMap, preorderAll_eq_flatMap, preorderAll_eq_flatMap, List.flatMap_append]

mutual

theorem walks_preorder (t : Tree) {stack visited : List Tree} (h : Walks stack visited) :
    Walks (t :: stack) (t.preorder ++ visited) := by
  cases t with
  | node l cs =>
    rw [preorder_node]
    exact .visit (walks_preorderAll cs h)

theorem walks_preorderAll (ts : List Tree) {stack visited : List Tree} (h : Walks stack visited) :
    Walks (ts ++ stack) (preorderAll ts ++ visited) := by
  cases ts with
  | nil =>
    rw [preorderAll]
    exact h
  | cons t ts =>
    rw [preorderAll, List.append_assoc]
    exact walks_preorder t (walks_preorderAll ts h)

end

/-- The loop lists the recursive preorder of what is on its stack, and nothing else. -/
theorem walks_iff {stack visited : List Tree} :
    Walks stack visited ↔ visited = preorderAll stack := by
  constructor
  · intro h
    induction h with
    | done => rw [preorderAll]
    | visit _ ih => rw [preorderAll, preorder_node, List.cons_append, ih, preorderAll_append]
  · rintro rfl
    have h := walks_preorderAll stack .done
    rwa [List.append_nil, List.append_nil] at h

theorem walks_singleton_iff {visited : List Tree} : Walks [t] visited ↔ visited = t.preorder := by
  rw [walks_iff, preorderAll, preorderAll, List.append_nil]

/-! ## Where nodes start -/

/-- Where the nodes of a tree start and stop in a text: children within their parents, and siblings
one after the other. -/
structure Layout (t : Tree) (start stop : List Nat → Nat) : Prop where
  forward : ∀ p, (t.at? p).isSome = true → start p ≤ stop p
  nested : ∀ p i, (t.at? (p ++ [i])).isSome = true →
    start p ≤ start (p ++ [i]) ∧ stop (p ++ [i]) ≤ stop p
  ordered : ∀ p i j, i < j → (t.at? (p ++ [i])).isSome = true →
    (t.at? (p ++ [j])).isSome = true → stop (p ++ [i]) ≤ start (p ++ [j])

/-- Of two places one is above the other, or they part at two siblings. -/
theorem prefix_or_parts_of_lt (h : p < q) :
    p <+: q ∨ ∃ c i j p' q', p = (c ++ [i]) ++ p' ∧ q = (c ++ [j]) ++ q' ∧ i < j := by
  induction p generalizing q with
  | nil => exact .inl List.nil_prefix
  | cons a p ih =>
    cases q with
    | nil => exact absurd h (List.not_lt_nil _)
    | cons b q =>
      rcases List.cons_lt_cons_iff.1 h with hab | ⟨rfl, hpq⟩
      · exact .inr ⟨[], a, b, p, q, rfl, rfl, hab⟩
      · rcases ih hpq with hprefix | ⟨c, i, j, p', q', rfl, rfl, hij⟩
        · exact .inl ((List.prefix_cons_inj a).2 hprefix)
        · exact .inr ⟨a :: c, i, j, p', q', rfl, rfl, hij⟩

namespace Layout

variable {start stop : List Nat → Nat}

/-- What is further down lies within. -/
theorem within (h : Layout t start stop) (p q : List Nat)
    (hpq : (t.at? (p ++ q)).isSome = true) :
    start p ≤ start (p ++ q) ∧ stop (p ++ q) ≤ stop p := by
  induction q generalizing p with
  | nil =>
    rw [List.append_nil]
    exact ⟨Nat.le_refl _, Nat.le_refl _⟩
  | cons i q ih =>
    rw [List.append_cons] at hpq ⊢
    have hchild := h.nested p i (isSome_at?_of_append hpq)
    have hbelow := ih (p ++ [i]) hpq
    omega

/-- Nodes start in reading order. -/
theorem start_le (h : Layout t start stop) (hp : (t.at? p).isSome = true)
    (hq : (t.at? q).isSome = true) (hpq : p < q) : start p ≤ start q := by
  rcases prefix_or_parts_of_lt hpq with ⟨r, rfl⟩ | ⟨c, i, j, p', q', rfl, rfl, hij⟩
  · exact (h.within p r hq).1
  · have hbefore := h.ordered c i j hij (isSome_at?_of_append hp) (isSome_at?_of_append hq)
    have hi := h.within (c ++ [i]) p' hp
    have hj := h.within (c ++ [j]) q' hq
    have hforward := h.forward _ hp
    omega

end Layout

end BundleReach.Script.Tree
