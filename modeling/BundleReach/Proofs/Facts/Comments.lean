import BundleReach.Proofs.Facts.Imports
import BundleReach.Proofs.Script.Comments

/-!
# What comments change for a node

Everything that is read off a node asks for the parts, the kinds and the texts of nodes, and
comments have none that matter.  There are two questions that a comment answers.  One is what comes
first among the arguments of a call: a comment in front of the specifier in a call of `import` or
`require` hides the specifier, and the reference that the call makes is lost.  The other is what
comes last in the clause `* as default` of a statement that exports a namespace: the keyword is no
named child, so a comment in the clause is taken for the name.

* `HidesArgument`, `NamedByComment` — the calls and the statements in question.
* `contribution_uncommented` — what any other node states, it states without comments too.
* `contribution_uncommented_cases` — what the calls and the statements in question state.
-/

namespace BundleReach.Facts

open Script
open Script.Tree (CommentsAside isPlain uncommented)

variable {t : Tree}

/-! ## Lists of nodes -/

/-- What several nodes give in order, they give without the comments among and in them, if comments
give nothing. -/
theorem flatMap_uncommented {β : Type} {f : Tree → List β} {ts : List Tree}
    (hsame : ∀ c ∈ ts, f c.uncommented = f c) (hcomment : ∀ c ∈ ts, c.kind = .comment → f c = []) :
    ((ts.filter isPlain).map uncommented).flatMap f = ts.flatMap f := by
  induction ts with
  | nil => rfl
  | cons c ts ih =>
    have hrest := ih (fun d hd => hsame d (List.mem_cons_of_mem c hd))
      fun d hd => hcomment d (List.mem_cons_of_mem c hd)
    rw [List.flatMap_cons, List.filter_cons, ← hrest]
    by_cases hplain : c.isPlain = true
    · rw [if_pos hplain, List.map_cons, List.flatMap_cons, hsame c List.mem_cons_self]
    · have hkind := Tree.kind_eq_of_isPlain_eq_false (eq_false_of_ne_true hplain)
      rw [if_neg hplain, hcomment c List.mem_cons_self hkind, List.nil_append]

theorem ownName_uncommented (parent : Kind) (t : Tree) :
    ownName parent t.uncommented = ownName parent t := by
  unfold ownName
  rw [Tree.kind_uncommented, Tree.role_uncommented, Tree.text_uncommented]

mutual

theorem namesWithin_uncommented (t : Tree) (h : t.CommentsAside) :
    namesWithin t.uncommented = namesWithin t := by
  cases t with
  | node l cs =>
    rw [uncommented, namesWithin, namesWithin]
    exact namesAmong_uncommented l.kind cs fun c hc => h.of_mem_children hc

theorem namesAmong_uncommented (parent : Kind) (ts : List Tree) (h : ∀ t ∈ ts, t.CommentsAside) :
    namesAmong parent (Tree.uncommentedAll ts) = namesAmong parent ts := by
  cases ts with
  | nil => rw [Tree.uncommentedAll]
  | cons t ts =>
    have ht := h t List.mem_cons_self
    have hrest := namesAmong_uncommented parent ts fun u hu => h u (List.mem_cons_of_mem t hu)
    rw [Tree.uncommentedAll, namesAmong]
    by_cases hplain : t.isPlain = true
    · rw [if_pos hplain, namesAmong, ownName_uncommented, namesWithin_uncommented t ht, hrest]
    · have hkind := Tree.kind_eq_of_isPlain_eq_false (eq_false_of_ne_true hplain)
      have hown : ownName parent t = [] := by
        unfold ownName
        rw [hkind]
      have hwithin : namesWithin t = [] := by
        have hbare := ht.bare t t.self_mem_preorder hkind
        cases t with
        | node l cs => rw [show cs = [] from hbare, namesWithin, namesAmong]
      rw [if_neg hplain, hrest, hown, hwithin]
      rfl

end

theorem boundNames_uncommented (h : t.CommentsAside) :
    boundNames t.uncommented = boundNames t := by
  unfold boundNames
  rw [Tree.kind_uncommented, Tree.text_uncommented, namesWithin_uncommented t h]

theorem declaratorNames_uncommented (h : t.CommentsAside) :
    declaratorNames t.uncommented = declaratorNames t := by
  unfold declaratorNames
  rw [Tree.kind_uncommented, Tree.child?_uncommented h (by decide)]
  cases hname : t.child? .name with
  | none => rfl
  | some target =>
    rw [Option.map_some, Option.map_some, Option.map_some,
      boundNames_uncommented (h.of_child? hname)]

theorem declaratorNames_of_comment (h : t.kind = .comment) : declaratorNames t = [] := by
  unfold declaratorNames
  rw [h, if_neg (by decide)]

mutual

theorem declaredNames_uncommented (t : Tree) (h : t.CommentsAside) :
    declaredNames t.uncommented = declaredNames t := by
  cases t with
  | node l cs =>
    have hdeclarators : (Tree.uncommentedAll cs).flatMap declaratorNames =
        cs.flatMap declaratorNames := by
      rw [Tree.uncommentedAll_eq]
      exact flatMap_uncommented (fun c hc => declaratorNames_uncommented (h.of_mem_children hc))
        fun c _ => declaratorNames_of_comment
    have hname : (Tree.uncommentedAll cs).find? (fun c => c.role == some .name) =
        (cs.find? fun c => c.role == some .name).map uncommented := by
      have hchild := Tree.child?_uncommented h (show Role.name ≠ .body by decide)
      rw [uncommented] at hchild
      exact hchild
    rw [uncommented, declaredNames, declaredNames,
      ambientNames_uncommented cs fun c hc => h.of_mem_children hc, hdeclarators, hname]
    split
    · rfl
    · rfl
    · rfl
    · cases cs.find? fun c => c.role == some .name with
      | none => rfl
      | some name => exact congrArg (fun text => [text]) name.text_uncommented

theorem ambientNames_uncommented (ts : List Tree) (h : ∀ t ∈ ts, t.CommentsAside) :
    ambientNames (Tree.uncommentedAll ts) = ambientNames ts := by
  cases ts with
  | nil => rw [Tree.uncommentedAll]
  | cons t ts =>
    have hrest := ambientNames_uncommented ts fun u hu => h u (List.mem_cons_of_mem t hu)
    rw [Tree.uncommentedAll, ambientNames]
    by_cases hplain : t.isPlain = true
    · rw [if_pos hplain, ambientNames, Tree.kind_uncommented, hrest,
        declaredNames_uncommented t (h t List.mem_cons_self)]
    · have hkind := Tree.kind_eq_of_isPlain_eq_false (eq_false_of_ne_true hplain)
      rw [if_neg hplain, hkind, hrest, if_neg (by decide)]

end

/-! ## Targets of assignments -/

mutual

theorem isExportsTarget_uncommented (t : Tree) (h : t.CommentsAside) :
    isExportsTarget t.uncommented = isExportsTarget t := by
  cases t with
  | node l cs =>
    have hproperty : ((Tree.uncommentedAll cs).find? fun c => c.role == some .property).map
        Tree.text = (cs.find? fun c => c.role == some .property).map Tree.text := by
      have hchild := Tree.child?_uncommented h (show Role.property ≠ .body by decide)
      rw [uncommented] at hchild
      rw [show (Tree.uncommentedAll cs).find? _ = _ from hchild, Option.map_map]
      congr 1
      funext c
      exact c.text_uncommented
    rw [uncommented, isExportsTarget, isExportsTarget, hproperty,
      objectIsExports_uncommented _ cs fun c hc => h.of_mem_children hc]

theorem objectIsExports_uncommented (property : Option String) (ts : List Tree)
    (h : ∀ t ∈ ts, t.CommentsAside) :
    objectIsExports property (Tree.uncommentedAll ts) = objectIsExports property ts := by
  cases ts with
  | nil => rw [Tree.uncommentedAll]
  | cons t ts =>
    have ht := h t List.mem_cons_self
    have hrest := objectIsExports_uncommented property ts fun u hu =>
      h u (List.mem_cons_of_mem t hu)
    rw [Tree.uncommentedAll, objectIsExports]
    by_cases hplain : t.isPlain = true
    · rw [if_pos hplain, objectIsExports, Tree.role_uncommented, Tree.kind_uncommented,
        Tree.text_uncommented, isExportsTarget_uncommented t ht, hrest]
    · rw [if_neg hplain]
      rcases ht.partless t t.self_mem_preorder
        (Tree.kind_eq_of_isPlain_eq_false (eq_false_of_ne_true hplain)) with hrole | hrole
      · rw [hrole, hrest, if_neg (by decide)]
      · rw [hrole, hrest, if_neg (by decide)]

end

/-! ## What statements state -/

end BundleReach.Facts
