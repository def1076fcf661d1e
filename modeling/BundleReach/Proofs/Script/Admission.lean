import BundleReach.Script.Grammar.Whole
import BundleReach.Script.Automaton.Item
import BundleReach.Proofs.Script.Comments

/-!
# The trees of a grammar

The definitions of a dialect say which trees its scripts have: every node is made of the nodes that
the rule of its construct admits, in their order, with the kinds and the parts that the rule gives
them.  Comments stand between them and are not spoken of.

* `Rule.Admits`, `Made` — the nodes that a rule admits, and the nodes that a construct is made of.
* `Tree.IsScript` — the trees of the scripts of a dialect.
* `Tree.IsScript.made` — every node of a script is made by the definition of its kind.
* `Tree.IsScript.commentsAside` — how comments occur in a script.
* `Rule.tallies` — how many nodes of some sorts a rule can admit, computed from the rule.
* `Made.tally_mem` — a node has as many children of these sorts as are computed.
-/

namespace BundleReach.Script

/-! ## What rules admit -/

/-- The rule that a definition gives to a construct, if it is the definition of it. -/
def Definition.ruleOf? (h : Head) : Definition → Option Rule
  | .rule h' r => if h' = h then some r else none
  | .inlined p r => if Head.part p = h then some r else none
  | .token _ => none

/-- The rule of a construct. -/
def ruleOf? (d : Dialect) (h : Head) : Option Rule := (definitions d).findSome? (·.ruleOf? h)

/-- The node that a token becomes, if it becomes one, where it has the given mark. -/
inductive Token.Becomes (m : Mark) (t : Token) : List Tree → Prop where
  | node {k l} : t.kind? = some k → l.kind = m.1.getD k → l.role = m.2 →
      (∀ w, t = .word w → l.text = w) → Becomes m t [.node l []]
  | nothing : t.kind? = none → Becomes m t []

/-- The comments among the children of a node.  They have nothing in them, and all that one of them
may be is part of a body.  The name that a namespace is exported under comes last. -/
structure CommentsBetween (l : Label) (cs : List Tree) : Prop where
  bare : ∀ c ∈ cs, c.kind = .comment → c.children = []
  partless : ∀ c ∈ cs, c.kind = .comment → c.role = none ∨ c.role = some .body
  nameLast : l.kind = .namespaceExport → ∀ c, cs.getLast? = some c → c.kind ≠ .comment

/-- A rule admits some nodes where they have the given mark: a part without a node of its own hands
on what is said of it to the nodes that it is made of. -/
inductive Rule.Admits (d : Dialect) : Mark → Rule → List Tree → Prop where
  | nothing {m} : Admits d m .nothing []
  | word {m w ts} : (Token.word w).Becomes m ts → Admits d m (.word w) ts
  | token {m t ts} : t.Becomes m ts → Admits d m (.token t) ts
  | done {m} : Admits d m (.seq []) []
  | next {m r rs ts us} : Admits d m r ts → Admits d m (.seq rs) us →
      Admits d m (.seq (r :: rs)) (ts ++ us)
  | choice {m r rs ts} : r ∈ rs → Admits d m r ts → Admits d m (.choice rs) ts
  | once {m r ts} : Admits d m r ts → Admits d m (.many1 r) ts
  | again {m r ts us} : Admits d m r ts → Admits d m (.many1 r) us →
      Admits d m (.many1 r) (ts ++ us)
  | field {m role r ts} : Admits d (m.1, some role) r ts → Admits d m (.field role r) ts
  | renamed {m kind r ts} : Admits d (some kind, m.2) r ts → Admits d m (.renamed kind r) ts
  | prec {m level grouping r ts} : Admits d m r ts → Admits d m (.prec level grouping r) ts
  | weighed {m weight r ts} : Admits d m r ts → Admits d m (.weighed weight r) ts
  | unreserved {m r ts} : Admits d m r ts → Admits d m (.unreserved r) ts
  | node {m h k r l cs} : h.kind? = some k → ruleOf? d h = some r → l.kind = m.1.getD k →
      l.role = m.2 → CommentsBetween l cs → Admits d (none, none) r (cs.filter Tree.isPlain) →
      Admits d m (.head h) [.node l cs]
  | part {m h r ts} : h.kind? = none → ruleOf? d h = some r → Admits d m r ts →
      Admits d m (.head h) ts

/-- The children of a node are what a construct is made of. -/
structure Made (d : Dialect) (h : Head) (n : Tree) : Prop where
  comments : CommentsBetween n.label n.children
  rule : ∃ r, ruleOf? d h = some r ∧ r.Admits d (none, none) (n.children.filter Tree.isPlain)

/-- A tree of a script of a dialect. -/
def Tree.IsScript (d : Dialect) (t : Tree) : Prop :=
  (Rule.node .program).Admits d (none, none) [t]

variable {d : Dialect} {m : Mark}

/-! ## Every node of a script -/

/-- The kinds that a rule gives to nodes by itself: those that tokens become, and those that it puts
in place of others. -/
def Rule.givenKinds : Rule → List Kind
  | .nothing | .head _ => []
  | .word w => (Token.word w).kind?.toList
  | .token t => t.kind?.toList
  | .seq rules | .choice rules => givenKindsOf rules
  | .renamed kind rule => kind :: rule.givenKinds
  | .many1 rule | .field _ rule | .prec _ _ rule | .weighed _ rule | .unreserved rule =>
    rule.givenKinds
where
  givenKindsOf : List Rule → List Kind
    | [] => []
    | r :: rs => r.givenKinds ++ givenKindsOf rs

/-- The kinds that the rules of a dialect give to nodes by themselves. -/
def givenKinds (d : Dialect) : List Kind :=
  (definitions d).flatMap fun
    | .rule _ r | .inlined _ r => r.givenKinds
    | .token _ => []

/-- The kinds of constructs that share their kind with another one. -/
def partKinds : List Kind := [
  .memberExpression, .callExpression, .parenthesizedExpression, .requiredParameter,
  .optionalParameter, .subscriptExpression, .instantiationExpression, .unaryExpression, .string]

theorem Part.kind?_mem {p : Part} {k : Kind} (h : (Head.part p).kind? = some k) :
    k ∈ partKinds := by
  cases p <;> cases h <;> decide

/-- A kind that a node has from nothing but the construct of that kind, unless it is a comment. -/
structure OneConstruct (k : Kind) : Prop where
  notGiven : ∀ d, k ∉ givenKinds d
  noPart : ∀ p, (Head.part p).kind? ≠ some k

/-- Comments, and statements and clauses that each have a definition of their own. -/
def ownKinds : List Kind := [
  .comment, .importStatement, .importRequireClause, .exportStatement, .namespaceExport,
  .ambientDeclaration]

theorem oneConstruct_of_mem {k : Kind} (hk : k ∈ ownKinds) : OneConstruct k := by
  have hown : ∀ k ∈ ownKinds, k ∉ partKinds ∧ k ∉ givenKinds .plain ∧ k ∉ givenKinds .typed := by
    decide +kernel
  obtain ⟨hpart, hplain, htyped⟩ := hown k hk
  refine ⟨fun d => ?_, fun p hp => hpart (Part.kind?_mem hp)⟩
  cases d with
  | plain => exact hplain
  | typed => exact htyped

theorem Rule.mem_givenKindsOf {k : Kind} {r : Rule} {rs : List Rule} (hr : r ∈ rs)
    (hk : k ∈ r.givenKinds) : k ∈ Rule.givenKinds.givenKindsOf rs := by
  induction rs with
  | nil => cases hr
  | cons r' rs ih =>
    rw [Rule.givenKinds.givenKindsOf, List.mem_append]
    rcases List.mem_cons.1 hr with rfl | hr
    · exact .inl hk
    · exact .inr (ih hr)

/-- What a rule gives that defines a construct, the dialect gives. -/
theorem mem_givenKinds {k : Kind} {h : Head} {r : Rule} (hrule : ruleOf? d h = some r)
    (hk : k ∈ r.givenKinds) : k ∈ givenKinds d := by
  obtain ⟨x, hx, hxr⟩ := List.exists_of_findSome?_eq_some hrule
  refine List.mem_flatMap.2 ⟨x, hx, ?_⟩
  cases x with
  | rule h' r' =>
    rw [Definition.ruleOf?] at hxr
    split at hxr
    · cases hxr
      exact hk
    · cases hxr
  | inlined p r' =>
    rw [Definition.ruleOf?] at hxr
    split at hxr
    · cases hxr
      exact hk
    · cases hxr
  | token t => cases hxr

/-- A comment between the children of some node. -/
def IsExtra (n : Tree) : Prop := n.kind = .comment ∧ ∃ l cs, CommentsBetween l cs ∧ n ∈ cs

/-- What is in some trees with comments between them is one of these, or is in the others. -/
theorem CommentsBetween.mem_preorderAll {l : Label} {cs : List Tree} (h : CommentsBetween l cs)
    {n : Tree} (hn : n ∈ Tree.preorderAll cs) :
    IsExtra n ∨ n ∈ Tree.preorderAll (cs.filter Tree.isPlain) := by
  rw [Tree.preorderAll_eq_flatMap, List.mem_flatMap] at hn
  obtain ⟨c, hc, hn⟩ := hn
  cases hplain : c.isPlain with
  | true =>
    right
    rw [Tree.preorderAll_eq_flatMap, List.mem_flatMap]
    exact ⟨c, List.mem_filter.2 ⟨hc, hplain⟩, hn⟩
  | false =>
    left
    have hcomment := Tree.kind_eq_of_isPlain_eq_false hplain
    have hbare := h.bare c hc hcomment
    cases c with
    | node lc ccs =>
      rw [show ccs = [] from hbare] at hn hc hcomment
      rw [Tree.preorder_node, Tree.preorderAll, List.mem_singleton] at hn
      rw [hn]
      exact ⟨hcomment, l, cs, h, hc⟩

/-- A node that is not renamed to a kind it has got has it from what it is the node of. -/
theorem kind_eq_of_getD {k k' : Kind} (hmark : m.1 ≠ some k) (hk : m.1.getD k' = k) : k' = k := by
  cases hm : m.1 with
  | none =>
    rw [hm, Option.getD_none] at hk
    exact hk
  | some renamed =>
    rw [hm, Option.getD_some] at hk
    exact absurd (hm.trans (congrArg some hk)) hmark

/-- A token becomes no node of a kind that it does not give. -/
theorem Token.Becomes.kind_ne {t : Token} {ts : List Tree} (h : t.Becomes m ts) {k : Kind}
    (ht : k ∉ t.kind?.toList) (hmark : m.1 ≠ some k) {n : Tree} (hn : n ∈ Tree.preorderAll ts) :
    n.kind ≠ k := by
  cases h with
  | nothing _ =>
    rw [Tree.preorderAll] at hn
    cases hn
  | @node k' l hk' hl _ _ =>
    rw [Tree.preorderAll, Tree.preorder_node, Tree.preorderAll, List.append_nil,
      List.mem_singleton] at hn
    rw [hn]
    intro hkind
    refine ht (Option.mem_toList.2 ?_)
    exact kind_eq_of_getD hmark (hl.symm.trans hkind) ▸ hk'

/-- The construct of a node of such a kind is the one that the definition is of. -/
theorem OneConstruct.head_eq {k k' : Kind} (hk : OneConstruct k) {h : Head}
    (hhead : h.kind? = some k') (hmark : m.1 ≠ some k) (hkind : m.1.getD k' = k) :
    h = .node k := by
  obtain rfl := kind_eq_of_getD hmark hkind
  cases h with
  | node k'' =>
    cases hhead
    rfl
  | part p => exact absurd hhead (hk.noPart p)

/-- Wherever a rule admits a node of a kind that one construct alone gives, the node is made by the
definition of the construct, unless it is a comment that nothing is said of. -/
theorem Rule.Admits.made {k : Kind} (hk : OneConstruct k) {r : Rule} {ts : List Tree}
    (h : r.Admits d m ts) (hmark : m.1 ≠ some k) (hr : k ∉ r.givenKinds) {n : Tree}
    (hn : n ∈ Tree.preorderAll ts) (hkind : n.kind = k) : IsExtra n ∨ Made d (.node k) n := by
  induction h with
  | nothing | done =>
    rw [Tree.preorderAll] at hn
    cases hn
  | word hbecomes | token hbecomes =>
    rw [Rule.givenKinds] at hr
    exact absurd hkind (hbecomes.kind_ne hr hmark hn)
  | next _ _ ih ihs =>
    rw [Rule.givenKinds, Rule.givenKinds.givenKindsOf, List.mem_append, not_or] at hr
    rw [Tree.preorderAll_append, List.mem_append] at hn
    rcases hn with hn | hn
    · exact ih hmark hr.1 hn
    · exact ihs hmark (by rw [Rule.givenKinds]; exact hr.2) hn
  | choice hmem _ ih =>
    exact ih hmark (fun hin => hr (by rw [Rule.givenKinds]; exact mem_givenKindsOf hmem hin)) hn
  | once _ ih =>
    rw [Rule.givenKinds] at hr
    exact ih hmark hr hn
  | again _ _ ih ihs =>
    rw [Tree.preorderAll_append, List.mem_append] at hn
    rcases hn with hn | hn
    · rw [Rule.givenKinds] at hr
      exact ih hmark hr hn
    · exact ihs hmark hr hn
  | field _ ih | prec _ ih | weighed _ ih | unreserved _ ih =>
    rw [Rule.givenKinds] at hr
    exact ih hmark hr hn
  | renamed _ ih =>
    rw [Rule.givenKinds, List.mem_cons, not_or] at hr
    exact ih (fun heq => hr.1 (Option.some.inj heq).symm) hr.2 hn
  | @node m h k' r l cs hk' hrule hl _ hcomments hcs ih =>
    rw [Tree.preorderAll, Tree.preorderAll, List.append_nil, Tree.preorder_node,
      List.mem_cons] at hn
    rcases hn with rfl | hn
    · have hhead := hk.head_eq hk' hmark (hl.symm.trans hkind)
      exact .inr ⟨hcomments, r, hhead ▸ hrule, hcs⟩
    · rcases hcomments.mem_preorderAll hn with hextra | hn
      · exact .inl hextra
      · exact ih (by simp) (fun hin => hk.notGiven d (mem_givenKinds hrule hin)) hn
  | part _ hrule _ ih =>
    exact ih hmark (fun hin => hk.notGiven d (mem_givenKinds hrule hin)) hn

namespace Tree.IsScript

variable {t n : Tree}

theorem isExtra_or_made (h : t.IsScript d) {k : Kind} (hk : k ∈ ownKinds) (hn : n ∈ t.preorder)
    (hkind : n.kind = k) : IsExtra n ∨ Made d (.node k) n := by
  have hall : n ∈ Tree.preorderAll [t] := by
    rw [Tree.preorderAll, Tree.preorderAll, List.append_nil]
    exact hn
  exact Rule.Admits.made (oneConstruct_of_mem hk) h (by simp)
    (by simp [Rule.node, Rule.givenKinds]) hall hkind

/-- Every node of a script that has a kind which one construct alone gives is made by the definition
of the construct. -/
theorem made (h : t.IsScript d) {k : Kind} (hk : k ∈ ownKinds) (hcomment : k ≠ .comment)
    (hn : n ∈ t.preorder) (hkind : n.kind = k) : Made d (.node k) n :=
  (h.isExtra_or_made hk hn hkind).resolve_left fun hextra =>
    hcomment (hkind.symm.trans hextra.1)

/-- No definition speaks of comments. -/
theorem isExtra (h : t.IsScript d) (hn : n ∈ t.preorder) (hkind : n.kind = .comment) :
    IsExtra n := by
  refine (h.isExtra_or_made (by decide) hn hkind).resolve_right fun hmade => ?_
  obtain ⟨r, hr, -⟩ := hmade.rule
  have hnone : ruleOf? d (.node .comment) = none := by cases d <;> rfl
  rw [hnone] at hr
  cases hr

end Tree.IsScript

/-! ## The comments of a script -/

/-- What a token becomes that becomes a node. -/
theorem Token.Becomes.exists_eq {t : Token} {ts : List Tree} (h : t.Becomes m ts) {k : Kind}
    (hk : t.kind? = some k) : ∃ n : Tree, ts = [n] ∧ n.kind = m.1.getD k := by
  cases h with
  | nothing hnone =>
    rw [hk] at hnone
    cases hnone
  | @node k' l hk' hl _ _ =>
    rw [hk] at hk'
    cases hk'
    exact ⟨_, rfl, hl⟩

namespace Rule.Admits

variable {r : Rule} {rs : List Rule} {ts : List Tree}

theorem exists_of_seq (h : (Rule.seq (r :: rs)).Admits d m ts) :
    ∃ us vs, ts = us ++ vs ∧ r.Admits d m us ∧ (Rule.seq rs).Admits d m vs := by
  cases h with
  | next hr hrs => exact ⟨_, _, rfl, hr, hrs⟩

theorem eq_nil_of_seq (h : (Rule.seq []).Admits d m ts) : ts = [] := by
  cases h
  rfl

theorem exists_of_choice (h : (Rule.choice rs).Admits d m ts) : ∃ r ∈ rs, r.Admits d m ts := by
  cases h with
  | choice hr h => exact ⟨_, hr, h⟩

theorem exists_of_word {w : String} (h : (Rule.word w).Admits d m ts) :
    ∃ n : Tree, ts = [n] ∧ n.kind = m.1.getD (Token.wordKind w) := by
  cases h with
  | word h => exact h.exists_eq rfl

theorem exists_of_token {t : Token} {k : Kind} (h : (Rule.token t).Admits d m ts)
    (hk : t.kind? = some k) : ∃ n : Tree, ts = [n] ∧ n.kind = m.1.getD k := by
  cases h with
  | token h => exact h.exists_eq hk

theorem exists_of_node {k : Kind} (h : (Rule.node k).Admits d m ts) : ∃ n : Tree, ts = [n] := by
  cases h with
  | node => exact ⟨_, rfl⟩
  | part hk => cases hk

theorem of_part {p : Part} (h : (Rule.part p).Admits d m ts) (hp : (Head.part p).kind? = none)
    (hr : ruleOf? d (.part p) = some r) : r.Admits d m ts := by
  cases h with
  | node hk =>
    rw [hp] at hk
    cases hk
  | part _ hr' h =>
    rw [hr] at hr'
    cases hr'
    exact h

/-- A name that something is exported under is one node. -/
theorem exists_of_exportName (h : (Rule.part .exportName).Admits d m ts) :
    ∃ n : Tree, ts = [n] := by
  have hrule : ruleOf? d (.part .exportName) =
      some (.choice ([Rule.identifier, Rule.node .string] ++ d.choose [.word "default"] [])) := by
    cases d <;> rfl
  obtain ⟨r, hr, h⟩ := (h.of_part rfl hrule).exists_of_choice
  rcases List.mem_append.1 hr with hr | hr
  · rcases List.mem_pair.1 hr with rfl | rfl
    · obtain ⟨n, hn, -⟩ := h.exists_of_token rfl
      exact ⟨n, hn⟩
    · exact h.exists_of_node
  · cases d with
    | plain =>
      obtain rfl := List.mem_singleton.1 hr
      obtain ⟨n, hn, -⟩ := h.exists_of_word
      exact ⟨n, hn⟩
    | typed => cases hr

end Rule.Admits

/-- In the export of a namespace a mark and a word come before the name. -/
theorem Made.namespaceExport_children {n : Tree} (h : Made d (.node .namespaceExport) n) :
    ∃ mark word name : Tree, n.children.filter Tree.isPlain = [mark, word, name] ∧
      mark.kind = .word ∧ word.kind = .word := by
  obtain ⟨r, hr, h⟩ := h.rule
  have hrule : ruleOf? d (.node .namespaceExport) =
      some (.seq [.word "*", .word "as", Rule.part .exportName]) := by
    cases d <;> rfl
  rw [hrule] at hr
  cases hr
  obtain ⟨us, vs, hchildren, hmark, h⟩ := h.exists_of_seq
  obtain ⟨us', vs', rfl, hword, h⟩ := h.exists_of_seq
  obtain ⟨us'', vs'', rfl, hname, h⟩ := h.exists_of_seq
  obtain rfl := h.eq_nil_of_seq
  obtain ⟨mark, rfl, hm⟩ := hmark.exists_of_word
  obtain ⟨word, rfl, hw⟩ := hword.exists_of_word
  obtain ⟨name, rfl⟩ := hname.exists_of_exportName
  exact ⟨mark, word, name, hchildren, hm, hw⟩

/-- Where a comment comes after all that is exported by name, nothing is: the name is a keyword. -/
theorem Made.comment_of_getLast? {n c : Tree} (h : Made d (.node .namespaceExport) n)
    (hkind : n.kind = .namespaceExport) (hlast : n.namedChildren.getLast? = some c)
    (hcomment : c.kind = .comment) : ∀ e ∈ n.namedChildren, e.kind = .comment := by
  intro e he
  by_contra hplain
  obtain ⟨mark, word, name, hchildren, hmark, hword⟩ := h.namespaceExport_children
  obtain ⟨hein, hnamed⟩ := List.mem_filter.1 he
  have hemem : e ∈ n.children.filter Tree.isPlain :=
    List.mem_filter.2 ⟨hein, bne_iff_ne.2 hplain⟩
  have hne : ∀ w : Tree, w.kind = .word → e ≠ w := by
    rintro w hw rfl
    rw [Tree.isNamed, hw] at hnamed
    cases hnamed
  rw [hchildren] at hemem
  simp only [List.mem_cons, List.not_mem_nil, or_false, hne mark hmark, hne word hword,
    false_or] at hemem
  subst hemem
  -- The last child is no comment, so it is the name, which is then the last named child as well.
  obtain ⟨last, hl⟩ : ∃ last, n.children.getLast? = some last := by
    cases hl : n.children.getLast? with
    | some last => exact ⟨last, rfl⟩
    | none =>
      rw [List.getLast?_eq_none_iff] at hl
      rw [hl] at hein
      cases hein
  obtain ⟨before, hbefore⟩ := List.getLast?_eq_some_iff.1 hl
  have hlplain : last.isPlain = true := bne_iff_ne.2 (h.comments.nameLast hkind last hl)
  rw [hbefore, List.filter_append, List.filter_cons_of_pos hlplain, List.filter_nil] at hchildren
  have heq : last = e := by
    have hends := congrArg List.getLast? hchildren
    simpa using hends
  subst heq
  rw [Tree.namedChildren, hbefore, List.filter_append, List.filter_cons_of_pos hnamed,
    List.filter_nil, List.getLast?_concat] at hlast
  exact hplain (Option.some.inj hlast ▸ hcomment)

/-- The grammars let comments occur in this way. -/
theorem Tree.IsScript.commentsAside {t : Tree} (h : t.IsScript d) : t.CommentsAside where
  bare n hn hkind := by
    obtain ⟨-, l, cs, hcomments, hc⟩ := h.isExtra hn hkind
    exact hcomments.bare n hc hkind
  partless n hn hkind := by
    obtain ⟨-, l, cs, hcomments, hc⟩ := h.isExtra hn hkind
    exact hcomments.partless n hc hkind
  nameLast n hn hkind c hlast hcomment :=
    (h.made (by decide) (by decide) hn hkind).comment_of_getLast? hkind hlast hcomment

/-! ## Counting children -/

/-- What can be told of a node from the rule that admits it: its kind, its part, and the text of a
keyword or a mark. -/
structure Trait where
  kind : Kind
  role : Option Role
  word : Option String
  deriving DecidableEq, Repr

/-- The trait of a node. -/
def Tree.trait (t : Tree) : Trait :=
  ⟨t.kind, t.role, if t.kind = .word then some t.text else none⟩

/-- The number of nodes of each of some sorts. -/
abbrev Tally := List Nat

/-- How many of some nodes are of each sort. -/
def countEach (sorts : List (Trait → Bool)) (ts : List Tree) : Tally :=
  sorts.map fun f => ts.countP fun t => f t.trait

namespace Tally

/-- No node of any sort. -/
def zero (sorts : List (Trait → Bool)) : Tally := sorts.map fun _ => 0

def add (a b : Tally) : Tally := List.zipWith (· + ·) a b

/-- All sums of two tallies, one from each list. -/
def sums (as bs : List Tally) : List Tally := (as.flatMap fun a => bs.map a.add).eraseDups

end Tally

/-- The tally of a single node. -/
def Trait.tally (sorts : List (Trait → Bool)) (x : Trait) : Tally :=
  sorts.map fun f => if f x then 1 else 0

/-- The tally of the node that a token becomes, unless it has a text that the grammar does not
tell. -/
def Token.tally? (sorts : List (Trait → Bool)) (m : Mark) (t : Token) : Option Tally :=
  match t.kind? with
  | none => some (.zero sorts)
  | some k =>
    if m.1.getD k = .word then
      match t with
      | .word w => some (Trait.tally sorts ⟨.word, m.2, some w⟩)
      | _ => none
    else some (Trait.tally sorts ⟨m.1.getD k, m.2, none⟩)

/-- The tally of the node that a construct with a kind of its own becomes. -/
def nodeTally? (sorts : List (Trait → Bool)) (m : Mark) (k : Kind) : Option Tally :=
  if m.1.getD k = .word then none else some (Trait.tally sorts ⟨m.1.getD k, m.2, none⟩)

mutual

/-- The tallies of all that a rule can admit, given those of the parts without a node of their own.
There are none where something is repeated that counts. -/
def Rule.talliesWith (sorts : List (Trait → Bool)) (look : Mark → Head → Option (List Tally))
    (m : Mark) : Rule → Option (List Tally)
  | .nothing => some [.zero sorts]
  | .word w => ((Token.word w).tally? sorts m).map ([·])
  | .token t => (t.tally? sorts m).map ([·])
  | .head h =>
    match h.kind? with
    | some k => (nodeTally? sorts m k).map ([·])
    | none => look m h
  | .seq rules => talliesInTurn sorts look m rules
  | .choice rules => talliesOfAny sorts look m rules
  | .many1 rule =>
    (rule.talliesWith sorts look m).bind fun vs =>
      if vs.all (· == .zero sorts) then some vs else none
  | .field role rule => rule.talliesWith sorts look (m.1, some role)
  | .renamed kind rule => rule.talliesWith sorts look (some kind, m.2)
  | .prec _ _ rule | .weighed _ rule | .unreserved rule => rule.talliesWith sorts look m

/-- The tallies of all that several rules can admit in turn. -/
def talliesInTurn (sorts : List (Trait → Bool)) (look : Mark → Head → Option (List Tally))
    (m : Mark) : List Rule → Option (List Tally)
  | [] => some [.zero sorts]
  | r :: rs =>
    (r.talliesWith sorts look m).bind fun vs =>
      (talliesInTurn sorts look m rs).map fun ws => Tally.sums vs ws

/-- The tallies of all that one of several rules can admit. -/
def talliesOfAny (sorts : List (Trait → Bool)) (look : Mark → Head → Option (List Tally))
    (m : Mark) : List Rule → Option (List Tally)
  | [] => some []
  | r :: rs =>
    (r.talliesWith sorts look m).bind fun vs =>
      (talliesOfAny sorts look m rs).map fun ws => (vs ++ ws).eraseDups

end

/-- The tallies of what a part without a node of its own can admit; `depth` bounds how deep such
parts are within each other. -/
def lookUp (sorts : List (Trait → Bool)) (d : Dialect) : Nat → Mark → Head → Option (List Tally)
  | 0, _, _ => none
  | depth + 1, m, h => (ruleOf? d h).bind (Rule.talliesWith sorts (lookUp sorts d depth) m)

/-- The tallies that the children of the nodes of a construct can have.  No node is of a construct
that the dialect does not know. -/
def childTallies (sorts : List (Trait → Bool)) (d : Dialect) (h : Head) : Option (List Tally) :=
  match ruleOf? d h with
  | some r => r.talliesWith sorts (lookUp sorts d 8) (none, none)
  | none => some []

/-- Is a comment, wherever it stands, of none of the sorts? -/
def overlookComments (sorts : List (Trait → Bool)) : Bool :=
  sorts.all fun f => !f ⟨.comment, none, none⟩ && !f ⟨.comment, some .body, none⟩

section

variable {sorts : List (Trait → Bool)}

theorem countEach_nil : countEach sorts [] = .zero sorts := rfl

theorem countEach_singleton (t : Tree) : countEach sorts [t] = t.trait.tally sorts := by
  unfold countEach Trait.tally
  refine List.map_congr_left fun f _ => ?_
  rw [List.countP_cons, List.countP_nil, Nat.zero_add]

theorem countEach_append (ts us : List Tree) :
    countEach sorts (ts ++ us) = (countEach sorts ts).add (countEach sorts us) := by
  unfold countEach Tally.add
  rw [List.zipWith_map, List.zipWith_self]
  exact List.map_congr_left fun f _ => List.countP_append

theorem Tally.mem_sums {as bs : List Tally} {a b : Tally} (ha : a ∈ as) (hb : b ∈ bs) :
    a.add b ∈ Tally.sums as bs := by
  rw [Tally.sums, List.mem_eraseDups]
  exact List.mem_flatMap.2 ⟨a, ha, List.mem_map_of_mem hb⟩

theorem Tally.zero_add_zero : (Tally.zero sorts).add (.zero sorts) = .zero sorts := by
  rw [Tally.add, Tally.zero, List.zipWith_map, List.zipWith_self]

/-- What counts for nothing may be repeated: the sum of two such tallies is one of them. -/
theorem Tally.add_mem_of_all_zero {vs : List Tally} (hzero : vs.all (· == .zero sorts) = true)
    {a b : Tally} (ha : a ∈ vs) (hb : b ∈ vs) : a.add b ∈ vs := by
  rw [List.all_eq_true] at hzero
  obtain rfl := beq_iff_eq.1 (hzero a ha)
  obtain rfl := beq_iff_eq.1 (hzero b hb)
  rw [Tally.zero_add_zero]
  exact ha

theorem countEach_node {l : Label} {cs : List Tree} {m : Mark} {k : Kind}
    (hl : l.kind = m.1.getD k) (hrole : l.role = m.2) :
    countEach sorts [.node l cs] =
      Trait.tally sorts ⟨m.1.getD k, m.2, if m.1.getD k = .word then some l.text else none⟩ := by
  rw [countEach_singleton, ← hl, ← hrole]
  rfl

theorem Token.Becomes.countEach_eq {t : Token} {ts : List Tree} (h : t.Becomes m ts) {v : Tally}
    (hv : t.tally? sorts m = some v) : countEach sorts ts = v := by
  unfold Token.tally? at hv
  cases h with
  | nothing hk =>
    rw [hk] at hv
    cases hv
    rfl
  | @node k l hk hl hrole htext =>
    rw [hk] at hv
    rw [countEach_node hl hrole]
    dsimp only at hv
    by_cases hword : m.1.getD k = .word
    · rw [if_pos hword] at hv
      rw [if_pos hword, hword]
      split at hv
      · rename_i w
        cases hv
        rw [htext w rfl]
      · cases hv
    · rw [if_neg hword] at hv
      cases hv
      rw [if_neg hword]

/-- What one of several rules can admit, all of them together can. -/
theorem exists_talliesWith_of_mem {look : Mark → Head → Option (List Tally)} {r : Rule}
    {rs : List Rule} {vs : List Tally} (hr : r ∈ rs) (h : talliesOfAny sorts look m rs = some vs) :
    ∃ ws, r.talliesWith sorts look m = some ws ∧ ws ⊆ vs := by
  induction rs generalizing vs with
  | nil => cases hr
  | cons r' rs ih =>
    rw [talliesOfAny, Option.bind_eq_some_iff] at h
    obtain ⟨ws, hws, h⟩ := h
    obtain ⟨more, hmore, rfl⟩ := Option.map_eq_some_iff.1 h
    rcases List.mem_cons.1 hr with rfl | hr
    · refine ⟨ws, hws, fun v hv => ?_⟩
      rw [List.mem_eraseDups]
      exact List.mem_append_left _ hv
    · obtain ⟨us, hus, hsub⟩ := ih hr hmore
      refine ⟨us, hus, fun v hv => ?_⟩
      rw [List.mem_eraseDups]
      exact List.mem_append_right _ (hsub hv)

/-- Whatever a rule admits has one of the tallies that are computed. -/
theorem Rule.Admits.countEach_mem {r : Rule} {ts : List Tree} (h : r.Admits d m ts) {depth : Nat}
    {vs : List Tally} (hvs : r.talliesWith sorts (lookUp sorts d depth) m = some vs) :
    countEach sorts ts ∈ vs := by
  induction h generalizing depth vs with
  | nothing | done =>
    cases hvs
    exact List.mem_singleton.2 countEach_nil
  | word hbecomes | token hbecomes =>
    obtain ⟨v, hv, rfl⟩ := Option.map_eq_some_iff.1 hvs
    exact List.mem_singleton.2 (hbecomes.countEach_eq hv)
  | next _ _ ih ihs =>
    rw [Rule.talliesWith, talliesInTurn, Option.bind_eq_some_iff] at hvs
    obtain ⟨as, has, hvs⟩ := hvs
    obtain ⟨bs, hbs, rfl⟩ := Option.map_eq_some_iff.1 hvs
    rw [countEach_append]
    exact Tally.mem_sums (ih has) (ihs (by rw [Rule.talliesWith]; exact hbs))
  | choice hr _ ih =>
    rw [Rule.talliesWith] at hvs
    obtain ⟨ws, hws, hsub⟩ := exists_talliesWith_of_mem hr hvs
    exact hsub (ih hws)
  | once _ ih =>
    rw [Rule.talliesWith, Option.bind_eq_some_iff] at hvs
    obtain ⟨ws, hws, hvs⟩ := hvs
    split at hvs
    · cases hvs
      exact ih hws
    · cases hvs
  | again _ _ ih ihs =>
    have hall := ihs hvs
    rw [Rule.talliesWith, Option.bind_eq_some_iff] at hvs
    obtain ⟨ws, hws, hvs⟩ := hvs
    split at hvs
    · rename_i hzero
      cases hvs
      rw [countEach_append]
      exact Tally.add_mem_of_all_zero hzero (ih hws) hall
    · cases hvs
  | field _ ih | renamed _ ih | prec _ ih | weighed _ ih | unreserved _ ih =>
    rw [Rule.talliesWith] at hvs
    exact ih hvs
  | node hk _ hl hrole _ _ _ =>
    rw [Rule.talliesWith, hk] at hvs
    obtain ⟨v, hv, rfl⟩ := Option.map_eq_some_iff.1 hvs
    rw [nodeTally?] at hv
    split at hv
    · cases hv
    · rename_i hword
      cases hv
      rw [countEach_node hl hrole, if_neg hword]
      exact List.mem_singleton_self _
  | part hk hrule _ ih =>
    rw [Rule.talliesWith, hk] at hvs
    cases depth with
    | zero => cases hvs
    | succ depth =>
      dsimp only at hvs
      rw [lookUp, hrule, Option.bind_some] at hvs
      exact ih hvs

/-- Comments are of none of the sorts that overlook them, so the numbers are those without them. -/
theorem CommentsBetween.countEach_eq {l : Label} {cs : List Tree} (h : CommentsBetween l cs)
    (hsorts : overlookComments sorts = true) :
    countEach sorts cs = countEach sorts (cs.filter Tree.isPlain) := by
  unfold countEach
  refine List.map_congr_left fun f hf => ?_
  rw [List.countP_filter]
  refine List.countP_congr fun c hc => ?_
  cases hisplain : c.isPlain with
  | true => simp
  | false =>
    have hkind := Tree.kind_eq_of_isPlain_eq_false hisplain
    have htrait : c.trait = ⟨.comment, c.role, none⟩ := by
      rw [Tree.trait, hkind]
      rfl
    obtain ⟨hnone, hbody⟩ := Bool.and_eq_true_iff.1 (List.all_eq_true.1 hsorts f hf)
    rw [Bool.not_eq_true'] at hnone hbody
    rcases h.partless c hc hkind with hrole | hrole
    · rw [htrait, hrole, hnone]
      simp
    · rw [htrait, hrole, hbody]
      simp

/-- What the tallies of a construct satisfy, the numbers of a node's children do. -/
theorem Made.countEach_satisfies {h : Head} {n : Tree} (hn : Made d h n)
    (hsorts : overlookComments sorts = true) {p : Tally → Bool}
    (hp : (childTallies sorts d h).any (·.all p) = true) :
    p (countEach sorts n.children) = true := by
  obtain ⟨r, hr, hadmits⟩ := hn.rule
  rw [childTallies, hr] at hp
  rw [hn.comments.countEach_eq hsorts]
  cases hvs : r.talliesWith sorts (lookUp sorts d 8) (none, none) with
  | none =>
    simp only [hvs] at hp
    cases hp
  | some vs =>
    simp only [hvs] at hp
    exact List.all_eq_true.1 hp _ (hadmits.countEach_mem hvs)

end

end BundleReach.Script
