import BundleReach.Proofs.Script.Admission

/-!
# Recognizing the trees of a grammar

What rules admit can be computed for trees without comments: trying a rule on some nodes leaves the
nodes after those that it admits, in every way that there is.  So a tree that is given node by node
can be shown to be that of a script: `Tree.isScript_of_recognized`.
-/

namespace BundleReach.Script

variable {d : Dialect} {m : Mark}

/-- May the node of a token have the given text?  A keyword and a mark have their own. -/
def Token.reads : Token → String → Bool
  | .word w, text => text == w
  | _, _ => true

/-- What is left of some nodes after the node that a token becomes. -/
def Token.rests (m : Mark) (t : Token) (ts : List Tree) : List (List Tree) :=
  match t.kind?, ts with
  | none, ts => [ts]
  | some k, .node l [] :: ts =>
    if l.kind = m.1.getD k ∧ l.role = m.2 ∧ t.reads l.text = true then [ts] else []
  | some _, _ => []

/-- What is left of some nodes, none of them a comment, after those that a rule admits; `depth`
bounds how deep rules are tried within each other. -/
def Rule.rests (d : Dialect) : Nat → Mark → Rule → List Tree → List (List Tree)
  | 0, _, _, _ => []
  | depth + 1, m, r, ts =>
    match r with
    | .nothing => [ts]
    | .word w => (Token.word w).rests m ts
    | .token t => t.rests m ts
    | .seq [] => [ts]
    | .seq (r :: rs) => (rests d depth m r ts).flatMap (rests d depth m (.seq rs))
    | .choice rs => rs.flatMap fun r => rests d depth m r ts
    | .many1 r => (rests d depth m r ts).flatMap fun us => us :: rests d depth m (.many1 r) us
    | .field role r => rests d depth (m.1, some role) r ts
    | .renamed kind r => rests d depth (some kind, m.2) r ts
    | .prec _ _ r | .weighed _ r | .unreserved r => rests d depth m r ts
    | .head h =>
      match h.kind?, ruleOf? d h, ts with
      | none, some r, ts => rests d depth m r ts
      | some k, some r, .node l cs :: ts =>
        if l.kind = m.1.getD k ∧ l.role = m.2 ∧ cs.all Tree.isPlain = true ∧
          (rests d depth (none, none) r cs).any List.isEmpty = true then [ts] else []
      | _, _, _ => []

theorem Token.becomes_of_mem_rests {t : Token} {ts us : List Tree} (h : us ∈ t.rests m ts) :
    ∃ vs, ts = vs ++ us ∧ t.Becomes m vs := by
  unfold Token.rests at h
  split at h
  · rename_i hk
    exact ⟨[], (List.mem_singleton.1 h).symm, .nothing hk⟩
  · rename_i k l ts hk
    split at h
    · rename_i hl
      obtain ⟨hkind, hrole, htext⟩ := hl
      refine ⟨[.node l []], by rw [List.mem_singleton.1 h]; rfl, .node hk hkind hrole ?_⟩
      rintro w rfl
      exact beq_iff_eq.1 htext
    · cases h
  · cases h

/-- Among nodes without comments, nothing needs to be said of comments. -/
theorem CommentsBetween.of_plain {l : Label} {cs : List Tree} (h : ∀ c ∈ cs, c.isPlain = true) :
    CommentsBetween l cs := by
  have hkind : ∀ c ∈ cs, c.kind ≠ .comment := by
    intro c hc hcomment
    have hplain := h c hc
    rw [Tree.isPlain, hcomment] at hplain
    cases hplain
  exact ⟨fun c hc hcomment => absurd hcomment (hkind c hc),
    fun c hc hcomment => absurd hcomment (hkind c hc),
    fun _ c hc => hkind c (List.mem_of_getLast? hc)⟩

/-- What is left of some nodes is what follows nodes that the rule admits. -/
theorem Rule.admits_of_mem_rests {depth : Nat} {r : Rule} {ts us : List Tree}
    (h : us ∈ r.rests d depth m ts) : ∃ vs, ts = vs ++ us ∧ r.Admits d m vs := by
  induction depth generalizing m r ts us with
  | zero => cases h
  | succ depth ih =>
    cases r with
    | nothing => exact ⟨[], (List.mem_singleton.1 h).symm, .nothing⟩
    | word w =>
      obtain ⟨vs, hvs, hbecomes⟩ := Token.becomes_of_mem_rests h
      exact ⟨vs, hvs, .word hbecomes⟩
    | token t =>
      obtain ⟨vs, hvs, hbecomes⟩ := Token.becomes_of_mem_rests h
      exact ⟨vs, hvs, .token hbecomes⟩
    | head head =>
      simp only [Rule.rests] at h
      split at h
      · rename_i r hkind hrule
        obtain ⟨vs, hvs, hadmits⟩ := ih h
        exact ⟨vs, hvs, .part hkind hrule hadmits⟩
      · rename_i k r l cs ts hkind hrule
        split at h
        · rename_i hnode
          obtain ⟨hl, hrole, hplain, hany⟩ := hnode
          obtain ⟨rest, hrest, hempty⟩ := List.any_eq_true.1 hany
          obtain ⟨vs, hvs, hadmits⟩ := ih hrest
          rw [List.isEmpty_iff.1 hempty, List.append_nil] at hvs
          rw [List.all_eq_true] at hplain
          refine ⟨[.node l cs], by rw [List.mem_singleton.1 h]; rfl,
            .node hkind hrule hl hrole (.of_plain hplain) ?_⟩
          rw [List.filter_eq_self.2 hplain, hvs]
          exact hadmits
        · cases h
      · cases h
    | seq rules =>
      cases rules with
      | nil => exact ⟨[], (List.mem_singleton.1 h).symm, .done⟩
      | cons r rs =>
        obtain ⟨next, hnext, hrest⟩ := List.mem_flatMap.1 h
        obtain ⟨vs, rfl, hadmits⟩ := ih hnext
        obtain ⟨ws, rfl, hmore⟩ := ih hrest
        exact ⟨vs ++ ws, (List.append_assoc _ _ _).symm, .next hadmits hmore⟩
    | choice rules =>
      obtain ⟨r, hr, h⟩ := List.mem_flatMap.1 h
      obtain ⟨vs, hvs, hadmits⟩ := ih h
      exact ⟨vs, hvs, .choice hr hadmits⟩
    | many1 r =>
      obtain ⟨next, hnext, hrest⟩ := List.mem_flatMap.1 h
      obtain ⟨vs, rfl, hadmits⟩ := ih hnext
      rcases List.mem_cons.1 hrest with rfl | hrest
      · exact ⟨vs, rfl, .once hadmits⟩
      · obtain ⟨ws, rfl, hmore⟩ := ih hrest
        exact ⟨vs ++ ws, (List.append_assoc _ _ _).symm, .again hadmits hmore⟩
    | field role r =>
      obtain ⟨vs, hvs, hadmits⟩ := ih h
      exact ⟨vs, hvs, .field hadmits⟩
    | renamed kind r =>
      obtain ⟨vs, hvs, hadmits⟩ := ih h
      exact ⟨vs, hvs, .renamed hadmits⟩
    | prec level grouping r =>
      obtain ⟨vs, hvs, hadmits⟩ := ih h
      exact ⟨vs, hvs, .prec hadmits⟩
    | weighed weight r =>
      obtain ⟨vs, hvs, hadmits⟩ := ih h
      exact ⟨vs, hvs, .weighed hadmits⟩
    | unreserved r =>
      obtain ⟨vs, hvs, hadmits⟩ := ih h
      exact ⟨vs, hvs, .unreserved hadmits⟩

/-- Is the tree recognized as that of a script, with rules tried so deep within each other? -/
def Tree.recognized (d : Dialect) (depth : Nat) (t : Tree) : Bool :=
  ((Rule.node .program).rests d depth (none, none) [t]).any List.isEmpty

/-- A tree that is recognized is that of a script. -/
theorem Tree.isScript_of_recognized (depth : Nat) {t : Tree} (h : t.recognized d depth = true) :
    t.IsScript d := by
  obtain ⟨rest, hrest, hempty⟩ := List.any_eq_true.1 h
  obtain ⟨vs, hvs, hadmits⟩ := Rule.admits_of_mem_rests hrest
  rw [List.isEmpty_iff.1 hempty, List.append_nil] at hvs
  rw [Tree.IsScript, hvs]
  exact hadmits

end BundleReach.Script
