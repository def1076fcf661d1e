import BundleReach.Path.Basic

/-!
# Names as parts of paths

A part can be read back from a text if it is not empty, does not stay and holds no slash; it is a
name if it does not go up either.  A path of names from the top is the normal form of itself.

* `partsOf_intercalate` — parts written with slashes between them are read back.
* `rename_eq_ok` — a path that has a name takes any other part for it.
* `isPlain_iff` — plain paths are the absolute ones that texts write and that are normal.
-/

namespace BundleReach

namespace Text

theorem splitAtMark_eq_splitOn (mark : Char) (cs : List Char) :
    splitAtMark mark cs = cs.splitOn mark := by
  induction cs with
  | nil => rfl
  | cons c rest ih =>
    rw [splitAtMark, ih, List.splitOn_cons_eq_if_modifyHead]
    by_cases hc : c = mark
    · simp [hc]
    · rw [if_neg hc, if_neg (by simpa using hc)]
      cases h : rest.splitOn mark with
      | nil => exact absurd h (List.splitOn_ne_nil mark rest)
      | cons piece pieces => rfl

/-- A text without the mark is one piece. -/
theorem pieces_of_not_mem {mark : Char} {s : String} (h : mark ∉ s.toList) :
    pieces mark s = [s] := by
  rw [pieces, splitAtMark_eq_splitOn, List.splitOn_eq_singleton h, List.map_singleton,
    String.ofList_toList]

/-- Pieces joined with a mark that none of them holds are the pieces of the whole. -/
theorem pieces_intercalate {parts : List String} (hne : parts ≠ [])
    (h : ∀ part ∈ parts, '/' ∉ part.toList) : pieces '/' ("/".intercalate parts) = parts := by
  have hlists : ∀ cs ∈ parts.map String.toList, '/' ∉ cs := by
    intro cs hcs
    obtain ⟨part, hpart, rfl⟩ := List.mem_map.1 hcs
    exact h part hpart
  have hsplit := List.splitOn_intercalate '/' hlists (by simpa using hne)
  rw [pieces, splitAtMark_eq_splitOn, String.toList_intercalate]
  rw [show "/".toList = ['/'] from rfl, hsplit, List.map_map]
  simp

end Text

namespace Path

variable {part : String} {parts : List String} {p : Path}

/-! ## Parts -/

/-- A part that is read back from a text. -/
structure IsPart (part : String) : Prop where
  ne_empty : part ≠ ""
  ne_here : part ≠ "."
  no_slash : '/' ∉ part.toList

/-- A part that names what stands in a folder. -/
structure IsName (part : String) : Prop extends IsPart part where
  ne_up : part ≠ up

instance (part : String) : Decidable (IsPart part) :=
  decidable_of_iff (part ≠ "" ∧ part ≠ "." ∧ '/' ∉ part.toList)
    ⟨fun h => ⟨h.1, h.2.1, h.2.2⟩, fun h => ⟨h.ne_empty, h.ne_here, h.no_slash⟩⟩

instance (part : String) : Decidable (IsName part) :=
  decidable_of_iff (IsPart part ∧ part ≠ up) ⟨fun h => ⟨h.1, h.2⟩, fun h => ⟨h.toIsPart, h.ne_up⟩⟩

theorem isPart_up : IsPart up := ⟨by decide, by decide, by decide⟩

theorem partsOf_eq_self (h : ∀ part ∈ parts, IsPart part) :
    parts.filter (fun part => part != "" && part != ".") = parts := by
  rw [List.filter_eq_self]
  intro part hpart
  simpa using ⟨(h part hpart).ne_empty, (h part hpart).ne_here⟩

/-- Parts written with slashes between them are read back. -/
theorem partsOf_intercalate (h : ∀ part ∈ parts, IsPart part) :
    partsOf ("/".intercalate parts) = parts := by
  by_cases hne : parts = []
  · subst hne
    decide
  · rw [partsOf, Text.pieces_intercalate hne fun part hpart => (h part hpart).no_slash,
      partsOf_eq_self h]

/-- Parts written with slashes between them start wherever their reader stands. -/
theorem anchorOf_intercalate (hne : parts ≠ []) (h : ∀ part ∈ parts, IsPart part) :
    anchorOf ("/".intercalate parts).toList = .here := by
  have hpieces := Text.pieces_intercalate hne fun part hpart => (h part hpart).no_slash
  cases hcs : ("/".intercalate parts).toList with
  | nil => rfl
  | cons c cs =>
    have hc : c ≠ '/' := by
      rintro rfl
      have hempty : "" ∈ parts := by
        rw [← hpieces, Text.pieces, hcs]
        exact List.mem_cons_self
      exact (h "" hempty).ne_empty rfl
    unfold anchorOf
    split
    · rename_i heq
      exact absurd (List.cons.inj heq).1 hc
    · rename_i heq
      exact absurd (List.cons.inj heq).1 hc
    · rename_i heq
      exact absurd (List.cons.inj heq).1 hc
    · rfl

/-- From a path, parts written with slashes between them lead further by these parts. -/
theorem child_intercalate (hne : parts ≠ []) (h : ∀ part ∈ parts, IsPart part) (p : Path) :
    p.child ("/".intercalate parts) = ⟨p.anchor, p.parts ++ parts⟩ := by
  rw [child, ofString, anchorOf_intercalate hne h, partsOf_intercalate h, parts_join_of_here]

/-- A step that stays adds no part. -/
theorem partsOf_here_append (s : String) : partsOf ("./" ++ s) = partsOf s := by
  have hsplit : Text.splitAtMark '/' ("./" ++ s).toList =
      ['.'] :: Text.splitAtMark '/' s.toList := by
    have hdot : '/' ∉ ['.'] := by decide
    rw [Text.splitAtMark_eq_splitOn, Text.splitAtMark_eq_splitOn, String.toList_append]
    exact List.splitOn_append_cons_self_of_not_mem hdot s.toList
  rw [partsOf, Text.pieces, hsplit, List.map_cons, List.filter_cons_of_neg (by decide)]
  rfl

theorem anchorOf_of_dot (cs : List Char) : anchorOf ('.' :: cs) = .here := rfl

/-- A text without a slash starts wherever its reader stands. -/
theorem anchorOf_of_not_mem {cs : List Char} (h : '/' ∉ cs) : anchorOf cs = .here := by
  unfold anchorOf
  split
  · exact absurd List.mem_cons_self h
  · exact absurd List.mem_cons_self h
  · exact absurd List.mem_cons_self h
  · rfl

/-- What is added to a part without a slash makes a part. -/
theorem IsPart.append (h : IsPart part) {s : String} (hs : '/' ∉ s.toList) :
    IsPart (part ++ s) := by
  refine ⟨fun hempty => h.ne_empty ?_, fun hhere => ?_, ?_⟩
  · exact (String.append_eq_empty_iff.1 hempty).1
  · have hlists : part.toList ++ s.toList = ['.'] := by
      rw [← String.toList_append, hhere]
      rfl
    rcases List.append_eq_singleton_iff.1 hlists with ⟨hnil, -⟩ | ⟨hdot, -⟩
    · exact h.ne_empty (String.toList_inj.1 hnil)
    · exact h.ne_here (String.toList_inj.1 hdot)
  · rw [String.toList_append, List.mem_append, not_or]
    exact ⟨h.no_slash, hs⟩

theorem partsOf_of_isPart (h : IsPart part) : partsOf part = [part] := by
  rw [partsOf, Text.pieces_of_not_mem h.no_slash, partsOf_eq_self]
  intro p hp
  exact List.mem_singleton.1 hp ▸ h

/-- A part by itself is read as a path of one part. -/
theorem ofString_of_isPart (h : IsPart part) : ofString part = ⟨.here, [part]⟩ := by
  rw [ofString, anchorOf_of_not_mem h.no_slash, partsOf_of_isPart h]

/-- From a path, a part leads one part further. -/
theorem child_of_isPart (h : IsPart part) (p : Path) :
    p.child part = ⟨p.anchor, p.parts ++ [part]⟩ := by
  rw [child, ofString_of_isPart h, parts_join_of_here]

/-- The parts of a text are parts. -/
theorem isPart_of_mem_partsOf {s : String} (h : part ∈ partsOf s) : IsPart part := by
  obtain ⟨hpiece, hkept⟩ := List.mem_filter.1 h
  obtain ⟨hempty, hhere⟩ := Bool.and_eq_true_iff.1 hkept
  obtain ⟨cs, hcs, rfl⟩ := List.mem_map.1 hpiece
  refine ⟨by simpa using hempty, by simpa using hhere, ?_⟩
  rw [String.toList_ofList]
  exact Text.not_mem_of_mem_splitAtMark hcs

/-! ## Written paths -/

/-- A path of parts, as texts write them. -/
def IsWritten (p : Path) : Prop := ∀ part ∈ p.parts, IsPart part

instance (p : Path) : Decidable p.IsWritten :=
  inferInstanceAs (Decidable (∀ part ∈ p.parts, IsPart part))

theorem isWritten_ofString (s : String) : (ofString s).IsWritten :=
  fun _ hpart => isPart_of_mem_partsOf hpart

namespace IsWritten

theorem parent (h : p.IsWritten) : p.parent.IsWritten :=
  fun part hpart => h part (List.dropLast_subset _ hpart)

theorem child (h : p.IsWritten) (s : String) : (p.child s).IsWritten := by
  intro part hpart
  rw [Path.child, join] at hpart
  split at hpart
  · exact isWritten_ofString s part hpart
  · rcases List.mem_append.1 hpart with hpart | hpart
    · exact h part hpart
    · exact isWritten_ofString s part hpart

/-- Going up leaves parts of a stack, or steps up. -/
theorem mem_pushPart {anchored : Bool} {stack : List String} {q : String}
    (h : q ∈ pushPart anchored stack part) : q ∈ stack ∨ q = part ∨ q = up := by
  unfold pushPart at h
  split at h
  · split at h
    · split at h
      · exact .inl h
      · exact .inr (.inr (List.mem_singleton.1 h))
    · split at h
      · rcases List.mem_cons.1 h with rfl | h
        · exact .inr (.inr rfl)
        · exact .inl h
      · exact .inl (List.mem_cons_of_mem _ h)
  · rcases List.mem_cons.1 h with rfl | h
    · exact .inr (.inl rfl)
    · exact .inl h

theorem normal (h : p.IsWritten) : p.normal.IsWritten := by
  have hfold : ∀ (parts stack : List String), (∀ q ∈ stack, IsPart q) →
      (∀ q ∈ parts, IsPart q) → ∀ q ∈ parts.foldl (pushPart p.isAbsolute) stack, IsPart q := by
    intro parts
    induction parts with
    | nil => exact fun stack hstack _ => hstack
    | cons part rest ih =>
      intro stack hstack hparts
      refine ih _ (fun q hq => ?_) fun q hq => hparts q (List.mem_cons_of_mem part hq)
      rcases mem_pushPart hq with hq | rfl | rfl
      · exact hstack q hq
      · exact hparts q List.mem_cons_self
      · exact isPart_up
  intro part hpart
  exact hfold p.parts [] (fun q hq => by cases hq) h part (List.mem_reverse.1 hpart)

/-- The name of a path that has parts is one of them. -/
theorem isPart_name (h : p.IsWritten) (hp : p.parts ≠ []) : IsPart p.name := by
  rw [name, List.getLastD_eq_getLast?, List.getLast?_eq_some_getLast hp, Option.getD_some]
  exact h _ (List.getLast_mem hp)

end IsWritten

theorem rename_of_nameless (h : p.name = "") (s : String) : p.rename s = .error (.nameless p) :=
  if_pos h

/-- A path that has a name takes any other part for it. -/
theorem rename_eq_ok (hp : p.name ≠ "") (h : IsPart part) :
    p.rename part = .ok ⟨p.anchor, p.parts.dropLast ++ [part]⟩ := by
  have hslash : ¬ Text.finishesWith "/" part = true := by
    intro hends
    exact h.no_slash ((List.isSuffixOf_iff_suffix.1 hends).subset (by decide))
  have hhere : ¬ (ofString part).isAbsolute = true := by
    simp [isAbsolute, ofString, anchorOf_of_not_mem h.no_slash]
  have hone : ¬ (partsOf part).length ≠ 1 := by
    rw [partsOf_of_isPart h]
    exact fun hne => hne rfl
  rw [rename, if_neg hp, if_neg]
  simp only [not_or]
  exact ⟨h.ne_empty, hslash, hhere, hone⟩

/-! ## Plain paths -/

/-- A path of names from the top. -/
structure IsPlain (p : Path) : Prop where
  absolute : p.isAbsolute = true
  names : ∀ part ∈ p.parts, IsName part

/-- Names are put on a stack of parts one after the other. -/
theorem foldl_pushPart_of_names {anchored : Bool} {stack : List String}
    (h : ∀ part ∈ parts, part ≠ up) :
    parts.foldl (pushPart anchored) stack = parts.reverse ++ stack := by
  induction parts generalizing stack with
  | nil => rfl
  | cons part rest ih =>
    have hpush : pushPart anchored stack part = part :: stack :=
      if_neg (h part List.mem_cons_self)
    rw [List.foldl_cons, hpush, ih fun q hq => h q (List.mem_cons_of_mem part hq),
      List.reverse_cons, List.append_assoc, List.singleton_append]

/-- Going up takes names away, from the top of a stack down; at the bottom it has no effect. -/
theorem foldl_pushPart_replicate_up {stack : List String} (h : ∀ part ∈ stack, part ≠ up)
    (n : Nat) : (List.replicate n up).foldl (pushPart true) stack = stack.drop n := by
  induction n generalizing stack with
  | zero => rfl
  | succ n ih =>
    rw [List.replicate_succ, List.foldl_cons]
    cases stack with
    | nil =>
      rw [show pushPart true [] up = [] from rfl, ih h, List.drop_nil, List.drop_nil]
    | cons below rest =>
      have hpush : pushPart true (below :: rest) up = rest := by
        rw [pushPart, if_pos rfl]
        exact if_neg (h below List.mem_cons_self)
      rw [hpush, ih fun q hq => h q (List.mem_cons_of_mem below hq), List.drop_succ_cons]

theorem IsPlain.ne_up (h : p.IsPlain) : ∀ part ∈ p.parts, part ≠ up :=
  fun part hpart => (h.names part hpart).ne_up

theorem IsPlain.normal_eq (h : p.IsPlain) : p.normal = p := by
  rw [normal, foldl_pushPart_of_names h.ne_up, List.append_nil, List.reverse_reverse]

/-- Going up from the top stays there, so a stack of names stays one. -/
theorem ne_up_of_mem_foldl_pushPart {stack : List String} (h : ∀ part ∈ stack, part ≠ up) :
    ∀ part ∈ parts.foldl (pushPart true) stack, part ≠ up := by
  induction parts generalizing stack with
  | nil => exact h
  | cons first rest ih =>
    refine ih fun part hpart => ?_
    unfold pushPart at hpart
    split at hpart
    · split at hpart
      · cases hpart
      · rename_i below stack
        have hbelow : below ≠ up := h below List.mem_cons_self
        rw [if_neg hbelow] at hpart
        exact h part (List.mem_cons_of_mem below hpart)
    · rename_i hfirst
      rcases List.mem_cons.1 hpart with rfl | hpart
      · exact hfirst
      · exact h part hpart

/-- The plain paths are the absolute ones that texts write and that are normal. -/
theorem isPlain_iff : p.IsPlain ↔ p.IsWritten ∧ p.isAbsolute = true ∧ p.normal = p := by
  constructor
  · intro h
    exact ⟨fun part hpart => (h.names part hpart).toIsPart, h.absolute, h.normal_eq⟩
  · rintro ⟨hwritten, habsolute, hnormal⟩
    refine ⟨habsolute, fun part hpart => ⟨hwritten part hpart, ?_⟩⟩
    rw [← hnormal, normal, habsolute] at hpart
    exact ne_up_of_mem_foldl_pushPart (fun q hq => by cases hq) part (List.mem_reverse.1 hpart)

end Path

end BundleReach
