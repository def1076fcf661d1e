import BundleReach.Proofs.Path.Relative

/-!
# Where texts lead, and names with endings

From a path, a text leads on by its parts, unless a slash comes first in it: then it leads away from
the path.  A name that an ending is added to is still a name as long as it is one part, and whether
it is one part does not go by the name, but by the ending.

* `Text.exists_pieces_concat` — an ending goes to the last piece of a text.
* `Path.child_of_beginsWith`, `Path.child_of_not_beginsWith` — where a text leads from a path.
* `Path.exists_partsOf_append` — what a text makes of a part that it is added to.
* `Path.IsPlain.renamed_normal` — a path whose name has got an ending.
* `Path.rename_normal_child` — adding an ending to a text adds it to the name of what the text leads
  to.
-/

namespace BundleReach

namespace Text

/-- What is put before a text goes to its first piece, if it does not hold the mark. -/
theorem splitAtMark_append {mark : Char} {cs ds piece : List Char} {rest : List (List Char)}
    (hcs : mark ∉ cs) (hds : splitAtMark mark ds = piece :: rest) :
    splitAtMark mark (cs ++ ds) = (cs ++ piece) :: rest := by
  induction cs with
  | nil => exact hds
  | cons c cs ih =>
    rw [List.mem_cons, not_or] at hcs
    rw [List.cons_append, splitAtMark, if_neg (Ne.symm hcs.1), ih hcs.2]
    rfl

/-- The pieces of two texts with a mark between them are those of the one, then those of the
other. -/
theorem splitAtMark_mark (mark : Char) (cs ds : List Char) :
    splitAtMark mark (cs ++ mark :: ds) = splitAtMark mark cs ++ splitAtMark mark ds := by
  induction cs with
  | nil => exact if_pos rfl
  | cons c cs ih =>
    rw [List.cons_append, splitAtMark, splitAtMark, ih]
    by_cases hc : c = mark
    · rw [if_pos hc, if_pos hc, List.cons_append]
    · rw [if_neg hc, if_neg hc]
      obtain ⟨piece, rest, hcons⟩ := List.exists_cons_of_ne_nil (splitAtMark_ne_nil mark cs)
      rw [hcons]
      rfl

theorem pieces_append_slash (s t : String) :
    pieces '/' (s ++ "/" ++ t) = pieces '/' s ++ pieces '/' t := by
  have hslash : "/".toList = ['/'] := rfl
  rw [pieces, pieces, pieces, String.toList_append, String.toList_append, hslash, List.append_assoc,
    List.singleton_append, splitAtMark_mark, List.map_append]

/-- A text begins with a character just if that comes first in it. -/
theorem beginsWith_char {start : String} {c : Char} (hstart : start.toList = [c]) (s : String) :
    beginsWith start s = (s.toList.head? == some c) := by
  unfold beginsWith
  rw [hstart]
  cases s.toList with
  | nil => rfl
  | cons d cs => simp [List.isPrefixOf, Bool.beq_comm]

/-- Whether a text begins with a character does not go by what is added at its end. -/
theorem beginsWith_append {start s : String} {c : Char} (hstart : start.toList = [c]) (hs : s ≠ "")
    (t : String) : beginsWith start (s ++ t) = beginsWith start s := by
  rw [beginsWith_char hstart, beginsWith_char hstart, String.toList_append]
  cases hcs : s.toList with
  | nil => exact absurd (String.toList_inj.1 hcs) hs
  | cons d cs => rfl

/-- An ending without a slash goes to the last piece of a text. -/
theorem exists_pieces_concat (s : String) :
    ∃ before last, ∀ ending : String, '/' ∉ ending.toList →
      pieces '/' (s ++ ending) = before ++ [last ++ ending] := by
  by_cases hs : '/' ∈ s.toList
  · obtain ⟨last, start, hsplit, hlast⟩ := List.eq_append_cons_of_mem (List.mem_reverse.2 hs)
    have hlists : s.toList = start.reverse ++ '/' :: last.reverse := by
      rw [← List.reverse_reverse s.toList, hsplit]
      simp
    refine ⟨(splitAtMark '/' start.reverse).map String.ofList, String.ofList last.reverse,
      fun ending hending => ?_⟩
    have hone : '/' ∉ last.reverse ++ ending.toList := by
      rw [List.mem_append, List.mem_reverse, not_or]
      exact ⟨hlast, hending⟩
    rw [pieces, String.toList_append, hlists, List.append_assoc, List.cons_append,
      splitAtMark_mark, splitAtMark_eq_splitOn _ (last.reverse ++ _),
      List.splitOn_eq_singleton hone, List.map_append, List.map_singleton, String.ofList_append,
      String.ofList_toList]
  · refine ⟨[], s, fun ending hending => pieces_of_not_mem ?_⟩
    rw [String.toList_append, List.mem_append, not_or]
    exact ⟨hs, hending⟩

end Text

namespace Path

variable {p q : Path} {s part ending : String}

/-! ## Where texts lead -/

/-- A text starts from the top just if a slash comes first in it. -/
theorem isAbsolute_ofString (s : String) : (ofString s).isAbsolute = Text.beginsWith "/" s := by
  have hslash : "/".toList = ['/'] := rfl
  rw [isAbsolute, ofString, Text.beginsWith_char hslash]
  cases s.toList with
  | nil => rfl
  | cons c cs =>
    by_cases hc : c = '/'
    · subst hc
      unfold anchorOf
      split <;> simp_all
    · have hhere : anchorOf (c :: cs) = .here := by
        unfold anchorOf
        split <;> simp_all
      simp [hhere, hc]

/-- A text that a slash comes first in leads away from any path. -/
theorem child_of_beginsWith (h : Text.beginsWith "/" s = true) (p : Path) :
    p.child s = ofString s := by
  rw [child, join_of_isAbsolute (by rw [isAbsolute_ofString, h])]

/-- Any other text leads on from a path by its parts. -/
theorem child_of_not_beginsWith (h : Text.beginsWith "/" s = false) (p : Path) :
    p.child s = ⟨p.anchor, p.parts ++ partsOf s⟩ := by
  rw [child, join, isAbsolute_ofString, h, if_neg Bool.false_ne_true]
  rfl

/-- From an absolute path, texts lead to absolute paths. -/
theorem isAbsolute_child (h : p.isAbsolute = true) (s : String) :
    (p.child s).isAbsolute = true := by
  by_cases hs : Text.beginsWith "/" s = true
  · rw [child_of_beginsWith hs, isAbsolute_ofString, hs]
  · rw [child_of_not_beginsWith (eq_false_of_ne_true hs)]
    exact h

/-- What parts lead to from a path lies within it. -/
theorem isWithin_append (p : Path) (rest : List String) :
    (⟨p.anchor, p.parts ++ rest⟩ : Path).isWithin p = true :=
  isWithin_iff.2 ⟨rfl, rest, rfl⟩

/-- Where no piece of a text goes up, none of its parts does. -/
theorem ne_up_of_mem_partsOf (h : ∀ piece ∈ Text.pieces '/' s, piece ≠ up) :
    ∀ part ∈ partsOf s, part ≠ up :=
  fun part hpart => h part (List.mem_filter.1 hpart).1

/-- A path whose parts do not go up is normal. -/
theorem normal_of_ne_up (h : ∀ part ∈ p.parts, part ≠ up) : p.normal = p := by
  rw [normal, foldl_pushPart_of_names h, List.append_nil, List.reverse_reverse]

/-- What texts write from the top has a plain normal form. -/
theorem IsWritten.isPlain_normal (h : p.IsWritten) (habsolute : p.isAbsolute = true) :
    p.normal.IsPlain := by
  refine ⟨habsolute, fun part hpart => ⟨IsWritten.normal h part hpart, ?_⟩⟩
  rw [Path.normal, habsolute] at hpart
  exact ne_up_of_mem_foldl_pushPart (fun q hq => by cases hq) part (List.mem_reverse.1 hpart)

/-! ## Names with endings -/

/-- A name does not go up whatever is added to it. -/
theorem IsName.append_ne_up (h : IsName part) (s : String) : part ++ s ≠ up := by
  intro hup
  have hlists : part.toList ++ s.toList = ['.', '.'] := by
    rw [← String.toList_append, hup]
    rfl
  have hcases : part.toList = [] ∨ part.toList = ['.'] ∨ part.toList = ['.', '.'] := by
    rcases List.append_eq_cons_iff.1 hlists with ⟨hnil, -⟩ | ⟨rest, hcons, hrest⟩
    · exact .inl hnil
    · rcases List.append_eq_singleton_iff.1 hrest.symm with ⟨rfl, -⟩ | ⟨rfl, -⟩
      · exact .inr (.inl hcons)
      · exact .inr (.inr hcons)
  rcases hcases with hpart | hpart | hpart
  · exact h.ne_empty (String.toList_inj.1 hpart)
  · exact h.ne_here (String.toList_inj.1 hpart)
  · exact h.ne_up (String.toList_inj.1 hpart)

/-- Added to a part, a text adds to it what comes before its first slash; what comes after the slash
makes the same parts whatever the part. -/
theorem exists_partsOf_append (s : String) :
    ∃ first rest, ∀ part, IsPart part → partsOf (part ++ s) = (part ++ first) :: rest := by
  obtain ⟨piece, pieces, hsplit⟩ :=
    List.exists_cons_of_ne_nil (Text.splitAtMark_ne_nil '/' s.toList)
  have hpiece : '/' ∉ piece :=
    Text.not_mem_of_mem_splitAtMark (hsplit ▸ List.mem_cons_self : piece ∈ Text.splitAtMark _ _)
  have hfirst : '/' ∉ (String.ofList piece).toList := by rwa [String.toList_ofList]
  refine ⟨String.ofList piece, (pieces.map String.ofList).filter fun p => p != "" && p != ".",
    fun part hpart => ?_⟩
  have hpieces : Text.pieces '/' (part ++ s) =
      (part ++ String.ofList piece) :: pieces.map String.ofList := by
    rw [Text.pieces, String.toList_append, Text.splitAtMark_append hpart.no_slash hsplit,
      List.map_cons, String.ofList_append, String.ofList_toList]
  have hkept := hpart.append hfirst
  rw [partsOf, hpieces, List.filter_cons_of_pos]
  rw [bne_iff_ne.2 hkept.ne_empty, bne_iff_ne.2 hkept.ne_here]
  rfl

/-- What a path can be renamed to has the new name in place of its own. -/
theorem of_rename_eq_ok (h : p.rename s = .ok q) :
    p.name ≠ "" ∧ (partsOf s).length = 1 ∧ q = ⟨p.anchor, p.parts.dropLast ++ [s]⟩ := by
  rw [rename] at h
  split at h
  · cases h
  · rename_i hname
    split at h
    · cases h
    · rename_i hs
      simp only [not_or, Decidable.not_not] at hs
      cases h
      exact ⟨hname, hs.2.2.2, rfl⟩

theorem parts_ne_nil_of_name (h : p.name ≠ "") : p.parts ≠ [] := by
  intro hnil
  rw [name, hnil] at h
  exact h rfl

theorem name_mem_parts (hp : p.parts ≠ []) : p.name ∈ p.parts := by
  rw [name, List.getLastD_eq_getLast?, List.getLast?_eq_some_getLast hp, Option.getD_some]
  exact List.getLast_mem hp

/-- A plain path whose name has got an ending is normal: it is where the path is, and as deep. -/
theorem IsPlain.renamed_normal (hp : p.IsPlain) (h : p.rename (p.name ++ ending) = .ok q) :
    q.normal = q ∧ q.parent = p.parent ∧ q.parts.length = p.parts.length := by
  obtain ⟨hname, -, rfl⟩ := of_rename_eq_ok h
  have hparts := parts_ne_nil_of_name hname
  refine ⟨normal_of_ne_up fun part hpart => ?_, ?_, ?_⟩
  · rcases List.mem_append.1 hpart with hpart | hpart
    · exact hp.ne_up part (List.dropLast_subset _ hpart)
    · rw [List.mem_singleton.1 hpart]
      exact (hp.names _ (name_mem_parts hparts)).append_ne_up ending
  · rw [parent, parent, List.dropLast_concat]
  · have hpos := List.length_pos_iff.2 hparts
    simp only [List.length_append, List.length_dropLast, List.length_singleton]
    omega

/-- A slash does not come first in what begins with a part. -/
theorem IsPart.not_beginsWith (h : IsPart part) (s : String) :
    Text.beginsWith "/" (part ++ s) = false := by
  have hhead : part.toList.head? ≠ some '/' := by
    intro hhead
    exact h.no_slash (List.mem_of_head? hhead)
  have hslash : "/".toList = ['/'] := rfl
  rw [Text.beginsWith_append hslash h.ne_empty, Text.beginsWith_char hslash]
  simpa using hhead

/-- A text that makes a name of a path's own name makes one part of any other. -/
theorem child_append_of_rename (hp : p.IsWritten) (h : p.rename (p.name ++ ending) = .ok q)
    (hpart : IsPart part) :
    ∃ first, p.child (part ++ ending) = ⟨p.anchor, p.parts ++ [part ++ first]⟩ := by
  obtain ⟨hname, hone, -⟩ := of_rename_eq_ok h
  obtain ⟨first, rest, hread⟩ := exists_partsOf_append ending
  rw [hread _ (hp.isPart_name (parts_ne_nil_of_name hname)), List.length_cons] at hone
  have hrest : rest = [] := List.eq_nil_of_length_eq_zero (by omega)
  refine ⟨first, ?_⟩
  rw [child_of_not_beginsWith (hpart.not_beginsWith ending), hread part hpart, hrest]

/-! ## Texts that finish in names -/

/-- A text is a name, or a name follows its last slash. -/
def FinishesInName (s : String) : Prop :=
  ∃ start name, IsName name ∧ (s = name ∨ s = start ++ "/" ++ name)

theorem FinishesInName.ne_empty {s : String} (h : FinishesInName s) : s ≠ "" := by
  obtain ⟨start, name, hname, rfl | rfl⟩ := h
  · exact hname.ne_empty
  · intro hempty
    exact hname.ne_empty (String.append_eq_empty_iff.1 hempty).2

/-- The last part of a text that finishes in a name is the name, which an ending goes to. -/
theorem exists_partsOf_concat (hs : FinishesInName s) :
    ∃ before name, IsName name ∧ ∀ ending : String, '/' ∉ ending.toList →
      partsOf (s ++ ending) = before ++ [name ++ ending] := by
  obtain ⟨start, name, hname, rfl | rfl⟩ := hs
  · exact ⟨[], s, hname, fun ending hending => partsOf_of_isPart (hname.toIsPart.append hending)⟩
  · refine ⟨partsOf start, name, hname, fun ending hending => ?_⟩
    rw [String.append_assoc, partsOf, Text.pieces_append_slash, List.filter_append]
    exact congrArg (partsOf start ++ ·) (partsOf_of_isPart (hname.toIsPart.append hending))

/-- To add an ending to the name of what a text leads to is to add it to the text. -/
theorem rename_normal_child (p : Path) (hs : FinishesInName s)
    (hslash : Text.beginsWith "/" s = false) (hending : '/' ∉ ending.toList) :
    (p.child s).normal.rename ((p.child s).normal.name ++ ending) =
      .ok (p.child (s ++ ending)).normal := by
  obtain ⟨before, name, hname, hparts⟩ := exists_partsOf_concat hs
  obtain ⟨folder, hfolder⟩ : ∃ folder : Path, folder = ⟨p.anchor, p.parts ++ before⟩ := ⟨_, rfl⟩
  -- Both texts lead from here, one part further.
  have hchild : ∀ ending : String, '/' ∉ ending.toList → (p.child (s ++ ending)).normal =
      ⟨folder.anchor, folder.normal.parts ++ [name ++ ending]⟩ := by
    intro ending hending
    have hslash' : Text.beginsWith "/" (s ++ ending) = false := by
      rw [Text.beginsWith_append rfl hs.ne_empty, hslash]
    have hdown : ∀ part ∈ [name ++ ending], part ≠ up := by
      intro part hpart
      rw [List.mem_singleton.1 hpart]
      exact hname.append_ne_up ending
    rw [← normal_below hdown, child_of_not_beginsWith hslash', hparts ending hending, hfolder,
      List.append_assoc]
  have hself := hchild "" (by decide)
  rw [String.append_empty, String.append_empty] at hself
  have hlast : (p.child s).normal.name = name := by
    rw [hself, Path.name, List.getLastD_concat]
  have hne : (p.child s).normal.name ≠ "" := hlast ▸ hname.ne_empty
  rw [rename_eq_ok hne (hlast ▸ hname.toIsPart.append hending), hlast, hchild ending hending, hself,
    List.dropLast_concat]

end Path

end BundleReach
