import BundleReach.Proofs.Path.Name

/-!
# Paths as seen from others

A path as seen from a folder is read back as the steps that lead to it (`ofString_relativeTo`), and
taking them from the folder leads there (`normal_child_relativeTo`).  So paths that are seen alike
are the same: `relativeTo_injective`.

What is below a folder is seen by the names that lead down to it (`relativeTo_below`), and nothing
else is seen so (`exists_below_of_relativeTo`).
-/

namespace BundleReach.Path

variable {start p q : Path}

/-! ## What two paths share -/

theorem commonStart_prefix_left (as bs : List String) : commonStart as bs <+: as := by
  induction as generalizing bs with
  | nil => exact List.prefix_rfl
  | cons a as ih =>
    cases bs with
    | nil => exact List.nil_prefix
    | cons b bs =>
      rw [commonStart]
      split
      · exact List.prefix_cons_inj a |>.2 (ih bs)
      · exact List.nil_prefix

theorem commonStart_comm (as bs : List String) : commonStart as bs = commonStart bs as := by
  induction as generalizing bs with
  | nil => cases bs <;> rfl
  | cons a as ih =>
    cases bs with
    | nil => rfl
    | cons b bs =>
      rw [commonStart, commonStart, ih bs]
      by_cases h : a = b
      · rw [if_pos h, if_pos h.symm, h]
      · rw [if_neg h, if_neg (Ne.symm h)]

/-- Up to what they share, two lists are alike. -/
theorem take_length_commonStart (as bs : List String) :
    as.take (commonStart as bs).length = bs.take (commonStart as bs).length := by
  have hleft : commonStart as bs = as.take (commonStart as bs).length :=
    List.prefix_iff_eq_take.1 (commonStart_prefix_left as bs)
  have hright : commonStart as bs = bs.take (commonStart as bs).length := by
    refine List.prefix_iff_eq_take.1 ?_
    rw [commonStart_comm]
    exact commonStart_prefix_left bs as
  exact hleft.symm.trans hright

/-! ## Steps -/

theorem stepsFrom_of_plain (hs : start.IsPlain) (hp : p.IsPlain) :
    start.stepsFrom p =
      List.replicate (start.parts.length - (commonStart start.parts p.parts).length) up ++
        p.parts.drop (commonStart start.parts p.parts).length := by
  rw [stepsFrom, hs.normal_eq, hp.normal_eq]

theorem isPart_of_mem_stepsFrom (hs : start.IsPlain) (hp : p.IsPlain) {part : String}
    (h : part ∈ start.stepsFrom p) : IsPart part := by
  rw [stepsFrom_of_plain hs hp] at h
  rcases List.mem_append.1 h with h | h
  · rw [List.eq_of_mem_replicate h]
    exact isPart_up
  · exact (hp.names part (List.mem_of_mem_drop h)).toIsPart

/-- Taken from the path that they start at, the steps lead to the other one. -/
theorem foldl_stepsFrom (hs : start.IsPlain) (hp : p.IsPlain) :
    (start.parts ++ start.stepsFrom p).foldl (pushPart true) [] = p.parts.reverse := by
  have hshared := take_length_commonStart start.parts p.parts
  rw [stepsFrom_of_plain hs hp]
  generalize (commonStart start.parts p.parts).length = shared at hshared ⊢
  have hup : start.parts.reverse.drop (start.parts.length - shared) =
      (p.parts.take shared).reverse := by
    rw [List.drop_reverse, ← hshared]
    by_cases hle : shared ≤ start.parts.length
    · rw [Nat.sub_sub_self hle]
    · rw [List.take_of_length_le (by omega), List.take_of_length_le (by omega)]
  have hdown : ∀ part ∈ p.parts.drop shared, part ≠ up :=
    fun part hpart => hp.ne_up part (List.mem_of_mem_drop hpart)
  have hbelow : ∀ part ∈ start.parts.reverse, part ≠ up :=
    fun part hpart => hs.ne_up part (List.mem_reverse.1 hpart)
  calc (start.parts ++ (List.replicate (start.parts.length - shared) up ++
          p.parts.drop shared)).foldl (pushPart true) []
      = (p.parts.drop shared).foldl (pushPart true)
          ((List.replicate (start.parts.length - shared) up).foldl (pushPart true)
            start.parts.reverse) := by
        rw [List.foldl_append, List.foldl_append, foldl_pushPart_of_names hs.ne_up, List.append_nil]
    _ = (p.parts.drop shared).foldl (pushPart true) (p.parts.take shared).reverse := by
        rw [foldl_pushPart_replicate_up hbelow, hup]
    _ = (p.parts.take shared ++ p.parts.drop shared).reverse := by
        rw [foldl_pushPart_of_names hdown, List.reverse_append]
    _ = p.parts.reverse := by rw [List.take_append_drop]

/-! ## Texts -/

/-- The text of steps that begin with one up begins with its dots. -/
theorem exists_toList_intercalate_up (rest : List String) :
    ∃ cs, ("/".intercalate (up :: rest)).toList = '.' :: '.' :: cs := by
  cases rest with
  | nil => exact ⟨[], by simp [up]⟩
  | cons next rest => exact ⟨_, by rw [String.toList_intercalate]; rfl⟩

/-- A path as seen from another one begins with a dot. -/
theorem exists_toList_relativeTo (start p : Path) :
    ∃ cs, (start.relativeTo p).toList = '.' :: cs := by
  rw [relativeTo]
  split
  · exact ⟨['/', '.'], rfl⟩
  · rename_i first rest _
    simp only
    split
    · rename_i hup
      obtain ⟨cs, hcs⟩ := exists_toList_intercalate_up rest
      exact ⟨'.' :: cs, by rw [hup, hcs]⟩
    · rw [String.toList_append]
      exact ⟨_, rfl⟩

/-- A path as seen from another one is read back as the steps that lead to it. -/
theorem ofString_relativeTo (hs : start.IsPlain) (hp : p.IsPlain) :
    ofString (start.relativeTo p) = ⟨.here, start.stepsFrom p⟩ := by
  have hparts : ∀ part ∈ start.stepsFrom p, IsPart part :=
    fun part hpart => isPart_of_mem_stepsFrom hs hp hpart
  rw [relativeTo]
  split
  · rename_i hnone
    rw [hnone]
    decide
  · rename_i first rest hsteps
    rw [hsteps] at hparts ⊢
    have hread := partsOf_intercalate hparts
    simp only
    split
    · rename_i hup
      obtain ⟨cs, hcs⟩ := exists_toList_intercalate_up rest
      rw [ofString, hread, hup, hcs, anchorOf_of_dot]
    · rw [ofString, partsOf_here_append, hread, String.toList_append]
      rfl

/-- From where a path is seen, its text leads to the parts of the path. -/
theorem normal_child_relativeTo_eq (hs : start.IsPlain) (hp : p.IsPlain) :
    (start.child (start.relativeTo p)).normal = ⟨start.anchor, p.parts⟩ := by
  have habs : (⟨start.anchor, start.parts ++ start.stepsFrom p⟩ : Path).isAbsolute = true :=
    hs.absolute
  rw [child, ofString_relativeTo hs hp, parts_join_of_here, normal, habs, foldl_stepsFrom hs hp,
    List.reverse_reverse]

/-- From where a path is seen, its text leads to it. -/
theorem normal_child_relativeTo (hs : start.IsPlain) (hp : p.IsPlain)
    (ha : p.anchor = start.anchor) : (start.child (start.relativeTo p)).normal = p := by
  rw [normal_child_relativeTo_eq hs hp, ← ha]

/-- Plain paths that are seen alike have the same parts. -/
theorem parts_eq_of_relativeTo_eq (hs : start.IsPlain) (hp : p.IsPlain) (hq : q.IsPlain)
    (h : start.relativeTo p = start.relativeTo q) : p.parts = q.parts := by
  have hpath : (⟨start.anchor, p.parts⟩ : Path) = ⟨start.anchor, q.parts⟩ := by
    rw [← normal_child_relativeTo_eq hs hp, h, normal_child_relativeTo_eq hs hq]
  exact (Path.mk.inj hpath).2

/-- Plain paths that are seen alike from one of them are the same. -/
theorem relativeTo_injective (hs : start.IsPlain) (hp : p.IsPlain) (hq : q.IsPlain)
    (hpa : p.anchor = start.anchor) (hqa : q.anchor = start.anchor)
    (h : start.relativeTo p = start.relativeTo q) : p = q := by
  rw [← normal_child_relativeTo hs hp hpa, h, normal_child_relativeTo hs hq hqa]

/-! ## Paths below -/

variable {rest : List String}

/-- Names that follow a path follow its normal form. -/
theorem normal_below (h : ∀ part ∈ rest, part ≠ up) :
    (⟨start.anchor, start.parts ++ rest⟩ : Path).normal =
      ⟨start.anchor, start.normal.parts ++ rest⟩ := by
  have hanchored : (⟨start.anchor, start.parts ++ rest⟩ : Path).isAbsolute = start.isAbsolute := rfl
  rw [normal, hanchored, List.foldl_append, foldl_pushPart_of_names h, List.reverse_append,
    List.reverse_reverse]
  rfl

theorem commonStart_append (as bs : List String) : commonStart as (as ++ bs) = as := by
  induction as with
  | nil => cases bs <;> rfl
  | cons a as ih => rw [List.cons_append, commonStart, if_pos rfl, ih]

/-- From a path, names lead down to what is below it. -/
theorem stepsFrom_below (h : ∀ part ∈ rest, part ≠ up) :
    start.stepsFrom ⟨start.anchor, start.parts ++ rest⟩ = rest := by
  have hgoal : (⟨start.anchor, start.parts ++ rest⟩ : Path).normal.parts =
      start.normal.parts ++ rest := by rw [normal_below h]
  rw [stepsFrom, hgoal, commonStart_append, Nat.sub_self, List.replicate_zero, List.nil_append,
    List.drop_left]

/-- What is below a path is seen from it by the names that lead down. -/
theorem relativeTo_below (hne : rest ≠ []) (h : ∀ part ∈ rest, part ≠ up) :
    start.relativeTo ⟨start.anchor, start.parts ++ rest⟩ = "./" ++ "/".intercalate rest := by
  rw [relativeTo, stepsFrom_below h]
  cases rest with
  | nil => exact absurd rfl hne
  | cons first rest =>
    have hfirst : first ≠ up := h first List.mem_cons_self
    simp only [hfirst, ↓reduceIte]

/-- Steps that do not begin with one up only lead down. -/
theorem isName_of_mem_stepsFrom (hs : start.IsPlain) (hp : p.IsPlain) {first : String}
    (hsteps : start.stepsFrom p = first :: rest) (hfirst : first ≠ up) :
    ∀ part ∈ first :: rest, IsName part := by
  rw [stepsFrom_of_plain hs hp] at hsteps
  generalize start.parts.length - _ = ups at hsteps
  cases ups with
  | succ ups =>
    rw [List.replicate_succ, List.cons_append] at hsteps
    exact absurd (List.cons.inj hsteps).1.symm hfirst
  | zero =>
    rw [List.replicate_zero, List.nil_append] at hsteps
    intro part hpart
    rw [← hsteps] at hpart
    exact hp.names part (List.mem_of_mem_drop hpart)

/-- What is seen by names that lead down lies below. -/
theorem exists_below_of_relativeTo (hs : start.IsPlain) (hp : p.IsPlain)
    (hne : p.parts ≠ start.parts) {s : String} (h : start.relativeTo p = "./" ++ s) :
    ∃ rest, rest ≠ [] ∧ (∀ part ∈ rest, IsName part) ∧ s = "/".intercalate rest := by
  cases hsteps : start.stepsFrom p with
  | nil =>
    have hself : start.relativeTo p = "./." := by rw [relativeTo, hsteps]
    have hparts := normal_child_relativeTo_eq hs hp
    have hstay : start.child "./." = ⟨start.anchor, start.parts ++ []⟩ := parts_join_of_here
    rw [hself, hstay, List.append_nil, hs.normal_eq] at hparts
    exact absurd (congrArg Path.parts hparts).symm hne
  | cons first rest =>
    rw [relativeTo, hsteps] at h
    by_cases hfirst : first = up
    · -- The second letter is a dot, not a slash.
      obtain ⟨cs, hcs⟩ := exists_toList_intercalate_up rest
      simp only [hfirst, ↓reduceIte] at h
      rw [h, String.toList_append] at hcs
      cases hcs
    · simp only [hfirst, ↓reduceIte] at h
      exact ⟨first :: rest, List.cons_ne_nil _ _, isName_of_mem_stepsFrom hs hp hsteps hfirst,
        ((String.append_right_inj _).1 h).symm⟩

end BundleReach.Path
