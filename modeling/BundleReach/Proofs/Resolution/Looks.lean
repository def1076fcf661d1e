import BundleReach.Proofs.Resolution.Alike
import BundleReach.Proofs.Resolution.Candidates

/-!
# The paths that are looked at

Probing a candidate looks at one path after the other until it comes to a file.  What it comes to is
decided by what stands at these paths: only there can a file be found, and in a tree that is the
same at each of them the outcome is the same.

* `endingLooks`, `probeLooks`, `looksAlong` — the paths that are looked at for a path's endings, for
  a candidate, and along candidates.
* `probe_eq_some_iff`, `firstFile_eq_some_iff` — what is found is the file among them.
* `firstFile_eq_of_seenAlike` — nothing else has a part in the outcome.
-/

namespace BundleReach

open BundleReach.Path (RenameFault)

namespace Resolver

variable {r : Resolver} {t : FileTree} {p q c file : Path} {ps cs : List Path}
  {endings : List String}

/-! ## Looking -/

/-- Some paths up to the first file among them. -/
def upToFile (r : Resolver) : List Path → List Path
  | [] => []
  | q :: rest => q :: if r.tree.isFile q then [] else upToFile r rest

/-- The paths that a path becomes with endings added to its name, up to the first file among them or
to an ending that breaks the name. -/
def endingLooks (r : Resolver) (p : Path) : List String → List Path
  | [] => []
  | ending :: rest =>
    match p.rename (p.name ++ ending) with
    | .error _ => []
    | .ok q => q :: if r.tree.isFile q then [] else endingLooks r p rest

/-- The index files that are looked at for a path: none where an ending has led to a file or has
broken the name, and none where there is no folder. -/
def indexLooks (r : Resolver) (p : Path) : List Path :=
  match r.probeEndings p r.settings.extensions with
  | .ok none => if r.tree.isFolder p then r.upToFile (r.indexFiles p) else []
  | _ => []

/-- The paths that are looked at to probe a candidate. -/
def probeLooks (r : Resolver) (c : Path) : List Path :=
  c.normal :: if r.tree.isFile c.normal then []
    else r.endingLooks c.normal r.settings.extensions ++ r.indexLooks c.normal

/-- The paths that are looked at along candidates: the next candidate is probed where the one before
it leads nowhere. -/
def looksAlong (r : Resolver) : List Path → List Path
  | [] => []
  | c :: rest =>
    r.probeLooks c ++
      match r.probe c with
      | .ok none => looksAlong r rest
      | _ => []

theorem mem_of_mem_upToFile (h : q ∈ r.upToFile ps) : q ∈ ps := by
  induction ps with
  | nil => cases h
  | cons first rest ih =>
    rcases List.mem_cons.1 h with rfl | h
    · exact List.mem_cons_self
    · split at h
      · cases h
      · exact List.mem_cons_of_mem _ (ih h)

/-- What is looked at for an ending is the path with that ending. -/
theorem exists_rename_of_mem_endingLooks (h : q ∈ r.endingLooks p endings) :
    ∃ ending ∈ endings, p.rename (p.name ++ ending) = .ok q := by
  induction endings with
  | nil => cases h
  | cons ending rest ih =>
    unfold endingLooks at h
    split at h
    · cases h
    · rename_i named hname
      rcases List.mem_cons.1 h with rfl | h
      · exact ⟨ending, List.mem_cons_self, hname⟩
      · split at h
        · cases h
        · obtain ⟨ending', hmem, hrename⟩ := ih h
          exact ⟨ending', List.mem_cons_of_mem _ hmem, hrename⟩

/-! ## Finding -/

theorem find?_eq_some_iff_upToFile :
    ps.find? r.tree.isFile = some q ↔ q ∈ r.upToFile ps ∧ r.tree.isFile q = true := by
  induction ps with
  | nil => simp [upToFile]
  | cons first rest ih =>
    by_cases hfirst : r.tree.isFile first = true
    · rw [List.find?_cons_of_pos hfirst, upToFile, if_pos hfirst, List.mem_singleton]
      constructor
      · intro h
        cases h
        exact ⟨rfl, hfirst⟩
      · rintro ⟨rfl, -⟩
        rfl
    · rw [List.find?_cons_of_neg hfirst, ih, upToFile, if_neg hfirst, List.mem_cons]
      refine and_congr_left fun hq => ⟨.inr, ?_⟩
      rintro (rfl | hrest)
      · exact absurd hq hfirst
      · exact hrest

/-- An ending leads to the file among what is looked at for the endings. -/
theorem probeEndings_eq_some_iff :
    r.probeEndings p endings = .ok (some q) ↔
      q ∈ r.endingLooks p endings ∧ r.tree.isFile q = true := by
  induction endings with
  | nil => simp [probeEndings, endingLooks]
  | cons ending rest ih =>
    rw [probeEndings, endingLooks]
    cases p.rename (p.name ++ ending) with
    | error fault => simp [bind, Except.bind]
    | ok named =>
      show (if r.tree.isFile named = true then Except.ok (some named)
        else r.probeEndings p rest) = _ ↔ _
      by_cases hnamed : r.tree.isFile named = true
      · rw [if_pos hnamed]
        simp only [hnamed, if_true, List.mem_singleton]
        constructor
        · intro h
          cases h
          exact ⟨rfl, hnamed⟩
        · rintro ⟨rfl, -⟩
          rfl
      · rw [if_neg hnamed, ih]
        simp only [hnamed, Bool.false_eq_true, if_false, List.mem_cons]
        refine and_congr_left fun hq => ⟨.inr, ?_⟩
        rintro (rfl | hrest)
        · exact absurd hq hnamed
        · exact hrest

/-- No ending leads to a file where each of them makes a name, under which there is none. -/
theorem probeEndings_eq_none_iff :
    r.probeEndings p endings = .ok none ↔
      ∀ ending ∈ endings, ∃ q, p.rename (p.name ++ ending) = .ok q ∧ r.tree.isFile q = false := by
  induction endings with
  | nil => simp [probeEndings]
  | cons ending rest ih =>
    rw [probeEndings, List.forall_mem_cons, ← ih]
    cases p.rename (p.name ++ ending) with
    | error fault => simp [bind, Except.bind]
    | ok named =>
      show (if r.tree.isFile named = true then Except.ok (some named)
        else r.probeEndings p rest) = _ ↔ _
      by_cases hnamed : r.tree.isFile named = true
      · simp [hnamed]
      · simp [hnamed]

/-- A folder's index is the file among what is looked at for it. -/
theorem index_eq_some_iff :
    (if r.tree.isFolder p = true then
        Except.ok (((r.indexFiles p).find? r.tree.isFile).map r.tree.resolve)
      else .ok none : Except RenameFault (Option Path)) = .ok (some file) ↔
      ∃ q ∈ if r.tree.isFolder p = true then r.upToFile (r.indexFiles p) else [],
        r.tree.isFile q = true ∧ file = r.tree.resolve q := by
  split
  · rw [Except.ok.injEq, Option.map_eq_some_iff]
    constructor
    · rintro ⟨q, hfind, rfl⟩
      obtain ⟨hq, hfile⟩ := find?_eq_some_iff_upToFile.1 hfind
      exact ⟨q, hq, hfile, rfl⟩
    · rintro ⟨q, hq, hfile, rfl⟩
      exact ⟨q, find?_eq_some_iff_upToFile.2 ⟨hq, hfile⟩, rfl⟩
  · simp

/-- Past the path itself, the file is among what is looked at for the endings or, where these lead
nowhere, for the index. -/
theorem pastItself_eq_some_iff :
    (r.probeEndings p r.settings.extensions >>= fun
      | some q => .ok (some (r.tree.resolve q))
      | none => if r.tree.isFolder p = true then
          .ok (((r.indexFiles p).find? r.tree.isFile).map r.tree.resolve)
        else .ok none) = .ok (some file) ↔
      ∃ q ∈ r.endingLooks p r.settings.extensions ++ r.indexLooks p,
        r.tree.isFile q = true ∧ file = r.tree.resolve q := by
  have hends : (∃ q ∈ r.endingLooks p r.settings.extensions,
      r.tree.isFile q = true ∧ file = r.tree.resolve q) ↔
        ∃ q, r.probeEndings p r.settings.extensions = .ok (some q) ∧ file = r.tree.resolve q := by
    simp only [probeEndings_eq_some_iff, and_assoc]
  simp only [List.mem_append, or_and_right, exists_or]
  rw [hends, indexLooks]
  cases r.probeEndings p r.settings.extensions with
  | error fault =>
    exact iff_of_false (fun h => (by cases h)) (by simp)
  | ok found =>
    cases found with
    | some named =>
      constructor
      · intro h
        cases h
        exact .inl ⟨named, rfl, rfl⟩
      · rintro (⟨q, h, rfl⟩ | ⟨q, hq, -⟩)
        · cases h
          rfl
        · cases hq
    | none =>
      refine index_eq_some_iff.trans ⟨.inr, ?_⟩
      rintro (⟨q, h, -⟩ | hindex)
      · cases h
      · exact hindex

/-- What a candidate leads to is the file among what is looked at for it, links taken out. -/
theorem probe_eq_some_iff :
    r.probe c = .ok (some file) ↔
      ∃ q ∈ r.probeLooks c, r.tree.isFile q = true ∧ file = r.tree.resolve q := by
  unfold probe probeLooks
  by_cases hself : r.tree.isFile c.normal = true
  · rw [if_pos hself, if_pos hself]
    constructor
    · intro h
      cases h
      exact ⟨c.normal, List.mem_cons_self, hself, rfl⟩
    · rintro ⟨q, hq, -, rfl⟩
      rw [List.mem_singleton.1 hq]
      rfl
  · rw [if_neg hself, if_neg hself]
    refine pastItself_eq_some_iff.trans ⟨?_, ?_⟩
    · rintro ⟨q, hq, hfile⟩
      exact ⟨q, List.mem_cons_of_mem _ hq, hfile⟩
    · rintro ⟨q, hq, hfile, hresolve⟩
      rcases List.mem_cons.1 hq with rfl | hq
      · exact absurd hfile hself
      · exact ⟨q, hq, hfile, hresolve⟩

/-- What is found along candidates is the file among what is looked at for them, links taken out. -/
theorem firstFile_eq_some_iff :
    r.firstFile cs = .ok (some file) ↔
      ∃ q ∈ r.looksAlong cs, r.tree.isFile q = true ∧ file = r.tree.resolve q := by
  induction cs with
  | nil => simp [firstFile, looksAlong]
  | cons c rest ih =>
    rw [firstFile, looksAlong]
    have hfirst : ∀ file, r.probe c = .ok (some file) ↔
        ∃ q ∈ r.probeLooks c, r.tree.isFile q = true ∧ file = r.tree.resolve q :=
      fun file => probe_eq_some_iff
    cases hprobe : r.probe c with
    | error fault =>
      rw [List.append_nil, ← hfirst, hprobe]
      exact iff_of_false (fun h => (by cases h)) fun h => (by cases h)
    | ok found =>
      cases found with
      | some found =>
        rw [List.append_nil, ← hfirst, hprobe]
        rfl
      | none =>
        show r.firstFile rest = _ ↔ _
        rw [ih]
        constructor
        · rintro ⟨q, hq, hfile, heq⟩
          exact ⟨q, List.mem_append_right _ hq, hfile, heq⟩
        · rintro ⟨q, hq, hfile, heq⟩
          rcases List.mem_append.1 hq with hq | hq
          · have hfound := (hfirst file).2 ⟨q, hq, hfile, heq⟩
            rw [hprobe] at hfound
            cases hfound
          · exact ⟨q, hq, hfile, heq⟩

/-! ## Nothing else is asked for -/

/-- Two trees are the same at a path: there is a file in both, or a folder in both, or neither, and
it leads to the same place. -/
structure SeenAlike (t t' : FileTree) (q : Path) : Prop where
  isFile_eq : t'.isFile q = t.isFile q
  isFolder_eq : t'.isFolder q = t.isFolder q
  resolve_eq : t'.resolve q = t.resolve q

theorem find?_isFile_eq_of_seenAlike (h : ∀ q ∈ r.upToFile ps, SeenAlike r.tree t q) :
    (ps.find? t.isFile).map t.resolve = (ps.find? r.tree.isFile).map r.tree.resolve := by
  induction ps with
  | nil => rfl
  | cons first rest ih =>
    rw [upToFile, List.forall_mem_cons] at h
    obtain ⟨hfirst, h⟩ := h
    rw [List.find?_cons, List.find?_cons, hfirst.isFile_eq]
    by_cases hfile : r.tree.isFile first = true
    · rw [hfile]
      exact congrArg some hfirst.resolve_eq
    · rw [if_neg hfile] at h
      rw [Bool.eq_false_of_not_eq_true hfile]
      exact ih h

theorem probeEndings_eq_of_seenAlike (h : ∀ q ∈ r.endingLooks p endings, SeenAlike r.tree t q) :
    (r.onTree t).probeEndings p endings = r.probeEndings p endings := by
  induction endings with
  | nil => rfl
  | cons ending rest ih =>
    rw [probeEndings, probeEndings]
    rw [endingLooks] at h
    cases hname : p.rename (p.name ++ ending) with
    | error fault => rfl
    | ok named =>
      rw [hname] at h
      obtain ⟨hnamed, h⟩ := List.forall_mem_cons.1 h
      show (if t.isFile named = true then Except.ok (some named)
        else (r.onTree t).probeEndings p rest) =
          if r.tree.isFile named = true then Except.ok (some named) else r.probeEndings p rest
      rw [hnamed.isFile_eq]
      by_cases hfile : r.tree.isFile named = true
      · rw [if_pos hfile, if_pos hfile]
      · rw [if_neg hfile] at h
        rw [if_neg hfile, if_neg hfile]
        exact ih h

/-- A candidate leads to the same in a tree that is the same wherever it is looked at. -/
theorem probe_eq_of_seenAlike (h : ∀ q ∈ r.probeLooks c, SeenAlike r.tree t q) :
    (r.onTree t).probe c = r.probe c := by
  rw [probeLooks, List.forall_mem_cons] at h
  obtain ⟨hself, h⟩ := h
  unfold probe
  show (if t.isFile c.normal = true then Except.ok (some (t.resolve c.normal)) else _) = _
  rw [hself.isFile_eq, hself.resolve_eq]
  by_cases hfile : r.tree.isFile c.normal = true
  · rw [if_pos hfile, if_pos hfile]
    rfl
  rw [if_neg hfile, List.forall_mem_append, indexLooks] at h
  obtain ⟨hends, hindex⟩ := h
  rw [if_neg hfile, if_neg hfile]
  show (r.onTree t).probeEndings c.normal r.settings.extensions >>= _ = _
  rw [probeEndings_eq_of_seenAlike hends]
  cases hprobe : r.probeEndings c.normal r.settings.extensions with
  | error fault => rfl
  | ok found =>
    cases found with
    | some named =>
      have hnamed := hends named (probeEndings_eq_some_iff.1 hprobe).1
      exact congrArg (fun q => Except.ok (some q)) hnamed.resolve_eq
    | none =>
      rw [hprobe] at hindex
      show (if t.isFolder c.normal = true then
          Except.ok (((r.indexFiles c.normal).find? t.isFile).map t.resolve) else .ok none) =
        if r.tree.isFolder c.normal = true then
          Except.ok (((r.indexFiles c.normal).find? r.tree.isFile).map r.tree.resolve) else .ok none
      rw [hself.isFolder_eq]
      by_cases hfolder : r.tree.isFolder c.normal = true
      · simp only [hfolder, if_true] at hindex ⊢
        exact congrArg Except.ok (find?_isFile_eq_of_seenAlike hindex)
      · rw [if_neg hfolder, if_neg hfolder]

/-- Candidates lead to the same in a tree that is the same wherever they are looked at. -/
theorem firstFile_eq_of_seenAlike (h : ∀ q ∈ r.looksAlong cs, SeenAlike r.tree t q) :
    (r.onTree t).firstFile cs = r.firstFile cs := by
  induction cs with
  | nil => rfl
  | cons c rest ih =>
    rw [looksAlong, List.forall_mem_append] at h
    obtain ⟨hfirst, h⟩ := h
    rw [firstFile, firstFile, probe_eq_of_seenAlike hfirst]
    cases hprobe : r.probe c with
    | error fault => rfl
    | ok found =>
      cases found with
      | some q => rfl
      | none =>
        rw [hprobe] at h
        exact ih h

end Resolver

end BundleReach
