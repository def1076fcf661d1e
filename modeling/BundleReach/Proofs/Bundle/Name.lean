import BundleReach.Proofs.Bundle.Basic
import BundleReach.Proofs.Path.Relative
import Mathlib.Data.List.TakeWhile

/-!
# Bundles have names that folders can have

A bundle is named for a file: by its name up to the first dot, or by its whole path with dashes for
slashes, with a number if need be.  None of these can lead out of the bundles folder or deeper into
it (`isName_bundleName`).
-/

namespace BundleReach

open BundleReach.Path (IsPart IsName)

/-! ## The last piece of a text -/

namespace Text

theorem getLastD_suffix_intercalate (mark : Char) (pieces : List (List Char)) :
    pieces.getLastD [] <:+ [mark].intercalate pieces := by
  induction pieces with
  | nil => exact List.nil_suffix
  | cons piece rest ih =>
    cases rest with
    | nil =>
      rw [List.intercalate_singleton]
      exact List.suffix_rfl
    | cons next rest =>
      rw [List.intercalate_cons_cons]
      exact List.suffix_append_of_suffix ih

/-- A text ends with its last piece. -/
theorem getLastD_splitAtMark_suffix (mark : Char) (cs : List Char) :
    (splitAtMark mark cs).getLastD [] <:+ cs := by
  have hjoined := getLastD_suffix_intercalate mark (cs.splitOn mark)
  rwa [List.intercalate_splitOn, ← splitAtMark_eq_splitOn] at hjoined

/-- No mark is left where all are replaced by something else. -/
theorem not_mem_replaceMark {mark : Char} {filler : List Char} (h : mark ∉ filler)
    (cs : List Char) : mark ∉ replaceMark mark filler cs := by
  intro hmem
  obtain ⟨c, -, hc⟩ := List.mem_flatMap.1 hmem
  by_cases hmark : c = mark
  · rw [if_pos hmark] at hc
    exact h hc
  · rw [if_neg hmark, List.mem_singleton] at hc
    exact hmark hc.symm

theorem mem_replaceMark {mark d : Char} {filler cs : List Char} (hd : d ∈ filler)
    (h : mark ∈ cs) : d ∈ replaceMark mark filler cs :=
  List.mem_flatMap.2 ⟨mark, h, by rwa [if_pos rfl]⟩

theorem replaceMark_of_not_mem {mark : Char} {filler cs : List Char} (h : mark ∉ cs) :
    replaceMark mark filler cs = cs := by
  induction cs with
  | nil => rfl
  | cons c rest ih =>
    rw [List.mem_cons, not_or] at h
    rw [replaceMark, List.flatMap_cons, if_neg (Ne.symm h.1), ← replaceMark, ih h.2,
      List.singleton_append]

end Text

/-! ## Names -/

variable {name candidate : String} {taken steps : List String}

/-- A dash makes a name of whatever has no slash. -/
theorem isName_of_dash (hdash : '-' ∈ name.toList) (hslash : '/' ∉ name.toList) : IsName name where
  ne_empty h := by simp [h] at hdash
  ne_here h := by simp [h] at hdash
  no_slash := hslash
  ne_up h := by simp [h, Path.up] at hdash

/-- A name up to its first dot is a name. -/
theorem isName_stemOf {cs : List Char} (h : IsName (String.ofList cs)) :
    IsName (String.ofList (stemOf cs)) := by
  rw [stemOf]
  by_cases hempty : (cs.takeWhile (· != '.')).isEmpty
  · simpa only [hempty, ↓reduceIte] using h
  · simp only [hempty, Bool.false_eq_true, ↓reduceIte]
    have hdot : '.' ∉ cs.takeWhile (· != '.') := by
      intro hmem
      simpa using List.mem_takeWhile_imp hmem
    have hslash : '/' ∉ cs.takeWhile (· != '.') := by
      intro hmem
      refine h.no_slash ?_
      rw [String.toList_ofList]
      exact (List.takeWhile_sublist _).subset hmem
    have hdots : ∀ s : String, '.' ∈ s.toList → String.ofList (cs.takeWhile (· != '.')) ≠ s := by
      rintro s hs rfl
      rw [String.toList_ofList] at hs
      exact hdot hs
    refine ⟨⟨fun hnil => hempty ?_, hdots _ (by decide), ?_⟩, hdots _ (by decide)⟩
    · rw [← String.toList_ofList (l := cs.takeWhile (· != '.')), hnil]
      rfl
    · rwa [String.toList_ofList]

/-! ## Free names -/

theorem isName_numbered (h : '/' ∉ candidate.toList) (n : Nat) : IsName (numbered candidate n) := by
  have htext : (numbered candidate n).toList = candidate.toList ++ '-' :: Nat.toDigits 10 n := by
    rw [numbered, String.toList_append, String.toList_append]
    have hdigits : (toString n).toList = Nat.toDigits 10 n := Nat.toList_repr
    rw [hdigits, List.append_assoc]
    rfl
  refine isName_of_dash ?_ ?_
  · rw [htext]
    exact List.mem_append_right _ List.mem_cons_self
  · rw [htext, List.mem_append, List.mem_cons, not_or, not_or]
    refine ⟨h, by decide, fun hdigit => ?_⟩
    have hisDigit := Nat.isDigit_of_mem_toDigits (by decide) (by decide) hdigit
    exact absurd hisDigit (by decide)

theorem exists_numberedName_eq (taken : List String) (candidate : String) (tries n : Nat) :
    ∃ m, numberedName taken candidate tries n = numbered candidate m := by
  induction tries generalizing n with
  | zero => exact ⟨n, rfl⟩
  | succ tries ih =>
    rw [numberedName]
    split
    · exact ih (n + 1)
    · exact ⟨n, rfl⟩

theorem isName_freeName (h : IsName candidate) : IsName (freeName taken candidate) := by
  rw [freeName]
  split
  · obtain ⟨m, hm⟩ := exists_numberedName_eq taken candidate taken.length 2
    rw [hm]
    exact isName_numbered h.no_slash m
  · exact h

/-! ## Names of bundles -/

/-- A text of parts does not begin by staying. -/
theorem not_beginsWith_here (hparts : ∀ part ∈ steps, IsPart part) :
    Text.beginsWith "./" ("/".intercalate steps) = false := by
  by_cases hne : steps = []
  · subst hne
    decide
  · have hpieces := Text.pieces_intercalate hne fun part hpart => (hparts part hpart).no_slash
    refine Bool.eq_false_iff.2 fun hbegins => ?_
    obtain ⟨cs, hcs⟩ := List.isPrefixOf_iff_prefix.1 hbegins
    have hhere : "." ∈ steps := by
      rw [← hpieces, Text.pieces, ← hcs]
      exact List.mem_cons_self
    exact (hparts "." hhere).ne_here rfl

/-- Of a text of parts, the last piece is the last part. -/
theorem ofList_getLastD_splitAtMark (hne : steps ≠ []) (hparts : ∀ part ∈ steps, IsPart part) :
    String.ofList ((Text.splitAtMark '/' ("/".intercalate steps).toList).getLastD []) =
      steps.getLast hne := by
  have hpieces := Text.pieces_intercalate hne fun part hpart => (hparts part hpart).no_slash
  rw [Text.pieces] at hpieces
  have hlast : (steps.map String.toList).getLastD [] = (steps.getLast hne).toList := by
    rw [List.getLastD_eq_getLast?, List.getLast?_map, List.getLast?_eq_some_getLast hne]
    rfl
  have hlists : Text.splitAtMark '/' ("/".intercalate steps).toList =
      steps.map String.toList := by
    conv_rhs => rw [← hpieces]
    simp
  rw [hlists, hlast, String.ofList_toList]

/-- The path of a bundle's module with dashes for slashes is a name. -/
theorem isName_dashed {cs stem : List Char} (hstem : IsName (String.ofList stem))
    (hfile : '/' ∉ (Text.splitAtMark '/' cs).getLastD []) :
    IsName (String.ofList (Text.replaceMark '/' ['-']
      (cs.take (cs.length - ((Text.splitAtMark '/' cs).getLastD []).length) ++ stem))) := by
  obtain ⟨before, hsplit⟩ := Text.getLastD_splitAtMark_suffix '/' cs
  have htake : cs.take (cs.length - ((Text.splitAtMark '/' cs).getLastD []).length) = before := by
    generalize (Text.splitAtMark '/' cs).getLastD [] = fileName at hsplit
    rw [← hsplit, List.length_append, Nat.add_sub_cancel, List.take_left]
  rw [htake]
  by_cases hslash : '/' ∈ before
  · refine isName_of_dash ?_ ?_
    · rw [String.toList_ofList]
      exact Text.mem_replaceMark List.mem_cons_self (List.mem_append_left _ hslash)
    · rw [String.toList_ofList]
      exact Text.not_mem_replaceMark (by decide) _
  · -- Without a slash the file's name is the whole path.
    have hcs : '/' ∉ cs := by
      rw [← hsplit, List.mem_append, not_or]
      exact ⟨hslash, hfile⟩
    have hone : (Text.splitAtMark '/' cs).getLastD [] = cs := by
      rw [Text.splitAtMark_eq_splitOn, List.splitOn_eq_singleton hcs]
      rfl
    rw [hone] at hsplit
    have hbefore : before = [] := List.append_left_eq_self.1 hsplit
    have hnoSlash : '/' ∉ stem := by
      rw [← String.toList_ofList (l := stem)]
      exact hstem.no_slash
    rw [hbefore, List.nil_append, Text.replaceMark_of_not_mem hnoSlash]
    exact hstem

/-- The name of a bundle is that of a folder in a folder, if the last step to its module is. -/
theorem isName_bundleName (hne : steps ≠ []) (hparts : ∀ part ∈ steps, IsPart part)
    (hlast : IsName (steps.getLast hne)) {id : String}
    (hid : id = "./" ++ "/".intercalate steps ∨ id = "/".intercalate steps) :
    IsName (bundleName taken id) := by
  have hpath : (if Text.beginsWith "./" id then id.toList.drop 2 else id.toList) =
      ("/".intercalate steps).toList := by
    rcases hid with rfl | rfl
    · have hbegins : Text.beginsWith "./" ("./" ++ "/".intercalate steps) = true := by
        rw [Text.beginsWith, List.isPrefixOf_iff_prefix, String.toList_append]
        exact List.prefix_append _ _
      rw [if_pos hbegins, String.toList_append]
      rfl
    · rw [not_beginsWith_here hparts]
      rfl
  rw [bundleName, hpath]
  have hisName : IsName (String.ofList
      ((Text.splitAtMark '/' ("/".intercalate steps).toList).getLastD [])) := by
    rwa [ofList_getLastD_splitAtMark hne hparts]
  have hstem := isName_stemOf hisName
  have hslash := hisName.no_slash
  rw [String.toList_ofList] at hslash
  simp only
  split
  · exact hstem
  · exact isName_freeName (isName_dashed hstem hslash)

/-- A text writes parts, the last of which is a name. -/
def EndsInName (id : String) : Prop :=
  ∃ steps, ∃ hne : steps ≠ [], (∀ part ∈ steps, IsPart part) ∧ IsName (steps.getLast hne) ∧
    (id = "./" ++ "/".intercalate steps ∨ id = "/".intercalate steps)

/-- What is seen from a path ends in a name, unless it is that path or above it. -/
theorem endsInName_relativeTo {start p : Path} (hs : start.IsPlain) (hp : p.IsPlain)
    (h : ¬ p.parts <+: start.parts) : EndsInName (start.relativeTo p) := by
  have hparts : ∀ part ∈ start.stepsFrom p, IsPart part :=
    fun part hpart => Path.isPart_of_mem_stepsFrom hs hp hpart
  have hdown : p.parts.drop (Path.commonStart start.parts p.parts).length ≠ [] := by
    intro hnil
    have hlength := List.drop_eq_nil_iff.1 hnil
    refine h ?_
    have hshared := Path.take_length_commonStart start.parts p.parts
    rw [List.take_of_length_le hlength] at hshared
    exact hshared ▸ List.take_prefix _ _
  have hsteps := Path.stepsFrom_of_plain hs hp
  have hne : start.stepsFrom p ≠ [] := by
    rw [hsteps]
    exact fun hnil => hdown (List.append_eq_nil_iff.1 hnil).2
  have hlast : IsName ((start.stepsFrom p).getLast hne) := by
    simp only [hsteps, List.getLast_append_of_ne_nil _ hdown]
    exact hp.names _ (List.mem_of_mem_drop (List.getLast_mem hdown))
  refine ⟨start.stepsFrom p, hne, hparts, hlast, ?_⟩
  rw [Path.relativeTo]
  split
  · rename_i hnil
    exact absurd hnil hne
  · rename_i first rest hcons
    simp only
    split
    · exact .inr (by rw [hcons])
    · exact .inl (by rw [hcons])

variable {g : ModuleGraph}

theorem isName_of_mem_lazyBundles {entries : List Path}
    (h : ∀ entry ∈ entries, EndsInName (g.idOf entry)) {b : Bundle}
    (hb : b ∈ lazyBundles g taken entries) : IsName b.name := by
  induction entries generalizing taken with
  | nil => cases hb
  | cons entry rest ih =>
    rw [lazyBundles] at hb
    rcases List.mem_cons.1 hb with rfl | hb
    · obtain ⟨steps, hne, hparts, hlast, hid⟩ := h entry List.mem_cons_self
      exact isName_bundleName hne hparts hlast hid
    · exact ih (fun e he => h e (List.mem_cons_of_mem entry he)) hb

/-- Where the entries of a graph but the main one are seen by paths that end in names, the graph's
bundles have names that folders can have. -/
theorem isName_of_mem_partition (h : ∀ entry ∈ g.bundleEntries.tail, EndsInName (g.idOf entry))
    {b : Bundle} (hb : b ∈ partition g) : IsName b.name := by
  rw [partition] at hb
  split at hb
  · cases hb
  · rename_i main rest hentries
    rcases List.mem_cons.1 hb with rfl | hb
    · exact (by decide : IsName mainBundleName)
    · refine isName_of_mem_lazyBundles (fun entry hentry => h entry ?_) hb
      rwa [hentries]

end BundleReach
