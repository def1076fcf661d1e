import BundleReach.Proofs.Resolution.Candidates

/-!
# The pattern that a key means

Several patterns may fit a key.  The closest of them says most about it: more stands before its
mark, or as much, and it is longer.  No two patterns that fit a key are equally close, so it does
not matter in what order they are written which one is the closest.

Looking a key up does not search for the closest pattern.  It takes the first one that leads the
key anywhere.  That is the same if no other pattern is written ahead of the closest one, or leads
the key elsewhere where the closest one excludes it.

* `Exports.Fits`, `Exports.Closer`, `Exports.Decides` — the closest of the patterns that fit a key;
  `Exports.Decides.unique` and `Exports.exists_decides`, that there is just one if any fits.
* `Exports.matchPattern_eq_some_iff` — what looking up comes to.
* `Exports.closest_decides_unless_preempted` — when that is what the closest pattern says.
-/

namespace BundleReach.Exports

variable {pattern other key matched start finish : List Char}

/-! ## Fitting -/

/-- A pattern fits a key if putting some characters for its first mark makes it the key. -/
def Fits (pattern key matched : List Char) : Prop :=
  ∃ start finish, '*' ∉ start ∧ pattern = start ++ '*' :: finish ∧
    key = start ++ (matched ++ finish)

/-- What stands before a pattern's first mark. -/
def startOf (pattern : List Char) : List Char := pattern.takeWhile (· != '*')

theorem startOf_mark (h : '*' ∉ start) : startOf (start ++ '*' :: finish) = start := by
  induction start with
  | nil => simp [startOf]
  | cons c rest ih =>
    simp only [List.mem_cons, not_or] at h
    have hc : (c != '*') = true := by simpa using Ne.symm h.1
    have hrest := ih h.2
    unfold startOf at hrest ⊢
    rw [List.cons_append, List.takeWhile_cons, if_pos hc, hrest]

theorem dropWhile_mark (h : '*' ∉ start) :
    (start ++ '*' :: finish).dropWhile (· != '*') = '*' :: finish := by
  have hsplit := List.takeWhile_append_dropWhile (p := (· != '*')) (l := start ++ '*' :: finish)
  have hstart : startOf (start ++ '*' :: finish) = start := startOf_mark h
  unfold startOf at hstart
  rw [hstart] at hsplit
  exact List.append_cancel_left hsplit

/-- A text with a mark is what stands before the first one, the mark, and the rest. -/
theorem exists_mark (h : '*' ∈ pattern) :
    ∃ start finish, '*' ∉ start ∧ pattern = start ++ '*' :: finish := by
  obtain ⟨start, finish, hsplit, hstart⟩ := List.eq_append_cons_of_mem h
  exact ⟨start, finish, hstart, hsplit⟩

/-- What a key has between how a pattern begins and how it ends is what the pattern's mark
matches. -/
theorem wildcardMatch_mark_iff (h : '*' ∉ start) :
    wildcardMatch (start ++ '*' :: finish) key = some matched ↔
      key = start ++ (matched ++ finish) := by
  have hmark : (start ++ '*' :: finish).contains '*' = true := by simp
  have hstart : (start ++ '*' :: finish).takeWhile (· != '*') = start := startOf_mark h
  rw [wildcardMatch, if_pos hmark, hstart, dropWhile_mark h]
  simp only [List.drop_succ_cons, List.drop_zero, List.isPrefixOf_iff_prefix,
    List.isSuffixOf_iff_suffix]
  constructor
  · intro hmatch
    split at hmatch
    · rename_i hfit
      obtain ⟨⟨rest, rfl⟩, hsuffix, hlength⟩ := hfit
      have hle : finish.length ≤ rest.length := by
        rw [List.length_append] at hlength
        omega
      obtain ⟨between, rfl⟩ :=
        List.suffix_of_suffix_length_le hsuffix (List.suffix_append start rest) hle
      have hbetween : (start ++ (between ++ finish)).length - start.length - finish.length =
          between.length := by
        simp only [List.length_append]
        omega
      rw [hbetween, List.drop_left, List.take_left] at hmatch
      rw [Option.some.inj hmatch]
    · cases hmatch
  · rintro rfl
    have hlength : (start ++ (matched ++ finish)).length - start.length - finish.length =
        matched.length := by
      simp only [List.length_append]
      omega
    rw [if_pos, hlength, List.drop_left, List.take_left]
    refine ⟨List.prefix_append _ _, ⟨start ++ matched, by simp⟩, ?_⟩
    simp only [List.length_append]
    omega

theorem wildcardMatch_eq_some_iff :
    wildcardMatch pattern key = some matched ↔ Fits pattern key matched := by
  constructor
  · intro h
    have hmark : '*' ∈ pattern := by
      by_contra hnone
      rw [wildcardMatch, if_neg (by simpa using hnone)] at h
      cases h
    obtain ⟨start, finish, hstart, rfl⟩ := exists_mark hmark
    exact ⟨start, finish, hstart, rfl, (wildcardMatch_mark_iff hstart).1 h⟩
  · rintro ⟨start, finish, hstart, rfl, hkey⟩
    exact (wildcardMatch_mark_iff hstart).2 hkey

theorem Fits.unique {matched' : List Char} (h : Fits pattern key matched)
    (h' : Fits pattern key matched') : matched = matched' := by
  rw [← wildcardMatch_eq_some_iff] at h h'
  exact Option.some.inj (h.symm.trans h')

/-! ## The closest pattern -/

/-- A pattern is closer than another one: more stands before its mark, or as much, and it is
longer. -/
def Closer (pattern other : List Char) : Prop :=
  (startOf other).length < (startOf pattern).length ∨
    (startOf other).length = (startOf pattern).length ∧ other.length < pattern.length

theorem Closer.trans {third : List Char} (h : Closer pattern other) (h' : Closer other third) :
    Closer pattern third := by
  unfold Closer at *
  omega

theorem Closer.asymm (h : Closer pattern other) : ¬ Closer other pattern := by
  unfold Closer at *
  omega

/-- Of two patterns that fit a key, one is closer: beginnings of one length are the same, and so are
ends. -/
theorem Fits.eq_or_closer {matched' : List Char} (h : Fits pattern key matched)
    (h' : Fits other key matched') :
    pattern = other ∨ Closer pattern other ∨ Closer other pattern := by
  obtain ⟨start, finish, hstart, rfl, hkey⟩ := h
  obtain ⟨start', finish', hstart', rfl, hkey'⟩ := h'
  unfold Closer
  rw [startOf_mark hstart, startOf_mark hstart']
  by_cases hstarts : start.length = start'.length
  · by_cases hends : finish.length = finish'.length
    · left
      have hsplit : start ++ (matched ++ finish) = start' ++ (matched' ++ finish') :=
        hkey.symm.trans hkey'
      obtain ⟨rfl, hrest⟩ := List.append_inj hsplit hstarts
      obtain ⟨-, rfl⟩ := List.append_inj' hrest hends
      rfl
    · right
      simp only [List.length_append, List.length_cons]
      omega
  · right
    omega

/-- An entry has the closest of the patterns that fit a key. -/
structure Decides (entries : Table String Json) (key pattern : String) (target : Json)
    (matched : List Char) : Prop where
  mem : (pattern, target) ∈ entries
  fits : Fits pattern.toList key.toList matched
  closest : ∀ e ∈ entries, ∀ matched, Fits e.1.toList key.toList matched → e.1 ≠ pattern →
    Closer pattern.toList e.1.toList

section

variable {entries : Table String Json} {key : String}

/-- The closest pattern is the only one, however the patterns are arranged. -/
theorem Decides.unique {arranged : Table String Json} {pattern other : String}
    {target target' : Json} {matched matched' : List Char} (hkeys : (Table.keys entries).Nodup)
    (hperm : arranged.Perm entries) (h : Decides entries key pattern target matched)
    (h' : Decides arranged key other target' matched') :
    pattern = other ∧ target = target' ∧ matched = matched' := by
  have hmem : (other, target') ∈ entries := hperm.mem_iff.1 h'.mem
  have hsame : pattern = other := by
    by_contra hne
    have hcloser := h.closest _ hmem _ h'.fits (Ne.symm hne)
    exact hcloser.asymm (h'.closest _ (hperm.mem_iff.2 h.mem) _ h.fits hne)
  subst hsame
  have hfind := Table.find?_of_mem hkeys h.mem
  rw [Table.find?_of_mem hkeys hmem] at hfind
  exact ⟨rfl, (Option.some.inj hfind).symm, h.fits.unique h'.fits⟩

/-- If any pattern fits a key, there is a closest one. -/
theorem exists_decides (h : ∃ e ∈ entries, ∃ matched, Fits e.1.toList key.toList matched) :
    ∃ pattern target matched, Decides entries key pattern target matched := by
  induction entries with
  | nil =>
    obtain ⟨e, he, -⟩ := h
    cases he
  | cons first rest ih =>
    by_cases hrest : ∃ e ∈ rest, ∃ matched, Fits e.1.toList key.toList matched
    · obtain ⟨pattern, target, matched, hdecides⟩ := ih hrest
      by_cases hcloser : ∃ matched', Fits first.1.toList key.toList matched' ∧
          Closer first.1.toList pattern.toList
      · -- The first pattern is closer than the closest of the others.
        obtain ⟨matched', hfits, hcloser⟩ := hcloser
        refine ⟨first.1, first.2, matched', List.mem_cons_self, hfits, ?_⟩
        intro e he m hm hne
        rcases List.mem_cons.1 he with rfl | he
        · exact absurd rfl hne
        · by_cases hsame : e.1 = pattern
          · rwa [hsame]
          · exact hcloser.trans (hdecides.closest e he m hm hsame)
      · refine ⟨pattern, target, matched, List.mem_cons_of_mem _ hdecides.mem, hdecides.fits, ?_⟩
        intro e he m hm hne
        rcases List.mem_cons.1 he with rfl | he
        · rcases hdecides.fits.eq_or_closer hm with hsame | hcloses | hcloses
          · exact absurd (String.toList_inj.1 hsame).symm hne
          · exact hcloses
          · exact absurd ⟨m, hm, hcloses⟩ hcloser
        · exact hdecides.closest e he m hm hne
    · obtain ⟨e, he, matched, hfits⟩ := h
      rcases List.mem_cons.1 he with rfl | he
      · refine ⟨e.1, e.2, matched, List.mem_cons_self, hfits, ?_⟩
        intro e' he' m hm hne
        rcases List.mem_cons.1 he' with rfl | he'
        · exact absurd rfl hne
        · exact absurd ⟨e', he', m, hm⟩ hrest
      · exact absurd ⟨e, he, matched, hfits⟩ hrest

/-! ## Looking up -/

/-- What a target's file becomes for what a mark matches, which stands for all of its marks. -/
def filled (matched : List Char) (file : String) : String :=
  String.ofList (Text.replaceMark '*' matched file.toList)

/-- An entry leads a key to a file: its pattern fits, and its target leads to what becomes the
file. -/
def Leads (key : String) (e : String × Json) (file : String) : Prop :=
  ∃ matched found, Fits e.1.toList key.toList matched ∧ pickTarget e.2 = some found ∧
    filled matched found = file

theorem Decides.leads {pattern file : String} {target : Json} {matched : List Char}
    (h : Decides entries key pattern target matched) (hpick : pickTarget target = some file) :
    Leads key (pattern, target) (filled matched file) :=
  ⟨matched, file, h.fits, hpick, rfl⟩

theorem Leads.unique {e : String × Json} {file file' : String} (h : Leads key e file)
    (h' : Leads key e file') : file = file' := by
  obtain ⟨matched, found, hfits, hpick, rfl⟩ := h
  obtain ⟨matched', found', hfits', hpick', rfl⟩ := h'
  obtain rfl := hfits.unique hfits'
  rw [hpick] at hpick'
  rw [Option.some.inj hpick']

/-- Looking a key up among patterns takes the first one that leads it anywhere. -/
theorem matchPattern_eq_some_iff {file : String} :
    matchPattern key.toList entries = some file ↔
      ComesAfter (fun e => ∀ file, ¬ Leads key e file) (fun e => Leads key e file) entries := by
  induction entries with
  | nil => exact ⟨fun h => (by cases h), fun h => absurd h not_comesAfter_nil⟩
  | cons e rest ih =>
    rw [matchPattern, comesAfter_cons_iff, ← ih]
    cases hmatch : wildcardMatch e.1.toList key.toList with
    | none =>
      have hnone : ∀ file, ¬ Leads key e file := by
        rintro file ⟨matched, found, hfits, -, -⟩
        rw [← wildcardMatch_eq_some_iff, hmatch] at hfits
        cases hfits
      simp [hnone]
    | some matched =>
      rw [wildcardMatch_eq_some_iff] at hmatch
      cases hpick : pickTarget e.2 with
      | none =>
        have hnone : ∀ file, ¬ Leads key e file := by
          rintro file ⟨matched, found, -, hfound, -⟩
          rw [hpick] at hfound
          cases hfound
        simp [hnone]
      | some found =>
        have hleads : Leads key e (filled matched found) := ⟨matched, found, hmatch, hpick, rfl⟩
        have hiff : Leads key e file ↔ filled matched found = file :=
          ⟨hleads.unique, fun h => h ▸ hleads⟩
        rw [hiff]
        constructor
        · intro h
          exact .inl (Option.some.inj h)
        · rintro (h | ⟨hnone, -⟩)
          · exact congrArg some h
          · exact absurd hleads (hnone _)

theorem matchPattern_eq_none_iff :
    matchPattern key.toList entries = none ↔ ∀ e ∈ entries, ∀ file, ¬ Leads key e file := by
  rw [Option.eq_none_iff_forall_ne_some]
  constructor
  · intro h
    induction entries with
    | nil => simp
    | cons e rest ih =>
      have hfirst : ∀ file, ¬ Leads key e file := fun file hleads =>
        h file (matchPattern_eq_some_iff.2 (comesAfter_cons_iff.2 (.inl hleads)))
      refine List.forall_mem_cons.2 ⟨hfirst, ih fun file hfile => ?_⟩
      exact h file (matchPattern_eq_some_iff.2
        (comesAfter_cons_iff.2 (.inr ⟨hfirst, matchPattern_eq_some_iff.1 hfile⟩)))
  · intro h file hfile
    obtain ⟨before, e, after, rfl, -, hleads⟩ := matchPattern_eq_some_iff.1 hfile
    exact h e List.mem_append_cons_self file hleads

/-- Exports whose names are paths are looked up as they are. -/
theorem targets_of_paths (h : ∀ name ∈ Table.keys entries, Text.beginsWith "." name = true) :
    targets (.object entries) = entries := by
  rw [targets]
  refine if_neg fun hnone => ?_
  cases entries with
  | nil => simp at hnone
  | cons e rest =>
    have hfirst : Text.beginsWith "." e.1 = true := h e.1 (by simp [Table.keys])
    simp [hfirst] at hnone

/-! ## Where the closest pattern does not decide -/

/-- The closest pattern excludes a key, but another one leads it somewhere. -/
def Readmitted (entries : Table String Json) (key : String) (target : Json) : Prop :=
  pickTarget target = none ∧ ∃ e ∈ entries, ∃ file, Leads key e file

/-- Ahead of the closest pattern another one leads the key elsewhere, and it is the first that leads
it anywhere. -/
def Preempted (entries : Table String Json) (key pattern : String) (target : Json)
    (matched : List Char) : Prop :=
  ∃ found before after, pickTarget target = some found ∧
    entries = before ++ (pattern, target) :: after ∧
    ComesAfter (fun e => ∀ file, ¬ Leads key e file)
      (fun e => ∃ file, Leads key e file ∧ file ≠ filled matched found) before

variable {pattern : String} {target : Json} {matched : List Char}

theorem Decides.matchPattern_eq_iff (h : Decides entries key pattern target matched) :
    matchPattern key.toList entries = (pickTarget target).map (filled matched) ↔
      ¬ Readmitted entries key target ∧ ¬ Preempted entries key pattern target matched := by
  cases hpick : pickTarget target with
  | none =>
    have hpreempted : ¬ Preempted entries key pattern target matched := by
      rintro ⟨found, before, after, hfound, -⟩
      rw [hpick] at hfound
      cases hfound
    rw [Option.map_none, matchPattern_eq_none_iff, Readmitted, hpick]
    simp [hpreempted]
  | some found =>
    have hreadmitted : ¬ Readmitted entries key target := by
      rintro ⟨hnone, -⟩
      rw [hpick] at hnone
      cases hnone
    have hleads := h.leads hpick
    rw [Option.map_some, matchPattern_eq_some_iff]
    constructor
    · refine fun hfirst => ⟨hreadmitted, ?_⟩
      rintro ⟨found', before, after, hfound', rfl, earlier, e, later, rfl, hnone, file, hfile, hne⟩
      obtain rfl : found = found' := Option.some.inj (hpick.symm.trans hfound')
      have hother : matchPattern key.toList (earlier ++ e :: later ++ (pattern, target) :: after) =
          some file := by
        rw [matchPattern_eq_some_iff, List.append_assoc]
        exact ⟨earlier, e, _, rfl, hnone, hfile⟩
      rw [matchPattern_eq_some_iff.2 hfirst] at hother
      exact hne (Option.some.inj hother).symm
    · rintro ⟨-, hclear⟩
      obtain ⟨before, after, rfl⟩ := List.append_of_mem h.mem
      cases hbefore : matchPattern key.toList before with
      | none =>
        exact comesAfter_append_iff.2
          (.inr ⟨matchPattern_eq_none_iff.1 hbefore, comesAfter_cons_iff.2 (.inl hleads)⟩)
      | some file =>
        obtain ⟨earlier, e, later, rfl, hnone, hfile⟩ := matchPattern_eq_some_iff.1 hbefore
        have hsame : file = filled matched found := by
          by_contra hne
          exact hclear ⟨found, _, after, hpick, rfl, earlier, e, later, rfl, hnone, file, hfile,
            hne⟩
        exact comesAfter_append_iff.2 (.inl ⟨earlier, e, later, rfl, hnone, hsame ▸ hfile⟩)

/-- In whatever order the patterns are written, looking up comes to what the closest one says, just
if all that lead the key anywhere lead it there. -/
theorem Decides.forall_perm_iff (h : Decides entries key pattern target matched) :
    (∀ arranged : Table String Json, arranged.Perm entries →
        matchPattern key.toList arranged = (pickTarget target).map (filled matched)) ↔
      ∀ e ∈ entries, ∀ file, Leads key e file →
        (pickTarget target).map (filled matched) = some file := by
  constructor
  · intro hall e he file hleads
    -- Any entry may be written first.
    obtain ⟨before, after, rfl⟩ := List.append_of_mem he
    rw [← hall (e :: (before ++ after)) List.perm_middle.symm, matchPattern_eq_some_iff]
    exact comesAfter_cons_iff.2 (.inl hleads)
  · intro hall arranged hperm
    cases hlook : matchPattern key.toList arranged with
    | some file =>
      obtain ⟨before, e, after, rfl, -, hleads⟩ := matchPattern_eq_some_iff.1 hlook
      exact (hall e (hperm.mem_iff.1 List.mem_append_cons_self) file hleads).symm
    | none =>
      cases hpick : pickTarget target with
      | none => rfl
      | some found =>
        have hmem := hperm.mem_iff.2 h.mem
        exact absurd (h.leads hpick) (matchPattern_eq_none_iff.1 hlook _ hmem _)

end

/-- A key that is written as it is leads where its target leads.  Otherwise, if no pattern fits, it
leads nowhere; and if any does, one of them is the closest, and the key leads where that one leads
it, unless it is readmitted or preempted.  In whatever order the patterns are written it leads
there, just if all patterns that lead it anywhere lead it there. -/
theorem closest_decides_unless_preempted {entries : Table String Json}
    (hkeys : (Table.keys entries).Nodup)
    (hpaths : ∀ name ∈ Table.keys entries, Text.beginsWith "." name = true) (key : String) :
    (∀ target, Table.find? key entries = some target →
      matchExports (.object entries) key = pickTarget target) ∧
    (Table.find? key entries = none →
      ((∀ e ∈ entries, ∀ matched, ¬ Fits e.1.toList key.toList matched) →
        matchExports (.object entries) key = none) ∧
      ((∃ e ∈ entries, ∃ matched, Fits e.1.toList key.toList matched) →
        ∃ pattern target matched, Decides entries key pattern target matched) ∧
      ∀ pattern target matched, Decides entries key pattern target matched →
        (∀ arranged other target' matched', arranged.Perm entries →
          Decides arranged key other target' matched' →
            pattern = other ∧ target = target' ∧ matched = matched') ∧
        (matchExports (.object entries) key = (pickTarget target).map (filled matched) ↔
          ¬ Readmitted entries key target ∧ ¬ Preempted entries key pattern target matched) ∧
        ((∀ arranged : Table String Json, arranged.Perm entries →
            matchExports (.object arranged) key = (pickTarget target).map (filled matched)) ↔
          ∀ e ∈ entries, ∀ file, Leads key e file →
            (pickTarget target).map (filled matched) = some file)) := by
  constructor
  · intro target htarget
    rw [matchExports, targets_of_paths hpaths, htarget]
  intro hunwritten
  -- Patterns that are arranged in another order are looked up in that order.
  have hlook : ∀ arranged : Table String Json, arranged.Perm entries →
      matchExports (.object arranged) key = matchPattern key.toList arranged := by
    intro arranged hperm
    have hsame : ∀ name, name ∈ Table.keys arranged ↔ name ∈ Table.keys entries :=
      fun name => (hperm.map Prod.fst).mem_iff
    have hnone : Table.find? key arranged = none := by
      rw [Table.find?_eq_none_iff, hsame, ← Table.find?_eq_none_iff]
      exact hunwritten
    rw [matchExports, targets_of_paths fun name hname => hpaths name ((hsame name).1 hname), hnone]
  refine ⟨fun hunfit => ?_, exists_decides, fun pattern target matched h => ⟨?_, ?_, ?_⟩⟩
  · rw [hlook entries (.refl _), matchPattern_eq_none_iff]
    rintro e he file ⟨matched, found, hfits, -, -⟩
    exact hunfit e he matched hfits
  · intro arranged other target' matched' hperm h'
    exact h.unique hkeys hperm h'
  · rw [hlook entries (.refl _)]
    exact h.matchPattern_eq_iff
  · rw [← h.forall_perm_iff]
    refine forall_congr' fun arranged => forall_congr' fun hperm => ?_
    rw [hlook arranged hperm]

/-- A broad pattern is written ahead of a narrow one. -/
def broadFirst : Table String Json :=
  [("./*", .text "./lib/*.js"), ("./x/*", .text "./extra/*.js")]

/-- The narrow pattern is the closest, and yet the key leads where the broad one leads it. -/
theorem closest_decides_unless_preempted_broad :
    (Table.keys broadFirst).Nodup ∧
      (∀ name ∈ Table.keys broadFirst, Text.beginsWith "." name = true) ∧
      Table.find? "./x/y" broadFirst = none ∧
      Decides broadFirst "./x/y" "./x/*" (.text "./extra/*.js") ['y'] ∧
      matchExports (.object broadFirst) "./x/y" = some "./lib/x/y.js" ∧
      matchExports (.object broadFirst) "./x/y" ≠ some "./extra/y.js" := by
  have hkeys : (Table.keys broadFirst).Nodup := by decide
  have hpaths : ∀ name ∈ Table.keys broadFirst, Text.beginsWith "." name = true := by decide
  have hunwritten : Table.find? "./x/y" broadFirst = none := by decide
  have hbroad : Leads "./x/y" ("./*", .text "./lib/*.js") "./lib/x/y.js" :=
    ⟨['x', '/', 'y'], "./lib/*.js", ⟨['.', '/'], [], by decide, by decide, by decide⟩, rfl,
      by decide⟩
  have hdecides : Decides broadFirst "./x/y" "./x/*" (.text "./extra/*.js") ['y'] := by
    refine ⟨by simp [broadFirst], ⟨['.', '/', 'x', '/'], [], by decide, by decide, by decide⟩, ?_⟩
    intro e he matched _ hne
    simp only [broadFirst, List.mem_cons, List.not_mem_nil, or_false] at he
    rcases he with rfl | rfl
    · exact .inl (by decide)
    · exact absurd rfl hne
  obtain ⟨-, hpattern⟩ := closest_decides_unless_preempted hkeys hpaths "./x/y"
  obtain ⟨-, -, hclosest⟩ := hpattern hunwritten
  obtain ⟨-, hiff, -⟩ := hclosest _ _ _ hdecides
  refine ⟨hkeys, hpaths, hunwritten, hdecides, by decide, fun hmeant => ?_⟩
  refine (hiff.1 hmeant).2 ⟨"./extra/*.js", [("./*", .text "./lib/*.js")], [], rfl, rfl, ?_⟩
  exact comesAfter_cons_iff.2 (.inl ⟨"./lib/x/y.js", hbroad, by decide⟩)

end BundleReach.Exports
