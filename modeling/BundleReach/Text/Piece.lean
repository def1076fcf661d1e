/-!
# Pieces of texts

Texts cut at a mark, and what they begin with, end with and hold.
-/

namespace BundleReach.Text

/-- The pieces between the marks; a text without a mark is one piece. -/
def splitAtMark (mark : Char) : List Char → List (List Char)
  | [] => [[]]
  | c :: rest =>
    if c = mark then [] :: splitAtMark mark rest
    else match splitAtMark mark rest with
      | [] => [[c]]
      | piece :: pieces => (c :: piece) :: pieces

/-- The pieces between marks of several characters.  So many characters are passed over first: those
of a mark that has been found. -/
def splitAfter (mark : List Char) : Nat → List Char → List (List Char)
  | _, [] => [[]]
  | skipped + 1, _ :: rest => splitAfter mark skipped rest
  | 0, c :: rest =>
    if mark.isPrefixOf (c :: rest) then [] :: splitAfter mark (mark.length - 1) rest
    else match splitAfter mark 0 rest with
      | [] => [[c]]
      | piece :: pieces => (c :: piece) :: pieces

/-- The pieces between marks of several characters, none of which begins within another. -/
def splitAtWord (mark cs : List Char) : List (List Char) := splitAfter mark 0 cs

/-- The pieces of a text between the marks. -/
def pieces (mark : Char) (s : String) : List String :=
  (splitAtMark mark s.toList).map String.ofList

/-- Whether a text begins with another. -/
def beginsWith (start s : String) : Bool := start.toList.isPrefixOf s.toList

/-- Whether a text ends with another. -/
def finishesWith (finish s : String) : Bool := finish.toList.isSuffixOf s.toList

/-- Whether some characters stand together somewhere among others. -/
def isWithin (part : List Char) : List Char → Bool
  | [] => part.isEmpty
  | c :: rest => part.isPrefixOf (c :: rest) || isWithin part rest

/-- Whether a text holds another. -/
def holds (part s : String) : Bool := isWithin part.toList s.toList

/-- A text with another text in place of each mark. -/
def replaceMark (mark : Char) (filler : List Char) (cs : List Char) : List Char :=
  cs.flatMap fun c => if c = mark then filler else [c]

/-- A text without its last characters. -/
def dropEnd (n : Nat) (s : String) : String := String.ofList (s.toList.take (s.toList.length - n))

theorem splitAtMark_ne_nil (mark : Char) (cs : List Char) : splitAtMark mark cs ≠ [] := by
  cases cs with
  | nil => simp [splitAtMark]
  | cons c rest =>
    unfold splitAtMark
    split
    · simp
    · split <;> simp

/-- No piece holds the mark. -/
theorem not_mem_of_mem_splitAtMark {mark : Char} {cs piece : List Char}
    (h : piece ∈ splitAtMark mark cs) : mark ∉ piece := by
  induction cs generalizing piece with
  | nil =>
    simp only [splitAtMark, List.mem_singleton] at h
    simp [h]
  | cons c rest ih =>
    unfold splitAtMark at h
    split at h
    · rcases List.mem_cons.1 h with rfl | h
      · simp
      · exact ih h
    · next hc =>
      split at h
      · next he => exact absurd he (splitAtMark_ne_nil mark rest)
      · next p ps he =>
        rcases List.mem_cons.1 h with rfl | h
        · have := ih (he ▸ List.mem_cons_self : p ∈ splitAtMark mark rest)
          simp [this, Ne.symm hc]
        · exact ih (he ▸ List.mem_cons_of_mem p h)

end BundleReach.Text
