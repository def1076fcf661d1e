import BundleReach.Proofs.Report.Layout
import Mathlib.Algebra.Group.Nat.Even

/-!
# Reading a document back

A reader of a DOT document ends a quoted string at a quote that does not stand after an odd number
of backslashes.  The writer puts a backslash before each quote of a text and leaves the backslashes
of the text alone, so a text is read back where the backslashes before its quotes and at its end are
even in number; where two backslashes are read as one, as they are in labels, none may stand side by
side.  A document whose texts are all like this is read as it was meant, and no other is.

* `tokens` — the reader.
* `Readable` — texts that are read back.
* `tokens_inQuotes_iff` — one text, whatever comes after it.
* `document_read_back_iff` — a document.
-/

namespace BundleReach.Quoting

/-! ## The reader -/

/-- What a reader takes from a document: characters outside of quotes, and strings between them. -/
inductive Token where
  | plain (c : Char)
  | quoted (text : List Char)
  /-- A string that does not end. -/
  | unclosed (text : List Char)
  deriving DecidableEq, Repr

/-- Where a reader stands.  What has been read of a string is kept back to front. -/
inductive Mode where
  | outside
  | inside (read : List Char)
  /-- After an odd number of backslashes, the last of which is not kept yet. -/
  | escaped (read : List Char)

/-- Reads on; two backslashes may be read as one. -/
def tokens (merges : Bool) : Mode → List Char → List Token
  | .outside, [] => []
  | .inside read, [] => [.unclosed read.reverse]
  | .escaped read, [] => [.unclosed ('\\' :: read).reverse]
  | .outside, c :: cs =>
    if c = '\x22' then tokens merges (.inside []) cs else .plain c :: tokens merges .outside cs
  | .inside read, c :: cs =>
    if c = '\x22' then .quoted read.reverse :: tokens merges .outside cs
    else if c = '\\' then tokens merges (.escaped read) cs
    else tokens merges (.inside (c :: read)) cs
  | .escaped read, c :: cs =>
    if c = '\x22' then tokens merges (.inside ('\x22' :: read)) cs
    else if c = '\\' then
      tokens merges (.inside (if merges then '\\' :: read else '\\' :: '\\' :: read)) cs
    else tokens merges (.inside (c :: '\\' :: read)) cs

/-! ## Texts that are read back -/

/-- How many backslashes a text ends in. -/
def backslashesAtEnd (cs : List Char) : Nat := (cs.reverse.takeWhile (· = '\\')).length

/-- A text that is read back: an even number of backslashes stands before each quote and at the end,
and no two stand side by side if they are read as one. -/
structure Readable (merges : Bool) (cs : List Char) : Prop where
  quotes : ∀ before after, cs = before ++ '\x22' :: after → Even (backslashesAtEnd before)
  finish : Even (backslashesAtEnd cs)
  apart : merges = true → ¬ ['\\', '\\'] <:+: cs

variable {merges : Bool} {c : Char} {cs read rest : List Char} {more : List Token}

/-- Whether the backslashes that a text ends in are odd in number, given whether those before it
are. -/
def oddAfter (odd : Bool) (cs : List Char) : Bool :=
  cs.foldl (fun odd c => if c = '\\' then !odd else false) odd

theorem oddAfter_eq_false_iff : oddAfter false cs = false ↔ Even (backslashesAtEnd cs) := by
  induction cs using List.reverseRecOn with
  | nil => exact ⟨fun _ => ⟨0, rfl⟩, fun _ => rfl⟩
  | append_singleton cs c ih =>
    have hlast : oddAfter false (cs ++ [c]) = if c = '\\' then !oddAfter false cs else false := by
      rw [oddAfter, List.foldl_append]
      rfl
    rw [hlast, backslashesAtEnd, List.reverse_append, List.reverse_singleton,
      List.singleton_append, List.takeWhile_cons]
    by_cases hc : c = '\\'
    · rw [if_pos hc, if_pos (by simpa using hc), List.length_cons, ← backslashesAtEnd,
        Nat.even_add_one, ← ih, Bool.not_eq_false', Bool.not_eq_false]
    · rw [if_neg hc, if_neg (by simpa using hc)]
      exact ⟨fun _ => ⟨0, rfl⟩, fun _ => rfl⟩

/-- Whether the rest of a text is read back, given whether an odd number of backslashes stands
before it. -/
def readsBack (merges : Bool) : Bool → List Char → Bool
  | odd, [] => !odd
  | odd, c :: cs =>
    if c = '\x22' then !odd && readsBack merges false cs
    else if c = '\\' then !(odd && merges) && readsBack merges (!odd) cs
    else readsBack merges false cs

/-- To ask something of the backslashes before each quote is to ask it of the first character, if it
is a quote, and of the quotes after it. -/
theorem forall_quote_cons_iff {odd : Bool} :
    (∀ before after, c :: cs = before ++ '\x22' :: after → oddAfter odd before = false) ↔
      (c = '\x22' → odd = false) ∧ ∀ before after, cs = before ++ '\x22' :: after →
        oddAfter (if c = '\\' then !odd else false) before = false := by
  constructor
  · intro h
    refine ⟨fun hc => h [] cs (by rw [hc, List.nil_append]), fun before after hcs => ?_⟩
    exact h (c :: before) after (by rw [hcs, List.cons_append])
  · rintro ⟨hhead, htail⟩ before after hcs
    cases before with
    | nil => exact hhead (List.cons.inj hcs).1
    | cons b before =>
      obtain ⟨rfl, hrest⟩ := List.cons.inj hcs
      exact htail before after hrest

/-- What `readsBack` asks for, place by place. -/
theorem readsBack_iff_from {odd : Bool} :
    readsBack merges odd cs = true ↔
      (∀ before after, cs = before ++ '\x22' :: after → oddAfter odd before = false) ∧
        oddAfter odd cs = false ∧
        (merges = true → ¬ ['\\', '\\'] <:+: if odd then '\\' :: cs else cs) := by
  induction cs generalizing odd with
  | nil =>
    cases odd with
    | false => simp [readsBack, oddAfter]
    | true => simp [readsBack, oddAfter]
  | cons c cs ih =>
    have hend : oddAfter odd (c :: cs) = oddAfter (if c = '\\' then !odd else false) cs := rfl
    rw [readsBack, forall_quote_cons_iff, hend]
    by_cases hquote : c = '\x22'
    · subst hquote
      have hapart : (['\\', '\\'] <:+: if odd then '\\' :: '\x22' :: cs else '\x22' :: cs) ↔
          ['\\', '\\'] <:+: cs := by
        cases odd <;> simp [List.infix_cons_iff]
      rw [if_pos rfl, if_neg (by decide), Bool.and_eq_true, Bool.not_eq_true', ih, hapart]
      simp [and_assoc]
    · by_cases hback : c = '\\'
      · subst hback
        rw [if_neg (by decide), if_pos rfl, if_pos rfl, Bool.and_eq_true, ih]
        cases odd with
        | false => simp
        | true =>
          have hside : ['\\', '\\'] <:+: '\\' :: '\\' :: cs := ⟨[], cs, rfl⟩
          cases merges <;> simp [hside]
      · have hapart : (['\\', '\\'] <:+: if odd then '\\' :: c :: cs else c :: cs) ↔
            ['\\', '\\'] <:+: cs := by
          cases odd <;> simp [List.infix_cons_iff, Ne.symm hback]
        rw [if_neg hquote, if_neg hback, if_neg hback, ih, hapart]
        simp [hquote]

theorem readsBack_iff : readsBack merges false cs = true ↔ Readable merges cs := by
  rw [readsBack_iff_from]
  simp only [oddAfter_eq_false_iff, Bool.false_eq_true, if_false]
  exact ⟨fun ⟨hq, hf, ha⟩ => ⟨hq, hf, ha⟩, fun ⟨hq, hf, ha⟩ => ⟨hq, hf, ha⟩⟩

/-! ## Reading what has been written -/

/-- What the writer makes of a text between quotes. -/
def written (cs : List Char) : List Char := Text.replaceMark '\x22' ['\\', '\x22'] cs

theorem written_cons_quote (cs : List Char) :
    written ('\x22' :: cs) = '\\' :: '\x22' :: written cs := rfl

theorem written_cons_of_ne (h : c ≠ '\x22') (cs : List Char) :
    written (c :: cs) = c :: written cs := by
  rw [written, Text.replaceMark, List.flatMap_cons, if_neg h]
  rfl

/-- After an odd number of backslashes, or not. -/
def Mode.within (odd : Bool) (read : List Char) : Mode :=
  if odd then .escaped read else .inside read

/-- What has been read of the text, back to front. -/
def readSoFar (odd : Bool) (read : List Char) : List Char := if odd then '\\' :: read else read

/-! ## Reading what cannot be read back -/

/-- The first of some tokens is a string that begins with a text. -/
def Begins (text : List Char) (ts : List Token) : Prop :=
  ∃ t more, ts = .quoted (text ++ t) :: more ∨ ts = .unclosed (text ++ t) :: more

theorem Begins.of_append {text t : List Char} {ts : List Token} (h : Begins (text ++ t) ts) :
    Begins text ts := by
  obtain ⟨u, more, h⟩ := h
  rw [List.append_assoc] at h
  exact ⟨t ++ u, more, h⟩

/-- A string that begins otherwise is another one. -/
theorem Begins.ne {text t : List Char} {ts : List Token} {a b : Char}
    (h : Begins (text ++ [a]) ts) (hne : a ≠ b) : ts ≠ .quoted (text ++ b :: t) :: more := by
  rintro rfl
  obtain ⟨u, more', h | h⟩ := h
  · have htext := Token.quoted.inj (List.cons.inj h).1
    rw [List.append_assoc, List.append_cancel_left_eq] at htext
    exact hne (List.cons.inj htext).1.symm
  · cases (List.cons.inj h).1

/-- What has been read of a string stays its beginning. -/
theorem begins_tokens (merges : Bool) (read cs : List Char) :
    Begins read.reverse (tokens merges (.inside read) cs) ∧
      Begins read.reverse (tokens merges (.escaped read) cs) := by
  induction cs generalizing read with
  | nil =>
    refine ⟨⟨[], [], .inr (by rw [List.append_nil]; rfl)⟩, ⟨['\\'], [], .inr ?_⟩⟩
    rw [tokens, List.reverse_cons]
  | cons c cs ih =>
    have hkept : ∀ more : List Char,
        Begins read.reverse (tokens merges (.inside (more ++ read)) cs) := by
      intro more
      refine Begins.of_append (t := more.reverse) ?_
      rw [← List.reverse_append]
      exact (ih _).1
    rw [tokens, tokens]
    refine ⟨?_, ?_⟩
    · split
      · exact ⟨[], _, .inl (by rw [List.append_nil])⟩
      · split
        · exact (ih read).2
        · exact hkept [c]
    · split
      · exact hkept ['\x22']
      · split
        · cases merges with
          | true => exact hkept ['\\']
          | false => exact hkept ['\\', '\\']
        · exact hkept [c, '\\']

theorem begins_tokens_cons (merges : Bool) (c : Char) (read cs : List Char) :
    Begins (read.reverse ++ [c]) (tokens merges (.inside (c :: read)) cs) := by
  rw [← List.reverse_cons]
  exact (begins_tokens merges (c :: read) cs).1

/-- Once two backslashes have been read as one, what is read is not the text: it could only fall
behind further as long as there are backslashes, and then it differs. -/
theorem tokens_written_behind (cs read : List Char) (behind : Nat) :
    tokens true (.inside read) (written cs ++ '\x22' :: rest) ≠
        .quoted (read.reverse ++ '\\' :: (List.replicate behind '\\' ++ cs)) :: more ∧
      tokens true (.escaped read) (written cs ++ '\x22' :: rest) ≠
        .quoted (read.reverse ++ '\\' :: '\\' :: (List.replicate behind '\\' ++ cs)) :: more := by
  induction cs generalizing read behind with
  | nil =>
    refine ⟨fun h => ?_, (begins_tokens_cons _ _ _ _).ne (by decide)⟩
    have htext := Token.quoted.inj (List.cons.inj h).1
    exact List.cons_ne_nil _ _ (List.self_eq_append_right.1 htext)
  | cons c cs ih =>
    by_cases hquote : c = '\x22'
    · subst hquote
      refine ⟨(begins_tokens_cons _ _ _ _).ne (by decide), fun h => ?_⟩
      have htext : ('\\' :: read).reverse = _ := Token.quoted.inj (List.cons.inj h).1
      rw [List.reverse_cons, List.append_cancel_left_eq] at htext
      exact List.cons_ne_nil _ _ (List.cons.inj htext).2.symm
    · rw [written_cons_of_ne hquote, List.cons_append, tokens, tokens, if_neg hquote, if_neg hquote]
      by_cases hback : c = '\\'
      · subst hback
        have hshift : List.replicate behind '\\' ++ '\\' :: cs =
            '\\' :: (List.replicate behind '\\' ++ cs) := by
          rw [← List.cons_append, ← List.replicate_succ, List.replicate_succ', List.append_assoc]
          rfl
        rw [if_pos rfl, if_pos rfl, if_pos rfl, hshift]
        refine ⟨(ih read behind).2, ?_⟩
        have hmore := (ih ('\\' :: read) (behind + 1)).1
        rw [List.reverse_cons, List.append_assoc, List.replicate_succ] at hmore
        exact hmore
      · rw [if_neg hback, if_neg hback]
        refine ⟨(begins_tokens_cons _ _ _ _).ne hback, ?_⟩
        have hbegins := begins_tokens_cons true c ('\\' :: read) (written cs ++ '\x22' :: rest)
        have hne : _ ≠ .quoted (('\\' :: read).reverse ++
            '\\' :: (List.replicate behind '\\' ++ c :: cs)) :: more := hbegins.ne hback
        rwa [List.reverse_cons, List.append_assoc] at hne

/-- A text is read up to its own closing quote where it can be read back, and nowhere else. -/
theorem tokens_written_iff {odd : Bool} :
    tokens merges (.within odd read) (written cs ++ '\x22' :: rest) =
        .quoted ((readSoFar odd read).reverse ++ cs) :: more ↔
      readsBack merges odd cs = true ∧ tokens merges .outside rest = more := by
  induction cs generalizing odd read with
  | nil =>
    cases odd with
    | false =>
      rw [List.append_nil]
      refine ⟨fun h => ⟨rfl, (List.cons.inj h).2⟩, ?_⟩
      rintro ⟨-, rfl⟩
      rfl
    | true =>
      have hne : tokens merges (.inside ('\x22' :: read)) rest ≠
          .quoted (read.reverse ++ '\\' :: []) :: more :=
        (begins_tokens_cons _ _ _ _).ne (by decide)
      rw [readSoFar, if_pos rfl, List.reverse_cons, List.append_nil]
      exact ⟨fun h => absurd h hne, fun h => (by cases h.1)⟩
  | cons c cs ih =>
    -- Where a character is kept as it is, the rest of the text is read on from there.
    have hkept : ∀ kept : List Char,
        tokens merges (.inside (kept.reverse ++ read)) (written cs ++ '\x22' :: rest) =
            .quoted (read.reverse ++ (kept ++ cs)) :: more ↔
          readsBack merges false cs = true ∧ tokens merges .outside rest = more := by
      intro kept
      have hmore := @ih (kept.reverse ++ read) false
      rwa [readSoFar, if_neg Bool.false_ne_true, List.reverse_append, List.reverse_reverse,
        List.append_assoc] at hmore
    by_cases hquote : c = '\x22'
    · subst hquote
      cases odd with
      | false => exact hkept ['\x22']
      | true =>
        refine ⟨fun h => ?_, fun h => (by cases h.1)⟩
        have htext := Token.quoted.inj (List.cons.inj h).1
        rw [readSoFar, if_pos rfl, List.reverse_cons, List.append_assoc] at htext
        cases merges <;> simp at htext
    rw [written_cons_of_ne hquote, List.cons_append, readsBack, if_neg hquote]
    by_cases hback : c = '\\'
    · subst hback
      rw [if_pos rfl]
      cases odd with
      | false =>
        have hmore := @ih read true
        rw [readSoFar, if_pos rfl, List.reverse_cons, List.append_assoc] at hmore
        exact hmore
      | true =>
        rw [readSoFar, if_pos rfl, List.reverse_cons, List.append_assoc]
        cases merges with
        | true =>
          have hbehind := (@tokens_written_behind rest more cs ('\\' :: read) 0).1
          rw [List.reverse_cons, List.append_assoc, List.replicate_zero, List.nil_append] at hbehind
          exact ⟨fun h => absurd h hbehind, fun h => (by cases h.1)⟩
        | false => exact hkept ['\\', '\\']
    · rw [if_neg hback]
      cases odd with
      | false =>
        rw [Mode.within, if_neg Bool.false_ne_true, tokens, if_neg hquote, if_neg hback]
        exact hkept [c]
      | true =>
        rw [Mode.within, if_pos rfl, tokens, if_neg hquote, if_neg hback, readSoFar, if_pos rfl,
          List.reverse_cons, List.append_assoc]
        exact hkept ['\\', c]

theorem toList_inQuotes (s : String) :
    (inQuotes s).toList = '\x22' :: (written s.toList ++ ['\x22']) := by
  simp [inQuotes, escapeQuotes, written]

/-- A text between quotes is read back, whatever comes after it, where it is readable. -/
theorem tokens_inQuotes_iff {s : String} :
    tokens merges .outside ((inQuotes s).toList ++ rest) = .quoted s.toList :: more ↔
      Readable merges s.toList ∧ tokens merges .outside rest = more := by
  rw [toList_inQuotes, ← readsBack_iff, List.cons_append, List.append_assoc]
  exact @tokens_written_iff merges s.toList [] rest more false

/-- Outside of quotes characters are read one by one. -/
theorem tokens_outside (hcs : '\x22' ∉ cs) :
    tokens merges .outside (cs ++ rest) = cs.map .plain ++ tokens merges .outside rest := by
  induction cs with
  | nil => rfl
  | cons c cs ih =>
    rw [List.mem_cons, not_or] at hcs
    obtain ⟨hc, hcs⟩ := hcs
    rw [List.cons_append, tokens, if_neg (Ne.symm hc), ih hcs]
    rfl

/-! ## Pieces of a document -/

/-- A piece of a document: words of the language, or a text between quotes. -/
inductive Piece where
  | words (s : String)
  | text (s : String)

namespace Piece

/-- How a piece is written. -/
def shown : Piece → String
  | words s => s
  | text s => inQuotes s

/-- How a piece is meant to be read. -/
def meant : Piece → List Token
  | words s => s.toList.map .plain
  | text s => [.quoted s.toList]

/-- There are no quotes among words. -/
def WellFormed : Piece → Prop
  | words s => '\x22' ∉ s.toList
  | text _ => True

end Piece

/-- Pieces are read as they are meant where each of their texts is readable. -/
theorem tokens_pieces_iff {ps : List Piece} (hps : ∀ p ∈ ps, p.WellFormed) :
    tokens merges .outside (ps.flatMap fun p => p.shown.toList) = ps.flatMap Piece.meant ↔
      ∀ s, .text s ∈ ps → Readable merges s.toList := by
  induction ps with
  | nil => exact ⟨fun _ s hs => (by cases hs), fun _ => rfl⟩
  | cons p ps ih =>
    have ih' := ih fun q hq => hps q (List.mem_cons_of_mem p hq)
    rw [List.flatMap_cons, List.flatMap_cons]
    cases p with
    | words s =>
      have hword : '\x22' ∉ s.toList := hps _ List.mem_cons_self
      rw [Piece.shown, Piece.meant, tokens_outside hword, List.append_cancel_left_eq, ih']
      simp
    | text s =>
      rw [Piece.shown, Piece.meant, List.singleton_append, tokens_inQuotes_iff, ih']
      simp

/-- Pieces of lines with others between them are the pieces of the whole. -/
theorem flatMap_intercalate {α β : Type} (f : α → List β) (sep : List α) (lines : List (List α)) :
    (sep.intercalate lines).flatMap f =
      (sep.flatMap f).intercalate (lines.map fun line => line.flatMap f) := by
  induction lines with
  | nil => rfl
  | cons line lines ih =>
    cases lines with
    | nil => simp
    | cons next lines =>
      rw [List.intercalate_cons_cons, List.flatMap_append, List.flatMap_append, ih]
      rw [List.map_cons, List.map_cons, List.map_cons, List.intercalate_cons_cons]

/-- What lines with others between them have is that of one of the lines, or stands between. -/
theorem mem_intercalate {α : Type} {a : α} {sep : List α} {lines : List (List α)}
    (h : a ∈ sep.intercalate lines) : a ∈ sep ∨ ∃ line ∈ lines, a ∈ line := by
  induction lines with
  | nil => cases h
  | cons line lines ih =>
    cases lines with
    | nil => exact .inr ⟨line, List.mem_cons_self, by simpa using h⟩
    | cons next lines =>
      rw [List.intercalate_cons_cons, List.mem_append, List.mem_append] at h
      rcases h with (h | h) | h
      · exact .inr ⟨line, List.mem_cons_self, h⟩
      · exact .inl h
      · exact (ih h).imp_right fun ⟨l, hl, ha⟩ => ⟨l, List.mem_cons_of_mem _ hl, ha⟩

theorem mem_intercalate_of_mem {α : Type} {a : α} {sep line : List α} {lines : List (List α)}
    (hline : line ∈ lines) (h : a ∈ line) : a ∈ sep.intercalate lines := by
  induction lines with
  | nil => cases hline
  | cons first lines ih =>
    cases lines with
    | nil =>
      rw [List.mem_singleton.1 hline] at h
      simpa using h
    | cons next lines =>
      rw [List.intercalate_cons_cons, List.mem_append, List.mem_append]
      rcases List.mem_cons.1 hline with rfl | hline
      · exact .inl (.inl h)
      · exact .inr (ih hline)

/-- No text is written so that it begins with a quote. -/
theorem written_ne_quote (cs rest : List Char) : written cs ≠ '\x22' :: rest := by
  cases cs with
  | nil => exact fun h => (by cases h)
  | cons c cs =>
    by_cases hquote : c = '\x22'
    · rw [hquote, written_cons_quote]
      exact fun h => absurd (List.cons.inj h).1 (by decide)
    · rw [written_cons_of_ne hquote]
      exact fun h => hquote (List.cons.inj h).1

theorem written_cons_ne_nil (c : Char) (cs : List Char) : written (c :: cs) ≠ [] := by
  by_cases hquote : c = '\x22'
  · rw [hquote, written_cons_quote]
    exact List.cons_ne_nil _ _
  · rw [written_cons_of_ne hquote]
    exact List.cons_ne_nil _ _

/-- Different texts are written differently. -/
theorem written_injective : Function.Injective written := by
  intro cs cs' h
  -- A backslash is written for itself only where no quote comes after it.
  have hhead : ∀ (c : Char) (cs cs' : List Char),
      '\\' :: '\x22' :: written cs ≠ c :: written cs' := fun c cs cs' h =>
    written_ne_quote cs' (written cs) (List.cons.inj h).2.symm
  induction cs generalizing cs' with
  | nil =>
    cases cs' with
    | nil => rfl
    | cons c cs' => exact absurd h.symm (written_cons_ne_nil c cs')
  | cons c cs ih =>
    cases cs' with
    | nil => exact absurd h (written_cons_ne_nil c cs)
    | cons c' cs' =>
      by_cases hquote : c = '\x22' <;> by_cases hquote' : c' = '\x22'
      · subst hquote hquote'
        rw [written_cons_quote, written_cons_quote] at h
        rw [ih (List.cons.inj (List.cons.inj h).2).2]
      · rw [hquote, written_cons_quote, written_cons_of_ne hquote'] at h
        exact absurd h (hhead _ _ _)
      · rw [hquote', written_cons_quote, written_cons_of_ne hquote] at h
        exact absurd h.symm (hhead _ _ _)
      · rw [written_cons_of_ne hquote, written_cons_of_ne hquote'] at h
        obtain ⟨rfl, hrest⟩ := List.cons.inj h
        rw [ih hrest]

end BundleReach.Quoting

namespace BundleReach

open Quoting (Piece Readable tokens)

/-! ## Documents -/

namespace Layout

/-- The texts that a document has between quotes, in their order. -/
def texts (l : Layout) : List String :=
  (l.clusters.flatMap fun c => c.bundle.name :: c.members) ++ l.loose ++
    (l.arrows.flatMap fun a => [a.source, a.target]) ++ if l.hole then [unresolvedName] else []

/-- The pieces of a cluster's lines. -/
def clusterPieces (d : Drawing) (c : Cluster) : List (List Piece) :=
  [[.words ("  subgraph cluster_" ++ toString c.index ++ " \x7b")],
    [.words "    label=", .text c.bundle.name, .words ";"]] ++
  c.members.map (fun id => [.words "    ", .text id, .words (" [shape=" ++
    (if (d.entryIds c.bundle).contains id then "box" else "ellipse") ++ "];")]) ++
  [[.words "  \x7d"]]

/-- The pieces of an edge's line. -/
def arrowPieces (a : Arrow) : List Piece :=
  [.words "  ", .text a.source, .words " -> ", .text a.target,
    .words (" [style=" ++ a.kind.style ++ "];")]

/-- The pieces of a document's lines. -/
def pieces (d : Drawing) (l : Layout) : List (List Piece) :=
  [[.words "digraph ModuleGraph \x7b"], [.words "  rankdir=LR;"]] ++
    l.clusters.flatMap (clusterPieces d) ++
    l.loose.map (fun id => [.words "  ", .text id, .words ";"]) ++ l.arrows.map arrowPieces ++
    (if l.hole then [[.words "  ", .text unresolvedName, .words " [shape=octagon, color=red];"]]
      else []) ++
    [[.words "\x7d"]]

/-- What a document is meant to be read as. -/
def meant (d : Drawing) (l : Layout) : List Quoting.Token :=
  ([Piece.words "\n"].intercalate (l.pieces d)).flatMap Piece.meant

variable {d : Drawing} {l : Layout}

/-- The lines of a document are made of its pieces. -/
theorem map_pieces (d : Drawing) (l : Layout) :
    (l.pieces d).map (fun line => line.flatMap fun p => p.shown.toList) =
      (l.lines d).map String.toList := by
  have hcluster : ∀ c : Cluster,
      (clusterPieces d c).map (fun line => line.flatMap fun p => p.shown.toList) =
        (d.clusterLines c.index c.bundle c.members).map String.toList := by
    intro c
    simp [clusterPieces, Drawing.clusterLines, Piece.shown]
  have harrow : ∀ a : Arrow,
      ((arrowPieces a).flatMap fun p => p.shown.toList) = a.line.toList := by
    intro a
    simp [arrowPieces, Arrow.line, Piece.shown]
  have hhole : "  \"" ++ unresolvedName ++ "\" [shape=octagon, color=red];" =
      "  " ++ inQuotes unresolvedName ++ " [shape=octagon, color=red];" := by decide
  rw [pieces, lines, hhole]
  simp only [List.map_append, List.map_flatMap, List.map_map, hcluster, Function.comp_def, harrow]
  cases l.hole <;> simp [Piece.shown]

theorem wellFormed_pieces (d : Drawing) (l : Layout) :
    ∀ line ∈ l.pieces d, ∀ p ∈ line, p.WellFormed := by
  have hdigits : ∀ n : Nat, '\x22' ∉ Nat.toDigits 10 n := by
    intro n hn
    exact absurd (Nat.isDigit_of_mem_toDigits (by decide) (by decide) hn) (by decide)
  have hcluster : ∀ c, ∀ line ∈ clusterPieces d c, ∀ p ∈ line, p.WellFormed := by
    intro c
    simp only [clusterPieces, List.forall_mem_append, List.forall_mem_cons, List.forall_mem_map,
      List.not_mem_nil, false_implies, implies_true, and_true, Piece.WellFormed, true_and]
    refine ⟨⟨⟨?_, by decide, by decide⟩, fun id _ => ⟨by decide, ?_⟩⟩, by decide⟩
    · simp [hdigits]
    · split <;> decide
  have harrow : ∀ a, ∀ p ∈ arrowPieces a, p.WellFormed := by
    intro a
    simp only [arrowPieces, List.forall_mem_cons, List.not_mem_nil, false_implies, implies_true,
      and_true, Piece.WellFormed, true_and]
    cases a.kind <;> decide
  simp only [pieces, List.forall_mem_append, List.forall_mem_cons, List.forall_mem_map,
    List.not_mem_nil, false_implies, implies_true, and_true, List.forall_mem_flatMap,
    Piece.WellFormed, true_and]
  refine ⟨⟨⟨⟨⟨?_, ?_⟩, ?_⟩, ?_⟩, ?_⟩, ?_⟩
  · decide
  · exact fun c _ => hcluster c
  · exact fun id _ => by decide
  · exact fun a _ => harrow a
  · split <;> simp
  · decide

/-- The texts among the pieces are those of the document. -/
theorem mem_texts_iff {s : String} : (∃ line ∈ l.pieces d, .text s ∈ line) ↔ s ∈ l.texts := by
  have hcluster : ∀ c, (∃ line ∈ clusterPieces d c, .text s ∈ line) ↔
      s ∈ c.bundle.name :: c.members := by
    intro c
    simp [clusterPieces, or_and_right, exists_or]
  have harrow : ∀ a, .text s ∈ arrowPieces a ↔ s ∈ [a.source, a.target] := by
    intro a
    simp [arrowPieces]
  have hclusters : (∃ line ∈ l.clusters.flatMap (clusterPieces d), .text s ∈ line) ↔
      s ∈ l.clusters.flatMap fun c => c.bundle.name :: c.members := by
    simp only [List.mem_flatMap, ← hcluster]
    constructor
    · rintro ⟨line, ⟨c, hc, hline⟩, hs⟩
      exact ⟨c, hc, line, hline, hs⟩
    · rintro ⟨c, hc, line, hline, hs⟩
      exact ⟨line, ⟨c, hc, hline⟩, hs⟩
  have harrows : (∃ line ∈ l.arrows.map arrowPieces, .text s ∈ line) ↔
      s ∈ l.arrows.flatMap fun a => [a.source, a.target] := by
    simp only [List.mem_map, exists_exists_and_eq_and, List.mem_flatMap, harrow]
  have hhole : (∃ line ∈ if l.hole then [[Piece.words "  ", .text unresolvedName,
        .words " [shape=octagon, color=red];"]] else [], .text s ∈ line) ↔
      s ∈ if l.hole then [unresolvedName] else [] := by
    cases l.hole <;> simp
  rw [pieces, texts]
  simp only [List.mem_append, or_and_right, exists_or] at hclusters harrows hhole ⊢
  rw [hclusters, harrows, hhole]
  simp

end Layout

/-- A text is read back, whatever comes after it, where an even number of backslashes stands before
each of its quotes and at its end; two backslashes side by side are one thing too many for a reader
who takes them for one.  A document is read as it is meant, word for word and text for text, where
all of its texts are like this, and no other is.  Different texts are written differently. -/
theorem document_read_back_iff (merges : Bool) :
    (∀ (s : String) (rest : List Char) (more : List Quoting.Token),
      tokens merges .outside ((inQuotes s).toList ++ rest) = .quoted s.toList :: more ↔
        Readable merges s.toList ∧ tokens merges .outside rest = more) ∧
    (∀ (d : Drawing) (focus : String),
      tokens merges .outside (d.document focus).toList = (d.layout focus).meant d ↔
        ∀ s ∈ (d.layout focus).texts, Readable merges s.toList) ∧
    ∀ s s' : String, inQuotes s = inQuotes s' → s = s' := by
  refine ⟨fun s rest more => Quoting.tokens_inQuotes_iff, fun d focus => ?_, fun s s' h => ?_⟩
  · have hdocument : (d.document focus).toList =
        ([Piece.words "\n"].intercalate ((d.layout focus).pieces d)).flatMap
          fun p => p.shown.toList := by
      rw [Drawing.document, Drawing.lines_eq, String.toList_intercalate,
        Quoting.flatMap_intercalate, Layout.map_pieces]
      rfl
    have hpieces : ∀ p ∈ [Piece.words "\n"].intercalate ((d.layout focus).pieces d),
        p.WellFormed := by
      intro p hp
      rcases Quoting.mem_intercalate hp with hp | ⟨line, hline, hp⟩
      · rw [List.mem_singleton.1 hp]
        exact (by decide : '\x22' ∉ "\n".toList)
      · exact Layout.wellFormed_pieces d _ line hline p hp
    rw [hdocument, Layout.meant, Quoting.tokens_pieces_iff hpieces]
    refine forall_congr' fun s => imp_congr_left ?_
    rw [← Layout.mem_texts_iff (d := d)]
    constructor
    · intro h
      exact (Quoting.mem_intercalate h).resolve_left (by simp)
    · rintro ⟨line, hline, h⟩
      exact Quoting.mem_intercalate_of_mem hline h
  · have htext := congrArg String.toList h
    rw [Quoting.toList_inQuotes, Quoting.toList_inQuotes] at htext
    have hwritten := List.append_cancel_right (List.cons.inj htext).2
    exact String.toList_injective (Quoting.written_injective hwritten)

end BundleReach
