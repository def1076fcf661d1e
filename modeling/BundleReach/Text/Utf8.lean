/-!
# UTF-8

Texts reach the program as bytes.  A byte string that is not well-formed is either refused at its
first bad sequence, or read with U+FFFD in place of each bad sequence.  A bad sequence ends before
the byte that rules it out, so the byte that follows a truncated sequence is read afresh.

Main definitions: `decode`, which refuses, and `decodeLossy`, which replaces.
-/

namespace BundleReach.Text

/-- The bytes of a file. -/
abbrev Bytes := List UInt8

/-- What the first byte of a longer sequence announces: how many bytes it is owed, the range of the
next one of them, and the part of the code point that it carries. -/
structure Lead where
  owed : Nat
  least : Nat
  most : Nat
  value : Nat

/-- The sequences longer than a byte.  The narrower ranges rule out surrogates, code points that a
shorter sequence could write, and those beyond the last one. -/
def lead? (b : Nat) : Option Lead :=
  if 0xC2 ≤ b ∧ b ≤ 0xDF then some ⟨1, 0x80, 0xBF, b - 0xC0⟩
  else if b = 0xE0 then some ⟨2, 0xA0, 0xBF, 0⟩
  else if b = 0xED then some ⟨2, 0x80, 0x9F, 0xD⟩
  else if 0xE1 ≤ b ∧ b ≤ 0xEF then some ⟨2, 0x80, 0xBF, b - 0xE0⟩
  else if b = 0xF0 then some ⟨3, 0x90, 0xBF, 0⟩
  else if 0xF1 ≤ b ∧ b ≤ 0xF3 then some ⟨3, 0x80, 0xBF, b - 0xF0⟩
  else if b = 0xF4 then some ⟨3, 0x80, 0x8F, 4⟩
  else none

/-- Why a sequence is bad. -/
inductive SequenceFault where
  | startByte
  | continuationByte
  | endOfData
  deriving DecidableEq, Repr

/-- What a stretch of bytes stands for: a character, or nothing. -/
inductive Sequence where
  | whole (c : Char)
  | bad (fault : SequenceFault)
  deriving DecidableEq, Repr

/-- A sequence begun but not ended, with the number of its bytes read so far. -/
abbrev Pending := Option (Lead × Nat)

/-- The sequences that a byte ends where none is pending, and the sequence that it leaves
pending. -/
def Pending.begin (b : Nat) : List (Sequence × Nat) × Pending :=
  if b < 0x80 then ([(.whole (Char.ofNat b), 1)], none)
  else match lead? b with
    | some l => ([], some (l, 1))
    | none => ([(.bad .startByte, 1)], none)

/-- The sequences that a byte ends, and the sequence that it leaves pending. -/
def Pending.step (b : Nat) : Pending → List (Sequence × Nat) × Pending
  | none => Pending.begin b
  | some (l, taken) =>
    if l.least ≤ b ∧ b ≤ l.most then
      let value := 64 * l.value + (b - 0x80)
      if l.owed ≤ 1 then ([(.whole (Char.ofNat value), taken + 1)], none)
      else ([], some (⟨l.owed - 1, 0x80, 0xBF, value⟩, taken + 1))
    else
      ((.bad .continuationByte, taken) :: (Pending.begin b).1, (Pending.begin b).2)

/-- Cuts bytes into sequences, each with its length. -/
def sequencesFrom : Pending → Bytes → List (Sequence × Nat)
  | none, [] => []
  | some (_, taken), [] => [(.bad .endOfData, taken)]
  | p, b :: rest => (p.step b.toNat).1 ++ sequencesFrom (p.step b.toNat).2 rest

/-- A byte string cut into its sequences, each with its length. -/
def sequences (bytes : Bytes) : List (Sequence × Nat) := sequencesFrom none bytes

/-- The first bad sequence of a byte string: its offset, its length, its first byte and what is
wrong with it. -/
structure DecodeError where
  offset : Nat
  length : Nat
  byte : Nat
  fault : SequenceFault
  deriving DecidableEq, Repr

/-- Reads bytes as text, refusing bad sequences. -/
def decode (bytes : Bytes) : Except DecodeError (List Char) :=
  go 0 bytes (sequences bytes)
where
  /-- Joins the sequences from an offset on. -/
  go (offset : Nat) (bytes : Bytes) : List (Sequence × Nat) → Except DecodeError (List Char)
    | [] => .ok []
    | (.whole c, n) :: rest => return c :: (← go (offset + n) (bytes.drop n) rest)
    | (.bad fault, n) :: _ => .error ⟨offset, n, (bytes.headD 0).toNat, fault⟩

/-- Reads bytes as text with U+FFFD for each bad sequence. -/
def decodeLossy (bytes : Bytes) : List Char :=
  (sequences bytes).map fun
    | (.whole c, _) => c
    | (.bad _, _) => Char.ofNat 0xFFFD

/-- A digit of a number written in base sixteen, in small letters. -/
def hexDigit (n : Nat) : Char :=
  if n < 10 then Char.ofNat (48 + n) else Char.ofNat (87 + n)

/-- The last `width` digits of a number in base sixteen. -/
def hexDigits : Nat → Nat → List Char
  | 0, _ => []
  | width + 1, n => hexDigits width (n / 16) ++ [hexDigit (n % 16)]

def SequenceFault.message : SequenceFault → String
  | startByte => "invalid start byte"
  | continuationByte => "invalid continuation byte"
  | endOfData => "unexpected end of data"

def DecodeError.message (e : DecodeError) : String :=
  let place :=
    if e.length = 1 then
      "byte 0x" ++ String.ofList (hexDigits 2 e.byte) ++ " in position " ++ toString e.offset
    else
      "bytes in position " ++ toString e.offset ++ "-" ++ toString (e.offset + e.length - 1)
  "'utf-8' codec can't decode " ++ place ++ ": " ++ e.fault.message

/-- A text with one mark, the line feed, at the end of each line: a carriage return is a line end
of its own unless a line feed follows it. -/
def unifyLineEnds : List Char → List Char
  | '\r' :: '\n' :: rest => '\n' :: unifyLineEnds rest
  | '\r' :: rest => '\n' :: unifyLineEnds rest
  | c :: rest => c :: unifyLineEnds rest
  | [] => []

end BundleReach.Text
