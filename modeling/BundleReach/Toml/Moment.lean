import BundleReach.Toml.Number

/-!
# Days and times

* `Day`, `Clock` and `Moment` — a day, a time of day, and a time on a day.
* `readDay`, `readMoment` and `readClock` — each as it is written in a settings file.
-/

namespace BundleReach.Toml

open Numeral (digitsIn?)

/-- A day. -/
structure Day where
  year : Nat
  month : Nat
  day : Nat
  deriving DecidableEq, Repr

/-- A time of day. -/
structure Clock where
  hour : Nat
  minute : Nat
  second : Nat
  /-- Millionths of a second. -/
  millionths : Nat := 0
  deriving DecidableEq, Repr

/-- A time on a day, with the minutes by which its clock is ahead of universal time, if they are
known. -/
structure Moment where
  day : Day
  clock : Clock
  ahead : Option Int := none
  deriving DecidableEq, Repr

/-! ## Days and times that there are -/

/-- The days of a month. -/
def daysIn (year month : Nat) : Nat :=
  if month = 2 then
    if year % 4 = 0 ∧ (year % 100 ≠ 0 ∨ year % 400 = 0) then 29 else 28
  else if month ∈ [4, 6, 9, 11] then 30 else 31

/-- Is there such a day? -/
def Day.exists (d : Day) : Bool :=
  1 ≤ d.year && 1 ≤ d.month && d.month ≤ 12 && 1 ≤ d.day && d.day ≤ daysIn d.year d.month

/-- Is there such a time of day? -/
def Clock.exists (t : Clock) : Bool := t.hour < 24 && t.minute < 60 && t.second < 60

/-! ## Reading -/

/-- The number that characters write, below zero or not. -/
def wholeOf? (cs : List Char) : Option Int := do
  let (negative, ds) := signOf (plainNumeral cs)
  let n ← digitsIn? 10 (← withoutGroupMarks ds)
  return if negative then -(n : Int) else n

/-- The number that the characters from one place to another write. -/
def numberAt? (cs : List Char) (start stop : Nat) : Option Nat := do
  let n ← wholeOf? ((cs.take stop).drop start)
  if n < 0 then none else some n.toNat

/-- The day that the first characters write, if there is such a day. -/
def dayAt? (cs : List Char) : Option Day := do
  let d : Day := ⟨← numberAt? cs 0 4, ← numberAt? cs 5 7, ← numberAt? cs 8 10⟩
  if d.exists then some d else none

/-- The time of day that the characters from a place on write, if there is such a time. -/
def clockAt? (start : Nat) (cs : List Char) : Option Clock := do
  let cs := cs.drop start
  let t : Clock := ⟨← numberAt? cs 0 2, ← numberAt? cs 3 5, ← numberAt? cs 6 8, 0⟩
  if t.exists then some t else none

/-- The minutes that an offset from universal time writes. -/
def offset? (cs : List Char) : Option Int :=
  if cs = ['Z'] then some 0
  else do
    let hours ← wholeOf? ((cs.take 3).drop 1)
    let minutes ← wholeOf? ((cs.take 6).drop 4)
    let total := 60 * hours + minutes
    return if cs.head? = some '-' then -total else total

/-- The millionths that the digits of a fraction write. -/
def millionthsOf? (ds : List Char) : Option Nat := do
  let n ← wholeOf? ds
  return n.toNat * Nat.pow 10 (6 - ds.length) / Nat.pow 10 (ds.length - 6)

/-- The fraction of a second and the offset that follow a time; without either if one is wrongly
written. -/
def fractionAndOffset (cs : List Char) : Nat × Option Int :=
  match cs with
  | [] => (0, none)
  | '.' :: rest =>
    let zone := rest.dropWhile (· != (if rest.contains '+' then '+' else '-'))
    let (digits, zone) :=
      if cs.getLast? = some 'Z' ∨ cs.getLast? = some 'z' then (rest.dropLast, ['Z'])
      else (rest.take (rest.length - zone.length), zone)
    match zone, offset? zone, millionthsOf? digits with
    | [], _, some n => (n, none)
    | _, some ahead, some n => (n, some ahead)
    | _, _, _ => (0, none)
  | _ => (0, offset? cs)

/-- A day. -/
def readDay (cs : List Char) : Option Day :=
  if (cs.drop 1).contains '-' && cs.length == 10 then dayAt? cs else none

/-- A time on a day. -/
def readMoment (cs : List Char) : Option Moment := do
  if !(cs.drop 1).contains '-' || cs.length == 10 then none
  else
    let day ← dayAt? cs
    let clock ← clockAt? 11 cs
    let (millionths, ahead) := fractionAndOffset (cs.drop 19)
    return ⟨day, { clock with millionths := millionths }, ahead⟩

/-- Whether characters write a day, with or without a time of day. -/
def isDate (cs : List Char) : Bool := (readDay cs).isSome || (readMoment cs).isSome

/-- Whether characters begin with a time of day. -/
def isTime (cs : List Char) : Bool :=
  match cs with
  | a :: b :: ':' :: c :: d :: ':' :: e :: f :: _ => [a, b, c, d, e, f].all Char.isDigit
  | _ => false

/-- A time of day.  At most six digits of a fraction, and at least three, count as millionths. -/
def readClock (cs : List Char) : Option Clock := do
  let t ← clockAt? 0 cs
  let fraction :=
    match cs.drop 8 with
    | '.' :: rest => (rest.takeWhile Char.isDigit).take 6
    | _ => []
  return { t with millionths := if fraction.length < 3 then 0 else (digitsIn? 10 fraction).getD 0 }

end BundleReach.Toml
