import BundleReach.Table
import BundleReach.Numeral.Double

/-!
# JSON values

Values as manifests hold them.  The members of an object keep the order in which their names were
first written; a whole number is told apart from one written with a fraction or an exponent.
-/

namespace BundleReach

open Numeral (Double)

/-- A JSON value. -/
inductive Json where
  | null
  | bool (b : Bool)
  | int (i : Int)
  | float (d : Double)
  | text (s : String)
  | list (items : List Json)
  | object (members : List (String × Json))
  deriving Inhabited, Repr

namespace Json

def text? : Json → Option String
  | text s => some s
  | _ => none

/-- Whether a value counts as something: null, false, zero and what is empty do not. -/
def isPresent : Json → Bool
  | null => false
  | bool b => b
  | int i => i != 0
  | float d => !d.isInt 0
  | text s => !s.isEmpty
  | list items => !items.isEmpty
  | object ms => !ms.isEmpty

/-- Whether a value is the number `i`, true and false counting as one and zero. -/
def isInt (i : Int) : Json → Bool
  | bool b => (if b then 1 else 0) == i
  | int k => k == i
  | float d => d.isInt i
  | _ => false

/-- Whether two values are equal as values: numbers by what they stand for, objects without regard
to order. -/
def same : Json → Json → Bool
  | null, null => true
  | text a, text b => a == b
  | bool a, j => j.isInt (if a then 1 else 0)
  | int i, j => j.isInt i
  | float d, float e => d.same e
  | float d, int i => d.isInt i
  | float d, bool b => d.isInt (if b then 1 else 0)
  | list as, list bs => sameItems as bs
  | object as, object bs => as.length == bs.length && sameMembers as bs
  | _, _ => false
where
  sameItems : List Json → List Json → Bool
    | [], [] => true
    | a :: as, b :: bs => same a b && sameItems as bs
    | _, _ => false
  sameMembers : List (String × Json) → List (String × Json) → Bool
    | [], _ => true
    | m :: rest, bs =>
      (match Table.find? m.1 bs with
        | some b => same m.2 b
        | none => false) && sameMembers rest bs

end Json

end BundleReach
