/-!
# Whole numbers in documents

Where a document calls for a whole number, a truth value stands for one or zero and is still written
as what it is.
-/

namespace BundleReach.Numeral

/-- A whole number as a document gives it. -/
inductive Whole where
  | number (n : Int)
  | flag (b : Bool)
  deriving DecidableEq, Repr

/-- The number that is meant. -/
def Whole.value : Whole → Int
  | number n => n
  | flag b => if b then 1 else 0

end BundleReach.Numeral
