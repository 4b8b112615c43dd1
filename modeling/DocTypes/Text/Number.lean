/-
  Numbers in decimal ASCII digits.
-/
import DocTypes.Text.Basic

namespace DocTypes.Text

/-- The number that the digits denote. -/
def decimalValue (ds : Text) : Nat := ds.foldl (fun n d => 10 * n + (d.toNat - '0'.toNat)) 0

/-- The number that one or more ASCII digits denote. -/
def decimal? (ds : Text) : Option Nat :=
  if !ds.isEmpty && ds.all Char.isDigit then some (decimalValue ds) else none

/-- The number below `2^64` that one or more ASCII digits denote. -/
def natural64? (ds : Text) : Option Nat := (decimal? ds).filter (· < UInt64.size)

end DocTypes.Text
