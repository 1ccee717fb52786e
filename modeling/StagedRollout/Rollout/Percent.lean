/-
# StagedRollout.Rollout.Percent -- shares of clients

People speak of a rollout's share as a whole percentage from 0 to 100; the mapping stores it
as a fraction from 0 to 1. A percentage becomes the double nearest to its hundredth part, and
a stored fraction is shown as the whole percentage nearest to a hundred times itself, a half
going up.
-/
import StagedRollout.Mapping.Error
import StagedRollout.Number.FreeText
import StagedRollout.Text.Blank

namespace StagedRollout

/-- A whole percentage. -/
structure Percent where
  value : Nat
  value_le : value ≤ 100
deriving DecidableEq

namespace Percent

/-- No clients. -/
def zero : Percent := ⟨0, by decide⟩

/-- Every client. -/
def full : Percent := ⟨100, by decide⟩

instance : Inhabited Percent := ⟨zero⟩

instance : LE Percent := ⟨fun p q => p.value ≤ q.value⟩

/-- The percentage of an integer from 0 to 100. -/
def ofInt? (i : Int) : Option Percent :=
  if h : 0 ≤ i ∧ i ≤ 100 then some ⟨i.toNat, by omega⟩ else none

/-- The percentage of an integer. -/
def ofInt (i : Int) : Except RolloutError Percent :=
  match ofInt? i with
  | some p => .ok p
  | none => .error (.invalidPercent (.int i))

/-- The percentage of a number that is a whole one from 0 to 100. Negative zero is one. -/
def ofNumber (x : Binary64) : Except RolloutError Percent :=
  match x.toInt? >>= ofInt? with
  | some p => .ok p
  | none => .error (.invalidPercent (.number x))

/-- The percentage that a text spells, blanks around it aside. The numeral may have any form,
as long as the double that it stands for is a whole one. -/
def ofText (content : String) : Except RolloutError Percent :=
  match Binary64.ofText? (trim content.toList) with
  | some x => ofNumber x
  | none => .error (.invalidPercent (.text content))

/-- The fraction that is stored for a percentage. -/
def fraction (p : Percent) : Binary64 := Binary64.hundredths p.value

/-- The percentage nearest to a hundred times a stored fraction. What is reported is the
product before it is rounded. -/
def ofFraction (x : Binary64) : Except RolloutError Percent :=
  match x.hundredfold.nearestInt? >>= ofInt? with
  | some p => .ok p
  | none => .error (.invalidPercent (.number x.hundredfold))

/-- A percentage with its sign. -/
def message (p : Percent) : String := String.ofList (digitsOf p.value) ++ "%"

/-- The JSON form of a percentage. -/
def toJson (p : Percent) : Json := .int p.value

end Percent

end StagedRollout
