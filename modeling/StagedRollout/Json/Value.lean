/-
# StagedRollout.Json.Value -- JSON values

The values that the program keeps or writes. An integer and a float are different values even
when they are equal as numbers, since their texts differ (`1` and `1.0`). The members of an
object are a list of pairs; `insertMember` keeps such a list in ascending order of the keys
with one pair a key, and `Json.sorted` puts the objects of a whole value in that order.
-/
import StagedRollout.Number.Binary64

namespace StagedRollout

/-- A JSON value. -/
inductive Json
  | null
  | bool (value : Bool)
  | int (value : Int)
  | float (value : Binary64)
  | text (value : String)
  | array (items : List Json)
  | object (members : List (String × Json))
deriving Inhabited

/-- Sets the member of a key in an ascending list of members. -/
def insertMember (key : String) (value : Json) : List (String × Json) → List (String × Json)
  | [] => [(key, value)]
  | (k, v) :: rest =>
    if key < k then (key, value) :: (k, v) :: rest
    else if key = k then (key, value) :: rest
    else (k, v) :: insertMember key value rest

/-- Members in ascending order of their keys; of several members with one key the last stands. -/
def sortMembers (members : List (String × Json)) : List (String × Json) :=
  members.foldl (fun sorted (key, value) => insertMember key value sorted) []

/-! ## Sorting a whole value -/

mutual

/-- Every object inside, at any depth, with its members in ascending order. -/
def Json.sorted : Json → Json
  | .array items => .array (sortedItems items)
  | .object members => .object (sortMembers (sortedValues members))
  | json => json

/-- The items of an array, each sorted. -/
def sortedItems : List Json → List Json
  | [] => []
  | item :: rest => item.sorted :: sortedItems rest

/-- The members of an object in their own order, the value of each sorted. -/
def sortedValues : List (String × Json) → List (String × Json)
  | [] => []
  | (key, value) :: rest => (key, value.sorted) :: sortedValues rest

end

end StagedRollout
