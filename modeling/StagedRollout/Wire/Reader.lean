/-
# StagedRollout.Wire.Reader -- reading records from outlines

The pieces that every typed reader is made of. Each walks an outline from left to right and
stops at the first thing that is wrong, whether the text goes wrong there or holds something
that is not wanted. A value of an unwanted kind is reported by what it is: a scalar has to be
read for that, so a fault inside it comes first, while an array or an object is named without
a look inside.

`room` is how many arrays and objects may still be opened. A text may have 127 of them open
at once; whoever opens one more finds the text malformed at its bracket.
-/
import StagedRollout.Wire.ReadError
import StagedRollout.Json.Scan

namespace StagedRollout

/-- How many arrays and objects of a text may be open at once. -/
def nestingLimit : Nat := 127

/-- The outcome of reading. -/
abbrev ReadResult (α : Type) := Except ReadError α

namespace ReadResult

/-- A fault of the text. -/
def fault (f : Fault) : ReadResult α := .error (.fault f)

/-- Something that is not admitted. -/
def mismatch (m : Mismatch) : ReadResult α := .error (.mismatch m)

/-- The outcome of a piece of text, where only faults can happen. -/
def ofText : Except Fault α → ReadResult α
  | .ok a => .ok a
  | .error f => .error (.fault f)

end ReadResult

/-! ## Values -/

/-- What a value is, as far as a message needs to know. -/
def Outline.found : Outline → ReadResult Found
  | .null => .ok .null
  | .bool value => .ok (.bool value)
  | .number numeral =>
    match numeral.value? with
    | some (.int i) => .ok (.int i)
    | some (.float x) => .ok (.float x)
    | _ => .fault .malformed
  | .text content => Found.text <$> ReadResult.ofText content
  | .array _ => .ok .sequence
  | .object _ => .ok .map
  | .missing => .fault .cut
  | .brokenText reading _ => .fault reading
  | .broken reading _ => .fault reading

/-- Reports a value of an unwanted kind. -/
def Outline.refuse (expected : String) (outline : Outline) : ReadResult α := do
  let found ← outline.found
  .mismatch (.wrongType found expected)

/-- Reads a string. -/
def readText : Outline → ReadResult String
  | .text content => ReadResult.ofText content
  | outline => outline.refuse "a string"

/-- Reads a null. -/
def readUnit : Outline → ReadResult Unit
  | .null => .ok ()
  | outline => outline.refuse "unit"

/-- The unsigned 32-bit integer that an integer is. -/
def toWord? (i : Int) : Option UInt32 :=
  if 0 ≤ i ∧ i < UInt32.size then some (UInt32.ofNat i.toNat) else none

/-- Reads an unsigned 32-bit integer. -/
def readWord (outline : Outline) : ReadResult UInt32 := do
  match ← outline.found with
  | .int i =>
    match toWord? i with
    | some word => return word
    | none => .mismatch (.wrongValue (.int i) "u32")
  | found => .mismatch (.wrongType found "u32")

/-! ## Arrays and objects -/

/-- Opens an array or object if there is room, and reads on with the room that is left. -/
def opening (room : Nat) (inside : Nat → ReadResult α) : ReadResult α :=
  match room with
  | 0 => .fault .malformed
  | room + 1 => inside room

/-- Reads every item of an array. -/
def Items.readAll (read : Outline → ReadResult α) : Items → ReadResult (List α)
  | .closed => .ok []
  | .cut _ => .fault .cut
  | .malformed => .fault .malformed
  | .item head tail => do
    let head ← read head
    let tail ← tail.readAll read
    return head :: tail

/-- Reads a list written as an array. -/
def readList (read : Nat → Outline → ReadResult α) (room : Nat) : Outline → ReadResult (List α)
  | .array items => opening room fun room => items.readAll (read room)
  | outline => outline.refuse "a sequence"

/-- Reads the next item of an array that has to hold a fixed number of them; `count` have been
read so far. -/
def Items.next (items : Items) (count : Nat) (expected : String) (read : Outline → ReadResult α) :
    ReadResult (α × Items) :=
  match items with
  | .closed => .mismatch (.wrongLength count expected)
  | .cut _ => .fault .cut
  | .malformed => .fault .malformed
  | .item head tail => do
    let head ← read head
    return (head, tail)

/-- Nothing may follow the last item of such an array: a comma is already wrong, even when the
text ends behind it. -/
def Items.finish : Items → ReadResult Unit
  | .closed => .ok ()
  | .cut false => .fault .cut
  | _ => .fault .malformed

/-- Nothing may follow the only member of an object that has to hold one. -/
def Members.finish : Members → ReadResult Unit
  | .closed => .ok ()
  | .cut false => .fault .cut
  | _ => .fault .malformed

/-- Walks the members of an object from left to right, with what has been gathered so far. -/
def Members.gather (take : σ → String → Outline → ReadResult σ) (state : σ) :
    Members → ReadResult σ
  | .closed => .ok state
  | .cut _ => .fault .cut
  | .malformed => .fault .malformed
  | .member key value tail => do
    let key ← ReadResult.ofText key
    let state ← take state key value
    tail.gather take state

/-- Passes over the value of a member that nobody asks for. -/
def skipMember (state : σ) (value : Outline) : ReadResult σ := do
  ReadResult.ofText value.skip
  return state

/-- Reads a field for the first time; a second time is an error before its value is looked at. -/
def readOnce (name : String) (slot : Option β) (read : Unit → ReadResult β) :
    ReadResult (Option β) :=
  match slot with
  | some _ => .mismatch (.duplicateField name)
  | none => some <$> read ()

/-- The value of a field that must not be missing. -/
def required (name : String) : Option β → ReadResult β
  | some value => .ok value
  | none => .mismatch (.missingField name)

/-! ## Whole texts -/

/-- Reads a text that holds one record and nothing else but blanks. -/
def readWhole (read : Nat → Outline → ReadResult α) (text : String) : ReadResult α := do
  let (outline, rest) := Outline.ofText text.toList
  let record ← read nestingLimit outline
  if skipSpacing rest = [] then return record else .fault .malformed

end StagedRollout
