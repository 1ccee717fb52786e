/-
# StagedRollout.Json.Outline -- a text as far as it can be read

Texts are read from left to right, and the first thing that is wrong decides what is reported:
a field of the wrong kind wins over a missing bracket behind it, and loses against one before
it. To keep that order while the reading of the text and the reading of its meaning stay
apart, a text is first turned into an **outline**: the tree of its values up to the place
where the text itself goes wrong. What is wrong stands in the tree at its place, as the end of
an item list, of a member list, or of a value. A typed reader then walks the outline from left
to right and reports the first thing that it meets, be it a fault or a value that it does not
want.

A value that nobody reads is only skipped. Skipping looks at the shape of the text alone: it
passes over numbers out of range and badly paired surrogates, and it calls every incomplete
number malformed.
-/
import StagedRollout.Json.Numeral

namespace StagedRollout

mutual

/-- A JSON value as far as its text can be read. -/
inductive Outline
  | null
  | bool (value : Bool)
  | number (numeral : Numeral)
  /-- A string literal that is complete, with its content if that can be decoded. -/
  | text (content : Except Fault String)
  | array (items : Items)
  | object (members : Members)
  /-- The text ends where a value should start. -/
  | missing
  /-- A string literal that goes wrong: why for a reader, and why for one who skips. -/
  | brokenText (reading skipping : Fault)
  /-- Any other value that goes wrong, or something that starts no value. -/
  | broken (reading skipping : Fault)

/-- The items of an array up to its bracket, or to where the text goes wrong. -/
inductive Items
  | closed
  /-- The text ends, with or without a comma behind the last item. -/
  | cut (afterComma : Bool)
  | malformed
  | item (head : Outline) (tail : Items)

/-- The members of an object up to its brace, or to where the text goes wrong. -/
inductive Members
  | closed
  /-- The text ends, with or without a comma behind the last member. -/
  | cut (afterComma : Bool)
  | malformed
  | member (key : Except Fault String) (value : Outline) (tail : Members)

end

instance : Inhabited Outline := ⟨.null⟩
instance : Inhabited Items := ⟨.closed⟩
instance : Inhabited Members := ⟨.closed⟩

/-! ## Skipping -/

mutual

/-- The fault that a value is reported for when it is skipped, if any. -/
def Outline.skip : Outline → Except Fault Unit
  | .array items => items.skip
  | .object members => members.skip
  | .missing => .error .cut
  | .brokenText _ skipping => .error skipping
  | .broken _ skipping => .error skipping
  | _ => .ok ()

/-- Skips the items of an array. -/
def Items.skip : Items → Except Fault Unit
  | .closed => .ok ()
  | .cut _ => .error .cut
  | .malformed => .error .malformed
  | .item head tail => do
    head.skip
    tail.skip

/-- Skips the members of an object. -/
def Members.skip : Members → Except Fault Unit
  | .closed => .ok ()
  | .cut _ => .error .cut
  | .malformed => .error .malformed
  | .member _ value tail => do
    value.skip
    tail.skip

end

/-! ## Reading whole values -/

mutual

/-- Reads a value of any kind. Up to `room` arrays and objects may be open at once inside it. -/
def Outline.read (room : Nat) : Outline → Except Fault Json
  | .null => .ok .null
  | .bool value => .ok (.bool value)
  | .number numeral =>
    match numeral.value? with
    | some json => .ok json
    | none => .error .malformed
  | .text content => .text <$> content
  | .array items =>
    match room with
    | 0 => .error .malformed
    | room + 1 => .array <$> items.read room
  | .object members =>
    match room with
    | 0 => .error .malformed
    | room + 1 => (fun ms => .object (sortMembers ms)) <$> members.read room
  | .missing => .error .cut
  | .brokenText reading _ => .error reading
  | .broken reading _ => .error reading

/-- Reads all items of an array. -/
def Items.read (room : Nat) : Items → Except Fault (List Json)
  | .closed => .ok []
  | .cut _ => .error .cut
  | .malformed => .error .malformed
  | .item head tail => do
    let head ← head.read room
    let tail ← tail.read room
    return head :: tail

/-- Reads all members of an object, in the order of the text. -/
def Members.read (room : Nat) : Members → Except Fault (List (String × Json))
  | .closed => .ok []
  | .cut _ => .error .cut
  | .malformed => .error .malformed
  | .member key value tail => do
    let key ← key
    let value ← value.read room
    let tail ← tail.read room
    return (key, value) :: tail

end

end StagedRollout
