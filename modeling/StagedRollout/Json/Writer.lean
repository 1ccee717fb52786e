/-
# StagedRollout.Json.Writer -- from value to text

Values are written in one of two layouts, which differ in the blanks between the parts alone.
The **compact** layout has none. The **indented** layout puts every item and member on a line
of its own, two spaces deeper than the bracket around it, and a space behind every colon; an
empty array or object stays closed up in both.
-/
import StagedRollout.Number.Notation
import StagedRollout.Json.Value
import StagedRollout.Json.Quote

namespace StagedRollout

/-- The blanks of a layout: before an item that stands at a depth, and behind a colon. -/
structure Layout where
  lineBreak : (depth : Nat) → List Char
  afterColon : List Char

namespace Layout

/-- No blanks at all. -/
def compact : Layout := ⟨fun _ => [], []⟩

/-- One item a line, two spaces deeper than its bracket. -/
def indented : Layout := ⟨fun depth => '\n' :: List.replicate (2 * depth) ' ', [' ']⟩

end Layout

/-- The text of an integer. -/
def intChars (i : Int) : List Char :=
  if i < 0 then '-' :: digitsOf i.natAbs else digitsOf i.natAbs

/-- The text of a float. What is not finite has no text of its own and is written as null. -/
def floatChars (x : Binary64) : List Char :=
  if x.isFinite then NumberNotation.stored.chars x else ['n', 'u', 'l', 'l']

mutual

/-- The text of a value that starts at a depth. -/
def Json.chars (layout : Layout) (depth : Nat) : Json → List Char
  | .null => ['n', 'u', 'l', 'l']
  | .bool true => ['t', 'r', 'u', 'e']
  | .bool false => ['f', 'a', 'l', 's', 'e']
  | .int i => intChars i
  | .float x => floatChars x
  | .text content => quoteChars content
  | .array [] => ['[', ']']
  | .array (item :: rest) =>
    '[' :: (layout.lineBreak (depth + 1) ++ item.chars layout (depth + 1)
      ++ moreItemsChars layout depth rest)
  | .object [] => ['\x7b', '\x7d']
  | .object ((key, value) :: rest) =>
    '\x7b' :: (layout.lineBreak (depth + 1) ++ quoteChars key ++ ':' :: layout.afterColon
      ++ value.chars layout (depth + 1) ++ moreMembersChars layout depth rest)

/-- The items behind the first one, and the bracket. -/
def moreItemsChars (layout : Layout) (depth : Nat) : List Json → List Char
  | [] => layout.lineBreak depth ++ [']']
  | item :: rest =>
    ',' :: (layout.lineBreak (depth + 1) ++ item.chars layout (depth + 1)
      ++ moreItemsChars layout depth rest)

/-- The members behind the first one, and the brace. -/
def moreMembersChars (layout : Layout) (depth : Nat) : List (String × Json) → List Char
  | [] => layout.lineBreak depth ++ ['\x7d']
  | (key, value) :: rest =>
    ',' :: (layout.lineBreak (depth + 1) ++ quoteChars key ++ ':' :: layout.afterColon
      ++ value.chars layout (depth + 1) ++ moreMembersChars layout depth rest)

end

/-- The text of a value in the compact layout. -/
def Json.compact (json : Json) : String := String.ofList (json.chars .compact 0)

/-- The text of a value in the indented layout. -/
def Json.indented (json : Json) : String := String.ofList (json.chars .indented 0)

end StagedRollout
