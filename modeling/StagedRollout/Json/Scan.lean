/-
# StagedRollout.Json.Scan -- from text to outline

`scan` reads the value at the front of a text and yields its outline and what follows it. The
descent is counted down by fuel; `Outline.ofText` supplies twice the length of the text, two
steps for each bracket, so that the fuel is never what ends it.
-/
import StagedRollout.Json.Outline

namespace StagedRollout

/-- The blanks between the parts of a JSON text. -/
def isSpacing (c : Char) : Bool := c = ' ' || c = '\t' || c = '\n' || c = '\r'

/-- A text without the blanks in front of it. -/
def skipSpacing (text : List Char) : List Char := text.dropWhile isSpacing

/-- What follows a fixed word at the front of a text. -/
def takeWord : (word text : List Char) → Except Fault (List Char)
  | [], text => .ok text
  | _ :: _, [] => .error .cut
  | w :: word, c :: text => if w = c then takeWord word text else .error .malformed

/-- The outline of a value that is spelled as a fixed word. -/
def scanWord (word : List Char) (value : Outline) (text : List Char) : Outline × List Char :=
  match takeWord word text with
  | .ok rest => (value, rest)
  | .error fault => (.broken fault fault, [])

/-- The outline of a number. -/
def scanNumberOutline (text : List Char) : Outline × List Char :=
  match scanNumber text with
  | .ok (numeral, rest) => (.number numeral, rest)
  | .error fault => (.broken fault .malformed, [])

/-- The content of a literal as a string. -/
def Literal.string (literal : Literal) : Except Fault String := String.ofList <$> literal.content

/-- The outline of a string, from behind its opening quote. -/
def scanText (text : List Char) : Outline × List Char :=
  let literal := Literal.scan text
  match literal.rest with
  | .ok rest => (.text literal.string, rest)
  | .error skipping =>
    match literal.content with
    | .ok _ => (.brokenText skipping skipping, [])
    | .error reading => (.brokenText reading skipping, [])

mutual

/-- The value at the front of a text, and what follows it. -/
def scanValue : (fuel : Nat) → (text : List Char) → Outline × List Char
  | 0, _ => (.broken .malformed .malformed, [])
  | fuel + 1, text =>
    match skipSpacing text with
    | [] => (.missing, [])
    | 'n' :: rest => scanWord ['u', 'l', 'l'] .null rest
    | 't' :: rest => scanWord ['r', 'u', 'e'] (.bool true) rest
    | 'f' :: rest => scanWord ['a', 'l', 's', 'e'] (.bool false) rest
    | '"' :: rest => scanText rest
    | '[' :: rest =>
      match skipSpacing rest with
      | [] => (.array (.cut false), [])
      | ']' :: rest => (.array .closed, rest)
      | rest =>
        let (items, rest) := scanItems fuel rest
        (.array items, rest)
    | '\x7b' :: rest =>
      match skipSpacing rest with
      | [] => (.object (.cut false), [])
      | '\x7d' :: rest => (.object .closed, rest)
      | '"' :: rest =>
        let (members, rest) := scanMembers fuel rest
        (.object members, rest)
      | _ => (.object .malformed, [])
    | c :: rest =>
      if c = '-' ∨ c.isDigit then scanNumberOutline (c :: rest)
      else (.broken .malformed .malformed, [])

/-- The items of an array from the front of an item on. -/
def scanItems : (fuel : Nat) → (text : List Char) → Items × List Char
  | 0, _ => (.malformed, [])
  | fuel + 1, text =>
    let (head, rest) := scanValue fuel text
    match skipSpacing rest with
    | [] => (.item head (.cut false), [])
    | ']' :: rest => (.item head .closed, rest)
    | ',' :: rest =>
      match skipSpacing rest with
      | [] => (.item head (.cut true), [])
      | ']' :: _ => (.item head .malformed, [])
      | rest =>
        let (tail, rest) := scanItems fuel rest
        (.item head tail, rest)
    | _ => (.item head .malformed, [])

/-- The members of an object from behind the opening quote of a key on. -/
def scanMembers : (fuel : Nat) → (text : List Char) → Members × List Char
  | 0, _ => (.malformed, [])
  | fuel + 1, text =>
    let literal := Literal.scan text
    let key := literal.string
    match literal.rest with
    | .error fault => (.member key (.broken fault fault) .malformed, [])
    | .ok rest =>
      match skipSpacing rest with
      | [] => (.member key .missing .malformed, [])
      | ':' :: rest =>
        let (value, rest) := scanValue fuel rest
        match skipSpacing rest with
        | [] => (.member key value (.cut false), [])
        | '\x7d' :: rest => (.member key value .closed, rest)
        | ',' :: rest =>
          match skipSpacing rest with
          | [] => (.member key value (.cut true), [])
          | '"' :: rest =>
            let (tail, rest) := scanMembers fuel rest
            (.member key value tail, rest)
          | _ => (.member key value .malformed, [])
        | _ => (.member key value .malformed, [])
      | _ => (.member key (.broken .malformed .malformed) .malformed, [])

end

/-- The value at the front of a whole text, and what follows it. -/
def Outline.ofText (text : List Char) : Outline × List Char := scanValue (2 * text.length + 1) text

end StagedRollout
