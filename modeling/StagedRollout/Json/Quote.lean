/-
# StagedRollout.Json.Quote -- string literals

A string is written between double quotes. Only the quote, the backslash and the characters
below the space are escaped, five of the latter by a letter and the others by their number.

Reading goes in two steps. `Literal.scan` cuts the text into characters and numbered code
units up to the closing quote. `Literal.content` then joins surrogate pairs, and refuses a
surrogate that stands alone; `Literal.rest` only asks what follows the closing quote, so a
badly paired surrogate does not stop it. Both tell a text that ends too early (`Fault.cut`)
from one that no ending can mend (`Fault.malformed`).

`Literal.scan_quote`, `scan_letter`, `scan_unit` and `scan_plain` say which piece the scanner cuts
off, one lemma for each form that a piece can have.
-/

namespace StagedRollout

/-- Why a text cannot be read: it ends too early, or it went wrong before its end. -/
inductive Fault
  | cut
  | malformed
deriving DecidableEq, Inhabited

/-! ## Writing -/

/-- How one character stands inside a string literal. -/
def escapeChar (c : Char) : List Char :=
  if c = '"' then ['\\', '"']
  else if c = '\\' then ['\\', '\\']
  else if c = '\x08' then ['\\', 'b']
  else if c = '\x0c' then ['\\', 'f']
  else if c = '\n' then ['\\', 'n']
  else if c = '\r' then ['\\', 'r']
  else if c = '\t' then ['\\', 't']
  else if c < ' ' then
    ['\\', 'u', '0', '0', Nat.digitChar (c.toNat / 16), Nat.digitChar (c.toNat % 16)]
  else [c]

/-- The inside of a string literal, up to its closing quote. -/
def escaped (content : List Char) : List Char := content.flatMap escapeChar

/-- A string literal. -/
def quoteChars (content : String) : List Char := '"' :: (escaped content.toList ++ ['"'])

/-! ## Escapes -/

/-- The character that a one-letter escape stands for. -/
def letterEscape? (letter : Char) : Option Char :=
  match letter with
  | '"' => some '"'
  | '\\' => some '\\'
  | '/' => some '/'
  | 'b' => some '\x08'
  | 'f' => some '\x0c'
  | 'n' => some '\n'
  | 'r' => some '\r'
  | 't' => some '\t'
  | _ => none

/-- The value of a hexadecimal digit. -/
def hexValue? (c : Char) : Option Nat :=
  if '0' ≤ c ∧ c ≤ '9' then some (c.toNat - '0'.toNat)
  else if 'a' ≤ c ∧ c ≤ 'f' then some (c.toNat - 'a'.toNat + 10)
  else if 'A' ≤ c ∧ c ≤ 'F' then some (c.toNat - 'A'.toNat + 10)
  else none

/-- The code unit that four hexadecimal digits spell. -/
def codeUnit? (a b c d : Char) : Option Nat := do
  let a ← hexValue? a
  let b ← hexValue? b
  let c ← hexValue? c
  let d ← hexValue? d
  return ((a * 16 + b) * 16 + c) * 16 + d

/-- The digits that are written for a control spell its number. -/
theorem codeUnit?_control : ∀ n, n < 32 →
    codeUnit? '0' '0' (Nat.digitChar (n / 16)) (Nat.digitChar (n % 16)) = some n := by decide

/-- What is wrong with a numbered escape that has no four hexadecimal digits: the text is cut
when fewer than four bytes are left, whatever they are. -/
def shortEscape (rest : List Char) : Fault :=
  if (String.ofList rest).utf8ByteSize < 4 then .cut else .malformed

/-- The first unit of a surrogate pair. -/
def isLeadSurrogate (unit : Nat) : Bool := 0xd800 ≤ unit && unit ≤ 0xdbff

/-- The second unit of a surrogate pair. -/
def isTrailSurrogate (unit : Nat) : Bool := 0xdc00 ≤ unit && unit ≤ 0xdfff

/-- The character of a surrogate pair. -/
def pairedChar (lead trail : Nat) : Char :=
  Char.ofNat (0x10000 + (lead - 0xd800) * 0x400 + (trail - 0xdc00))

/-! ## Reading -/

/-- A string literal behind its opening quote, cut into pieces. -/
inductive Literal
  /-- The closing quote, and what follows it. -/
  | closed (rest : List Char)
  /-- The text cannot be read on. -/
  | broken (fault : Fault)
  /-- A character, itself or by a one-letter escape. -/
  | char (c : Char) (tail : Literal)
  /-- A code unit, by a numbered escape. -/
  | unit (value : Nat) (tail : Literal)
deriving Inhabited

namespace Literal

/-- Cuts a text into pieces. -/
def scan : List Char → Literal
  | [] => .broken .cut
  | c :: rest =>
    if c = '"' then .closed rest
    else if c = '\\' then
      match rest with
      | [] => .broken .cut
      | letter :: rest =>
        if letter = 'u' then
          match rest with
          | a :: b :: c :: d :: rest =>
            match codeUnit? a b c d with
            | some value => .unit value (scan rest)
            | none => .broken .malformed
          | short => .broken (shortEscape short)
        else
          match letterEscape? letter with
          | some c => .char c (scan rest)
          | none => .broken .malformed
    else if c < ' ' then .broken .malformed
    else .char c (scan rest)

/-- What follows the closing quote. -/
def rest : Literal → Except Fault (List Char)
  | .closed rest => .ok rest
  | .broken fault => .error fault
  | .char _ tail => tail.rest
  | .unit _ tail => tail.rest

/-- The characters of the literal, surrogate pairs joined. -/
def content : Literal → Except Fault (List Char)
  | .closed _ => .ok []
  | .broken fault => .error fault
  | .char c tail => (c :: ·) <$> tail.content
  | .unit value tail =>
    if isTrailSurrogate value then .error .malformed
    else if isLeadSurrogate value then
      match tail with
      | .unit trail tail =>
        if isTrailSurrogate trail then (pairedChar value trail :: ·) <$> tail.content
        else .error .malformed
      | .broken fault => .error fault
      | _ => .error .malformed
    else (Char.ofNat value :: ·) <$> tail.content

end Literal

/-! ## The pieces that are cut off -/

namespace Literal

/-- The closing quote ends a literal. -/
theorem scan_quote (text : List Char) : scan ('"' :: text) = .closed text := by
  simp [scan.eq_def ('"' :: text)]

/-- A one-letter escape is one character. -/
theorem scan_letter {letter c : Char} (text : List Char) (h : letterEscape? letter = some c) :
    scan ('\\' :: letter :: text) = .char c (scan text) := by
  have : letter ≠ 'u' := by rintro rfl; simp [letterEscape?] at h
  simp [scan.eq_def ('\\' :: letter :: text), h, this]

/-- A numbered escape is one code unit. -/
theorem scan_unit {a b c d : Char} {unit : Nat} (text : List Char)
    (h : codeUnit? a b c d = some unit) :
    scan ('\\' :: 'u' :: a :: b :: c :: d :: text) = .unit unit (scan text) := by
  simp [scan.eq_def ('\\' :: _), h]

/-- A character that needs no escape stands for itself. -/
theorem scan_plain {c : Char} (text : List Char) (quote : c ≠ '"') (slash : c ≠ '\\')
    (low : ¬c < ' ') : scan (c :: text) = .char c (scan text) := by
  simp [scan.eq_def (c :: text), quote, slash, low]

end Literal

end StagedRollout
