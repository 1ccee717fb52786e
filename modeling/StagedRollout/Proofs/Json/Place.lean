/-
# StagedRollout.Proofs.Json.Place -- a place inside a value

A `Frame` is an array or an object with one of its parts taken out, and a `Place` is a series of
frames, the outermost first. Whatever stands at a place, the text around it is the same
(`chars_fill`): the text of the whole is what a place has in front, the text of the part, and what
the place has behind. So two values that differ at one place have texts that differ there alone.
-/
import StagedRollout.Proofs.Json.Written

namespace StagedRollout

/-! ## Places -/

/-- The way from a value to one of its parts. -/
inductive Selector
  | index (position : Nat)
  | key (name : String)
deriving DecidableEq

/-- An array or an object with one of its parts taken out. -/
inductive Frame
  | item (front behind : List Json)
  | member (front : List (String × Json)) (key : String) (behind : List (String × Json))

namespace Frame

/-- The array or the object with a part put in. -/
def fill : Frame → Json → Json
  | .item front behind, json => .array (front ++ json :: behind)
  | .member front key behind, json => .object (front ++ (key, json) :: behind)

/-- How the part is selected. -/
def selector : Frame → Selector
  | .item front _ => .index front.length
  | .member _ key _ => .key key

end Frame

/-- A place inside a value: what is around it, the outermost first. -/
abbrev Place := List Frame

namespace Place

/-- The whole value, with a part put in at the place. -/
def fill : Place → Json → Json
  | [], json => json
  | frame :: inner, json => frame.fill (fill inner json)

/-- The way to the place. -/
def path (place : Place) : List Selector := place.map Frame.selector

theorem fill_append (outer inner : Place) (json : Json) :
    fill (outer ++ inner) json = fill outer (fill inner json) := by
  induction outer with
  | nil => rfl
  | cons frame outer ih =>
    rw [List.cons_append, fill, fill, ih]

theorem path_append (outer inner : Place) : path (outer ++ inner) = outer.path ++ inner.path :=
  List.map_append

end Place

/-! ## Texts -/

section Texts

variable (layout : Layout) (depth : Nat)

/-- An item with the blanks in front of it. -/
def itemChars (item : Json) : List Char :=
  layout.lineBreak (depth + 1) ++ item.chars layout (depth + 1)

/-- A key with the blanks around it and the colon, up to its value. -/
def keyChars (key : String) : List Char :=
  layout.lineBreak (depth + 1) ++ quoteChars key ++ ':' :: layout.afterColon

/-- A member with the blanks in front of it. -/
def memberChars (member : String × Json) : List Char :=
  keyChars layout depth member.1 ++ member.2.chars layout (depth + 1)

/-- What stands in front of the part that was taken out. -/
def Frame.before : Frame → List Char
  | .item front _ =>
    '[' :: (front.flatMap (fun item => itemChars layout depth item ++ [','])
      ++ layout.lineBreak (depth + 1))
  | .member front key _ =>
    '\x7b' :: (front.flatMap (fun member => memberChars layout depth member ++ [','])
      ++ keyChars layout depth key)

/-- What stands behind the part that was taken out. -/
def Frame.after : Frame → List Char
  | .item _ behind => moreItemsChars layout depth behind
  | .member _ _ behind => moreMembersChars layout depth behind

/-- The text in front of a place. -/
def Place.before (depth : Nat) : Place → List Char
  | [] => []
  | frame :: inner => frame.before layout depth ++ before (depth + 1) inner

/-- The text behind a place. -/
def Place.after (depth : Nat) : Place → List Char
  | [] => []
  | frame :: inner => after (depth + 1) inner ++ frame.after layout depth

/-- In a text that goes on part by part behind commas, the text of one part can be told from what
is in front of it and behind it. -/
theorem more_append {α : Type} {part : α → List Char} {more : List α → List Char}
    (hmore : ∀ a rest, more (a :: rest) = ',' :: (part a ++ more rest)) (front : List α) (a : α)
    (behind : List α) :
    more (front ++ a :: behind) =
      ',' :: (front.flatMap (fun b => part b ++ [',']) ++ (part a ++ more behind)) := by
  induction front with
  | nil => exact hmore a behind
  | cons b front ih =>
    rw [List.cons_append, hmore, ih]
    simp only [List.flatMap_cons, List.append_assoc, List.cons_append, List.nil_append]

variable {layout depth}

/-- An array is written as its items behind commas, where the first comma is the bracket. -/
theorem chars_array {items : List Json} (h : items ≠ []) :
    (Json.array items).chars layout depth = '[' :: (moreItemsChars layout depth items).tail := by
  cases items with
  | nil => exact absurd rfl h
  | cons item rest => rw [Json.chars, moreItemsChars, List.tail_cons]

/-- An object is written as its members behind commas, where the first comma is the brace. -/
theorem chars_object {members : List (String × Json)} (h : members ≠ []) :
    (Json.object members).chars layout depth =
      '\x7b' :: (moreMembersChars layout depth members).tail := by
  cases members with
  | nil => exact absurd rfl h
  | cons member rest => rw [Json.chars, moreMembersChars, List.tail_cons]

theorem moreItemsChars_cons (item : Json) (rest : List Json) :
    moreItemsChars layout depth (item :: rest) =
      ',' :: (itemChars layout depth item ++ moreItemsChars layout depth rest) := by
  rw [moreItemsChars, itemChars]

theorem moreMembersChars_cons (member : String × Json) (rest : List (String × Json)) :
    moreMembersChars layout depth (member :: rest) =
      ',' :: (memberChars layout depth member ++ moreMembersChars layout depth rest) := by
  rw [moreMembersChars, memberChars, keyChars]

/-- The text of a frame with a part in it. -/
theorem Frame.chars_fill (frame : Frame) (json : Json) :
    (frame.fill json).chars layout depth =
      frame.before layout depth ++ json.chars layout (depth + 1) ++ frame.after layout depth := by
  cases frame with
  | item front behind =>
    rw [fill, chars_array (by simp), more_append moreItemsChars_cons, List.tail_cons, Frame.before,
      Frame.after, itemChars]
    simp only [List.append_assoc, List.cons_append]
  | member front key behind =>
    rw [fill, chars_object (by simp), more_append moreMembersChars_cons, List.tail_cons,
      Frame.before, Frame.after, memberChars]
    simp only [List.append_assoc, List.cons_append]

/-- **The text around a place does not depend on what stands there.** -/
theorem Place.chars_fill (place : Place) (json : Json) (depth : Nat) :
    (place.fill json).chars layout depth =
      place.before layout depth ++ json.chars layout (depth + place.length)
        ++ place.after layout depth := by
  induction place generalizing depth with
  | nil => simp [fill, before, after]
  | cons frame inner ih =>
    rw [fill, Frame.chars_fill, ih, before, after, List.length_cons, Nat.add_right_comm,
      Nat.add_assoc depth]
    simp only [List.append_assoc]

/-- What takes no brackets is written the same at every depth. -/
theorem chars_of_depth_eq_zero {json : Json} (h : json.depth = 0) (depth other : Nat) :
    json.chars layout depth = json.chars layout other := by
  cases json with
  | array items => exact absurd h (Nat.succ_ne_zero _)
  | object members => exact absurd h (Nat.succ_ne_zero _)
  | bool value => cases value <;> rfl
  | _ => rfl

end Texts

namespace Place

/-- The compact text in front of a place. -/
def textBefore (place : Place) : String := String.ofList (place.before .compact 0)

/-- The compact text behind a place. -/
def textAfter (place : Place) : String := String.ofList (place.after .compact 0)

/-- The compact text of a value, from the text of what stands at a place in it. -/
theorem compact_fill (place : Place) {json : Json} (h : json.depth = 0) :
    (place.fill json).compact = place.textBefore ++ json.compact ++ place.textAfter := by
  rw [Json.compact, chars_fill, chars_of_depth_eq_zero h _ 0, String.ofList_append,
    String.ofList_append]
  rfl

end Place

end StagedRollout
