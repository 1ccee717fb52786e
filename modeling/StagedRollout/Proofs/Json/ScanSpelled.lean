/-
# StagedRollout.Proofs.Json.ScanSpelled -- the scanner reads what is spelled

`Outline.ofText_spelled`: of a text that spells a tree the scanner makes the outline of that tree,
and leaves the blanks behind it. Each piece of the grammar has its lemma here, and each says
what the scanner leaves: a literal is read to its end and no further. For numbers this depends on
what follows, since a digit would have been read as well; `Delimited` is what the follower must
be.

The fuel is no part of the argument beyond a bound: two steps for each character are enough.
-/
import StagedRollout.Proofs.Outcome
import StagedRollout.Proofs.Json.Grammar

namespace StagedRollout

/-! ## The outline of a tree -/

mutual

/-- The outline of a text that spells a tree: nothing in it goes wrong. -/
def JsonTree.outline : JsonTree → Outline
  | .null => .null
  | .bool value => .bool value
  | .number numeral => .number numeral
  | .text content => .text (.ok content)
  | .array items => .array (itemsOutline items)
  | .object members => .object (membersOutline members)

/-- The outline of the items of an array. -/
def itemsOutline : List JsonTree → Items
  | [] => .closed
  | item :: rest => .item item.outline (itemsOutline rest)

/-- The outline of the members of an object. -/
def membersOutline : List (String × JsonTree) → Members
  | [] => .closed
  | (key, value) :: rest => .member (.ok key) value.outline (membersOutline rest)

end

/-! ## Blanks -/

/-- Blanks are passed over, all of them. -/
theorem skipSpacing_append {blank : List Char} (h : Blank blank) (rest : List Char) :
    skipSpacing (blank ++ rest) = skipSpacing rest :=
  List.dropWhile_append_of_pos h

theorem skipSpacing_cons {c : Char} (h : isSpacing c = false) (rest : List Char) :
    skipSpacing (c :: rest) = c :: rest :=
  List.dropWhile_cons_of_neg (by simp [h])

/-! ## String literals -/

theorem isTrailSurrogate_of_lead {unit : Nat} (h : isLeadSurrogate unit = true) :
    isTrailSurrogate unit = false := by
  simp only [isLeadSurrogate, isTrailSurrogate, Bool.and_eq_true, decide_eq_true_eq,
    Bool.and_eq_false_iff, decide_eq_false_iff_not] at h ⊢
  omega

namespace Literal

theorem content_unit {unit : Nat} {tail : Literal} (hlead : isLeadSurrogate unit = false)
    (htrail : isTrailSurrogate unit = false) :
    (Literal.unit unit tail).content = (Char.ofNat unit :: ·) <$> tail.content := by
  rw [content.eq_def]
  simp [hlead, htrail]

/-- A surrogate pair is one character of the content. -/
theorem content_pair {lead trail : Nat} {tail : Literal} (hlead : isLeadSurrogate lead = true)
    (htrail : isTrailSurrogate trail = true) :
    (Literal.unit lead (.unit trail tail)).content =
      (pairedChar lead trail :: ·) <$> tail.content := by
  rw [content.eq_def]
  simp [hlead, htrail, isTrailSurrogate_of_lead hlead]

/-- A spelled literal is read as what it stands for, up to its closing quote. -/
theorem scan_spelled {content text : List Char} (h : SpellsText content text)
    (rest : List Char) :
    (scan (text ++ rest)).content = .ok content ∧ (scan (text ++ rest)).rest = .ok rest := by
  induction h with
  | close =>
    rw [List.singleton_append, scan_quote]
    exact ⟨rfl, rfl⟩
  | plain hquote hslash hlow _ ih =>
    rw [List.cons_append, scan_plain _ hquote hslash hlow, Literal.content, ih.1]
    exact ⟨rfl, ih.2⟩
  | letter hletter _ ih =>
    rw [List.cons_append, List.cons_append, scan_letter _ hletter, Literal.content, ih.1]
    exact ⟨rfl, ih.2⟩
  | unit hunit hlead htrail _ ih =>
    simp only [List.cons_append]
    rw [scan_unit _ hunit, content_unit hlead htrail, ih.1]
    exact ⟨rfl, ih.2⟩
  | pair hunit hlead hunit' htrail _ ih =>
    simp only [List.cons_append]
    rw [scan_unit _ hunit, scan_unit _ hunit', content_pair hlead htrail, ih.1]
    exact ⟨rfl, ih.2⟩

/-- A spelled string literal is read as the string that it spells. -/
theorem string_scan_spelled {content : String} {text : List Char}
    (h : SpellsText content.toList text) (rest : List Char) :
    (scan (text ++ rest)).string = .ok content := by
  rw [string, (scan_spelled h rest).1]
  show Except.ok (String.ofList content.toList) = _
  rw [String.ofList_toList]

end Literal

/-- Its outline is that string, and the scanner stops behind the closing quote. -/
theorem scanText_spelled {content : String} {text : List Char}
    (h : SpellsText content.toList text) (rest : List Char) :
    scanText (text ++ rest) = (.text (.ok content), rest) := by
  simp only [scanText, (Literal.scan_spelled h rest).2, Literal.string_scan_spelled h]

/-! ## Numbers -/

/-- A text that continues no number: it starts with no digit, no point and no exponent. -/
def Delimited (text : List Char) : Prop :=
  ∀ c rest, text = c :: rest → c.isDigit = false ∧ c ≠ '.' ∧ c ≠ 'e' ∧ c ≠ 'E'

theorem Delimited.nil : Delimited [] := fun _ _ h => absurd h (by simp)

theorem Delimited.cons {c : Char} (h : c.isDigit = false ∧ c ≠ '.' ∧ c ≠ 'e' ∧ c ≠ 'E')
    (rest : List Char) : Delimited (c :: rest) := by
  intro d rest' heq
  obtain ⟨rfl, -⟩ := List.cons.inj heq
  exact h

/-- Blanks delimit, and where there are none what follows them has to. -/
theorem Delimited.blank {blank rest : List Char} (h : Blank blank) (hrest : Delimited rest) :
    Delimited (blank ++ rest) := by
  cases blank with
  | nil => exact hrest
  | cons c blank =>
    have hc := h c (by simp)
    simp only [isSpacing, Bool.or_eq_true, decide_eq_true_eq] at hc
    refine Delimited.cons ?_ _
    rcases hc with ((rfl | rfl) | rfl) | rfl <;> decide

/-- A text that starts with no digit. -/
def NoDigit (text : List Char) : Prop := ∀ c rest, text = c :: rest → c.isDigit = false

theorem Delimited.noDigit {text : List Char} (h : Delimited text) : NoDigit text :=
  fun c rest heq => (h c rest heq).1

/-- Digits are taken as far as they go. -/
theorem takeDigits_append {digits rest : List Char} (h : ∀ c ∈ digits, c.isDigit = true)
    (hrest : NoDigit rest) : takeDigits (digits ++ rest) = (digits, rest) := by
  have hstop : rest.takeWhile Char.isDigit = [] ∧ rest.dropWhile Char.isDigit = rest := by
    cases rest with
    | nil => exact ⟨rfl, rfl⟩
    | cons c rest => simp [hrest c rest rfl]
  rw [takeDigits, List.takeWhile_append_of_pos h, List.dropWhile_append_of_pos h, hstop.1,
    hstop.2, List.append_nil]

/-- The whole part of a number is taken. A leading zero is taken alone, so it has to be the only
digit. -/
theorem takeWhole_spelled {whole rest : List Char} (h : Digits whole)
    (hzero : whole = ['0'] ∨ whole.head? ≠ some '0') (hrest : NoDigit rest) :
    takeWhole (whole ++ rest) = .ok (whole, rest) := by
  obtain ⟨hne, hdigits⟩ := h
  rw [takeWhole, takeDigits_append hdigits hrest]
  split
  · next heq => exact absurd (Prod.mk.inj heq).1 hne
  · next heq =>
    obtain ⟨rfl, rfl⟩ := Prod.mk.inj heq
    rfl
  · next tail hnot heq =>
    obtain ⟨rfl, rfl⟩ := Prod.mk.inj heq
    rcases hzero with hzero | hzero
    · exact absurd (List.cons.inj hzero).2 hnot
    · exact absurd rfl hzero
  · next heq =>
    obtain ⟨rfl, rfl⟩ := Prod.mk.inj heq
    rfl

/-- The fraction is taken if there is one; without one no point may follow. -/
theorem takeFraction_spelled {fraction text rest : List Char} (h : SpellsFraction fraction text)
    (hrest : NoDigit rest) (hpoint : ∀ c rest', rest = c :: rest' → c ≠ '.') :
    takeFraction (text ++ rest) = .ok (fraction, rest) := by
  cases h with
  | none =>
    unfold takeFraction
    split
    · next heq => exact absurd rfl (hpoint _ _ heq)
    · rfl
  | some hdigits =>
    obtain ⟨hne, hdigits⟩ := hdigits
    rw [List.cons_append, takeFraction, takeDigits_append hdigits hrest]
    split
    · next heq => exact absurd (Prod.mk.inj heq).1 hne
    · next heq =>
      obtain ⟨rfl, rfl⟩ := Prod.mk.inj heq
      rfl

/-- A sign is taken in front of what starts with none. -/
theorem takeSign_append {negative : Bool} {sign rest : List Char} (h : SpellsSign negative sign)
    (hrest : ∀ c rest', rest = c :: rest' → c ≠ '-' ∧ c ≠ '+') :
    takeSign (sign ++ rest) = (negative, rest) := by
  cases h with
  | plus => rfl
  | minus => rfl
  | none =>
    rw [List.nil_append]
    unfold takeSign
    split
    · exact absurd rfl (hrest _ _ rfl).1
    · exact absurd rfl (hrest _ _ rfl).2
    · rfl

theorem takeSign_spelled {negative : Bool} {sign digits rest : List Char}
    (h : SpellsSign negative sign) (hdigits : Digits digits) :
    takeSign (sign ++ (digits ++ rest)) = (negative, digits ++ rest) := by
  apply takeSign_append h
  intro c rest' heq
  -- what stands first is a digit
  have hc : c.isDigit = true := by
    obtain ⟨hne, hdigits⟩ := hdigits
    cases digits with
    | nil => exact absurd rfl hne
    | cons d digits =>
      obtain ⟨rfl, -⟩ := List.cons.inj heq
      exact hdigits d List.mem_cons_self
  constructor
  · rintro rfl
    exact absurd hc (by decide)
  · rintro rfl
    exact absurd hc (by decide)

/-- The exponent is taken with its sign if there is one. -/
theorem takeExponent_spelled {exponent : Option Int} {text rest : List Char}
    (h : SpellsExponent exponent text) (hrest : Delimited rest) :
    takeExponent (text ++ rest) = .ok (exponent, rest) := by
  cases h with
  | none =>
    cases rest with
    | nil => rfl
    | cons c rest =>
      obtain ⟨-, -, he, hE⟩ := hrest c rest rfl
      simp [takeExponent, he, hE]
  | some hmark hsign hdigits =>
    rw [List.cons_append, List.append_assoc, takeExponent, if_pos hmark,
      takeSign_spelled hsign hdigits]
    simp only
    rw [takeDigits_append hdigits.2 hrest.noDigit]
    split
    · next heq => exact absurd (Prod.mk.inj heq).1 hdigits.1
    · next heq =>
      obtain ⟨rfl, rfl⟩ := Prod.mk.inj heq
      rfl

/-- What follows the digits starts neither with a digit nor with a point, be it an exponent or the
end. -/
theorem SpellsExponent.noDigit {exponent : Option Int} {text rest : List Char}
    (h : SpellsExponent exponent text) (hrest : Delimited rest) :
    NoDigit (text ++ rest) ∧ ∀ c rest', text ++ rest = c :: rest' → c ≠ '.' := by
  cases h with
  | none => exact ⟨hrest.noDigit, fun c rest' heq => (hrest c rest' heq).2.1⟩
  | some hmark _ _ =>
    constructor <;> rintro c rest' heq <;> obtain ⟨rfl, -⟩ := List.cons.inj heq <;>
      rcases hmark with rfl | rfl <;> decide

theorem SpellsFraction.noDigit {fraction text rest : List Char}
    (h : SpellsFraction fraction text) (hrest : NoDigit rest) : NoDigit (text ++ rest) := by
  cases h with
  | none => exact hrest
  | some _ =>
    intro c rest' heq
    obtain ⟨rfl, -⟩ := List.cons.inj heq
    decide

/-- The three parts of a number, put together, are its numeral. -/
theorem scanUnsigned_spelled (negative : Bool) {whole fraction fractionText exponentText rest :
    List Char} {exponent : Option Int} (hwhole : Digits whole)
    (hzero : whole = ['0'] ∨ whole.head? ≠ some '0')
    (hfraction : SpellsFraction fraction fractionText)
    (hexponent : SpellsExponent exponent exponentText) (hrest : Delimited rest) :
    scanUnsigned negative (whole ++ (fractionText ++ (exponentText ++ rest))) =
      .ok (⟨⟨negative, digitsValue (whole ++ fraction), exponent.getD 0 - fraction.length⟩,
        fraction = [] ∧ exponent = none, Numeral.toldDigits < whole.length⟩, rest) := by
  obtain ⟨hdigit, hpoint⟩ := hexponent.noDigit hrest
  simp only [scanUnsigned, takeWhole_spelled hwhole hzero (hfraction.noDigit hdigit),
    takeFraction_spelled hfraction hdigit hpoint, takeExponent_spelled hexponent hrest,
    Outcome.ok_bind, Outcome.pure_eq_ok]

/-- A spelled number is read as its numeral, up to a delimiter. -/
theorem scanNumber_spelled {numeral : Numeral} {text rest : List Char}
    (h : SpellsNumber numeral text) (hrest : Delimited rest) :
    scanNumber (text ++ rest) = .ok (numeral, rest) := by
  obtain ⟨negative, hwhole, hzero, hfraction, hexponent⟩ := h
  have hscan := scanUnsigned_spelled negative hwhole hzero hfraction hexponent hrest
  simp only [List.append_assoc]
  cases negative with
  | true => exact hscan
  | false =>
    unfold scanNumber
    -- a digit in front is no minus
    split
    · next heq =>
      obtain ⟨c, rest, rfl, hc⟩ := hwhole.head
      rw [(List.cons.inj heq).1] at hc
      exact absurd hc (by decide)
    · exact hscan

/-- A number starts with a minus or a digit. -/
theorem SpellsNumber.head {numeral : Numeral} {text : List Char} (h : SpellsNumber numeral text) :
    ∃ c rest, text = c :: rest ∧ (c = '-' ∨ c.isDigit = true) := by
  obtain ⟨negative, hwhole, -, -, -⟩ := h
  cases negative with
  | true => exact ⟨'-', _, rfl, .inl rfl⟩
  | false =>
    obtain ⟨c, rest, rfl, hc⟩ := hwhole.head
    exact ⟨c, _, rfl, .inr hc⟩

/-! ## Values -/

/-- A value starts with a character that is no blank and closes nothing. -/
theorem head_of_spells {tree : JsonTree} {text : List Char} (h : Spells tree text) :
    ∃ c rest, text = c :: rest ∧ isSpacing c = false ∧ c ≠ ']' := by
  cases h with
  | number hnumber =>
    obtain ⟨c, rest, rfl, hc⟩ := hnumber.head
    refine ⟨c, rest, rfl, ?_⟩
    rcases hc with rfl | hc
    · decide
    · have hspace : isSpacing c = false := by
        cases hs : isSpacing c with
        | false => rfl
        | true =>
          simp only [isSpacing, Bool.or_eq_true, decide_eq_true_eq] at hs
          rcases hs with ((rfl | rfl) | rfl) | rfl <;> exact absurd hc (by decide)
      exact ⟨hspace, by rintro rfl; exact absurd hc (by decide)⟩
  | _ => exact ⟨_, _, rfl, by decide, by decide⟩

/-! ## The steps of the scanner -/

/-- Blanks in front of a value do not matter. -/
theorem scanValue_blank {blank : List Char} (h : Blank blank) (fuel : Nat) (text : List Char) :
    scanValue fuel (blank ++ text) = scanValue fuel text := by
  cases fuel with
  | zero => rw [scanValue, scanValue]
  | succ fuel => rw [scanValue, scanValue, skipSpacing_append h]

theorem scanValue_emptyArray {blank : List Char} (h : Blank blank) (fuel : Nat)
    (rest : List Char) :
    scanValue (fuel + 1) ('[' :: (blank ++ ']' :: rest)) = (.array .closed, rest) := by
  rw [scanValue, skipSpacing_cons (by decide)]
  simp only
  rw [skipSpacing_append h, skipSpacing_cons (by decide)]
  rfl

/-- An array is scanned if its items are. The bracket takes one step. -/
theorem scanValue_array {text inside rest : List Char} {c : Char} {items : Items} {fuel : Nat}
    (hinside : skipSpacing text = c :: inside) (hc : c ≠ ']')
    (hitems : scanItems fuel (c :: inside) = (items, rest)) :
    scanValue (fuel + 1) ('[' :: text) = (.array items, rest) := by
  rw [scanValue, skipSpacing_cons (by decide)]
  simp only
  rw [hinside]
  split
  · next heq => exact absurd heq (by simp)
  · next heq => exact absurd (List.cons.inj heq).1 hc
  · rw [hitems]

theorem scanValue_emptyObject {blank : List Char} (h : Blank blank) (fuel : Nat)
    (rest : List Char) :
    scanValue (fuel + 1) ('\x7b' :: (blank ++ '\x7d' :: rest)) = (.object .closed, rest) := by
  rw [scanValue, skipSpacing_cons (by decide)]
  simp only
  rw [skipSpacing_append h, skipSpacing_cons (by decide)]
  rfl

/-- An object is scanned if its members are. The brace takes one step. -/
theorem scanValue_object {text inside rest : List Char} {members : Members} {fuel : Nat}
    (hinside : skipSpacing text = '"' :: inside)
    (hmembers : scanMembers fuel inside = (members, rest)) :
    scanValue (fuel + 1) ('\x7b' :: text) = (.object members, rest) := by
  rw [scanValue, skipSpacing_cons (by decide)]
  simp only
  rw [hinside]
  simp only [hmembers]

/-- The last item stands in front of the closing bracket. -/
theorem scanItems_last {text after rest : List Char} {head : Outline} {fuel : Nat}
    (hhead : scanValue fuel text = (head, after ++ ']' :: rest)) (hafter : Blank after) :
    scanItems (fuel + 1) text = (.item head .closed, rest) := by
  rw [scanItems, hhead]
  simp only
  rw [skipSpacing_append hafter, skipSpacing_cons (by decide)]
  rfl

/-- Behind any other item there is a comma, and behind the comma an item and not the end. -/
theorem scanItems_more {text after next inside rest : List Char} {c : Char} {head : Outline}
    {tail : Items} {fuel : Nat} (hhead : scanValue fuel text = (head, after ++ ',' :: next))
    (hafter : Blank after) (hinside : skipSpacing next = c :: inside) (hc : c ≠ ']')
    (htail : scanItems fuel (c :: inside) = (tail, rest)) :
    scanItems (fuel + 1) text = (.item head tail, rest) := by
  rw [scanItems, hhead]
  simp only
  rw [skipSpacing_append hafter, skipSpacing_cons (by decide)]
  simp only
  rw [hinside]
  split
  · next heq => exact absurd heq (by simp)
  · next heq => exact absurd (List.cons.inj heq).1 hc
  · rw [htail]

/-- The text behind a key's opening quote: the key, a colon, and the value that follows. -/
def BehindQuote (key : String) (text value : List Char) : Prop :=
  (Literal.scan text).string = .ok key ∧
    ∃ rest blank, (Literal.scan text).rest = .ok rest ∧
      skipSpacing rest = ':' :: (blank ++ value) ∧ Blank blank

/-- A spelled key starts with its quote, as far as the scanner sees. -/
theorem SpellsKey.behindQuote {key : String} {keyText : List Char} (h : SpellsKey key keyText)
    (value : List Char) :
    ∃ text, skipSpacing (keyText ++ value) = '"' :: text ∧ BehindQuote key text value := by
  obtain @⟨before, text, middle, after, hbefore, htext, hmiddle, hafter⟩ := h
  simp only [List.append_assoc, List.cons_append]
  refine ⟨text ++ (middle ++ ':' :: (after ++ value)), ?_,
    Literal.string_scan_spelled htext _, middle ++ ':' :: (after ++ value), after,
    (Literal.scan_spelled htext _).2, ?_, hafter⟩
  · rw [skipSpacing_append hbefore, skipSpacing_cons (by decide)]
  · rw [skipSpacing_append hmiddle, skipSpacing_cons (by decide)]

/-- The last member stands in front of the closing brace. -/
theorem scanMembers_last {key : String} {text value after rest : List Char} {head : Outline}
    {fuel : Nat} (hkey : BehindQuote key text value)
    (hhead : scanValue fuel value = (head, after ++ '\x7d' :: rest)) (hafter : Blank after) :
    scanMembers (fuel + 1) text = (.member (.ok key) head .closed, rest) := by
  obtain ⟨hstring, _, _, hrest, hcolon, hblank⟩ := hkey
  rw [scanMembers]
  simp only [hstring, hrest, hcolon, scanValue_blank hblank, hhead, skipSpacing_append hafter]
  rw [skipSpacing_cons (by decide)]
  rfl

/-- Behind any other member there is a comma, and behind the comma the quote of a key. -/
theorem scanMembers_more {key : String} {text value after next inside rest : List Char}
    {head : Outline} {tail : Members} {fuel : Nat} (hkey : BehindQuote key text value)
    (hhead : scanValue fuel value = (head, after ++ ',' :: next)) (hafter : Blank after)
    (hinside : skipSpacing next = '"' :: inside)
    (htail : scanMembers fuel inside = (tail, rest)) :
    scanMembers (fuel + 1) text = (.member (.ok key) head tail, rest) := by
  obtain ⟨hstring, _, _, hrest, hcolon, hblank⟩ := hkey
  rw [scanMembers]
  simp only [hstring, hrest, hcolon, scanValue_blank hblank, hhead, skipSpacing_append hafter]
  rw [skipSpacing_cons (by decide)]
  simp only [hinside, htail]

theorem scanValue_number {numeral : Numeral} {text rest : List Char}
    (h : SpellsNumber numeral text) (hrest : Delimited rest) (fuel : Nat) :
    scanValue (fuel + 1) (text ++ rest) = (.number numeral, rest) := by
  have hscan := scanNumber_spelled h hrest
  obtain ⟨c, inside, rfl, hc⟩ := h.head
  have hspace : isSpacing c = false := by
    obtain ⟨d, _, heq, hd, -⟩ := head_of_spells (.number h)
    rw [(List.cons.inj heq).1]
    exact hd
  rw [List.cons_append] at hscan
  rw [scanValue, List.cons_append, skipSpacing_cons hspace]
  -- of the characters that open a value none is a minus or a digit
  have other : ∀ d ∈ ['n', 't', 'f', '"', '[', '\x7b'],
      ∀ rest', c :: (inside ++ rest) ≠ d :: rest' := by
    rintro d hd rest' heq
    rw [← (List.cons.inj heq).1] at hd
    simp only [List.mem_cons, List.not_mem_nil, or_false] at hd
    rcases hd with rfl | rfl | rfl | rfl | rfl | rfl <;> exact absurd hc (by decide)
  split
  · next heq => exact absurd heq (List.cons_ne_nil _ _)
  · next heq => exact absurd heq (other _ (by simp) _)
  · next heq => exact absurd heq (other _ (by simp) _)
  · next heq => exact absurd heq (other _ (by simp) _)
  · next heq => exact absurd heq (other _ (by simp) _)
  · next heq => exact absurd heq (other _ (by simp) _)
  · next heq => exact absurd heq (other _ (by simp) _)
  · next heq =>
    obtain ⟨rfl, rfl⟩ := List.cons.inj heq
    rw [if_pos hc, scanNumberOutline, hscan]

/-! ## Values -/

mutual

/-- Of a spelled value the scanner makes the outline, and leaves what follows it. -/
theorem scanValue_spelled : ∀ {tree : JsonTree} {text : List Char}, Spells tree text →
    ∀ (fuel : Nat) (rest : List Char), 2 * text.length ≤ fuel → Delimited rest →
      scanValue fuel (text ++ rest) = (tree.outline, rest)
  | _, _, .null, fuel + 1, rest, _, _ => rfl
  | _, _, .true, fuel + 1, rest, _, _ => rfl
  | _, _, .false, fuel + 1, rest, _, _ => rfl
  | _, _, .number h, fuel, rest, hfuel, hrest => by
      obtain ⟨c, inside, rfl, -⟩ := h.head
      rw [List.length_cons] at hfuel
      obtain ⟨fuel, rfl⟩ : ∃ f, fuel = f + 1 := ⟨fuel - 1, by omega⟩
      exact scanValue_number h hrest fuel
  | _, _, .text h, fuel + 1, rest, _, _ => by
      rw [List.cons_append, scanValue, skipSpacing_cons (by decide)]
      exact scanText_spelled h rest
  | _, _, .emptyArray h, fuel + 1, rest, _, _ => by
      rw [List.cons_append, List.append_assoc]
      exact scanValue_emptyArray h fuel rest
  | _, _, .array h, fuel + 1, rest, hfuel, _ => by
      rw [List.length_cons] at hfuel
      obtain ⟨c, inside, hinside, hc, hitems⟩ :=
        scanItems_spelled h fuel rest (by omega)
      exact scanValue_array hinside hc hitems
  | _, _, .emptyObject h, fuel + 1, rest, _, _ => by
      rw [List.cons_append, List.append_assoc]
      exact scanValue_emptyObject h fuel rest
  | _, _, .object h, fuel + 1, rest, hfuel, _ => by
      rw [List.length_cons] at hfuel
      obtain ⟨inside, hinside, hmembers⟩ :=
        scanMembers_spelled h fuel rest (by omega)
      exact scanValue_object hinside hmembers

/-- Of spelled items the scanner makes their outlines. It starts at the first character of an item,
which is therefore named here. -/
theorem scanItems_spelled : ∀ {items : List JsonTree} {text : List Char},
    SpellsItems items text → ∀ (fuel : Nat) (rest : List Char), 2 * text.length + 1 ≤ fuel →
      ∃ c inside, skipSpacing (text ++ rest) = c :: inside ∧ c ≠ ']' ∧
        scanItems fuel (c :: inside) = (itemsOutline items, rest)
  | _, _, @SpellsItems.last _ _ text after hbefore hitem hafter, fuel + 1, rest, hfuel => by
      simp only [List.length_append] at hfuel
      have hhead := scanValue_spelled hitem fuel (after ++ ']' :: rest)
        (by omega) (.blank hafter (.cons (by decide) _))
      obtain ⟨c, inside, rfl, hspace, hc⟩ := head_of_spells hitem
      refine ⟨c, inside ++ (after ++ ']' :: rest), ?_, hc, scanItems_last hhead hafter⟩
      simp only [List.append_assoc, skipSpacing_append hbefore, List.cons_append,
        skipSpacing_cons hspace, List.nil_append]
  | _, _, @SpellsItems.more _ _ _ text after more hbefore hitem hafter hitems,
      fuel + 1, rest, hfuel => by
      simp only [List.length_append, List.length_cons] at hfuel
      -- the items behind the comma are shorter by more than the step that was spent
      obtain ⟨d, inside', hinside, hd, htail⟩ :=
        scanItems_spelled hitems fuel rest (by omega)
      have hhead := scanValue_spelled hitem fuel (after ++ ',' :: (more ++ rest))
        (by omega) (.blank hafter (.cons (by decide) _))
      obtain ⟨c, inside, rfl, hspace, hc⟩ := head_of_spells hitem
      refine ⟨c, inside ++ (after ++ ',' :: (more ++ rest)), ?_, hc,
        scanItems_more hhead hafter hinside hd htail⟩
      simp only [List.append_assoc, skipSpacing_append hbefore, List.cons_append,
        skipSpacing_cons hspace]

/-- Of spelled members the scanner makes their outlines. It starts behind the quote of a key. -/
theorem scanMembers_spelled : ∀ {members : List (String × JsonTree)} {text : List Char},
    SpellsMembers members text → ∀ (fuel : Nat) (rest : List Char), 2 * text.length + 1 ≤ fuel →
      ∃ inside, skipSpacing (text ++ rest) = '"' :: inside ∧
        scanMembers fuel inside = (membersOutline members, rest)
  | _, _, @SpellsMembers.last _ _ _ text after hkey hvalue hafter, fuel + 1, rest, hfuel => by
      simp only [List.length_append] at hfuel
      have hhead := scanValue_spelled hvalue fuel (after ++ '\x7d' :: rest)
        (by omega) (.blank hafter (.cons (by decide) _))
      simp only [List.append_assoc]
      obtain ⟨inside, hinside, hbehind⟩ := hkey.behindQuote (text ++ (after ++ '\x7d' :: rest))
      exact ⟨inside, hinside, scanMembers_last hbehind hhead hafter⟩
  | _, _, @SpellsMembers.more _ _ _ _ text after more hkey hvalue hafter hmembers,
      fuel + 1, rest, hfuel => by
      simp only [List.length_append, List.length_cons] at hfuel
      obtain ⟨inside', hinside', htail⟩ :=
        scanMembers_spelled hmembers fuel rest (by omega)
      have hhead := scanValue_spelled hvalue fuel (after ++ ',' :: (more ++ rest))
        (by omega) (.blank hafter (.cons (by decide) _))
      simp only [List.append_assoc, List.cons_append]
      obtain ⟨inside, hinside, hbehind⟩ :=
        hkey.behindQuote (text ++ (after ++ ',' :: (more ++ rest)))
      exact ⟨inside, hinside, scanMembers_more hbehind hhead hafter hinside' htail⟩

end

/-- A text that spells a tree has the outline of that tree, with only blanks behind it. -/
theorem Outline.ofText_spelled {tree : JsonTree} {text : List Char}
    (h : SpellsWhole tree text) :
    ∃ rest, Outline.ofText text = (tree.outline, rest) ∧ skipSpacing rest = [] := by
  obtain ⟨before, spelled, after, hbefore, hspelled, hafter, rfl⟩ := h
  -- blanks at the end delimit the value as well as any mark
  have hend : Delimited after ∧ skipSpacing after = [] := by
    rw [← List.append_nil after, skipSpacing_append hafter]
    exact ⟨.blank hafter .nil, rfl⟩
  refine ⟨after, ?_, hend.2⟩
  rw [ofText, scanValue_blank hbefore]
  exact scanValue_spelled hspelled _ _ (by simp only [List.length_append]; omega) hend.1

end StagedRollout
