/-
# StagedRollout.Proofs.Channel.Reread -- series of edits that go through the text

Between two edits a mapping may be written down and read again, any number of times. What is read
again is an equal mapping, equal mappings are edited alike, and both are written alike. So a `walk`
through edits and rereadings reaches what the edits alone do: every edit succeeds in it if it
succeeds without the rereadings, and the last text is the same (`Mapping.walk_of_same`).

The invariant is that the mapping is `Carriable`: it can be written in the room that a reader has,
and its version is the current one.
-/
import StagedRollout.Proofs.Rollout.Alike
import StagedRollout.Proofs.Store.Execution

namespace StagedRollout

/-! ## Series of steps -/

/-- A step of a series of edits that may go through the text. -/
inductive TextStep
  | edit (e : Edit)
  /-- The mapping is written down and read again. -/
  | reread
deriving DecidableEq

/-- The edit that a step is, if it is one. -/
def TextStep.edit? : TextStep → Option Edit
  | .edit e => some e
  | .reread => none

namespace Mapping

/-- The mapping that is read from the text of a mapping. -/
def reread (m : Mapping) : Except RolloutError Mapping := do
  parse (← m.toText)

/-- Which edits of a series succeed, one after the other. -/
def applied (m : Mapping) : List Edit → List Bool
  | [] => []
  | e :: rest => (m.edit e).isOk :: (m.step e).applied rest

/-- Carries out a series of steps: which of its edits succeed, and the mapping that is reached. An
edit that does not apply changes nothing, whereas every rereading has to succeed. -/
def walk (m : Mapping) : List TextStep → Except RolloutError (List Bool × Mapping)
  | [] => .ok ([], m)
  | .edit e :: rest => do
    let (succeeded, last) ← (m.step e).walk rest
    return ((m.edit e).isOk :: succeeded, last)
  | .reread :: rest => do
    let read ← m.reread
    read.walk rest

end Mapping

/-- A channel can be given a mapping, by itself or with an update. Both carry one text, only the
text of the channel changes, and what is read of it is equal to the mapping. -/
def Channel.Takes (c : Channel) (m : Mapping) : Prop :=
  ∃ text, c.withMapping m = .ok { c with mappingText := text } ∧
    MappingUpdate.of c.id m = .ok ⟨c.id, text⟩ ∧
    ∃ read, { c with mappingText := text }.mapping = .ok read ∧ read.same m = true

namespace Mapping

/-! ## What a channel can carry -/

/-- A mapping that can be written and is read again as one of the current version. -/
structure Carriable (m : Mapping) : Prop where
  storable : m.Storable
  version : m.version = currentVersion

theorem carriable_of_mapping {c : Channel} {m : Mapping} (h : c.mapping = .ok m) :
    m.Carriable := by
  obtain ⟨hparse, hversion⟩ := Channel.mapping_eq_ok.1 h
  exact ⟨storable_of_parse hparse, hversion⟩

theorem step_of_ok {m edited : Mapping} {e : Edit} (h : m.edit e = .ok edited) :
    m.step e = edited := by
  rw [step, h]

theorem step_of_error {m : Mapping} {e : Edit} {cause : RolloutError}
    (h : m.edit e = .error cause) : m.step e = m := by
  rw [step, h]

namespace Carriable

variable {m : Mapping}

/-- **A step keeps a mapping carriable.** -/
theorem step (hm : m.Carriable) (e : Edit) : (m.step e).Carriable := by
  cases h : m.edit e with
  | error cause =>
    rw [step_of_error h]
    exact hm
  | ok edited =>
    rw [step_of_ok h]
    refine ⟨hm.storable.edit h, ?_⟩
    rcases version_of_edit h with hversion | hversion
    · exact hversion.trans hm.version
    · exact hversion

theorem run (hm : m.Carriable) (edits : List Edit) : (m.run edits).Carriable := by
  induction edits generalizing m with
  | nil => exact hm
  | cons e edits ih => exact ih (hm.step e)

/-- The text of a carriable mapping is read as an equal one, which is carriable again. -/
theorem exists_reread (hm : m.Carriable) :
    ∃ text, m.toText = .ok text ∧ ∃ read, parse text = .ok read ∧ read.same m = true ∧
      read.Carriable := by
  obtain ⟨text, htext, read, hread, hsame⟩ := hm.storable.exists_parse
  refine ⟨text, htext, read, hread, hsame, storable_of_parse hread, ?_⟩
  exact (version_of_same hsame).trans hm.version

/-- No number in a carriable mapping differs from itself. -/
theorem same_self (hm : m.Carriable) : m.same m = true := by
  obtain ⟨_, -, read, -, hsame, -⟩ := hm.exists_reread
  exact same_trans (same_symm hsame) hsame

/-- Every channel takes a carriable mapping. -/
theorem takes (hm : m.Carriable) (c : Channel) : c.Takes m := by
  obtain ⟨text, htext, read, hread, hsame, hcarriable⟩ := hm.exists_reread
  refine ⟨text, ?_, ?_, read, ?_, hsame⟩
  · rw [Channel.withMapping, htext]
    rfl
  · rw [MappingUpdate.of, htext]
    rfl
  · exact Channel.mapping_eq_ok.2 ⟨hread, hcarriable.version⟩

end Carriable

/-! ## Walks -/

theorem toText_of_same {a b : Mapping} (h : a.same b = true) : a.toText = b.toText := by
  rw [toText, toText, toJson_of_same h]

/-- **Equal mappings take a step alike**: it is an edit that succeeds on both or on neither, and they
are equal afterwards. -/
theorem step_of_same {a b : Mapping} (hsame : a.same b = true) (e : Edit) :
    (a.edit e).isOk = (b.edit e).isOk ∧ (a.step e).same (b.step e) = true := by
  cases ha : a.edit e with
  | ok edited =>
    obtain ⟨edited', hb, hsame'⟩ := edit_of_same hsame ha
    rw [hb, step_of_ok ha, step_of_ok hb]
    exact ⟨rfl, hsame'⟩
  | error cause =>
    cases hb : b.edit e with
    | ok edited' =>
      obtain ⟨edited, ha', -⟩ := edit_of_same (same_symm hsame) hb
      exact absurd (ha.symm.trans ha') (by simp)
    | error cause' =>
      rw [step_of_error ha, step_of_error hb]
      exact ⟨rfl, hsame⟩

/-- **A walk reaches what its edits reach**, from an equal mapping. The invariant is that the mapping
of the walk is carriable and equal to the one that the edits alone have reached. -/
theorem walk_of_same {a b : Mapping} (ha : a.Carriable) (hsame : a.same b = true)
    (steps : List TextStep) :
    ∃ last, a.walk steps = .ok (b.applied (steps.filterMap TextStep.edit?), last) ∧
      last.Carriable ∧ last.same (b.run (steps.filterMap TextStep.edit?)) = true := by
  induction steps generalizing a b with
  | nil => exact ⟨a, rfl, ha, hsame⟩
  | cons s steps ih =>
    cases s with
    | edit e =>
      obtain ⟨hok, hsame'⟩ := step_of_same hsame e
      obtain ⟨last, hwalk, hlast, hreached⟩ := ih (ha.step e) hsame'
      refine ⟨last, ?_, hlast, hreached⟩
      rw [walk, hwalk, hok]
      rfl
    | reread =>
      obtain ⟨text, htext, read, hread, hback, hcarriable⟩ := ha.exists_reread
      obtain ⟨last, hwalk, hlast, hreached⟩ := ih hcarriable (same_trans hback hsame)
      refine ⟨last, ?_, hlast, hreached⟩
      rw [walk, reread, htext]
      show (parse text >>= fun read => read.walk steps) = _
      rw [hread]
      exact hwalk

/-- **What is built survives the text.** Whatever edits are made of the mapping that a channel
carries, the channel takes the mapping that they reach. Rereading the mapping in between, any number
of times and in any places, always succeeds; every edit succeeds as it does without, and the last
mapping has the same text, which the channel takes as well. -/
theorem edits_survive_text (c : Channel) (m : Mapping) (h : c.mapping = .ok m)
    (edits : List Edit) :
    c.Takes (m.run edits) ∧
      ∀ steps : List TextStep, steps.filterMap TextStep.edit? = edits →
        ∃ last, m.walk steps = .ok (m.applied edits, last) ∧
          last.toText = (m.run edits).toText ∧ c.Takes last := by
  have hm := carriable_of_mapping h
  constructor
  · exact (hm.run edits).takes c
  · rintro steps rfl
    obtain ⟨last, hwalk, hlast, hreached⟩ := walk_of_same hm hm.same_self steps
    exact ⟨last, hwalk, toText_of_same hreached, hlast.takes c⟩

/-- A channel whose mapping was written by hand: with arrays for records, a share of negative zero,
and a version that is spelled with an escape. -/
def channelByHand : Channel :=
  ⟨"1", "main", "[0, [[\"B2\", [\"and\",
    \x7b\"clientKey\":\"rolloutToken\", \"branchMappingOperator\":\"hash_lt\", \"operand\":-0.0\x7d,
    \x7b\"operand\":\"1.0.\\u0030\", \"clientKey\":\"runtimeVersion\",
    \"branchMappingOperator\":\"==\"\x7d]], [\"B1\", \"true\"]]]", []⟩

/-- A change that applies, one that does not, and a removal. -/
def editsByHand : List Edit :=
  [.setPercentFor "1.0.0" ⟨40, by decide⟩, .setPercent ⟨60, by decide⟩, .remove "1.0.0"]

/-- The same edits, with the text in front of each and behind the last. -/
def stepsByHand : List TextStep :=
  .reread :: editsByHand.flatMap fun e => [.edit e, .reread]

/-- The channel takes what the three edits leave, the second of which does not apply. -/
theorem edits_survive_text_by_hand :
    ∃ m, channelByHand.mapping = .ok m ∧ m.applied editsByHand = [true, false, true] ∧
      channelByHand.Takes (m.run editsByHand) ∧
      ∃ last, m.walk stepsByHand = .ok ([true, false, true], last) ∧
        last.toText = (m.run editsByHand).toText ∧ channelByHand.Takes last := by
  obtain ⟨m, hm, hcheck⟩ := Outcome.exists_of_any (x := channelByHand.mapping)
    (p := fun m => m.applied editsByHand = [true, false, true]) (by decide +kernel)
  have happlied : m.applied editsByHand = [true, false, true] := of_decide_eq_true hcheck
  obtain ⟨htakes, hwalks⟩ := edits_survive_text channelByHand m hm editsByHand
  obtain ⟨last, hwalk, htext, hlast⟩ := hwalks stepsByHand (by decide)
  rw [happlied] at hwalk
  exact ⟨m, hm, happlied, htakes, last, hwalk, htext, hlast⟩

end Mapping

end StagedRollout
