/-
# StagedRollout.Proofs.Rollout.Exchange -- the order inside a conjunction

A constrained rollout is recognised whichever of its two predicates comes first. `Mapping.exchange`
turns round any choice of the conjunctions of two nodes that a mapping has, be they rollouts or not,
and nothing that is asked of a mapping depends on it: what is recognised and reported stays the
same, and every edit goes the same way and leaves the same mapping, with the same conjunctions
turned round (`Mapping.conjunct_order_irrelevant`).

Reading looks at the two nodes as a pair, and writing searches them for the first share. Both come
to the same node since a predicate that fixes a version is no share
(`Node.withPercent?_exchanged`); a pair of two shares or of two versions is no rollout in either
order, and no edit ever gets to it.
-/
import StagedRollout.Proofs.Rollout.Admission

namespace StagedRollout

/- The stored fraction is a quotient of large numbers, which nothing here looks into. -/
attribute [local irreducible] Percent.fraction Percent.ofFraction

/-! ## Exchanging the two nodes of a conjunction -/

namespace Node

/-- A conjunction of two nodes the other way round. Any other node is as it was. -/
def exchanged : Node → Node
  | .all [first, second] => .all [second, first]
  | node => node

/-- Only an `and` of two nodes has two nodes to exchange. -/
theorem exchanged_eq_self {node : Node} (h : ∀ first second, node ≠ .all [first, second]) :
    node.exchanged = node := by
  unfold exchanged
  split
  · next first second => exact absurd rfl (h first second)
  · rfl

/-- To exchange twice is to do nothing. -/
theorem exchanged_exchanged (node : Node) : node.exchanged.exchanged = node := by
  by_cases h : ∃ first second, node = .all [first, second]
  · obtain ⟨first, second, rfl⟩ := h
    rfl
  · have hself : node.exchanged = node := by
      apply exchanged_eq_self
      intro first second hnode
      exact h ⟨first, second, hnode⟩
    rw [hself, hself]

/-- What is found in a constrained rollout is found in it the other way round. -/
theorem constrained?_exchanged_of_some {node : Node} {found : String × Predicate}
    (h : node.constrained? = some found) : node.exchanged.constrained? = some found := by
  obtain ⟨scope, hversion, hshare, rfl | rfl⟩ := constrained?_eq_some.1 h
  · exact constrained?_eq_some.2 ⟨scope, hversion, hshare, .inr rfl⟩
  · exact constrained?_eq_some.2 ⟨scope, hversion, hshare, .inl rfl⟩

/-- **The order of the two predicates is not looked at.** -/
theorem constrained?_exchanged (node : Node) :
    node.exchanged.constrained? = node.constrained? := by
  apply Option.ext
  intro found
  constructor
  · intro h
    have hback := constrained?_exchanged_of_some h
    rwa [exchanged_exchanged] at hback
  · exact constrained?_exchanged_of_some

theorem isAlwaysTrue_exchanged (node : Node) : node.exchanged.isAlwaysTrue = node.isAlwaysTrue := by
  unfold exchanged
  split <;> rfl

/-- **The search for a share finds the same one from either side.** -/
theorem withPercent?_exchanged {node : Node} {found : String × Predicate}
    (h : node.constrained? = some found) (percent : Percent) :
    node.exchanged.withPercent? percent = (node.withPercent? percent).map exchanged := by
  obtain ⟨scope, hversion, hshare, rfl | rfl⟩ := constrained?_eq_some.1 h
  -- on one of the two sides the search goes past the version
  all_goals
    have hscope := Predicate.isShare_of_runtimeVersion? hversion
    simp [exchanged, withPercent?, withPercentAmong?, hscope, hshare]

end Node

/-! ## Exchanging in an entry -/

namespace Entry

/-- An entry whose logic is exchanged, if it is chosen. -/
def exchangedIf (chosen : Bool) (entry : Entry) : Entry :=
  if chosen then { entry with logic := entry.logic.exchanged } else entry

variable (chosen : Bool) (entry : Entry)

theorem exchangedIf_exchangedIf : (entry.exchangedIf chosen).exchangedIf chosen = entry := by
  cases chosen with
  | false => rfl
  | true => simp [exchangedIf, Node.exchanged_exchanged]

theorem branchId_exchangedIf : (entry.exchangedIf chosen).branchId = entry.branchId := by
  cases chosen <;> rfl

/-- An entry is recognised the same, whether its nodes are exchanged or not. -/
theorem constrained?_exchangedIf :
    (entry.exchangedIf chosen).logic.constrained? = entry.logic.constrained? := by
  cases chosen with
  | false => rfl
  | true => exact Node.constrained?_exchanged entry.logic

theorem isFallback_exchangedIf : (entry.exchangedIf chosen).isFallback = entry.isFallback := by
  cases chosen with
  | false => rfl
  | true => exact Node.isAlwaysTrue_exchanged entry.logic

theorem targets_exchangedIf (version : String) :
    (entry.exchangedIf chosen).targets version = entry.targets version := by
  rw [Bool.eq_iff_iff, targets_iff, targets_iff, constrained?_exchangedIf]

theorem line?_exchangedIf : (entry.exchangedIf chosen).line? = entry.line? := by
  rw [line?, line?, constrained?_exchangedIf, branchId_exchangedIf]

variable {entry}

/-- An entry that is no conjunction of two nodes is not affected. -/
theorem exchangedIf_eq_self (h : ∀ first second, entry.logic ≠ .all [first, second]) :
    entry.exchangedIf chosen = entry := by
  cases chosen with
  | false => rfl
  | true => simp [exchangedIf, Node.exchanged_eq_self h]

/-- A fallback is not affected. -/
theorem exchangedIf_of_isFallback (h : entry.isFallback = true) :
    entry.exchangedIf chosen = entry := by
  apply exchangedIf_eq_self
  intro first second hlogic
  have halways : entry.logic = .alwaysTrue := Node.isAlwaysTrue_iff.1 h
  exact absurd (halways.symm.trans hlogic) (by simp)

/-- In a rollout for a version the share is set, wherever it stands. -/
theorem withPercent?_exchangedIf {version : String} (h : entry.targets version = true)
    (percent : Percent) : (entry.exchangedIf chosen).withPercent? percent =
      (entry.withPercent? percent).map (exchangedIf chosen) := by
  cases chosen with
  | false => exact Option.map_id'.symm
  | true =>
    obtain ⟨share, hfound⟩ := targets_iff.1 h
    have hset := Node.withPercent?_exchanged hfound percent
    simp only [withPercent?, exchangedIf, if_true, hset, Option.map_eq_map, Option.map_map]
    rfl

end Entry

/-! ## Exchanging in lists of entries -/

/-- Entries with the conjunctions at chosen positions the other way round. -/
def exchangeAt (chosen : Nat → Bool) : List Entry → List Entry
  | [] => []
  | entry :: rest =>
    entry.exchangedIf (chosen 0) :: exchangeAt (fun position => chosen (position + 1)) rest

/-- The choice that was made before an entry came in front, which is not chosen itself. -/
def behindFirst (chosen : Nat → Bool) : Nat → Bool
  | 0 => false
  | position + 1 => chosen position

section exchangeAt

variable (chosen : Nat → Bool) (entries : List Entry)

/-- Exchanging twice in the same places changes nothing. -/
theorem exchangeAt_exchangeAt : exchangeAt chosen (exchangeAt chosen entries) = entries := by
  induction entries generalizing chosen with
  | nil => rfl
  | cons entry rest ih => rw [exchangeAt, exchangeAt, Entry.exchangedIf_exchangedIf, ih]

/-- What does not depend on the order inside an entry is the same at every position. -/
theorem map_exchangeAt {α : Type} {f : Entry → α}
    (hf : ∀ chosen entry, f (Entry.exchangedIf chosen entry) = f entry) :
    (exchangeAt chosen entries).map f = entries.map f := by
  induction entries generalizing chosen with
  | nil => rfl
  | cons entry rest ih => rw [exchangeAt, List.map_cons, List.map_cons, hf, ih]

/-- The ledger of entries does not tell where the share stood. -/
theorem ledgerOf_exchangeAt : ledgerOf (exchangeAt chosen entries) = ledgerOf entries := by
  have hlines : ∀ entries : List Entry,
      ledgerOf entries = (entries.map Entry.line?).filterMap id := by
    intro entries
    rw [List.filterMap_map]
    rfl
  rw [hlines, hlines, map_exchangeAt chosen entries Entry.line?_exchangedIf]

theorem any_targets_exchangeAt (version : String) :
    (exchangeAt chosen entries).any (Entry.targets version) =
      entries.any (Entry.targets version) := by
  rw [Bool.eq_iff_iff, any_targets_iff, any_targets_iff, ledgerOf_exchangeAt]

theorem endsInFallback_exchangeAt :
    (exchangeAt chosen entries).getLast?.any Entry.isFallback =
      entries.getLast?.any Entry.isFallback := by
  have hlast : ∀ entries : List Entry, entries.getLast?.any Entry.isFallback =
      (entries.map Entry.isFallback).getLast?.any id := by
    intro entries
    rw [List.getLast?_map, Option.any_map]
    rfl
  rw [hlast, hlast, map_exchangeAt chosen entries Entry.isFallback_exchangedIf]

/-- The first fallback is found where it was, as it was. -/
theorem find?_isFallback_exchangeAt :
    (exchangeAt chosen entries).find? Entry.isFallback = entries.find? Entry.isFallback := by
  induction entries generalizing chosen with
  | nil => rfl
  | cons entry rest ih =>
    rw [exchangeAt, List.find?_cons, List.find?_cons, Entry.isFallback_exchangedIf, ih]
    cases hcatch : entry.isFallback with
    | false => rfl
    | true => rw [Entry.exchangedIf_of_isFallback (chosen 0) hcatch]

/-- Setting a percentage by its version sets it at the same position. -/
theorem withPercentFor?_exchangeAt (version : String) (percent : Percent) :
    withPercentFor? version percent (exchangeAt chosen entries) =
      (withPercentFor? version percent entries).map (exchangeAt chosen) := by
  induction entries generalizing chosen with
  | nil => rfl
  | cons entry rest ih =>
    rw [exchangeAt, withPercentFor?, withPercentFor?, Entry.targets_exchangedIf, ih]
    cases ht : entry.targets version with
    | true =>
      rw [if_pos rfl, if_pos rfl, Entry.withPercent?_exchangedIf (chosen 0) ht]
      simp only [Option.map_eq_map, Option.map_map]
      rfl
    | false =>
      simp only [Bool.false_eq_true, if_false, Option.map_eq_map, Option.map_map]
      rfl

/-- The first entry for a version stands at the same position. -/
theorem findIdx_targets_exchangeAt (version : String) :
    (exchangeAt chosen entries).findIdx (Entry.targets version) =
      entries.findIdx (Entry.targets version) := by
  induction entries generalizing chosen with
  | nil => rfl
  | cons entry rest ih =>
    rw [exchangeAt, List.findIdx_cons, List.findIdx_cons, Entry.targets_exchangedIf, ih]

end exchangeAt

namespace Mapping

/-- A mapping with the conjunctions at chosen positions the other way round. A chosen entry that is
no conjunction of two nodes is as it was. -/
def exchange (chosen : Nat → Bool) (m : Mapping) : Mapping :=
  { m with entries := exchangeAt chosen m.entries }

variable (chosen : Nat → Bool) (m : Mapping)

theorem exchange_exchange : (m.exchange chosen).exchange chosen = m := by
  rw [exchange, exchange, exchangeAt_exchangeAt]

/-! ## What is recognised and reported -/

theorem hasRolloutFor_exchange (version : String) :
    (m.exchange chosen).hasRolloutFor version = m.hasRolloutFor version := by
  rw [hasRolloutFor, hasRolloutFor, endsInFallback, endsInFallback, exchange,
    endsInFallback_exchangeAt, any_targets_exchangeAt]

theorem fallback?_exchange : (m.exchange chosen).fallback? = m.fallback? :=
  find?_isFallback_exchangeAt chosen m.entries

theorem ledger_exchange : (m.exchange chosen).ledger = m.ledger :=
  ledgerOf_exchangeAt chosen m.entries

variable {m}

/-- An unconstrained rollout has no conjunctions. -/
theorem exchange_of_unconstrained? {found : Entry × Predicate × Entry}
    (h : m.unconstrained? = some found) : m.exchange chosen = m := by
  obtain ⟨first, share, fallback⟩ := found
  obtain ⟨hentries, hlogic, -, hlast⟩ := unconstrained?_eq_some.1 h
  have hfirst : first.exchangedIf (chosen 0) = first := by
    apply Entry.exchangedIf_eq_self
    intro left right hconjunction
    exact absurd (hlogic.symm.trans hconjunction) (by simp)
  obtain ⟨version, entries⟩ := m
  obtain rfl : entries = [first, fallback] := hentries
  rw [exchange, exchangeAt, exchangeAt, exchangeAt, hfirst,
    Entry.exchangedIf_of_isFallback _ hlast]

variable (m)

/-- An unconstrained rollout has no `and`, so nothing is exchanged in it, and nothing else turns
into one. -/
theorem unconstrained?_exchange : (m.exchange chosen).unconstrained? = m.unconstrained? := by
  apply Option.ext
  intro found
  constructor
  · intro h
    -- the mapping is what comes of exchanging back
    have hback := exchange_of_unconstrained? chosen h
    rw [exchange_exchange] at hback
    rw [hback]
    exact h
  · intro h
    rw [exchange_of_unconstrained? chosen h]
    exact h

theorem isUnconstrained_exchange :
    (m.exchange chosen).isUnconstrained = m.isUnconstrained := by
  rw [isUnconstrained, isUnconstrained, unconstrained?_exchange]

theorem isRollout_exchange : (m.exchange chosen).isRollout = m.isRollout := by
  rw [Bool.eq_iff_iff, isRollout_iff, isRollout_iff, isUnconstrained_exchange, fallback?_exchange,
    ledger_exchange]

/-- The same records are read, or none. -/
theorem rolloutInfo_exchange :
    (m.exchange chosen).rolloutInfo.toOption = m.rolloutInfo.toOption := by
  rw [rolloutInfo, rolloutInfo, unconstrained?_exchange, fallback?_exchange, isRollout_exchange]
  cases m.unconstrained? with
  | some found => rfl
  | none =>
    cases m.fallback? with
    | none => rfl
    | some fallback =>
      cases m.isRollout with
      | false => rfl
      | true =>
        show (RolloutInfo.constrained <$> recordsOf _ (exchangeAt chosen m.entries)).toOption = _
        rw [recordsOf_eq, ledgerOf_exchangeAt, ← recordsOf_eq]
        rfl

/-- A version is concerned if the records can be read, and are those of an unconstrained rollout or
hold one for the version. -/
theorem targets_eq_any (version : String) :
    m.targets version = m.rolloutInfo.toOption.any fun info =>
      !info.isConstrained || (info.recordFor? version).isSome := by
  rw [targets]
  cases m.rolloutInfo with
  | error _ => rfl
  | ok info => cases info <;> rfl

theorem targets_exchange (version : String) :
    (m.exchange chosen).targets version = m.targets version := by
  rw [targets_eq_any, targets_eq_any, rolloutInfo_exchange]

/-! ## Edits -/

/-- Setting the percentage of a version and exchanging can be done in either order. -/
theorem setPercentFor_exchange (version : String) (percent : Percent) :
    ((m.exchange chosen).setPercentFor version percent).toOption =
      (m.setPercentFor version percent).toOption.map (exchange chosen) := by
  rw [setPercentFor, setPercentFor, hasRolloutFor_exchange]
  cases m.hasRolloutFor version with
  | false => rfl
  | true =>
    rw [exchange, withPercentFor?_exchangeAt]
    cases withPercentFor? version percent m.entries <;> rfl

/-- So can setting the percentage of an unconstrained rollout. -/
theorem setPercent_exchange (percent : Percent) :
    ((m.exchange chosen).setPercent percent).toOption =
      (m.setPercent percent).toOption.map (exchange chosen) := by
  cases hu : m.unconstrained? with
  | none =>
    have hu' := (unconstrained?_exchange chosen m).trans hu
    rw [setPercent, setPercent, isUnconstrained, isUnconstrained, hu, hu']
    rfl
  | some found =>
    obtain ⟨first, share, fallback⟩ := found
    -- neither the rollout nor what is left of it has a conjunction
    have hset := setPercent_of_unconstrained? hu percent
    have hleft := exchange_of_unconstrained? chosen (unconstrained?_setShare hu percent)
    rw [exchange_of_unconstrained? chosen hu, hset]
    exact congrArg some hleft.symm

/-- An inserted entry is not exchanged; the others are, one position further. -/
theorem insertRollout_exchange (branchId : String) (percent : Percent) (version : String) :
    ((m.exchange chosen).insertRollout branchId percent version).toOption =
      (m.insertRollout branchId percent version).toOption.map (exchange (behindFirst chosen)) := by
  have hends : (m.exchange chosen).endsInFallback = m.endsInFallback :=
    endsInFallback_exchangeAt chosen m.entries
  cases hm : m.endsInFallback with
  | false =>
    rw [insertRollout_of_not_endsInFallback hm,
      insertRollout_of_not_endsInFallback (hends.trans hm)]
    rfl
  | true =>
    rw [insertRollout_eq hm, insertRollout_eq (hends.trans hm)]
    rfl

/-- Ending a rollout goes the same way, and leaves no conjunction behind. -/
theorem endRollout_exchange (outcome : Outcome) :
    ((m.exchange chosen).endRollout outcome).toOption = (m.endRollout outcome).toOption := by
  rw [endRollout, endRollout, unconstrained?_exchange]
  cases m.unconstrained? <;> rfl

/-- The first entry for a version is dropped, at the position where it stands. -/
theorem removeRollout_eq_eraseIdx {m : Mapping} {version : String}
    (h : m.hasRolloutFor version = true) :
    m.entries.findIdx (Entry.targets version) < m.entries.length ∧
      m.removeRollout version = .ok { m with
        entries := m.entries.eraseIdx (m.entries.findIdx (Entry.targets version)) } := by
  have hany : ∃ entry ∈ m.entries, entry.targets version = true := by
    rw [hasRolloutFor, Bool.and_eq_true] at h
    exact List.any_eq_true.1 h.2
  refine ⟨List.findIdx_lt_length_of_exists hany, ?_⟩
  rw [removeRollout, if_pos h, List.eraseP_eq_eraseIdx, List.findIdx?_eq_some_of_exists hany]

/-- An entry is dropped at the same position, or the version is missing in both. -/
theorem removeRollout_exchange (version : String) :
    (m.removeRollout version = .error (.noMatchingRollout version) ∧
      (m.exchange chosen).removeRollout version = .error (.noMatchingRollout version)) ∨
    ∃ position < m.entries.length,
      m.removeRollout version = .ok { m with entries := m.entries.eraseIdx position } ∧
      (m.exchange chosen).removeRollout version = .ok { m.exchange chosen with
        entries := (m.exchange chosen).entries.eraseIdx position } := by
  have hfound := hasRolloutFor_exchange chosen m version
  cases h : m.hasRolloutFor version with
  | false =>
    left
    rw [removeRollout, removeRollout, hfound, h]
    exact ⟨rfl, rfl⟩
  | true =>
    right
    obtain ⟨hposition, hremove⟩ := removeRollout_eq_eraseIdx h
    obtain ⟨-, hremove'⟩ := removeRollout_eq_eraseIdx (hfound.trans h)
    have hsame : (m.exchange chosen).entries.findIdx (Entry.targets version) =
        m.entries.findIdx (Entry.targets version) :=
      findIdx_targets_exchangeAt chosen m.entries version
    rw [hsame] at hremove'
    exact ⟨_, hposition, hremove, hremove'⟩

/-- **The order inside a conjunction never matters.** Whichever conjunctions of two nodes a mapping
has the other way round, it is recognised as the same, it concerns the same versions, and the same
records are read from it or none. An edit succeeds for both mappings or for neither. What a change
or an insertion leaves of the one is what it leaves of the other, with the same entries exchanged,
and a removal drops the entry at the same position. -/
theorem conjunct_order_irrelevant (m : Mapping) (chosen : Nat → Bool) :
    (m.exchange chosen).isRollout = m.isRollout ∧
    (m.exchange chosen).isUnconstrained = m.isUnconstrained ∧
    (∀ version, (m.exchange chosen).hasRolloutFor version = m.hasRolloutFor version ∧
      (m.exchange chosen).targets version = m.targets version) ∧
    (m.exchange chosen).rolloutInfo.toOption = m.rolloutInfo.toOption ∧
    (∀ version percent, ((m.exchange chosen).setPercentFor version percent).toOption =
      (m.setPercentFor version percent).toOption.map (exchange chosen)) ∧
    (∀ branchId percent version,
      ((m.exchange chosen).insertRollout branchId percent version).toOption =
        (m.insertRollout branchId percent version).toOption.map (exchange (behindFirst chosen))) ∧
    (∀ percent, ((m.exchange chosen).setPercent percent).toOption =
      (m.setPercent percent).toOption.map (exchange chosen)) ∧
    (∀ outcome, ((m.exchange chosen).endRollout outcome).toOption =
      (m.endRollout outcome).toOption) ∧
    ∀ version,
      (m.removeRollout version = .error (.noMatchingRollout version) ∧
        (m.exchange chosen).removeRollout version = .error (.noMatchingRollout version)) ∨
      ∃ position < m.entries.length,
        m.removeRollout version = .ok { m with entries := m.entries.eraseIdx position } ∧
        (m.exchange chosen).removeRollout version = .ok { m.exchange chosen with
          entries := (m.exchange chosen).entries.eraseIdx position } := by
  refine ⟨isRollout_exchange chosen m, isUnconstrained_exchange chosen m, ?_,
    rolloutInfo_exchange chosen m, setPercentFor_exchange chosen m, insertRollout_exchange chosen m,
    setPercent_exchange chosen m, endRollout_exchange chosen m, removeRollout_exchange chosen m⟩
  intro version
  exact ⟨hasRolloutFor_exchange chosen m version, targets_exchange chosen m version⟩

/-- An inserted rollout the other way round; the fallback behind it is chosen in vain. -/
example :
    (current [⟨"B2", .constrained "1.0" .full⟩, ⟨"B1", .alwaysTrue⟩]).exchange (fun _ => true) =
      current [⟨"B2", .all [.share .full, .predicate (.version "1.0")]⟩, ⟨"B1", .alwaysTrue⟩] := rfl

end Mapping

end StagedRollout
