/-
# StagedRollout.Proofs.Rollout.Ledger -- edits of a mapping as edits of a list of records

What a mapping says about constrained rollouts is a list: for each entry that is one, its branch,
its runtime version and the percentage of its share. This **ledger** of a mapping is read off its
entries in order, and every edit acts on it in a way that needs no look at the nodes: inserting
adds a line in front, setting a percentage changes the first line of a version, removing drops
it, and a change of an unconstrained rollout leaves the ledger alone. `run_follows_ledger` says so
of every series of edits, from every mapping that ends in a fallback.
-/
import StagedRollout.Proofs.Rollout.Recognition

namespace StagedRollout

/- The stored fraction is a quotient of large numbers, which nothing here looks into. -/
attribute [local irreducible] Percent.fraction Percent.ofFraction

/-! ## The ledger of a mapping -/

/-- What an entry says as a constrained rollout. -/
structure LedgerLine where
  branchId : String
  runtimeVersion : String
  percent : Percent
deriving DecidableEq

/-- The record of a line, once the default branch is known. -/
def LedgerLine.record (line : LedgerLine) (defaultBranchId : String) : ConstrainedRecord :=
  { rolledOutBranchId := line.branchId, percent := line.percent, defaultBranchId,
    runtimeVersion := line.runtimeVersion }

namespace Entry

/-- The line of an entry; an entry that is no constrained rollout has none. -/
def line? (entry : Entry) : Option LedgerLine := do
  let (runtimeVersion, share) ← entry.logic.constrained?
  let percent ← share.percent.toOption
  return { branchId := entry.branchId, runtimeVersion, percent }

end Entry

/-- The lines of entries in their order. -/
def ledgerOf (entries : List Entry) : List LedgerLine := entries.filterMap Entry.line?

/-- The lines of a mapping in the order of its entries. -/
def Mapping.ledger (m : Mapping) : List LedgerLine := ledgerOf m.entries

/-- Lines with the percentage of the first one for a runtime version changed. -/
def setFirst (runtimeVersion : String) (percent : Percent) : List LedgerLine → List LedgerLine
  | [] => []
  | line :: rest =>
    if line.runtimeVersion = runtimeVersion then { line with percent } :: rest
    else line :: setFirst runtimeVersion percent rest

/-- What an edit does to a ledger. An edit that finds no line changes nothing. -/
def ledgerStep (lines : List LedgerLine) : Edit → List LedgerLine
  | .insert branchId percent runtimeVersion => ⟨branchId, runtimeVersion, percent⟩ :: lines
  | .setPercentFor runtimeVersion percent => setFirst runtimeVersion percent lines
  | .remove runtimeVersion => lines.eraseP (·.runtimeVersion = runtimeVersion)
  | .setPercent _ => lines
  | .finish _ => lines

/-! ## Lines of entries -/

namespace Entry

/-- Every constrained rollout has a line: its share is a fraction, and fractions have
percentages. -/
theorem line?_of_constrained {entry : Entry} {version : String} {share : Predicate}
    (h : entry.logic.constrained? = some (version, share)) :
    ∃ percent, share.percent = .ok percent ∧
      entry.line? = some ⟨entry.branchId, version, percent⟩ := by
  obtain ⟨_, -, hs, -⟩ := Node.constrained?_eq_some.1 h
  obtain ⟨percent, hp⟩ := Predicate.exists_percent hs
  exact ⟨percent, hp, by simp [line?, h, hp, Except.toOption]⟩

theorem line?_of_unconstrained {entry : Entry} (h : entry.logic.constrained? = none) :
    entry.line? = none := by
  simp [line?, h]

theorem targets_iff {entry : Entry} {version : String} :
    entry.targets version = true ↔ ∃ share, entry.logic.constrained? = some (version, share) := by
  rw [targets, decide_eq_true_iff, runtimeVersion?, Node.runtimeVersion?, Option.map_eq_some_iff]
  simp

/-- The constrained rollouts are the entries that have a line. -/
theorem isConstrained_eq_isSome (entry : Entry) :
    entry.logic.isConstrained = entry.line?.isSome := by
  cases hc : entry.logic.constrained? with
  | none => rw [Node.isConstrained, hc, line?_of_unconstrained hc]; rfl
  | some found =>
    obtain ⟨percent, -, hline⟩ := line?_of_constrained hc
    rw [Node.isConstrained, hc, hline]
    rfl

/-- An entry is a rollout for the version that its line names. -/
theorem targets_eq_any {entry : Entry} {version : String} :
    entry.targets version = entry.line?.any (·.runtimeVersion = version) := by
  cases hc : entry.logic.constrained? with
  | none => simp [targets, runtimeVersion?, Node.runtimeVersion?, hc, line?_of_unconstrained hc]
  | some found =>
    obtain ⟨percent, -, hline⟩ := line?_of_constrained hc
    simp [targets, runtimeVersion?, Node.runtimeVersion?, hc, hline]

/-- Setting the percentage of an entry that is a share predicate. -/
theorem withPercent?_of_isShare {entry : Entry} {share : Predicate}
    (hlogic : entry.logic = .predicate share) (hshare : share.isShare = true)
    (percent : Percent) :
    entry.withPercent? percent =
      some { entry with logic := .predicate (share.setShare percent) } := by
  simp [withPercent?, hlogic, Node.withPercent?, hshare]

/-- Setting the percentage of an entry that is a conjunction, at its first share. -/
theorem withPercent?_of_split {entry : Entry} {front behind : List Node} {share : Predicate}
    (hlogic : entry.logic = .all (front ++ .predicate share :: behind))
    (hfront : ∀ node ∈ front, node.isShare = false) (hshare : share.isShare = true)
    (percent : Percent) :
    entry.withPercent? percent = some { entry with
      logic := .all (front ++ .predicate (share.setShare percent) :: behind) } := by
  have hset : entry.logic.withPercent? percent =
      some (.all (front ++ .predicate (share.setShare percent) :: behind)) :=
    Node.withPercent?_eq_some.2 (.inr ⟨front, share, behind, hlogic, hfront, hshare, rfl⟩)
  rw [withPercent?, hset]
  rfl

/-- An entry that is a rollout for a version catches some clients only. -/
theorem isFallback_of_targets {entry : Entry} {version : String}
    (h : entry.targets version = true) : entry.isFallback = false := by
  obtain ⟨_, hc⟩ := targets_iff.1 h
  exact Node.isAlwaysTrue_of_constrained hc

/-- Setting the percentage of a rollout entry sets it in its line. -/
theorem withPercent?_of_targets {entry : Entry} {version : String}
    (h : entry.targets version = true) (percent : Percent) :
    ∃ changed line, entry.withPercent? percent = some changed ∧ entry.line? = some line ∧
      line.runtimeVersion = version ∧ changed.line? = some { line with percent } ∧
      changed.isFallback = false := by
  obtain ⟨share, hc⟩ := targets_iff.1 h
  obtain ⟨logic, hset, hlogic⟩ := Node.withPercent?_of_constrained hc percent
  obtain ⟨old, -, hline⟩ := line?_of_constrained hc
  refine ⟨{ entry with logic }, _, ?_, hline, rfl, ?_, Node.isAlwaysTrue_of_constrained hlogic⟩
  · simp [withPercent?, hset]
  · have hlogic : ({ entry with logic } : Entry).logic.constrained? = _ := hlogic
    obtain ⟨now, hnow, hchanged⟩ := line?_of_constrained hlogic
    rw [Predicate.percent_setShare, Except.ok.injEq] at hnow
    rw [hchanged, hnow]

end Entry

/-! ## Lines of lists of entries -/

theorem ledgerOf_cons (entry : Entry) (entries : List Entry) :
    ledgerOf (entry :: entries) = entry.line?.toList ++ ledgerOf entries := by
  cases h : entry.line? <;> simp [ledgerOf, h]

/-- The entries hold a rollout for a version exactly when their lines do. -/
theorem any_targets_iff {entries : List Entry} {version : String} :
    entries.any (Entry.targets version) = true ↔
      ∃ line ∈ ledgerOf entries, line.runtimeVersion = version := by
  simp only [List.any_eq_true, ledgerOf, List.mem_filterMap, Entry.targets_eq_any,
    Option.any_eq_true, decide_eq_true_eq]
  constructor
  · rintro ⟨entry, hmem, line, hline, hversion⟩
    exact ⟨line, ⟨entry, hmem, hline⟩, hversion⟩
  · rintro ⟨line, ⟨entry, hmem, hline⟩, hversion⟩
    exact ⟨entry, hmem, line, hline, hversion⟩

/-- Entries have lines when one of them is a constrained rollout. -/
theorem any_isConstrained_iff {entries : List Entry} :
    (entries.any fun entry => entry.logic.isConstrained) = true ↔ ledgerOf entries ≠ [] := by
  simp only [List.any_eq_true, Entry.isConstrained_eq_isSome, Option.isSome_iff_exists]
  constructor
  · rintro ⟨entry, hmem, line, hline⟩
    exact List.ne_nil_of_mem (List.mem_filterMap.2 ⟨entry, hmem, hline⟩)
  · intro h
    obtain ⟨line, hmem⟩ := List.exists_mem_of_ne_nil _ h
    obtain ⟨entry, hentry, hline⟩ := List.mem_filterMap.1 hmem
    exact ⟨entry, hentry, line, hline⟩

/-- Removing the first rollout for a version removes its first line. -/
theorem ledgerOf_eraseP (entries : List Entry) (version : String) :
    ledgerOf (entries.eraseP (Entry.targets version)) =
      (ledgerOf entries).eraseP (·.runtimeVersion = version) := by
  induction entries with
  | nil => rfl
  | cons entry entries ih =>
    rw [List.eraseP_cons, ledgerOf_cons, Entry.targets_eq_any]
    cases hline : entry.line? with
    -- an entry without a line is a rollout for no version, and stays
    | none => simp [ledgerOf_cons, hline, ih]
    | some line =>
      by_cases hv : line.runtimeVersion = version <;>
        simp [ledgerOf_cons, hline, hv, ih]

/-- The last of several entries is the last of those behind the first. -/
theorem endsInFallback_cons {entry : Entry} {entries : List Entry} :
    (entry :: entries).getLast?.any Entry.isFallback = true ↔
      (entries = [] ∧ entry.isFallback = true) ∨
        entries.getLast?.any Entry.isFallback = true := by
  cases entries with
  | nil => simp
  | cons next rest => rw [List.getLast?_cons_cons]; simp

/-- Removing a rollout leaves the fallback at the end. -/
theorem endsInFallback_eraseP {entries : List Entry} {version : String}
    (h : entries.getLast?.any Entry.isFallback = true) :
    (entries.eraseP (Entry.targets version)).getLast?.any Entry.isFallback = true := by
  induction entries with
  | nil => exact h
  | cons entry entries ih =>
    rw [List.eraseP_cons]
    -- a fallback is no rollout, so the last entry is never the one that goes
    rcases endsInFallback_cons.1 h with ⟨rfl, hlast⟩ | hrest
    · cases ht : entry.targets version with
      | true => rw [Entry.isFallback_of_targets ht] at hlast; exact absurd hlast (by simp)
      | false => simpa using hlast
    · cases entry.targets version with
      | true => exact hrest
      | false => exact endsInFallback_cons.2 (.inr (ih hrest))

/-- Setting a percentage by its version finds the first line of that version, and leaves the
fallback at the end. -/
theorem withPercentFor?_of_any {entries : List Entry} {version : String}
    (h : entries.any (Entry.targets version) = true) (percent : Percent) :
    ∃ changed, withPercentFor? version percent entries = some changed ∧
      ledgerOf changed = setFirst version percent (ledgerOf entries) ∧
      (entries.getLast?.any Entry.isFallback = true →
        changed.getLast?.any Entry.isFallback = true) := by
  induction entries with
  | nil => exact absurd h (by simp)
  | cons entry entries ih =>
    -- the search stops at the first rollout for the version, and so does the change of the lines
    cases ht : entry.targets version with
    | true =>
      obtain ⟨changed, line, hset, hline, hversion, hnew, hcatch⟩ :=
        Entry.withPercent?_of_targets ht percent
      refine ⟨changed :: entries, by simp [withPercentFor?, ht, hset], ?_, fun hlast => ?_⟩
      · simp [ledgerOf_cons, hnew, hline, setFirst, hversion]
      · rcases endsInFallback_cons.1 hlast with ⟨-, hcaught⟩ | hrest
        · rw [Entry.isFallback_of_targets ht] at hcaught
          exact absurd hcaught (by simp)
        · exact endsInFallback_cons.2 (.inr hrest)
    | false =>
      rw [List.any_cons, ht, Bool.false_or] at h
      obtain ⟨changed, hset, hledger, hlast⟩ := ih h
      refine ⟨entry :: changed, by simp [withPercentFor?, ht, hset], ?_, fun hends => ?_⟩
      · rw [ledgerOf_cons, ledgerOf_cons, hledger]
        cases hline : entry.line? with
        | none => rfl
        | some line =>
          have hother : line.runtimeVersion ≠ version := by
            simpa [Entry.targets_eq_any, hline] using ht
          simp [setFirst, hother]
      · rcases endsInFallback_cons.1 hends with ⟨rfl, -⟩ | hrest
        · exact absurd h (by simp)
        · exact endsInFallback_cons.2 (.inr (hlast hrest))

/-- The records that are read off a mapping are those of its ledger. -/
theorem recordsOf_eq (defaultBranchId : String) (entries : List Entry) :
    recordsOf defaultBranchId entries =
      .ok ((ledgerOf entries).map (·.record defaultBranchId)) := by
  induction entries with
  | nil => rfl
  | cons entry entries ih =>
    rw [recordsOf, ledgerOf_cons, Entry.record?]
    cases hc : entry.logic.constrained? with
    | none => simp [Entry.line?_of_unconstrained hc, ih]
    | some found =>
      obtain ⟨percent, hp, hline⟩ := Entry.line?_of_constrained hc
      simp only [Option.map_some, hp, hline, ih]
      rfl

/-! ## One edit -/

namespace Mapping

theorem hasRolloutFor_iff {m : Mapping} (hm : m.endsInFallback = true) (version : String) :
    m.hasRolloutFor version = true ↔ ∃ line ∈ m.ledger, line.runtimeVersion = version := by
  rw [hasRolloutFor, hm, Bool.true_and]
  exact any_targets_iff

theorem insertRollout_eq {m : Mapping} (hm : m.endsInFallback = true) (branchId : String)
    (percent : Percent) (version : String) :
    m.insertRollout branchId percent version =
      .ok { m with entries := ⟨branchId, .constrained version percent⟩ :: m.entries } := by
  have hends : ({ m with entries := ⟨branchId, .constrained version percent⟩ :: m.entries } :
      Mapping).endsInFallback = true := endsInFallback_cons.2 (.inr hm)
  refine if_pos ?_
  rw [hasRolloutFor, hends, Bool.true_and, List.any_cons,
    Entry.targets_iff.2 ⟨_, Node.constrained?_constrained version percent⟩, Bool.true_or]

theorem ledger_inserted (m : Mapping) (branchId : String) (percent : Percent)
    (version : String) :
    ({ m with entries := ⟨branchId, .constrained version percent⟩ :: m.entries } :
      Mapping).ledger = ⟨branchId, version, percent⟩ :: m.ledger := by
  have hlogic : (⟨branchId, .constrained version percent⟩ : Entry).logic.constrained? = _ :=
    Node.constrained?_constrained version percent
  -- the line says the percentage that is read back from the stored fraction
  obtain ⟨read, hread, hline⟩ := Entry.line?_of_constrained hlogic
  rw [Predicate.share, Predicate.percent_of_number rfl, Percent.ofFraction_fraction,
    Except.ok.injEq] at hread
  rw [ledger, ledgerOf_cons, hline, hread]
  rfl

/-- Setting a percentage by its version succeeds where the ledger holds the version. -/
theorem setPercentFor_of_mem {m : Mapping} (hm : m.endsInFallback = true) {version : String}
    (h : ∃ line ∈ m.ledger, line.runtimeVersion = version) (percent : Percent) :
    ∃ changed, m.setPercentFor version percent = .ok changed ∧
      changed.endsInFallback = true ∧ changed.ledger = setFirst version percent m.ledger := by
  obtain ⟨entries, hset, hledger, hlast⟩ :=
    withPercentFor?_of_any (any_targets_iff.2 h) percent
  refine ⟨{ m with entries }, ?_, hlast hm, hledger⟩
  rw [setPercentFor, if_pos ((hasRolloutFor_iff hm version).2 h), hset]

theorem setPercentFor_of_not_mem {m : Mapping} (hm : m.endsInFallback = true)
    {version : String} (h : ¬∃ line ∈ m.ledger, line.runtimeVersion = version)
    (percent : Percent) : m.setPercentFor version percent = .error (.noMatchingRollout version) :=
  if_neg (mt (hasRolloutFor_iff hm version).1 h)

/-- Removing succeeds where the ledger holds the version. -/
theorem removeRollout_of_mem {m : Mapping} (hm : m.endsInFallback = true) {version : String}
    (h : ∃ line ∈ m.ledger, line.runtimeVersion = version) :
    ∃ left, m.removeRollout version = .ok left ∧ left.endsInFallback = true ∧
      left.ledger = m.ledger.eraseP (·.runtimeVersion = version) :=
  ⟨_, if_pos ((hasRolloutFor_iff hm version).2 h), endsInFallback_eraseP hm,
    ledgerOf_eraseP m.entries version⟩

theorem removeRollout_of_not_mem {m : Mapping} (hm : m.endsInFallback = true)
    {version : String} (h : ¬∃ line ∈ m.ledger, line.runtimeVersion = version) :
    m.removeRollout version = .error (.noMatchingRollout version) :=
  if_neg (mt (hasRolloutFor_iff hm version).1 h)

/-- An unconstrained rollout has no lines: its share stands alone. -/
theorem ledger_of_unconstrained? {m : Mapping} {found : Entry × Predicate × Entry}
    (h : m.unconstrained? = some found) : m.ledger = [] := by
  obtain ⟨first, share, fallback⟩ := found
  obtain ⟨hentries, hlogic, -, hlast⟩ := unconstrained?_eq_some.1 h
  have hfirst : first.line? = none :=
    Entry.line?_of_unconstrained (by rw [hlogic]; rfl)
  have hfallback : fallback.line? = none := by
    refine Entry.line?_of_unconstrained ?_
    cases hc : fallback.logic.constrained? with
    | none => rfl
    | some found =>
      rw [Entry.isFallback, Node.isAlwaysTrue_of_constrained hc] at hlast
      exact absurd hlast (by simp)
  simp [ledger, hentries, ledgerOf, hfirst, hfallback]

/-- The share of an unconstrained rollout can be set. -/
theorem setPercent_of_unconstrained? {m : Mapping} {first fallback : Entry} {share : Predicate}
    (h : m.unconstrained? = some (first, share, fallback)) (percent : Percent) :
    m.setPercent percent = .ok { m with entries :=
      [{ first with logic := .predicate (share.setShare percent) }, fallback] } := by
  obtain ⟨hentries, hlogic, hshare, -⟩ := unconstrained?_eq_some.1 h
  rw [setPercent, isUnconstrained, h, Option.isSome_some, if_pos rfl, hentries]
  simp only [Entry.withPercent?_of_isShare hlogic hshare]

/-- What is left when the share of an unconstrained rollout is set is another one. -/
theorem unconstrained?_setShare {m : Mapping} {first fallback : Entry} {share : Predicate}
    (h : m.unconstrained? = some (first, share, fallback)) (percent : Percent) :
    ({ m with entries :=
      [{ first with logic := .predicate (share.setShare percent) }, fallback] } :
      Mapping).unconstrained? =
      some ({ first with logic := .predicate (share.setShare percent) }, share.setShare percent,
        fallback) := by
  obtain ⟨-, -, hshare, hlast⟩ := unconstrained?_eq_some.1 h
  exact unconstrained?_eq_some.2 ⟨rfl, rfl, Predicate.isShare_setShare hshare percent, hlast⟩

/-- A change of an unconstrained rollout makes another one. -/
theorem unconstrained?_setPercent {m changed : Mapping} {percent : Percent}
    (h : m.setPercent percent = .ok changed) :
    ∃ first share fallback, m.unconstrained? = some (first, share, fallback) ∧
      changed = { m with entries :=
        [{ first with logic := .predicate (share.setShare percent) }, fallback] } := by
  cases hu : m.unconstrained? with
  | none =>
    rw [setPercent, isUnconstrained, hu] at h
    exact absurd h (by simp)
  | some found =>
    obtain ⟨first, share, fallback⟩ := found
    rw [setPercent_of_unconstrained? hu] at h
    exact ⟨first, share, fallback, rfl, (Except.ok.inj h).symm⟩

/-- A change of an unconstrained rollout leaves the empty ledger empty. -/
theorem setPercent_keeps {m changed : Mapping} {percent : Percent}
    (h : m.setPercent percent = .ok changed) :
    changed.endsInFallback = true ∧ changed.ledger = m.ledger := by
  obtain ⟨first, share, fallback, hu, rfl⟩ := unconstrained?_setPercent h
  obtain ⟨-, -, -, hlast⟩ := unconstrained?_eq_some.1 hu
  have hchanged := unconstrained?_setShare hu percent
  exact ⟨hlast, (ledger_of_unconstrained? hchanged).trans (ledger_of_unconstrained? hu).symm⟩

/-- An unconstrained rollout has one fallback, its second entry. -/
theorem fallback?_of_unconstrained? {m : Mapping} {first fallback : Entry} {share : Predicate}
    (h : m.unconstrained? = some (first, share, fallback)) : m.fallback? = some fallback := by
  obtain ⟨hentries, hlogic, -, hlast⟩ := unconstrained?_eq_some.1 h
  have hfirst : first.isFallback = false := by
    rw [Entry.isFallback, hlogic]
    rfl
  rw [fallback?, hentries, List.find?_cons, hfirst, List.find?_cons, hlast]

theorem isUnconstrained_iff {m : Mapping} :
    m.isUnconstrained = true ↔ ∃ found, m.unconstrained? = some found :=
  Option.isSome_iff_exists

theorem isUnconstrained_eq_false_iff {m : Mapping} :
    m.isUnconstrained = false ↔ m.unconstrained? = none := by
  rw [isUnconstrained, Option.isSome_eq_false_iff, Option.isNone_iff_eq_none]

theorem isUnconstrained_of_isRollout_eq_false {m : Mapping} (h : m.isRollout = false) :
    m.isUnconstrained = false := by
  rw [isRollout, Bool.or_eq_false_iff] at h
  exact h.1

/-- A rollout is an unconstrained one, or has a fallback and lines. -/
theorem isRollout_iff {m : Mapping} :
    m.isRollout = true ↔
      m.isUnconstrained = true ∨ (∃ fallback, m.fallback? = some fallback) ∧ m.ledger ≠ [] := by
  rw [isRollout, Bool.or_eq_true, Bool.and_eq_true, Option.isSome_iff_exists,
    any_isConstrained_iff]
  rfl

theorem rolloutInfo_of_unconstrained? {m : Mapping} {first fallback : Entry} {share : Predicate}
    (h : m.unconstrained? = some (first, share, fallback)) :
    ∃ percent, share.percent = .ok percent ∧
      m.rolloutInfo = .ok (.unconstrained ⟨first.branchId, percent, fallback.branchId⟩) := by
  obtain ⟨-, -, hshare, -⟩ := unconstrained?_eq_some.1 h
  obtain ⟨percent, hpercent⟩ := Predicate.exists_percent hshare
  refine ⟨percent, hpercent, ?_⟩
  unfold rolloutInfo
  rw [h]
  show (share.percent >>= fun percent => _) = _
  rw [hpercent]
  rfl

/-- **What reading the records of a mapping comes to.** An unconstrained rollout yields its one
record, a constrained one the records of its ledger, and nothing else can go wrong than that
the mapping is no rollout. -/
theorem rolloutInfo_cases (m : Mapping) :
    (∃ first share fallback percent, m.unconstrained? = some (first, share, fallback) ∧
        share.percent = .ok percent ∧
        m.rolloutInfo = .ok (.unconstrained ⟨first.branchId, percent, fallback.branchId⟩)) ∨
      (∃ fallback, m.unconstrained? = none ∧ m.fallback? = some fallback ∧ m.ledger ≠ [] ∧
        m.rolloutInfo = .ok (.constrained (m.ledger.map (·.record fallback.branchId)))) ∨
      m.isRollout = false ∧ m.rolloutInfo = .error (.notARollout m) := by
  cases hu : m.unconstrained? with
  | some found =>
    obtain ⟨first, share, fallback⟩ := found
    obtain ⟨percent, hpercent, hinfo⟩ := rolloutInfo_of_unconstrained? hu
    exact .inl ⟨first, share, fallback, percent, rfl, hpercent, hinfo⟩
  | none =>
    right
    unfold rolloutInfo
    rw [hu]
    cases hr : m.isRollout with
    | false =>
      right
      refine ⟨rfl, ?_⟩
      cases m.fallback? <;> rfl
    | true =>
      left
      rw [isRollout_iff, isUnconstrained, hu] at hr
      obtain hr | ⟨⟨fallback, hf⟩, hledger⟩ := hr
      · exact absurd hr (by simp)
      · refine ⟨fallback, rfl, hf, hledger, ?_⟩
        rw [hf]
        show RolloutInfo.constrained <$> recordsOf fallback.branchId m.entries = _
        rw [recordsOf_eq]
        rfl

/-- The last entry is a fallback, so there is a first one. -/
theorem exists_fallback? {m : Mapping} (hm : m.endsInFallback = true) :
    ∃ fallback, m.fallback? = some fallback := by
  obtain ⟨last, hlast, hcatch⟩ := (Option.any_eq_true _ _).1 hm
  exact Option.isSome_iff_exists.1
    (List.find?_isSome.2 ⟨last, List.mem_of_getLast? hlast, hcatch⟩)

/-- A mapping with a fallback and lines reports these as its records. -/
theorem rolloutInfo_of_fallback? {m : Mapping} {fallback : Entry}
    (hf : m.fallback? = some fallback) (h : m.ledger ≠ []) :
    m.rolloutInfo = .ok (.constrained (m.ledger.map (·.record fallback.branchId))) := by
  obtain ⟨_, _, _, _, hu, -⟩ | ⟨_, -, hfound, -, hinfo⟩ | ⟨hrollout, -⟩ := rolloutInfo_cases m
  -- a line rules out an unconstrained rollout
  · exact absurd (ledger_of_unconstrained? hu) h
  · obtain rfl := Option.some.inj (hf.symm.trans hfound)
    exact hinfo
  -- and with the fallback makes the mapping a rollout
  · rw [isRollout_iff.2 (.inr ⟨⟨fallback, hf⟩, h⟩)] at hrollout
    exact absurd hrollout (by simp)

theorem rolloutInfo_of_ledger {m : Mapping} (hm : m.endsInFallback = true)
    (h : m.ledger ≠ []) :
    ∃ fallback, m.fallback? = some fallback ∧
      m.rolloutInfo = .ok (.constrained (m.ledger.map (·.record fallback.branchId))) := by
  obtain ⟨fallback, hf⟩ := exists_fallback? hm
  exact ⟨fallback, hf, rolloutInfo_of_fallback? hf h⟩

/-- What the ledger of a mapping tells of it: the records that are reported, which edits apply,
and the ledger that each of them leaves. -/
structure FollowsLedger (m : Mapping) : Prop where
  endsInFallback : m.endsInFallback = true
  records : ∀ defaultBranchId, recordsOf defaultBranchId m.entries =
    .ok (m.ledger.map (·.record defaultBranchId))
  rolloutInfo : m.ledger ≠ [] → ∃ fallback, m.fallback? = some fallback ∧
    m.rolloutInfo = .ok (.constrained (m.ledger.map (·.record fallback.branchId)))
  insert : ∀ branchId percent version, ∃ inserted,
    m.insertRollout branchId percent version = .ok inserted ∧ inserted.endsInFallback = true ∧
      inserted.ledger = ⟨branchId, version, percent⟩ :: m.ledger
  setPercentFor_iff : ∀ version percent,
    (∃ changed, m.setPercentFor version percent = .ok changed) ↔
      ∃ line ∈ m.ledger, line.runtimeVersion = version
  setPercentFor : ∀ version percent changed, m.setPercentFor version percent = .ok changed →
    changed.endsInFallback = true ∧ changed.ledger = setFirst version percent m.ledger
  remove_iff : ∀ version, (∃ left, m.removeRollout version = .ok left) ↔
    ∃ line ∈ m.ledger, line.runtimeVersion = version
  remove : ∀ version left, m.removeRollout version = .ok left →
    left.endsInFallback = true ∧ left.ledger = m.ledger.eraseP (·.runtimeVersion = version)
  setPercent : ∀ percent changed, m.setPercent percent = .ok changed →
    changed.endsInFallback = true ∧ changed.ledger = m.ledger

theorem followsLedger {m : Mapping} (hm : m.endsInFallback = true) : m.FollowsLedger where
  endsInFallback := hm
  records := fun defaultBranchId => recordsOf_eq defaultBranchId m.entries
  rolloutInfo := rolloutInfo_of_ledger hm
  insert := fun branchId percent version =>
    ⟨_, insertRollout_eq hm branchId percent version, endsInFallback_cons.2 (.inr hm),
      ledger_inserted m branchId percent version⟩
  setPercentFor_iff := fun version percent => by
    constructor
    · rintro ⟨changed, hok⟩
      by_cases h : ∃ line ∈ m.ledger, line.runtimeVersion = version
      · exact h
      · rw [setPercentFor_of_not_mem hm h] at hok
        exact absurd hok (by simp)
    · intro h
      obtain ⟨changed, hok, -⟩ := setPercentFor_of_mem hm h percent
      exact ⟨changed, hok⟩
  setPercentFor := fun version percent changed hok => by
    by_cases h : ∃ line ∈ m.ledger, line.runtimeVersion = version
    · obtain ⟨other, hother, hkeeps⟩ := setPercentFor_of_mem hm h percent
      obtain rfl : changed = other := Except.ok.inj (hok.symm.trans hother)
      exact hkeeps
    · rw [setPercentFor_of_not_mem hm h] at hok
      exact absurd hok (by simp)
  remove_iff := fun version => by
    constructor
    · rintro ⟨left, hok⟩
      by_cases h : ∃ line ∈ m.ledger, line.runtimeVersion = version
      · exact h
      · rw [removeRollout_of_not_mem hm h] at hok
        exact absurd hok (by simp)
    · intro h
      obtain ⟨left, hok, -⟩ := removeRollout_of_mem hm h
      exact ⟨left, hok⟩
  remove := fun version left hok => by
    by_cases h : ∃ line ∈ m.ledger, line.runtimeVersion = version
    · obtain ⟨other, hother, hkeeps⟩ := removeRollout_of_mem hm h
      obtain rfl : left = other := Except.ok.inj (hok.symm.trans hother)
      exact hkeeps
    · rw [removeRollout_of_not_mem hm h] at hok
      exact absurd hok (by simp)
  setPercent := fun _ _ => setPercent_keeps

end Mapping

/-! ## Series of edits -/

theorem setFirst_of_not_mem {lines : List LedgerLine} {version : String}
    (h : ¬∃ line ∈ lines, line.runtimeVersion = version) (percent : Percent) :
    setFirst version percent lines = lines := by
  induction lines with
  | nil => rfl
  | cons line lines ih =>
    rw [setFirst, if_neg fun hv => h ⟨line, by simp, hv⟩,
      ih fun ⟨other, hmem, hv⟩ => h ⟨other, List.mem_cons_of_mem _ hmem, hv⟩]

namespace Mapping

/-- One edit of a mapping is one edit of its ledger, whether it applies or not. -/
theorem step_follows_ledger {m : Mapping} (hm : m.endsInFallback = true) {e : Edit}
    (he : ∀ outcome, e ≠ .finish outcome) :
    (m.step e).endsInFallback = true ∧ (m.step e).ledger = ledgerStep m.ledger e := by
  cases e with
  | insert branchId percent version =>
    simp only [step, edit, insertRollout_eq hm]
    exact ⟨endsInFallback_cons.2 (.inr hm), ledger_inserted m branchId percent version⟩
  | setPercentFor version percent =>
    by_cases h : ∃ line ∈ m.ledger, line.runtimeVersion = version
    · obtain ⟨changed, hok, hkeeps⟩ := setPercentFor_of_mem hm h percent
      simp only [step, edit, hok]
      exact hkeeps
    · simp only [step, edit, setPercentFor_of_not_mem hm h, ledgerStep]
      exact ⟨hm, (setFirst_of_not_mem h percent).symm⟩
  | setPercent percent =>
    cases hok : m.setPercent percent with
    | ok changed =>
      simp only [step, edit, hok]
      exact setPercent_keeps hok
    | error cause =>
      simp only [step, edit, hok]
      exact ⟨hm, rfl⟩
  | remove version =>
    by_cases h : ∃ line ∈ m.ledger, line.runtimeVersion = version
    · obtain ⟨left, hok, hkeeps⟩ := removeRollout_of_mem hm h
      simp only [step, edit, hok]
      exact hkeeps
    · simp only [step, edit, removeRollout_of_not_mem hm h, ledgerStep]
      -- the edit fails, and the ledger has no line to drop either
      refine ⟨hm, (List.eraseP_of_forall_not fun line hmem hv => h ⟨line, hmem, ?_⟩).symm⟩
      exact of_decide_eq_true hv
  | finish outcome => exact absurd rfl (he outcome)

/-- **Every series of edits runs on the ledger.** From a mapping that ends in a fallback, whatever
else it holds, inserting, setting percentages and removing lead to the ledger that the same
operations make of the old one, and the mapping reached again answers every edit by its
ledger. -/
theorem run_follows_ledger (m : Mapping) (edits : List Edit) (hm : m.endsInFallback = true)
    (hedits : ∀ outcome, Edit.finish outcome ∉ edits) :
    (m.run edits).FollowsLedger ∧ (m.run edits).ledger = edits.foldl ledgerStep m.ledger := by
  -- the fallback at the end is what every edit hands on to the next one
  induction edits generalizing m with
  | nil => exact ⟨followsLedger hm, rfl⟩
  | cons e edits ih =>
    have he : ∀ outcome, e ≠ .finish outcome := by
      rintro outcome rfl
      exact hedits outcome List.mem_cons_self
    obtain ⟨hends, hstep⟩ := step_follows_ledger hm he
    obtain ⟨hfollows, hledger⟩ := ih (m.step e) hends fun outcome hmem =>
      hedits outcome (List.mem_cons_of_mem _ hmem)
    refine ⟨hfollows, hledger.trans ?_⟩
    rw [hstep]
    rfl

/-- A mapping as someone might write it: a share in front of its version, one version twice, a
fallback in the middle and a share that lies outside its range. -/
def handwritten : Mapping where
  version := 7
  entries :=
    [⟨"B1", .all [.share ⟨15, by decide⟩, .predicate (.version "1.0")]⟩,
      ⟨"B2", .alwaysTrue⟩,
      ⟨"B3", .all [.predicate ⟨.number (.infinite false), rolloutTokenKey, .hashLess⟩,
        .predicate (.version "1.0")]⟩,
      ⟨"B4", .constrained "1.0" ⟨30, by decide⟩⟩,
      ⟨"B5", .alwaysTrue⟩]

/-- The ledger of that mapping after four edits, the third of which finds no rollout. -/
theorem run_follows_ledger_handwritten :
    handwritten.endsInFallback = true ∧
      (∀ outcome, Edit.finish outcome ∉ [.insert "B6" .full "2.0",
        .setPercentFor "1.0" ⟨29, by decide⟩, .remove "3.0", .setPercent .zero]) ∧
      (handwritten.run [.insert "B6" .full "2.0", .setPercentFor "1.0" ⟨29, by decide⟩,
        .remove "3.0", .setPercent .zero]).FollowsLedger ∧
      (handwritten.run [.insert "B6" .full "2.0", .setPercentFor "1.0" ⟨29, by decide⟩,
        .remove "3.0", .setPercent .zero]).ledger =
        [⟨"B6", "2.0", .full⟩, ⟨"B1", "1.0", ⟨29, by decide⟩⟩, ⟨"B4", "1.0", ⟨30, by decide⟩⟩] := by
  have hends : handwritten.endsInFallback = true := by decide
  have hedits : ∀ outcome, Edit.finish outcome ∉ [.insert "B6" .full "2.0",
      .setPercentFor "1.0" ⟨29, by decide⟩, .remove "3.0", .setPercent .zero] := by
    intro outcome
    simp
  obtain ⟨hfollows, hledger⟩ := run_follows_ledger handwritten _ hends hedits
  exact ⟨hends, hedits, hfollows, hledger.trans (by decide +kernel)⟩

end Mapping

end StagedRollout
