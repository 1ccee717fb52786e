/-
# StagedRollout.Proofs.Rollout.Report -- recognition and reading agree

Whether a mapping is a rollout is decided in one place, and the records of a rollout are read in
another. `Mapping.ReadsAsRecognised` says what it means that the two agree: reading succeeds
just where a rollout is recognised, what it yields is of the kind that is recognised, and it
leaves out no entry and makes up no record. They agree on every mapping, so the report that first
asks the one and then the other never fails (`rolloutInfo_follows_recognition`).
-/
import StagedRollout.Proofs.Outcome
import StagedRollout.Proofs.Rollout.Ledger
import StagedRollout.Store.Command
import Mathlib.Data.List.Forall2

namespace StagedRollout

/- The stored fraction is a quotient of large numbers, which nothing here looks into. -/
attribute [local irreducible] Percent.fraction Percent.ofFraction

/-! ## Records of entries -/

/-- A record says what an entry says: its branch, its runtime version and the percentage of its
share; and it names a default branch. -/
structure Entry.Reported (defaultBranchId : String) (entry : Entry) (record : ConstrainedRecord) :
    Prop where
  rolledOut : record.rolledOutBranchId = entry.branchId
  version : entry.runtimeVersion? = some record.runtimeVersion
  percent : ∃ share, entry.logic.constrained? = some (record.runtimeVersion, share) ∧
    share.percent = .ok record.percent
  default : record.defaultBranchId = defaultBranchId

/-- The record of an entry's line says what the entry says. -/
theorem Entry.reported_of_line? {entry : Entry} {line : LedgerLine} (h : entry.line? = some line)
    (defaultBranchId : String) : entry.Reported defaultBranchId (line.record defaultBranchId) := by
  cases hc : entry.logic.constrained? with
  | none => rw [line?_of_unconstrained hc] at h; exact absurd h (by simp)
  | some found =>
    obtain ⟨version, share⟩ := found
    obtain ⟨percent, hpercent, hline⟩ := line?_of_constrained hc
    obtain rfl := Option.some.inj (hline.symm.trans h)
    refine ⟨rfl, ?_, ⟨share, hc, hpercent⟩, rfl⟩
    rw [Entry.runtimeVersion?, Node.runtimeVersion?, hc]
    rfl

/-- There is one record for each entry that is a constrained rollout, in the order of the
entries. -/
theorem forall₂_records (defaultBranchId : String) (entries : List Entry) :
    List.Forall₂ (Entry.Reported defaultBranchId)
      (entries.filter fun entry => entry.logic.isConstrained)
      ((ledgerOf entries).map (·.record defaultBranchId)) := by
  induction entries with
  | nil => exact .nil
  | cons entry rest ih =>
    rw [List.filter_cons, Entry.isConstrained_eq_isSome, ledgerOf_cons]
    cases hline : entry.line? with
    | none => exact ih
    | some line => exact .cons (Entry.reported_of_line? hline defaultBranchId) ih

/-! ## Mappings -/

namespace Mapping

/-- Reading the records of a mapping goes by what the mapping is recognised as. -/
structure ReadsAsRecognised (m : Mapping) : Prop where
  succeeds_iff : (∃ info, m.rolloutInfo = .ok info) ↔ m.isRollout = true
  error : ∀ cause, m.rolloutInfo = .error cause → cause = .notARollout m
  unconstrained_iff :
    (∃ record, m.rolloutInfo = .ok (.unconstrained record)) ↔ m.isUnconstrained = true
  unconstrained : ∀ record, m.rolloutInfo = .ok (.unconstrained record) →
    ∃ first share fallback, m.unconstrained? = some (first, share, fallback) ∧
      m.fallback? = some fallback ∧ record.rolledOutBranchId = first.branchId ∧
      share.percent = .ok record.percent ∧ record.defaultBranchId = fallback.branchId
  constrained : ∀ records, m.rolloutInfo = .ok (.constrained records) →
    records ≠ [] ∧ ∃ fallback, m.fallback? = some fallback ∧
      List.Forall₂ (Entry.Reported fallback.branchId)
        (m.entries.filter fun entry => entry.logic.isConstrained) records

/-- An unconstrained rollout yields the record of its first entry. -/
theorem readsAsRecognised_of_unconstrained? {m : Mapping} {first fallback : Entry}
    {share : Predicate} (hu : m.unconstrained? = some (first, share, fallback)) :
    m.ReadsAsRecognised := by
  have hunconstrained : m.isUnconstrained = true := isUnconstrained_iff.2 ⟨_, hu⟩
  obtain ⟨percent, hpercent, hinfo⟩ := rolloutInfo_of_unconstrained? hu
  constructor
  · exact ⟨fun _ => isRollout_iff.2 (.inl hunconstrained), fun _ => ⟨_, hinfo⟩⟩
  · simp [hinfo]
  · exact ⟨fun _ => hunconstrained, fun _ => ⟨_, hinfo⟩⟩
  · intro record h
    rw [hinfo, Except.ok.injEq, RolloutInfo.unconstrained.injEq] at h
    subst h
    exact ⟨first, share, fallback, hu, fallback?_of_unconstrained? hu, rfl, hpercent, rfl⟩
  · simp [hinfo]

/-- A constrained rollout yields the records of its lines. -/
theorem readsAsRecognised_of_constrained {m : Mapping} {fallback : Entry}
    (hu : m.unconstrained? = none) (hf : m.fallback? = some fallback) (hledger : m.ledger ≠ [])
    (hinfo : m.rolloutInfo = .ok (.constrained (m.ledger.map (·.record fallback.branchId)))) :
    m.ReadsAsRecognised := by
  have hconstrained : m.isUnconstrained = false := isUnconstrained_eq_false_iff.2 hu
  constructor
  · exact ⟨fun _ => isRollout_iff.2 (.inr ⟨⟨fallback, hf⟩, hledger⟩), fun _ => ⟨_, hinfo⟩⟩
  · simp [hinfo]
  · simp [hinfo, hconstrained]
  · simp [hinfo]
  · intro records h
    rw [hinfo, Except.ok.injEq, RolloutInfo.constrained.injEq] at h
    subst h
    refine ⟨?_, fallback, hf, forall₂_records fallback.branchId m.entries⟩
    rw [Ne, List.map_eq_nil_iff]
    exact hledger

/-- What is no rollout has no records of either kind. -/
theorem readsAsRecognised_of_not_rollout {m : Mapping} (hrollout : m.isRollout = false)
    (hinfo : m.rolloutInfo = .error (.notARollout m)) : m.ReadsAsRecognised := by
  have hplain := isUnconstrained_of_isRollout_eq_false hrollout
  constructor
  · simp [hinfo, hrollout]
  · intro cause h
    rw [hinfo, Except.error.injEq] at h
    exact h.symm
  · simp [hinfo, hplain]
  · simp [hinfo]
  · simp [hinfo]

/-- **Reading goes by recognition**, whatever the mapping is. -/
theorem readsAsRecognised (m : Mapping) : m.ReadsAsRecognised := by
  obtain ⟨_, _, _, _, hu, -, -⟩ | ⟨_, hu, hf, hledger, hinfo⟩ | ⟨hrollout, hinfo⟩ :=
    m.rolloutInfo_cases
  · exact readsAsRecognised_of_unconstrained? hu
  · exact readsAsRecognised_of_constrained hu hf hledger hinfo
  · exact readsAsRecognised_of_not_rollout hrollout hinfo

end Mapping

/-! ## The report on a channel -/

/-- What is reported of the kind of rollout that a mapping is. -/
def classificationReport (name : String) (m : Mapping) (runtimeVersions : List String) : Json :=
  .object [("channel", .text name), ("isRollout", .bool m.isRollout),
    ("unconstrained", .bool m.isUnconstrained),
    ("runtimeVersions", .array (runtimeVersions.map .text))]

/-- Records are of an unconstrained rollout, or there is one for some runtime version. -/
theorem Mapping.ReadsAsRecognised.runtimeVersions_ne_nil_iff {m : Mapping} {info : RolloutInfo}
    (hreads : m.ReadsAsRecognised) (hinfo : m.rolloutInfo = .ok info) :
    info.runtimeVersions ≠ [] ↔ m.isUnconstrained = false := by
  cases info with
  | unconstrained record =>
    rw [hreads.unconstrained_iff.1 ⟨record, hinfo⟩]
    simp [RolloutInfo.runtimeVersions]
  | constrained records =>
    have hkind : m.isUnconstrained = false := by
      rw [← Bool.not_eq_true, ← hreads.unconstrained_iff, hinfo]
      simp
    rw [hkind]
    simpa [RolloutInfo.runtimeVersions] using (hreads.constrained records hinfo).1

/-- The report on a channel whose mapping can be read lists the runtime versions of a constrained
rollout, and none for any other mapping. -/
theorem Channel.exists_classification {c : Channel} {m : Mapping} (hm : c.mapping = .ok m) :
    ∃ runtimeVersions, c.classification = .ok (classificationReport c.name m runtimeVersions) ∧
      (runtimeVersions ≠ [] ↔ m.isRollout = true ∧ m.isUnconstrained = false) := by
  unfold classification classificationReport
  rw [hm, Outcome.ok_bind]
  cases hr : m.isRollout with
  | false => exact ⟨[], rfl, by simp⟩
  | true =>
    have hreads := m.readsAsRecognised
    obtain ⟨info, hinfo⟩ := hreads.succeeds_iff.2 hr
    refine ⟨info.runtimeVersions, ?_, ?_⟩
    · rw [hinfo]
      rfl
    · rw [hreads.runtimeVersions_ne_nil_iff hinfo]
      simp

/-- What a report comes to when it is asked for by a command. -/
theorem ChannelFile.execute_classify {file : ChannelFile} {invocation : Invocation} {c : Channel}
    {report : Json} (hcommand : invocation.command = .classify)
    (hfetch : file.fetch invocation.channel = .ok c) (hreport : c.classification = .ok report) :
    file.execute invocation = .ok ⟨report, file⟩ := by
  have hrespond : c.respond .classify = .ok (.report report) := by
    show Response.report <$> c.classification = _
    rw [hreport, Outcome.map_ok]
  unfold execute
  rw [hfetch, hcommand]
  show (CommandError.ofRollout (c.respond .classify) >>= _) = _
  rw [hrespond]
  rfl

namespace Mapping

/-- **Recognition and reading agree on every mapping.** The records of a mapping can be read just
where it is a rollout, all of them and no others, since every share that is recognised has a
percentage; so the report on a channel whose mapping can be read never fails, and it lists
runtime versions just for the constrained rollouts. -/
theorem rolloutInfo_follows_recognition (m : Mapping) :
    m.ReadsAsRecognised ∧
      (∀ share : Predicate, share.isShare = true → ∃ percent, share.percent = .ok percent) ∧
      ∀ (file : ChannelFile) (invocation : Invocation) (c : Channel),
        invocation.command = .classify → file.fetch invocation.channel = .ok c →
        c.mapping = .ok m →
        ∃ runtimeVersions,
          file.execute invocation = .ok ⟨classificationReport c.name m runtimeVersions, file⟩ ∧
          (runtimeVersions ≠ [] ↔ m.isRollout = true ∧ m.isUnconstrained = false) := by
  refine ⟨m.readsAsRecognised, ?_, ?_⟩
  · intro share hshare
    exact Predicate.exists_percent hshare
  · intro file invocation c hcommand hfetch hm
    obtain ⟨runtimeVersions, hreport, hlists⟩ := c.exists_classification hm
    exact ⟨runtimeVersions, ChannelFile.execute_classify hcommand hfetch hreport, hlists⟩

end Mapping

end StagedRollout
