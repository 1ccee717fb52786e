/-
# StagedRollout.Proofs.Store.References -- the branches that a mapping refers to

A channel holds its branches and, apart from them, a mapping that refers to branches by id. The two
are joined when a rollout is reported: every branch is looked up then, and a missing one is an
error. No other place compares them. An insertion is the only edit that brings a new branch into a
mapping, and it takes the id as it is given.

So the references of a channel stay resolved through every series of commands in which insertions
into that channel name branches of the channel (`ChannelFile.run_resolves`), and a single insertion
that does not breaks them.
-/
import StagedRollout.Proofs.Channel.Composition
import StagedRollout.Proofs.Store.Addressing

namespace StagedRollout

/-! ## References -/

namespace Channel

/-- Every branch that the mapping refers to is one of the channel. A mapping that cannot be read
refers to none. -/
def Resolves (c : Channel) : Prop :=
  ∀ m, c.mapping = .ok m → ∀ branchId ∈ m.branchIds, c.HasBranch branchId

theorem resolves_iff {c : Channel} {m : Mapping} (hm : c.mapping = .ok m) :
    c.Resolves ↔ ∀ branchId ∈ m.branchIds, c.HasBranch branchId := by
  rw [Resolves, hm]
  constructor
  · intro h
    exact h m rfl
  · rintro h m' ⟨⟩
    exact h

instance (c : Channel) : Decidable c.Resolves :=
  match h : c.mapping with
  | .ok _ => decidable_of_iff _ (resolves_iff h).symm
  | .error _ => isTrue (by simp [Resolves, h])

end Channel

/-! ## Rollouts of channels whose references are resolved -/

theorem Entry.branchId_of_line? {entry : Entry} {line : LedgerLine} (h : entry.line? = some line) :
    line.branchId = entry.branchId := by
  obtain ⟨⟨version, share⟩, -, h⟩ := Option.bind_eq_some_iff.1 h
  obtain ⟨percent, -, h⟩ := Option.bind_eq_some_iff.1 h
  rw [← Option.some.inj h]

/-- The records of a mapping name branches that it refers to. -/
theorem Mapping.branchIds_of_rolloutInfo {m : Mapping} {info : RolloutInfo}
    (h : m.rolloutInfo = .ok info) :
    ∀ r ∈ info.rolloutRecords, r.defaultBranchId ∈ m.branchIds ∧
      r.rolledOutBranchId ∈ m.branchIds := by
  intro r hr
  obtain ⟨first, share, fallback, percent, hu, -, hinfo⟩ | ⟨fallback, -, hfallback, -, hinfo⟩ |
    ⟨-, hinfo⟩ := m.rolloutInfo_cases
  · obtain rfl := Except.ok.inj (h.symm.trans hinfo)
    obtain rfl := List.mem_singleton.1 hr
    obtain ⟨hentries, -⟩ := unconstrained?_eq_some.1 hu
    rw [branchIds, hentries]
    exact ⟨by simp, by simp⟩
  · obtain rfl := Except.ok.inj (h.symm.trans hinfo)
    obtain ⟨record, hrecord, rfl⟩ := List.mem_map.1 hr
    obtain ⟨line, hline, rfl⟩ := List.mem_map.1 hrecord
    obtain ⟨entry, hentry, hline⟩ := List.mem_filterMap.1 hline
    constructor
    · exact List.mem_map_of_mem (List.mem_of_find?_eq_some hfallback)
    · show line.branchId ∈ m.branchIds
      rw [Entry.branchId_of_line? hline]
      exact List.mem_map_of_mem hentry
  · exact absurd (h.symm.trans hinfo) (by simp)

namespace Channel

/-- Where references are resolved, no branch of a record is missing. -/
theorem hasBranch_of_resolves {c : Channel} (hc : c.Resolves) {info : RolloutInfo}
    (h : c.rolloutInfo = .ok info) : ∀ branchId ∈ info.branchIds, c.HasBranch branchId := by
  obtain ⟨m, hm, hinfo⟩ := Outcome.bind_eq_ok.1 h
  intro branchId hmem
  obtain ⟨r, hr, hid⟩ := List.mem_flatMap.1 hmem
  obtain ⟨hdefault, hrolledOut⟩ := Mapping.branchIds_of_rolloutInfo hinfo r hr
  simp only [RolloutRecord.branchIds, List.mem_cons, List.not_mem_nil, or_false] at hid
  obtain rfl | rfl := hid
  · exact hc m hm _ hdefault
  · exact hc m hm _ hrolledOut

/-- **Where references are resolved, a rollout is reported whenever its records can be read.** -/
theorem exists_rollout {c : Channel} (hc : c.Resolves) {info : RolloutInfo}
    (h : c.rolloutInfo = .ok info) : ∃ rollout, c.rollout = .ok rollout :=
  (needs_rollout h).exists_ok_iff.2 (hasBranch_of_resolves hc h)

/-- No branch is missing where references are resolved. -/
theorem rollout_ne_branchNotFound {c : Channel} (hc : c.Resolves) (name branchId : String) :
    c.rollout ≠ .error (.branchNotFound name branchId) := by
  intro h
  obtain ⟨info, _, hinfo, -, -⟩ | ⟨_, hcause⟩ | ⟨_, hcause⟩ | ⟨_, hcause⟩ := rollout_eq_error h
  · obtain ⟨rollout, hrollout⟩ := exists_rollout hc hinfo
    exact absurd (h.symm.trans hrollout) (by simp)
  all_goals exact absurd hcause (by simp)

/-! ## Edits -/

/-- The channel that is given a change for it refers to the branches of the edited mapping. -/
theorem resolves_iff_of_change {c : Channel} {e : Edit} {text : String}
    (h : c.respond (.edit e) = .ok (.change ⟨c.id, text⟩)) :
    ∃ m edited, c.mapping = .ok m ∧ m.edit e = .ok edited ∧
      ({ c with mappingText := text }.Resolves ↔
        ∀ branchId ∈ edited.branchIds, c.HasBranch branchId) := by
  obtain ⟨m, edited, m', hm, hedit, hm', hsame⟩ := mapping_of_change h
  refine ⟨m, edited, hm, hedit, ?_⟩
  rw [resolves_iff hm', Mapping.branchIds_of_same hsame]
  rfl

/-- An edit leaves the references of a channel resolved if it inserts no branch that the channel
does not have. -/
theorem resolves_change {c : Channel} {e : Edit} {text : String}
    (h : c.respond (.edit e) = .ok (.change ⟨c.id, text⟩)) (hc : c.Resolves)
    (hinsert : ∀ branchId percent version, e = .insert branchId percent version →
      c.HasBranch branchId) : { c with mappingText := text }.Resolves := by
  obtain ⟨m, edited, hm, hedit, hresolves⟩ := resolves_iff_of_change h
  apply hresolves.2
  intro branchId hmem
  obtain hold | ⟨percent, version, hnew⟩ := Mapping.mem_branchIds_of_edit hedit hmem
  · exact hc m hm branchId hold
  · exact hinsert branchId percent version hnew

/-- An insertion refers to its branch from then on, whether or not the channel has it. -/
theorem hasBranch_of_resolves_insert {c : Channel} {branchId version text : String}
    {percent : Percent}
    (h : c.respond (.edit (.insert branchId percent version)) = .ok (.change ⟨c.id, text⟩))
    (hresolves : { c with mappingText := text }.Resolves) : c.HasBranch branchId := by
  obtain ⟨m, edited, -, hedit, hiff⟩ := resolves_iff_of_change h
  obtain ⟨-, rfl⟩ := Mapping.insertRollout_eq_ok.1 hedit
  exact hiff.1 hresolves branchId List.mem_cons_self

end Channel

/-! ## Commands -/

/-- If the command inserts a rollout into a channel, then the rollout of one of its branches. -/
def Invocation.InsertsKnown (invocation : Invocation) (c : Channel) : Prop :=
  invocation.channel = c.name → ∀ branchId percent version,
    invocation.command = .edit (.insert branchId percent version) → c.HasBranch branchId

namespace ChannelFile

/-- A report on a rollout succeeds or fails as the rollout does. -/
theorem execute_info {file : ChannelFile} {invocation : Invocation} {c : Channel}
    (hcommand : invocation.command = .info) (hfetch : file.fetch invocation.channel = .ok c)
    {cause : RolloutError} (h : file.execute invocation = .error (.rollout cause)) :
    c.rollout = .error cause := by
  unfold execute at h
  rw [hfetch, hcommand] at h
  have h : (CommandError.ofRollout ((fun rollout => Response.report rollout.toJson) <$> c.rollout)
      >>= file.settle c.name invocation.write) = .error (.rollout cause) := h
  cases hrollout : c.rollout with
  | ok rollout =>
    rw [hrollout] at h
    exact absurd h (by simp [CommandError.ofRollout, settle])
  | error cause' =>
    rw [hrollout] at h
    rw [CommandError.rollout.inj (Except.error.inj h)]

/-- The file has distinct channels, and a given one is among them, perhaps with another mapping, but
with its references resolved. -/
def HoldsResolved (file : ChannelFile) (c : Channel) : Prop :=
  ∃ channels, file.load = .ok channels ∧ (channels.map Channel.id).Nodup ∧
    (channels.map Channel.name).Nodup ∧ ∃ c' ∈ channels, c'.id = c.id ∧ c'.name = c.name ∧
      c'.branches = c.branches ∧ c'.Resolves

/-- **References stay resolved through a command.** The file has distinct ids, so the channel that
is written to is the one that was fetched. -/
theorem holdsResolved_after {file : ChannelFile} {c : Channel} {invocation : Invocation}
    (h : file.HoldsResolved c) (hinsert : invocation.InsertsKnown c) :
    (file.after invocation).HoldsResolved c := by
  obtain hsame | ⟨result, hexecute, hafter⟩ := file.after_eq invocation
  · rw [hsame]
    exact h
  rw [hafter]
  obtain ⟨fetched, hfetch, hexecuted⟩ := execute_eq_ok hexecute
  cases hexecuted with
  | reported => exact h
  | proposed => exact h
  | @written text front target behind hrespond _ hload hfront htarget =>
    obtain ⟨channels, hload', hids, hnames, c', hmem, hid, hname, hbranches, hresolves⟩ := h
    obtain rfl := Except.ok.inj (hload.symm.trans hload')
    obtain ⟨_, _, _, hfetched, -⟩ := fetch_eq_ok.1 hfetch
    -- the channel of the id is the channel of the name
    obtain rfl := eq_of_fetch hload hids hfetch (by simp) htarget
    refine ⟨_, load_written hload hrespond, ?_, ?_, ?_⟩
    · simpa using hids
    · simpa using hnames
    · obtain hmem | rfl | hmem := by simpa using hmem
      · exact ⟨c', by simp [hmem], hid, hname, hbranches, hresolves⟩
      · refine ⟨{ c' with mappingText := text }, by simp, hid, hname, hbranches, ?_⟩
        obtain ⟨e, -, -, hcommand, -⟩ := Channel.respond_change hrespond
        rw [hcommand] at hrespond
        apply Channel.resolves_change hrespond hresolves
        rintro branchId percent version rfl
        rw [Channel.HasBranch, hbranches]
        exact hinsert (hfetched.symm.trans hname) branchId percent version hcommand
      · exact ⟨c', by simp [hmem], hid, hname, hbranches, hresolves⟩

theorem holdsResolved_run {file : ChannelFile} {c : Channel} {invocations : List Invocation}
    (h : file.HoldsResolved c) (hinsert : ∀ invocation ∈ invocations, invocation.InsertsKnown c) :
    (file.run invocations).HoldsResolved c := by
  induction invocations generalizing file with
  | nil => exact h
  | cons invocation rest ih =>
    obtain ⟨hfirst, hrest⟩ := List.forall_mem_cons.1 hinsert
    exact ih (holdsResolved_after h hfirst) hrest

/-- **References stay resolved through every series of commands** on a file with distinct channels,
if every insertion for the channel names one of its branches. After any number of the commands the
channel is found with its branches and with a mapping that refers to no others, so that a report on
its rollout misses no branch. -/
theorem run_resolves {file : ChannelFile} {channels : List Channel} {c : Channel}
    {invocations : List Invocation} (hload : file.load = .ok channels)
    (hids : (channels.map Channel.id).Nodup) (hnames : (channels.map Channel.name).Nodup)
    (hmem : c ∈ channels) (hc : c.Resolves)
    (hinsert : ∀ invocation ∈ invocations, invocation.InsertsKnown c) (count : Nat) :
    ∃ c', (file.run (invocations.take count)).fetch c.name = .ok c' ∧ c'.id = c.id ∧
      c'.branches = c.branches ∧ c'.Resolves ∧
      ∀ report : Invocation, report.channel = c.name → report.command = .info →
        ∀ name branchId, (file.run (invocations.take count)).execute report ≠
          .error (.rollout (.branchNotFound name branchId)) := by
  have hstart : file.HoldsResolved c := ⟨channels, hload, hids, hnames, c, hmem, rfl, rfl, rfl, hc⟩
  have hinsert : ∀ invocation ∈ invocations.take count, invocation.InsertsKnown c := by
    intro invocation hinvocation
    exact hinsert invocation (List.mem_of_mem_take hinvocation)
  obtain ⟨channels', hload', -, hnames', c', hmem', hid, hname, hbranches, hresolves⟩ :=
    holdsResolved_run hstart hinsert
  have hfetch := fetch_of_mem hload' hnames' hmem'
  rw [hname] at hfetch
  refine ⟨c', hfetch, hid, hbranches, hresolves, ?_⟩
  intro report hchannel hcommand name branchId h
  apply Channel.rollout_ne_branchNotFound hresolves name branchId
  exact execute_info hcommand (hchannel ▸ hfetch) h

/-- A branch of the channel is rolled out, and another command fails. -/
theorem run_resolves_handwritten :
    ∃ channels, handwritten.load = .ok channels ∧ (channels.map Channel.id).Nodup ∧
      (channels.map Channel.name).Nodup ∧ ∃ c ∈ channels, c.Resolves ∧
        (∀ invocation ∈ [written (.insert "B1" .full "1.0"), written (.setPercent .zero)],
          invocation.InsertsKnown c) ∧
        ∃ c', (handwritten.run [written (.insert "B1" .full "1.0")]).fetch c.name = .ok c' ∧
          c'.branches = c.branches ∧ c'.Resolves := by
  obtain ⟨channels, hload, hcheck⟩ := Outcome.exists_of_any (x := handwritten.load)
    (p := fun channels => (channels.map Channel.id).Nodup ∧ (channels.map Channel.name).Nodup ∧
      ∃ c ∈ channels, c.Resolves ∧ c.HasBranch "B1") (by decide +kernel)
  obtain ⟨hids, hnames, c, hmem, hc, hbranch⟩ := of_decide_eq_true hcheck
  have hinsert : ∀ invocation ∈ [written (.insert "B1" .full "1.0"), written (.setPercent .zero)],
      invocation.InsertsKnown c := by
    intro invocation hinvocation _ branchId percent version hcommand
    simp [written] at hinvocation
    obtain rfl | rfl := hinvocation
    · obtain ⟨rfl, -⟩ := Edit.insert.inj (Command.edit.inj hcommand)
      exact hbranch
    · exact absurd (Command.edit.inj hcommand) (by simp)
  obtain ⟨c', hfetch, -, hbranches, hresolves, -⟩ :=
    run_resolves hload hids hnames hmem hc hinsert 1
  exact ⟨channels, hload, hids, hnames, c, hmem, hc, hinsert, c', hfetch, hbranches, hresolves⟩

/-- A branch that a channel does not have is rolled out to it. The references of the channel were
resolved and are not any more. -/
theorem insert_unknown_branch :
    ∃ channels, handwritten.load = .ok channels ∧ (channels.map Channel.id).Nodup ∧
      (channels.map Channel.name).Nodup ∧ ∃ c ∈ channels, c.Resolves ∧
        ∃ result, handwritten.execute (written (.insert "B404" .full "1.0")) = .ok result ∧
          ∃ c', result.file.fetch c.name = .ok c' ∧ ¬ c'.Resolves := by
  obtain ⟨channels, hload, hcheck⟩ := Outcome.exists_of_any (x := handwritten.load)
    (p := fun channels => (channels.map Channel.id).Nodup ∧ (channels.map Channel.name).Nodup ∧
      ∀ c ∈ channels, c.Resolves ∧ ¬ c.HasBranch "B404") (by decide +kernel)
  obtain ⟨hids, hnames, hresolves⟩ := of_decide_eq_true hcheck
  obtain ⟨result, hexecute⟩ := Outcome.exists_of_isOk
    (x := handwritten.execute (written (.insert "B404" .full "1.0"))) (by decide +kernel)
  obtain ⟨c, hfetch, hexecuted⟩ := execute_eq_ok hexecute
  obtain ⟨text, front, target, behind, hrespond, -, hfound, -, htarget, hafter⟩ :=
    executed_edit rfl rfl hexecuted
  obtain rfl := Except.ok.inj (hload.symm.trans hfound)
  obtain rfl := eq_of_fetch hload hids hfetch (by simp) htarget
  obtain ⟨hc, hmissing⟩ := hresolves target (by simp)
  refine ⟨_, hload, hids, hnames, target, by simp, hc, result, hexecute, ?_⟩
  let changed : Channel := { target with mappingText := text }
  have hmem : changed ∈ front ++ changed :: behind := by simp
  refine ⟨changed, ?_, ?_⟩
  · exact fetch_of_mem hafter (by simpa using hnames) hmem
  · intro hresolved
    exact hmissing (Channel.hasBranch_of_resolves_insert hrespond hresolved)

end ChannelFile

end StagedRollout
