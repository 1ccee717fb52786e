/-
# StagedRollout.Proofs.Store.DryRun -- what a command does to the file

A command as a series of accesses is run on a `Disk`, which holds the file and remembers every text
that was ever put in its place, by commands that fail later on as well. Whatever can fail comes
before the one write, since a channel that was fetched is found again by its id; so there are three
ways in which a command can go, and each is the same whether the command is to be written or not,
up to the write itself (`Disk.course`). A command that fails, or reports, or is not to be written
leaves the disk as it was, and one that is to be written does what it would have shown
(`Disk.dry_run_foretells`).
-/
import StagedRollout.Proofs.Store.Survival
import StagedRollout.Store.Access

namespace StagedRollout

/-! ## Accesses on a disk -/

/-- The channel file, and the texts that were put in its place one after the other. -/
structure Disk where
  file : ChannelFile
  writes : List String

namespace FileAccess

/-- The accesses to a disk. -/
def onDisk : FileAccess (StateM Disk) where
  read := do return (← get).file
  write text := modify fun disk => ⟨some text, disk.writes ++ [text]⟩

section Runs

variable {ε α β : Type} {disk disk' : Disk} {act : ExceptT ε (StateM Disk) α}

theorem run_bind_of_ok {a : α} (h : act.run.run disk = (.ok a, disk'))
    (next : α → ExceptT ε (StateM Disk) β) :
    (act >>= next).run.run disk = (next a).run.run disk' := by
  rw [ExceptT.run_bind, StateT.run_bind, h]
  rfl

/-- What comes behind a failure is not done. -/
theorem run_bind_of_error {cause : ε} (h : act.run.run disk = (.error cause, disk'))
    (next : α → ExceptT ε (StateM Disk) β) :
    (act >>= next).run.run disk = (.error cause, disk') := by
  rw [ExceptT.run_bind, StateT.run_bind, h]
  rfl

/-- A failure can be worded anew, which is no access. -/
theorem run_adapt {ε' : Type} {outcome : Except ε α} (h : act.run.run disk = (outcome, disk'))
    (wrap : ε → ε') : (act.adapt wrap).run.run disk = (outcome.mapError wrap, disk') := by
  show ((act.run.run disk).1.mapError wrap, (act.run.run disk).2) = _
  rw [h]

end Runs

theorem run_load (disk : Disk) : onDisk.load.run.run disk = (disk.file.load, disk) := rfl

/-- Fetching a channel changes nothing. -/
theorem run_fetch (name : String) (disk : Disk) :
    (onDisk.fetch name).run.run disk = (disk.file.fetch name, disk) := by
  rw [fetch, ChannelFile.fetch]
  have hrun := run_load disk
  cases hload : disk.file.load with
  | error cause =>
    rw [hload] at hrun
    exact run_bind_of_error hrun _
  | ok channels =>
    rw [hload] at hrun
    rw [run_bind_of_ok hrun, Outcome.ok_bind]
    cases channels.find? (·.name = name) <;> rfl

/-- The mapping of a channel that is there is replaced by a single write. -/
theorem run_replaceMapping {update : MappingUpdate} {channels channels' : List Channel}
    {replaced : Channel} {disk : Disk} (hload : disk.file.load = .ok channels)
    (hreplace : replaceMappingIn update channels = some (replaced, channels')) :
    (onDisk.replaceMapping update).run.run disk =
      (.ok replaced, ⟨some (channelsText channels'), disk.writes ++ [channelsText channels']⟩) := by
  have hrun := run_load disk
  rw [hload] at hrun
  rw [replaceMapping, run_bind_of_ok hrun, hreplace]
  rfl

end FileAccess

/-- A channel that is there is found by its id, or another one in front of it is. -/
theorem exists_first_of_id {channels : List Channel} {c : Channel} (hmem : c ∈ channels) :
    ∃ front target behind, channels = front ++ target :: behind ∧
      (∀ d ∈ front, d.id ≠ c.id) ∧ target.id = c.id := by
  have hsome : (channels.find? (·.id = c.id)).isSome = true := by
    rw [List.find?_isSome]
    exact ⟨c, hmem, decide_eq_true rfl⟩
  obtain ⟨target, hfind⟩ := Option.isSome_iff_exists.1 hsome
  obtain ⟨front, behind, hchannels, htarget, hfront⟩ := find?_eq_some_split.1 hfind
  exact ⟨front, target, behind, hchannels, fun d hd => of_decide_eq_false (hfront d hd),
    of_decide_eq_true htarget⟩

/-! ## Commands on a disk -/

namespace Disk

/-- Runs a command: what it comes to, and the disk that it leaves behind. -/
def run (disk : Disk) (invocation : Invocation) : Except CommandError Json × Disk :=
  (FileAccess.onDisk.execute invocation).run.run disk

section Runs

variable {disk : Disk} {invocation : Invocation} {c : Channel}

theorem run_of_unfetched {cause : StoreError}
    (hfetch : disk.file.fetch invocation.channel = .error cause) :
    disk.run invocation = (.error (.fetch invocation.channel cause), disk) := by
  have hrun := FileAccess.run_fetch invocation.channel disk
  rw [hfetch] at hrun
  exact FileAccess.run_bind_of_error (FileAccess.run_adapt hrun _) _

/-- A command goes on with the channel that it has fetched. -/
theorem run_of_fetched (hfetch : disk.file.fetch invocation.channel = .ok c) :
    disk.run invocation = (match c.respond invocation.command with
      | .error cause => throw (.rollout cause)
      | .ok (.report json) => return json
      | .ok (.change update) => do
        if invocation.write then
          let _ ← (FileAccess.onDisk.replaceMapping update).adapt (.update c.name)
        return updateReport update invocation.write :
          ExceptT CommandError (StateM Disk) Json).run.run disk := by
  have hrun := FileAccess.run_fetch invocation.channel disk
  rw [hfetch] at hrun
  exact FileAccess.run_bind_of_ok (FileAccess.run_adapt hrun _) _

theorem run_of_refused {cause : RolloutError}
    (hfetch : disk.file.fetch invocation.channel = .ok c)
    (hrespond : c.respond invocation.command = .error cause) :
    disk.run invocation = (.error (.rollout cause), disk) := by
  rw [run_of_fetched hfetch, hrespond]
  rfl

theorem run_of_report {json : Json} (hfetch : disk.file.fetch invocation.channel = .ok c)
    (hrespond : c.respond invocation.command = .ok (.report json)) :
    disk.run invocation = (.ok json, disk) := by
  rw [run_of_fetched hfetch, hrespond]
  rfl

theorem run_of_proposal {update : MappingUpdate}
    (hfetch : disk.file.fetch invocation.channel = .ok c)
    (hrespond : c.respond invocation.command = .ok (.change update))
    (hwrite : invocation.write = false) :
    disk.run invocation = (.ok (updateReport update false), disk) := by
  rw [run_of_fetched hfetch, hrespond, hwrite]
  rfl

theorem run_of_change {update : MappingUpdate} {channels channels' : List Channel}
    {replaced : Channel} (hfetch : disk.file.fetch invocation.channel = .ok c)
    (hrespond : c.respond invocation.command = .ok (.change update))
    (hwrite : invocation.write = true) (hload : disk.file.load = .ok channels)
    (hreplace : replaceMappingIn update channels = some (replaced, channels')) :
    disk.run invocation = (.ok (updateReport update true),
      ⟨some (channelsText channels'), disk.writes ++ [channelsText channels']⟩) := by
  rw [run_of_fetched hfetch, hrespond, hwrite]
  have hrun := FileAccess.run_replaceMapping hload hreplace
  exact FileAccess.run_bind_of_ok (FileAccess.run_adapt hrun _) _

end Runs

/-- A change that a fetched channel comes to can be written: the channel itself has the id, so the
search for the id cannot fail. -/
theorem exists_written {file : ChannelFile} {name : String} {c : Channel} {command : Command}
    {update : MappingUpdate} (hfetch : file.fetch name = .ok c)
    (hrespond : c.respond command = .ok (.change update)) :
    ∃ channels channels' replaced, file.load = .ok channels ∧
      replaceMappingIn update channels = some (replaced, channels') ∧
      readChannels (channelsText channels') = .ok channels' ∧
      channels'.find? (·.id = update.channelId) = some replaced ∧
      replaced.mappingText = update.mappingText := by
  obtain ⟨_, _, _, -, -, -, -, hid⟩ := Channel.respond_change hrespond
  obtain ⟨channelId, text⟩ := update
  obtain rfl : channelId = c.id := hid
  obtain ⟨before, rest, hload, -, -⟩ := ChannelFile.fetch_eq_ok.1 hfetch
  have hmem : c ∈ before ++ c :: rest := by simp
  obtain ⟨front, target, behind, hchannels, hfront, htarget⟩ := exists_first_of_id hmem
  rw [hchannels] at hload
  obtain ⟨_, ⟨⟩, hread⟩ := ChannelFile.load_eq_ok.1 (ChannelFile.load_written hload hrespond)
  refine ⟨_, _, { target with mappingText := text }, hload, ?_, hread, ?_, rfl⟩
  · exact replaceMappingIn_eq_some.2 ⟨front, target, behind, rfl, hfront, htarget, rfl, rfl⟩
  · apply find?_eq_some_split.2
    exact ⟨front, behind, rfl, decide_eq_true htarget, fun d hd => decide_eq_false (hfront d hd)⟩

/-- **The accesses come to what is computed without them**: a command prints what
`ChannelFile.execute` yields, or fails for its cause, and leaves the file of `ChannelFile.after`. -/
theorem run_eq_execute (disk : Disk) (invocation : Invocation) :
    (disk.run invocation).1 = CommandResult.output <$> disk.file.execute invocation ∧
      (disk.run invocation).2.file = disk.file.after invocation := by
  unfold ChannelFile.after ChannelFile.execute
  cases hfetch : disk.file.fetch invocation.channel with
  | error cause =>
    rw [run_of_unfetched hfetch]
    exact ⟨rfl, rfl⟩
  | ok c =>
    dsimp only
    cases hrespond : c.respond invocation.command with
    | error cause =>
      rw [run_of_refused hfetch hrespond]
      exact ⟨rfl, rfl⟩
    | ok response =>
      cases response with
      | report json =>
        rw [run_of_report hfetch hrespond]
        exact ⟨rfl, rfl⟩
      | change update =>
        cases hwrite : invocation.write with
        | false =>
          rw [run_of_proposal hfetch hrespond hwrite]
          exact ⟨rfl, rfl⟩
        | true =>
          obtain ⟨channels, channels', replaced, hload, hreplace, -⟩ :=
            exists_written hfetch hrespond
          have hreplaced : disk.file.replaceMapping update =
              .ok (replaced, some (channelsText channels')) :=
            ChannelFile.replaceMapping_eq_ok.2 ⟨channels, channels', hload, hreplace, rfl⟩
          rw [run_of_change hfetch hrespond hwrite hload hreplace, CommandError.ofRollout,
            Outcome.ok_bind, ChannelFile.settle, if_pos rfl, hreplaced]
          exact ⟨rfl, rfl⟩

/-- The ways in which a command can go. What it comes to does not depend on whether it is to be
written, up to that mark itself. -/
inductive Course (disk : Disk) (invocation : Invocation) : Prop
  /-- It fails, and has written nothing. -/
  | fails {cause : CommandError}
    (hrun : ∀ write, disk.run { invocation with write } = (.error cause, disk)) :
    Course disk invocation
  /-- It reports on a channel, and has written nothing. -/
  | reports {json : Json} (hcommand : invocation.command = .classify ∨ invocation.command = .info)
    (hrun : ∀ write, disk.run { invocation with write } = (.ok json, disk)) :
    Course disk invocation
  /-- It makes a mapping, and has written it if it was to be written. -/
  | edits {e : Edit} {update : MappingUpdate} {text : String} {channels : List Channel}
    {target : Channel} (hcommand : invocation.command = .edit e)
    (hdry : disk.run { invocation with write := false } = (.ok (updateReport update false), disk))
    (hreal : disk.run { invocation with write := true } =
      (.ok (updateReport update true), ⟨some text, disk.writes ++ [text]⟩))
    (hread : readChannels text = .ok channels)
    (hfind : channels.find? (·.id = update.channelId) = some target)
    (htext : target.mappingText = update.mappingText) : Course disk invocation

/-- **Every command goes in one of three ways.** -/
theorem course (disk : Disk) (invocation : Invocation) : disk.Course invocation := by
  cases hfetch : disk.file.fetch invocation.channel with
  | error cause =>
    have hrun : ∀ write, disk.run { invocation with write } =
        (.error (.fetch invocation.channel cause), disk) := by
      intro write
      exact run_of_unfetched hfetch
    exact .fails hrun
  | ok c =>
    cases hrespond : c.respond invocation.command with
    | error cause =>
      apply Course.fails
      intro write
      exact run_of_refused hfetch hrespond
    | ok response =>
      cases response with
      | change update =>
        obtain ⟨_, _, _, hcommand, -⟩ := Channel.respond_change hrespond
        obtain ⟨channels, channels', replaced, hload, hreplace, hread, hfind, htext⟩ :=
          exists_written hfetch hrespond
        exact .edits hcommand (run_of_proposal hfetch hrespond rfl)
          (run_of_change hfetch hrespond rfl hload hreplace) hread hfind htext
      | report json =>
        refine .reports ?_ fun write => run_of_report hfetch hrespond
        cases hcommand : invocation.command with
        | classify => exact .inl rfl
        | info => exact .inr rfl
        | edit e =>
          rw [hcommand] at hrespond
          obtain ⟨update, hchange⟩ := Channel.respond_edit hrespond
          exact absurd hchange (by simp)

/-- **Nothing is lost by trying.** Whatever the file is, a command that fails, that reports or that
is not to be written has put nothing in its place. And an edit comes to the same whether it is to be
written or not: it fails for the same cause, or it makes the same update; and if it is written, the
first channel of the update's id is stored with the update's mapping. -/
theorem dry_run_foretells (disk : Disk) (invocation : Invocation) :
    ((∃ cause, (disk.run invocation).1 = .error cause) ∨ invocation.command = .classify ∨
      invocation.command = .info ∨ invocation.write = false →
      (disk.run invocation).2 = disk) ∧
    ∀ e, invocation.command = .edit e →
      (∃ cause, ∀ write, (disk.run { invocation with write }).1 = .error cause) ∨
      ∃ update, (∀ write, (disk.run { invocation with write }).1 =
          .ok (updateReport update write)) ∧
        ∃ text channels target,
          (disk.run { invocation with write := true }).2 =
            ⟨some text, disk.writes ++ [text]⟩ ∧
          readChannels text = .ok channels ∧
          channels.find? (·.id = update.channelId) = some target ∧
          target.mappingText = update.mappingText := by
  cases disk.course invocation with
  | @fails cause hrun =>
    refine ⟨fun _ => congrArg Prod.snd (hrun invocation.write), fun e _ => .inl ⟨cause, ?_⟩⟩
    intro write
    rw [hrun]
  | reports hcommand hrun =>
    refine ⟨fun _ => congrArg Prod.snd (hrun invocation.write), fun e hedit => ?_⟩
    rw [hedit] at hcommand
    rcases hcommand with h | h <;> exact absurd h (by simp)
  | @edits _ update text channels target hcommand hdry hreal hread hfind htext =>
    constructor
    · intro h
      cases hwrite : invocation.write with
      | false =>
        have hsame : { invocation with write := false } = invocation := by rw [← hwrite]
        rw [← hsame, hdry]
      | true =>
        -- it has succeeded, with an edit that was to be written
        have hsame : { invocation with write := true } = invocation := by rw [← hwrite]
        rw [← hsame, hreal, hcommand] at h
        simp at h
    · intro e hedit
      right
      refine ⟨update, ?_, text, channels, target, congrArg Prod.snd hreal, hread, hfind, htext⟩
      intro write
      cases write with
      | false => exact congrArg Prod.fst hdry
      | true => exact congrArg Prod.fst hreal

end Disk

end StagedRollout
