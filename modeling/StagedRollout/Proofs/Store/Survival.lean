/-
# StagedRollout.Proofs.Store.Survival -- no command damages the channel file

A command rewrites the whole file for the sake of one mapping, so whatever else the file holds
depends on being read again as it was written. `Channel.Survives` says what may not be lost in a
channel. A channel that was read is written as a record that is read as the same channel
(`load_channelsText`); the one mapping that is replaced was edited and can be read; and so every
channel survives a command (`ChannelFile.survives_after`), and every series of commands
(`ChannelFile.run_survives`), those included that fail.
-/
import StagedRollout.Proofs.Channel.Records
import StagedRollout.Proofs.Mapping.Equality
import StagedRollout.Proofs.Rollout.Storable
import StagedRollout.Proofs.Store.Execution

namespace StagedRollout

/-! ## Texts of channels -/

/-- What the channels of a text hold after they were read. -/
theorem stored_of_readChannels {text : String} {channels : List Channel}
    (h : readChannels text = .ok channels) :
    ∀ c ∈ channels, c.Stored (nestingLimit - 4) := by
  intro c hmem
  obtain ⟨o, hread⟩ := exists_of_readWhole h
  -- a channel stands in the list, a branch in the list of the channel, a kept value in the branch
  have hroom : readList Channel.read (nestingLimit - 4 + 3 + 1) o = .ok channels := hread
  obtain ⟨_, hchannel⟩ := exists_of_readList hroom hmem
  exact Channel.stored_of_read hchannel

/-- **Written channels are read as they were.** -/
theorem readChannels_channelsText {channels : List Channel}
    (h : ∀ c ∈ channels, c.Stored (nestingLimit - 4)) :
    readChannels (channelsText channels) = .ok channels := by
  have hwritable : (Json.array (channels.map Channel.toJson)).Writable := by
    apply writableItems_of_forall
    intro item hitem
    obtain ⟨c, hmem, rfl⟩ := List.mem_map.1 hitem
    exact (h c hmem).writable
  obtain ⟨tree, hspelled, hdenotes⟩ := spellsWhole_indented hwritable
  obtain _ | _ | _ | _ | _ | ⟨hitems⟩ | _ := hdenotes
  rw [readChannels, channelsText, readWhole_spelled hspelled]
  show readList Channel.read (nestingLimit - 4 + 3 + 1) _ = _
  apply readList_of_denotes hitems
  intro c hmem tree hchannel
  exact Channel.read_of_denotes hchannel (h c hmem)

namespace ChannelFile

theorem load_channelsText {channels : List Channel}
    (h : ∀ c ∈ channels, c.Stored (nestingLimit - 4)) :
    load (some (channelsText channels)) = .ok channels := by
  apply load_eq_ok.2
  exact ⟨channelsText channels, rfl, readChannels_channelsText h⟩

/-- **Saving loses nothing that was loaded.** Whatever a file looks like, the text that is saved of
its channels is loaded as the same channels, down to the numbers and the order of everything that is
kept; and so it is saved as the same text again. -/
theorem load_saved {file : ChannelFile} {channels : List Channel} (h : file.load = .ok channels) :
    load (some (channelsText channels)) = .ok channels ∧
      channelsText <$> load (some (channelsText channels)) = .ok (channelsText channels) := by
  obtain ⟨text, -, hread⟩ := load_eq_ok.1 h
  have hload := load_channelsText (stored_of_readChannels hread)
  refine ⟨hload, ?_⟩
  rw [hload, Outcome.map_ok]

/-- A channel file that nobody would write: members in any order, a key given twice, numbers that
are equal but not the same, a channel as an array, and channels without branches. -/
def disorderly : ChannelFile :=
  some "[\x7b\"branches\":[\x7b\"w\":0,\"name\":\"b\",\"id\":\"B1\",\"w\":\x7b\"z\":[1e2,100],
    \"a\":-0\x7d\x7d],\"name\":\"main\",\"branchMapping\":\"\",\"id\":\"1\"\x7d,
    [\"2\",\"beta\",\"[]\"],\x7b\"id\":\"3\",\"name\":\"c\",\"branchMapping\":\"\"\x7d]"

/-- Its three channels are saved in another form, which is kept from then on. -/
theorem load_saved_disorderly :
    ∃ channels, disorderly.load = .ok channels ∧ channels.length = 3 ∧
      some (channelsText channels) ≠ disorderly ∧
      load (some (channelsText channels)) = .ok channels ∧
      channelsText <$> load (some (channelsText channels)) = .ok (channelsText channels) := by
  obtain ⟨channels, hload, hcheck⟩ := Outcome.exists_of_any (x := disorderly.load)
    (p := fun channels => channels.length = 3 ∧ some (channelsText channels) ≠ disorderly)
    (by decide +kernel)
  obtain ⟨hlength, hother⟩ := of_decide_eq_true hcheck
  exact ⟨channels, hload, hlength, hother, load_saved hload⟩

end ChannelFile

/-! ## Mappings of channels -/

/-- An update whose mapping can be read, is of the current version and ends in a fallback. -/
def MappingUpdate.Sound (update : MappingUpdate) : Prop :=
  ∃ m, Mapping.parse update.mappingText = .ok m ∧ m.version = currentVersion ∧
    m.endsInFallback = true

/-- **Every change is sound.** -/
theorem Channel.sound_of_respond {c : Channel} {command : Command} {update : MappingUpdate}
    (h : c.respond command = .ok (.change update)) : update.Sound := by
  obtain ⟨e, m, edited, -, hm, hedit, htext, -⟩ := respond_change h
  obtain ⟨hparse, hversion⟩ := mapping_eq_ok.1 hm
  obtain ⟨text, htext', m', hm', -, hends, hversion'⟩ := Mapping.exists_parse_of_edit hparse hedit
  obtain rfl : text = update.mappingText := Except.ok.inj (htext'.symm.trans htext)
  exact ⟨m', hm', hversion'.elim (·.trans hversion) fun h => h, hends⟩

/-- A channel that is given a change for it has the mapping that the edit leaves. -/
theorem Channel.mapping_of_change {c : Channel} {e : Edit} {text : String}
    (h : c.respond (.edit e) = .ok (.change ⟨c.id, text⟩)) :
    ∃ m edited m', c.mapping = .ok m ∧ m.edit e = .ok edited ∧
      { c with mappingText := text }.mapping = .ok m' ∧ m'.same edited = true := by
  obtain ⟨e', m, edited, ⟨⟩, hm, hedit, htext, -⟩ := respond_change h
  obtain ⟨hparse, -⟩ := mapping_eq_ok.1 hm
  obtain ⟨text', htext', m', hm', hsame, -⟩ := Mapping.exists_parse_of_edit hparse hedit
  obtain rfl : text' = text := Except.ok.inj (htext'.symm.trans htext)
  obtain ⟨read, hread, hversion, -⟩ := sound_of_respond h
  obtain rfl : read = m' := Except.ok.inj (hread.symm.trans hm')
  exact ⟨m, edited, read, hm, hedit, mapping_eq_ok.2 ⟨hread, hversion⟩, hsame⟩

/-! ## Channels that survive -/

/-- What may not be lost in a channel: what it is, its branches, that its mapping can be read, and
that its mapping ends in a fallback. -/
structure Channel.Survives (c c' : Channel) : Prop where
  id : c'.id = c.id
  name : c'.name = c.name
  branches : c'.branches = c.branches
  readable : (∃ m, c.mapping = .ok m) → ∃ m, c'.mapping = .ok m
  endsInFallback :
    (∃ m, Mapping.parse c.mappingText = .ok m ∧ m.endsInFallback = true) →
      ∃ m, Mapping.parse c'.mappingText = .ok m ∧ m.endsInFallback = true

namespace Channel

theorem Survives.refl (c : Channel) : c.Survives c :=
  ⟨rfl, rfl, rfl, fun h => h, fun h => h⟩

theorem Survives.trans {a b c : Channel} (hab : a.Survives b) (hbc : b.Survives c) :
    a.Survives c where
  id := hbc.id.trans hab.id
  name := hbc.name.trans hab.name
  branches := hbc.branches.trans hab.branches
  readable := fun h => hbc.readable (hab.readable h)
  endsInFallback := fun h => hbc.endsInFallback (hab.endsInFallback h)

/-- A channel survives a sound update, whatever its mapping was before. -/
theorem survives_update (c : Channel) {update : MappingUpdate} (h : update.Sound) :
    c.Survives { c with mappingText := update.mappingText } := by
  obtain ⟨m, hparse, hversion, hends⟩ := h
  refine ⟨rfl, rfl, rfl, ?_, ?_⟩
  · intro _
    exact ⟨m, mapping_eq_ok.2 ⟨hparse, hversion⟩⟩
  · intro _
    exact ⟨m, hparse, hends⟩

end Channel

theorem survives_refl (channels : List Channel) :
    List.Forall₂ Channel.Survives channels channels := by
  rw [List.forall₂_same]
  intro c _
  exact .refl c

theorem survives_trans {as bs cs : List Channel} (hab : List.Forall₂ Channel.Survives as bs)
    (hbc : List.Forall₂ Channel.Survives bs cs) : List.Forall₂ Channel.Survives as cs := by
  apply forall₂_trans ?_ hab hbc
  exact fun _ _ _ => .trans

/-- Replacing the mapping of one channel leaves all others as they are. -/
theorem survives_replaced {update : MappingUpdate} (hupdate : update.Sound)
    (front : List Channel) (target : Channel) (behind : List Channel) :
    List.Forall₂ Channel.Survives (front ++ target :: behind)
      (front ++ { target with mappingText := update.mappingText } :: behind) := by
  apply List.rel_append (survives_refl front)
  exact .cons (target.survives_update hupdate) (survives_refl behind)

/-- Channels that survive hold what they did. -/
theorem stored_of_survives {room : Nat} {channels channels' : List Channel}
    (h : List.Forall₂ Channel.Survives channels channels')
    (hstored : ∀ c ∈ channels, c.Stored room) : ∀ c ∈ channels', c.Stored room := by
  induction h with
  | nil => exact hstored
  | cons hfirst _ ih =>
    obtain ⟨hc, hrest⟩ := List.forall_mem_cons.1 hstored
    refine List.forall_mem_cons.2 ⟨?_, ih hrest⟩
    rw [Channel.Stored, hfirst.branches]
    exact hc

/-! ## Commands -/

namespace ChannelFile

/-- Channels that survived are read as they are written: what was read is written in a form that is
read again. -/
theorem load_survivors {file : ChannelFile} {channels channels' : List Channel}
    (h : file.load = .ok channels) (hsurvives : List.Forall₂ Channel.Survives channels channels') :
    load (some (channelsText channels')) = .ok channels' := by
  obtain ⟨text, -, hread⟩ := load_eq_ok.1 h
  apply load_channelsText
  exact stored_of_survives hsurvives (stored_of_readChannels hread)

/-- A file that a change was written to holds the channels that were there, with the mapping of one
replaced. -/
theorem load_written {file : ChannelFile} {front behind : List Channel} {c target : Channel}
    {command : Command} {text : String} (hload : file.load = .ok (front ++ target :: behind))
    (hrespond : c.respond command = .ok (.change ⟨c.id, text⟩)) :
    load (some (channelsText (front ++ { target with mappingText := text } :: behind))) =
      .ok (front ++ { target with mappingText := text } :: behind) := by
  apply load_survivors hload
  exact survives_replaced (Channel.sound_of_respond hrespond) front target behind

/-- Every channel survives a command that succeeds. -/
theorem survives_execute {file : ChannelFile} {channels : List Channel} {invocation : Invocation}
    {result : CommandResult} (h : file.load = .ok channels)
    (hexecute : file.execute invocation = .ok result) :
    ∃ channels', result.file.load = .ok channels' ∧
      List.Forall₂ Channel.Survives channels channels' := by
  obtain ⟨c, -, hexecuted⟩ := execute_eq_ok hexecute
  cases hexecuted with
  | reported => exact ⟨channels, h, survives_refl channels⟩
  | proposed => exact ⟨channels, h, survives_refl channels⟩
  | @written text front target behind hrespond _ hload =>
    obtain rfl := Except.ok.inj (hload.symm.trans h)
    have hsound := Channel.sound_of_respond hrespond
    exact ⟨_, load_written h hrespond, survives_replaced hsound front target behind⟩

/-- **Every channel survives a command**, be it a report or an edit, written or not, successful or
not. -/
theorem survives_after {file : ChannelFile} {channels : List Channel}
    (h : file.load = .ok channels) (invocation : Invocation) :
    ∃ channels', (file.after invocation).load = .ok channels' ∧
      List.Forall₂ Channel.Survives channels channels' := by
  obtain hsame | ⟨result, hexecute, hafter⟩ := file.after_eq invocation
  · exact ⟨channels, by rw [hsame, h], survives_refl channels⟩
  · rw [hafter]
    exact survives_execute h hexecute

theorem survives_run {file : ChannelFile} {channels : List Channel}
    (h : file.load = .ok channels) (invocations : List Invocation) :
    ∃ channels', (file.run invocations).load = .ok channels' ∧
      List.Forall₂ Channel.Survives channels channels' := by
  induction invocations generalizing file channels with
  | nil => exact ⟨channels, h, survives_refl channels⟩
  | cons invocation rest ih =>
    obtain ⟨next, hnext, hfirst⟩ := survives_after h invocation
    obtain ⟨channels', hload, hrest⟩ := ih hnext
    exact ⟨channels', hload, survives_trans hfirst hrest⟩

/-- **No series of commands damages the file.** Of a file that can be read, every command of a
series finds a file that can be read and leaves one, with as many channels in the same order, and
every channel survives what has been done so far and what is done next. -/
theorem run_survives {file : ChannelFile} {channels : List Channel}
    (h : file.load = .ok channels) (invocations : List Invocation) (next : Invocation) :
    ∃ before behind, (file.run invocations).load = .ok before ∧
      (file.run (invocations ++ [next])).load = .ok behind ∧
      List.Forall₂ Channel.Survives channels before ∧
      List.Forall₂ Channel.Survives before behind := by
  obtain ⟨before, hbefore, hfar⟩ := survives_run h invocations
  obtain ⟨behind, hbehind, hnear⟩ := survives_after hbefore next
  refine ⟨before, behind, hbefore, ?_, hfar, hnear⟩
  rw [run, List.foldl_append]
  exact hbehind

/-- A channel file as someone might write it: a record in its array form, and a branch with a
number and an object that nobody knows. -/
def handwritten : ChannelFile :=
  some "[[\"1\", \"main\", \"[0,[[\\\"B1\\\",\\\"true\\\"]]]\",
    [\x7b\"weight\": 1e2, \"id\":\"B1\", \"name\":\"b\", \"by\":\x7b\"z\":[], \"a\":null\x7d\x7d]]]"

/-- An edit of the one channel, to be written. -/
def written (e : Edit) : Invocation := ⟨"channels.json", "main", true, false, .edit e⟩

/-- A rollout is inserted, a change finds no unconstrained rollout, and the rollout is removed. -/
theorem run_survives_handwritten :
    ∃ channels, handwritten.load = .ok channels ∧
      ∃ before behind,
        (handwritten.run [written (.insert "B2" .full "1.0"), written (.setPercent .zero)]).load =
          .ok before ∧
        (handwritten.run ([written (.insert "B2" .full "1.0"), written (.setPercent .zero)] ++
          [written (.remove "1.0")])).load = .ok behind ∧
        List.Forall₂ Channel.Survives channels before ∧
        List.Forall₂ Channel.Survives before behind := by
  obtain ⟨channels, hload⟩ := Outcome.exists_of_isOk (x := handwritten.load) (by decide +kernel)
  exact ⟨channels, hload, run_survives hload _ _⟩

end ChannelFile

end StagedRollout
