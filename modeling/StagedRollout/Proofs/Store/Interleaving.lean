/-
# StagedRollout.Proofs.Store.Interleaving -- clients that share a channel file

A command makes one access to the file or two: it fetches its channel, and an edit that is to be
written then hands an update to the store. Between the two, other clients may put any number of
texts in place of the file, each of which holds all channels. If every client works on a channel of
its own, no update is lost even so (`Session.no_update_lost`).

The reason is that a client depends on nothing but the channel that it finds under its name, and
changes nothing but this channel: an update is applied to a fresh load of the file, not to the one
that it was computed from. `Client.accessOwn` is an access as it looks from the channel alone, and
`Client.access_own` says that every access to the file is such a one. So an order of accesses comes
to the same for a client as its own accesses in a row, and these are its commands one by one.
-/
import Mathlib.Logic.Function.Basic
import StagedRollout.Proofs.Store.Addressing

namespace StagedRollout

/-! ## Commands as accesses -/

/-- What a command has come to when it has fetched its channel. -/
inductive FirstAccess
  /-- It has an outcome. -/
  | settled (outcome : Except CommandError Json)
  /-- It has an update for the store. -/
  | write (channelName : String) (update : MappingUpdate)

/-- The first access of a command, by what was fetched. -/
def Invocation.firstAccess (invocation : Invocation) : Except StoreError Channel → FirstAccess
  | .error cause => .settled (.error (.fetch invocation.channel cause))
  | .ok c =>
    match c.respond invocation.command with
    | .error cause => .settled (.error (.rollout cause))
    | .ok (.report json) => .settled (.ok json)
    | .ok (.change update) =>
      if invocation.write then .write c.name update else .settled (.ok (updateReport update false))

/-- An update that the first access leaves to be written is the response of the channel that was
fetched. -/
theorem Invocation.firstAccess_eq_write {invocation : Invocation}
    {found : Except StoreError Channel} {channelName : String} {update : MappingUpdate}
    (h : invocation.firstAccess found = .write channelName update) :
    ∃ c, found = .ok c ∧ c.respond invocation.command = .ok (.change update) := by
  unfold firstAccess at h
  split at h
  · exact absurd h (by simp)
  · next c =>
    refine ⟨c, rfl, ?_⟩
    split at h
    · exact absurd h (by simp)
    · exact absurd h (by simp)
    · next update' hrespond =>
      split at h
      · obtain ⟨-, rfl⟩ := FirstAccess.write.inj h
        exact hrespond
      · exact absurd h (by simp)

namespace ChannelFile

/-- The second access of a command: its outcome, and the file that it leaves. -/
def secondAccess (file : ChannelFile) (channelName : String) (update : MappingUpdate) :
    Except CommandError Json × ChannelFile :=
  match file.replaceMapping update with
  | .ok (_, file) => (.ok (updateReport update true), file)
  | .error cause => (.error (.update channelName cause), file)

/-- **A command is its accesses**, if nobody gets in between. -/
theorem execute_eq_accesses (file : ChannelFile) (invocation : Invocation) :
    (CommandResult.output <$> file.execute invocation, file.after invocation) =
      match invocation.firstAccess (file.fetch invocation.channel) with
      | .settled outcome => (outcome, file)
      | .write channelName update => file.secondAccess channelName update := by
  unfold after execute Invocation.firstAccess
  cases file.fetch invocation.channel with
  | error cause => rfl
  | ok c =>
    dsimp only
    cases c.respond invocation.command with
    | error cause => rfl
    | ok response =>
      cases response with
      | report json => rfl
      | change update =>
        cases invocation.write with
        | false => rfl
        | true =>
          rw [CommandError.ofRollout, Outcome.ok_bind, settle, if_pos rfl]
          show _ = file.secondAccess c.name update
          unfold secondAccess
          cases file.replaceMapping update <;> rfl

/-- The outcomes of a series of commands, each of which finds what the ones before it left. -/
def outcomes (file : ChannelFile) : List Invocation → List (Except CommandError Json)
  | [] => []
  | invocation :: rest =>
    (CommandResult.output <$> file.execute invocation) :: (file.after invocation).outcomes rest

/-! ## Files with keys -/

/-- A file whose channels have distinct ids and distinct names, which are known in their order. -/
structure Keyed (file : ChannelFile) (ids names : List String) : Prop where
  load : ∃ channels, file.load = .ok channels ∧ channels.map Channel.id = ids ∧
    channels.map Channel.name = names
  ids_nodup : ids.Nodup
  names_nodup : names.Nodup

/-- **A write changes one channel**, the one that was fetched: the update of a channel is stored
there, and what is found under any other name is what was found before. -/
theorem Keyed.secondAccess {file : ChannelFile} {ids names : List String} {name : String}
    {c : Channel} {command : Command} {update : MappingUpdate} (h : file.Keyed ids names)
    (hfetch : file.fetch name = .ok c) (hrespond : c.respond command = .ok (.change update))
    (channelName : String) :
    ∃ file' : ChannelFile,
      file.secondAccess channelName update = (.ok (updateReport update true), file') ∧
      file'.Keyed ids names ∧
      file'.fetch name = .ok { c with mappingText := update.mappingText } ∧
      ∀ other, other ≠ name → file'.fetch other = file.fetch other := by
  obtain ⟨-, -, -, -, -, -, -, hid⟩ := Channel.respond_change hrespond
  obtain ⟨channelId, text⟩ := update
  obtain rfl : channelId = c.id := hid
  obtain ⟨channels, hload, hids, hnames⟩ := h.load
  obtain ⟨front, behind, hload', hname, hfront⟩ := fetch_eq_ok.1 hfetch
  obtain rfl := Except.ok.inj (hload.symm.trans hload')
  have hunique : ∀ d ∈ front, d.id ≠ c.id := by
    apply ne_of_nodup_map
    rw [hids]
    exact h.ids_nodup
  have hreplace : file.replaceMapping ⟨c.id, text⟩ = .ok ({ c with mappingText := text },
      some (channelsText (front ++ { c with mappingText := text } :: behind))) := by
    apply replaceMapping_eq_ok.2
    refine ⟨_, _, hload, replaceMappingIn_eq_some.2 ?_, rfl⟩
    exact ⟨front, c, behind, rfl, hunique, rfl, rfl, rfl⟩
  have hwritten := load_written hload hrespond
  refine ⟨_, by rw [ChannelFile.secondAccess, hreplace], ⟨⟨_, hwritten, ?_, ?_⟩, ?_, ?_⟩, ?_, ?_⟩
  · simpa using hids
  · simpa using hnames
  · exact h.ids_nodup
  · exact h.names_nodup
  · exact fetch_eq_ok.2 ⟨front, behind, hwritten, hname, hfront⟩
  · intro other hother
    have hne : ¬ c.name = other := fun heq => hother (heq.symm.trans hname)
    rw [fetch, fetch, hwritten, hload, Outcome.ok_bind, Outcome.ok_bind]
    simp [hne]

end ChannelFile

/-! ## Clients -/

/-- A client that runs one command after the other. -/
structure Client where
  /-- The update of the command that has made its first access but not its second. -/
  unwritten : Option (String × MappingUpdate)
  /-- The commands that have made no access yet. -/
  ahead : List Invocation
  /-- The outcomes of the commands that are over. -/
  outcomes : List (Except CommandError Json)

/-- The client goes on from the first access of a command. -/
def FirstAccess.resume (ahead : List Invocation) (outcomes : List (Except CommandError Json)) :
    FirstAccess → Client
  | .settled outcome => ⟨none, ahead, outcomes ++ [outcome]⟩
  | .write channelName update => ⟨some (channelName, update), ahead, outcomes⟩

namespace Client

/-- A client between two commands. -/
def between (outcomes : List (Except CommandError Json)) (ahead : List Invocation) : Client :=
  ⟨none, ahead, outcomes⟩

/-- A client that has not begun. -/
def start (commands : List Invocation) : Client := between [] commands

/-- All commands of the client are over. -/
def Finished (client : Client) : Prop := client.unwritten = none ∧ client.ahead = []

/-- The next access of a client to the file, if there is one left. -/
def access (client : Client) (file : ChannelFile) : Client × ChannelFile :=
  match client with
  | ⟨some (channelName, update), ahead, outcomes⟩ =>
    let (outcome, file) := file.secondAccess channelName update
    (⟨none, ahead, outcomes ++ [outcome]⟩, file)
  | ⟨none, [], outcomes⟩ => (⟨none, [], outcomes⟩, file)
  | ⟨none, invocation :: rest, outcomes⟩ =>
    ((invocation.firstAccess (file.fetch invocation.channel)).resume rest outcomes, file)

/-- The accesses of a client that is alone with a file. -/
def accesses (client : Client) (file : ChannelFile) : Nat → Client × ChannelFile
  | 0 => (client, file)
  | n + 1 =>
    let (client, file) := client.access file
    client.accesses file n

/-! ## Clients alone -/

theorem accesses_succ (client : Client) (file : ChannelFile) (n : Nat) :
    client.accesses file (n + 1) = (client.access file).1.accesses (client.access file).2 n := rfl

theorem accesses_at_end (outcomes : List (Except CommandError Json)) (file : ChannelFile)
    (n : Nat) : (between outcomes []).accesses file n = (between outcomes [], file) := by
  induction n with
  | zero => rfl
  | succ n ih => exact ih

/-- The next command of a client that is alone takes one access or two. -/
theorem access_command (outcomes : List (Except CommandError Json)) (invocation : Invocation)
    (rest : List Invocation) (file : ChannelFile) :
    let next : Client × ChannelFile :=
      (between (outcomes ++ [CommandResult.output <$> file.execute invocation]) rest,
        file.after invocation)
    (between outcomes (invocation :: rest)).access file = next ∨
      ∃ client, (between outcomes (invocation :: rest)).access file = (client, file) ∧
        ¬ client.Finished ∧ client.access file = next := by
  have hexecute := file.execute_eq_accesses invocation
  dsimp only [between, access]
  cases hfirst : invocation.firstAccess (file.fetch invocation.channel) with
  | settled outcome =>
    rw [hfirst] at hexecute
    obtain ⟨rfl, hafter⟩ := Prod.mk.inj hexecute
    rw [hafter]
    exact .inl rfl
  | write channelName update =>
    rw [hfirst] at hexecute
    refine .inr ⟨_, rfl, fun h => absurd h.1 (by simp [FirstAccess.resume]), ?_⟩
    dsimp only [FirstAccess.resume] at hexecute ⊢
    rw [← hexecute]

/-- A client that is alone runs its commands one by one. It has come to the end of them, or it has
made fewer than two accesses for each. -/
theorem accesses_cases (outcomes : List (Except CommandError Json)) (commands : List Invocation)
    (file : ChannelFile) (n : Nat) :
    (between outcomes commands).accesses file n =
        (between (outcomes ++ file.outcomes commands) [], file.run commands) ∨
      ¬ ((between outcomes commands).accesses file n).1.Finished ∧ n < 2 * commands.length := by
  induction commands generalizing outcomes file n with
  | nil =>
    rw [accesses_at_end, ChannelFile.outcomes, List.append_nil]
    exact .inl rfl
  | cons invocation rest ih =>
    rw [ChannelFile.outcomes, ChannelFile.run, List.foldl_cons, List.append_cons, List.length_cons]
    cases n with
    | zero => exact .inr ⟨fun h => absurd h.2 (by simp [accesses, between]), by omega⟩
    | succ n =>
      rw [accesses_succ]
      obtain hnext | ⟨client, hfirst, hgoing, hnext⟩ :=
        access_command outcomes invocation rest file
      · rw [hnext]
        exact (ih _ _ n).imp_right (And.imp_right fun hn => by omega)
      · rw [hfirst]
        cases n with
        | zero => exact .inr ⟨hgoing, by omega⟩
        | succ n =>
          rw [accesses_succ, hnext]
          exact (ih _ _ n).imp_right (And.imp_right fun hn => by omega)

/-! ## Clients and their channels -/

/-- The next access of a client as it looks from the channel that it works on, of which it finds a
record or why there is none. -/
def accessOwn (client : Client) (found : Except StoreError Channel) :
    Client × Except StoreError Channel :=
  match client with
  | ⟨some (_, update), ahead, outcomes⟩ =>
    (⟨none, ahead, outcomes ++ [.ok (updateReport update true)]⟩,
      (fun c => { c with mappingText := update.mappingText }) <$> found)
  | ⟨none, [], outcomes⟩ => (⟨none, [], outcomes⟩, found)
  | ⟨none, invocation :: rest, outcomes⟩ =>
    ((invocation.firstAccess found).resume rest outcomes, found)

/-- The accesses of a client as they look from its channel. -/
def accessesOwn (client : Client) (found : Except StoreError Channel) :
    Nat → Client × Except StoreError Channel
  | 0 => (client, found)
  | n + 1 =>
    let (client, found) := client.accessOwn found
    client.accessesOwn found n

/-- A client that works on the channel of a name, under which it finds something. The update that it
has not written yet is still one of the channel that it finds. -/
structure WorksOn (client : Client) (name : String) (found : Except StoreError Channel) : Prop where
  ahead : ∀ invocation ∈ client.ahead, invocation.channel = name
  unwritten : ∀ channelName update, client.unwritten = some (channelName, update) →
    ∃ c command, found = .ok c ∧ c.respond command = .ok (.change update)

section Access

variable {client : Client} {name : String} {ids names : List String}

/-- A client goes on working on its channel. -/
theorem WorksOn.accessOwn {found : Except StoreError Channel} (h : client.WorksOn name found) :
    (client.accessOwn found).1.WorksOn name (client.accessOwn found).2 := by
  obtain ⟨_ | ⟨channelName, update⟩, ahead, outcomes⟩ := client
  · cases ahead with
    | nil => exact h
    | cons invocation rest =>
      obtain ⟨-, hahead⟩ := List.forall_mem_cons.1 h.ahead
      rw [Client.accessOwn]
      cases hfirst : invocation.firstAccess found with
      | settled outcome => exact ⟨hahead, by simp [FirstAccess.resume]⟩
      | write channelName update =>
        refine ⟨hahead, ?_⟩
        intro channelName' update' heq
        obtain ⟨-, rfl⟩ := Prod.mk.inj (Option.some.inj heq)
        obtain ⟨c, hfound, hrespond⟩ := Invocation.firstAccess_eq_write hfirst
        exact ⟨c, _, hfound, hrespond⟩
  · exact ⟨h.ahead, by simp [Client.accessOwn]⟩

/-- **An access to the file is one to the client's channel.** It comes to what it looks like from
there, and under other names nothing changes. -/
theorem access_own {file : ChannelFile} (hfile : file.Keyed ids names)
    (h : client.WorksOn name (file.fetch name)) :
    (client.access file).2.Keyed ids names ∧
      ((client.access file).1, (client.access file).2.fetch name) =
        client.accessOwn (file.fetch name) ∧
      ∀ other, other ≠ name → (client.access file).2.fetch other = file.fetch other := by
  obtain ⟨_ | ⟨channelName, update⟩, ahead, outcomes⟩ := client
  · cases ahead with
    | nil => exact ⟨hfile, rfl, fun _ _ => rfl⟩
    | cons invocation rest =>
      obtain ⟨rfl, -⟩ := List.forall_mem_cons.1 h.ahead
      exact ⟨hfile, rfl, fun _ _ => rfl⟩
  · obtain ⟨c, command, hfetch, hrespond⟩ := h.unwritten channelName update rfl
    obtain ⟨file', hsecond, hkeyed, hown, hothers⟩ :=
      hfile.secondAccess hfetch hrespond channelName
    rw [access, hsecond]
    refine ⟨hkeyed, ?_, hothers⟩
    rw [accessOwn, hfetch]
    exact congrArg _ hown

/-- The accesses of a client that is alone are accesses to its channel. -/
theorem accesses_own {file : ChannelFile} (hfile : file.Keyed ids names)
    (h : client.WorksOn name (file.fetch name)) (n : Nat) :
    ((client.accesses file n).1, (client.accesses file n).2.fetch name) =
      client.accessesOwn (file.fetch name) n := by
  induction n generalizing client file with
  | zero => rfl
  | succ n ih =>
    obtain ⟨hkeyed, hown, -⟩ := access_own hfile h
    have hnext := h.accessOwn
    rw [← hown] at hnext
    rw [accesses, accessesOwn, ← hown]
    exact ih hkeyed hnext

end Access

end Client

/-! ## Sessions -/

/-- A file, and the clients that share it. -/
structure Session (ι : Type) where
  file : ChannelFile
  clients : ι → Client

namespace Session

variable {ι : Type}

/-- A session in which nobody has begun. -/
def start (file : ChannelFile) (commands : ι → List Invocation) : Session ι :=
  ⟨file, fun i => .start (commands i)⟩

/-- Every client works on a channel of its own, of a file with distinct keys. -/
structure Orderly (s : Session ι) (channelOf : ι → String) (ids names : List String) : Prop where
  keyed : s.file.Keyed ids names
  own : Function.Injective channelOf
  works : ∀ i, (s.clients i).WorksOn (channelOf i) (s.file.fetch (channelOf i))

/-- A session is orderly at its start. -/
theorem orderly_start {file : ChannelFile} {ids names : List String} (hfile : file.Keyed ids names)
    {channelOf : ι → String} (hown : Function.Injective channelOf) {commands : ι → List Invocation}
    (hcommands : ∀ i, ∀ invocation ∈ commands i, invocation.channel = channelOf i) :
    (start file commands).Orderly channelOf ids names := by
  refine ⟨hfile, hown, ?_⟩
  intro i
  exact ⟨hcommands i, fun _ _ h => absurd h (by simp [start, Client.start, Client.between])⟩

variable [DecidableEq ι]

/-- One of the clients makes its next access. -/
def access (s : Session ι) (i : ι) : Session ι :=
  let (client, file) := (s.clients i).access s.file
  ⟨file, Function.update s.clients i client⟩

/-- The clients make their accesses in an order. -/
def run (s : Session ι) (order : List ι) : Session ι := order.foldl access s

section Runs

variable {s : Session ι} {channelOf : ι → String} {ids names : List String}

/-- **What one access does**: the client has made an access to its channel, for all others nothing
has changed, and the session is still orderly. -/
theorem Orderly.access (h : s.Orderly channelOf ids names) (i : ι) :
    (s.access i).Orderly channelOf ids names ∧
      ((s.access i).clients i, (s.access i).file.fetch (channelOf i)) =
        (s.clients i).accessOwn (s.file.fetch (channelOf i)) ∧
      (∀ j, j ≠ i → (s.access i).clients j = s.clients j) ∧
      ∀ name, name ≠ channelOf i → (s.access i).file.fetch name = s.file.fetch name := by
  obtain ⟨hkeyed, hown, hothers⟩ := Client.access_own h.keyed (h.works i)
  have hclient : (s.access i).clients i = ((s.clients i).access s.file).1 :=
    Function.update_self ..
  have hclients : ∀ j, j ≠ i → (s.access i).clients j = s.clients j := by
    intro j hj
    exact Function.update_of_ne hj ..
  refine ⟨⟨hkeyed, h.own, ?_⟩, ?_, hclients, hothers⟩
  · intro j
    by_cases hj : j = i
    · subst hj
      have hworks := (h.works j).accessOwn
      rw [← hown] at hworks
      rw [hclient]
      exact hworks
    · have hsame := hothers (channelOf j) fun heq => hj (h.own heq)
      rw [hclients j hj]
      exact hsame ▸ h.works j
  · rw [hclient]
    exact hown

/-- **In whatever order the accesses come**, each client has made its own accesses to its channel,
and where nobody works nothing has changed. -/
theorem Orderly.run (h : s.Orderly channelOf ids names) (order : List ι) :
    (s.run order).Orderly channelOf ids names ∧
      (∀ i, ((s.run order).clients i, (s.run order).file.fetch (channelOf i)) =
        (s.clients i).accessesOwn (s.file.fetch (channelOf i)) (order.count i)) ∧
      ∀ name, (∀ i, channelOf i ≠ name) → (s.run order).file.fetch name = s.file.fetch name := by
  induction order generalizing s with
  | nil => exact ⟨h, fun i => rfl, fun name _ => rfl⟩
  | cons i rest ih =>
    obtain ⟨hnext, hown, hclients, hothers⟩ := h.access i
    obtain ⟨hlast, hviews, hunowned⟩ := ih hnext
    refine ⟨hlast, ?_, ?_⟩
    · intro j
      by_cases hj : j = i
      · subst hj
        rw [List.count_cons_self, Client.accessesOwn, ← hown]
        exact hviews j
      · rw [List.count_cons_of_ne (Ne.symm hj), ← hclients j hj,
          ← hothers (channelOf j) fun heq => hj (h.own heq)]
        exact hviews j
    · intro name hname
      rw [← hothers name (hname i).symm]
      exact hunowned name hname

end Runs

/-- **No update is lost between channels.** Of a file whose channels have distinct ids and distinct
names, let any number of clients each work on a channel of its own. Whatever the order of their
accesses is, the file can still be read and has the same channels, each to be found under its name.
A client that has had two accesses for each command is at the end of its commands; one that is has
got the outcomes that it would have got alone, and its channel is what it would be then; and in the
midst of its commands it has come as far as alone by as many accesses. A channel on which nobody
works is as it was. -/
theorem no_update_lost {file : ChannelFile} {channels : List Channel}
    (hload : file.load = .ok channels) (hids : (channels.map Channel.id).Nodup)
    (hnames : (channels.map Channel.name).Nodup) {channelOf : ι → String}
    (hown : Function.Injective channelOf) {commands : ι → List Invocation}
    (hcommands : ∀ i, ∀ invocation ∈ commands i, invocation.channel = channelOf i)
    (order : List ι) :
    let final := (start file commands).run order
    (∃ channels', final.file.load = .ok channels' ∧
      channels'.map Channel.id = channels.map Channel.id ∧
      channels'.map Channel.name = channels.map Channel.name ∧
      ∀ c ∈ channels', final.file.fetch c.name = .ok c) ∧
    (∀ i, 2 * (commands i).length ≤ order.count i → (final.clients i).Finished) ∧
    (∀ i, (final.clients i).Finished →
      (final.clients i).outcomes = file.outcomes (commands i) ∧
      final.file.fetch (channelOf i) = (file.run (commands i)).fetch (channelOf i)) ∧
    (∀ i, final.clients i = ((Client.start (commands i)).accesses file (order.count i)).1 ∧
      final.file.fetch (channelOf i) =
        ((Client.start (commands i)).accesses file (order.count i)).2.fetch (channelOf i)) ∧
    ∀ name, (∀ i, channelOf i ≠ name) → final.file.fetch name = file.fetch name := by
  intro final
  have hfile : file.Keyed (channels.map Channel.id) (channels.map Channel.name) :=
    ⟨⟨channels, hload, rfl, rfl⟩, hids, hnames⟩
  have hstart := orderly_start hfile hown hcommands
  obtain ⟨hfinal, hviews, hunowned⟩ := hstart.run order
  -- each client has come as far as alone, since both ways it has made the same accesses
  have halone : ∀ i,
      final.clients i = ((Client.start (commands i)).accesses file (order.count i)).1 ∧
      final.file.fetch (channelOf i) =
        ((Client.start (commands i)).accesses file (order.count i)).2.fetch (channelOf i) := by
    intro i
    have hown := Client.accesses_own hfile (hstart.works i) (order.count i)
    exact Prod.mk.inj ((hviews i).trans hown.symm)
  refine ⟨?_, ?_, ?_, halone, hunowned⟩
  · obtain ⟨channels', hload', hids', hnames'⟩ := hfinal.keyed.load
    refine ⟨channels', hload', hids', hnames', ?_⟩
    intro c hmem
    exact ChannelFile.fetch_of_mem hload' (hnames'.symm ▸ hnames) hmem
  · intro i hcount
    obtain hend | ⟨-, hfew⟩ := Client.accesses_cases [] (commands i) file (order.count i)
    · rw [(halone i).1, Client.start, hend]
      exact ⟨rfl, rfl⟩
    · omega
  · intro i hfinished
    obtain ⟨hclient, hfetch⟩ := halone i
    rw [hclient] at hfinished
    obtain hend | ⟨hgoing, -⟩ := Client.accesses_cases [] (commands i) file (order.count i)
    · rw [hclient, hfetch, Client.start, hend]
      exact ⟨rfl, rfl⟩
    · exact absurd hfinished hgoing

/-- The commands of two clients that insert a rollout each, into different channels. -/
def insertions : Bool → List Invocation
  | false => [ChannelFile.written (.insert "B2" .full "1.0")]
  | true => [ChannelFile.writtenToBeta (.insert "B3" .zero "2.0")]

/-- Both clients fetch their channels before either writes, and the update that was made first is
written last. Both insertions succeed, and both are kept. -/
theorem no_update_lost_crossed :
    (∀ second, (ChannelFile.twoChannels.outcomes (insertions second)).all Except.isOk = true) ∧
      ∀ second, (((start ChannelFile.twoChannels insertions).run
            [false, true, true, false]).clients second).outcomes =
          ChannelFile.twoChannels.outcomes (insertions second) ∧
        ((start ChannelFile.twoChannels insertions).run
            [false, true, true, false]).file.fetch (if second then "beta" else "main") =
          (ChannelFile.twoChannels.run (insertions second)).fetch
            (if second then "beta" else "main") := by
  obtain ⟨channels, hload, hkeys⟩ := Outcome.exists_of_any (x := ChannelFile.twoChannels.load)
    (p := fun channels => (channels.map Channel.id).Nodup ∧ (channels.map Channel.name).Nodup)
    (by decide +kernel)
  obtain ⟨hids, hnames⟩ := of_decide_eq_true hkeys
  have hown : Function.Injective fun second : Bool => if second then "beta" else "main" := by
    unfold Function.Injective
    decide
  have hcommands : ∀ second, ∀ invocation ∈ insertions second,
      invocation.channel = if second then "beta" else "main" := by
    decide
  obtain ⟨-, hfinished, hresults, -⟩ :=
    no_update_lost hload hids hnames hown hcommands [false, true, true, false]
  refine ⟨by decide +kernel, fun second => hresults second (hfinished second ?_)⟩
  cases second <;> decide

end Session

end StagedRollout
