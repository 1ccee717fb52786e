/-
# StagedRollout.Proofs.Store.Execution -- what a command that succeeds has done

A command that succeeds was computed from the first channel of the name that it was given, and it
has done one of three things: it has reported on the channel, it has shown a new mapping for it, or
it has handed that mapping to the store, which gives it to the first channel of the *id*. `Executed`
has a case for each, with all that the case implies, so that what is proved of commands elsewhere
goes by these cases (`ChannelFile.execute_eq_ok`).
-/
import StagedRollout.Proofs.Outcome
import StagedRollout.Store.Command

namespace StagedRollout

/-! ## Accesses to the store -/

/-- The first item with a property, and all that stands around it. -/
theorem find?_eq_some_split {α : Type} {p : α → Bool} {items : List α} {a : α} :
    items.find? p = some a ↔ ∃ front behind, items = front ++ a :: behind ∧ p a = true ∧
      ∀ b ∈ front, p b = false := by
  rw [List.find?_eq_some_iff_append]
  simp only [Bool.not_eq_true']
  constructor
  · rintro ⟨hp, front, behind, hitems, hfront⟩
    exact ⟨front, behind, hitems, hp, hfront⟩
  · rintro ⟨front, behind, hitems, hp, hfront⟩
    exact ⟨hp, front, behind, hitems, hfront⟩

/-- Of items that are told apart by a key, none in front of an item has its key. -/
theorem ne_of_nodup_map {α β : Type} {f : α → β} {front behind : List α} {a : α}
    (h : ((front ++ a :: behind).map f).Nodup) : ∀ b ∈ front, f b ≠ f a := by
  intro b hb
  rw [List.map_append, List.nodup_append] at h
  obtain ⟨-, -, hdisjoint⟩ := h
  apply hdisjoint
  · exact List.mem_map_of_mem hb
  · exact List.mem_cons_self

/-- The mapping is given to the first channel of the id, and to no other. -/
theorem replaceMappingIn_eq_some {update : MappingUpdate} {channels channels' : List Channel}
    {replaced : Channel} :
    replaceMappingIn update channels = some (replaced, channels') ↔
      ∃ front target behind, channels = front ++ target :: behind ∧
        (∀ d ∈ front, d.id ≠ update.channelId) ∧ target.id = update.channelId ∧
        replaced = { target with mappingText := update.mappingText } ∧
        channels' = front ++ replaced :: behind := by
  constructor
  · intro h
    induction channels generalizing channels' with
    | nil => exact absurd h (by simp [replaceMappingIn])
    | cons c rest ih =>
      rw [replaceMappingIn] at h
      split at h
      · next hid =>
        obtain ⟨rfl, rfl⟩ := Prod.mk.inj (Option.some.inj h)
        exact ⟨[], c, rest, rfl, by simp, hid, rfl, rfl⟩
      · next hid =>
        obtain ⟨⟨replaced', rest'⟩, hrest, heq⟩ := Option.map_eq_some_iff.1 h
        obtain ⟨rfl, rfl⟩ := Prod.mk.inj heq
        obtain ⟨front, target, behind, rfl, hfront, htarget, hreplaced, rfl⟩ := ih hrest
        exact ⟨c :: front, target, behind, rfl, List.forall_mem_cons.2 ⟨hid, hfront⟩, htarget,
          hreplaced, rfl⟩
  · rintro ⟨front, target, behind, rfl, hfront, htarget, rfl, rfl⟩
    induction front with
    | nil => simp [replaceMappingIn, htarget]
    | cons d front ih =>
      obtain ⟨hid, hfront⟩ := List.forall_mem_cons.1 hfront
      rw [List.cons_append, replaceMappingIn, if_neg hid, ih hfront]
      rfl

namespace ChannelFile

theorem load_eq_ok {file : ChannelFile} {channels : List Channel} :
    file.load = .ok channels ↔ ∃ text, file = some text ∧ readChannels text = .ok channels := by
  cases file with
  | none => simp [load]
  | some text =>
    rw [load]
    cases hread : readChannels text <;> simp [hread]

/-- A channel is fetched by its name, the first one counts. -/
theorem fetch_eq_ok {file : ChannelFile} {name : String} {c : Channel} :
    file.fetch name = .ok c ↔ ∃ front behind, file.load = .ok (front ++ c :: behind) ∧
      c.name = name ∧ ∀ d ∈ front, d.name ≠ name := by
  rw [fetch, Outcome.bind_eq_ok]
  constructor
  · rintro ⟨channels, hload, hfind⟩
    split at hfind
    · next found hfound =>
      obtain rfl : found = c := Except.ok.inj hfind
      obtain ⟨front, behind, rfl, hname, hfront⟩ := find?_eq_some_split.1 hfound
      exact ⟨front, behind, hload, of_decide_eq_true hname,
        fun d hd => of_decide_eq_false (hfront d hd)⟩
    · exact absurd hfind (by simp)
  · rintro ⟨front, behind, hload, hname, hfront⟩
    have hfound : (front ++ c :: behind).find? (·.name = name) = some c := by
      apply find?_eq_some_split.2
      exact ⟨front, behind, rfl, decide_eq_true hname,
        fun d hd => decide_eq_false (hfront d hd)⟩
    refine ⟨_, hload, ?_⟩
    rw [hfound]
    rfl

/-- A channel that no other shares its name with is fetched by it. -/
theorem fetch_of_mem {file : ChannelFile} {channels : List Channel} {c : Channel}
    (hload : file.load = .ok channels) (hnames : (channels.map Channel.name).Nodup)
    (hmem : c ∈ channels) : file.fetch c.name = .ok c := by
  obtain ⟨front, behind, rfl⟩ := List.append_of_mem hmem
  apply fetch_eq_ok.2
  exact ⟨front, behind, hload, rfl, ne_of_nodup_map hnames⟩

/-- Where ids are distinct, a channel with the id of a fetched channel is that channel. -/
theorem eq_of_fetch {file : ChannelFile} {channels : List Channel} {name : String}
    {c target : Channel} (hload : file.load = .ok channels)
    (hids : (channels.map Channel.id).Nodup) (hfetch : file.fetch name = .ok c)
    (hmem : target ∈ channels) (htarget : target.id = c.id) : target = c := by
  obtain ⟨front, behind, hload', -, -⟩ := fetch_eq_ok.1 hfetch
  obtain rfl := Except.ok.inj (hload.symm.trans hload')
  obtain ⟨before, rest, hsplit⟩ := List.append_of_mem hmem
  have hc : c ∈ before ++ target :: rest := by
    rw [← hsplit]
    simp
  rw [hsplit] at hids
  -- a channel on either side of the other would share its id
  obtain hc | rfl | hc := by simpa using hc
  · exact absurd htarget.symm (ne_of_nodup_map hids c hc)
  · rfl
  · rw [List.map_append, List.nodup_append, List.map_cons, List.nodup_cons] at hids
    obtain ⟨-, ⟨hnot, -⟩, -⟩ := hids
    exact absurd (htarget ▸ List.mem_map_of_mem hc) hnot

theorem replaceMapping_eq_ok {file file' : ChannelFile} {update : MappingUpdate}
    {replaced : Channel} :
    file.replaceMapping update = .ok (replaced, file') ↔
      ∃ channels channels', file.load = .ok channels ∧
        replaceMappingIn update channels = some (replaced, channels') ∧
        file' = some (channelsText channels') := by
  rw [replaceMapping, Outcome.bind_eq_ok]
  constructor
  · rintro ⟨channels, hload, h⟩
    split at h
    · next found channels' hreplace =>
      obtain ⟨rfl, rfl⟩ := Prod.mk.inj (Except.ok.inj h)
      exact ⟨channels, channels', hload, hreplace, rfl⟩
    · exact absurd h (by simp)
  · rintro ⟨channels, channels', hload, hreplace, rfl⟩
    refine ⟨channels, hload, ?_⟩
    rw [hreplace]
    rfl

end ChannelFile

/-! ## Responses -/

theorem Channel.mapping_eq_ok {c : Channel} {m : Mapping} :
    c.mapping = .ok m ↔ Mapping.parse c.mappingText = .ok m ∧ m.version = currentVersion := by
  simp only [mapping, Outcome.bind_eq_ok, Mapping.checkVersion]
  constructor
  · rintro ⟨m', hparse, ⟨⟩, hversion, h⟩
    obtain rfl := Except.ok.inj h
    split at hversion
    · next heq => exact ⟨hparse, heq⟩
    · exact absurd hversion (by simp)
  · rintro ⟨hparse, hversion⟩
    exact ⟨m, hparse, (), if_pos hversion, rfl⟩

/-- A change is what an edit leaves of the channel's mapping. -/
theorem Channel.respond_change {c : Channel} {command : Command} {update : MappingUpdate}
    (h : c.respond command = .ok (.change update)) :
    ∃ e m edited, command = .edit e ∧ c.mapping = .ok m ∧ m.edit e = .ok edited ∧
      edited.toText = .ok update.mappingText ∧ update.channelId = c.id := by
  cases command with
  | classify =>
    obtain ⟨_, -, heq⟩ := Outcome.map_eq_ok.1 h
    exact absurd heq (by simp)
  | info =>
    obtain ⟨_, -, heq⟩ := Outcome.map_eq_ok.1 h
    exact absurd heq (by simp)
  | edit e =>
    obtain ⟨m, hm, h⟩ := Outcome.bind_eq_ok.1 h
    obtain ⟨edited, hedit, h⟩ := Outcome.bind_eq_ok.1 h
    obtain ⟨update', hupdate, h⟩ := Outcome.bind_eq_ok.1 h
    obtain ⟨text, htext, hof⟩ := Outcome.bind_eq_ok.1 hupdate
    obtain rfl := Except.ok.inj hof
    obtain rfl := Response.change.inj (Except.ok.inj h)
    exact ⟨e, m, edited, rfl, hm, hedit, htext, rfl⟩

/-- An edit of a mapping comes to a change. -/
theorem Channel.respond_edit {c : Channel} {e : Edit} {response : Response}
    (h : c.respond (.edit e) = .ok response) : ∃ update, response = .change update := by
  obtain ⟨_, -, h⟩ := Outcome.bind_eq_ok.1 h
  obtain ⟨_, -, h⟩ := Outcome.bind_eq_ok.1 h
  obtain ⟨update, -, h⟩ := Outcome.bind_eq_ok.1 h
  exact ⟨update, (Except.ok.inj h).symm⟩

theorem CommandError.ofRollout_eq_ok {α : Type} {x : Except RolloutError α} {a : α} :
    ofRollout x = .ok a ↔ x = .ok a := by
  cases x <;> simp [ofRollout]

/-! ## Commands -/

namespace ChannelFile

/-- What a command that succeeds has done on behalf of the channel that it fetched. -/
inductive Executed (file : ChannelFile) (invocation : Invocation) (c : Channel) :
    CommandResult → Prop
  /-- It has reported on the channel. -/
  | reported {json : Json} (hrespond : c.respond invocation.command = .ok (.report json)) :
    Executed file invocation c ⟨json, file⟩
  /-- It has shown a mapping for the channel. -/
  | proposed {text : String}
    (hrespond : c.respond invocation.command = .ok (.change ⟨c.id, text⟩))
    (hwrite : invocation.write = false) :
    Executed file invocation c ⟨updateReport ⟨c.id, text⟩ false, file⟩
  /-- It has given a mapping to the first channel of the channel's id. -/
  | written {text : String} {front : List Channel} {target : Channel} {behind : List Channel}
    (hrespond : c.respond invocation.command = .ok (.change ⟨c.id, text⟩))
    (hwrite : invocation.write = true)
    (hload : file.load = .ok (front ++ target :: behind))
    (hfront : ∀ d ∈ front, d.id ≠ c.id) (htarget : target.id = c.id) :
    Executed file invocation c ⟨updateReport ⟨c.id, text⟩ true,
      some (channelsText (front ++ { target with mappingText := text } :: behind))⟩

/-- A command that succeeds has fetched a channel and done one of three things. -/
theorem execute_eq_ok {file : ChannelFile} {invocation : Invocation} {result : CommandResult}
    (h : file.execute invocation = .ok result) :
    ∃ c, file.fetch invocation.channel = .ok c ∧ Executed file invocation c result := by
  unfold execute at h
  split at h
  · exact absurd h (by simp)
  · next c hfetch =>
    refine ⟨c, hfetch, ?_⟩
    obtain ⟨response, hresponse, hsettle⟩ := Outcome.bind_eq_ok.1 h
    have hrespond := CommandError.ofRollout_eq_ok.1 hresponse
    cases response with
    | report json =>
      obtain rfl := Except.ok.inj hsettle
      exact .reported hrespond
    | change update =>
      -- the update is addressed to the id of the channel
      obtain ⟨-, -, -, -, -, -, -, hid⟩ := Channel.respond_change hrespond
      obtain ⟨channelId, text⟩ := update
      obtain rfl : channelId = c.id := hid
      rw [settle] at hsettle
      split at hsettle
      · next hwrite =>
        split at hsettle
        · next replaced file' hreplace =>
          obtain ⟨channels, channels', hload, hin, rfl⟩ := replaceMapping_eq_ok.1 hreplace
          obtain ⟨front, target, behind, rfl, hfront, htarget, rfl, rfl⟩ :=
            replaceMappingIn_eq_some.1 hin
          obtain rfl := Except.ok.inj hsettle
          exact .written hrespond hwrite hload hfront htarget
        · exact absurd hsettle (by simp)
      · next hwrite =>
        obtain rfl := Except.ok.inj hsettle
        exact .proposed hrespond (by simpa using hwrite)

/-- The file after a command is the one that the command leaves if it succeeds. -/
theorem after_eq (file : ChannelFile) (invocation : Invocation) :
    file.after invocation = file ∨
      ∃ result, file.execute invocation = .ok result ∧ file.after invocation = result.file := by
  unfold after
  cases hexecute : file.execute invocation with
  | error _ => exact .inl rfl
  | ok result => exact .inr ⟨result, rfl, rfl⟩

end ChannelFile

end StagedRollout
