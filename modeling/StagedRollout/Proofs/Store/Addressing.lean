/-
# StagedRollout.Proofs.Store.Addressing -- names to read by, ids to write by

A command is given the name of a channel, and the store is given the channel's id. Each time the
first record counts, and nobody sees to it that names or ids are distinct. A written mapping
therefore goes to the fetched channel unless a channel in front of it has the same id
(`ChannelFile.fetch_after_write`); in that case it goes to the first such channel, and the fetched
one is found again as it was. All other channels stay as they are in any case.
-/
import StagedRollout.Proofs.Store.Survival

namespace StagedRollout

/-! ## Where the first channel of an id stands -/

/-- The first channel that has the id of a given channel is that channel, or stands in front of
it. -/
theorem first_of_id {before behind front rest : List Channel} {c target : Channel}
    (h : before ++ c :: behind = front ++ target :: rest) (hfront : ∀ d ∈ front, d.id ≠ c.id) :
    (front = before ∧ target = c ∧ rest = behind) ∨
      ∃ between, before = front ++ target :: between ∧ rest = between ++ c :: behind := by
  obtain ⟨between, rfl, hrest⟩ | ⟨between, rfl, hrest⟩ := List.append_eq_append_iff.1 h
  · cases between with
    | nil =>
      obtain ⟨rfl, rfl⟩ := List.cons.inj hrest
      exact .inl ⟨List.append_nil _, rfl, rfl⟩
    | cons d between =>
      -- the given channel itself would stand in front of the first one of its id
      obtain ⟨rfl, -⟩ := List.cons.inj hrest
      exact absurd rfl (hfront c (by simp))
  · cases between with
    | nil =>
      obtain ⟨rfl, rfl⟩ := List.cons.inj hrest
      exact .inl ⟨(List.append_nil _).symm, rfl, rfl⟩
    | cons d between =>
      obtain ⟨rfl, rfl⟩ := List.cons.inj hrest
      exact .inr ⟨between, rfl, rfl⟩

/-- An insertion changes the text of the mapping: there is one entry more. -/
theorem Channel.text_ne_of_insert {c : Channel} {branchId version text : String}
    {percent : Percent}
    (h : c.respond (.edit (.insert branchId percent version)) = .ok (.change ⟨c.id, text⟩)) :
    text ≠ c.mappingText := by
  rintro rfl
  obtain ⟨m, edited, m', hm, hedit, hm', hsame⟩ := mapping_of_change h
  obtain rfl : m = m' := Except.ok.inj (hm.symm.trans hm')
  obtain ⟨-, rfl⟩ := Mapping.insertRollout_eq_ok.1 hedit
  have hlength := congrArg List.length (Mapping.branchIds_of_same hsame)
  simp [Mapping.branchIds] at hlength

namespace ChannelFile

/-! ## Reading what was written -/

/-- An edit that is to be written is written, or it fails. -/
theorem executed_edit {file : ChannelFile} {invocation : Invocation} {c : Channel} {e : Edit}
    {result : CommandResult} (hcommand : invocation.command = .edit e)
    (hwrite : invocation.write = true) (h : Executed file invocation c result) :
    ∃ text front target behind, c.respond invocation.command = .ok (.change ⟨c.id, text⟩) ∧
      result.output = updateReport ⟨c.id, text⟩ true ∧
      file.load = .ok (front ++ target :: behind) ∧ (∀ d ∈ front, d.id ≠ c.id) ∧
      target.id = c.id ∧
      result.file.load = .ok (front ++ { target with mappingText := text } :: behind) := by
  cases h with
  | reported hrespond =>
    rw [hcommand] at hrespond
    obtain ⟨update, hchange⟩ := Channel.respond_edit hrespond
    exact absurd hchange (by simp)
  | proposed _ hnot => exact absurd (hwrite.symm.trans hnot) (by simp)
  | @written text front target behind hrespond _ hload hfront htarget =>
    exact ⟨text, front, target, behind, hrespond, rfl, hload, hfront, htarget,
      load_written hload hrespond⟩

/-- A name that leads past a channel whose mapping is replaced leads to the same channel. -/
theorem fetch_behind_replaced {file : ChannelFile} {front between behind : List Channel}
    {target c : Channel} {text : String}
    (hload : file.load = .ok (front ++ { target with mappingText := text } ::
      (between ++ c :: behind)))
    (h : ∀ d ∈ front ++ target :: between, d.name ≠ c.name) : file.fetch c.name = .ok c := by
  apply fetch_eq_ok.2
  refine ⟨front ++ { target with mappingText := text } :: between, behind, ?_, rfl, ?_⟩
  · rw [hload, List.append_assoc, List.cons_append]
  · -- the replaced channel still has another name
    intro d hd
    obtain hd | rfl | hd := by simpa using hd
    · exact h d (by simp [hd])
    · exact h target (by simp)
    · exact h d (by simp [hd])

/-- **A written mapping is found under the name that it was written for**, in the channel that the
command was computed from and that has not changed otherwise, provided that no channel in front of
that one has its id. If one has, the first of them has got the mapping, and the name leads to the
channel as it was. No other channel has changed. -/
theorem fetch_after_write {file : ChannelFile} {invocation : Invocation} {e : Edit}
    {result : CommandResult} (hcommand : invocation.command = .edit e)
    (hwrite : invocation.write = true) (h : file.execute invocation = .ok result) :
    ∃ before c behind text, file.load = .ok (before ++ c :: behind) ∧
      file.fetch invocation.channel = .ok c ∧ (∀ d ∈ before, d.name ≠ invocation.channel) ∧
      c.respond invocation.command = .ok (.change ⟨c.id, text⟩) ∧
      result.output = updateReport ⟨c.id, text⟩ true ∧
      ((∀ d ∈ before, d.id ≠ c.id) →
        result.file.load = .ok (before ++ { c with mappingText := text } :: behind) ∧
        result.file.fetch invocation.channel = .ok { c with mappingText := text }) ∧
      ∀ front target between, before = front ++ target :: between →
        (∀ d ∈ front, d.id ≠ c.id) → target.id = c.id →
        result.file.load = .ok (front ++ { target with mappingText := text } ::
          (between ++ c :: behind)) ∧
        result.file.fetch invocation.channel = .ok c := by
  obtain ⟨c, hfetch, hexecuted⟩ := execute_eq_ok h
  obtain ⟨text, front, target, rest, hrespond, houtput, hfound, hfront, htarget, hafter⟩ :=
    executed_edit hcommand hwrite hexecuted
  obtain ⟨before, behind, hload, hname, hbefore⟩ := fetch_eq_ok.1 hfetch
  have hchannels := Except.ok.inj (hload.symm.trans hfound)
  refine ⟨before, c, behind, text, hload, hfetch, hbefore, hrespond, houtput, ?_, ?_⟩
  · intro hid
    obtain ⟨rfl, rfl, rfl⟩ | ⟨between, rfl, -⟩ := first_of_id hchannels hfront
    · refine ⟨hafter, fetch_eq_ok.2 ?_⟩
      exact ⟨front, rest, hafter, hname, hbefore⟩
    · exact absurd htarget (hid target (by simp))
  · intro front' target' between' hsplit hfront' htarget'
    subst hsplit
    -- both are the first channel of the id
    have hfirst : front' = front ∧ target' = target ∧ between' ++ c :: behind = rest := by
      rw [List.append_assoc, List.cons_append] at hchannels
      obtain ⟨rfl, rfl, rfl⟩ | ⟨between, rfl, -⟩ :=
        first_of_id hchannels (htarget'.symm ▸ hfront)
      · exact ⟨rfl, rfl, rfl⟩
      · exact absurd htarget (hfront' target (by simp))
    obtain ⟨rfl, rfl, rfl⟩ := hfirst
    refine ⟨hafter, ?_⟩
    rw [← hname] at hbefore ⊢
    exact fetch_behind_replaced hafter hbefore

/-- Two channels with ids of their own. -/
def twoChannels : ChannelFile :=
  some "[[\"1\",\"main\",\"[0,[[\\\"B1\\\",\\\"true\\\"]]]\"],
    [\"2\",\"beta\",\"[0,[[\\\"B1\\\",\\\"true\\\"]]]\"]]"

/-- An edit of the channel `beta`, to be written. -/
def writtenToBeta (e : Edit) : Invocation := ⟨"channels.json", "beta", true, false, .edit e⟩

/-- A rollout that is inserted into the second channel is found there. -/
theorem fetch_after_write_second :
    (writtenToBeta (.insert "B2" .full "1.0")).command = .edit (.insert "B2" .full "1.0") ∧
      (writtenToBeta (.insert "B2" .full "1.0")).write = true ∧
      ∃ result c text, twoChannels.execute (writtenToBeta (.insert "B2" .full "1.0")) = .ok result ∧
        twoChannels.fetch "beta" = .ok c ∧ result.output = updateReport ⟨c.id, text⟩ true ∧
        result.file.fetch "beta" = .ok { c with mappingText := text } := by
  obtain ⟨result, hresult⟩ := Outcome.exists_of_isOk
    (x := twoChannels.execute (writtenToBeta (.insert "B2" .full "1.0"))) (by decide +kernel)
  have hids : twoChannels.load.toOption.map (·.map Channel.id) = some ["1", "2"] := by
    decide +kernel
  obtain ⟨before, c, behind, text, hload, hfetch, -, -, houtput, hhere, -⟩ :=
    fetch_after_write rfl rfl hresult
  have hnodup : ((before ++ c :: behind).map Channel.id).Nodup := by
    have hids : (before ++ c :: behind).map Channel.id = ["1", "2"] := by
      rw [hload] at hids
      exact Option.some.inj hids
    rw [hids]
    decide
  obtain ⟨-, hread⟩ := hhere (ne_of_nodup_map hnodup)
  exact ⟨rfl, rfl, result, c, text, hresult, hfetch, houtput, hread⟩

/-- Two channels with one id. -/
def sharedId : ChannelFile :=
  some "[[\"1\",\"main\",\"[0,[[\\\"B1\\\",\\\"true\\\"]]]\"],
    [\"1\",\"beta\",\"[0,[[\\\"B1\\\",\\\"true\\\"]]]\"]]"

/-- A rollout that is inserted into the second of two channels with one id is not found there. -/
theorem fetch_after_write_shared_id :
    ∃ result c text, sharedId.execute (writtenToBeta (.insert "B2" .full "1.0")) = .ok result ∧
      sharedId.fetch "beta" = .ok c ∧ result.output = updateReport ⟨c.id, text⟩ true ∧
      result.file.fetch "beta" ≠ .ok { c with mappingText := text } := by
  obtain ⟨result, hresult⟩ := Outcome.exists_of_isOk
    (x := sharedId.execute (writtenToBeta (.insert "B2" .full "1.0"))) (by decide +kernel)
  obtain ⟨channels, hload, hcheck⟩ := Outcome.exists_of_any (x := sharedId.load)
    (p := fun channels => channels.head?.any (·.name = "main") ∧ ∀ d ∈ channels, d.id = "1")
    (by decide +kernel)
  obtain ⟨hhead, hids⟩ := of_decide_eq_true hcheck
  obtain ⟨c, hfetch, hexecuted⟩ := execute_eq_ok hresult
  obtain ⟨text, front, target, rest, hrespond, houtput, hfound, hfront, -, hafter⟩ :=
    executed_edit rfl rfl hexecuted
  refine ⟨result, c, text, hresult, hfetch, houtput, ?_⟩
  intro hread
  obtain ⟨before, behind, hload', hname, hbefore⟩ := fetch_eq_ok.1 hfetch
  obtain rfl := Except.ok.inj (hload'.symm.trans hload)
  have hchannels := Except.ok.inj (hload'.symm.trans hfound)
  obtain ⟨rfl, rfl, rfl⟩ | ⟨between, rfl, rfl⟩ := first_of_id hchannels hfront
  · -- the channel in front has the id, too
    cases front with
    | nil =>
      have hmain : target.name = "main" := by simpa using hhead
      exact absurd (hmain.symm.trans hname) (by decide)
    | cons d front =>
      have hd : d.id = "1" := hids d (by simp)
      have htarget : target.id = "1" := hids target (by simp)
      exact hfront d List.mem_cons_self (hd.trans htarget.symm)
  · -- what is found is the fetched channel, with its old mapping
    rw [← hname] at hbefore
    have hsame : result.file.fetch "beta" = .ok c := by
      rw [← (show c.name = "beta" from hname)]
      exact fetch_behind_replaced hafter hbefore
    have hc := Except.ok.inj (hsame.symm.trans hread)
    exact Channel.text_ne_of_insert hrespond (congrArg Channel.mappingText hc).symm

end ChannelFile

end StagedRollout
