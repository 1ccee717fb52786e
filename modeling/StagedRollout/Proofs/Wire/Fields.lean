/-
# StagedRollout.Proofs.Wire.Fields -- when the pieces of a reader succeed

A typed reader is put together from few pieces, and each of them has one equivalence here: it
succeeds with a value exactly when such and such. Records are the interesting case. Their members
come in any order, with strangers among them, and are walked over once with a draft in hand.
`Governs` says what one step of such a walk does to the fields of the draft; from that alone
follows what the whole walk does: a filled field was read off a member of its name, every member
of that name was read, and a walk over distinct names fails only where a value does.
-/
import StagedRollout.Proofs.Json.ScanSpelled
import StagedRollout.Wire.Reader
import Mathlib.Data.List.Forall2
import Mathlib.Data.List.Nodup

namespace StagedRollout

/-! ## Small pieces -/

theorem ReadResult.ofText_eq_ok {α : Type} {x : Except Fault α} {a : α} :
    ReadResult.ofText x = .ok a ↔ x = .ok a := by
  cases x <;> simp [ofText]

theorem ReadResult.fault_ne_ok {α : Type} {f : Fault} {a : α} :
    (ReadResult.fault f : ReadResult α) ≠ .ok a := by
  simp [fault]

theorem ReadResult.mismatch_ne_ok {α : Type} {m : Mismatch} {a : α} :
    (ReadResult.mismatch m : ReadResult α) ≠ .ok a := by
  simp [mismatch]

/-- Whatever an unwanted value is, it is refused. -/
theorem Outline.refuse_ne_ok {α : Type} {expected : String} {o : Outline} {a : α} :
    (o.refuse expected : ReadResult α) ≠ .ok a := by
  intro h
  obtain ⟨found, -, h⟩ := Outcome.bind_eq_ok.1 h
  exact ReadResult.mismatch_ne_ok h

/-- Only a string that can be read is read as one. -/
theorem readText_eq_ok {o : Outline} {content : String} :
    readText o = .ok content ↔ o = .text (.ok content) := by
  cases o with
  | text literal => simp [readText, ReadResult.ofText_eq_ok]
  | _ => simp [readText, Outline.refuse_ne_ok]

theorem readUnit_eq_ok {o : Outline} : readUnit o = .ok () ↔ o = .null := by
  cases o with
  | null => simp [readUnit]
  | _ => simp [readUnit, Outline.refuse_ne_ok]

/-- A bracket can be opened as long as there is room, and takes one level of it. -/
theorem opening_eq_ok {α : Type} {room : Nat} {inside : Nat → ReadResult α} {a : α} :
    opening room inside = .ok a ↔ ∃ left, room = left + 1 ∧ inside left = .ok a := by
  cases room with
  | zero => simp [opening, ReadResult.fault_ne_ok]
  | succ left => simp [opening]

/-- A required field is the one that was found. -/
theorem required_eq_ok {β : Type} {name : String} {slot : Option β} {value : β} :
    required name slot = .ok value ↔ slot = some value := by
  cases slot <;> simp [required, ReadResult.mismatch_ne_ok]

/-- A field is read at its first member, and a second one is an error. -/
theorem readOnce_eq_ok {β : Type} {name : String} {slot slot' : Option β}
    {read : Unit → ReadResult β} :
    readOnce name slot read = .ok slot' ↔
      slot = none ∧ ∃ value, read () = .ok value ∧ slot' = some value := by
  cases slot with
  | none =>
    simp only [readOnce, Outcome.map_eq_ok, true_and]
    exact exists_congr fun _ => and_congr_right fun _ => eq_comm
  | some _ => simp [readOnce, ReadResult.mismatch_ne_ok]

/-- A member of a strange name leaves the draft alone, and has to be well-formed all the same. -/
theorem skipMember_eq_ok {σ : Type} {state state' : σ} {value : Outline} :
    skipMember state value = .ok state' ↔ value.skip = .ok () ∧ state' = state := by
  simp only [skipMember, Outcome.bind_eq_ok, ReadResult.ofText_eq_ok, Outcome.pure_eq_ok,
    Except.ok.injEq]
  constructor
  · rintro ⟨⟨⟩, hskip, rfl⟩
    exact ⟨hskip, rfl⟩
  · rintro ⟨hskip, rfl⟩
    exact ⟨(), hskip, rfl⟩

theorem Members.finish_eq_ok {members : Members} : members.finish = .ok () ↔ members = .closed := by
  cases members with
  | closed => simp [finish]
  | cut afterComma => cases afterComma <;> simp [finish, ReadResult.fault_ne_ok]
  | _ => simp [finish, ReadResult.fault_ne_ok]

theorem Items.finish_eq_ok {items : Items} : items.finish = .ok () ↔ items = .closed := by
  cases items with
  | closed => simp [finish]
  | cut afterComma => cases afterComma <;> simp [finish, ReadResult.fault_ne_ok]
  | _ => simp [finish, ReadResult.fault_ne_ok]

/-- An array in place of a record yields its next field from its next item. -/
theorem Items.next_eq_ok {α : Type} {items rest : Items} {count : Nat} {expected : String}
    {read : Outline → ReadResult α} {a : α} :
    items.next count expected read = .ok (a, rest) ↔
      ∃ head, items = .item head rest ∧ read head = .ok a := by
  cases items with
  | item head tail =>
    simp only [next, Outcome.bind_eq_ok, Outcome.pure_eq_ok, Except.ok.injEq, Prod.mk.injEq,
      Items.item.injEq]
    constructor
    · rintro ⟨_, hread, rfl, rfl⟩
      exact ⟨head, ⟨rfl, rfl⟩, hread⟩
    · rintro ⟨_, ⟨rfl, rfl⟩, hread⟩
      exact ⟨a, hread, rfl, rfl⟩
  | _ => simp [next, ReadResult.fault_ne_ok, ReadResult.mismatch_ne_ok]

/-! ## Lists -/

/-- A list is read from an array, item by item, one level further inside. -/
theorem readList_eq_ok {α : Type} {read : Nat → Outline → ReadResult α} {room : Nat}
    {o : Outline} {as : List α} :
    readList read room o = .ok as ↔
      ∃ items left, o = .array items ∧ room = left + 1 ∧ items.readAll (read left) = .ok as := by
  cases o with
  | array items => simp [readList, opening_eq_ok]
  | _ => simp [readList, Outline.refuse_ne_ok]

/-- Whatever stands in a list that was read has been read itself. -/
theorem Items.exists_of_readAll {α : Type} {read : Outline → ReadResult α} {a : α} :
    ∀ {items : Items} {as : List α}, items.readAll read = .ok as → a ∈ as →
      ∃ o, read o = .ok a
  | .closed, as, h, hmem => by
      obtain rfl := Except.ok.inj h
      exact absurd hmem (by simp)
  | .cut _, as, h, _ => absurd h ReadResult.fault_ne_ok
  | .malformed, as, h, _ => absurd h ReadResult.fault_ne_ok
  | .item head tail, as, h, hmem => by
      obtain ⟨b, hhead, h⟩ := Outcome.bind_eq_ok.1 h
      obtain ⟨bs, htail, h⟩ := Outcome.bind_eq_ok.1 h
      obtain rfl := Except.ok.inj h
      rcases List.mem_cons.1 hmem with rfl | hmem
      · exact ⟨head, hhead⟩
      · exact exists_of_readAll htail hmem

/-- A list of spelled items is read item by item. -/
theorem readAll_itemsOutline {α : Type} {read : Outline → ReadResult α} {items : List JsonTree}
    {as : List α} :
    (itemsOutline items).readAll read = .ok as ↔
      List.Forall₂ (fun item a => read item.outline = .ok a) items as := by
  induction items generalizing as with
  | nil =>
    rw [List.forall₂_nil_left_iff, itemsOutline, Items.readAll]
    exact ⟨fun h => (Except.ok.inj h).symm, fun h => by rw [h]⟩
  | cons item rest ih =>
    rw [List.forall₂_cons_left_iff, itemsOutline, Items.readAll]
    simp only [Outcome.bind_eq_ok, Outcome.pure_eq_ok, Except.ok.injEq, ih]
    constructor
    · rintro ⟨a, hitem, as, hrest, rfl⟩
      exact ⟨a, as, hitem, hrest, rfl⟩
    · rintro ⟨a, as, hitem, hrest, rfl⟩
      exact ⟨a, hitem, as, hrest, rfl⟩

/-! ## Skipping what is spelled -/

mutual

/-- Nothing is wrong with a spelled value that is passed over. -/
theorem skip_outline : ∀ tree : JsonTree, tree.outline.skip = .ok ()
  | .null => rfl
  | .bool _ => rfl
  | .number _ => rfl
  | .text _ => rfl
  | .array items => skip_itemsOutline items
  | .object members => skip_membersOutline members

theorem skip_itemsOutline : ∀ items : List JsonTree, (itemsOutline items).skip = .ok ()
  | [] => rfl
  | item :: rest => by
      rw [itemsOutline, Items.skip, skip_outline item, skip_itemsOutline rest, Outcome.ok_bind]

theorem skip_membersOutline :
    ∀ members : List (String × JsonTree), (membersOutline members).skip = .ok ()
  | [] => rfl
  | (_, value) :: rest => by
      rw [membersOutline, Members.skip, skip_outline value, skip_membersOutline rest,
        Outcome.ok_bind]

end

/-! ## Records -/

/-- A member of an object, its key being readable. -/
inductive Members.Has : Members → String → Outline → Prop
  | here {key : String} {value : Outline} {tail : Members} :
      Has (.member (.ok key) value tail) key value
  | there {key key' : String} {value value' : Outline} {tail : Members} :
      Has tail key value → Has (.member (.ok key') value' tail) key value

/-- What an outline has under a key are the outlines of the values under it. -/
theorem has_membersOutline {members : List (String × JsonTree)} {key : String} {o : Outline} :
    (membersOutline members).Has key o ↔ ∃ value, (key, value) ∈ members ∧ o = value.outline := by
  induction members with
  | nil =>
    rw [membersOutline]
    exact ⟨fun h => (nomatch h), fun ⟨_, hmem, _⟩ => absurd hmem (by simp)⟩
  | cons member rest ih =>
    obtain ⟨key', value'⟩ := member
    rw [membersOutline]
    constructor
    · intro h
      cases h with
      | here => exact ⟨value', by simp, rfl⟩
      | there h =>
        obtain ⟨value, hmem, rfl⟩ := ih.1 h
        exact ⟨value, List.mem_cons_of_mem _ hmem, rfl⟩
    · rintro ⟨value, hmem, rfl⟩
      rcases List.mem_cons.1 hmem with heq | hmem
      · obtain ⟨rfl, rfl⟩ := Prod.mk.inj heq
        exact .here
      · exact .there (ih.2 ⟨value, hmem, rfl⟩)

/-- One step of the walk, from its success. -/
theorem Members.gather_member {σ : Type} {take : σ → String → Outline → ReadResult σ} {s s' : σ}
    {key : Except Fault String} {value : Outline} {tail : Members}
    (h : (Members.member key value tail).gather take s = .ok s') :
    ∃ name next, key = .ok name ∧ take s name value = .ok next ∧
      tail.gather take next = .ok s' := by
  obtain ⟨name, hkey, h⟩ := Outcome.bind_eq_ok.1 h
  obtain ⟨next, htake, h⟩ := Outcome.bind_eq_ok.1 h
  exact ⟨name, next, ReadResult.ofText_eq_ok.1 hkey, htake, h⟩

/-- A walk keeps what each of its steps keeps. -/
theorem Members.gather_invariant {σ : Type} {take : σ → String → Outline → ReadResult σ}
    {P : σ → Prop} (hstep : ∀ s key o s', take s key o = .ok s' → P s → P s') :
    ∀ {members : Members} {s s' : σ}, members.gather take s = .ok s' → P s → P s'
  | .closed, _, _, h, hs => Except.ok.inj h ▸ hs
  | .cut _, _, _, h, _ => absurd h ReadResult.fault_ne_ok
  | .malformed, _, _, h, _ => absurd h ReadResult.fault_ne_ok
  | .member _ _ tail, _, _, h, hs => by
      obtain ⟨name, next, -, htake, htail⟩ := gather_member h
      exact gather_invariant hstep htail (hstep _ _ _ _ htake hs)

/-- A field of a draft: its name, the slot that it fills, and how its value is read. -/
structure Field (σ : Type) where
  key : String
  Value : Type
  slot : σ → Option Value
  fill : σ → Option Value → σ
  read : Outline → ReadResult Value

/-- A step over one member reads it into the field of that name, which has to be empty. What
belongs to no field is passed over. -/
structure Governs {σ : Type} (take : σ → String → Outline → ReadResult σ)
    (fields : List (Field σ)) : Prop where
  own : ∀ f ∈ fields, ∀ (s : σ) (o : Outline), take s f.key o =
    (readOnce f.key (f.slot s) fun _ => f.read o) >>= fun value => pure (f.fill s value)
  slot_fill : ∀ f ∈ fields, ∀ (s : σ) (value : Option f.Value), f.slot (f.fill s value) = value
  slot_other : ∀ f ∈ fields, ∀ g ∈ fields, f.key ≠ g.key →
    ∀ (s : σ) (value : Option f.Value), g.slot (f.fill s value) = g.slot s
  passes : ∀ {key : String}, (∀ f ∈ fields, key ≠ f.key) →
    ∀ (s : σ) (o : Outline), take s key o = skipMember s o

namespace Governs

variable {σ : Type} {take : σ → String → Outline → ReadResult σ} {fields : List (Field σ)}
  {f : Field σ}

/-- A member of a field fills its slot, which has to be empty. -/
theorem take_eq_ok (hg : Governs take fields) (hf : f ∈ fields) {s s' : σ} {o : Outline} :
    take s f.key o = .ok s' ↔
      f.slot s = none ∧ ∃ value, f.read o = .ok value ∧ s' = f.fill s (some value) := by
  rw [hg.own f hf, Outcome.bind_eq_ok]
  simp only [readOnce_eq_ok, Outcome.pure_eq_ok, Except.ok.injEq]
  constructor
  · rintro ⟨_, ⟨hnone, value, hread, rfl⟩, rfl⟩
    exact ⟨hnone, value, hread, rfl⟩
  · rintro ⟨hnone, value, hread, rfl⟩
    exact ⟨_, ⟨hnone, value, hread, rfl⟩, rfl⟩

/-- A step over a member of another name leaves the field alone. -/
theorem keeps (hg : Governs take fields) (hf : f ∈ fields) {s s' : σ} {key : String}
    {o : Outline} (hkey : key ≠ f.key) (h : take s key o = .ok s') : f.slot s' = f.slot s := by
  by_cases hown : ∃ g ∈ fields, key = g.key
  · obtain ⟨g, hmem, rfl⟩ := hown
    obtain ⟨-, value, -, rfl⟩ := (hg.take_eq_ok hmem).1 h
    exact hg.slot_other g hmem f hf hkey s _
  · rw [hg.passes fun g hmem heq => hown ⟨g, hmem, heq⟩] at h
    rw [(skipMember_eq_ok.1 h).2]

/-- A field that is filled stays as it is. -/
theorem gather_keeps (hg : Governs take fields) (hf : f ∈ fields) :
    ∀ {members : Members} {s s' : σ} {value : f.Value}, members.gather take s = .ok s' →
      f.slot s = some value → f.slot s' = some value
  | .closed, _, _, _, h, hslot => Except.ok.inj h ▸ hslot
  | .cut _, _, _, _, h, _ => absurd h ReadResult.fault_ne_ok
  | .malformed, _, _, _, h, _ => absurd h ReadResult.fault_ne_ok
  | .member _ _ tail, s, s', value, h, hslot => by
      obtain ⟨name, next, -, htake, htail⟩ := Members.gather_member h
      refine hg.gather_keeps hf htail ?_
      -- a second member of the name would have been refused
      by_cases hname : name = f.key
      · rw [hname] at htake
        rw [((hg.take_eq_ok hf).1 htake).1] at hslot
        exact absurd hslot (by simp)
      · rw [hg.keeps hf hname htake, hslot]

/-- What a field holds in the end was read off a member of its name. -/
theorem gather_fills (hg : Governs take fields) (hf : f ∈ fields) :
    ∀ {members : Members} {s s' : σ} {value : f.Value}, members.gather take s = .ok s' →
      f.slot s = none → f.slot s' = some value →
      ∃ o, members.Has f.key o ∧ f.read o = .ok value
  | .closed, _, _, _, h, hnone, hsome => by
      rw [← Except.ok.inj h, hnone] at hsome
      exact absurd hsome (by simp)
  | .cut _, _, _, _, h, _, _ => absurd h ReadResult.fault_ne_ok
  | .malformed, _, _, _, h, _, _ => absurd h ReadResult.fault_ne_ok
  | .member _ o tail, s, s', value, h, hnone, hsome => by
      obtain ⟨name, next, rfl, htake, htail⟩ := Members.gather_member h
      -- this member fills the field for good, or leaves it to a later one
      by_cases hname : name = f.key
      · subst hname
        obtain ⟨-, value', hread, rfl⟩ := (hg.take_eq_ok hf).1 htake
        rw [hg.gather_keeps hf htail (hg.slot_fill f hf s _)] at hsome
        exact ⟨o, .here, by rw [hread, Option.some.inj hsome]⟩
      · rw [← hg.keeps hf hname htake] at hnone
        obtain ⟨o', hhas, hread⟩ := hg.gather_fills hf htail hnone hsome
        exact ⟨o', .there hhas, hread⟩

/-- Every member that has the name of a field was read into it. -/
theorem gather_reads (hg : Governs take fields) (hf : f ∈ fields) {o : Outline} :
    ∀ {members : Members} {s s' : σ}, members.gather take s = .ok s' → members.Has f.key o →
      ∃ value, f.read o = .ok value ∧ f.slot s' = some value
  | _, _, _, h, .here => by
      obtain ⟨name, next, hkey, htake, htail⟩ := Members.gather_member h
      obtain rfl := Except.ok.inj hkey
      obtain ⟨-, value, hread, rfl⟩ := (hg.take_eq_ok hf).1 htake
      exact ⟨value, hread, hg.gather_keeps hf htail (hg.slot_fill f hf _ _)⟩
  | _, _, _, h, .there hhas => by
      obtain ⟨name, next, hkey, htake, htail⟩ := Members.gather_member h
      exact hg.gather_reads hf htail hhas

/-- A walk over distinct names comes to its end if every value can be read. -/
theorem exists_gather (hg : Governs take fields) {members : List (String × JsonTree)} {s : σ}
    (hdistinct : (members.map Prod.fst).Nodup)
    (hempty : ∀ f ∈ fields, f.key ∈ members.map Prod.fst → f.slot s = none)
    (hreads : ∀ f ∈ fields, ∀ tree, (f.key, tree) ∈ members →
      ∃ value, f.read tree.outline = .ok value) :
    ∃ s', (membersOutline members).gather take s = .ok s' := by
  induction members generalizing s with
  | nil => exact ⟨s, rfl⟩
  | cons member rest ih =>
    obtain ⟨key, tree⟩ := member
    rw [List.map_cons, List.nodup_cons] at hdistinct
    obtain ⟨hfresh, hdistinct⟩ := hdistinct
    -- this member belongs to a field that is still empty, or to none and is passed over
    have hstep : ∃ next, take s key tree.outline = .ok next := by
      by_cases hown : ∃ f ∈ fields, key = f.key
      · obtain ⟨f, hf, rfl⟩ := hown
        obtain ⟨value, hread⟩ := hreads f hf tree (by simp)
        exact ⟨_, (hg.take_eq_ok hf).2 ⟨hempty f hf (by simp), value, hread, rfl⟩⟩
      · refine ⟨s, ?_⟩
        rw [hg.passes fun f hf heq => hown ⟨f, hf, heq⟩]
        exact skipMember_eq_ok.2 ⟨skip_outline tree, rfl⟩
    obtain ⟨next, hnext⟩ := hstep
    -- the fields that are still to come were not touched, their names being others
    have hrest : ∀ f ∈ fields, f.key ∈ rest.map Prod.fst → f.slot next = none := by
      intro f hf hmem
      have hne : key ≠ f.key := by
        rintro rfl
        exact hfresh hmem
      rw [hg.keeps hf hne hnext]
      exact hempty f hf (List.mem_cons_of_mem _ hmem)
    obtain ⟨s', hs'⟩ := ih hdistinct hrest fun f hf tree hmem =>
      hreads f hf tree (List.mem_cons_of_mem _ hmem)
    refine ⟨s', ?_⟩
    rw [membersOutline, Members.gather, ReadResult.ofText, Outcome.ok_bind, hnext,
      Outcome.ok_bind, hs']

/-- An object has a member of a field's name that reads as a value. -/
def Given (members : List (String × JsonTree)) (f : Field σ) (value : f.Value) : Prop :=
  ∃ tree, (f.key, tree) ∈ members ∧ f.read tree.outline = .ok value

/-- A walk over distinct names that starts with nothing gathers the fields that are given. -/
theorem gather_given (hg : Governs take fields) {members : List (String × JsonTree)} {s : σ}
    (hdistinct : (members.map Prod.fst).Nodup) (hempty : ∀ f ∈ fields, f.slot s = none)
    (hgiven : ∀ f ∈ fields, ∃ value, Given members f value) :
    ∃ s', (membersOutline members).gather take s = .ok s' ∧
      ∀ f ∈ fields, ∀ value, Given members f value → f.slot s' = some value := by
  -- of two members with one name there is only one
  have hreads : ∀ f ∈ fields, ∀ tree, (f.key, tree) ∈ members →
      ∃ value, f.read tree.outline = .ok value := by
    intro f hf tree hmem
    obtain ⟨value, tree', hmem', hread⟩ := hgiven f hf
    have hsame := List.inj_on_of_nodup_map hdistinct hmem hmem' rfl
    exact ⟨value, by rw [(Prod.mk.inj hsame).2, hread]⟩
  obtain ⟨s', hs'⟩ := hg.exists_gather hdistinct (fun f hf _ => hempty f hf) hreads
  refine ⟨s', hs', ?_⟩
  intro f hf value ⟨tree, hmem, hread⟩
  obtain ⟨value', hread', hslot⟩ :=
    hg.gather_reads hf hs' (has_membersOutline.2 ⟨tree, hmem, rfl⟩)
  rw [hslot, Except.ok.inj (hread'.symm.trans hread)]

end Governs

/-! ## Whole texts -/

theorem exists_of_readWhole {α : Type} {read : Nat → Outline → ReadResult α} {text : String}
    {a : α} (h : readWhole read text = .ok a) : ∃ o, read nestingLimit o = .ok a := by
  unfold readWhole at h
  generalize Outline.ofText text.toList = scanned at h
  obtain ⟨o, rest⟩ := scanned
  obtain ⟨b, hread, h⟩ := Outcome.bind_eq_ok.1 h
  split at h
  · obtain rfl := Except.ok.inj h
    exact ⟨o, hread⟩
  · exact absurd h ReadResult.fault_ne_ok

/-- A text that spells a tree is read as the tree is. -/
theorem readWhole_spelled {α : Type} {read : Nat → Outline → ReadResult α} {tree : JsonTree}
    {text : String} (hspelled : SpellsWhole tree text.toList) :
    readWhole read text = read nestingLimit tree.outline := by
  obtain ⟨rest, hscan, hrest⟩ := Outline.ofText_spelled hspelled
  rw [readWhole, hscan]
  show (read nestingLimit tree.outline >>= fun record => _) = _
  cases read nestingLimit tree.outline with
  | ok record => exact if_pos hrest
  | error cause => rfl

end StagedRollout
