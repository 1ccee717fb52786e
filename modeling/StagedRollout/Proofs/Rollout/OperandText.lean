/-
# StagedRollout.Proofs.Rollout.OperandText -- a changed percentage in the text of a mapping

The text of a mapping is made from the inside out, and each layer puts something around the text of
one of its parts which does not depend on that part: a predicate around its operand, a conjunction
around each of its nodes, an entry around its logic, a mapping around each of its entries. A changed
percentage is another operand in one predicate. So the texts before and after the change are the
same up to that operand and behind it (`Mapping.percent_changes_one_operand`), whatever the other
entries are.
-/
import StagedRollout.Proofs.Json.Place
import StagedRollout.Proofs.Rollout.Storable
import StagedRollout.Proofs.Rollout.Targets

namespace StagedRollout

/- The stored fraction is a quotient of large numbers, which nothing here looks into. -/
attribute [local irreducible] Percent.fraction Percent.ofFraction

/-! ## One layer around another -/

/-- The operand of a share predicate is written without brackets. -/
theorem Predicate.exists_toJson_of_isShare {share : Predicate} (h : share.isShare = true) :
    ∃ json, share.operand.toJson = .ok json ∧ json.depth = 0 := by
  obtain ⟨-, -, x, hx, hfraction⟩ := (isShare_iff share).1 h
  refine ⟨Operand.numberJson x, ?_, depth_numberJson x⟩
  rw [hx, Operand.toJson, if_pos (Binary64.isFinite_of_isFraction hfraction)]

/-- What a predicate puts around its operand. -/
def Predicate.operandFrame (p : Predicate) : Frame :=
  .member [] "operand"
    [("clientKey", .text p.clientKey), ("branchMappingOperator", p.operator.toJson)]

theorem Predicate.toJson_eq (p : Predicate) :
    p.toJson = p.operandFrame.fill <$> p.operand.toJson := by
  rw [toJson]
  cases p.operand.toJson <;> rfl

theorem nodesToJson_eq_mapM (nodes : List Node) : nodesToJson nodes = nodes.mapM Node.toJson := by
  induction nodes with
  | nil => rw [nodesToJson]; rfl
  | cons node rest ih => rw [nodesToJson, List.mapM_cons, ih]

/-- What a conjunction puts around one of its nodes, behind the keyword and the nodes in front. -/
theorem Node.exists_frame_all {front behind : List Node} {node : Node} {json : Json}
    (h : (Node.all (front ++ node :: behind)).toJson = .ok json) :
    ∃ frame : Frame, frame.selector = .index (front.length + 1) ∧
      ∀ other, (Node.all (front ++ other :: behind)).toJson = frame.fill <$> other.toJson := by
  rw [toJson, nodesToJson_eq_mapM] at h
  obtain ⟨jsons, hnodes, -⟩ := Outcome.map_eq_ok.1 h
  obtain ⟨before, after, hlength, haround⟩ := Outcome.exists_mapM_around hnodes
  refine ⟨.item (.text "and" :: before) after, ?_, fun other => ?_⟩
  · rw [Frame.selector, List.length_cons, hlength]
  · rw [toJson, nodesToJson_eq_mapM, haround]
    cases other.toJson <;> rfl

/-- What an entry puts around its logic. -/
def Entry.logicFrame (entry : Entry) : Frame :=
  .member [("branchId", .text entry.branchId)] "branchMappingLogic" []

theorem Entry.toJson_eq (entry : Entry) :
    entry.toJson = entry.logicFrame.fill <$> entry.logic.toJson := by
  rw [toJson]
  cases entry.logic.toJson <;> rfl

theorem entriesToJson_eq_mapM (entries : List Entry) :
    entriesToJson entries = entries.mapM Entry.toJson := by
  induction entries with
  | nil => rfl
  | cons entry rest ih => rw [entriesToJson, List.mapM_cons, ih]

/-- What is around the operand of a conjoined predicate, in the text of an entry. -/
theorem Entry.exists_place_conjunct {entry : Entry} {front behind : List Node} {p : Predicate}
    {json : Json} (h : entry.toJson = .ok json)
    (hlogic : entry.logic = .all (front ++ .predicate p :: behind)) :
    ∃ place : Place,
      place.path = [.key "branchMappingLogic", .index (front.length + 1), .key "operand"] ∧
      ∀ operand, ({ entry with logic := .all (front ++ .predicate { p with operand } :: behind) } :
        Entry).toJson = place.fill <$> operand.toJson := by
  rw [toJson_eq, hlogic] at h
  obtain ⟨logic, hnodes, -⟩ := Outcome.map_eq_ok.1 h
  obtain ⟨frame, hselector, haround⟩ := Node.exists_frame_all hnodes
  refine ⟨[entry.logicFrame, frame, p.operandFrame], ?_, fun operand => ?_⟩
  · show [_, frame.selector, _] = _
    rw [hselector]
    rfl
  · rw [toJson_eq, haround, Node.toJson, Predicate.toJson_eq]
    cases operand.toJson <;> rfl

/-- What is around the operand of a predicate that is the whole logic of an entry. -/
theorem Entry.exists_place_predicate (entry : Entry) (p : Predicate) :
    ∃ place : Place, place.path = [.key "branchMappingLogic", .key "operand"] ∧
      ∀ operand, ({ entry with logic := .predicate { p with operand } } : Entry).toJson =
        place.fill <$> operand.toJson := by
  refine ⟨[entry.logicFrame, p.operandFrame], rfl, fun operand => ?_⟩
  rw [toJson_eq, Node.toJson, Predicate.toJson_eq]
  cases operand.toJson <;> rfl

namespace Mapping

/-- What a mapping puts around one of its entries. -/
theorem exists_place_entry {m : Mapping} {json : Json} (h : m.toJson = .ok json)
    {front behind : List Entry} {entry : Entry} (hentries : m.entries = front ++ entry :: behind) :
    ∃ place : Place, place.path = [.key "data", .index front.length] ∧ ∀ other : Entry,
      ({ m with entries := front ++ other :: behind } : Mapping).toJson =
        place.fill <$> other.toJson := by
  obtain ⟨jsons, hjsons, -⟩ := toJson_eq_ok.1 h
  rw [hentries, entriesToJson_eq_mapM] at hjsons
  obtain ⟨before, after, hlength, haround⟩ := Outcome.exists_mapM_around hjsons
  refine ⟨[.member [("version", .int m.version.toNat)] "data" [], .item before after], ?_,
    fun other => ?_⟩
  · rw [← hlength]
    rfl
  · rw [toJson, entriesToJson_eq_mapM, haround]
    cases other.toJson <;> rfl

/-! ## Another operand in one predicate -/

/-- Two mappings that are written alike but for one operand: the text in front of it and the text
behind it are the same. -/
def DifferInOperand (m edited : Mapping) (path : List Selector) (old new : Operand) : Prop :=
  ∃ (place : Place) (json json' : Json), place.path = path ∧
    old.toJson = .ok json ∧ new.toJson = .ok json' ∧
    m.toJson = .ok (place.fill json) ∧ edited.toJson = .ok (place.fill json') ∧
    m.toText = .ok (place.textBefore ++ json.compact ++ place.textAfter) ∧
    edited.toText = .ok (place.textBefore ++ json'.compact ++ place.textAfter)

/-- The text of a mapping around something that takes no brackets. -/
theorem toText_of_fill {m : Mapping} {place : Place} {json : Json}
    (h : m.toJson = .ok (place.fill json)) (hdepth : json.depth = 0) :
    m.toText = .ok (place.textBefore ++ json.compact ++ place.textAfter) :=
  toText_eq_ok.2 ⟨_, h, place.compact_fill hdepth⟩

/-- In a mapping with finite numbers only, every entry can be written. -/
theorem exists_toJson_of_mem {m : Mapping} (hfinite : ∀ x ∈ m.numbers, x.isFinite = true)
    {entry : Entry} (hmem : entry ∈ m.entries) : ∃ json, entry.toJson = .ok json :=
  entry.reports_toJson.exists_ok_iff.2 fun x hx =>
    hfinite x (List.mem_flatMap.2 ⟨entry, hmem, hx⟩)

/-- An entry with a share in it is exchanged for the same one with another share. -/
theorem differInOperand_of_entry {m : Mapping} {json : Json} (hjson : m.toJson = .ok json)
    {front behind : List Entry} {hole : Operand → Entry} {share : Predicate}
    (hshare : share.isShare = true)
    (hentries : m.entries = front ++ hole share.operand :: behind) {inner : Place}
    (hinner : ∀ operand, (hole operand).toJson = inner.fill <$> operand.toJson)
    (percent : Percent) :
    m.DifferInOperand { m with entries := front ++ hole (.number percent.fraction) :: behind }
      (.key "data" :: .index front.length :: inner.path) share.operand
      (.number percent.fraction) := by
  obtain ⟨outer, hpath, haround⟩ := exists_place_entry hjson hentries
  obtain ⟨old, hold, hdepth⟩ := Predicate.exists_toJson_of_isShare hshare
  obtain ⟨new, hnew, hdepth'⟩ :=
    Predicate.exists_toJson_of_isShare (Predicate.isShare_setShare hshare percent)
  have hm : m.toJson = .ok ((outer ++ inner).fill old) := by
    have hself : m = { m with entries := front ++ hole share.operand :: behind } := by
      rw [← hentries]
    rw [hself, haround, hinner, hold, Place.fill_append]
    rfl
  have hedited : ({ m with entries := front ++ hole (.number percent.fraction) :: behind } :
      Mapping).toJson = .ok ((outer ++ inner).fill new) := by
    rw [haround, hinner, hnew, Place.fill_append]
    rfl
  refine ⟨outer ++ inner, old, new, ?_, hold, hnew, hm, hedited, toText_of_fill hm hdepth,
    toText_of_fill hedited hdepth'⟩
  rw [Place.path_append, hpath]
  rfl

/-- **A changed percentage changes one number in the text and nothing else.** It is the operand of
the share predicate in the first entry for the version, or in the first entry of an unconstrained
rollout. The text in front of it and the text behind it stay, and it becomes the written form of the
new fraction. -/
theorem percent_changes_one_operand (m : Mapping) (hfinite : ∀ x ∈ m.numbers, x.isFinite = true)
    (percent : Percent) (edited : Mapping) :
    (∀ version, m.edit (.setPercentFor version percent) = .ok edited →
      ∃ front entry behind scopes share others, m.entries = front ++ entry :: behind ∧
        (∀ other ∈ front, other.targets version = false) ∧
        entry.logic = .all (scopes ++ .predicate share :: others) ∧
        entry.logic.constrained? = some (version, share) ∧
        m.DifferInOperand edited [.key "data", .index front.length, .key "branchMappingLogic",
          .index (scopes.length + 1), .key "operand"] share.operand (.number percent.fraction)) ∧
    (m.edit (.setPercent percent) = .ok edited →
      ∃ first share fallback, m.unconstrained? = some (first, share, fallback) ∧
        m.DifferInOperand edited [.key "data", .index 0, .key "branchMappingLogic", .key "operand"]
          share.operand (.number percent.fraction)) := by
  obtain ⟨json, hjson⟩ := m.reports_toJson.exists_ok_iff.2 hfinite
  constructor
  · intro version h
    obtain ⟨front, entry, behind, scopes, share, others, hentries, hfront, hlogic, hconstrained,
      rfl⟩ := exists_split_of_setPercentFor h
    refine ⟨front, entry, behind, scopes, share, others, hentries, hfront, hlogic, hconstrained, ?_⟩
    have hmem : entry ∈ m.entries := by
      rw [hentries]
      exact List.mem_append_right _ List.mem_cons_self
    obtain ⟨written, hwritten⟩ := exists_toJson_of_mem hfinite hmem
    obtain ⟨inner, hpath, hinner⟩ := Entry.exists_place_conjunct hwritten hlogic
    obtain ⟨_, -, hshare, -⟩ := Node.constrained?_eq_some.1 hconstrained
    rw [← hpath]
    apply differInOperand_of_entry hjson hshare ?_ hinner
    rw [hentries, ← hlogic]
  · intro h
    obtain ⟨first, share, fallback, hu, rfl⟩ := unconstrained?_setPercent h
    obtain ⟨hentries, hlogic, hshare, -⟩ := unconstrained?_eq_some.1 hu
    refine ⟨first, share, fallback, hu, ?_⟩
    obtain ⟨inner, hpath, hinner⟩ := first.exists_place_predicate share
    have hfirst : m.entries = [] ++ { first with logic := .predicate share } :: [fallback] := by
      rw [hentries, ← hlogic]
      rfl
    have hdiffer := differInOperand_of_entry hjson hshare hfirst hinner percent
    rw [hpath] at hdiffer
    exact hdiffer

/-- A rollout for a version behind a sibling with rollouts inside, and in front of another one. -/
def rolloutAmongSiblings : Mapping :=
  current
    [⟨"B1", .not (.any [.constrained "1.0" ⟨45, by decide⟩,
        .predicate ⟨.texts ["a", "b"], "channel", .oneOf⟩])⟩,
      ⟨"B2", .all [.share ⟨12, by decide⟩, .predicate (.version "1.0")]⟩,
      ⟨"B3", .constrained "1.0" ⟨12, by decide⟩⟩,
      ⟨"B4", .alwaysTrue⟩]

/-- The operand of the second entry, and the only one of an unconstrained rollout. -/
theorem percent_changes_one_operand_siblings :
    (∀ x ∈ rolloutAmongSiblings.numbers, x.isFinite = true) ∧
    (∀ x ∈ legacyRollout.numbers, x.isFinite = true) ∧
    (∃ edited path old,
      rolloutAmongSiblings.edit (.setPercentFor "1.0" ⟨35, by decide⟩) = .ok edited ∧
      rolloutAmongSiblings.DifferInOperand edited path old
        (.number (Percent.fraction ⟨35, by decide⟩))) ∧
    ∃ edited path old, legacyRollout.edit (.setPercent ⟨35, by decide⟩) = .ok edited ∧
      legacyRollout.DifferInOperand edited path old
        (.number (Percent.fraction ⟨35, by decide⟩)) := by
  have hfinite : ∀ x ∈ rolloutAmongSiblings.numbers, x.isFinite = true := by decide +kernel
  have hfinite' : ∀ x ∈ legacyRollout.numbers, x.isFinite = true := by decide +kernel
  refine ⟨hfinite, hfinite', ?_, ?_⟩
  · obtain ⟨edited, hedited⟩ := Outcome.exists_of_isOk
      (x := rolloutAmongSiblings.edit (.setPercentFor "1.0" ⟨35, by decide⟩)) (by decide +kernel)
    obtain ⟨_, _, _, _, share, _, -, -, -, -, hdiffer⟩ :=
      (percent_changes_one_operand rolloutAmongSiblings hfinite ⟨35, by decide⟩ edited).1 _ hedited
    exact ⟨edited, _, share.operand, hedited, hdiffer⟩
  · obtain ⟨edited, hedited⟩ := Outcome.exists_of_isOk
      (x := legacyRollout.edit (.setPercent ⟨35, by decide⟩)) (by decide +kernel)
    obtain ⟨_, share, _, -, hdiffer⟩ :=
      (percent_changes_one_operand legacyRollout hfinite' ⟨35, by decide⟩ edited).2 hedited
    exact ⟨edited, _, share.operand, hedited, hdiffer⟩

end Mapping

end StagedRollout
