/-
# StagedRollout.Proofs.Mapping.Written -- which mappings can be written

A mapping can be written when the numbers in it are finite, and the first one that is not, in
written order, is what a failure names (`Mapping.reports_toJson`). The written form is the same
for mappings that are equal as numbers go (`Mapping.toJson_of_same`): the two zeros are the only
numbers that are equal and not the same, and both are written as the integer zero.
-/
import StagedRollout.Proofs.Json.Written
import StagedRollout.Proofs.Outcome
import StagedRollout.Mapping.Error

namespace StagedRollout

/- Powers of natural numbers are the core library's own. -/
attribute [local instance (2000)] instPowNat

/- The unit is never multiplied out. -/
attribute [local irreducible] unitsOfOne unitsLimit

/-! ## Numbers in written order -/

/-- The number of an operand, if it is one. -/
def Operand.numbers : Operand → List Binary64
  | .number x => [x]
  | _ => []

mutual

/-- The numbers of a node, in written order. -/
def Node.numbers : Node → List Binary64
  | .alwaysTrue => []
  | .predicate p => p.operand.numbers
  | .all nodes => nodesNumbers nodes
  | .any nodes => nodesNumbers nodes
  | .not node => node.numbers

/-- The numbers of nodes, one node after the other. -/
def nodesNumbers : List Node → List Binary64
  | [] => []
  | node :: rest => node.numbers ++ nodesNumbers rest

end

/-- The numbers of a mapping, in written order. -/
def Mapping.numbers (m : Mapping) : List Binary64 :=
  m.entries.flatMap fun entry => entry.logic.numbers

/-! ## Success and failure -/

/-- The first number that is not finite. -/
def firstUnwritable? (numbers : List Binary64) : Option Binary64 :=
  numbers.find? fun x => !x.isFinite

/-- A writing of numbers that fails at the first one that is not finite, and only there. -/
def Reports {α : Type} (numbers : List Binary64) (written : Except Unwritable α) : Prop :=
  match firstUnwritable? numbers with
  | some x => written = .error ⟨x⟩
  | none => ∃ a, written = .ok a

namespace Reports

variable {α β : Type} {numbers more : List Binary64} {written : Except Unwritable α}

theorem ok (a : α) : Reports [] (.ok a : Except Unwritable α) := ⟨a, rfl⟩

theorem map (h : Reports numbers written) (f : α → β) : Reports numbers (f <$> written) := by
  unfold Reports at h ⊢
  split at h
  · rw [h]
    rfl
  · obtain ⟨a, rfl⟩ := h
    exact ⟨f a, rfl⟩

/-- What is written first fails first. -/
theorem bind {f : α → Except Unwritable β} (h : Reports numbers written)
    (hmore : ∀ a, Reports more (f a)) : Reports (numbers ++ more) (written >>= f) := by
  unfold Reports firstUnwritable? at *
  rw [List.find?_append]
  cases hfirst : numbers.find? fun x => !x.isFinite with
  | some x =>
    rw [hfirst] at h
    simp only at h
    rw [h]
    rfl
  | none =>
    rw [hfirst] at h
    obtain ⟨a, rfl⟩ := h
    exact hmore a

/-- Writing succeeds just when every number is finite. -/
theorem exists_ok_iff (h : Reports numbers written) :
    (∃ a, written = .ok a) ↔ ∀ x ∈ numbers, x.isFinite = true := by
  have hfind : firstUnwritable? numbers = none ↔ ∀ x ∈ numbers, x.isFinite = true := by
    simp [firstUnwritable?]
  rw [← hfind]
  unfold Reports at h
  split at h
  · next x hx => simp [h, hx]
  · next hx => simp [h, hx]

/-- The error names the first number that cannot be written. -/
theorem error_of_first (h : Reports numbers written) {x : Binary64}
    (hx : firstUnwritable? numbers = some x) : written = .error ⟨x⟩ := by
  unfold Reports at h
  rw [hx] at h
  exact h

end Reports

/-- An operand cannot be written only if it is a number, and not a finite one. -/
theorem Operand.reports_toJson (operand : Operand) : Reports operand.numbers operand.toJson := by
  cases operand with
  | number x =>
    unfold Reports firstUnwritable? toJson
    by_cases hx : x.isFinite = true
    · simp [numbers, hx]
    · simp [numbers, hx]
  | text content => exact .ok _
  | texts contents => exact .ok _

mutual

/-- A node reports its first number that is not finite. -/
theorem Node.reports_toJson : ∀ node : Node, Reports node.numbers node.toJson
  | .alwaysTrue => .ok _
  | .predicate p => by
      rw [Node.numbers, Node.toJson]
      exact p.operand.reports_toJson.map _
  | .all nodes => by
      rw [Node.numbers, Node.toJson]
      exact (reports_nodesToJson nodes).map _
  | .any nodes => by
      rw [Node.numbers, Node.toJson]
      exact (reports_nodesToJson nodes).map _
  | .not node => by
      rw [Node.numbers, Node.toJson]
      exact (Node.reports_toJson node).map _

theorem reports_nodesToJson : ∀ nodes : List Node, Reports (nodesNumbers nodes) (nodesToJson nodes)
  | [] => .ok _
  | node :: rest => by
      rw [nodesNumbers, nodesToJson]
      exact (Node.reports_toJson node).bind fun json => (reports_nodesToJson rest).map _

end

theorem Entry.reports_toJson (entry : Entry) : Reports entry.logic.numbers entry.toJson :=
  entry.logic.reports_toJson.map _

theorem reports_entriesToJson (entries : List Entry) :
    Reports (entries.flatMap fun entry => entry.logic.numbers) (entriesToJson entries) := by
  induction entries with
  | nil => exact .ok _
  | cons entry rest ih =>
    rw [List.flatMap_cons]
    exact entry.reports_toJson.bind fun json => ih.map _

/-- A mapping reports its first number that is not finite, in written order. -/
theorem Mapping.reports_toJson (m : Mapping) : Reports m.numbers m.toJson :=
  (reports_entriesToJson m.entries).map _

/-! ## Equal numbers -/

namespace Binary64

/-- Numbers are equal when they stand at the same place. -/
theorem same_iff {x y : Binary64} :
    x.same y = true ↔ ∃ place, x.place? = some place ∧ y.place? = some place := by
  have hle : x.same y = true ↔ PlacedLE x.place? y.place? ∧ PlacedLE y.place? x.place? := by
    rw [same, Bool.and_eq_true, decide_eq_true_eq, decide_eq_true_eq]
    rfl
  rw [hle]
  cases x.place? <;> cases y.place? <;> simp [PlacedLE]
  omega

/-- A finite number is equal to itself. -/
theorem same_self {x : Binary64} (h : x.isFinite = true) : x.same x = true := by
  cases x with
  | finite negative m => exact same_iff.2 ⟨_, rfl, rfl⟩
  | _ => exact absurd h (by simp [isFinite])

theorem units_zero {m : Magnitude} (h : m.units = 0) : m = .zero := by
  obtain ⟨units, aligned, bounded⟩ := m
  simp only at h
  subst h
  rfl

/-- A place on the grid tells the size, and the sign unless it is zero. -/
theorem signed_inj {negative negative' : Bool} {a b : Nat}
    (h : signed negative a = signed negative' b) : a = b ∧ (negative = negative' ∨ a = 0) := by
  cases negative <;> cases negative' <;> simp [signed] at h ⊢ <;> omega

/-- Equal numbers are the same, zeros apart. -/
theorem eq_or_zero_of_same {x y : Binary64} (h : x.same y = true) :
    x = y ∨ ∃ negative negative', x = .finite negative .zero ∧ y = .finite negative' .zero := by
  obtain ⟨place, hx, hy⟩ := same_iff.1 h
  -- infinities stand outside the places of the finite numbers, which stand apart but for zero
  have hplace := hx.trans hy.symm
  have hlimit : 0 < unitsLimit := Magnitude.zero.bounded
  cases x with
  | nan => exact absurd hx (by simp [place?])
  | infinite negative =>
    cases y with
    | nan => exact absurd hy (by simp [place?])
    | infinite negative' =>
      obtain ⟨-, rfl | hzero⟩ := signed_inj (Option.some.inj hplace)
      · exact .inl rfl
      · omega
    | finite negative' m =>
      have hunits := (signed_inj (Option.some.inj hplace)).1
      have hbound := m.bounded
      omega
  | finite negative m =>
    cases y with
    | nan => exact absurd hy (by simp [place?])
    | infinite negative' =>
      have hunits := (signed_inj (Option.some.inj hplace)).1
      have hbound := m.bounded
      omega
    | finite negative' m' =>
      obtain ⟨hunits, rfl | hzero⟩ := signed_inj (Option.some.inj hplace)
      · left
        cases m
        cases m'
        simp only at hunits
        subst hunits
        rfl
      · right
        have hzero' : m'.units = 0 := by omega
        obtain rfl := units_zero hzero
        obtain rfl := units_zero hzero'
        exact ⟨negative, negative', rfl, rfl⟩

theorem toInt?_zero (negative : Bool) : (finite negative .zero).toInt? = some 0 := by
  have hzero : Magnitude.zero.units = 0 := rfl
  rw [toInt?, hzero, Nat.zero_mod, if_pos rfl, Nat.zero_div]
  cases negative <;> rfl

end Binary64

/-! ## Equal mappings are written alike -/

theorem Operand.numberJson_zero (negative : Bool) :
    numberJson (.finite negative .zero) = .int 0 := by
  unfold numberJson
  rw [Binary64.toInt?_zero]
  rfl

/-- Equal operands are written alike: both zeros are written as the integer zero. -/
theorem Operand.toJson_of_same {a b : Operand} (h : a.same b = true) : a.toJson = b.toJson := by
  cases a with
  | number x =>
    cases b with
    | number y =>
      rcases Binary64.eq_or_zero_of_same h with rfl | ⟨negative, negative', rfl, rfl⟩
      · rfl
      · rw [toJson, toJson, numberJson_zero, numberJson_zero]
        rfl
    | _ => exact absurd h (by simp [same])
  | text content =>
    cases b with
    | text content' => rw [of_decide_eq_true h]
    | _ => exact absurd h (by simp [same])
  | texts contents =>
    cases b with
    | texts contents' => rw [of_decide_eq_true h]
    | _ => exact absurd h (by simp [same])

theorem Predicate.toJson_of_same {p q : Predicate} (h : p.same q = true) : p.toJson = q.toJson := by
  simp only [same, Bool.and_eq_true, decide_eq_true_eq] at h
  obtain ⟨⟨hoperand, hclientKey⟩, hoperator⟩ := h
  rw [toJson, toJson, Operand.toJson_of_same hoperand, hclientKey, hoperator]

mutual

/-- Equal nodes are written alike. -/
theorem Node.toJson_of_same : ∀ {a b : Node}, a.same b = true → a.toJson = b.toJson
  | .alwaysTrue, .alwaysTrue, _ => rfl
  | .predicate p, .predicate q, h => Predicate.toJson_of_same h
  | .all as, .all bs, h => by
      rw [Node.same] at h
      rw [Node.toJson, Node.toJson, nodesToJson_of_same h]
  | .any as, .any bs, h => by
      rw [Node.same] at h
      rw [Node.toJson, Node.toJson, nodesToJson_of_same h]
  | .not a, .not b, h => by
      rw [Node.same] at h
      rw [Node.toJson, Node.toJson, Node.toJson_of_same h]

theorem nodesToJson_of_same : ∀ {as bs : List Node}, sameNodes as bs = true →
    nodesToJson as = nodesToJson bs
  | [], [], _ => rfl
  | a :: as, b :: bs, h => by
      rw [sameNodes, Bool.and_eq_true] at h
      rw [nodesToJson, nodesToJson, Node.toJson_of_same h.1, nodesToJson_of_same h.2]

end

/-- Equal entries are written alike, one after the other. -/
theorem entriesToJson_of_same : ∀ {as bs : List Entry}, Mapping.sameEntries as bs = true →
    entriesToJson as = entriesToJson bs
  | [], [], _ => rfl
  | a :: as, b :: bs, h => by
      simp only [Mapping.sameEntries, Bool.and_eq_true, decide_eq_true_eq] at h
      obtain ⟨⟨hbranchId, hlogic⟩, hrest⟩ := h
      rw [entriesToJson, entriesToJson, entriesToJson_of_same hrest, Entry.toJson, Entry.toJson,
        hbranchId, Node.toJson_of_same hlogic]

/-- Equal mappings are written alike. -/
theorem Mapping.toJson_of_same {a b : Mapping} (h : a.same b = true) : a.toJson = b.toJson := by
  simp only [same, Bool.and_eq_true, decide_eq_true_eq] at h
  rw [toJson, toJson, h.1, entriesToJson_of_same h.2]

/-! ## Written forms are fit to be written -/

/-- A finite number is written as an integer or as a finite float, and both have a text. -/
theorem writable_numberJson {x : Binary64} (h : x.isFinite = true) :
    (Operand.numberJson x).Writable := by
  unfold Operand.numberJson
  split
  -- a whole number is written as an integer up to a limit well inside the machine's
  · split
    · next hsmall =>
      rw [Operand.largestPlainWhole] at hsmall
      show Machine _
      unfold Machine Numeral.signedSpan Numeral.unsignedSpan
      omega
    · exact h
  · exact h

theorem writableItems_texts (contents : List String) :
    WritableItems (contents.map Json.text) := by
  induction contents with
  | nil => trivial
  | cons content rest ih => exact ⟨trivial, ih⟩

theorem Operand.writable {operand : Operand} {json : Json} (h : operand.toJson = .ok json) :
    json.Writable := by
  cases operand with
  | number x =>
    rw [toJson] at h
    split at h
    · next hfinite =>
      obtain rfl := Except.ok.inj h
      exact writable_numberJson hfinite
    · exact absurd h (by simp)
  | text content =>
    obtain rfl := Except.ok.inj h
    trivial
  | texts contents =>
    obtain rfl := Except.ok.inj h
    exact writableItems_texts contents

/-- The written form of a predicate has three members, in this order. -/
theorem Predicate.toJson_eq_ok {p : Predicate} {json : Json} :
    p.toJson = .ok json ↔ ∃ operand, p.operand.toJson = .ok operand ∧
      json = .object [("operand", operand), ("clientKey", .text p.clientKey),
        ("branchMappingOperator", .text p.operator.token)] := by
  simp only [toJson, Outcome.bind_eq_ok, Outcome.pure_eq_ok, Except.ok.injEq, Operator.toJson]
  exact exists_congr fun _ => and_congr_right fun _ => eq_comm

/-- The written form of a statement, from those of its nodes. -/
theorem Node.toJson_statement {node : Node} {keyword : String} {nodes : List Node}
    (h : node.statement? = some (keyword, nodes)) :
    node.toJson = (fun jsons => .array (.text keyword :: jsons)) <$> nodesToJson nodes := by
  cases node with
  | all nodes => obtain ⟨rfl, rfl⟩ := Prod.mk.inj (Option.some.inj h); rw [Node.toJson]
  | any nodes => obtain ⟨rfl, rfl⟩ := Prod.mk.inj (Option.some.inj h); rw [Node.toJson]
  | not node =>
    obtain ⟨rfl, rfl⟩ := Prod.mk.inj (Option.some.inj h)
    -- a negation is written as a list of its one node
    rw [Node.toJson, nodesToJson, nodesToJson]
    cases node.toJson <;> rfl
  | _ => exact absurd h (by simp [statement?])

mutual

/-- What is written for a node has a text. -/
theorem Node.writable : ∀ {node : Node} {json : Json}, node.toJson = .ok json → json.Writable
  | .alwaysTrue, json, h => by
      rw [Node.toJson] at h
      obtain rfl := Except.ok.inj h
      trivial
  | .predicate p, json, h => by
      rw [Node.toJson] at h
      obtain ⟨operand, hoperand, rfl⟩ := Predicate.toJson_eq_ok.1 h
      exact ⟨Operand.writable hoperand, trivial, trivial, trivial⟩
  | .all nodes, json, h => by
      rw [Node.toJson] at h
      obtain ⟨jsons, hnodes, rfl⟩ := Outcome.map_eq_ok.1 h
      exact ⟨trivial, writable_nodes hnodes⟩
  | .any nodes, json, h => by
      rw [Node.toJson] at h
      obtain ⟨jsons, hnodes, rfl⟩ := Outcome.map_eq_ok.1 h
      exact ⟨trivial, writable_nodes hnodes⟩
  | .not node, json, h => by
      rw [Node.toJson] at h
      obtain ⟨json, hnode, rfl⟩ := Outcome.map_eq_ok.1 h
      exact ⟨trivial, Node.writable hnode, trivial⟩

theorem writable_nodes : ∀ {nodes : List Node} {jsons : List Json},
    nodesToJson nodes = .ok jsons → WritableItems jsons
  | [], jsons, h => by
      rw [nodesToJson] at h
      obtain rfl := Except.ok.inj h
      trivial
  | node :: rest, jsons, h => by
      rw [nodesToJson] at h
      obtain ⟨json, hnode, h⟩ := Outcome.bind_eq_ok.1 h
      obtain ⟨jsons, hrest, h⟩ := Outcome.bind_eq_ok.1 h
      obtain rfl := Except.ok.inj h
      exact ⟨Node.writable hnode, writable_nodes hrest⟩

end

/-- The written form of an entry has two members, in this order. -/
theorem Entry.toJson_eq_ok {entry : Entry} {json : Json} :
    entry.toJson = .ok json ↔ ∃ logic, entry.logic.toJson = .ok logic ∧
      json = .object [("branchId", .text entry.branchId), ("branchMappingLogic", logic)] := by
  simp only [toJson, Outcome.bind_eq_ok, Outcome.pure_eq_ok, Except.ok.injEq]
  exact exists_congr fun _ => and_congr_right fun _ => eq_comm

theorem entriesToJson_cons_eq_ok {entry : Entry} {rest : List Entry} {jsons : List Json} :
    entriesToJson (entry :: rest) = .ok jsons ↔ ∃ json tail, entry.toJson = .ok json ∧
      entriesToJson rest = .ok tail ∧ jsons = json :: tail := by
  simp only [entriesToJson, Outcome.bind_eq_ok, Outcome.pure_eq_ok, Except.ok.injEq]
  constructor
  · rintro ⟨json, hentry, tail, hrest, rfl⟩
    exact ⟨json, tail, hentry, hrest, rfl⟩
  · rintro ⟨json, tail, hentry, hrest, rfl⟩
    exact ⟨json, hentry, tail, hrest, rfl⟩

theorem writable_entries {entries : List Entry} {jsons : List Json}
    (h : entriesToJson entries = .ok jsons) : WritableItems jsons := by
  induction entries generalizing jsons with
  | nil =>
    obtain rfl := Except.ok.inj h
    trivial
  | cons entry rest ih =>
    obtain ⟨json, tail, hentry, hrest, rfl⟩ := entriesToJson_cons_eq_ok.1 h
    obtain ⟨logic, hlogic, rfl⟩ := Entry.toJson_eq_ok.1 hentry
    exact ⟨⟨trivial, Node.writable hlogic, trivial⟩, ih hrest⟩

/-- The written form of a mapping has two members, in this order. -/
theorem Mapping.toJson_eq_ok {m : Mapping} {json : Json} :
    m.toJson = .ok json ↔ ∃ jsons, entriesToJson m.entries = .ok jsons ∧
      json = .object [("version", .int m.version.toNat), ("data", .array jsons)] := by
  simp only [toJson, Outcome.bind_eq_ok, Outcome.pure_eq_ok, Except.ok.injEq]
  exact exists_congr fun _ => and_congr_right fun _ => eq_comm

/-- What is written for a mapping has a text. -/
theorem Mapping.writable {m : Mapping} {json : Json} (h : m.toJson = .ok json) :
    json.Writable := by
  obtain ⟨jsons, hentries, rfl⟩ := toJson_eq_ok.1 h
  -- a version has half the bits of a machine integer
  have hversion : Machine m.version.toNat := by
    have hlt := m.version.toNat_lt
    unfold Machine Numeral.signedSpan Numeral.unsignedSpan
    omega
  exact ⟨hversion, writable_entries hentries, trivial⟩

end StagedRollout
