/-
# StagedRollout.Proofs.Mapping.Schema -- the wire format as a schema

What a JSON tree has to look like to be a mapping, and which mapping it is: one relation for each
kind of record, with no reader in it. The order of the members of an object plays no role in
any of them, nor do members that nobody asks for.

Numbers need a remark. The schema takes an operand at the double that its literal counts as, the
reader goes by way of an integer where there is one; `Numeral.ofNumber?_of_value?` says that both
are the same double for every literal that can be spelled.
-/
import StagedRollout.Proofs.Json.Numerals
import StagedRollout.Mapping.Text
import Mathlib.Data.List.Forall2

namespace StagedRollout

/-! ## The schema -/

/-- An operand: a number, a string, or an array of strings. -/
inductive FitsOperand : JsonTree → Operand → Prop
  | number (numeral : Numeral) : FitsOperand (.number numeral) (.number numeral.reading.toBinary64)
  | text (content : String) : FitsOperand (.text content) (.text content)
  | texts (contents : List String) : FitsOperand (.array (contents.map .text)) (.texts contents)

/-- An operator: its token, or an object with the token as only key and null as value. -/
inductive FitsOperator : JsonTree → Operator → Prop
  | token (o : Operator) : FitsOperator (.text o.token) o
  | key (o : Operator) : FitsOperator (.object [(o.token, .null)]) o

/-- The members of a predicate. -/
structure FitsPredicate (members : List (String × JsonTree)) (p : Predicate) : Prop where
  operand : ∃ tree, ("operand", tree) ∈ members ∧ FitsOperand tree p.operand
  clientKey : ("clientKey", .text p.clientKey) ∈ members
  operator : ∃ tree, ("branchMappingOperator", tree) ∈ members ∧ FitsOperator tree p.operator

mutual

/-- A node: the string `"true"`, a predicate, or a statement array. -/
inductive FitsNode : JsonTree → Node → Prop
  | alwaysTrue : FitsNode (.text "true") .alwaysTrue
  | predicate {members : List (String × JsonTree)} {p : Predicate} :
      FitsPredicate members p → FitsNode (.object members) (.predicate p)
  | all {items : List JsonTree} {nodes : List Node} :
      FitsNodes items nodes → FitsNode (.array (.text "and" :: items)) (.all nodes)
  | any {items : List JsonTree} {nodes : List Node} :
      FitsNodes items nodes → FitsNode (.array (.text "or" :: items)) (.any nodes)
  | not {item : JsonTree} {node : Node} :
      FitsNode item node → FitsNode (.array [.text "not", item]) (.not node)

/-- The nodes of a statement, in order. -/
inductive FitsNodes : List JsonTree → List Node → Prop
  | nil : FitsNodes [] []
  | cons {item : JsonTree} {items : List JsonTree} {node : Node} {nodes : List Node} :
      FitsNode item node → FitsNodes items nodes → FitsNodes (item :: items) (node :: nodes)

end

/-- An entry: an object with its two fields, or the array of the two. -/
inductive FitsEntry : JsonTree → Entry → Prop
  | object {members : List (String × JsonTree)} {tree : JsonTree} {branchId : String}
      {logic : Node} :
      ("branchId", .text branchId) ∈ members → ("branchMappingLogic", tree) ∈ members →
      FitsNode tree logic → FitsEntry (.object members) ⟨branchId, logic⟩
  | array {tree : JsonTree} {branchId : String} {logic : Node} :
      FitsNode tree logic → FitsEntry (.array [.text branchId, tree]) ⟨branchId, logic⟩

/-- A version: a literal of digits only. -/
inductive FitsVersion : JsonTree → UInt32 → Prop
  | literal {numeral : Numeral} {word : UInt32} :
      numeral.whole = true → numeral.decimal.negative = false →
      numeral.decimal.coefficient = word.toNat → FitsVersion (.number numeral) word

/-- The entries of a mapping: an array of them. -/
inductive FitsEntries : JsonTree → List Entry → Prop
  | array {items : List JsonTree} {entries : List Entry} :
      List.Forall₂ FitsEntry items entries → FitsEntries (.array items) entries

/-- A mapping: an object with its two fields, or the array of the two. -/
inductive FitsMapping : JsonTree → Mapping → Prop
  | object {members : List (String × JsonTree)} {tree trees : JsonTree} {version : UInt32}
      {entries : List Entry} :
      ("version", tree) ∈ members → FitsVersion tree version → ("data", trees) ∈ members →
      FitsEntries trees entries → FitsMapping (.object members) ⟨version, entries⟩
  | array {tree trees : JsonTree} {version : UInt32} {entries : List Entry} :
      FitsVersion tree version → FitsEntries trees entries →
      FitsMapping (.array [tree, trees]) ⟨version, entries⟩

/-! ## Numbers -/

/-- An integer is the double that its literal counts as. -/
theorem Numeral.ofNumber?_of_value? {n : Numeral} (hplain : n.Plain) {json : Json}
    (h : n.value? = some json) : Operand.ofNumber? json = some n.reading.toBinary64 := by
  unfold value? at h
  split at h
  · next i hi =>
    obtain rfl := Option.some.inj h
    rw [Operand.ofNumber?, reading_of_toInt? hplain hi]
  · split at h
    · next hfinite =>
      obtain rfl := Option.some.inj h
      rw [Operand.ofNumber?, hfinite]
    · exact absurd h (by simp)

end StagedRollout
