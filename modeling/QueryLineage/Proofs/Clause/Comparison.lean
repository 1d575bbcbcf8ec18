import QueryLineage.Clause.Condition
import QueryLineage.Proofs.Tree.Parts

/-!
# Comparisons

How a comparison of a name with something else is read: as the name, under the condition of the
operator with the text of the right side.
-/

namespace QueryLineage

open Text
open String (toList_append append_assoc)

theorem DottedName.isBlank_of_mem (name : DottedName) :
    ∀ c ∈ name.text.toList, isBlank c = false := by
  obtain ⟨first, others⟩ := name
  induction others generalizing first with
  | nil =>
    intro c hc
    exact first.isPlain.isWord.isBlank c (by simpa [DottedName.text] using hc)
  | cons second others ih =>
    intro c hc
    rw [DottedName.text_cons, toList_append, toList_append] at hc
    rcases List.mem_append.1 hc with hc | hc
    · exact first.isPlain.isWord.isBlank c hc
    · rcases List.mem_cons.1 hc with rfl | hc
      · decide
      · exact ih second c hc

theorem DottedName.text_ne (name : DottedName) : name.text ≠ "" := by
  obtain ⟨c, cs, hlist, -⟩ := (Node.written_dotted name).visible
  intro h
  rw [h] at hlist
  cases hlist

theorem Attribute.withCondition_of_ne {name operator value : String} (hupper : upper operator = operator)
    (hvalue : value ≠ "") :
    withCondition name operator value =
      { name, condition? := some (operator ++ " " ++ value) } := by
  have hempty : value.isEmpty = false := by
    rw [← Bool.not_eq_true, String.isEmpty_iff]
    exact hvalue
  rw [withCondition, hupper, hempty]
  rfl

namespace Node

theorem text_identifierNode (name : DottedName) : (identifierNode name).text = name.text := by
  obtain ⟨first, others⟩ := name
  induction others generalizing first with
  | nil => simp [identifierNode, dotted, nameNode, DottedName.text]
  | cons second others ih =>
    have hsecond := ih second
    simp only [identifierNode, dotted, text_group, textAll_cons, List.flatMap_cons, textAll_append,
      DottedName.text_cons] at hsecond ⊢
    rw [← hsecond]
    simp [nameNode, dotNode, append_assoc]

theorem upper_operator (operator : Operator) : (operatorNode operator).normalized = operator.text ∧
    upper operator.text = operator.text := by
  have hall : ∀ text ∈ comparisonOperators, (leaf .comparisonOperator text).normalized = text ∧
      upper text = text := by decide +kernel
  exact hall operator.text operator.mem

theorem comparison_eq_ok (name : DottedName) (operator : Operator) {right : Node}
    (htrim : trim right.text = right.text) (hne : right.text ≠ "") :
    (group .comparison [identifierNode name, spaceNode, operatorNode operator, spaceNode,
      right]).comparison = .ok
        { name := name.text, condition? := some (operator.text ++ " " ++ right.text) } := by
  have hname : trim (name.text ++ " ") = name.text := by
    rw [trim_append_space, trim_eq_self name.isBlank_of_mem]
  have hright : trim (textAll [spaceNode, right]) = right.text := by
    rw [textAll_cons, textAll_cons, textAll_nil, String.append_empty, spaceNode, text_leaf,
      trim_space_append, htrim]
  have hleft : textAll [identifierNode name, spaceNode] = name.text ++ " " := by
    rw [textAll_cons, text_identifierNode, textAll_cons, textAll_nil, String.append_empty]
    rfl
  have hempty : name.text.isEmpty = false := by
    rw [← Bool.not_eq_true, String.isEmpty_iff]
    exact name.text_ne
  obtain ⟨hnormalized, hupper⟩ := upper_operator operator
  have hdrop : [identifierNode name, spaceNode, operatorNode operator, spaceNode,
      right].dropWhile (fun child => !(child.kind == .comparisonOperator)) =
        [operatorNode operator, spaceNode, right] := rfl
  have htake : [identifierNode name, spaceNode, operatorNode operator, spaceNode,
      right].takeWhile (fun child => !(child.kind == .comparisonOperator)) =
        [identifierNode name, spaceNode] := rfl
  simp only [comparison, children_group, hdrop, htake, hleft, hright, hname, hempty,
    Bool.false_eq_true, if_false, hnormalized]
  rw [Attribute.withCondition_of_ne hupper hne]

end Node

end QueryLineage
