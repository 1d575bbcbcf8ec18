import QueryLineage.Proofs.Clause.Advance
import QueryLineage.Proofs.Clause.Leeway
import QueryLineage.Proofs.Tree.LeadingComments

/-!
# Reading rows with leading comments

Rows that are the same but for comments are read into steps that are the same but for what only tells
where a table comes from: the comments and the texts that are collected.
-/

namespace QueryLineage

open Text

namespace Node

theorem items_of_membersAlike {children others : List Node}
    (h : List.Forall₂ MemberAlike children others) :
    (group .identifierList others).items = (group .identifierList children).items := by
  have hitems : ∀ children, (group .identifierList children).items = children.filter fun child =>
      !child.isFiller .all && !child.isPunctuation := fun children => if_pos rfl
  rw [hitems, hitems]
  induction h with
  | nil => rfl
  | cons hmember _ ih =>
    cases hmember with
    | same node => rw [List.filter_cons, List.filter_cons, ih]
    | comment text blank => exact ih

theorem read_congr {node other : Node} (h : other.items = node.items) (clause : Clause) :
    other.read clause = node.read clause := by
  cases clause <;> simp only [read, h]

namespace RowsAlike

variable {leads : Bool} {row other : List Node}

theorem conditionParts (h : RowsAlike leads row other) (waiting : Bool) :
    Node.conditionParts waiting other = Node.conditionParts waiting row := by
  induction h generalizing waiting with
  | nil => rfl
  | same node _ ih =>
    rw [Node.conditionParts, Node.conditionParts, ih]
    split
    · rfl
    · cases conditionPart? waiting node with
      | none => rfl
      | some part => dsimp only; rw [ih]
  | comment text blank _ ih =>
    have hcomment : (leaf .comment text).isFiller .all = true := rfl
    have hblank : (leaf .whitespace blank).isFiller .all = true := rfl
    rw [Node.conditionParts, Node.conditionParts, if_pos hcomment, if_pos hblank, ih]
  | list _ _ _ _ => rfl
  | clause _ _ _ _ _ => rfl

theorem startsCondition (h : RowsAlike leads row other) :
    Node.startsCondition other = Node.startsCondition row := by
  unfold Node.startsCondition
  induction h with
  | nil => rfl
  | same node _ ih =>
    by_cases hnode : node.isFiller .all = true
    · rw [List.find?_cons_of_neg (by simp [hnode]), List.find?_cons_of_neg (by simp [hnode]), ih]
    · rw [List.find?_cons_of_pos (by simp [hnode]), List.find?_cons_of_pos (by simp [hnode])]
  | comment text blank _ ih => exact ih
  | list _ _ _ _ | clause _ _ _ _ _ =>
    rw [List.find?_cons_of_pos rfl, List.find?_cons_of_pos rfl, Option.any_some, Option.any_some,
      isKeyword_group rfl, isKeyword_group rfl, Bool.false_and, Bool.false_and]

theorem keywordCondition (h : RowsAlike leads row other) (operand : Node) :
    Node.keywordCondition operand other = Node.keywordCondition operand row := by
  rw [Node.keywordCondition, Node.keywordCondition, h.startsCondition, h.conditionParts]

theorem conditionsFrom (h : RowsAlike leads row other) (taken : Nat) :
    Node.conditionsFrom taken other = Node.conditionsFrom taken row := by
  induction h generalizing taken with
  | nil => rfl
  | same node h ih =>
    cases taken with
    | succ taken => rw [Node.conditionsFrom, Node.conditionsFrom, ih]
    | zero => rw [Node.conditionsFrom, Node.conditionsFrom, h.keywordCondition]; simp only [ih]
  | comment text blank _ ih =>
    cases taken with
    | succ taken => rw [Node.conditionsFrom, Node.conditionsFrom, ih]
    | zero => rw [Node.conditionsFrom, Node.conditionsFrom]; exact ih 0
  | list _ _ _ ih =>
    cases taken with
    | succ taken => rw [Node.conditionsFrom, Node.conditionsFrom, ih]
    | zero => rw [Node.conditionsFrom, Node.conditionsFrom]; exact ih 0
  | clause _ _ _ _ ih =>
    cases taken with
    | succ taken => rw [Node.conditionsFrom, Node.conditionsFrom, ih]
    | zero => rw [Node.conditionsFrom, Node.conditionsFrom]; exact ih 0

/-- As many blanks come first in both rows, if no comment does. -/
theorem orderExtent (h : RowsAlike false row other) :
    Step.orderExtent other = Step.orderExtent row := by
  unfold Step.orderExtent
  generalize hleads : false = leads at h
  induction h with
  | nil => rfl
  | @same leads node row other h ih =>
    by_cases hnode : node.isWhitespace = true
    · have hbehind : node.leadsBehind leads = leads := if_pos (isFiller_of_isWhitespace hnode)
      rw [List.takeWhile_cons_of_pos hnode, List.takeWhile_cons_of_pos hnode, List.length_cons,
        List.length_cons, ih (hleads.trans hbehind.symm)]
    · rw [List.takeWhile_cons_of_neg hnode, List.takeWhile_cons_of_neg hnode]
  | comment _ _ _ _ => cases hleads
  | list _ _ _ _ => rfl
  | clause _ _ _ _ _ => rfl

end RowsAlike

end Node

namespace Reader

/-- The readers are at the same clause; they may remember other comments and texts. -/
structure Alike (reader other : Reader) : Prop where
  clause : other.clause = reader.clause
  awaiting : other.awaiting = reader.awaiting
  conditioned : other.conditioned = reader.conditioned

/-- What two nodes yield: steps that are the same but for comments and texts, and readers at the same
clause, behind as many siblings. -/
structure YieldsAlike (result other : List Step × Option (Reader × Nat)) : Prop where
  steps : List.Forall₂ (Step.Within .graph) result.1 other.1
  next : Option.Rel (fun next found => next.1.Alike found.1 ∧ found.2 = next.2) result.2 other.2

namespace YieldsAlike

theorem pass {next found : Reader} {n : Nat} (h : next.Alike found) :
    YieldsAlike ([], some (next, n)) ([], some (found, n)) :=
  ⟨.nil, .some ⟨h, rfl⟩⟩

theorem step {step other : Step} {next found : Reader} {n : Nat} (hstep : step.Within .graph other)
    (h : next.Alike found) :
    YieldsAlike ([step], some (next, n)) ([other], some (found, n)) :=
  ⟨.cons hstep .nil, .some ⟨h, rfl⟩⟩

theorem fail (error met : LineageError) : YieldsAlike ([.fail error], none) ([.fail met], none) :=
  ⟨.cons (.fail trivial) .nil, .none⟩

end YieldsAlike

namespace Alike

variable {reader found : Reader} (h : reader.Alike found)
include h

theorem afterPart : reader.afterPart.Alike found.afterPart := by
  refine ⟨rfl, ?_, ?_⟩ <;> simp only [Reader.afterPart, h.clause, h.awaiting]

theorem take (node other : Node) : (reader.take node).Alike (found.take other) := by
  unfold Reader.take
  split <;> split <;> exact ⟨h.clause, h.awaiting, h.conditioned⟩

variable {leads : Bool} {row other : List Node}

/-- A node yields the same before rows that are the same but for comments. -/
theorem advance {node : Node} (hrow : Node.RowsAlike (node.leadsBehind leads) row other) :
    YieldsAlike (reader.advance node row) (found.advance node other) := by
  have htake := h.take node node
  have hunconditioned : Alike { reader.take node with conditioned := false }
      { found.take node with conditioned := false } := ⟨htake.clause, htake.awaiting, rfl⟩
  cases reader.meets node with
  | passed hnode =>
    rw [advance_of_passed hnode, advance_of_passed hnode]
    exact .pass htake
  | comment hnode =>
    rw [advance_of_comment hnode, advance_of_comment hnode]
    exact .pass ⟨htake.clause, htake.awaiting, htake.conditioned⟩
  | order horder =>
    have hleads : node.leadsBehind leads = false := by
      obtain ⟨hpassed, hcomment, -⟩ := not_passed_of_isKeyword (Bool.and_eq_true_iff.1 horder).1
      have hfiller : node.isFiller .all = false := by
        rw [Node.isFiller_all, (Bool.or_eq_false_iff.1 hpassed).1, hcomment, Bool.or_false]
      rw [Node.leadsBehind, hfiller, if_neg Bool.false_ne_true, Node.admitsComment, horder]
      rfl
    rw [hleads] at hrow
    rw [advance_of_order horder, advance_of_order horder, hrow.orderExtent]
    exact .pass ⟨htake.clause, htake.awaiting, rfl⟩
  | restriction hwhere =>
    rw [advance_of_restriction hwhere, advance_of_restriction hwhere, h.awaiting]
    split
    · exact .fail _ _
    split
    · exact .fail _ _
    · exact .pass hunconditioned
    · exact .step (.restrict _) hunconditioned
  | keyword hkeyword horder =>
    rw [advance_of_keyword hkeyword horder, advance_of_keyword hkeyword horder, h.conditioned,
      h.awaiting]
    split
    · exact .pass ⟨rfl, htake.awaiting, htake.conditioned⟩
    split
    · exact .pass hunconditioned
    split
    · exact .fail _ _
    · refine ⟨?_, .some ⟨⟨rfl, rfl, rfl⟩, rfl⟩⟩
      exact List.forall₂_same.2 fun step _ => .same step
  | operand hclause hkind =>
    rw [advance_of_operand hclause hkind, advance_of_operand (h.clause.trans hclause) hkind,
      Node.readOperand, Node.readOperand, hrow.keywordCondition]
    exact .step (.read _ _ _ _ trivial)
      (Alike.afterPart ⟨htake.clause, htake.awaiting, htake.conditioned⟩)
  | part hnode hoperand =>
    rw [advance_of_legible hnode hoperand, advance_of_legible hnode (h.clause ▸ hoperand), h.clause]
    split
    · exact .fail _ _
    · exact .step (.read _ _ _ _ trivial) htake.afterPart

theorem advance_comment (text blank : String) (row other : List Node) :
    YieldsAlike (reader.advance (.leaf .comment text) row)
      (found.advance (.leaf .whitespace blank) other) :=
  have htake := h.take (.leaf .comment text) (.leaf .whitespace blank)
  .pass ⟨htake.clause, htake.awaiting, htake.conditioned⟩

theorem advance_list {children others : List Node}
    (hchildren : List.Forall₂ Node.MemberAlike children others) (row other : List Node) :
    YieldsAlike (reader.advance (.group .identifierList children) row)
      (found.advance (.group .identifierList others) other) := by
  have hlist : ∀ children, (Node.group .identifierList children).Legible := fun _ =>
    ⟨rfl, rfl, rfl, rfl, Kind.noConfusion⟩
  have hoperand : ∀ (reader : Reader) (children : List Node), ¬(reader.clause = .onCondition ∧
      ((Node.group .identifierList children).kind = .identifier ∨
        (Node.group .identifierList children).kind = .name)) :=
    fun _ _ hboth => hboth.2.elim Kind.noConfusion Kind.noConfusion
  rw [advance_of_legible (hlist _) (hoperand _ _), advance_of_legible (hlist _) (hoperand _ _),
    h.clause, Node.read_congr (Node.items_of_membersAlike hchildren)]
  split
  · exact .fail _ _
  · exact .step (.read _ _ _ _ trivial) (h.take _ _).afterPart

theorem advance_clause {children others : List Node}
    (hchildren : Node.RowsAlike true children others) (row other : List Node) :
    YieldsAlike (reader.advance (.group .whereClause children) row)
      (found.advance (.group .whereClause others) other) := by
  have htake := h.take (.group .whereClause children) (.group .whereClause others)
  have hconditions : (Node.group .whereClause others).conditions =
      (Node.group .whereClause children).conditions := by
    simp only [Node.conditions, Node.kind_group, Node.innerConditions, hchildren.conditionsFrom]
  rw [advance_of_restriction (Node.kind_group _ _), advance_of_restriction (Node.kind_group _ _),
    h.awaiting, hconditions]
  split
  · exact .fail _ _
  split
  · exact .fail _ _
  · exact .pass ⟨htake.clause, htake.awaiting, rfl⟩
  · exact .step (.restrict _) ⟨htake.clause, htake.awaiting, rfl⟩

/-- The first nodes of rows that are the same but for comments yield the same, and leave such rows
behind them. -/
theorem advance_cons {leads : Bool} {node met : Node} {row other : List Node}
    (hrow : Node.RowsAlike leads (node :: row) (met :: other)) :
    YieldsAlike (reader.advance node row) (found.advance met other) ∧
      ∀ n, Node.RowsAlike true (row.drop n) (other.drop n) := by
  cases hrow with
  | same _ hrow => exact ⟨h.advance hrow, hrow.drop⟩
  | comment text blank hrow => exact ⟨h.advance_comment text blank row other, hrow.drop⟩
  | list _ hchildren hrow => exact ⟨h.advance_list hchildren row other, hrow.drop⟩
  | clause _ hchildren hrow => exact ⟨h.advance_clause hchildren row other, hrow.drop⟩

end Alike

end Reader

/-- Rows that are the same but for comments are read into steps that are the same but for comments
and texts. -/
theorem Step.within_ofSiblings (parent other : Node) {reader found : Reader} (h : reader.Alike found)
    {leads : Bool} {row others : List Node} (hrow : Node.RowsAlike leads row others) :
    List.Forall₂ (Step.Within .graph) (ofSiblings parent reader row) (ofSiblings other found others) := by
  induction row using forall_of_drop generalizing reader found leads others with
  | hnil =>
    cases hrow
    rw [ofSiblings, ofSiblings, h.awaiting]
    split
    · exact .cons (.fail trivial) .nil
    · exact .cons (.finish _ _) .nil
  | hcons node siblings ih =>
    obtain ⟨met, others, rfl⟩ : ∃ met tail, others = met :: tail := by
      cases hrow <;> exact ⟨_, _, rfl⟩
    obtain ⟨hyields, hdrop⟩ := h.advance_cons hrow
    rw [ofSiblings_cons, ofSiblings_cons]
    generalize reader.advance node siblings = result, found.advance met others = moved at hyields
    obtain ⟨steps, next⟩ := result
    obtain ⟨shown, behind⟩ := moved
    obtain ⟨hsteps, hnext⟩ := hyields
    cases hnext with
    | none => exact hsteps
    | @some next behind hnext =>
      obtain ⟨hreaders, hcount⟩ := hnext
      rw [resume, resume, hcount]
      exact List.rel_append hsteps (ih _ hreaders (hdrop _))

theorem Step.within_ofNode (kind : Kind) {children others : List Node}
    (h : Node.RowsAlike true children others) :
    List.Forall₂ (Step.Within .graph) (ofNode (.group kind children)) (ofNode (.group kind others)) :=
  within_ofSiblings _ _ ⟨rfl, rfl, rfl⟩ h

end QueryLineage
