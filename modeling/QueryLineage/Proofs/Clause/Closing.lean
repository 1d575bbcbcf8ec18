import QueryLineage.Proofs.Clause.Advance
import QueryLineage.Proofs.Tree.Brackets

/-!
# Closing a query

The parenthesis behind a query, or the semicolon behind a statement, is read along with it, but no
step except the last one can tell: the text of the query then ends with that mark.
-/

namespace QueryLineage

open Text

namespace Node

variable (text : String)

theorem startsCondition_append_mark (siblings : List Node) :
    startsCondition (siblings ++ [mark text]) = startsCondition siblings := by
  unfold startsCondition
  rw [List.find?_append]
  cases siblings.find? fun node => !node.isFiller .all with
  | some node => rfl
  | none => rfl

theorem conditionParts_append_mark (waiting : Bool) (siblings : List Node) :
    conditionParts waiting (siblings ++ [mark text]) = conditionParts waiting siblings := by
  induction siblings generalizing waiting with
  | nil => rfl
  | cons node siblings ih =>
    rw [List.cons_append, conditionParts, conditionParts, ih]
    by_cases hfiller : node.isFiller .all = true
    · rw [if_pos hfiller, if_pos hfiller]
    · rw [if_neg hfiller, if_neg hfiller]
      cases conditionPart? waiting node with
      | none => rfl
      | some part => simp only [ih]

theorem conditionParts_le_length (waiting : Bool) (siblings : List Node) :
    (conditionParts waiting siblings).2 ≤ siblings.length := by
  induction siblings generalizing waiting with
  | nil => simp [conditionParts]
  | cons node siblings ih =>
    rw [conditionParts]
    have hskipped := ih waiting
    split
    · split
      · simp
      · next n heq =>
        rw [heq] at hskipped
        simpa using hskipped
    · split
      · simp
      · next part later _ =>
        simpa using ih later

theorem keywordCondition_append_mark (operand : Node) (siblings : List Node) :
    keywordCondition operand (siblings ++ [mark text]) = keywordCondition operand siblings := by
  rw [keywordCondition, keywordCondition, startsCondition_append_mark,
    conditionParts_append_mark]

theorem keywordCondition_le_length (operand : Node) (siblings : List Node) :
    (keywordCondition operand siblings).2 ≤ siblings.length := by
  unfold keywordCondition
  split
  · have hle := conditionParts_le_length false siblings
    split
    · simp
    · next heq => simpa [heq] using hle
  · simp

theorem readOperand_append_mark (node : Node) (siblings : List Node) :
    node.readOperand (siblings ++ [mark text]) = node.readOperand siblings ∧
      (node.readOperand siblings).2 ≤ siblings.length := by
  unfold readOperand
  rw [keywordCondition_append_mark]
  exact ⟨rfl, keywordCondition_le_length node siblings⟩

end Node

namespace Step

/-- A step as it is when its query is closed by a mark. -/
def closedBy (text : String) : Step → Step
  | finish shown => finish (shown ++ text)
  | select => select
  | read clause reading comment text => read clause reading comment text
  | restrict conditions => restrict conditions
  | fail error => fail error

theorem orderExtent_append_mark (text : String) (siblings : List Node) :
    (orderExtent (siblings ++ [Node.mark text]) = orderExtent siblings ∧
      orderExtent siblings ≤ siblings.length) ∨
    (orderExtent (siblings ++ [Node.mark text]) = siblings.length + 1 ∧
      orderExtent siblings = siblings.length + 1) := by
  unfold orderExtent
  induction siblings with
  | nil => exact Or.inr ⟨rfl, rfl⟩
  | cons node siblings ih =>
    by_cases hblank : node.isWhitespace = true
    · rw [List.cons_append, List.takeWhile_cons_of_pos hblank, List.takeWhile_cons_of_pos hblank]
      simp only [List.length_cons]
      omega
    · rw [List.cons_append, List.takeWhile_cons_of_neg hblank, List.takeWhile_cons_of_neg hblank]
      simp

end Step

namespace Reader

variable (text : String) (reader : Reader) (node : Node)

/-- Only an order and an operand of a condition take siblings. -/
theorem advance_eq_of_not_taking (horder : node.isWordIn ["GROUP BY", "ORDER BY"] = false)
    (hoperand : ¬(reader.clause = .onCondition ∧ (node.kind = .identifier ∨ node.kind = .name)))
    (siblings : List Node) :
    reader.advance node siblings = reader.advance node [] ∧
      ∀ steps next n, reader.advance node siblings = (steps, some (next, n)) → n = 0 := by
  cases reader.meets node with
  | passed h =>
    rw [advance_of_passed h, advance_of_passed h]
    exact ⟨rfl, fun _ _ _ heq => by cases heq; rfl⟩
  | comment h =>
    rw [advance_of_comment h, advance_of_comment h]
    exact ⟨rfl, fun _ _ _ heq => by cases heq; rfl⟩
  | order h =>
    rw [horder] at h
    cases h
  | restriction h =>
    rw [advance_of_restriction h, advance_of_restriction h]
    refine ⟨rfl, fun _ _ _ heq => ?_⟩
    repeat' split at heq
    all_goals cases heq
    all_goals rfl
  | keyword h _ =>
    rw [advance_of_keyword h horder, advance_of_keyword h horder]
    refine ⟨rfl, fun _ _ _ heq => ?_⟩
    repeat' split at heq
    all_goals cases heq
    all_goals rfl
  | operand hclause hkind => exact absurd ⟨hclause, hkind⟩ hoperand
  | part h _ =>
    rw [advance_of_legible h hoperand, advance_of_legible h hoperand]
    refine ⟨rfl, fun _ _ _ heq => ?_⟩
    split at heq <;> cases heq
    rfl

/-- One node yields the same before the mark, unless it takes everything before it. -/
theorem advance_append_mark (siblings : List Node) :
    (reader.advance node (siblings ++ [Node.mark text]) = reader.advance node siblings ∧
      ∀ steps next n, reader.advance node siblings = (steps, some (next, n)) →
        n ≤ siblings.length) ∨
    ∃ next, reader.advance node siblings = ([], some (next, siblings.length + 1)) ∧
      reader.advance node (siblings ++ [Node.mark text]) =
        ([], some ({ next with text := next.text ++ text }, siblings.length + 1)) := by
  by_cases horder : node.isWordIn ["GROUP BY", "ORDER BY"] = true
  · rw [advance_of_order horder, advance_of_order horder]
    rcases Step.orderExtent_append_mark text siblings with ⟨heq, hle⟩ | ⟨hclosed, heq⟩
    · left
      rw [heq, List.take_append_of_le_length hle]
      refine ⟨rfl, ?_⟩
      rintro steps next n ⟨⟩
      exact hle
    · right
      rw [hclosed, heq]
      have hshorter : siblings.take (siblings.length + 1) = siblings :=
        List.take_of_length_le (Nat.le_succ _)
      have hall : (siblings ++ [Node.mark text]).take (siblings.length + 1) =
          siblings ++ [Node.mark text] := List.take_of_length_le (by simp)
      rw [hshorter, hall]
      refine ⟨_, rfl, ?_⟩
      simp [pass, Node.mark, String.append_assoc]
  rw [Bool.not_eq_true] at horder
  by_cases hoperand : reader.clause = .onCondition ∧ (node.kind = .identifier ∨ node.kind = .name)
  · left
    obtain ⟨hsame, hle⟩ := Node.readOperand_append_mark text node siblings
    rw [advance_of_operand hoperand.1 hoperand.2, advance_of_operand hoperand.1 hoperand.2, hsame]
    dsimp only
    rw [List.take_append_of_le_length hle]
    refine ⟨rfl, ?_⟩
    rintro steps next n ⟨⟩
    exact hle
  · left
    obtain ⟨hsame, htaken⟩ := advance_eq_of_not_taking reader node horder hoperand siblings
    obtain ⟨hclosed, -⟩ := advance_eq_of_not_taking reader node horder hoperand
      (siblings ++ [Node.mark text])
    refine ⟨hclosed.trans hsame.symm, fun steps next n h => ?_⟩
    rw [htaken steps next n h]
    exact Nat.zero_le _

end Reader

namespace Step

theorem ofSiblings_nil {parent : Node} {reader : Reader}
    (h : ∀ error, .fail error ∉ ofSiblings parent reader []) (other : Node) (text : String) :
    ofSiblings parent reader [] = [finish reader.text] ∧
      ofSiblings other { reader with text } [] = [finish text] := by
  have hawaiting : ¬ reader.awaiting = true := by
    intro hawaiting
    rw [ofSiblings, if_pos hawaiting] at h
    exact h _ List.mem_cons_self
  rw [ofSiblings, if_neg hawaiting, ofSiblings, if_neg hawaiting]
  exact ⟨rfl, rfl⟩

/-- Closed by a mark, a query is read into the same steps up to the end, where its text has the mark
too. What it is a child of does not matter, as long as nothing fails. -/
theorem ofSiblings_append_mark (text : String) {parent : Node} (other : Node) {reader : Reader}
    {siblings : List Node} (h : ∀ error, .fail error ∉ ofSiblings parent reader siblings) :
    ofSiblings other reader (siblings ++ [Node.mark text]) =
      (ofSiblings parent reader siblings).map (closedBy text) := by
  induction siblings using forall_of_drop generalizing reader with
  | hnil =>
    obtain ⟨hend, hclosed⟩ := ofSiblings_nil h other (reader.text ++ text)
    have hmark : reader.advance (Node.mark text) [] =
        ([], some ({ reader with text := reader.text ++ text }, 0)) := rfl
    rw [List.nil_append, ofSiblings_cons, hmark, hend, resume, List.drop_nil, hclosed]
    rfl
  | hcons node siblings ih =>
    rw [ofSiblings_cons] at h
    rw [List.cons_append, ofSiblings_cons, ofSiblings_cons]
    rcases reader.advance_append_mark text node siblings with ⟨hsame, hle⟩ | ⟨next, hopen, hclosed⟩
    · rw [hsame]
      have hyields := reader.yields_advance node siblings
      generalize reader.advance node siblings = result at h hyields hle ⊢
      have hrest : ∀ steps next n, result = (steps, some (next, n)) → steps.map (closedBy text) = steps →
          resume other (siblings ++ [Node.mark text]) result =
            (resume parent siblings result).map (closedBy text) := by
        rintro steps next n rfl hsteps
        have hfail : ∀ error, .fail error ∉ ofSiblings parent next (siblings.drop n) :=
          fun error hmem => h error (List.mem_append_right _ hmem)
        rw [resume, resume, List.drop_append_of_le_length (hle steps next n rfl), ih n hfail,
          List.map_append, hsteps]
      cases hyields with
      | fail error => exact absurd List.mem_cons_self (h error)
      | pass next n _ => exact hrest [] next n rfl rfl
      | restrict conditions next _ => exact hrest _ next 0 rfl rfl
      | select next _ _ => exact hrest _ next 0 rfl rfl
      | read clause reading comment next n _ _ _ => exact hrest _ next n rfl rfl
    · have hall : siblings.drop (siblings.length + 1) = [] := List.drop_of_length_le (Nat.le_succ _)
      have hallClosed : (siblings ++ [Node.mark text]).drop (siblings.length + 1) = [] :=
        List.drop_of_length_le (by simp)
      rw [hopen, resume, hall, List.nil_append] at h
      obtain ⟨hend, hshown⟩ := ofSiblings_nil h other (next.text ++ text)
      rw [hopen, hclosed, resume, resume, hall, hallClosed, hend, hshown]
      rfl

end Step

end QueryLineage
