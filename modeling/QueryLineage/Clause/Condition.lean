import QueryLineage.Graph.Attribute
import QueryLineage.Clause.Fault

/-!
# Conditions

The conditions of a `WHERE` or an `ON` are read as a flat list of attributes, each with the
condition that is put on it. A condition is either a comparison, or an operand followed by
keywords and values, such as `IS NULL` or `BETWEEN 1 AND 2`. The connectives between conditions
are not kept.
-/

namespace QueryLineage.Node

open Text

/-- Reads a comparison as its left side under the condition of its right side. -/
def comparison (node : Node) : Except LineageError Attribute :=
  let isOperator := fun child : Node => child.kind == .comparisonOperator
  match node.children.dropWhile fun child => !isOperator child with
  | [] => .error (.malformedAt .comparisonWithoutOperator node)
  | operator :: right =>
    let name := trim (textAll (node.children.takeWhile fun child => !isOperator child))
    if name.isEmpty then .error (.malformedAt .comparisonWithoutOperand node)
    else .ok (.withCondition name operator.normalized (trim (textAll right)))

def isConnective (node : Node) : Bool :=
  node.isWordIn ["AND", "OR"]

/-- The text of a part of a keyword condition, and whether a `BETWEEN` then waits for its `AND`, as
`waiting` says for the part itself. What cannot be a part has none. -/
def conditionPart? (waiting : Bool) (node : Node) : Option (String × Bool) :=
  match node.kind with
  | .keyword _ =>
    if waiting && node.isWord "AND" then some (node.normalized, false)
    else if node.isConnective then none
    else some (node.normalized, waiting || node.isWord "BETWEEN")
  | .literal | .parenthesis | .operation | .identifier | .name | .function =>
    some (trim node.text, waiting)
  | _ => none

/-- The parts of a keyword condition, and the number of siblings up to the last of them. -/
def conditionParts (waiting : Bool) : List Node → List String × Nat
  | [] => ([], 0)
  | node :: siblings =>
    if node.isFiller .all then
      match conditionParts waiting siblings with
      | (parts, 0) => (parts, 0)
      | (parts, n + 1) => (parts, n + 2)
    else
      match conditionPart? waiting node with
      | none => ([], 0)
      | some (part, waiting) =>
        let (parts, n) := conditionParts waiting siblings
        (part :: parts, n + 1)

def startsCondition (siblings : List Node) : Bool :=
  (siblings.find? fun node => !node.isFiller .all).any fun node =>
    node.isKeyword && !node.isConnective

/-- The condition that the siblings behind an operand put on it, and how many of them it takes. -/
def keywordCondition (operand : Node) (siblings : List Node) : Option Attribute × Nat :=
  if startsCondition siblings then
    match conditionParts false siblings with
    | ([], _) => (none, 0)
    | (operator :: values, n) =>
      (some (.withCondition (trim operand.text) operator (" ".intercalate values)), n)
  else (none, 0)

mutual

def innerConditions : Node → Except LineageError (List Attribute)
  | leaf _ _ => .ok []
  | group _ children => conditionsFrom 0 children

/-- The conditions among siblings of which the first `taken` belong to one that has been read. -/
def conditionsFrom (taken : Nat) : List Node → Except LineageError (List Attribute)
  | [] => .ok []
  | node :: siblings =>
    match taken with
    | taken + 1 => conditionsFrom taken siblings
    | 0 =>
      match node.kind with
      | .comparison => do
        let condition ← node.comparison
        return condition :: (← conditionsFrom 0 siblings)
      | .parenthesis =>
        if node.isSubselect then conditionsFrom 0 siblings
        else do
          let inner ← node.innerConditions
          return inner ++ (← conditionsFrom 0 siblings)
      | .identifier | .name =>
        match keywordCondition node siblings with
        | (none, _) => conditionsFrom 0 siblings
        | (some condition, taken) => do return condition :: (← conditionsFrom taken siblings)
      | _ => conditionsFrom 0 siblings

end

/-- The conditions that a comparison, a clause or an expression in parentheses stands for. -/
def conditions (node : Node) : Except LineageError (List Attribute) :=
  match node.kind with
  | .comparison => node.comparison.map ([·])
  | .whereClause => node.innerConditions
  | .parenthesis => if node.isSubselect then .ok [] else node.innerConditions
  | _ => .ok []

end QueryLineage.Node
