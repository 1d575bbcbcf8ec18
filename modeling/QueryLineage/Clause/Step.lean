import QueryLineage.Clause.Basic

/-!
# Steps

A statement, or a query in parentheses, is read from left to right into a list of steps that are
to be carried out one after the other. The reading remembers which clause comes next and whether
an `ON` still waits for its condition, and collects the text that a table is created from; none of
this depends on the tables that are known. Where the query is malformed, the last step is to fail,
so that the steps before it are still carried out.
-/

namespace QueryLineage

open Text

/-- What there is to do. A part of a clause comes with the last comment before it and with the text
from the last `SELECT` or `JOIN` up to its own end; the text at the end of a query begins there
too. -/
inductive Step where
  | select
  | read (clause : Clause) (reading : Reading) (comment text : String)
  | restrict (conditions : List Attribute)
  | fail (error : LineageError)
  | finish (text : String)

/-- What a reading remembers from one node to the next. It is `awaiting` the first condition of an
`ON`, or `conditioned` when the last part was a condition. -/
structure Reader where
  clause : Clause := .outside
  awaiting : Bool := false
  conditioned : Bool := false
  comment : String := ""
  text : String := ""

namespace Reader

/-- Takes up the text of a node. A `SELECT` or a `JOIN` begins a new text. -/
def take (reader : Reader) (node : Node) : Reader :=
  if node.isWord "SELECT" || node.isJoin then { reader with text := node.text }
  else { reader with text := reader.text ++ node.text }

def pass (reader : Reader) (nodes : List Node) : Reader :=
  { reader with text := reader.text ++ Node.textAll nodes }

def clauseAfter? (keyword : Node) : Option Clause :=
  if keyword.isCte then some .withList
  else if keyword.isWord "SELECT" then some .selectList
  else if keyword.isWord "FROM" then some .fromList
  else if keyword.isJoin then some .joinList
  else if keyword.isWord "ON" then some .onCondition
  else none

def afterPart (reader : Reader) : Reader :=
  let wasCondition := reader.clause == .onCondition
  { reader with
    clause := .outside
    awaiting := reader.awaiting && !wasCondition
    conditioned := wasCondition }

end Reader

namespace Step

/-- The number of siblings that belong to a `GROUP BY` or `ORDER BY`: the blanks behind it and the
node after them. -/
def orderExtent (siblings : List Node) : Nat :=
  (siblings.takeWhile Node.isWhitespace).length + 1

def ofSiblings (parent : Node) (reader : Reader) : List Node → List Step
  | [] =>
    if reader.awaiting then [fail (.malformedAt .joinWithoutCondition parent)]
    else [finish reader.text]
  | node :: siblings =>
    let reader := reader.take node
    let rejected := [fail (.malformedAt .joinWithoutCondition node)]
    if node.isWhitespace || node.isPunctuation then ofSiblings parent reader siblings
    else if node.isComment then
      ofSiblings parent { reader with comment := trim node.text } siblings
    else if node.isWordIn ["GROUP BY", "ORDER BY"] then
      let n := orderExtent siblings
      ofSiblings parent { reader.pass (siblings.take n) with conditioned := false }
        (siblings.drop n)
    else if node.kind = .whereClause then
      if reader.awaiting then rejected
      else
        let reader := { reader with conditioned := false }
        match node.conditions with
        | .error error => [fail error]
        | .ok [] => ofSiblings parent reader siblings
        | .ok conditions => restrict conditions :: ofSiblings parent reader siblings
    else if node.isKeyword then
      if reader.conditioned && node.isConnective then
        ofSiblings parent { reader with clause := .onCondition } siblings
      else
        let reader := { reader with conditioned := false }
        match Reader.clauseAfter? node with
        | none => ofSiblings parent reader siblings
        | some clause =>
          if reader.awaiting then rejected
          else
            let rest := ofSiblings parent
              { reader with clause, awaiting := clause == .onCondition } siblings
            if clause = .selectList then select :: rest else rest
    else if reader.clause = .onCondition ∧ (node.kind = .identifier ∨ node.kind = .name) then
      let (reading, n) := node.readOperand siblings
      let reader := reader.pass (siblings.take n)
      read .onCondition reading reader.comment reader.text ::
        ofSiblings parent reader.afterPart (siblings.drop n)
    else
      match node.read reader.clause with
      | .error error => [fail error]
      | .ok reading =>
        read reader.clause reading reader.comment reader.text ::
          ofSiblings parent reader.afterPart siblings
termination_by siblings => siblings.length
decreasing_by
  all_goals
    simp only [List.length_drop, List.length_cons]
    omega

def ofNode (node : Node) : List Step :=
  ofSiblings node {} node.children

@[simp] theorem ofNode_of_children_eq_nil {node : Node} (h : node.children = []) :
    ofNode node = [finish ""] := by
  simp [ofNode, h, ofSiblings]

end Step

end QueryLineage
