import QueryLineage.Proofs.Clause.Linked
import QueryLineage.Proofs.Clause.Outer
import QueryLineage.Proofs.Tree.Conditions

/-!
# Two sources and a condition

The steps of a query that joins two sources, up to the condition of the join.
-/

namespace QueryLineage.Step

section

variable (parent : Node) (comment text : String)

/-- The steps for a source, whether it is joined or not. -/
theorem ofSiblings_source_cons {clause : Clause} (hclause : clause = .fromList ∨ clause = .joinList)
    (children siblings : List Node) :
    ofSiblings parent { clause, comment, text } (.group .identifier children :: siblings) =
      .read clause (.sources [(Node.group .identifier children).source]) comment
          (text ++ (Node.group .identifier children).text) ::
        ofSiblings parent { comment, text := text ++ (Node.group .identifier children).text }
          siblings := by
  rcases hclause with rfl | rfl <;> rw [ofSiblings_cons] <;> rfl

theorem ofSiblings_join (siblings : List Node) :
    ofSiblings parent { comment, text } (Node.joinNode :: siblings) =
      ofSiblings parent { clause := .joinList, comment, text := "JOIN" } siblings := by
  have hclause : Reader.clauseAfter? Node.joinNode = some .joinList := by decide +kernel
  exact ofSiblings_clause hclause (by decide) rfl parent siblings

theorem ofSiblings_on (siblings : List Node) :
    ofSiblings parent { comment, text } (Node.onNode :: siblings) =
      ofSiblings parent { clause := .onCondition, awaiting := true, comment, text := text ++ "ON" }
        siblings := by
  have hclause : Reader.clauseAfter? Node.onNode = some .onCondition := by decide +kernel
  exact ofSiblings_clause hclause (by decide) rfl parent siblings

end

theorem ofSiblings_sourcesOn (parent : Node) (siblings : List Node) :
    ofSiblings parent {} (Node.sourcesOn ++ siblings) =
      .select :: .read .selectList (.columns [.ofName "*"]) "" "SELECT *" ::
        .read .fromList (.sources [.named "a" none]) "" "SELECT * FROM a" ::
        .read .joinList (.sources [.named "b" none]) "" "JOIN b" ::
        ofSiblings parent { clause := .onCondition, awaiting := true, text := "JOIN b ON" }
          siblings := by
  have ha : "SELECT * FROM " ++ (Node.group .identifier [Node.nameNode "a"]).text =
      "SELECT * FROM a" := by decide
  have hb : "JOIN" ++ " " ++ (Node.group .identifier [Node.nameNode "b"]).text = "JOIN b" := by decide
  have hon : "JOIN b" ++ " " ++ "ON" = "JOIN b ON" := by decide
  change ofSiblings parent {} (Node.selectNode :: Node.spaceNode :: Node.starNode ::
    Node.spaceNode :: Node.fromNode :: Node.spaceNode :: .group .identifier [Node.nameNode "a"] ::
      Node.spaceNode :: Node.joinNode :: Node.spaceNode :: .group .identifier [Node.nameNode "b"] ::
      Node.spaceNode :: Node.onNode :: siblings) = _
  rw [ofSiblings_selectStarFrom, ofSiblings_source_cons _ _ _ (Or.inl rfl), ofSiblings_space,
    ofSiblings_join, ofSiblings_space, ofSiblings_source_cons _ _ _ (Or.inr rfl), ofSiblings_space,
    ofSiblings_on, Node.source_name, Node.source_name, ha, hb, hon]

end QueryLineage.Step
