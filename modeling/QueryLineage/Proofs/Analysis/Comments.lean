import QueryLineage.Proofs.Analysis.Leeway
import QueryLineage.Proofs.Clause.LeadingComments
import QueryLineage.Proofs.Outcome

/-!
# Comments and the graph

Where comments stand before the parts of a query, they are in the way of nothing, and the graph is the
same whether they are taken out or not. A comment in another place may keep apart what a blank would
not.
-/

namespace QueryLineage

theorem Node.statementsOfText_eq_map {sql : String} {lexemes : List Lexeme} {nodes : List Node}
    (hread : Lexeme.ofText sql = .ok lexemes)
    (hnodes : Node.groupParentheses sql (lexemes.map Lexeme.toNode) = .ok nodes)
    (stripComments : Bool) : Node.statementsOfText sql stripComments =
      .ok ((Node.splitStatements nodes).map fun piece =>
        Node.statement (Node.stripped stripComments piece)) := by
  refine Node.statementsOfText_eq_ok_iff.2 ⟨lexemes, nodes, hread, hnodes, ?_⟩
  cases stripComments with
  | false => rfl
  | true =>
    rw [if_pos rfl, Node.splitStatements_withoutCommentsAll, List.map_map]
    rfl

/-- Statements that differ in whether their leading comments are taken out are interpreted alike. -/
theorem interpret_within {piece : List Node} (h : Node.CommentsLead true piece)
    (config other : Config) : Run.Within .graph
      (interpret config (Node.statement (Node.stripped config.stripComments piece)) none false)
      (interpret other (Node.statement (Node.stripped other.stripComments piece)) none false) := by
  have hrows := h.groupAll
  have hsteps : ∀ stripComments shown, List.Forall₂ (Step.Within .graph)
      (Step.ofNode (Node.statement (Node.stripped stripComments piece)))
      (Step.ofNode (Node.statement (Node.stripped shown piece))) := by
    intro stripComments shown
    have hbare := Step.within_ofNode .statement hrows
    cases stripComments <;> cases shown
    · exact List.forall₂_same.2 fun step _ => .same step
    · exact hbare
    · exact (hbare.imp fun _ _ hstep => hstep.symm).flip
    · exact List.forall₂_same.2 fun step _ => .same step
  have hdepth : ∀ stripComments, (Node.statement (Node.stripped stripComments piece)).depth =
      Node.depthAll (Node.groupAll piece) + 1 := by
    intro stripComments
    rw [Node.statement, Node.depth]
    cases stripComments with
    | false => rfl
    | true => exact congrArg (· + 1) hrows.depthAll
  exact Run.Within.interpret (Leeway.graph_admits config other)
    ((hdepth _).trans (hdepth _).symm) (hsteps _ _) none false

/-- Comments that lead the parts of a query leave the graph as it is, whether they are taken out or
not, and whether tables keep their texts or not. -/
theorem sameGraph_of_commentsLead {sql : String} {lexemes : List Lexeme} {nodes : List Node}
    (hread : Lexeme.ofText sql = .ok lexemes)
    (hnodes : Node.groupParentheses sql (lexemes.map Lexeme.toNode) = .ok nodes)
    (hcomments : ∀ piece ∈ Node.splitStatements nodes, Node.CommentsLead true piece)
    (config other : Config) : SameGraph (analyze config sql) (analyze other sql) := by
  have hprocess : Run.Within .graph (process config sql) (process other sql) := by
    rw [process_eq_forM (Node.statementsOfText_eq_map hread hnodes _),
      process_eq_forM (Node.statementsOfText_eq_map hread hnodes _)]
    refine Run.Within.forM ?_
    rw [List.forall₂_map_left_iff, List.forall₂_map_right_iff]
    exact List.forall₂_same.2 fun piece hpiece => interpret_within (hcomments piece hpiece) config other
  have hends := hprocess .empty .empty .empty
  unfold analyze
  generalize (process config sql).run .empty = result, (process other sql).run .empty = found at hends
  cases hends with
  | ok _ h => exact h.alike
  | error _ _ => exact trivial

namespace Node

/-- A query with a comment before each of its columns and one before its condition. -/
def commented : List Node :=
  selectNode :: spaceNode :: leaf .comment "/* c */" :: spaceNode :: ([nameNode "a"] ++ commaNode ::
    spaceNode :: leaf .comment "-- d\n" :: ([nameNode "b"] ++ spaceNode :: fromNode ::
      ([spaceNode, nameNode "t"] ++ spaceNode :: whereNode :: spaceNode :: leaf .comment "/* e */" ::
        [spaceNode, nameNode "a", spaceNode, leaf .comparisonOperator "=", spaceNode,
          leaf .literal "1"])))

theorem commentsLead_commented : CommentsLead true commented := by
  have hwhole : ∀ part ∈ [[nameNode "a"], [nameNode "b"], [spaceNode, nameNode "t"]], Whole part := by
    intro part hpart
    simp only [List.mem_cons, List.not_mem_nil, or_false] at hpart
    rcases hpart with rfl | rfl | rfl <;>
      exact ⟨by decide +kernel, by decide +kernel, by decide +kernel, by decide +kernel⟩
  have hspace : spaceNode.isWhitespace = true := rfl
  have hcomma : commaNode.isMark "," = true := rfl
  have hword : ∀ word ∈ [selectNode, fromNode, whereNode],
      word.isDividingWord = true ∧ word.admitsComment = true := by decide +kernel
  obtain ⟨hselect, hbehindSelect⟩ := hword selectNode (by simp)
  obtain ⟨hfrom, -⟩ := hword fromNode (by simp)
  obtain ⟨hwhere, hbehindWhere⟩ := hword whereNode (by simp)
  have hcondition : CommentsLead whereNode.admitsComment (spaceNode :: leaf .comment "/* e */" ::
      [spaceNode, nameNode "a", spaceNode, leaf .comparisonOperator "=", spaceNode,
        leaf .literal "1"]) := by
    rw [hbehindWhere]
    exact .blank hspace (.comment _ (.clear true (by decide +kernel)))
  have hsource := CommentsLead.clause fromNode.admitsComment
    (hwhole [spaceNode, nameNode "t"] (by simp)) hspace hwhere hcondition
  have hcolumn := CommentsLead.clause true (hwhole [nameNode "b"] (by simp)) hspace hfrom hsource
  have hcolumns := CommentsLead.comma true (hwhole [nameNode "a"] (by simp)) hcomma
    (.blank hspace (.comment "-- d\n" hcolumn))
  refine .word true hselect ?_
  rw [hbehindSelect]
  exact .blank hspace (.comment "/* c */" (.blank hspace hcolumns))

end Node

theorem sameGraph_commented :
    SameGraph
        (analyze { stripComments := true } "SELECT /* c */ a, -- d\nb FROM t WHERE /* e */ a = 1")
        (analyze {} "SELECT /* c */ a, -- d\nb FROM t WHERE /* e */ a = 1") ∧
      (analyze {} "SELECT /* c */ a, -- d\nb FROM t WHERE /* e */ a = 1").isOk = true := by
  have hread : Lexeme.ofText "SELECT /* c */ a, -- d\nb FROM t WHERE /* e */ a = 1" = .ok
      [⟨.keyword .dml, "SELECT"⟩, .space, ⟨.comment, "/* c */"⟩, .space, ⟨.name, "a"⟩,
        ⟨.punctuation, ","⟩, .space, ⟨.comment, "-- d\n"⟩, ⟨.name, "b"⟩, .space,
        ⟨.keyword .generic, "FROM"⟩, .space, ⟨.name, "t"⟩, .space, ⟨.keyword .generic, "WHERE"⟩, .space,
        ⟨.comment, "/* e */"⟩, .space, ⟨.name, "a"⟩, .space, ⟨.comparisonOperator, "="⟩, .space,
        ⟨.literal, "1"⟩] := by
    decide +kernel
  have hpieces : Node.splitStatements Node.commented = [Node.commented] := by decide +kernel
  refine ⟨sameGraph_of_commentsLead hread (by decide +kernel : _ = Except.ok Node.commented)
    (fun piece hpiece => ?_) _ _, by decide +kernel⟩
  rw [hpieces, List.mem_singleton] at hpiece
  exact hpiece ▸ Node.commentsLead_commented

/-- A comment before `AS` keeps the alias from its column, where a blank does not. -/
theorem not_sameGraph_comment_before_alias : ¬ ∀ (sql : String) (captureSource : Bool),
    SameGraph (analyze { stripComments := true, captureSource } sql)
      (analyze { stripComments := false, captureSource } sql) := by
  intro hall
  have halias : ∀ stripComments,
      ((analyze { stripComments } "SELECT a /* c */ AS b FROM t").toOption.map fun registry =>
        registry.tables.map fun table => table.attributes.map Attribute.alias?) =
      some [[if stripComments then some "b" else none], []] := by decide +kernel
  obtain ⟨registry, hregistry, hstripped⟩ := exists_of_map (halias true)
  obtain ⟨other, hother, hkept⟩ := exists_of_map (halias false)
  have hsame := hall "SELECT a /* c */ AS b FROM t" true
  rw [hregistry, hother] at hsame
  have halike : registry.Alike other := hsame
  have hmap := halike.map_eq (f := fun table => table.attributes.map Attribute.alias?)
    fun table moved htable => by rw [htable.attributes]
  have heq := hkept.symm.trans (hmap.trans hstripped)
  revert heq
  decide

end QueryLineage
