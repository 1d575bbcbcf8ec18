import QueryLineage.Proofs.Clause.Closing
import QueryLineage.Proofs.Tree.Single

/-!
# Opening a query

What stands before the first keyword of a query leaves nothing but a comment, and the keyword begins
the text anew. So the steps of a query do not tell whether a parenthesis stands before it.
-/

namespace QueryLineage

namespace Step

theorem advance_select {keyword : Lexeme} (h : keyword.isSelect = true) (comment text : String)
    (siblings : List Node) :
    Reader.advance { comment, text } keyword.toNode siblings =
      ([.select], some ({ clause := .selectList, comment, text := keyword.text }, 0)) := by
  obtain ⟨hdml, hword⟩ := Bool.and_eq_true _ _ ▸ h
  have hkind : keyword.toNode.kind = .keyword .dml := beq_iff_eq.1 hdml
  have hclause : Reader.clauseAfter? keyword.toNode = some .selectList := by
    rw [Reader.clauseAfter?, Node.isCte, hkind, if_neg (by decide), if_pos hword]
  rw [Reader.advance_of_clauseAfter? hclause (by decide),
    Reader.take_of_clauseAfter? hclause (by decide), if_neg Bool.false_ne_true, if_pos rfl]
  rfl

/-- The filler before a `SELECT` yields no step. -/
theorem exists_ofSiblings_select {filler : List Lexeme}
    (hfiller : ∀ lexeme ∈ filler, lexeme.isFiller = true) {keyword : Lexeme}
    (hkeyword : keyword.isSelect = true) (comment : String) :
    ∃ later, ∀ (parent : Node) (text : String) (siblings : List Node),
      ofSiblings parent { comment, text }
          (filler.map Lexeme.toNode ++ keyword.toNode :: siblings) =
        .select :: ofSiblings parent
          { clause := .selectList, comment := later, text := keyword.text } siblings := by
  induction filler generalizing comment with
  | nil =>
    refine ⟨comment, fun parent text siblings => ?_⟩
    rw [List.map_nil, List.nil_append, ofSiblings_cons, advance_select hkeyword]
    rfl
  | cons lexeme filler ih =>
    obtain ⟨kind, shown⟩ := lexeme
    have hkind : kind = .whitespace ∨ kind = .comment := by
      simpa [Lexeme.isFiller] using hfiller _ List.mem_cons_self
    have hrest : ∀ lexeme ∈ filler, lexeme.isFiller = true :=
      fun lexeme hlexeme => hfiller lexeme (List.mem_cons_of_mem _ hlexeme)
    rcases hkind with rfl | rfl
    · obtain ⟨later, hlater⟩ := ih hrest comment
      refine ⟨later, fun parent text siblings => ?_⟩
      have hadvance : ∀ more, Reader.advance { comment, text } (Node.leaf .whitespace shown) more =
          ([], some ({ comment, text := text ++ shown }, 0)) := by
        intro more
        rfl
      rw [List.map_cons, List.cons_append, Lexeme.toNode, ofSiblings_cons, hadvance]
      exact hlater parent (text ++ shown) siblings
    · obtain ⟨later, hlater⟩ := ih hrest (Text.trim shown)
      refine ⟨later, fun parent text siblings => ?_⟩
      have hadvance : ∀ more, Reader.advance { comment, text } (Node.leaf .comment shown) more =
          ([], some ({ comment := Text.trim shown, text := text ++ shown }, 0)) := by
        intro more
        rfl
      rw [List.map_cons, List.cons_append, Lexeme.toNode, ofSiblings_cons, hadvance]
      exact hlater parent (text ++ shown) siblings

/-- A parenthesis before a query yields no step either. -/
theorem ofSiblings_opening (parent : Node) (siblings : List Node) :
    ofSiblings parent {} (Node.openingMark :: siblings) =
      ofSiblings parent { text := "(" } siblings := by
  have hadvance : Reader.advance {} Node.openingMark siblings =
      ([], some ({ text := "(" }, 0)) := by
    rfl
  rw [ofSiblings_cons, hadvance]
  rfl

end Step

end QueryLineage
