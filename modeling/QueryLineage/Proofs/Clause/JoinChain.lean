import QueryLineage.Proofs.Clause.Comparison
import QueryLineage.Proofs.Clause.Joined
import QueryLineage.Proofs.Tree.JoinChain

/-!
# The steps of a chain of joins

A join is read as a source and as one step for each comparison, with the text from the form of
`JOIN` on that has been read so far.
-/

namespace QueryLineage

open Text Pattern
open String (append_assoc)

namespace Comparison

variable (comparison : Comparison)

theorem text_grouped : comparison.grouped.text = comparison.text := by
  simp only [grouped, text, Node.text_group, Node.textAll_cons, Node.textAll_nil,
    Node.text_identifierNode, String.append_empty, append_assoc]
  rfl

theorem conditions_grouped : comparison.grouped.conditions = .ok [comparison.toAttribute] := by
  have hright : trim (Node.identifierNode comparison.right).text =
      (Node.identifierNode comparison.right).text := by
    rw [Node.text_identifierNode, trim_eq_self comparison.right.isBlank_of_mem]
  have hne : (Node.identifierNode comparison.right).text ≠ "" := by
    rw [Node.text_identifierNode]
    exact comparison.right.text_ne
  have hcomparison : comparison.grouped.comparison = .ok comparison.toAttribute := by
    rw [grouped, Node.comparison_eq_ok comparison.left comparison.operator hright hne,
      Node.text_identifierNode]
    rfl
  have hkind : comparison.grouped.kind = .comparison := rfl
  rw [Node.conditions, hkind]
  dsimp only
  rw [hcomparison]
  rfl

theorem read_grouped :
    comparison.grouped.read .onCondition = .ok (.conditions [comparison.toAttribute]) := by
  have hkind : comparison.grouped.kind = .comparison := rfl
  rw [Node.read_onCondition (by simp [hkind]), comparison.conditions_grouped]
  rfl

end Comparison

namespace Join

def linkSteps (text : String) : List Link → List Step
  | [] => []
  | link :: links =>
    .read .onCondition (.conditions [link.comparison.toAttribute]) "" (text ++ " " ++ link.text) ::
      linkSteps (text ++ " " ++ link.text) links

variable (join : Join)

def head : String :=
  join.word ++ " " ++ join.source.text ++ " ON " ++ join.first.text

def steps : List Step :=
  .read .joinList (.sources [.named join.source.text none]) "" (join.word ++ " " ++ join.source.text) ::
    .read .onCondition (.conditions [join.first.toAttribute]) "" join.head ::
      linkSteps join.head join.others

theorem text_eq : join.text = join.head ++ String.join (join.others.map fun link => " " ++ link.text) := by
  rw [text, condition, head, append_assoc, append_assoc, append_assoc, append_assoc, append_assoc,
    append_assoc, append_assoc]

end Join

namespace Step

variable (parent : Node)

theorem ofSiblings_joinWord {words : List String} (h : words ∈ joinPhrases) (conditioned : Bool)
    (text : String) (siblings : List Node) :
    ofSiblings parent { conditioned, text } (Node.wordNode (" ".intercalate words) :: siblings) =
      ofSiblings parent { clause := .joinList, text := " ".intercalate words } siblings := by
  have hwords : ∀ words ∈ joinPhrases,
      Reader.clauseAfter? (Node.wordNode (" ".intercalate words)) = some .joinList := by
    decide +kernel
  exact ofSiblings_clause (hwords words h) (by decide) rfl parent siblings

theorem ofSiblings_connective (connective : Connective) (text : String) (siblings : List Node) :
    ofSiblings parent { conditioned := true, text } (Node.wordNode connective.word :: siblings) =
      ofSiblings parent
        { clause := .onCondition, conditioned := true, text := text ++ connective.word } siblings := by
  have hword : (Node.wordNode connective.word).isWord "SELECT" = false ∧
      (Node.wordNode connective.word).isJoin = false ∧
      (Node.wordNode connective.word).isWordIn ["GROUP BY", "ORDER BY"] = false ∧
      (Node.wordNode connective.word).isConnective = true := by
    cases connective <;> decide +kernel
  obtain ⟨hselect, hjoin, horder, hconnective⟩ := hword
  rw [ofSiblings_cons, Reader.advance_of_keyword rfl horder, hconnective, Reader.take, hselect, hjoin]
  rfl

theorem ofSiblings_comparison (comparison : Comparison) (awaiting conditioned : Bool) (text : String)
    (siblings : List Node) :
    ofSiblings parent { clause := .onCondition, awaiting, conditioned, text }
        (comparison.grouped :: siblings) =
      .read .onCondition (.conditions [comparison.toAttribute]) "" (text ++ comparison.text) ::
        ofSiblings parent { conditioned := true, text := text ++ comparison.text } siblings := by
  have hnode : comparison.grouped.Legible := ⟨rfl, rfl, rfl, rfl, Kind.noConfusion⟩
  have hoperand : ¬(comparison.grouped.kind = .identifier ∨ comparison.grouped.kind = .name) :=
    fun hkind => hkind.elim Kind.noConfusion Kind.noConfusion
  have hawaiting : (awaiting && !(Clause.onCondition == .onCondition)) = false := Bool.and_false _
  rw [ofSiblings_cons, Reader.advance_of_legible hnode fun hboth => hoperand hboth.2,
    Reader.take_of_not_keyword rfl, comparison.text_grouped, comparison.read_grouped]
  dsimp only [Reader.afterPart]
  rw [hawaiting]
  rfl

theorem ofSiblings_links (links : List Link) (text : String) (siblings : List Node) :
    ofSiblings parent { conditioned := true, text }
        ((links.flatMap fun link => [Node.spaceNode, Node.wordNode link.connective.word,
          Node.spaceNode, link.comparison.grouped]) ++ siblings) =
      Join.linkSteps text links ++ ofSiblings parent
        { conditioned := true, text := text ++ String.join (links.map fun link => " " ++ link.text) }
        siblings := by
  induction links generalizing text with
  | nil =>
    have hjoin : String.join ([].map fun link : Link => " " ++ link.text) = "" := rfl
    rw [hjoin, String.append_empty]
    rfl
  | cons link links ih =>
    have htext : text ++ " " ++ link.connective.word ++ " " ++ link.comparison.text =
        text ++ " " ++ link.text := by
      simp only [Link.text, append_assoc]
    have hjoin : text ++ String.join ((link :: links).map fun link => " " ++ link.text) =
        text ++ " " ++ link.text ++ String.join (links.map fun link => " " ++ link.text) := by
      rw [List.map_cons, String.join_cons, ← append_assoc, ← append_assoc]
    rw [List.flatMap_cons, List.append_assoc]
    simp only [List.cons_append, List.nil_append]
    rw [ofSiblings_space, ofSiblings_connective, ofSiblings_space, ofSiblings_comparison, htext, ih,
      hjoin]
    rfl

theorem ofSiblings_joined (join : Join) (conditioned : Bool) (text : String) (siblings : List Node) :
    ofSiblings parent { conditioned, text }
        (Node.spaceNode :: Node.wordNode join.word :: (join.grouped ++ siblings)) =
      join.steps ++ ofSiblings parent { conditioned := true, text := join.text } siblings := by
  have hsource : (Node.group .identifier [Node.nameNode join.source.text]).text = join.source.text := by
    simp [Node.nameNode]
  have hon : " " ++ "ON" ++ " " = " ON " := by decide
  have hhead : join.word ++ " " ++ join.source.text ++ " " ++ "ON" ++ " " ++ join.first.text =
      join.head := by
    rw [Join.head, ← hon]
    simp only [append_assoc]
  have hword : Node.wordNode join.word = Node.wordNode (" ".intercalate join.words) := rfl
  rw [ofSiblings_space, hword, ofSiblings_joinWord parent join.isJoin, ← Join.word, Join.grouped]
  simp only [List.cons_append]
  rw [ofSiblings_space, ofSiblings_source_cons _ _ _ (Or.inr rfl), ofSiblings_space, ofSiblings_on,
    ofSiblings_space, ofSiblings_comparison, Node.source_name, hsource, hhead, ofSiblings_links,
    ← join.text_eq]
  rfl

/-- The steps for the joins of a chain up to the end, which is reached with the text of the last. -/
theorem ofSiblings_joins (joins : List Join) (conditioned : Bool) (text : String) :
    ofSiblings parent { conditioned, text }
        (joins.flatMap fun join => Node.spaceNode :: Node.wordNode join.word :: join.grouped) =
      joins.flatMap Join.steps ++ [.finish ((joins.getLast?.map Join.text).getD text)] := by
  induction joins generalizing conditioned text with
  | nil => rw [List.flatMap_nil, ofSiblings, if_neg Bool.false_ne_true]; rfl
  | cons join joins ih =>
    have hlast : (((join :: joins).getLast?.map Join.text).getD text) =
        (joins.getLast?.map Join.text).getD join.text := by
      rw [List.getLast?_cons]
      cases joins.getLast? <;> rfl
    rw [List.flatMap_cons, List.cons_append, List.cons_append, ofSiblings_joined, ih, hlast,
      List.flatMap_cons, List.append_assoc]

/-- The steps of a query that is a chain of joins. -/
theorem ofSiblings_joinChain (source : PlainName) (joins : List Join) :
    ofSiblings parent {} (Node.selectNode :: Node.spaceNode :: Node.starNode :: Node.spaceNode ::
        Node.fromNode :: Node.spaceNode :: Node.group .identifier [Node.nameNode source.text] ::
        joins.flatMap fun join => Node.spaceNode :: Node.wordNode join.word :: join.grouped) =
      .select :: .read .selectList (.columns [.ofName "*"]) "" "SELECT *" ::
        .read .fromList (.sources [.named source.text none]) "" ("SELECT * FROM " ++ source.text) ::
        (joins.flatMap Join.steps ++ [.finish
          ((joins.getLast?.map Join.text).getD ("SELECT * FROM " ++ source.text))]) := by
  have hsource : (Node.group .identifier [Node.nameNode source.text]).text = source.text := by
    simp [Node.nameNode]
  rw [ofSiblings_selectStarFrom, ofSiblings_source_cons _ _ _ (Or.inl rfl), Node.source_name,
    hsource, ofSiblings_joins]

end Step

end QueryLineage
