import QueryLineage.Proofs.Clause.JoinChain
import QueryLineage.Proofs.Clause.SelectFrom
import QueryLineage.Proofs.Tree.Compound

/-!
# The steps of queries with set operators between them

Each branch is read by itself: its `SELECT` begins a new text, and its conditions are those of its
own clause. The operators are passed over.
-/

namespace QueryLineage

open String (append_assoc)

namespace Restriction

variable (restriction : Restriction) (behind : List Node)

theorem text_clause : (restriction.clause behind).text =
    "WHERE " ++ restriction.text ++ Node.textAll behind := by
  have hlinks : ∀ links : List Link, Node.textAll (links.flatMap fun link =>
      [Node.spaceNode, Node.wordNode link.connective.word, Node.spaceNode, link.comparison.grouped]) =
        String.join (links.map fun link => " " ++ link.text) := by
    intro links
    induction links with
    | nil => rfl
    | cons link links ih =>
      rw [List.flatMap_cons, Node.textAll_append, ih, List.map_cons, String.join_cons, Link.text,
        Node.textAll_cons, Node.textAll_cons, Node.textAll_cons, Node.textAll_cons, Node.textAll_nil,
        link.comparison.text_grouped]
      simp only [Node.spaceNode, Node.wordNode, Node.text_leaf, String.append_empty, append_assoc]
  have hwhere : "WHERE " = "WHERE" ++ " " := by decide
  rw [clause, Node.text_group, Node.textAll_cons, Node.textAll_cons, Node.textAll_append, grouped,
    Node.textAll_cons, hlinks, restriction.first.text_grouped, text, hwhere]
  simp only [Node.whereNode, Node.spaceNode, Node.text_leaf, append_assoc]

theorem conditions_clause (hbehind : behind = [] ∨ behind = [Node.spaceNode]) :
    (restriction.clause behind).conditions = .ok restriction.attributes := by
  have hcons : ∀ (comparison : Comparison) (siblings : List Node) (found : List Attribute),
      Node.conditionsFrom 0 siblings = .ok found →
        Node.conditionsFrom 0 (comparison.grouped :: siblings) =
          .ok (comparison.toAttribute :: found) := by
    intro comparison siblings found hfound
    rw [Node.conditionsFrom_cons (by simp [Comparison.grouped]) (by simp [Comparison.grouped]),
      comparison.conditions_grouped, hfound]
    rfl
  have hlinks : ∀ links : List Link, Node.conditionsFrom 0 ((links.flatMap fun link =>
      [Node.spaceNode, Node.wordNode link.connective.word, Node.spaceNode, link.comparison.grouped]) ++
        behind) = .ok (links.map fun link => link.comparison.toAttribute) := by
    intro links
    induction links with
    | nil => rcases hbehind with rfl | rfl <;> rfl
    | cons link links ih =>
      rw [List.flatMap_cons]
      simp only [List.cons_append, List.nil_append]
      rw [Node.conditionsFrom_cons_of_passed rfl, Node.conditionsFrom_cons_of_passed rfl,
        Node.conditionsFrom_cons_of_passed rfl, hcons _ _ _ ih, List.map_cons]
  rw [clause, Node.conditions, Node.kind_group]
  simp only [Node.innerConditions]
  rw [Node.conditionsFrom_cons_of_passed rfl, Node.conditionsFrom_cons_of_passed rfl, grouped,
    List.cons_append, hcons _ _ _ (hlinks restriction.others), attributes]

end Restriction

namespace Branch

variable (branch : Branch)

def columns : List Attribute := branch.items.map SelectItem.toAttribute

def conditions : List Attribute := branch.restriction?.elim [] Restriction.attributes

def steps : List Step :=
  [.read .selectList (.columns branch.columns) ""
      ("SELECT " ++ ", ".intercalate (branch.items.map SelectItem.text)),
    .read .fromList (.sources [.named branch.source.text none]) "" branch.head] ++
  branch.restriction?.elim [] fun restriction => [.restrict restriction.attributes]

theorem isPart_selectList : branch.selectList.IsPart :=
  Node.isPart_listed branch.firstItem.isItem_grouped.1 _

theorem items_selectList : branch.selectList.items.map Node.column = branch.columns := by
  have hitems : branch.selectList.items = branch.items.map SelectItem.grouped := by
    refine Node.items_listed fun node hnode => ?_
    rw [← List.map_cons] at hnode
    obtain ⟨item, -, rfl⟩ := List.mem_map.1 hnode
    exact item.isItem_grouped.1
  rw [hitems, List.map_map]
  exact List.map_congr_left fun item _ => item.column_grouped

end Branch

namespace Step

variable (parent : Node)

theorem ofSiblings_where (restriction : Restriction) {behind : List Node}
    (hbehind : behind = [] ∨ behind = [Node.spaceNode]) (text : String) (siblings : List Node) :
    ofSiblings parent { text } (restriction.clause behind :: siblings) =
      .restrict restriction.attributes ::
        ofSiblings parent { text := text ++ (restriction.clause behind).text } siblings := by
  rw [ofSiblings_cons, Reader.advance_of_restriction rfl, Reader.take_of_not_keyword rfl,
    restriction.conditions_clause behind hbehind]
  rfl

theorem ofSiblings_setOperator (operator : SetOperator) (text : String) (siblings : List Node) :
    ofSiblings parent { text } (Node.wordNode operator.word :: siblings) =
      ofSiblings parent { text := text ++ operator.word } siblings := by
  have hword : (Node.wordNode operator.word).isWord "SELECT" = false ∧
      (Node.wordNode operator.word).isJoin = false ∧
      (Node.wordNode operator.word).isWordIn ["GROUP BY", "ORDER BY"] = false ∧
      Reader.clauseAfter? (Node.wordNode operator.word) = none := by
    cases operator <;> decide +kernel
  obtain ⟨hselect, hjoin, horder, hclause⟩ := hword
  rw [ofSiblings_cons, Reader.advance_of_keyword rfl horder, hclause, Reader.take, hselect, hjoin]
  rfl

/-- The steps for a branch do not depend on what has been read before it. -/
theorem ofSiblings_branch (branch : Branch) {behind : List Node}
    (hbehind : behind = [] ∨ behind = [Node.spaceNode]) (text : String) (siblings : List Node) :
    ofSiblings parent { text } (branch.grouped behind ++ siblings) =
      .select :: (branch.steps ++
        ofSiblings parent { text := branch.text ++ Node.textAll behind } siblings) := by
  have hselect : ∀ more, Reader.advance { text } Node.selectNode more =
      ([.select], some ({ clause := .selectList, text := "SELECT" }, 0)) :=
    advance_select isSelect_selectNode "" text
  have hlist : branch.selectList.text = ", ".intercalate (branch.items.map SelectItem.text) :=
    Node.text_listed _ _ SelectItem.text_grouped
  have hfirst : "SELECT" ++ " " = "SELECT " := by decide
  have hsource : (Node.group .identifier [Node.nameNode branch.source.text]).text =
      branch.source.text := by
    simp [Node.nameNode]
  have hhead : "SELECT " ++ branch.selectList.text ++ " " ++ "FROM" ++ " " ++ branch.source.text =
      branch.head := by
    have hfrom : " FROM " = " " ++ "FROM" ++ " " := by decide
    rw [Branch.head, hlist, hfrom]
    simp only [append_assoc]
  have hblanks : ∀ text, ofSiblings parent { text } (behind ++ siblings) =
      ofSiblings parent { text := text ++ Node.textAll behind } siblings := by
    intro text
    rcases hbehind with rfl | rfl
    · rw [Node.textAll_nil, String.append_empty, List.nil_append]
    · exact ofSiblings_space parent _ siblings
  have hrow : ∀ others, Node.selectFrom [branch.selectList]
      [.group .identifier [Node.nameNode branch.source.text]] ++ others =
        Node.selectNode :: Node.spaceNode :: branch.selectList :: Node.spaceNode :: Node.fromNode ::
          Node.spaceNode :: .group .identifier [Node.nameNode branch.source.text] :: others :=
    fun _ => rfl
  rw [Branch.grouped, List.append_assoc, hrow, ofSiblings_cons, hselect, resume, List.drop_zero,
    List.singleton_append, ofSiblings_space, ofSiblings_selectList _ branch.isPart_selectList,
    branch.items_selectList, hfirst, ofSiblings_space, ofSiblings_from, ofSiblings_space,
    ofSiblings_source_cons _ _ _ (Or.inl rfl), Node.source_name, hsource, hhead, hlist, Branch.steps,
    Branch.text]
  cases branch.restriction? with
  | none => simp only [Option.elim_none, hblanks, String.append_empty, List.append_nil]; rfl
  | some restriction =>
    have htext : branch.head ++ " " ++ ("WHERE " ++ restriction.text ++ Node.textAll behind) =
        branch.head ++ (" WHERE " ++ restriction.text) ++ Node.textAll behind := by
      have hwhere : " WHERE " = " " ++ "WHERE " := by decide
      rw [hwhere]
      simp only [append_assoc]
    have hclause := ofSiblings_where parent restriction hbehind (branch.head ++ " ") siblings
    rw [restriction.text_clause, htext] at hclause
    simp only [Option.elim_some, List.cons_append, List.nil_append, ofSiblings_space, ← hclause]

/-- The steps for branches, whatever is read before them and behind them. -/
theorem ofSiblings_branches (branch : Branch) (others : List FurtherBranch) (text : String)
    (siblings : List Node) :
    ofSiblings parent { text } (Node.groupedBranches branch others ++ siblings) =
      (branch :: others.map FurtherBranch.branch).flatMap (fun branch => .select :: branch.steps) ++
        ofSiblings parent
          { text := ((others.getLast?.map FurtherBranch.branch).getD branch).text } siblings := by
  induction others generalizing branch text with
  | nil =>
    rw [Node.groupedBranches, ofSiblings_branch parent branch (Or.inl rfl), Node.textAll_nil,
      String.append_empty]
    simp
  | cons further others ih =>
    have hlast : (((further :: others).getLast?.map FurtherBranch.branch).getD branch) =
        (others.getLast?.map FurtherBranch.branch).getD further.branch := by
      rw [List.getLast?_cons]
      cases others.getLast? <;> rfl
    rw [Node.groupedBranches, List.append_assoc, ofSiblings_branch parent branch (Or.inr rfl),
      List.cons_append, List.cons_append, ofSiblings_setOperator, ofSiblings_space, ih, hlast]
    simp

end Step

namespace CompoundQuery

variable (query : CompoundQuery)

def last : Branch := (query.others.getLast?.map FurtherBranch.branch).getD query.first

theorem ofNode_tree : Step.ofNode (.group .statement (Node.groupedBranches query.first query.others)) =
    query.branches.flatMap (fun branch => .select :: branch.steps) ++ [.finish query.last.text] := by
  have hbranches := Step.ofSiblings_branches
    (.group .statement (Node.groupedBranches query.first query.others)) query.first query.others "" []
  rw [List.append_nil, Step.ofSiblings, if_neg Bool.false_ne_true] at hbranches
  exact hbranches

/-- In parentheses, the text of the end has the closing one behind it. -/
theorem ofNode_enclosed : Step.ofNode (.enclosed (Node.groupedBranches query.first query.others)) =
    query.branches.flatMap (fun branch => .select :: branch.steps) ++
      [.finish (query.last.text ++ ")")] := by
  have hclosing : ∀ parent text, Step.ofSiblings parent { text } [Node.closingMark] =
      [.finish (text ++ ")")] := by
    intro parent text
    have hadvance : Reader.advance { text } Node.closingMark [] =
        ([], some ({ text := text ++ ")" }, 0)) := rfl
    rw [Step.ofSiblings_cons, hadvance, Step.resume, List.drop_nil, List.nil_append, Step.ofSiblings,
      if_neg Bool.false_ne_true]
  rw [Step.ofNode, Node.enclosed, Node.children_group, Step.ofSiblings_opening,
    Step.ofSiblings_branches, hclosing]
  rfl

end CompoundQuery

end QueryLineage
