import QueryLineage.Proofs.Tree.JoinChain
import QueryLineage.Proofs.Tree.Listed

/-!
# Queries with set operators between them

Branches that read items from one table each, perhaps under comparisons, with set operators between
them. The clause of a `WHERE` reaches up to the operator behind it, so the blank before the operator
is the last thing in the clause.
-/

namespace QueryLineage

open Node Pattern

inductive SetOperator where
  | union | unionAll | intersect | except

def SetOperator.word : SetOperator → String
  | union => "UNION"
  | unionAll => "UNION ALL"
  | intersect => "INTERSECT"
  | except => "EXCEPT"

/-- Comparisons with connectives between them. -/
structure Restriction where
  first : Comparison
  others : List Link

namespace Restriction

variable (restriction : Restriction)

def text : String :=
  restriction.first.text ++ String.join (restriction.others.map fun link => " " ++ link.text)

def nodes : List Node :=
  restriction.first.nodes ++ restriction.others.flatMap fun link =>
    spaceNode :: wordNode link.connective.word :: spaceNode :: link.comparison.nodes

def grouped : List Node :=
  restriction.first.grouped :: restriction.others.flatMap fun link =>
    [spaceNode, wordNode link.connective.word, spaceNode, link.comparison.grouped]

/-- The clause of the comparisons, with what stands between them and its end. -/
def clause (behind : List Node) : Node :=
  group .whereClause (whereNode :: spaceNode :: (restriction.grouped ++ behind))

def attributes : List Attribute :=
  restriction.first.toAttribute :: restriction.others.map fun link => link.comparison.toAttribute

theorem written : Written restriction.text restriction.nodes :=
  (written_comparison restriction.first).spacedAll written_link restriction.others

end Restriction

/-- A query that reads one or more items from one table. -/
structure Branch where
  firstItem : SelectItem
  otherItems : List SelectItem
  source : PlainName
  restriction? : Option Restriction

namespace Branch

variable (branch : Branch)

def items : List SelectItem := branch.firstItem :: branch.otherItems

def head : String :=
  "SELECT " ++ ", ".intercalate (branch.items.map SelectItem.text) ++ " FROM " ++ branch.source.text

def text : String :=
  branch.head ++ branch.restriction?.elim "" (" WHERE " ++ ·.text)

def headNodes : List Node :=
  selectFrom (separated (branch.items.map SelectItem.nodes)) [nameNode branch.source.text]

def nodes : List Node :=
  branch.headNodes ++ branch.restriction?.elim [] fun restriction =>
    spaceNode :: whereNode :: spaceNode :: restriction.nodes

def selectList : Node :=
  listed branch.firstItem.grouped (branch.otherItems.map SelectItem.grouped)

/-- What the branch is grouped to with the blanks behind it. -/
def grouped (behind : List Node) : List Node :=
  selectFrom [branch.selectList] [group .identifier [nameNode branch.source.text]] ++
    branch.restriction?.elim behind fun restriction => [spaceNode, restriction.clause behind]

theorem written : Written branch.text branch.nodes := by
  have hhead : Written branch.head branch.headNodes :=
    written_selectFrom (.separated (by simp [items]) fun item _ => item.written)
      (written_name branch.source)
  cases hrestriction : branch.restriction? with
  | none => simpa [text, nodes, hrestriction] using hhead
  | some restriction =>
    have hwhere : Written "WHERE" [whereNode] :=
      @written_keyword ⟨.keyword .generic, "WHERE"⟩ (by decide)
    have htext : " WHERE " = " " ++ "WHERE" ++ " " := by decide
    have hspaced := (hhead.spaced hwhere).spaced restriction.written
    simpa [text, nodes, hrestriction, htext, String.append_assoc] using hspaced

theorem toList_text : ∃ rest, branch.text.toList = "SELECT".toList ++ rest := by
  have hselect : "SELECT " = "SELECT" ++ " " := by decide
  refine ⟨(" " ++ (", ".intercalate (branch.items.map SelectItem.text) ++ (" FROM " ++
    (branch.source.text ++ branch.restriction?.elim "" (" WHERE " ++ ·.text))))).toList, ?_⟩
  rw [text, head, hselect, ← String.toList_append]
  simp only [String.append_assoc]

end Branch

/-- A branch with the set operator before it. -/
structure FurtherBranch where
  operator : SetOperator
  branch : Branch

namespace FurtherBranch

variable (further : FurtherBranch)

def text : String := further.operator.word ++ " " ++ further.branch.text

def nodes : List Node := wordNode further.operator.word :: spaceNode :: further.branch.nodes

theorem written : Written further.text further.nodes := by
  obtain ⟨operator, branch⟩ := further
  cases operator with
  | union =>
    -- `UNION` makes one keyword with an `ALL` behind it, but not with a `SELECT`
    have hword : Word "UNION".toList := Lexeme.word_of_decide (by decide +kernel)
    have hkind : LexRule.wordKind "UNION".toList [] = .keyword .generic := by decide +kernel
    have hunion : Written ("UNION" ++ " " ++ branch.text)
        (wordNode "UNION" :: spaceNode :: branch.nodes) := by
      refine branch.written.behindKeyword hword hkind fun rest => ?_
      obtain ⟨others, hothers⟩ := branch.toList_text
      rw [hothers]
      exact ⟨rfl, rfl⟩
    exact hunion
  | unionAll => exact (@written_phrase ["UNION", "ALL"] (by decide)).spaced branch.written
  | intersect =>
    exact (@written_keyword ⟨.keyword .generic, "INTERSECT"⟩ (by decide)).spaced branch.written
  | except =>
    exact (@written_keyword ⟨.keyword .generic, "EXCEPT"⟩ (by decide)).spaced branch.written

end FurtherBranch

/-- Branches with set operators between them. -/
structure CompoundQuery where
  first : Branch
  others : List FurtherBranch

namespace CompoundQuery

variable (query : CompoundQuery)

def branches : List Branch := query.first :: query.others.map FurtherBranch.branch

def text : String :=
  query.first.text ++ String.join (query.others.map fun further => " " ++ further.text)

def nodes : List Node :=
  query.first.nodes ++ query.others.flatMap fun further => spaceNode :: further.nodes

theorem written : Written query.text query.nodes :=
  query.first.written.spacedAll FurtherBranch.written query.others

end CompoundQuery

namespace Node

def groupedBranches (branch : Branch) : List FurtherBranch → List Node
  | [] => branch.grouped []
  | further :: others =>
    branch.grouped [spaceNode] ++ wordNode further.operator.word :: spaceNode ::
      groupedBranches further.branch others

theorem barrier_setOperator (operator : SetOperator) :
    (wordNode operator.word).Barrier ∧ (wordNode operator.word).endsWhere = true := by
  have hword : (wordNode operator.word).isWord "WHERE" = false ∧
      (wordNode operator.word).isWord "CASE" = false ∧
      (wordNode operator.word).isWordIn ["OVER", "AS", "ASC", "DESC"] = false ∧
      (wordNode operator.word).endsWhere = true := by
    cases operator <;> decide +kernel
  obtain ⟨hwhere, hcase, hword, hends⟩ := hword
  exact ⟨⟨⟨rfl, rfl, hwhere, hcase⟩, rfl, rfl, rfl, hword⟩, hends⟩

theorem barrier_whereClause (children : List Node) : (group .whereClause children).Barrier :=
  ⟨⟨rfl, rfl, rfl, rfl⟩, rfl, rfl, rfl, rfl⟩

theorem forall_mem_selectFrom {P : Node → Prop} {items sources : List Node} (hselect : P selectNode)
    (hspace : P spaceNode) (hfrom : P fromNode) (hitems : ∀ node ∈ items, P node)
    (hsources : ∀ node ∈ sources, P node) : ∀ node ∈ selectFrom items sources, P node := by
  intro node hnode
  simp only [selectFrom, List.mem_cons, List.mem_append] at hnode
  rcases hnode with rfl | rfl | hnode | rfl | rfl | rfl | hnode
  exacts [hselect, hspace, hitems node hnode, hspace, hfrom, hspace, hsources node hnode]

end Node

namespace Branch

variable (branch : Branch)

theorem simple_of_mem_items : ∀ node ∈ separated (branch.items.map SelectItem.nodes), node.Simple :=
  simple_of_mem_separated (fun _ _ hnode => SelectItem.simple_of_mem_nodes hnode) branch.items

theorem of_mem_headNodes : ∀ node ∈ branch.headNodes, node.isWord "WHERE" = false ∧
    node.isWord "CASE" = false ∧ node.isKind .parenthesis = false := by
  refine forall_mem_selectFrom ⟨inert_selectNode.noWhere, inert_selectNode.noCase, rfl⟩
    ⟨rfl, rfl, rfl⟩ ⟨inert_fromNode.noWhere, inert_fromNode.noCase, rfl⟩ (fun node hnode => ?_)
    fun node hnode => ?_
  · have hsimple := branch.simple_of_mem_items node hnode
    exact ⟨hsimple.noWhere, hsimple.noCase, hsimple.parenthesis⟩
  · obtain rfl := List.mem_singleton.1 hnode
    exact ⟨rfl, rfl, rfl⟩

theorem groupLevel_headNodes : groupLevel branch.headNodes =
    selectFrom [branch.selectList] [group .identifier [nameNode branch.source.text]] := by
  have hlist : groupLevel (separated (branch.items.map SelectItem.nodes)) = [branch.selectList] :=
    groupLevel_separated SelectItem.groupItems_nodes
      (fun _ _ hnode => SelectItem.simple_of_mem_nodes hnode) (fun item => item.isItem_grouped)
      branch.firstItem branch.otherItems
  rw [headNodes, groupLevel_selectFrom fun node hnode => (branch.simple_of_mem_items node hnode).noCase,
    hlist, groupLevel_nameNode]

theorem not_parenthesis_of_mem {node : Node} (h : node ∈ branch.nodes) :
    node.isKind .parenthesis = false := by
  rcases List.mem_append.1 h with h | h
  · exact (branch.of_mem_headNodes node h).2.2
  · cases hrestriction : branch.restriction? with
    | none =>
      rw [hrestriction] at h
      cases h
    | some restriction =>
      simp only [hrestriction, Option.elim_some, List.mem_cons] at h
      rcases h with rfl | rfl | rfl | h
      · rfl
      · rfl
      · rfl
      · exact (simple_of_mem_comparisons h).parenthesis

/-- The clause of a branch has its comparisons and the blanks up to what ends it. -/
theorem groupRun_restricted (restriction : Restriction) {behind others : List Node}
    (hbehind : behind = [] ∨ behind = [spaceNode])
    (hothers : ∀ node ∈ others.head?, node.endsWhere = true) :
    groupRun (branch.headNodes ++ spaceNode :: whereNode ::
        (spaceNode :: (restriction.nodes ++ behind) ++ others)) =
      selectFrom [branch.selectList] [group .identifier [nameNode branch.source.text]] ++ spaceNode ::
        restriction.clause behind :: groupRun others := by
  have hsimple : ∀ node ∈ restriction.nodes, node.Simple := fun _ hnode =>
    simple_of_mem_comparisons hnode
  have hblanks : ∀ node ∈ behind, node.endsWhere = false := by
    rcases hbehind with rfl | rfl
    · simp
    · intro node hnode
      obtain rfl := List.mem_singleton.1 hnode
      rfl
  have hends : ∀ node ∈ spaceNode :: (restriction.nodes ++ behind), node.endsWhere = false := by
    intro node hnode
    simp only [List.mem_cons, List.mem_append] at hnode
    rcases hnode with rfl | hnode | hnode
    exacts [rfl, (hsimple node hnode).goesOn, hblanks node hnode]
  have hcomparisons : groupLevel restriction.nodes = restriction.grouped :=
    groupLevel_comparisons restriction.first restriction.others
  have hclause : groupLevel (spaceNode :: (restriction.nodes ++ behind)) =
      spaceNode :: (restriction.grouped ++ behind) := by
    rw [inert_spaceNode.groupLevel_cons]
    rcases hbehind with rfl | rfl
    · rw [List.append_nil, List.append_nil, hcomparisons]
    · rw [groupLevel_append_space fun node hnode => (hsimple node hnode).noCase, hcomparisons]
  rw [groupRun, groupWheres_append fun node hnode => (branch.of_mem_headNodes node hnode).1,
    groupWheres_cons inert_spaceNode.noWhere, groupWheres_whereNode_append hends hothers, hclause,
    (barrier_whereClause _).groupLevel_append rfl fun node hnode =>
      (branch.of_mem_headNodes node hnode).2.1, branch.groupLevel_headNodes]
  rfl

theorem groupRun_nodes : groupRun branch.nodes = branch.grouped [] := by
  rw [nodes, grouped]
  cases branch.restriction? with
  | none =>
    rw [Option.elim_none, Option.elim_none, List.append_nil, List.append_nil, groupRun,
      groupWheres_of_forall fun node hnode => (branch.of_mem_headNodes node hnode).1,
      branch.groupLevel_headNodes]
  | some restriction =>
    have hclause := @groupRun_restricted branch restriction [] [] (Or.inl rfl) (by simp)
    rwa [List.append_nil, List.append_nil, groupRun_nil] at hclause

theorem groupRun_append (operator : SetOperator) (others : List Node) :
    groupRun (branch.nodes ++ spaceNode :: wordNode operator.word :: others) =
      branch.grouped [spaceNode] ++ wordNode operator.word :: groupRun others := by
  obtain ⟨hbarrier, hends⟩ := barrier_setOperator operator
  rw [nodes, grouped]
  cases branch.restriction? with
  | none =>
    rw [Option.elim_none, Option.elim_none, List.append_nil, groupRun,
      groupWheres_append fun node hnode => (branch.of_mem_headNodes node hnode).1,
      groupWheres_cons inert_spaceNode.noWhere, groupWheres_cons hbarrier.noWhere,
      hbarrier.groupLevel_append rfl fun node hnode => (branch.of_mem_headNodes node hnode).2.1,
      branch.groupLevel_headNodes, List.append_assoc]
    rfl
  | some restriction =>
    have hclause := @groupRun_restricted branch restriction [spaceNode]
      (wordNode operator.word :: others) (Or.inr rfl) (by simpa using hends)
    rw [hbarrier.toInert.groupRun_cons] at hclause
    simpa [List.append_assoc] using hclause

end Branch

namespace CompoundQuery

variable (query : CompoundQuery)

theorem groupRun_branches (branch : Branch) (others : List FurtherBranch) :
    groupRun (branch.nodes ++ others.flatMap fun further => spaceNode :: further.nodes) =
      groupedBranches branch others := by
  induction others generalizing branch with
  | nil => rw [List.flatMap_nil, List.append_nil, branch.groupRun_nodes, groupedBranches]
  | cons further others ih =>
    rw [List.flatMap_cons, FurtherBranch.nodes, List.cons_append, List.cons_append, List.cons_append,
      branch.groupRun_append, inert_spaceNode.groupRun_cons, ih, groupedBranches]

theorem groupAll_nodes : groupAll query.nodes = groupedBranches query.first query.others := by
  have hparenthesis : ∀ node ∈ query.nodes, node.isKind .parenthesis = false := by
    intro node hnode
    rcases List.mem_append.1 hnode with hnode | hnode
    · exact query.first.not_parenthesis_of_mem hnode
    · obtain ⟨further, -, hnode⟩ := List.mem_flatMap.1 hnode
      simp only [FurtherBranch.nodes, List.mem_cons] at hnode
      rcases hnode with rfl | rfl | rfl | hnode
      exacts [rfl, rfl, rfl, further.branch.not_parenthesis_of_mem hnode]
  rw [groupAll, groupInsideAll_of_forall hparenthesis, nodes, groupRun_branches]

theorem statementsOfText_text (stripComments : Bool) : Node.statementsOfText query.text stripComments =
    .ok [.group .statement (groupedBranches query.first query.others)] := by
  rw [query.written.statementsOfText rfl, statement, query.groupAll_nodes]

/-- The branches in parentheses are grouped as they are alone. -/
theorem statementsOfText_asSource (name : PlainName) (stripComments : Bool) :
    Node.statementsOfText (asSource query.text name.text) stripComments =
      .ok [.group .statement (selectNode :: spaceNode :: starNode :: spaceNode :: fromNode ::
        spaceNode :: [.group .identifier [.enclosed (groupedBranches query.first query.others),
          spaceNode, .group .identifier [nameNode name.text]]])] := by
  have hselect : Written "SELECT" [selectNode] := @written_keyword ⟨.keyword .dml, "SELECT"⟩ (by decide)
  have hfrom : Written "FROM" [fromNode] := @written_keyword ⟨.keyword .generic, "FROM"⟩ (by decide)
  have hspaced := ((((hselect.spaced written_star).spaced hfrom).spaced
    query.written.parentheses).spaced (written_name name))
  have htext : "SELECT" ++ " " ++ "*" ++ " " ++ "FROM" ++ " " ++ ("(" ++ query.text ++ ")") ++ " " ++
      name.text = asSource query.text name.text := by
    rw [← String.toList_inj, toList_asSource]
    simp
  rw [htext] at hspaced
  rw [hspaced.statementsOfText rfl, statement, ← query.groupAll_nodes, ← groupAll_asSource]
  rfl

end CompoundQuery

end QueryLineage
