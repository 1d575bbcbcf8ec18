import QueryLineage.Proofs.Tree.Listed

/-!
# Queries that read items from sources

The text and the tree of a query with a select list and a list of sources. A wildcard stands in the
list by itself or behind the dots of a name, but is never taken for an operator there: a comma or the
`FROM` comes behind it.
-/

namespace QueryLineage

open Node

/-- What stands in a select list: all columns, all columns of one table, or one column. -/
inductive ListItem where
  | all
  | allOf (name : DottedName)
  | column (item : SelectItem)

namespace ListItem

def text : ListItem → String
  | all => "*"
  | allOf name => name.text ++ ".*"
  | column item => item.text

def nodes : ListItem → List Node
  | all => [starNode]
  | allOf name => dotted name ++ [dotNode, starNode]
  | column item => item.nodes

def grouped : ListItem → Node
  | all => starNode
  | allOf name => group .identifier (dotted name ++ [dotNode, starNode])
  | column item => item.grouped

theorem written_allOf (name : DottedName) :
    Written (name.text ++ ".*") (dotted name ++ [dotNode, starNode]) := by
  obtain ⟨first, others⟩ := name
  have hmark : ".*" = "." ++ "*" := by decide
  induction others generalizing first with
  | nil =>
    have hstar := written_star.dot first (by rintro c ⟨⟩; decide)
    simpa [DottedName.text, dotted, hmark] using hstar
  | cons second others ih =>
    rw [DottedName.text_cons, String.append_assoc, String.append_assoc]
    exact (ih second).dot first (DottedName.isDecimal_head _ _)

theorem written : ∀ item : ListItem, Written item.text item.nodes
  | all => written_star
  | allOf name => written_allOf name
  | column item => item.written

theorem simple_of_mem_nodes {item : ListItem} {node : Node} (h : node ∈ item.nodes) :
    node.Simple := by
  have hstar : starNode.Simple := ⟨⟨rfl, rfl, rfl, rfl⟩, rfl⟩
  have hdot : dotNode.Simple := ⟨⟨rfl, rfl, by decide +kernel, rfl⟩, rfl⟩
  cases item with
  | all =>
    obtain rfl := List.mem_singleton.1 h
    exact hstar
  | allOf name =>
    rcases List.mem_append.1 h with h | h
    · exact simple_of_mem_dotted h
    · simp only [List.mem_cons, List.not_mem_nil, or_false] at h
      rcases h with rfl | rfl
      · exact hdot
      · exact hstar
  | column item => exact SelectItem.simple_of_mem_nodes h

theorem groupItems_allOf (name : DottedName) :
    groupItems (dotted name ++ [dotNode, starNode]) = [(allOf name).grouped] := by
  have hcalls : ∀ node ∈ dotted name ++ [dotNode, starNode], node.isKind .parenthesis = false :=
    fun node hnode => (@simple_of_mem_nodes (.allOf name) node hnode).parenthesis
  have hextent : identifierExtent (nameNode name.first.text)
      ((name.others.flatMap fun part => [dotNode, nameNode part.text]) ++ [dotNode, starNode]) =
        some ((name.others.flatMap fun part => [dotNode, nameNode part.text]) ++
          [dotNode, starNode]).length := by
    rw [identifierExtent, dottedExtent_parts_append, List.length_append]
    rfl
  have hjoined : joinOnce identifierExtent (enclose .identifier) (dotted name ++ [dotNode, starNode]) =
      [(allOf name).grouped] := by
    rw [dotted, List.cons_append, joinOnce_cons_of_some hextent, List.take_length, List.drop_length,
      joinOnce_nil]
    rfl
  rw [groupItems_eq, joinOnce_callExtent_of_forall hcalls, hjoined, groupOperands_singleton]

theorem groupItems_nodes : ∀ item : ListItem, groupItems item.nodes = [item.grouped]
  | all => by rw [nodes, groupItems_cons rfl rfl rfl, groupItems_nil, grouped]
  | allOf name => groupItems_allOf name
  | column item => item.groupItems_nodes

theorem isItem_grouped (item : ListItem) :
    item.grouped.isItem = true ∧ item.grouped.isFiller .all = false := by
  cases item with
  | all => exact ⟨rfl, rfl⟩
  | allOf name => exact ⟨rfl, rfl⟩
  | column item => exact item.isItem_grouped

end ListItem

/-- A query that reads one or more items from one or more sources. A source is written like a
column. -/
structure SelectFrom where
  firstItem : ListItem
  otherItems : List ListItem
  firstSource : SelectItem
  otherSources : List SelectItem

namespace SelectFrom

variable (query : SelectFrom)

def items : List ListItem := query.firstItem :: query.otherItems

def sources : List SelectItem := query.firstSource :: query.otherSources

def text : String :=
  "SELECT " ++ ", ".intercalate (query.items.map ListItem.text) ++ " FROM " ++
    ", ".intercalate (query.sources.map SelectItem.text)

def nodes : List Node :=
  selectFrom (separated (query.items.map ListItem.nodes))
    (separated (query.sources.map SelectItem.nodes))

def selectList : Node :=
  listed query.firstItem.grouped (query.otherItems.map ListItem.grouped)

def sourceList : Node :=
  listed query.firstSource.grouped (query.otherSources.map SelectItem.grouped)

theorem written : Written query.text query.nodes :=
  written_selectFrom (.separated (by simp [items]) fun item _ => item.written)
    (.separated (by simp [sources]) fun source _ => source.written)

theorem groupAll_nodes :
    groupAll query.nodes = selectFrom [query.selectList] [query.sourceList] := by
  have hitems : ∀ item : ListItem, ∀ node ∈ item.nodes, node.Simple :=
    fun _ _ hnode => ListItem.simple_of_mem_nodes hnode
  have hsources : ∀ source : SelectItem, ∀ node ∈ source.nodes, node.Simple :=
    fun _ _ hnode => SelectItem.simple_of_mem_nodes hnode
  have hselectList : groupLevel (separated (query.items.map ListItem.nodes)) = [query.selectList] :=
    groupLevel_separated ListItem.groupItems_nodes hitems (fun item => item.isItem_grouped)
      query.firstItem query.otherItems
  have hsourceList : groupLevel (separated (query.sources.map SelectItem.nodes)) =
      [query.sourceList] :=
    groupLevel_separated SelectItem.groupItems_nodes hsources (fun source => source.isItem_grouped)
      query.firstSource query.otherSources
  rw [nodes, groupAll_selectFrom (simple_of_mem_separated hitems query.items)
    (simple_of_mem_separated hsources query.sources), hselectList, hsourceList]

theorem statementsOfText_text (stripComments : Bool) :
    Node.statementsOfText query.text stripComments =
      .ok [.group .statement (selectFrom [query.selectList] [query.sourceList])] := by
  rw [query.written.statementsOfText rfl, statement, query.groupAll_nodes]

end SelectFrom

end QueryLineage
