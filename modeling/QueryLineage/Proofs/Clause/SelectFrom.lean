import QueryLineage.Proofs.Clause.Declaration
import QueryLineage.Proofs.Tree.SelectFrom

/-!
# The steps of queries that read items from sources

The select list is read as one column for each item and the list behind `FROM` as one source for each
of its own, whether the lists have one item or more.
-/

namespace QueryLineage

open Text
open String (append_assoc)

namespace Node

theorem text_listed {α : Type} {text : α → String} {grouped : α → Node} (first : α) (others : List α)
    (h : ∀ item, (grouped item).text = text item) :
    (listed (grouped first) (others.map grouped)).text =
      ", ".intercalate ((first :: others).map text) := by
  have hbehind : ∀ (items : List α) (before : String),
      before ++ textAll (behindCommas (items.map grouped)) =
        ", ".intercalate (before :: items.map text) := by
    intro items
    induction items with
    | nil => intro before; simp [behindCommas]
    | cons item items ih =>
      intro before
      have hcons : behindCommas ((item :: items).map grouped) =
          commaNode :: spaceNode :: grouped item :: behindCommas (items.map grouped) := rfl
      have hcomma : commaNode.text ++ (spaceNode.text ++ (text item ++
          textAll (behindCommas (items.map grouped)))) =
            ", " ++ (text item ++ textAll (behindCommas (items.map grouped))) := by
        rw [← append_assoc]
        rfl
      rw [hcons, textAll_cons, textAll_cons, textAll_cons, h, hcomma, ih, List.map_cons]
      simp [append_assoc]
  cases others with
  | nil => simpa [listed] using h first
  | cons second others =>
    have hlist : listed (grouped first) ((second :: others).map grouped) =
        group .identifierList (grouped first :: behindCommas ((second :: others).map grouped)) := rfl
    rw [hlist, text_group, textAll_cons, h, hbehind]
    rfl

end Node

namespace SelectItem

def alias? : SelectItem → Option String
  | bare _ => none
  | aliased _ _ other => some other.text

theorem toAttribute_eq (item : SelectItem) : item.toAttribute = .aliased item.name.text item.alias? := by
  cases item <;> rfl

theorem text_grouped (item : SelectItem) : item.grouped.text = item.text := by
  rcases item with name | ⟨name, _ | _, other⟩
  · exact Node.text_identifierNode name
  · simp [grouped, text, Node.text_identifierNode, Node.spaceNode, Node.nameNode, append_assoc]
  · have has : " " ++ ("AS" ++ (" " ++ other.text)) = " AS " ++ other.text := by
      rw [← append_assoc, ← append_assoc]
      rfl
    simp [grouped, text, Node.text_identifierNode, Node.spaceNode, Node.nameNode, Node.asNode, has,
      append_assoc]

theorem source_grouped (item : SelectItem) :
    item.grouped.source = .named item.name.text item.alias? := by
  have hself : item.grouped.subselect? = none := by
    rcases item with _ | ⟨_, _ | _, _⟩ <;> rfl
  have hcolumn := item.column_grouped
  rw [toAttribute_eq, Node.column, if_neg (by rw [item.kind_grouped]; exact Kind.noConfusion)] at hcolumn
  rw [Node.source, hself]
  exact congrArg (fun column => Source.named column.name column.alias?) hcolumn

end SelectItem

namespace ListItem

def toAttribute : ListItem → Attribute
  | all => .ofName "*"
  | allOf name => .aliased (name.text ++ ".*") none
  | column item => item.toAttribute

theorem text_allOf (name : DottedName) : (allOf name).grouped.text = name.text ++ ".*" := by
  have hname : Node.textAll (Node.dotted name) = name.text := by
    rw [← Node.text_identifierNode, Node.identifierNode, Node.text_group]
  rw [grouped, Node.text_group, Node.textAll_append, hname]
  rfl

theorem text_grouped : ∀ item : ListItem, item.grouped.text = item.text
  | all => rfl
  | allOf name => text_allOf name
  | column item => item.text_grouped

theorem column_grouped : ∀ item : ListItem, item.grouped.column = item.toAttribute
  | all => rfl
  | allOf name => by
    have hread : ∀ before, Node.nameFrom before (Node.dotted name ++ [Node.dotNode, Node.starNode]) =
        (before ++ Node.textAll (Node.dotted name ++ [Node.dotNode, Node.starNode]), []) := by
      have hleaf : ∀ node ∈ Node.dotted name ++ [Node.dotNode, Node.starNode],
          node.isWhitespace = false ∧ node.isComment = false := by
        intro node hnode
        rcases List.mem_append.1 hnode with hnode | hnode
        · exact Node.not_filler_of_mem_dotted hnode
        · simp only [List.mem_cons, List.not_mem_nil, or_false] at hnode
          rcases hnode with rfl | rfl <;> exact ⟨rfl, rfl⟩
      intro before
      have happend := @Node.nameFrom_append _ [] hleaf (by simp) before
      rwa [List.append_nil] at happend
    have hcolumn : (allOf name).grouped.column =
        .aliased (Node.nameFrom "" (Node.dotted name ++ [Node.dotNode, Node.starNode])).1
          (Node.aliasFrom? (Node.afterAs
            (Node.nameFrom "" (Node.dotted name ++ [Node.dotNode, Node.starNode])).2)) := rfl
    have htext := text_allOf name
    rw [grouped, Node.text_group] at htext
    rw [hcolumn, hread, htext, String.empty_append]
    rfl
  | column item => item.column_grouped

end ListItem

namespace Step

/-- The steps of a query with a select list and a list of sources, each of which is one node. -/
theorem ofNode_selectFrom (kind : Kind) {list sources : Node} (hlist : list.IsPart)
    (hsources : sources.IsPart) : ∃ first second,
    ofNode (.group kind (Node.selectFrom [list] [sources])) =
      [.select, .read .selectList (.columns (list.items.map Node.column)) "" first,
        .read .fromList (.sources (sources.items.map Node.source)) "" second,
        .finish ("SELECT " ++ list.text ++ " FROM " ++ sources.text)] := by
  have hselect : ∀ more, Reader.advance {} Node.selectNode more =
      ([.select], some ({ clause := .selectList, text := "SELECT" }, 0)) :=
    advance_select isSelect_selectNode "" ""
  have htext : "SELECT" ++ " " ++ list.text ++ " " ++ "FROM" ++ " " ++ sources.text =
      "SELECT " ++ list.text ++ " FROM " ++ sources.text := by
    have hfirst : "SELECT " = "SELECT" ++ " " := by decide
    have hfrom : " FROM " = " " ++ "FROM" ++ " " := by decide
    rw [hfirst, hfrom]
    simp only [append_assoc]
  have hend : ∀ text, ofSiblings (.group kind (Node.selectFrom [list] [sources])) { text } [] =
      [.finish text] := by
    intro text
    rw [ofSiblings, if_neg Bool.false_ne_true]
  refine ⟨"SELECT" ++ " " ++ list.text, "SELECT " ++ list.text ++ " FROM " ++ sources.text, ?_⟩
  have hchildren : (Node.group kind (Node.selectFrom [list] [sources])).children =
      Node.selectNode :: Node.spaceNode :: list :: Node.spaceNode :: Node.fromNode ::
        Node.spaceNode :: [sources] := rfl
  rw [ofNode, hchildren, ofSiblings_cons, hselect, resume, List.drop_zero, List.singleton_append,
    ofSiblings_space, ofSiblings_selectList _ hlist, ofSiblings_space, ofSiblings_from,
    ofSiblings_space, ofSiblings_part _ hsources Clause.noConfusion rfl, hend, htext]

end Step

namespace SelectFrom

variable (query : SelectFrom)

theorem items_selectList : query.selectList.items.map Node.column =
    query.items.map ListItem.toAttribute := by
  have hitems : query.selectList.items = query.items.map ListItem.grouped := by
    refine Node.items_listed fun node hnode => ?_
    rw [← List.map_cons] at hnode
    obtain ⟨item, -, rfl⟩ := List.mem_map.1 hnode
    exact item.isItem_grouped.1
  rw [hitems, List.map_map]
  exact List.map_congr_left fun item _ => item.column_grouped

theorem items_sourceList : query.sourceList.items.map Node.source =
    query.sources.map fun source => .named source.name.text source.alias? := by
  have hitems : query.sourceList.items = query.sources.map SelectItem.grouped := by
    refine Node.items_listed fun node hnode => ?_
    rw [← List.map_cons] at hnode
    obtain ⟨source, -, rfl⟩ := List.mem_map.1 hnode
    exact source.isItem_grouped.1
  rw [hitems, List.map_map]
  exact List.map_congr_left fun source _ => source.source_grouped

/-- The steps of the query. The text of its end is that of the query. -/
theorem ofNode_tree : ∃ first second,
    Step.ofNode (.group .statement (Node.selectFrom [query.selectList] [query.sourceList])) =
      [.select, .read .selectList (.columns (query.items.map ListItem.toAttribute)) "" first,
        .read .fromList (.sources (query.sources.map fun source =>
          .named source.name.text source.alias?)) "" second, .finish query.text] := by
  obtain ⟨first, second, hsteps⟩ := Step.ofNode_selectFrom .statement
    (Node.isPart_listed query.firstItem.isItem_grouped.1 (query.otherItems.map ListItem.grouped))
    (Node.isPart_listed query.firstSource.isItem_grouped.1
      (query.otherSources.map SelectItem.grouped))
  refine ⟨first, second, ?_⟩
  have hitems : query.selectList.text = ", ".intercalate (query.items.map ListItem.text) :=
    Node.text_listed query.firstItem query.otherItems ListItem.text_grouped
  have hsources : query.sourceList.text = ", ".intercalate (query.sources.map SelectItem.text) :=
    Node.text_listed query.firstSource query.otherSources SelectItem.text_grouped
  rw [selectList, sourceList, hsteps, ← selectList, ← sourceList, query.items_selectList,
    query.items_sourceList, hitems, hsources, text]

end SelectFrom

end QueryLineage
