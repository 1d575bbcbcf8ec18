import QueryLineage.Proofs.Clause.Comparison
import QueryLineage.Proofs.Clause.Joined
import QueryLineage.Proofs.Tree.Declaration

/-!
# Reading common tables with a list of columns

The call that a common table begins with is read as its name and its columns, and the select list of
its query as one column for each item.
-/

namespace QueryLineage

open Text

namespace Node

theorem items_listed {first : Node} {others : List Node}
    (h : ∀ item ∈ first :: others, item.isItem = true) : (listed first others).items = first :: others := by
  have hkept : ∀ items : List Node, (∀ item ∈ items, item.isItem = true) →
      (behindCommas items).filter (fun child => !child.isFiller .all && !child.isPunctuation) =
        items := by
    intro items hitems
    induction items with
    | nil => rfl
    | cons item items ih =>
      have hitem : item.IsPart := Or.inl (hitems item List.mem_cons_self)
      have hcons : behindCommas (item :: items) =
          commaNode :: spaceNode :: item :: behindCommas items := rfl
      rw [hcons, List.filter_cons_of_neg (by decide), List.filter_cons_of_neg (by decide),
        List.filter_cons, if_pos hitem.significant,
        ih fun other hother => hitems other (List.mem_cons_of_mem _ hother)]
  cases others with
  | nil =>
    have hfirst : first.kind ≠ .identifierList := by
      intro hkind
      have hitem := h first List.mem_cons_self
      rw [isItem, isOperand, isKind, isKind, hkind] at hitem
      cases hitem
    exact items_of_kind_ne hfirst
  | cons second others =>
    have hlist : listed first (second :: others) =
        group .identifierList (first :: behindCommas (second :: others)) := rfl
    have hfirst : behindCommas (first :: second :: others) =
        commaNode :: spaceNode :: first :: behindCommas (second :: others) := rfl
    have hall := hkept _ h
    rw [hfirst, List.filter_cons_of_neg (by decide), List.filter_cons_of_neg (by decide)] at hall
    rw [hlist, items, kind_group, if_pos rfl, children_group, hall]

/-- A name reaches up to the first blank behind it. -/
theorem nameFrom_append {siblings rest : List Node}
    (hname : ∀ node ∈ siblings, node.isWhitespace = false ∧ node.isComment = false)
    (hrest : ∀ node ∈ rest.head?, node.isWhitespace = true) (before : String) :
    nameFrom before (siblings ++ rest) = (before ++ textAll siblings, rest) := by
  induction siblings generalizing before with
  | nil =>
    cases rest with
    | nil => simp [nameFrom]
    | cons node rest => simp [nameFrom, hrest node rfl]
  | cons node siblings ih =>
    obtain ⟨hblank, hcomment⟩ := hname node List.mem_cons_self
    rw [List.cons_append, nameFrom, hblank, hcomment, if_neg (by simp), if_neg Bool.false_ne_true,
      ih fun other hother => hname other (List.mem_cons_of_mem _ hother), textAll_cons,
      String.append_assoc]

theorem not_filler_of_mem_dotted {name : DottedName} {node : Node} (h : node ∈ dotted name) :
    node.isWhitespace = false ∧ node.isComment = false := by
  rcases List.mem_cons.1 h with rfl | h
  · exact ⟨rfl, rfl⟩
  · obtain ⟨part, -, hpart⟩ := List.mem_flatMap.1 h
    simp only [List.mem_cons, List.not_mem_nil, or_false] at hpart
    rcases hpart with rfl | rfl <;> exact ⟨rfl, rfl⟩

end Node

namespace SelectItem

def toAttribute : SelectItem → Attribute
  | bare name => .aliased name.text none
  | aliased name _ other => .aliased name.text (some other.text)

theorem column_grouped (item : SelectItem) : item.grouped.column = item.toAttribute := by
  have hcolumn : ∀ children : List Node, (Node.group .identifier children).column =
      .aliased (Node.nameFrom "" children).1
        (Node.aliasFrom? (Node.afterAs (Node.nameFrom "" children).2)) :=
    fun _ => rfl
  have hempty : ∀ name : String, "" ++ name = name := fun _ => String.empty_append
  rcases item with name | ⟨name, behindAs, other⟩
  · have hname := @Node.nameFrom_append (Node.dotted name) []
      (fun _ hnode => Node.not_filler_of_mem_dotted hnode) (by simp) ""
    rw [List.append_nil, hempty] at hname
    have htext : Node.textAll (Node.dotted name) = name.text := by
      rw [← Node.text_identifierNode, Node.identifierNode, Node.text_group]
    rw [grouped, Node.identifierNode, hcolumn, hname, htext]
    rfl
  · have hname : ∀ rest : List Node, Node.nameFrom "" (Node.identifierNode name :: Node.spaceNode :: rest) =
        ("" ++ (Node.identifierNode name).text, Node.spaceNode :: rest) := fun _ => rfl
    have halias := Node.aliasFrom?_name other.isPlain.ne_empty
    cases behindAs with
    | true =>
      have has : Node.asNode.isWord "AS" = true := by decide +kernel
      have hafter : Node.afterAs [Node.spaceNode, Node.asNode, Node.spaceNode,
          Node.group .identifier [Node.nameNode other.text]] =
            if Node.asNode.isWord "AS" then [Node.group .identifier [Node.nameNode other.text]]
            else [Node.asNode, Node.spaceNode, Node.group .identifier [Node.nameNode other.text]] := rfl
      rw [grouped, hcolumn, hname, hafter, if_pos has, halias, hempty, Node.text_identifierNode]
      rfl
    | false =>
      have hafter : Node.afterAs [Node.spaceNode, Node.group .identifier [Node.nameNode other.text]] =
          [Node.group .identifier [Node.nameNode other.text]] := rfl
      rw [grouped, hcolumn, hname, hafter, halias, hempty, Node.text_identifierNode]
      rfl

end SelectItem

namespace CommonTable

/-- What an entry begins with names the table and its columns, and its query is the first one in
parentheses behind that. -/
theorem ofNode_of_head {node head body : Node} {rest : List Node} {name : String}
    {columns : List String}
    (hchildren : node.children.dropWhile (Node.isFiller .all) = head :: rest)
    (hhead : (if head.kind = .function then ofCall head else (head.nameAndAlias.1, [], none)) =
      (name, columns, none))
    (hbody : (rest.find? fun child => child.kind == .parenthesis) = some body) :
    ofNode node = .ok
      { name, columns, body
        comment? := (node.children.reverse.find? Node.isComment).map
          fun comment => trim comment.text } := by
  unfold ofNode
  rw [hchildren]
  simp only [hhead, Option.none_or, hbody]

theorem columnsIn_names (first : PlainName) (others : List PlainName) :
    columnsIn (Node.enclosed [Node.nameList first others]) = (first :: others).map PlainName.text := by
  have hitems : (Node.nameList first others).items =
      (first :: others).map fun column => Node.group .identifier [Node.nameNode column.text] := by
    refine Node.items_listed fun node hnode => ?_
    rcases List.mem_cons.1 hnode with rfl | hnode
    · rfl
    · obtain ⟨column, -, rfl⟩ := List.mem_map.1 hnode
      rfl
  have hfilter : (Node.enclosed [Node.nameList first others]).children.filter
      (fun node => !node.isFiller .all && !node.isPunctuation) = [Node.nameList first others] := by
    have hfirst : (Node.group .identifier [Node.nameNode first.text]).isItem = true := rfl
    have hlist : (Node.nameList first others).IsPart := Node.isPart_listed hfirst _
    have hkept := hlist.significant
    change [Node.openingMark, Node.nameList first others, Node.closingMark].filter _ = _
    rw [List.filter_cons_of_neg (by decide), List.filter_cons, if_pos hkept,
      List.filter_cons_of_neg (by decide), List.filter_nil]
  have htrim : ∀ column : PlainName,
      trim (Node.group .identifier [Node.nameNode column.text]).text = column.text := by
    intro column
    rw [Node.text_group, Node.textAll_cons, Node.textAll_nil, String.append_empty, Node.nameNode,
      Node.text_leaf, trim_eq_self column.isPlain.isWord.isBlank]
  rw [columnsIn, hfilter, List.flatMap_singleton, hitems, List.map_map]
  exact List.map_congr_left fun column _ => htrim column

theorem ofCall_names (name : String) (spaced : Bool) (first : PlainName) (others : List PlainName) :
    ofCall (.group .function (Node.nameNode name ::
        (Node.gap spaced ++ [Node.enclosed [Node.nameList first others]]))) =
      (name, (first :: others).map PlainName.text, none) := by
  have hselect : (Node.enclosed [Node.nameList first others]).isSubselect = false := by
    have hlist : (Node.nameList first others).isDml = false := Node.isDml_listed rfl
    change (true && [Node.openingMark, Node.nameList first others, Node.closingMark].any
      Node.isDml) = false
    rw [List.any_cons, List.any_cons, hlist]
    rfl
  have hread : ofCall (.group .function (Node.nameNode name ::
      (Node.gap spaced ++ [Node.enclosed [Node.nameList first others]]))) =
        if (Node.enclosed [Node.nameList first others]).isSubselect then
          (name ++ "", [], some (Node.enclosed [Node.nameList first others]))
        else (name ++ "", columnsIn (Node.enclosed [Node.nameList first others]), none) := by
    cases spaced <;> rfl
  rw [hread, hselect, if_neg Bool.false_ne_true, columnsIn_names, String.append_empty]

end CommonTable

namespace Declaration

variable (table : Declaration)

theorem items_selectList : table.selectList.items.map Node.column =
    table.items.map SelectItem.toAttribute := by
  have hitems : table.selectList.items = table.items.map SelectItem.grouped := by
    refine Node.items_listed fun node hnode => ?_
    rw [← List.map_cons] at hnode
    obtain ⟨item, -, rfl⟩ := List.mem_map.1 hnode
    exact item.isItem_grouped.1
  rw [hitems, List.map_map]
  exact List.map_congr_left fun item _ => item.column_grouped

/-- The name of the entry is a call of its columns, and its query stands behind `AS`. -/
theorem ofNode_entry : CommonTable.ofNode (.group .identifier table.entry) = .ok
    { name := table.name.text
      columns := table.columns.map PlainName.text
      body := table.body
      comment? := none } :=
  CommonTable.ofNode_of_head rfl
    (CommonTable.ofCall_names table.name.text false table.firstColumn table.otherColumns) rfl

end Declaration

theorem Step.ofSiblings_part (parent : Node) {node : Node} (h : node.IsPart) {clause : Clause}
    (hclause : clause ≠ .onCondition) {reading : Reading} (hread : node.read clause = .ok reading)
    (comment text : String) (siblings : List Node) :
    ofSiblings parent { clause, comment, text } (node :: siblings) =
      .read clause reading comment (text ++ node.text) ::
        ofSiblings parent { comment, text := text ++ node.text } siblings :=
  have hnode : node.Legible :=
    ⟨h.isWhitespace, h.isPunctuation, h.isComment, h.isKeyword, h.kind_ne_whereClause⟩
  ofSiblings_read parent hnode hclause hread comment text siblings

theorem Step.ofSiblings_selectList (parent : Node) {list : Node} (h : list.IsPart) (comment text : String)
    (siblings : List Node) :
    ofSiblings parent { clause := .selectList, comment, text } (list :: siblings) =
      .read .selectList (.columns (list.items.map Node.column)) comment (text ++ list.text) ::
        ofSiblings parent { comment, text := text ++ list.text } siblings :=
  ofSiblings_part parent h (by decide) rfl comment text siblings

/-- The steps of the query that fills in the columns. -/
theorem Declaration.exists_ofNode_body (table : Declaration) : ∃ first second text,
    Step.ofNode table.body =
      [.select, .read .selectList (.columns (table.items.map SelectItem.toAttribute)) "" first,
        .read .fromList (.sources [.named table.source.text none]) "" second, .finish text] := by
  have hpart : table.selectList.IsPart := Node.isPart_listed table.firstItem.isItem_grouped.1 _
  have hselect : ∀ more, Reader.advance { text := "(" } Node.selectNode more =
      ([.select], some ({ clause := .selectList, text := "SELECT" }, 0)) :=
    Step.advance_select Step.isSelect_selectNode "" "("
  have hclosing : ∀ text : String, Step.ofSiblings table.body { text } [Node.closingMark] =
      [.finish (text ++ ")")] := by
    intro text
    have hadvance : Reader.advance { text } Node.closingMark [] =
        ([], some ({ text := text ++ ")" }, 0)) := rfl
    rw [Step.ofSiblings_cons, hadvance, Step.resume, List.drop_nil, Step.ofSiblings,
      if_neg Bool.false_ne_true, List.nil_append]
  refine ⟨"SELECT" ++ " " ++ table.selectList.text, "SELECT" ++ " " ++ table.selectList.text ++ " " ++
    "FROM" ++ " " ++ (Node.group .identifier [Node.nameNode table.source.text]).text, "SELECT" ++ " " ++
    table.selectList.text ++ " " ++ "FROM" ++ " " ++
    (Node.group .identifier [Node.nameNode table.source.text]).text ++ ")", ?_⟩
  have hchildren : table.body.children = Node.openingMark :: Node.selectNode :: Node.spaceNode ::
      table.selectList :: Node.spaceNode :: Node.fromNode :: Node.spaceNode ::
      Node.group .identifier [Node.nameNode table.source.text] :: [Node.closingMark] := rfl
  rw [Step.ofNode, hchildren, Step.ofSiblings_opening, Step.ofSiblings_cons, hselect, Step.resume,
    List.drop_zero, List.singleton_append, Step.ofSiblings_space,
    Step.ofSiblings_selectList _ hpart, table.items_selectList, Step.ofSiblings_space,
    Step.ofSiblings_from, Step.ofSiblings_space, Step.ofSiblings_source_cons _ _ _ (Or.inl rfl),
    Node.source_name, hclosing]

end QueryLineage
