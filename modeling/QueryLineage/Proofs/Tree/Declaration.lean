import QueryLineage.Proofs.Tree.Trailing

/-!
# Common tables with a list of columns

The text and the tree of a query that reads everything from a common table. The table lists its
columns behind its name, which makes a call of both, and its query selects items from a source.
-/

namespace QueryLineage

open Node

/-- A common table with a list of columns and the query that fills them in. -/
structure Declaration where
  name : PlainName
  firstColumn : PlainName
  otherColumns : List PlainName
  firstItem : SelectItem
  otherItems : List SelectItem
  source : PlainName

namespace Declaration

variable (table : Declaration)

def columns : List PlainName := table.firstColumn :: table.otherColumns

def items : List SelectItem := table.firstItem :: table.otherItems

/-- The query that reads everything from the common table. -/
def text : String :=
  "WITH " ++ table.name.text ++ "(" ++ ", ".intercalate (table.columns.map PlainName.text) ++
    ") AS (SELECT " ++ ", ".intercalate (table.items.map SelectItem.text) ++ " FROM " ++
    table.source.text ++ ") SELECT * FROM " ++ table.name.text

def bodyNodes : List Node :=
  selectNode :: spaceNode :: (separated (table.items.map SelectItem.nodes) ++
    spaceNode :: fromNode :: spaceNode :: [nameNode table.source.text])

def nodes : List Node :=
  withNode :: spaceNode :: ([nameNode table.name.text,
      inParentheses (separated (table.columns.map fun column => [nameNode column.text])), spaceNode,
      asNode, spaceNode, inParentheses table.bodyNodes] ++
    spaceNode :: selectNode :: spaceNode :: starNode :: spaceNode :: fromNode :: spaceNode ::
      [nameNode table.name.text])

def selectList : Node :=
  listed table.firstItem.grouped (table.otherItems.map SelectItem.grouped)

def columnList : Node :=
  listed (group .identifier [nameNode table.firstColumn.text])
    (table.otherColumns.map fun column => group .identifier [nameNode column.text])

/-- The query that fills in the columns, once it is grouped. -/
def body : Node :=
  enclosed (selectNode :: spaceNode :: table.selectList :: spaceNode :: fromNode :: spaceNode ::
    [group .identifier [nameNode table.source.text]])

def entry : List Node :=
  [group .function [nameNode table.name.text, enclosed [table.columnList]], spaceNode, asNode,
    spaceNode, table.body]

theorem written_body : Written ("SELECT " ++ ", ".intercalate (table.items.map SelectItem.text) ++
    " FROM " ++ table.source.text) table.bodyNodes :=
  written_selectFrom (.separated (by simp [items]) fun item _ => item.written)
    (written_name table.source)

theorem written : Written table.text table.nodes := by
  have hwith : Written "WITH" [withNode] := @written_keyword ⟨.keyword .cte, "WITH"⟩ (by decide)
  have has : Written "AS" [asNode] := @written_keyword ⟨.keyword .generic, "AS"⟩ (by decide)
  have hcolumns : Written (", ".intercalate (table.columns.map PlainName.text))
      (separated (table.columns.map fun column => [nameNode column.text])) :=
    .separated (by simp [columns]) fun column _ => written_name column
  have hopening : ∀ text : String, Lexeme.Delimits ("(" ++ text).toList := fun text => by
    rw [String.toList_append]
    exact Lexeme.delimits_cons (by decide) _
  have hhead := (written_name table.name).append hcolumns.parentheses
    (by rw [String.append_assoc]; exact hopening _)
  have hwritten := (((hwith.spaced hhead).spaced has).spaced table.written_body.parentheses).spaced
    (written_selectStarFrom table.name)
  have hfirst : "WITH " = "WITH" ++ " " := by decide
  have hmiddle : ") AS (SELECT " = ")" ++ " " ++ "AS" ++ " " ++ "(" ++ "SELECT " := by decide
  have hlast : ") SELECT * FROM " = ")" ++ " " ++ "SELECT * FROM " := by decide
  delta text
  rw [hfirst, hmiddle, hlast]
  simpa only [nodes, String.append_assoc, List.cons_append, List.nil_append] using hwritten

theorem groupAll_columns : groupAll (separated (table.columns.map fun column =>
    [nameNode column.text])) = [table.columnList] :=
  groupAll_names table.firstColumn table.otherColumns

/-- The list of items ends before the `FROM`. -/
theorem groupAll_bodyNodes : groupAll table.bodyNodes =
    selectNode :: spaceNode :: table.selectList :: spaceNode :: fromNode :: spaceNode ::
      [group .identifier [nameNode table.source.text]] := by
  have hrow : ∀ item : SelectItem, ∀ node ∈ item.nodes, node.Simple :=
    fun _ _ hnode => SelectItem.simple_of_mem_nodes hnode
  have hlist : groupLevel (separated (table.items.map SelectItem.nodes)) = [table.selectList] :=
    groupLevel_separated SelectItem.groupItems_nodes hrow (fun item => item.isItem_grouped)
      table.firstItem table.otherItems
  have hname : ∀ node ∈ [nameNode table.source.text], node.Simple := by
    intro node hnode
    obtain rfl := List.mem_singleton.1 hnode
    exact simple_nameNode table.source
  have hall := groupAll_selectFrom (simple_of_mem_separated hrow table.items) hname
  rw [hlist, groupLevel_nameNode] at hall
  exact hall

/-- The entry of the `WITH` ends before the `SELECT`. -/
theorem groupAll_nodes : groupAll table.nodes =
    withNode :: spaceNode :: group .identifier table.entry :: spaceNode :: selectNode :: spaceNode ::
      starNode :: spaceNode :: fromNode :: spaceNode ::
        [group .identifier [nameNode table.name.text]] := by
  have hcolumns : (inParentheses (separated (table.columns.map fun column =>
      [nameNode column.text]))).groupInside = enclosed [table.columnList] := by
    rw [inParentheses, groupInside_parentheses, groupAll_columns]
  have hbody : (inParentheses table.bodyNodes).groupInside = table.body := by
    rw [inParentheses, groupInside_parentheses, groupAll_bodyNodes, body]
  have hinside : groupInsideAll table.nodes = withNode :: spaceNode :: ([nameNode table.name.text,
      enclosed [table.columnList], spaceNode, asNode, spaceNode, table.body] ++
    spaceNode :: selectNode :: spaceNode :: starNode :: spaceNode :: fromNode :: spaceNode ::
      [nameNode table.name.text]) := by
    rw [← hcolumns, ← hbody]
    rfl
  have hwords : ∀ node ∈ [nameNode table.name.text, enclosed [table.columnList], spaceNode, asNode,
      spaceNode, table.body], node.isWord "WHERE" = false ∧ node.isWord "CASE" = false := by
    intro node hnode
    simp only [List.mem_cons, List.not_mem_nil, or_false] at hnode
    rcases hnode with rfl | rfl | rfl | rfl | rfl | rfl
    exacts [⟨rfl, rfl⟩, ⟨rfl, rfl⟩, ⟨rfl, rfl⟩, words_asNode, ⟨rfl, rfl⟩, ⟨rfl, rfl⟩]
  have hentry := @groupLevel_append_filler [] (by simp) _ _ (fun node hnode => (hwords node hnode).2)
    (groupUncommented_callAs table.name.text false _ _) rfl (Or.inr (by simp))
  rw [List.append_nil] at hentry
  rw [groupAll, hinside, groupRun_with table.name.text hwords, hentry]
  rfl

end Declaration

end QueryLineage
