import QueryLineage.Proofs.Tree.Expression

/-!
# Lists

Rows with commas between them are grouped row by row, and what they become is put into one list. A
single row becomes no list, so whatever reads the items of a list also reads a node by itself.
-/

namespace QueryLineage.Node

/-- Items behind others, each behind a comma. -/
def behindCommas (items : List Node) : List Node :=
  items.flatMap fun item => [commaNode, spaceNode, item]

/-- What items with commas between them are grouped to. -/
def listed (first : Node) (others : List Node) : Node :=
  if others.isEmpty then first else group .identifierList (first :: behindCommas others)

theorem barrier_commaNode : commaNode.Barrier :=
  ⟨⟨rfl, rfl, rfl, rfl⟩, rfl, rfl, rfl, rfl⟩

/-- What is read as one part of a clause: an item, or a list of items. -/
def IsPart (node : Node) : Prop :=
  node.isItem = true ∨ node.kind = .identifierList

theorem isPart_listed {first : Node} (h : first.isItem = true) (others : List Node) :
    (listed first others).IsPart := by
  unfold listed
  split
  · exact Or.inl h
  · exact Or.inr rfl

namespace IsPart

variable {node : Node} (h : node.IsPart)
include h

theorem kind_ne {kind : Kind} (hitem : kind.isOperand = false)
    (hother : kind ∉ [.wildcard, .comparison, .identifierList]) : node.kind ≠ kind := by
  rintro rfl
  rcases h with h | h
  · simp_all [isItem, isOperand, isKind]
  · simp_all

theorem isKeyword : node.isKeyword = false := by
  rw [← Bool.not_eq_true]
  intro hkeyword
  rw [Node.isKeyword] at hkeyword
  refine h.kind_ne (Kind.not_isOperand_of_isKeyword hkeyword) ?_ rfl
  simp only [List.mem_cons, List.not_mem_nil, or_false]
  rintro (heq | heq | heq) <;> rw [heq] at hkeyword <;> cases hkeyword

theorem isWhitespace : node.isWhitespace = false :=
  beq_eq_false_iff_ne.2 (h.kind_ne rfl (by decide))

theorem isComment : node.isComment = false :=
  beq_eq_false_iff_ne.2 (h.kind_ne rfl (by decide))

theorem isPunctuation : node.isPunctuation = false :=
  beq_eq_false_iff_ne.2 (h.kind_ne rfl (by decide))

theorem kind_ne_whereClause : node.kind ≠ .whereClause :=
  h.kind_ne rfl (by decide)

theorem significant : (!node.isFiller .all && !node.isPunctuation) = true := by
  rw [isFiller_all, h.isWhitespace, h.isComment, h.isPunctuation]
  rfl

end IsPart

section

variable {α : Type} {row : α → List Node} {grouped : α → Node}

/-- What no list goes on with yet is grouped row by row. -/
theorem groupItems_separated (h : ∀ item, groupItems (row item) = [grouped item]) (first : α)
    (others : List α) :
    groupItems (separated ((first :: others).map row)) =
      grouped first :: behindCommas (others.map grouped) := by
  induction others generalizing first with
  | nil => exact h first
  | cons second others ih =>
    rw [List.map_cons, List.map_cons, separated,
      (Bounded.mark barrier_commaNode.toDivider rfl rfl _).groupItems_append, h,
      barrier_commaNode.toInert.groupItems_cons, inert_spaceNode.groupItems_cons, ← List.map_cons, ih]
    rfl

theorem listTail_behindCommas {items : List Node}
    (h : ∀ item ∈ items, item.isItem = true ∧ item.isFiller .all = false) :
    listTail (behindCommas items) = (behindCommas items).length := by
  induction items with
  | nil => rw [behindCommas, List.flatMap_nil, listTail]; rfl
  | cons item items ih =>
    obtain ⟨hitem, hfiller⟩ := h item List.mem_cons_self
    have hreaches : ∀ rest, reaches .all [(isMark · ","), isItem]
        (commaNode :: spaceNode :: item :: rest) = some 3 := by
      intro rest
      have hcomma : reach .all (isMark · ",") (commaNode :: spaceNode :: item :: rest) = some 1 := rfl
      have hnext : reach .all isItem (spaceNode :: item :: rest) = some 2 := by
        have hspace : spaceNode.isFiller .all = true := rfl
        rw [reach, if_pos hspace, reach, if_neg (by simp [hfiller]), if_pos hitem]
        rfl
      rw [reaches, hcomma]
      simp only [bind, Option.bind_some, List.drop_succ_cons, List.drop_zero, reaches, hnext]
      rfl
    have hcons : behindCommas (item :: items) =
        commaNode :: spaceNode :: item :: behindCommas items := rfl
    rw [hcons, listTail, hreaches]
    simp only [List.drop_succ_cons, List.drop_zero, List.length_cons]
    rw [ih fun other hother => h other (List.mem_cons_of_mem _ hother)]
    omega

theorem joinOnce_listExtent {first : Node} {others : List Node}
    (h : ∀ item ∈ first :: others, item.isItem = true ∧ item.isFiller .all = false) :
    joinOnce listExtent (enclose .identifierList) (first :: behindCommas others) =
      [listed first others] := by
  have htail := listTail_behindCommas fun item hitem => h item (List.mem_cons_of_mem _ hitem)
  cases others with
  | nil => exact joinOnce_singleton (listExtent_nil first)
  | cons second others =>
    have hextent : listExtent first (behindCommas (second :: others)) =
        some (behindCommas (second :: others)).length := by
      rw [listExtent, htail, (h first List.mem_cons_self).1]
      rfl
    rw [joinOnce_cons_of_some hextent, List.take_length, List.drop_length, joinOnce_nil]
    rfl

theorem forall_mem_separated {P : Node → Prop} (hcomma : P commaNode) (hspace : P spaceNode)
    {rows : List (List Node)} (h : ∀ row ∈ rows, ∀ node ∈ row, P node) :
    ∀ node ∈ separated rows, P node := by
  fun_induction separated rows with
  | case1 => simp
  | case2 row => exact h row List.mem_cons_self
  | case3 row next rows ih =>
    intro node hnode
    rcases List.mem_append.1 hnode with hnode | hnode
    · exact h row List.mem_cons_self node hnode
    · rcases List.mem_cons.1 hnode with rfl | hnode
      · exact hcomma
      · rcases List.mem_cons.1 hnode with rfl | hnode
        · exact hspace
        · exact ih (fun other hother => h other (List.mem_cons_of_mem _ hother)) node hnode

theorem simple_commaNode : commaNode.Simple :=
  ⟨⟨rfl, rfl, by decide +kernel, rfl⟩, rfl⟩

theorem simple_of_mem_separated (hrow : ∀ item, ∀ node ∈ row item, node.Simple) (items : List α) :
    ∀ node ∈ separated (items.map row), node.Simple := by
  refine forall_mem_separated simple_commaNode simple_spaceNode fun other hother => ?_
  obtain ⟨item, -, rfl⟩ := List.mem_map.1 hother
  exact hrow item

/-- Rows with commas between them become one list. -/
theorem groupLevel_separated (h : ∀ item, groupItems (row item) = [grouped item])
    (hrow : ∀ item, ∀ node ∈ row item, node.Simple)
    (hitem : ∀ item, (grouped item).isItem = true ∧ (grouped item).isFiller .all = false)
    (first : α) (others : List α) :
    groupLevel (separated ((first :: others).map row)) =
      [listed (grouped first) (others.map grouped)] := by
  rw [groupLevel_eq fun node hnode => (simple_of_mem_separated hrow _ node hnode).noCase,
    groupExpressions_eq, groupItems_separated h, joinOnce_listExtent]
  intro node hnode
  rw [← List.map_cons] at hnode
  obtain ⟨item, -, rfl⟩ := List.mem_map.1 hnode
  exact hitem item

end

theorem isDml_listed {first : Node} {others : List Node} (h : first.isDml = false) :
    (listed first others).isDml = false := by
  unfold listed
  split
  · exact h
  · rfl

theorem barrier_fromNode : fromNode.Barrier :=
  ⟨inert_fromNode, rfl, rfl, rfl, by decide +kernel⟩

theorem barrier_selectNode : selectNode.Barrier :=
  ⟨inert_selectNode, rfl, rfl, rfl, by decide +kernel⟩

theorem simple_nameNode (name : PlainName) : (nameNode name.text).Simple :=
  ⟨⟨rfl, rfl, rfl, rfl⟩, rfl⟩

theorem simple_of_mem_names (names : List PlainName) :
    ∀ node ∈ separated (names.map fun name => [nameNode name.text]), node.Simple := by
  refine simple_of_mem_separated (fun name node hnode => ?_) names
  obtain rfl := List.mem_singleton.1 hnode
  exact simple_nameNode name

/-- A list of names once it is grouped. -/
def nameList (first : PlainName) (others : List PlainName) : Node :=
  listed (group .identifier [nameNode first.text])
    (others.map fun name => group .identifier [nameNode name.text])

theorem groupAll_names (first : PlainName) (others : List PlainName) :
    groupAll (separated ((first :: others).map fun name => [nameNode name.text])) =
      [nameList first others] := by
  have hsimple := simple_of_mem_names (first :: others)
  rw [groupAll, groupInsideAll_eq_self hsimple, groupRun, groupWheres_of_forall fun node hnode =>
    (hsimple node hnode).noWhere]
  refine groupLevel_separated (fun name => groupItems_dotted ⟨name, []⟩) (fun name node hnode => ?_)
    (fun _ => ⟨rfl, rfl⟩) first others
  obtain rfl := List.mem_singleton.1 hnode
  exact simple_nameNode name

/-- The nodes of a query with the given select list and sources. -/
def selectFrom (items sources : List Node) : List Node :=
  selectNode :: spaceNode :: (items ++ spaceNode :: fromNode :: spaceNode :: sources)

theorem written_selectFrom {items sources : String} {nodes others : List Node}
    (hitems : Written items nodes) (hsources : Written sources others) :
    Written ("SELECT " ++ items ++ " FROM " ++ sources) (selectFrom nodes others) := by
  have hselect : Written "SELECT" [selectNode] := @written_keyword ⟨.keyword .dml, "SELECT"⟩ (by decide)
  have hfrom : Written "FROM" [fromNode] := @written_keyword ⟨.keyword .generic, "FROM"⟩ (by decide)
  have hfirst : "SELECT " = "SELECT" ++ " " := by decide
  have hmiddle : " FROM " = " " ++ "FROM" ++ " " := by decide
  rw [hfirst, hmiddle, ← String.append_assoc, ← String.append_assoc]
  simpa [selectFrom] using ((hselect.spaced hitems).spaced hfrom).spaced hsources

/-- A select list ends before the `FROM`. -/
theorem groupLevel_selectFrom {items : List Node}
    (hcases : ∀ node ∈ items, node.isWord "CASE" = false) (sources : List Node) :
    groupLevel (selectFrom items sources) = selectFrom (groupLevel items) (groupLevel sources) := by
  rw [selectFrom, inert_selectNode.groupLevel_cons, inert_spaceNode.groupLevel_cons,
    barrier_fromNode.groupLevel_append rfl hcases, inert_spaceNode.groupLevel_cons, selectFrom]

theorem groupAll_selectFrom {items sources : List Node} (hitems : ∀ node ∈ items, node.Simple)
    (hsources : ∀ node ∈ sources, node.Simple) :
    groupAll (selectFrom items sources) = selectFrom (groupLevel items) (groupLevel sources) := by
  have hfrom : fromNode.Simple := by
    refine ⟨⟨?_, ?_, ?_, ?_⟩, rfl⟩ <;> decide +kernel
  have hsimple : ∀ node ∈ items ++ spaceNode :: fromNode :: spaceNode :: sources, node.Simple := by
    intro node hnode
    simp only [List.mem_append, List.mem_cons] at hnode
    rcases hnode with hnode | rfl | rfl | rfl | hnode
    exacts [hitems node hnode, simple_spaceNode, hfrom, simple_spaceNode, hsources node hnode]
  have hinside : groupInsideAll (selectFrom items sources) = selectFrom items sources := by
    change selectNode :: spaceNode :: groupInsideAll _ = _
    rw [groupInsideAll_eq_self hsimple]
    rfl
  have hwheres : groupWheres (selectFrom items sources) = selectFrom items sources := by
    rw [selectFrom, groupWheres_cons inert_selectNode.noWhere, groupWheres_cons inert_spaceNode.noWhere,
      groupWheres_of_forall fun node hnode => (hsimple node hnode).noWhere]
  rw [groupAll, hinside, groupRun, hwheres,
    groupLevel_selectFrom fun node hnode => (hitems node hnode).noCase]

theorem takesAlias_identifierNode (name : DottedName) : (identifierNode name).takesAlias = true := by
  have hblank : (dotted name).any isWhitespace = false := by
    rw [List.any_eq_false]
    intro node hnode
    rcases List.mem_cons.1 hnode with rfl | hnode
    · exact Bool.false_ne_true
    · obtain ⟨part, -, hpart⟩ := List.mem_flatMap.1 hnode
      simp only [List.mem_cons, List.not_mem_nil, or_false] at hpart
      rcases hpart with rfl | rfl <;> exact Bool.false_ne_true
  exact (congrArg not hblank).trans rfl

end QueryLineage.Node

namespace QueryLineage

open Node

/-- A column of a select list: a name, perhaps with an alias behind it or behind `AS`. -/
inductive SelectItem where
  | bare (name : DottedName)
  | aliased (name : DottedName) (behindAs : Bool) (other : PlainName)

namespace SelectItem

def name : SelectItem → DottedName
  | bare name => name
  | aliased name _ _ => name

def text : SelectItem → String
  | bare name => name.text
  | aliased name true other => name.text ++ " AS " ++ other.text
  | aliased name false other => name.text ++ " " ++ other.text

def nodes : SelectItem → List Node
  | bare name => dotted name
  | aliased name true other =>
    dotted name ++ [spaceNode, asNode, spaceNode, nameNode other.text]
  | aliased name false other => dotted name ++ [spaceNode, nameNode other.text]

def grouped : SelectItem → Node
  | bare name => identifierNode name
  | aliased name true other => group .identifier
      [identifierNode name, spaceNode, asNode, spaceNode, group .identifier [nameNode other.text]]
  | aliased name false other => group .identifier
      [identifierNode name, spaceNode, group .identifier [nameNode other.text]]

theorem written : ∀ item : SelectItem, Written item.text item.nodes
  | bare name => written_dotted name
  | aliased name true other => by
    have has : Written "AS" [asNode] := @written_keyword ⟨.keyword .generic, "AS"⟩ (by decide)
    have htext : " AS " = " " ++ "AS" ++ " " := by decide
    rw [text, nodes, htext, ← String.append_assoc, ← String.append_assoc]
    simpa using ((written_dotted name).spaced has).spaced (written_name other)
  | aliased name false other => (written_dotted name).spaced (written_name other)

theorem simple_of_mem_nodes {item : SelectItem} {node : Node} (h : node ∈ item.nodes) :
    node.Simple := by
  have has : asNode.Simple := by
    refine ⟨⟨?_, ?_, ?_, ?_⟩, rfl⟩ <;> decide +kernel
  have hname : ∀ other : PlainName, (nameNode other.text).Simple :=
    fun _ => ⟨⟨rfl, rfl, rfl, rfl⟩, rfl⟩
  rcases item with name | ⟨name, behindAs, other⟩
  · exact simple_of_mem_dotted h
  · cases behindAs with
    | true =>
      rcases List.mem_append.1 h with h | h
      · exact simple_of_mem_dotted h
      · simp only [List.mem_cons, List.not_mem_nil, or_false] at h
        rcases h with rfl | rfl | rfl | rfl
        · exact simple_spaceNode
        · exact has
        · exact simple_spaceNode
        · exact hname other
    | false =>
      rcases List.mem_append.1 h with h | h
      · exact simple_of_mem_dotted h
      · simp only [List.mem_cons, List.not_mem_nil, or_false] at h
        rcases h with rfl | rfl
        · exact simple_spaceNode
        · exact hname other

theorem groupItems_nodes (item : SelectItem) : groupItems item.nodes = [item.grouped] := by
  have hcalls : joinOnce callExtent (enclose .function) item.nodes = item.nodes :=
    joinOnce_callExtent_of_forall fun node hnode => (simple_of_mem_nodes hnode).parenthesis
  rw [groupItems_eq, hcalls]
  rcases item with name | ⟨name, behindAs, other⟩
  · have hjoined := @joinOnce_dotted name [] (by simp)
    rw [List.append_nil, joinOnce_nil] at hjoined
    rw [nodes, hjoined, groupOperands_singleton]
    rfl
  · have hother : joinOnce identifierExtent (enclose .identifier) [nameNode other.text] =
        [group .identifier [nameNode other.text]] := by
      rw [joinOnce_cons_of_some (n := 0) rfl, List.drop_nil, joinOnce_nil]
      rfl
    have hspace : ∀ rest : List Node, ∀ node ∈ (spaceNode :: rest).head?, node.isMark "." = false := by
      rintro rest node ⟨⟩
      rfl
    cases behindAs with
    | true =>
      rw [nodes, joinOnce_dotted name (hspace _),
        joinOnce_cons_of_none (identifierExtent_of_not_operand rfl _),
        joinOnce_cons_of_none (identifierExtent_of_not_operand rfl _),
        joinOnce_cons_of_none (identifierExtent_of_not_operand rfl _), hother,
        groupOperands_as rfl rfl]
      rfl
    | false =>
      rw [nodes, joinOnce_dotted name (hspace _),
        joinOnce_cons_of_none (identifierExtent_of_not_operand rfl _), hother,
        groupOperands_alias (takesAlias_identifierNode name) rfl]
      rfl

theorem kind_grouped (item : SelectItem) : item.grouped.kind = .identifier := by
  rcases item with _ | ⟨_, _ | _, _⟩ <;> rfl

theorem isItem_grouped (item : SelectItem) :
    item.grouped.isItem = true ∧ item.grouped.isFiller .all = false := by
  rcases item with _ | ⟨_, _ | _, _⟩ <;> exact ⟨rfl, rfl⟩

end SelectItem

end QueryLineage
