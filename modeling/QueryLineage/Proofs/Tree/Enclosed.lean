import QueryLineage.Proofs.Tree.Inert
import QueryLineage.Proofs.Tree.Nesting

/-!
# Queries inside queries

The tree of a query that stands in another one as its source. What is inside the parentheses is
grouped as it is alone; around it only a few nodes are grouped.
-/

namespace QueryLineage.Node

def selectNode : Node := leaf (.keyword .dml) "SELECT"

def fromNode : Node := leaf (.keyword .generic) "FROM"

def withNode : Node := leaf (.keyword .cte) "WITH"

def asNode : Node := leaf (.keyword .generic) "AS"

def starNode : Node := leaf .wildcard "*"

def spaceNode : Node := leaf .whitespace " "

def nameNode (name : String) : Node := leaf .name name

theorem inert_selectNode : selectNode.Inert where
  item := rfl
  sign := rfl
  noWhere := by decide +kernel
  noCase := by decide +kernel

theorem inert_fromNode : fromNode.Inert where
  item := rfl
  sign := rfl
  noWhere := by decide +kernel
  noCase := by decide +kernel

theorem inert_withNode : withNode.Inert where
  item := rfl
  sign := rfl
  noWhere := by decide +kernel
  noCase := by decide +kernel

theorem inert_spaceNode : spaceNode.Inert := ⟨rfl, rfl, rfl, rfl⟩

/-- A query in parentheses, given by the nodes of the query as they are grouped alone. -/
def enclosed (siblings : List Node) : Node :=
  group .parenthesis (openingMark :: (siblings ++ [closingMark]))

theorem groupInside_parentheses (siblings : List Node) :
    (group .parenthesis (openingMark :: (siblings ++ [closingMark]))).groupInside =
      enclosed (groupAll siblings) := by
  rw [groupInside, groupInsideAll_eq_map, List.map_append, List.map_singleton,
    List.dropLast_concat, List.getLast?_concat, ← groupInsideAll_eq_map]
  rfl

theorem groupWheres_cons {node : Node} (h : node.isWord "WHERE" = false) (siblings : List Node) :
    groupWheres (node :: siblings) = node :: groupWheres siblings := by
  rw [groupWheres, if_neg (by simp [h])]

theorem groupCases_cons {node : Node} (h : node.isWord "CASE" = false) (siblings : List Node) :
    groupCases (node :: siblings) = node :: groupCases siblings := by
  rw [groupCases, if_neg (by simp [h])]

@[simp] theorem groupRun_nil : groupRun [] = [] := by
  simp [groupRun, groupWheres, groupLevel, groupCases, groupExpressions, groupSigns]

theorem listExtent_of_not_comma {node : Node} (hcomma : node.isMark "," = false)
    (hfiller : node.isFiller .all = false) (item : Node) (siblings : List Node) :
    listExtent item (spaceNode :: node :: siblings) = none := by
  have hreach : reach .all (·.isMark ",") (spaceNode :: node :: siblings) = none := by
    have hspace : spaceNode.isFiller .all = true := rfl
    simp only [reach, hspace, if_true, hfiller, hcomma]
    rfl
  have htail : listTail (spaceNode :: node :: siblings) = 0 := by
    simp [listTail, reaches, hreach]
  simp [listExtent, htail]

theorem groupRun_star {node : Node} (hnode : node.Inert) (hcomma : node.isMark "," = false)
    (hfiller : node.isFiller .all = false) (siblings : List Node) :
    groupRun (starNode :: spaceNode :: node :: siblings) =
      starNode :: spaceNode :: node :: groupRun siblings := by
  rw [groupRun, groupWheres_cons rfl, groupWheres_cons rfl, groupWheres_cons hnode.noWhere, groupLevel,
    groupCases_cons rfl, groupCases_cons rfl, groupCases_cons hnode.noCase, groupExpressions_eq,
    groupItems_cons rfl rfl rfl, inert_spaceNode.groupItems_cons, hnode.groupItems_cons,
    joinOnce_cons_of_none (listExtent_of_not_comma hcomma hfiller _ _),
    joinOnce_cons_of_none (listExtent_of_not_item inert_spaceNode.item _),
    joinOnce_cons_of_none (listExtent_of_not_item hnode.item _)]
  rfl

theorem groupRun_selectStarFrom (siblings : List Node) :
    groupRun (selectNode :: spaceNode :: starNode :: spaceNode :: fromNode :: spaceNode ::
        siblings) =
      selectNode :: spaceNode :: starNode :: spaceNode :: fromNode :: spaceNode ::
        groupRun siblings := by
  rw [inert_selectNode.groupRun_cons, inert_spaceNode.groupRun_cons,
    groupRun_star inert_fromNode rfl rfl, inert_spaceNode.groupRun_cons]

@[simp] theorem groupSigns_nil (preceded : Bool) : groupSigns preceded [] = [] := by
  simp [groupSigns]

theorem listExtent_nil (node : Node) : listExtent node [] = none := by
  simp [listExtent, listTail]

theorem groupRun_name (name : String) :
    groupRun [nameNode name] = [group .identifier [nameNode name]] := by
  rw [groupRun, groupWheres_cons rfl, groupWheres, groupLevel, groupCases_cons rfl, groupCases]
  unfold groupExpressions
  simp only
  -- only the pass for identifiers applies
  rw [joinOnce_cons_of_none (by rfl), joinOnce_nil, joinOnce_cons_of_some (n := 0) (by rfl),
    List.drop_nil, joinOnce_nil, groupSigns_cons rfl, groupSigns_nil,
    joinRepeatedly_cons_of_none (by rfl), joinRepeatedly_nil,
    joinOnce_cons_of_none (by rfl), joinOnce_nil,
    joinRepeatedly_cons_of_none (by rfl), joinRepeatedly_nil,
    joinOnce_cons_of_none (by rfl), joinOnce_nil, joinOnce_cons_of_none (by rfl), joinOnce_nil,
    joinRepeatedly_cons_of_none (by rfl), joinRepeatedly_nil,
    joinOnce_cons_of_none (listExtent_nil _), joinOnce_nil]
  rfl

/-- Parentheses with a name behind them are an identifier, whose alias is the name. -/
theorem groupRun_parenthesesName (children : List Node) (name : String) :
    groupRun [group .parenthesis children, spaceNode, nameNode name] =
      [group .identifier
        [group .parenthesis children, spaceNode, group .identifier [nameNode name]]] := by
  have hcalls : joinOnce callExtent (enclose .function)
      [group .parenthesis children, spaceNode, nameNode name] =
        [group .parenthesis children, spaceNode, nameNode name] := by
    rw [joinOnce_cons_of_none rfl, joinOnce_cons_of_none rfl, joinOnce_cons_of_none rfl,
      joinOnce_nil]
  have hidentifiers : joinOnce identifierExtent (enclose .identifier)
      [group .parenthesis children, spaceNode, nameNode name] =
        [group .parenthesis children, spaceNode, group .identifier [nameNode name]] := by
    rw [joinOnce_cons_of_none rfl, joinOnce_cons_of_none rfl, joinOnce_cons_of_some (n := 0) rfl,
      List.drop_nil, joinOnce_nil]
    rfl
  have hoperations : joinRepeatedly operationExtent (enclose .operation)
      [group .parenthesis children, spaceNode, group .identifier [nameNode name]] =
        [group .parenthesis children, spaceNode, group .identifier [nameNode name]] := by
    rw [joinRepeatedly_cons_of_none rfl, joinRepeatedly_cons_of_none rfl,
      joinRepeatedly_cons_of_none rfl, joinRepeatedly_nil]
  have hcomparisons : joinOnce comparisonExtent (enclose .comparison)
      [group .parenthesis children, spaceNode, group .identifier [nameNode name]] =
        [group .parenthesis children, spaceNode, group .identifier [nameNode name]] := by
    rw [joinOnce_cons_of_none rfl, joinOnce_cons_of_none rfl, joinOnce_cons_of_none rfl,
      joinOnce_nil]
  have hnames : joinRepeatedly asExtent (enclose .identifier)
      [group .parenthesis children, spaceNode, group .identifier [nameNode name]] =
        [group .parenthesis children, spaceNode, group .identifier [nameNode name]] := by
    rw [joinRepeatedly_cons_of_none rfl, joinRepeatedly_cons_of_none rfl,
      joinRepeatedly_cons_of_none rfl, joinRepeatedly_nil]
  have haliases : joinOnce aliasExtent (enclose .identifier)
      [group .parenthesis children, spaceNode, group .identifier [nameNode name]] =
        [group .identifier
          [group .parenthesis children, spaceNode, group .identifier [nameNode name]]] := by
    rw [joinOnce_cons_of_some (n := 2) rfl, List.drop_succ_cons, List.drop_succ_cons,
      List.drop_nil, joinOnce_nil]
    rfl
  rw [groupRun, groupWheres_cons rfl, groupWheres_cons rfl, groupWheres_cons rfl, groupWheres,
    groupLevel, groupCases_cons rfl, groupCases_cons rfl, groupCases_cons rfl, groupCases]
  unfold groupExpressions
  simp only
  rw [hcalls, hidentifiers, groupSigns_cons rfl, groupSigns_cons rfl, groupSigns_cons rfl,
    groupSigns_nil, hoperations, hcomparisons, hnames, haliases, joinOnce_cons_of_none rfl,
    joinOnce_nil, joinRepeatedly_cons_of_none rfl, joinRepeatedly_nil,
    joinOnce_cons_of_none (listExtent_nil _), joinOnce_nil]

theorem groupAll_asSource (inner : List Node) (name : String) :
    groupAll (selectNode :: spaceNode :: starNode :: spaceNode :: fromNode :: spaceNode ::
        [group .parenthesis (openingMark :: (inner ++ [closingMark])), spaceNode, nameNode name]) =
      selectNode :: spaceNode :: starNode :: spaceNode :: fromNode :: spaceNode ::
        [group .identifier
          [enclosed (groupAll inner), spaceNode, group .identifier [nameNode name]]] := by
  have hinside : groupInsideAll (selectNode :: spaceNode :: starNode :: spaceNode :: fromNode ::
      spaceNode :: [group .parenthesis (openingMark :: (inner ++ [closingMark])), spaceNode,
        nameNode name]) = selectNode :: spaceNode :: starNode :: spaceNode :: fromNode ::
      spaceNode :: [enclosed (groupAll inner), spaceNode, nameNode name] := by
    rw [groupInsideAll_eq_map, ← groupInside_parentheses]
    rfl
  rw [groupAll, hinside, groupRun_selectStarFrom, enclosed, groupRun_parenthesesName]

end QueryLineage.Node
