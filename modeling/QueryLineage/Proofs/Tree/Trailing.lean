import QueryLineage.Proofs.Tree.SelectList

/-!
# Filler behind a row

Blanks and comments behind a row are in no group of it, except that an identifier takes the comment
behind it. The entry of a `WITH` is therefore grouped as it is alone, whether a comment stands
between it and the `SELECT` or not.
-/

namespace QueryLineage.Node

theorem isMark_of_isFiller {node : Node} (h : node.isFiller .all = true) (mark : String) :
    node.isMark mark = false := by
  apply isMark_of_kind_ne
  intro hpunctuation
  rw [isFiller_all, isWhitespace, isComment, hpunctuation] at h
  cases h

/-- All passes over one level before those for comments and lists. -/
def groupUncommented (siblings : List Node) : List Node :=
  groupNamed (joinOnce identifierExtent (enclose .identifier)
    (joinOnce callExtent (enclose .function) siblings))

theorem groupExpressions_eq_uncommented (siblings : List Node) :
    groupExpressions siblings = joinOnce listExtent (enclose .identifierList)
      (joinRepeatedly commentExtent attach (groupUncommented siblings)) := rfl

theorem Trails.groupUncommented_concat {last : Node} (h : last.Trails) (siblings : List Node) :
    groupUncommented (siblings ++ [last]) = groupUncommented siblings ++ [last] := by
  unfold groupUncommented groupNamed
  simp only [joinOnce_concat h.spares_call, joinOnce_concat h.spares_identifier, h.groupSigns_concat,
    joinRepeatedly_concat h.spares_operation, joinOnce_concat h.spares_comparison,
    joinRepeatedly_concat h.spares_as, joinOnce_concat h.spares_alias,
    joinOnce_concat h.spares_direction]

section

variable {filler : List Node} (hfiller : ∀ node ∈ filler, node.isFiller .all = true)
include hfiller

theorem groupUncommented_append (siblings : List Node) :
    groupUncommented (siblings ++ filler) = groupUncommented siblings ++ filler := by
  induction filler generalizing siblings with
  | nil => rw [List.append_nil, List.append_nil]
  | cons node filler ih =>
    have hnode := trails_of_isFiller (hfiller node List.mem_cons_self)
    rw [List.append_cons, ih fun other hother => hfiller other (List.mem_cons_of_mem _ hother),
      hnode.groupUncommented_concat, ← List.append_cons]

theorem joinRepeatedly_commentExtent_filler :
    joinRepeatedly commentExtent attach filler = filler := by
  induction filler with
  | nil => rw [joinRepeatedly_nil]
  | cons node filler ih =>
    have hnode := trails_of_isFiller (hfiller node List.mem_cons_self)
    rw [joinRepeatedly_cons_of_none (commentExtent_of_not_operand hnode.isOperand _),
      ih fun other hother => hfiller other (List.mem_cons_of_mem _ hother)]

/-- What becomes one node leaves the filler behind it alone, if it is no identifier or there is no
comment. -/
theorem groupLevel_append_filler {row : List Node} {node : Node}
    (hcases : ∀ sibling ∈ row, sibling.isWord "CASE" = false) (hrow : groupUncommented row = [node])
    (hcomma : node.isMark "," = false)
    (hnode : node.isKind .identifier = false ∨ ∀ sibling ∈ filler, sibling.isComment = false) :
    groupLevel (row ++ filler) = node :: filler := by
  have hall : ∀ sibling ∈ row ++ filler, sibling.isWord "CASE" = false := by
    intro sibling hsibling
    rcases List.mem_append.1 hsibling with hsibling | hsibling
    · exact hcases sibling hsibling
    · exact (trails_of_isFiller (hfiller sibling hsibling)).isWord "CASE"
  have hcomment : commentExtent node filler = none := by
    rw [commentExtent]
    rcases hnode with hkind | hnone
    · rw [hkind, if_neg Bool.false_ne_true]
    · have hreach : reach .blanks isComment filler = none := by
        clear hfiller hall
        induction filler with
        | nil => rfl
        | cons sibling filler ih =>
          rw [reach, ih fun other hother => hnone other (List.mem_cons_of_mem _ hother),
            hnone sibling List.mem_cons_self]
          simp
      rw [hreach, ite_self]
  have hmarks : ∀ sibling ∈ node :: filler, sibling.isMark "," = false := by
    intro sibling hsibling
    rcases List.mem_cons.1 hsibling with rfl | hsibling
    · exact hcomma
    · exact isMark_of_isFiller (hfiller sibling hsibling) ","
  rw [groupLevel_eq hall, groupExpressions_eq_uncommented, groupUncommented_append hfiller, hrow,
    List.singleton_append, joinRepeatedly_cons_of_none hcomment,
    joinRepeatedly_commentExtent_filler hfiller, joinOnce_listExtent_of_forall hmarks]

end

theorem groupLevel_append_comment {row children : List Node} (text : String)
    (hcases : ∀ sibling ∈ row, sibling.isWord "CASE" = false)
    (hrow : groupUncommented row = [group .identifier children]) :
    groupLevel (row ++ [spaceNode, leaf .comment text]) =
      [group .identifier (children ++ [spaceNode, leaf .comment text])] := by
  have hfiller : ∀ node ∈ [spaceNode, leaf .comment text], node.isFiller .all = true := by
    intro node hnode
    simp only [List.mem_cons, List.not_mem_nil, or_false] at hnode
    rcases hnode with rfl | rfl <;> rfl
  have hall : ∀ sibling ∈ row ++ [spaceNode, leaf .comment text], sibling.isWord "CASE" = false := by
    intro sibling hsibling
    rcases List.mem_append.1 hsibling with hsibling | hsibling
    · exact hcases sibling hsibling
    · exact (trails_of_isFiller (hfiller sibling hsibling)).isWord "CASE"
  have hextent : commentExtent (group .identifier children) [spaceNode, leaf .comment text] =
      some (1 + 1) := rfl
  rw [groupLevel_eq hall, groupExpressions_eq_uncommented, groupUncommented_append hfiller, hrow,
    List.singleton_append, joinRepeatedly_cons_of_some hextent (by simp), List.take_succ_cons,
    List.take_succ_cons, List.take_zero, List.drop_succ_cons, List.drop_succ_cons, List.drop_nil,
    joinRepeatedly_singleton, attach,
    joinOnce_listExtent_of_forall fun node hnode => List.mem_singleton.1 hnode ▸ rfl]

theorem words_asNode : asNode.isWord "WHERE" = false ∧ asNode.isWord "CASE" = false := by
  decide +kernel

def gap (spaced : Bool) : List Node :=
  if spaced then [spaceNode] else []

theorem isFiller_of_mem_gap {spaced : Bool} {node : Node} (h : node ∈ gap spaced) :
    node.isFiller .all = true := by
  cases spaced with
  | false => cases h
  | true =>
    obtain rfl := List.mem_singleton.1 h
    rfl

section

variable (name : String) (spaced : Bool) (children : List Node)

/-- A name and the parentheses behind it are a call, if no window comes behind them. -/
theorem joinOnce_call {rest : List Node} (hrest : windowExtent rest = none) :
    joinOnce callExtent (enclose .function)
        (nameNode name :: (gap spaced ++ group .parenthesis children :: rest)) =
      group .function (nameNode name :: (gap spaced ++ [group .parenthesis children])) ::
        joinOnce callExtent (enclose .function) rest := by
  have hextent : ∀ n, reach .blanks (isKind .parenthesis)
        (gap spaced ++ group .parenthesis children :: rest) = some n →
      (gap spaced ++ group .parenthesis children :: rest).drop n = rest →
        callExtent (nameNode name) (gap spaced ++ group .parenthesis children :: rest) = some n := by
    intro n hreach hdrop
    have hname : (nameNode name).isKind .name = true := rfl
    rw [callExtent, if_pos hname, hreach, Option.map_some, hdrop, hrest]
    rfl
  cases spaced with
  | false => exact joinOnce_cons_of_some (hextent 1 rfl rfl)
  | true => exact joinOnce_cons_of_some (hextent 2 rfl rfl)

theorem groupUncommented_call :
    groupUncommented (nameNode name :: (gap spaced ++ [group .parenthesis children])) =
      [group .function (nameNode name :: (gap spaced ++ [group .parenthesis children]))] := by
  rw [groupUncommented, joinOnce_call name spaced children rfl, joinOnce_nil, joinOnce_singleton rfl,
    groupNamed_singleton]

theorem groupUncommented_nameAs :
    groupUncommented [nameNode name, spaceNode, asNode, spaceNode, group .parenthesis children] =
      [group .identifier [group .identifier [nameNode name], spaceNode, asNode, spaceNode,
        group .parenthesis children]] := by
  have hcalls : joinOnce callExtent (enclose .function)
      [nameNode name, spaceNode, asNode, spaceNode, group .parenthesis children] =
        [nameNode name, spaceNode, asNode, spaceNode, group .parenthesis children] := by
    rw [joinOnce_cons_of_none rfl, joinOnce_cons_of_none rfl, joinOnce_cons_of_none rfl,
      joinOnce_cons_of_none rfl, joinOnce_singleton rfl]
  have hnames : joinOnce identifierExtent (enclose .identifier)
      [nameNode name, spaceNode, asNode, spaceNode, group .parenthesis children] =
        [group .identifier [nameNode name], spaceNode, asNode, spaceNode,
          group .parenthesis children] := by
    rw [joinOnce_cons_of_some (n := 0) rfl, List.drop_zero, joinOnce_cons_of_none rfl,
      joinOnce_cons_of_none rfl, joinOnce_cons_of_none rfl, joinOnce_singleton rfl]
    rfl
  rw [groupUncommented, hcalls, hnames, groupNamed_as rfl rfl]

theorem groupUncommented_callAs (others : List Node) :
    groupUncommented (nameNode name :: (gap spaced ++ [group .parenthesis children, spaceNode, asNode,
        spaceNode, group .parenthesis others])) =
      [group .identifier [group .function (nameNode name ::
        (gap spaced ++ [group .parenthesis children])), spaceNode, asNode, spaceNode,
          group .parenthesis others]] := by
  have hover : asNode.isWord "OVER" = false := by decide +kernel
  have hwindow : windowExtent [spaceNode, asNode, spaceNode, group .parenthesis others] = none := by
    rw [windowExtent, reaches_spaces rfl rfl, hover, Bool.false_and]
    rfl
  have hcalls : joinOnce callExtent (enclose .function)
      [spaceNode, asNode, spaceNode, group .parenthesis others] =
        [spaceNode, asNode, spaceNode, group .parenthesis others] := by
    rw [joinOnce_cons_of_none rfl, joinOnce_cons_of_none rfl, joinOnce_cons_of_none rfl,
      joinOnce_singleton rfl]
  rw [groupUncommented, joinOnce_call name spaced children hwindow, hcalls,
    joinOnce_cons_of_none rfl, joinOnce_cons_of_none rfl, joinOnce_cons_of_none rfl,
    joinOnce_cons_of_none rfl, joinOnce_singleton rfl, groupNamed_as rfl rfl]

end

/-- The row between a `WITH` and the query that reads everything from its common table. -/
theorem groupRun_with {row : List Node} (name : String)
    (hrow : ∀ node ∈ row, node.isWord "WHERE" = false ∧ node.isWord "CASE" = false) :
    groupRun (withNode :: spaceNode :: (row ++ spaceNode :: selectNode :: spaceNode :: starNode ::
        spaceNode :: fromNode :: spaceNode :: [nameNode name])) =
      withNode :: spaceNode :: (groupLevel row ++ spaceNode :: selectNode :: spaceNode :: starNode ::
        spaceNode :: fromNode :: spaceNode :: [group .identifier [nameNode name]]) := by
  have hselect : groupLevel (groupWheres (spaceNode :: starNode :: spaceNode :: fromNode ::
      spaceNode :: [nameNode name])) = spaceNode :: starNode :: spaceNode :: fromNode ::
        spaceNode :: [group .identifier [nameNode name]] := by
    rw [← groupRun, inert_spaceNode.groupRun_cons, groupRun_star inert_fromNode rfl rfl,
      inert_spaceNode.groupRun_cons, groupRun_name]
  rw [inert_withNode.groupRun_cons, inert_spaceNode.groupRun_cons, groupRun,
    groupWheres_append fun node hnode => (hrow node hnode).1,
    groupWheres_cons inert_spaceNode.noWhere, groupWheres_cons inert_selectNode.noWhere,
    barrier_selectNode.groupLevel_append rfl fun node hnode => (hrow node hnode).2, hselect]

/-- The nodes of a query that reads another one as a common table. -/
theorem groupAll_asCommonTable (inner : List Node) (name : String) :
    groupAll (withNode :: spaceNode :: nameNode name :: spaceNode :: asNode :: spaceNode ::
        group .parenthesis (openingMark :: (inner ++ [closingMark])) :: spaceNode :: selectNode ::
        spaceNode :: starNode :: spaceNode :: fromNode :: spaceNode :: [nameNode name]) =
      withNode :: spaceNode ::
        group .identifier [group .identifier [nameNode name], spaceNode, asNode, spaceNode,
          enclosed (groupAll inner)] :: spaceNode :: selectNode :: spaceNode :: starNode ::
        spaceNode :: fromNode :: spaceNode :: [group .identifier [nameNode name]] := by
  have hinside : groupInsideAll (withNode :: spaceNode :: nameNode name :: spaceNode :: asNode ::
      spaceNode :: group .parenthesis (openingMark :: (inner ++ [closingMark])) :: spaceNode ::
      selectNode :: spaceNode :: starNode :: spaceNode :: fromNode :: spaceNode ::
      [nameNode name]) = withNode :: spaceNode :: ([nameNode name, spaceNode, asNode, spaceNode,
      enclosed (groupAll inner)] ++ spaceNode :: selectNode :: spaceNode :: starNode :: spaceNode ::
      fromNode :: spaceNode :: [nameNode name]) := by
    rw [groupInsideAll_eq_map, ← groupInside_parentheses]
    rfl
  have hwords : ∀ node ∈ [nameNode name, spaceNode, asNode, spaceNode, enclosed (groupAll inner)],
      node.isWord "WHERE" = false ∧ node.isWord "CASE" = false := by
    intro node hnode
    simp only [List.mem_cons, List.not_mem_nil, or_false] at hnode
    rcases hnode with rfl | rfl | rfl | rfl | rfl
    exacts [⟨rfl, rfl⟩, ⟨rfl, rfl⟩, words_asNode, ⟨rfl, rfl⟩, ⟨rfl, rfl⟩]
  have hentry := @groupLevel_append_filler [] (by simp) _ _ (fun node hnode => (hwords node hnode).2)
    (groupUncommented_nameAs name _) rfl (Or.inr (by simp))
  rw [List.append_nil] at hentry
  rw [groupAll, hinside, groupRun_with name hwords, hentry]
  rfl

end QueryLineage.Node
