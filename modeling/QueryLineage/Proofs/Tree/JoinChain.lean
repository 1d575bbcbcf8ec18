import QueryLineage.Proofs.Tree.Expression

/-!
# Chains of joins

A table to which others are joined one after the other, each under comparisons of names with
connectives between them. The text of such a query, the nodes that it is read as and what they are
grouped to are given join by join.
-/

namespace QueryLineage

open Node Pattern

structure Comparison where
  left : DottedName
  operator : Operator
  right : DottedName

namespace Comparison

variable (comparison : Comparison)

def text : String :=
  comparison.left.text ++ " " ++ comparison.operator.text ++ " " ++ comparison.right.text

def nodes : List Node :=
  dotted comparison.left ++ spaceNode :: operatorNode comparison.operator :: spaceNode ::
    dotted comparison.right

def grouped : Node :=
  group .comparison [identifierNode comparison.left, spaceNode, operatorNode comparison.operator,
    spaceNode, identifierNode comparison.right]

/-- The left side under the condition of the right side. -/
def toAttribute : Attribute where
  name := comparison.left.text
  condition? := some (comparison.operator.text ++ " " ++ comparison.right.text)

end Comparison

/-- A comparison with the connective before it. -/
structure Link where
  connective : Connective
  comparison : Comparison

namespace Link

def text (link : Link) : String :=
  link.connective.word ++ " " ++ link.comparison.text

end Link

/-- A table that is joined under one or more comparisons. -/
structure Join where
  words : List String
  isJoin : words ∈ joinPhrases
  source : PlainName
  first : Comparison
  others : List Link

namespace Join

variable (join : Join)

def word : String := " ".intercalate join.words

def condition : String :=
  join.first.text ++ String.join (join.others.map fun link => " " ++ link.text)

def text : String :=
  join.word ++ " " ++ join.source.text ++ " ON " ++ join.condition

def attributes : List Attribute :=
  join.first.toAttribute :: join.others.map fun link => link.comparison.toAttribute

def nodes : List Node :=
  spaceNode :: nameNode join.source.text :: spaceNode :: onNode :: spaceNode ::
    (join.first.nodes ++ join.others.flatMap fun link =>
      spaceNode :: wordNode link.connective.word :: spaceNode :: link.comparison.nodes)

/-- What stands behind the form of `JOIN` once it is grouped. -/
def grouped : List Node :=
  spaceNode :: group .identifier [nameNode join.source.text] :: spaceNode :: onNode :: spaceNode ::
    join.first.grouped :: join.others.flatMap fun link =>
      [spaceNode, wordNode link.connective.word, spaceNode, link.comparison.grouped]

end Join

/-- The query that joins the tables one after the other. -/
def joinChain (source : PlainName) (joins : List Join) : String :=
  "SELECT * FROM " ++ source.text ++ String.join (joins.map fun join => " " ++ join.text)

namespace Node

theorem written_comparison (comparison : Comparison) :
    Written comparison.text comparison.nodes := by
  have h := ((written_dotted comparison.left).spaced (written_operator comparison.operator)).spaced
    (written_dotted comparison.right)
  simpa [Comparison.text, Comparison.nodes] using h

theorem written_link (link : Link) : Written link.text
    (wordNode link.connective.word :: spaceNode :: link.comparison.nodes) :=
  (Expression.written_connective link.connective).spaced (written_comparison link.comparison)

theorem written_join (join : Join) : Written join.text (wordNode join.word :: join.nodes) := by
  have hon : Written "ON" [onNode] := @written_keyword ⟨.keyword .generic, "ON"⟩ (by decide)
  have hword : Written join.word [wordNode join.word] :=
    written_phrase (List.mem_append_right _ join.isJoin)
  have hcondition := (written_comparison join.first).spacedAll written_link join.others
  have htext : " ON " = " " ++ "ON" ++ " " := by decide
  rw [Join.text, htext, ← String.append_assoc, ← String.append_assoc]
  simpa [Join.nodes, Join.condition] using
    ((hword.spaced (written_name join.source)).spaced hon).spaced hcondition

theorem written_joinChain (source : PlainName) (joins : List Join) :
    Written (joinChain source joins)
      (selectNode :: spaceNode :: starNode :: spaceNode :: fromNode :: spaceNode ::
        nameNode source.text :: joins.flatMap fun join =>
          spaceNode :: wordNode join.word :: join.nodes) :=
  (written_selectStarFrom source).spacedAll written_join joins

/-- A row in which every part but the first stands behind a barrier is grouped part by part. -/
theorem groupLevel_append_flatMap {α : Type} {barrier : α → Node} {row grouped : α → List Node}
    (hbarrier : ∀ item, (barrier item).Barrier) (hcomma : ∀ item, (barrier item).isMark "," = false)
    (hcases : ∀ item, ∀ node ∈ row item, node.isWord "CASE" = false)
    (hrow : ∀ item, groupLevel (row item) = grouped item) (items : List α) {siblings : List Node}
    (h : ∀ node ∈ siblings, node.isWord "CASE" = false) :
    groupLevel (siblings ++ items.flatMap fun item => spaceNode :: barrier item :: row item) =
      groupLevel siblings ++ items.flatMap fun item =>
        spaceNode :: barrier item :: grouped item := by
  induction items generalizing siblings with
  | nil => rw [List.flatMap_nil, List.flatMap_nil, List.append_nil, List.append_nil]
  | cons item items ih =>
    rw [List.flatMap_cons, List.flatMap_cons, List.cons_append, List.cons_append,
      (hbarrier item).groupLevel_append (hcomma item) h, ih (hcases item), hrow]
    rfl

theorem simple_of_mem_comparison {comparison : Comparison} {node : Node}
    (h : node ∈ comparison.nodes) : node.Simple := by
  rcases List.mem_append.1 h with h | h
  · exact simple_of_mem_dotted h
  · simp only [List.mem_cons] at h
    rcases h with rfl | rfl | rfl | h
    · exact simple_spaceNode
    · exact ⟨⟨rfl, rfl, rfl, rfl⟩, rfl⟩
    · exact simple_spaceNode
    · exact simple_of_mem_dotted h

theorem simple_of_mem_comparisons {first : Comparison} {others : List Link} {node : Node}
    (h : node ∈ first.nodes ++ others.flatMap fun link =>
      spaceNode :: wordNode link.connective.word :: spaceNode :: link.comparison.nodes) :
    node.Simple := by
  rcases List.mem_append.1 h with h | h
  · exact simple_of_mem_comparison h
  · obtain ⟨link, -, h⟩ := List.mem_flatMap.1 h
    simp only [List.mem_cons] at h
    rcases h with rfl | rfl | rfl | h
    · exact simple_spaceNode
    · exact simple_wordNode (mem_operandWords _)
    · exact simple_spaceNode
    · exact simple_of_mem_comparison h

theorem barrier_of_joinWord {word : String} (h : word ∈ "ON" :: joinPhrases.map (" ".intercalate ·)) :
    (wordNode word).Barrier ∧ (wordNode word).Simple := by
  have hwords : ∀ word ∈ "ON" :: joinPhrases.map (" ".intercalate ·),
      (wordNode word).isWord "WHERE" = false ∧ (wordNode word).isWord "CASE" = false ∧
        (wordNode word).isWordIn ["OVER", "AS", "ASC", "DESC"] = false ∧
        (wordNode word).endsWhere = false := by decide +kernel
  obtain ⟨hwhere, hcase, hword, hends⟩ := hwords word h
  exact ⟨⟨⟨rfl, rfl, hwhere, hcase⟩, rfl, rfl, rfl, hword⟩, ⟨hwhere, hcase, hends, rfl⟩, rfl⟩

theorem mem_joinWords (join : Join) : join.word ∈ "ON" :: joinPhrases.map (" ".intercalate ·) :=
  List.mem_cons_of_mem _ (List.mem_map_of_mem join.isJoin)

theorem simple_of_mem_join {join : Join} {node : Node} (h : node ∈ join.nodes) : node.Simple := by
  simp only [Join.nodes, List.mem_cons] at h
  rcases h with rfl | rfl | rfl | rfl | rfl | h
  · exact simple_spaceNode
  · exact ⟨⟨rfl, rfl, rfl, rfl⟩, rfl⟩
  · exact simple_spaceNode
  · exact (barrier_of_joinWord List.mem_cons_self).2
  · exact simple_spaceNode
  · exact simple_of_mem_comparisons h

theorem groupLevel_comparisons (first : Comparison) (others : List Link) :
    groupLevel (first.nodes ++ others.flatMap fun link =>
        spaceNode :: wordNode link.connective.word :: spaceNode :: link.comparison.nodes) =
      first.grouped :: others.flatMap fun link =>
        [spaceNode, wordNode link.connective.word, spaceNode, link.comparison.grouped] := by
  have hcomparison : ∀ comparison : Comparison,
      groupLevel comparison.nodes = [comparison.grouped] := fun comparison =>
    groupLevel_of_groupItems (fun node hnode => (simple_of_mem_comparison hnode).noCase)
      (groupItems_compareName comparison.left comparison.operator comparison.right)
  have hlinks := groupLevel_append_flatMap
    (fun link : Link => barrier_wordNode (mem_operandWords link.connective)) (fun _ => rfl)
    (fun link node hnode => (List.mem_cons.1 hnode).elim (fun heq => heq ▸ rfl)
      fun hmem => (simple_of_mem_comparison hmem).noCase)
    (fun link => (inert_spaceNode.groupLevel_cons link.comparison.nodes).trans
      (congrArg _ (hcomparison link.comparison)))
    others fun node (hnode : node ∈ first.nodes) => (simple_of_mem_comparison hnode).noCase
  rwa [hcomparison] at hlinks

theorem groupLevel_join (join : Join) : groupLevel join.nodes = join.grouped := by
  have hname : ∀ node ∈ [nameNode join.source.text], node.isWord "CASE" = false := by
    intro node hnode
    obtain rfl := List.mem_singleton.1 hnode
    rfl
  have hon := (barrier_of_joinWord List.mem_cons_self).1.groupLevel_append rfl hname
    (spaceNode :: (join.first.nodes ++ join.others.flatMap fun link =>
      spaceNode :: wordNode link.connective.word :: spaceNode :: link.comparison.nodes))
  rw [groupLevel_nameNode, inert_spaceNode.groupLevel_cons, groupLevel_comparisons] at hon
  rw [Join.nodes, inert_spaceNode.groupLevel_cons]
  exact congrArg _ hon

/-- The joins of a chain are grouped one by one. -/
theorem groupAll_joinChain (source : PlainName) (joins : List Join) :
    groupAll (selectNode :: spaceNode :: starNode :: spaceNode :: fromNode :: spaceNode ::
        nameNode source.text :: joins.flatMap fun join =>
          spaceNode :: wordNode join.word :: join.nodes) =
      selectNode :: spaceNode :: starNode :: spaceNode :: fromNode :: spaceNode ::
        group .identifier [nameNode source.text] :: joins.flatMap fun join =>
          spaceNode :: wordNode join.word :: join.grouped := by
  have hsimple : ∀ node ∈ [nameNode source.text] ++ joins.flatMap fun join =>
      spaceNode :: wordNode join.word :: join.nodes, node.Simple := by
    intro node hnode
    rcases List.mem_cons.1 hnode with rfl | hnode
    · exact ⟨⟨rfl, rfl, rfl, rfl⟩, rfl⟩
    · obtain ⟨join, -, hnode⟩ := List.mem_flatMap.1 hnode
      simp only [List.mem_cons] at hnode
      rcases hnode with rfl | rfl | hnode
      · exact simple_spaceNode
      · exact (barrier_of_joinWord (mem_joinWords join)).2
      · exact simple_of_mem_join hnode
  have hinside : groupInsideAll (nameNode source.text :: joins.flatMap fun join =>
      spaceNode :: wordNode join.word :: join.nodes) =
        [nameNode source.text] ++ joins.flatMap fun join =>
          spaceNode :: wordNode join.word :: join.nodes := groupInsideAll_eq_self hsimple
  have hname : ∀ node ∈ [nameNode source.text], node.isWord "CASE" = false :=
    fun node hnode => (hsimple node (List.mem_append_left _ hnode)).noCase
  have hjoins := groupLevel_append_flatMap
    (fun join : Join => (barrier_of_joinWord (mem_joinWords join)).1) (fun _ => rfl)
    (fun join node hnode => (simple_of_mem_join hnode).noCase) groupLevel_join joins hname
  rw [groupAll]
  change groupRun (selectNode :: spaceNode :: starNode :: spaceNode :: fromNode :: spaceNode ::
    groupInsideAll (nameNode source.text :: joins.flatMap fun join =>
      spaceNode :: wordNode join.word :: join.nodes)) = _
  rw [hinside, groupRun_selectStarFrom, groupRun, groupWheres_of_forall fun node hnode =>
    (hsimple node hnode).noWhere, hjoins, groupLevel_nameNode]
  rfl

end Node

end QueryLineage
