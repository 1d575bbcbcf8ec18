import QueryLineage.Clause.CommonTable
import QueryLineage.Proofs.Clause.Opening

/-!
# Queries around a query

The steps of a query that reads everything from one source, which may be another query in
parentheses or a common table.
-/

namespace QueryLineage

open Text

namespace Step

theorem isSelect_selectNode : Lexeme.isSelect ⟨.keyword .dml, "SELECT"⟩ = true := by
  decide +kernel

theorem ofSiblings_space (parent : Node) (reader : Reader) (siblings : List Node) :
    ofSiblings parent reader (Node.spaceNode :: siblings) =
      ofSiblings parent { reader with text := reader.text ++ " " } siblings := by
  have hadvance : reader.advance Node.spaceNode siblings =
      ([], some ({ reader with text := reader.text ++ " " }, 0)) := rfl
  rw [ofSiblings_cons, hadvance]
  rfl

theorem ofSiblings_star (parent : Node) (comment text : String) (siblings : List Node) :
    ofSiblings parent { clause := .selectList, comment, text } (Node.starNode :: siblings) =
      .read .selectList (.columns [.ofName "*"]) comment (text ++ "*") ::
        ofSiblings parent { comment, text := text ++ "*" } siblings := by
  have hadvance : Reader.advance { clause := .selectList, comment, text } Node.starNode siblings =
      ([.read .selectList (.columns [.ofName "*"]) comment (text ++ "*")],
        some ({ comment, text := text ++ "*" }, 0)) := rfl
  rw [ofSiblings_cons, hadvance]
  rfl

theorem ofSiblings_from (parent : Node) (comment text : String) (siblings : List Node) :
    ofSiblings parent { comment, text } (Node.fromNode :: siblings) =
      ofSiblings parent { clause := .fromList, comment, text := text ++ "FROM" } siblings := by
  have hclause : Reader.clauseAfter? Node.fromNode = some .fromList := by decide +kernel
  exact ofSiblings_clause hclause (by decide) rfl parent siblings

theorem ofSiblings_starFrom (parent : Node) (comment : String) (siblings : List Node) :
    ofSiblings parent { clause := .selectList, comment, text := "SELECT" } (Node.spaceNode ::
        Node.starNode :: Node.spaceNode :: Node.fromNode :: Node.spaceNode :: siblings) =
      .read .selectList (.columns [.ofName "*"]) comment "SELECT *" ::
        ofSiblings parent { clause := .fromList, comment, text := "SELECT * FROM " } siblings := by
  have hfirst : "SELECT" ++ " " ++ "*" = "SELECT *" := by decide
  have hsecond : "SELECT *" ++ " " ++ "FROM" ++ " " = "SELECT * FROM " := by decide
  rw [ofSiblings_space, ofSiblings_star, ofSiblings_space, ofSiblings_from, ofSiblings_space, hfirst,
    hsecond]

theorem ofSiblings_selectStarFrom (parent : Node) (comment text : String) (siblings : List Node) :
    ofSiblings parent { comment, text } (Node.selectNode :: Node.spaceNode :: Node.starNode ::
        Node.spaceNode :: Node.fromNode :: Node.spaceNode :: siblings) =
      .select :: .read .selectList (.columns [.ofName "*"]) comment "SELECT *" ::
        ofSiblings parent { clause := .fromList, comment, text := "SELECT * FROM " } siblings := by
  have hselect : ∀ more, Reader.advance { comment, text } Node.selectNode more =
      ([.select], some ({ clause := .selectList, comment, text := "SELECT" }, 0)) :=
    advance_select isSelect_selectNode comment text
  rw [ofSiblings_cons, hselect, resume, List.drop_zero, List.singleton_append, ofSiblings_starFrom]

theorem ofSiblings_source (parent : Node) (comment text : String) {children : List Node} :
    ofSiblings parent { clause := .fromList, comment, text } [.group .identifier children] =
      [.read .fromList (.sources [(Node.group .identifier children).source]) comment
        (text ++ (Node.group .identifier children).text),
        .finish (text ++ (Node.group .identifier children).text)] := by
  have hadvance : Reader.advance { clause := .fromList, comment, text }
      (.group .identifier children) [] =
      ([.read .fromList (.sources [(Node.group .identifier children).source]) comment
        (text ++ (Node.group .identifier children).text)],
        some ({ comment, text := text ++ (Node.group .identifier children).text }, 0)) := rfl
  rw [ofSiblings_cons, hadvance, resume, List.drop_nil, ofSiblings, if_neg Bool.false_ne_true,
    List.singleton_append]

theorem ofSiblings_read (parent : Node) {node : Node} (hnode : node.Legible) {clause : Clause}
    (hclause : clause ≠ .onCondition) {reading : Reading} (hread : node.read clause = .ok reading)
    (comment text : String) (siblings : List Node) :
    ofSiblings parent { clause, comment, text } (node :: siblings) =
      .read clause reading comment (text ++ node.text) ::
        ofSiblings parent { comment, text := text ++ node.text } siblings := by
  have hother : (clause == .onCondition) = false := beq_eq_false_iff_ne.2 hclause
  rw [ofSiblings_cons, Reader.advance_of_legible hnode fun hboth => hclause hboth.1, hread,
    Reader.take_of_not_keyword hnode.keyword]
  dsimp only [Reader.afterPart]
  rw [hother]
  rfl

theorem ofSiblings_with (parent : Node) (siblings : List Node) :
    ofSiblings parent {} (Node.withNode :: siblings) =
      ofSiblings parent { clause := .withList, text := "WITH" } siblings := by
  have hselect : Node.withNode.isWord "SELECT" = false := by decide +kernel
  have hjoin : Node.withNode.isJoin = false := by decide +kernel
  have horder : Node.withNode.isWordIn ["GROUP BY", "ORDER BY"] = false := by decide +kernel
  have hclause : Reader.clauseAfter? Node.withNode = some .withList := by decide +kernel
  have htake : Reader.take {} Node.withNode = { text := "WITH" } := by
    rw [Reader.take, hselect, hjoin]
    rfl
  rw [ofSiblings_cons, Reader.advance_of_keyword rfl horder, hclause, htake]
  rfl

end Step

namespace Node

theorem nameAndAlias_name (name : String) :
    (group .identifier [nameNode name]).nameAndAlias = (name, none) := by
  have hshown : (group .identifier [nameNode name]).nameAndAlias = ("" ++ name, none) := rfl
  rw [hshown, String.empty_append]

theorem source_name (name : String) :
    (group .identifier [nameNode name]).source = .named name none := by
  have hself : (group .identifier [nameNode name]).subselect? = none := rfl
  rw [source, hself, nameAndAlias_name]

theorem aliasFrom?_name {name : String} (hname : name ≠ "") :
    aliasFrom? [group .identifier [nameNode name]] = some name := by
  have htext : textAll [group .identifier [nameNode name]] = name := by simp [nameNode]
  have htake : [group .identifier [nameNode name]].takeWhile
      (fun node => !node.isFiller .all && !node.isKeyword) = [group .identifier [nameNode name]] := rfl
  have hempty : name.isEmpty = false := by simpa using hname
  unfold aliasFrom?
  dsimp only
  rw [htake, htext, hempty, if_neg Bool.false_ne_true]

/-- A query in parentheses takes the name behind it for its alias. -/
theorem source_parenthesesName {children : List Node} {name : String} (hname : name ≠ "")
    (hselect : (group .parenthesis children).isSubselect = true) :
    (group .identifier [group .parenthesis children, spaceNode,
      group .identifier [nameNode name]]).source =
        .derived (some name) (group .parenthesis children) := by
  have hself : (group .identifier [group .parenthesis children, spaceNode,
      group .identifier [nameNode name]]).subselect? = some (group .parenthesis children) := by
    have hfirst : (group .identifier [group .parenthesis children, spaceNode,
        group .identifier [nameNode name]]).subselect? =
          (some (group .parenthesis children)).filter isSubselect := rfl
    rw [hfirst, Option.filter_some, if_pos hselect]
  have halias : (group .identifier [group .parenthesis children, spaceNode,
      group .identifier [nameNode name]]).nameAndAlias.2 =
        aliasFrom? [group .identifier [nameNode name]] := rfl
  rw [source, hself]
  dsimp only
  rw [halias, aliasFrom?_name hname]

end Node

/-- The steps of a query that reads everything from its only common table. A comment between the entry
and the `SELECT` stays with the steps behind it. -/
theorem Step.exists_ofNode_asCommonTable (name : String) {entry : Node}
    (hkind : entry.kind = .identifier ∨ entry.kind = .function) {filler : List Lexeme}
    (hfiller : ∀ lexeme ∈ filler, lexeme.isFiller = true) :
    ∃ before comment text, Step.ofNode (.group .statement (Node.withNode :: Node.spaceNode :: entry ::
        (filler.map Lexeme.toNode ++ Node.spaceNode :: Node.selectNode :: Node.spaceNode ::
          Node.starNode :: Node.spaceNode :: Node.fromNode :: Node.spaceNode ::
          [.group .identifier [Node.nameNode name]]))) =
      [.read .withList (.entries [entry]) "" before, .select,
        .read .selectList (.columns [.ofName "*"]) comment "SELECT *",
        .read .fromList (.sources [.named name none]) comment text, .finish text] := by
  have hentry : entry.Legible := Node.legible_of_kind (by rcases hkind with h | h <;> simp [h])
  have hlist : entry.kind ≠ .identifierList := by
    rcases hkind with hkind | hkind <;> rw [hkind] <;> decide
  have hread : entry.read .withList = .ok (.entries [entry]) := by
    rw [Node.read, Node.items_of_kind_ne hlist]
  have hblank : ∀ lexeme ∈ filler ++ [.space], lexeme.isFiller = true := by
    rw [List.forall_mem_append]
    exact ⟨hfiller, by simp [Lexeme.space, Lexeme.isFiller]⟩
  obtain ⟨comment, hselect⟩ := exists_ofSiblings_select hblank isSelect_selectNode ""
  have hkeyword : Lexeme.toNode ⟨.keyword .dml, "SELECT"⟩ = Node.selectNode := rfl
  have hspace : [Lexeme.space].map Lexeme.toNode = [Node.spaceNode] := rfl
  rw [hkeyword, List.map_append, hspace] at hselect
  refine ⟨"WITH" ++ " " ++ entry.text, comment,
    "SELECT * FROM " ++ (Node.group .identifier [Node.nameNode name]).text, ?_⟩
  rw [ofNode, Node.children_group, ofSiblings_with, ofSiblings_space,
    ofSiblings_read _ hentry (by decide) hread, List.append_cons, hselect,
    ofSiblings_starFrom, ofSiblings_source, Node.source_name]

/-- A common table without columns of its own and without a comment. -/
theorem CommonTable.ofNode_nameAsParentheses (name : String) (children : List Node) :
    CommonTable.ofNode (.group .identifier [.group .identifier [Node.nameNode name], Node.spaceNode,
        Node.asNode, Node.spaceNode, .group .parenthesis children]) =
      .ok { name, columns := [], body := .group .parenthesis children, comment? := none } := by
  have hname := congrArg Prod.fst (Node.nameAndAlias_name name)
  have hentry : CommonTable.ofNode (.group .identifier [.group .identifier [Node.nameNode name],
      Node.spaceNode, Node.asNode, Node.spaceNode, .group .parenthesis children]) =
        .ok { name := (Node.group .identifier [Node.nameNode name]).nameAndAlias.1, columns := [],
              body := .group .parenthesis children, comment? := none } := rfl
  rw [hentry, hname]

end QueryLineage
