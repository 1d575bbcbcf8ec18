import QueryLineage.Proofs.Tree.SelectRows
import QueryLineage.Proofs.Tree.Trailing

/-!
# Entries of a `WITH`

The text and the tree of a query that reads everything from its only common table. The entry of the
table has a list of columns or none, `AS` or not, and perhaps a comment behind it; each of these
makes a different node of the same parts.
-/

namespace QueryLineage

open Node

/-- A comment to the end of its line with the line break, or one between its marks. -/
structure EndedComment where
  text : String
  read : Lexeme.ofText text = .ok [⟨.comment, text⟩]
  ended : Lexeme.isUnendedComment ⟨.comment, text⟩ = false

/-- A query that may stand in parentheses: its own parentheses belong together, and it does not end
inside a comment. -/
structure Enclosable (query : String) (lexemes : List Lexeme) (inner : List Node) : Prop where
  read : Lexeme.ofText query = .ok lexemes
  nests : Nests lexemes inner
  ended : ∀ last ∈ lexemes.getLast?, last.isUnendedComment = false

/-- How an entry of a `WITH` is written around its query. -/
structure EntryForm where
  name : PlainName
  columns : List PlainName := []
  spaced : Bool := true
  behindAs : Bool
  comment? : Option EndedComment := none

def blank (spaced : Bool) : String :=
  if spaced then " " else ""

theorem Node.Written.beside {first second : String} {nodes others : List Node}
    (h : Written first nodes) (hsecond : Written second others)
    (hdelimits : Lexeme.Delimits second.toList) (spaced : Bool) :
    Written (first ++ (blank spaced ++ second)) (nodes ++ (gap spaced ++ others)) := by
  cases spaced with
  | false =>
    rw [blank, if_neg Bool.false_ne_true, String.empty_append]
    exact h.append hsecond hdelimits
  | true =>
    rw [blank, if_pos rfl, ← String.append_assoc]
    exact h.spaced hsecond

theorem Lexeme.isComment_withoutComment (lexeme : Lexeme) :
    lexeme.withoutComment.toNode.isComment = false := by
  unfold Lexeme.withoutComment
  split
  · rfl
  · next h => simpa [isComment, Lexeme.toNode] using h

/-- Parentheses are grouped inside, without their comments if these are taken out. -/
theorem Node.prepared_inParentheses (stripComments : Bool) (siblings : List Node) :
    prepared stripComments (inParentheses siblings) =
      enclosed (groupAll (stripped stripComments siblings)) := by
  cases stripComments with
  | false => exact groupInside_parentheses siblings
  | true =>
    have hwithout : prepared true (inParentheses siblings) =
        (inParentheses siblings).withoutComments.groupInside := rfl
    rw [hwithout, inParentheses, withoutComments_parentheses, groupInside_parentheses]
    rfl

theorem Node.stripped_names (stripComments : Bool) (names : List PlainName) :
    stripped stripComments (separated (names.map fun name => [nameNode name.text])) =
      separated (names.map fun name => [nameNode name.text]) := by
  have hkept : ∀ node ∈ separated (names.map fun name => [nameNode name.text]),
      node.uncommented stripComments = node := by
    refine forall_mem_separated (by cases stripComments <;> rfl) (by cases stripComments <;> rfl) ?_
    intro row hrow node hnode
    obtain ⟨name, -, rfl⟩ := List.mem_map.1 hrow
    obtain rfl := List.mem_singleton.1 hnode
    cases stripComments <;> rfl
  rw [stripped_eq_map]
  exact (List.map_congr_left hkept).trans (List.map_id' _)

namespace EntryForm

variable (entry : EntryForm)

def columnsText : String :=
  match entry.columns with
  | [] => ""
  | columns => blank entry.spaced ++ ("(" ++ ", ".intercalate (columns.map PlainName.text) ++ ")")

def front : String :=
  entry.name.text ++ entry.columnsText ++ if entry.behindAs then " AS" else ""

/-- The query that reads everything from the common table. -/
def text (query : String) : String :=
  "WITH " ++ entry.front ++ blank (entry.behindAs || entry.spaced) ++ "(" ++ query ++ ")" ++
    entry.comment?.elim "" (" " ++ ·.text) ++ " SELECT * FROM " ++ entry.name.text

def columnsNodes : List Node :=
  match entry.columns with
  | [] => []
  | columns =>
    gap entry.spaced ++ [inParentheses (separated (columns.map fun name => [nameNode name.text]))]

def frontNodes : List Node :=
  nameNode entry.name.text :: entry.columnsNodes ++ if entry.behindAs then [spaceNode, asNode] else []

/-- The comment with the blank before it. -/
def trailing : List Lexeme :=
  entry.comment?.elim [] fun comment => [.space, ⟨.comment, comment.text⟩]

def nodes (inner : List Node) : List Node :=
  withNode :: spaceNode :: (entry.frontNodes ++ gap (entry.behindAs || entry.spaced) ++
      [inParentheses inner] ++ entry.trailing.map Lexeme.toNode ++
    spaceNode :: selectNode :: spaceNode :: starNode :: spaceNode :: fromNode :: spaceNode ::
      [nameNode entry.name.text])

theorem written_front :
    Written ("WITH " ++ entry.front) (withNode :: spaceNode :: entry.frontNodes) := by
  have hwith : Written "WITH" [withNode] := @written_keyword ⟨.keyword .cte, "WITH"⟩ (by decide)
  have has : Written "AS" [asNode] := @written_keyword ⟨.keyword .generic, "AS"⟩ (by decide)
  have hcolumns : Written (entry.name.text ++ entry.columnsText)
      (nameNode entry.name.text :: entry.columnsNodes) := by
    cases hnames : entry.columns with
    | nil => simpa [columnsText, columnsNodes, hnames] using written_name entry.name
    | cons first others =>
      have hlist : Written (", ".intercalate ((first :: others).map PlainName.text))
          (separated ((first :: others).map fun name => [nameNode name.text])) :=
        .separated (by simp) fun name _ => written_name name
      have hopening : Lexeme.Delimits
          ("(" ++ ", ".intercalate ((first :: others).map PlainName.text) ++ ")").toList := by
        rw [String.append_assoc, String.toList_append]
        exact Lexeme.delimits_cons (by decide) _
      have hboth := (written_name entry.name).beside hlist.parentheses hopening entry.spaced
      rw [columnsText, columnsNodes, hnames]
      exact hboth
  have hfront : Written entry.front entry.frontNodes := by
    rw [front, frontNodes]
    cases entry.behindAs with
    | false => simpa using hcolumns
    | true =>
      have hword : " AS" = " " ++ "AS" := by decide
      rw [if_pos rfl, if_pos rfl, hword, ← String.append_assoc]
      exact hcolumns.spaced has
  have hfirst : "WITH " = "WITH" ++ " " := by decide
  rw [hfirst]
  exact hwith.spaced hfront

section

variable {query : String} {lexemes : List Lexeme} {inner : List Node}
  (hquery : Enclosable query lexemes inner)
include hquery

theorem exists_lexemes : ∃ all, Lexeme.ofText (entry.text query) = .ok all ∧
    Nests all (entry.nodes inner) := by
  obtain ⟨before, hbefore, hnests, -⟩ := entry.written_front.exists_lexemes
  have hread := Lexeme.ofText_eq_ok_iff.1 hquery.read
  have hselect := written_selectStarFrom entry.name
  obtain ⟨after, hafter, hlast, -⟩ := hselect.exists_lexemes
  have hbehind : Lexeme.Reads (' ' :: ("SELECT * FROM " ++ entry.name.text).toList)
      (.space :: after) := by
    have hlist := hafter [] [] Lexeme.delimits_nil .nil
    rw [List.append_nil, List.append_nil] at hlist
    exact hlist.space (by simpa using hselect.head_visible [])
  have htrailing : Lexeme.Reads ((entry.comment?.elim "" (" " ++ ·.text)).toList ++
        ' ' :: ("SELECT * FROM " ++ entry.name.text).toList) (entry.trailing ++ .space :: after) ∧
      Nests entry.trailing (entry.trailing.map Lexeme.toNode) := by
    rw [trailing]
    cases entry.comment? with
    | none => exact ⟨hbehind, .nil⟩
    | some comment =>
      refine ⟨?_, .lexeme rfl rfl (.lexeme rfl rfl .nil)⟩
      have hcomment := (Lexeme.Reads.comment comment.read comment.ended hbehind).space
        (Lexeme.isBlank_head_of_comment comment.read _)
      simpa using hcomment
  have hbody := (hread.append LexRule.stops_closing htrailing.1.closing hquery.ended).opening
  have hlast : Nests (.space :: after) (spaceNode :: selectNode :: spaceNode :: starNode ::
      spaceNode :: fromNode :: spaceNode :: [nameNode entry.name.text]) := .lexeme rfl rfl hlast
  have hparentheses := hquery.nests.parentheses (htrailing.2.append hlast)
  have hgap : ∃ between, (∀ cs others, Lexeme.Reads ('(' :: cs) others →
        Lexeme.Reads ((blank (entry.behindAs || entry.spaced)).toList ++ '(' :: cs)
          (between ++ others)) ∧
      Nests between (gap (entry.behindAs || entry.spaced)) ∧
      ∀ cs, Lexeme.Delimits ((blank (entry.behindAs || entry.spaced)).toList ++ '(' :: cs) := by
    cases entry.behindAs || entry.spaced with
    | false => exact ⟨[], fun _ _ h => h, .nil, Lexeme.delimits_cons (by decide)⟩
    | true =>
      refine ⟨[.space], fun cs others h => h.space (by simp; decide), .lexeme rfl rfl .nil,
        fun cs => ?_⟩
      exact Lexeme.delimits_cons (by decide) _
  obtain ⟨between, hbetween, hgapNests, hdelimits⟩ := hgap
  refine ⟨before ++ (between ++ Lexeme.opening :: (lexemes ++ Lexeme.closing ::
    (entry.trailing ++ .space :: after))), ?_, ?_⟩
  · rw [Lexeme.ofText_eq_ok_iff]
    have hall := hbefore _ _ (hdelimits _) (hbetween _ _ hbody)
    delta text
    simpa using hall
  · have hall := hnests.append (hgapNests.append hparentheses)
    simpa [nodes, inParentheses] using hall

theorem statementsOfText_text (stripComments : Bool) :
    Node.statementsOfText (entry.text query) stripComments =
      .ok [statement (stripped stripComments (entry.nodes inner))] := by
  obtain ⟨all, hread, hnests⟩ := entry.exists_lexemes hquery
  have hfront : ∀ node ∈ withNode :: spaceNode :: entry.frontNodes, node.isMark ";" = false := by
    obtain ⟨before, -, hbefore, hkinds⟩ := entry.written_front.exists_lexemes
    exact hbefore.isMark_semicolon fun lexeme hlexeme => (hkinds lexeme hlexeme).2
  have htrailing : ∀ node ∈ entry.trailing.map Lexeme.toNode, node.isMark ";" = false := by
    rw [trailing]
    cases entry.comment? with
    | none => simp
    | some comment =>
      intro node hnode
      simp only [Option.elim_some, List.map_cons, List.map_nil, List.mem_cons, List.not_mem_nil,
        or_false] at hnode
      rcases hnode with rfl | rfl <;> rfl
  refine statementsOfText_of_forall hread (hnests.groupParentheses _) ?_
    ⟨withNode, by simp [nodes], rfl⟩ stripComments
  simp only [nodes, List.forall_mem_append, List.forall_mem_cons] at hfront ⊢
  exact ⟨hfront.1, hfront.2.1, ⟨⟨⟨hfront.2.2, fun node hnode =>
    isMark_of_isFiller (isFiller_of_mem_gap hnode) ";"⟩, rfl, by simp⟩, htrailing⟩, rfl, rfl, rfl, rfl,
    rfl, rfl, rfl, rfl, by simp⟩

end

/-- The query once it is grouped. -/
def body (stripComments : Bool) (inner : List Node) : Node :=
  enclosed (groupAll (stripped stripComments inner))

theorem fringe_body {query : String} {lexemes : List Lexeme} {inner : List Node}
    (hquery : Enclosable query lexemes inner) (stripComments : Bool) :
    (body stripComments inner).fringe =
      .opening :: (Lexeme.stripped stripComments lexemes ++ [.closing]) := by
  have hkinds := (Lexeme.ofText_eq_ok_iff.1 hquery.read).isGroup
  have hinner := hquery.nests.fringeAll_groupAll hkinds stripComments
  rw [body, enclosed, fringe_group_cons, fringeAll_append, hinner]
  rfl

def columnsGrouped : List Node :=
  match entry.columns with
  | [] => []
  | first :: others => gap entry.spaced ++ [enclosed [nameList first others]]

/-- What stands before `AS`: the name, or a call of the columns. -/
def operand : Node :=
  match entry.columns with
  | [] => group .identifier [nameNode entry.name.text]
  | _ :: _ => group .function (nameNode entry.name.text :: entry.columnsGrouped)

/-- The entry without its comment, once it is grouped around its query. -/
def core (body : Node) : Node :=
  if entry.behindAs then group .identifier [entry.operand, spaceNode, asNode, spaceNode, body]
  else group .function (nameNode entry.name.text :: (gap entry.spaced ++ [body]))

/-- The entry once it is grouped. It takes up its comment if it is an identifier. -/
def node (stripComments : Bool) (body : Node) : Node :=
  if entry.behindAs && !stripComments then
    group .identifier ([entry.operand, spaceNode, asNode, spaceNode, body] ++
      entry.trailing.map Lexeme.toNode)
  else entry.core body

/-- What stays between the entry and the `SELECT`. -/
def outside (stripComments : Bool) : List Lexeme :=
  if entry.behindAs && !stripComments then [] else Lexeme.stripped stripComments entry.trailing

/-- The nodes that are grouped to the entry without its comment. -/
def row (body : Node) : List Node :=
  nameNode entry.name.text :: entry.columnsGrouped ++
    (if entry.behindAs then [spaceNode, asNode] else []) ++ gap (entry.behindAs || entry.spaced) ++
    [body]

theorem isFiller_of_mem_trailing {stripComments : Bool} {lexeme : Lexeme}
    (h : lexeme ∈ Lexeme.stripped stripComments entry.trailing) : lexeme.isFiller = true := by
  have hall : ∀ lexeme ∈ entry.trailing, lexeme.isFiller = true := by
    rw [trailing]
    cases entry.comment? with
    | none => simp
    | some comment => simp [Lexeme.space, Lexeme.isFiller]
  cases stripComments with
  | false => exact hall lexeme h
  | true =>
    obtain ⟨other, hother, rfl⟩ := List.mem_map.1 h
    rw [Lexeme.isFiller_withoutComment, hall other hother]

theorem isFiller_of_mem_outside {stripComments : Bool} {lexeme : Lexeme}
    (h : lexeme ∈ entry.outside stripComments) : lexeme.isFiller = true := by
  rw [outside] at h
  split at h
  · cases h
  · exact entry.isFiller_of_mem_trailing h

theorem words_of_mem_row {body node : Node} (hbody : body.kind = .parenthesis)
    (h : node ∈ entry.row body) : node.isWord "WHERE" = false ∧ node.isWord "CASE" = false := by
  have hgap : ∀ spaced, ∀ node ∈ gap spaced, node.isWord "WHERE" = false ∧ node.isWord "CASE" = false :=
    fun _ node hnode =>
      have htrails := trails_of_isFiller (isFiller_of_mem_gap hnode)
      ⟨htrails.isWord _, htrails.isWord _⟩
  have hcolumns : ∀ node ∈ entry.columnsGrouped,
      node.isWord "WHERE" = false ∧ node.isWord "CASE" = false := by
    rw [columnsGrouped]
    cases entry.columns with
    | nil => simp
    | cons first others =>
      simp only [List.forall_mem_append]
      exact ⟨hgap _, by simp [enclosed, isWord, isKeyword, Kind.isKeyword]⟩
  revert node
  simp only [row, List.forall_mem_append, List.cons_append, List.forall_mem_cons]
  refine ⟨⟨rfl, rfl⟩, ⟨⟨hcolumns, ?_⟩, hgap _⟩, ?_, by simp⟩
  · cases entry.behindAs with
    | false => simp
    | true =>
      rw [if_pos rfl, List.forall_mem_cons, List.forall_mem_cons]
      exact ⟨⟨rfl, rfl⟩, words_asNode, by simp⟩
  · simp [isWord, isKeyword, hbody, Kind.isKeyword]

/-- Only what stands in parentheses is grouped before the row. -/
theorem prepared_nodes (stripComments : Bool) (inner : List Node) :
    (entry.nodes inner).map (prepared stripComments) =
      withNode :: spaceNode :: ((entry.row (body stripComments inner) ++
          (Lexeme.stripped stripComments entry.trailing).map Lexeme.toNode) ++
        spaceNode :: selectNode :: spaceNode :: starNode :: spaceNode :: fromNode :: spaceNode ::
          [nameNode entry.name.text]) := by
  have hgap : ∀ spaced, (gap spaced).map (prepared stripComments) = gap spaced := by
    intro spaced
    cases spaced <;> cases stripComments <;> rfl
  have hcolumns : entry.columnsNodes.map (prepared stripComments) = entry.columnsGrouped := by
    rw [columnsNodes, columnsGrouped]
    cases entry.columns with
    | nil => rfl
    | cons first others =>
      rw [List.map_append, hgap, List.map_singleton, prepared_inParentheses, stripped_names,
        groupAll_names]
  have has : (if entry.behindAs then [spaceNode, asNode] else []).map (prepared stripComments) =
      if entry.behindAs then [spaceNode, asNode] else [] := by
    cases entry.behindAs <;> cases stripComments <;> rfl
  have htrailing : (entry.trailing.map Lexeme.toNode).map (prepared stripComments) =
      (Lexeme.stripped stripComments entry.trailing).map Lexeme.toNode := by
    rw [trailing]
    cases entry.comment? <;> cases stripComments <;> rfl
  have hfirst : ∀ nodes : List Node, (withNode :: spaceNode :: nodes).map (prepared stripComments) =
      withNode :: spaceNode :: nodes.map (prepared stripComments) := by
    intro nodes
    cases stripComments <;> rfl
  have hlast : (spaceNode :: selectNode :: spaceNode :: starNode :: spaceNode :: fromNode ::
      spaceNode :: [nameNode entry.name.text]).map (prepared stripComments) = spaceNode :: selectNode ::
      spaceNode :: starNode :: spaceNode :: fromNode :: spaceNode :: [nameNode entry.name.text] := by
    cases stripComments <;> rfl
  have hname : prepared stripComments (nameNode entry.name.text) = nameNode entry.name.text := by
    cases stripComments <;> rfl
  rw [nodes, hfirst, List.map_append, hlast, List.map_append, htrailing, List.map_append,
    List.map_append, hgap, List.map_singleton, prepared_inParentheses, frontNodes, List.map_append,
    List.map_cons, hname, hcolumns, has]
  rfl

section

variable (hform : entry.columns = [] ∨ entry.behindAs = true)
include hform

theorem groupUncommented_row (children : List Node) :
    groupUncommented (entry.row (group .parenthesis children)) =
      [entry.core (group .parenthesis children)] := by
  rw [row, core, operand, columnsGrouped]
  cases hbehind : entry.behindAs with
  | false =>
    have hnone := hform.resolve_right (by simp [hbehind])
    simpa [hnone] using groupUncommented_call entry.name.text entry.spaced children
  | true =>
    cases entry.columns with
    | nil => simpa [gap] using groupUncommented_nameAs entry.name.text children
    | cons first others =>
      simpa [gap, enclosed] using groupUncommented_callAs entry.name.text entry.spaced _ children

/-- The comment behind the entry is taken up behind `AS`, and stays outside of a call. -/
theorem groupLevel_row (stripComments : Bool) (children : List Node) :
    groupLevel (entry.row (group .parenthesis children) ++
        (Lexeme.stripped stripComments entry.trailing).map Lexeme.toNode) =
      entry.node stripComments (group .parenthesis children) ::
        (entry.outside stripComments).map Lexeme.toNode := by
  have hcases : ∀ node ∈ entry.row (group .parenthesis children), node.isWord "CASE" = false :=
    fun node hnode => (entry.words_of_mem_row rfl hnode).2
  have hrow := entry.groupUncommented_row hform children
  have hfiller : ∀ node ∈ (Lexeme.stripped stripComments entry.trailing).map Lexeme.toNode,
      node.isFiller .all = true := by
    intro node hnode
    obtain ⟨lexeme, hlexeme, rfl⟩ := List.mem_map.1 hnode
    rw [isFiller_all]
    exact entry.isFiller_of_mem_trailing hlexeme
  have hcomma : (entry.core (group .parenthesis children)).isMark "," = false := by
    rw [core]
    split <;> rfl
  rw [node, outside]
  cases hbehind : entry.behindAs with
  | false =>
    refine groupLevel_append_filler hfiller hcases hrow hcomma (Or.inl ?_)
    rw [core, hbehind]
    rfl
  | true =>
    cases stripComments with
    | true =>
      refine groupLevel_append_filler hfiller hcases hrow hcomma (Or.inr fun node hnode => ?_)
      obtain ⟨_, hlexeme, rfl⟩ := List.mem_map.1 hnode
      obtain ⟨lexeme, -, rfl⟩ := List.mem_map.1 hlexeme
      exact lexeme.isComment_withoutComment
    | false =>
      rw [core, hbehind, if_pos rfl] at hrow
      have htrailing : ∀ lexemes, Lexeme.stripped false lexemes = lexemes := fun _ => rfl
      rw [htrailing, trailing]
      cases entry.comment? with
      | none => exact groupLevel_append_filler (by simp) hcases hrow rfl (Or.inr (by simp))
      | some comment => exact groupLevel_append_comment comment.text hcases hrow

theorem groupAll_nodes (inner : List Node) (stripComments : Bool) :
    groupAll (stripped stripComments (entry.nodes inner)) =
      withNode :: spaceNode :: entry.node stripComments (body stripComments inner) ::
        ((entry.outside stripComments).map Lexeme.toNode ++ spaceNode :: selectNode :: spaceNode ::
          starNode :: spaceNode :: fromNode :: spaceNode ::
            [group .identifier [nameNode entry.name.text]]) := by
  have hwords : ∀ node ∈ entry.row (body stripComments inner) ++
      (Lexeme.stripped stripComments entry.trailing).map Lexeme.toNode,
      node.isWord "WHERE" = false ∧ node.isWord "CASE" = false := by
    intro node hnode
    rcases List.mem_append.1 hnode with hnode | hnode
    · exact entry.words_of_mem_row rfl hnode
    · obtain ⟨lexeme, hlexeme, rfl⟩ := List.mem_map.1 hnode
      have htrails : lexeme.toNode.Trails :=
        trails_of_isFiller ((isFiller_all _).trans (entry.isFiller_of_mem_trailing hlexeme))
      exact ⟨htrails.isWord _, htrails.isWord _⟩
  have hlevel := entry.groupLevel_row hform stripComments
    (openingMark :: (groupAll (stripped stripComments inner) ++ [closingMark]))
  have hbody : body stripComments inner = group .parenthesis
    (openingMark :: (groupAll (stripped stripComments inner) ++ [closingMark])) := rfl
  rw [groupAll, groupInsideAll_stripped, entry.prepared_nodes, groupRun_with entry.name.text hwords,
    hbody, hlevel]
  rfl

end

end EntryForm

end QueryLineage
