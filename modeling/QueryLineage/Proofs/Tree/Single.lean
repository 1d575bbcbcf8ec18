import QueryLineage.Proofs.Tree.Enclosed

/-!
# Single statements

A text whose parentheses have partners and which has no semicolon outside of them is one statement.
If it begins with a `SELECT`, then so does its tree, and another `SELECT` among the children of the
tree was another one outside of all parentheses.
-/

namespace QueryLineage

open Text

namespace Lexeme

theorem depthAfter_withoutComment (depth : Nat) (lexeme : Lexeme) :
    depthAfter depth lexeme.withoutComment = depthAfter depth lexeme := by
  rw [depthAfter, depthAfter, isMark_withoutComment, isMark_withoutComment]

theorem outermost_map_withoutComment (depth : Nat) (lexemes : List Lexeme) :
    outermost depth (lexemes.map withoutComment) =
      (outermost depth lexemes).map withoutComment := by
  induction lexemes generalizing depth with
  | nil => rfl
  | cons lexeme lexemes ih =>
    rw [List.map_cons, outermost, outermost, isMark_withoutComment, depthAfter_withoutComment, ih, ih]
    split <;> simp

/-- The keyword at the beginning of a query. -/
def isSelect (lexeme : Lexeme) : Bool :=
  lexeme.kind == .keyword .dml && lexeme.toNode.isWord "SELECT"

def isFiller (lexeme : Lexeme) : Bool :=
  lexeme.kind == .whitespace || lexeme.kind == .comment

theorem isFiller_withoutComment (lexeme : Lexeme) :
    lexeme.withoutComment.isFiller = lexeme.isFiller := by
  unfold withoutComment
  split
  · next h => simp [isFiller, h]
  · rfl

theorem withoutComment_of_isKeyword {lexeme : Lexeme} (h : lexeme.toNode.isKeyword = true) :
    lexeme.withoutComment = lexeme := by
  rw [withoutComment, if_neg]
  intro hkind
  rw [Node.isKeyword, toNode, Node.kind_leaf, hkind] at h
  cases h

theorem isWord_withoutComment (lexeme : Lexeme) (word : String) :
    lexeme.withoutComment.toNode.isWord word = lexeme.toNode.isWord word := by
  by_cases h : lexeme.toNode.isKeyword = true
  · rw [withoutComment_of_isKeyword h]
  · have hwithout : ¬ lexeme.withoutComment.toNode.isKeyword = true := by
      unfold withoutComment
      split
      · exact Bool.false_ne_true
      · exact h
    rw [Bool.not_eq_true] at h hwithout
    rw [Node.isWord, Node.isWord, h, hwithout, Bool.false_and, Bool.false_and]

/-- The lexemes that stand in a tree with or without comments. -/
def stripped (stripComments : Bool) (lexemes : List Lexeme) : List Lexeme :=
  if stripComments then lexemes.map withoutComment else lexemes

/-- The lexemes are a query that begins with its only `SELECT`, as far as no parentheses are
concerned. -/
structure SelectsOnce (lexemes : List Lexeme) (filler : List Lexeme) (keyword : Lexeme)
    (rest : List Lexeme) : Prop where
  split : lexemes = filler ++ keyword :: rest
  filler : ∀ lexeme ∈ filler, lexeme.isFiller = true
  keyword : keyword.isSelect = true
  others : ∀ lexeme ∈ outermost 0 rest, lexeme.toNode.isWord "SELECT" = false

section

variable {lexemes filler rest : List Lexeme} {keyword : Lexeme}

theorem SelectsOnce.split_append (h : SelectsOnce lexemes filler keyword rest) :
    lexemes = (filler ++ [keyword]) ++ rest := by
  rw [h.split, List.append_assoc, List.singleton_append]

theorem SelectsOnce.noOpening (h : SelectsOnce lexemes filler keyword rest) :
    ∀ lexeme ∈ filler ++ [keyword], lexeme.isMark "(" = false := by
  intro lexeme hlexeme
  apply isMark_of_kind_ne
  rcases List.mem_append.1 hlexeme with hlexeme | hlexeme
  · have hfiller := h.filler lexeme hlexeme
    intro hkind
    simp [isFiller, hkind] at hfiller
  · obtain rfl := List.mem_singleton.1 hlexeme
    have hselect := h.keyword
    intro hkind
    simp [isSelect, hkind] at hselect

theorem outermost_append {first : List Lexeme}
    (h : ∀ lexeme ∈ first, lexeme.isMark "(" = false) (lexemes : List Lexeme) :
    outermost 0 (first ++ lexemes) = first ++ outermost 0 lexemes := by
  induction first with
  | nil => rfl
  | cons lexeme first ih =>
    rw [List.cons_append, outermost, if_pos ⟨rfl, h lexeme List.mem_cons_self⟩,
      ih fun other hother => h other (List.mem_cons_of_mem _ hother), List.cons_append]

theorem SelectsOnce.exists_isSubstantial (h : SelectsOnce lexemes filler keyword rest) :
    ∃ lexeme ∈ outermost 0 lexemes, lexeme.isSubstantial = true := by
  refine ⟨keyword, ?_, ?_⟩
  · rw [h.split_append, outermost_append h.noOpening]
    simp
  · have hkind : keyword.kind = .keyword .dml := beq_iff_eq.1 (Bool.and_eq_true _ _ ▸ h.keyword).1
    simp [isSubstantial, isMark, hkind]

theorem SelectsOnce.withoutComments (h : SelectsOnce lexemes filler keyword rest) :
    SelectsOnce (lexemes.map withoutComment) (filler.map withoutComment) keyword
      (rest.map withoutComment) where
  split := by
    have hkeyword : keyword.toNode.isKeyword = true :=
      (Bool.and_eq_true _ _ ▸ (Bool.and_eq_true _ _ ▸ h.keyword).2).1
    rw [h.split, List.map_append, List.map_cons, withoutComment_of_isKeyword hkeyword]
  filler lexeme hlexeme := by
    obtain ⟨other, hother, rfl⟩ := List.mem_map.1 hlexeme
    rw [isFiller_withoutComment, h.filler other hother]
  keyword := h.keyword
  others lexeme hlexeme := by
    rw [outermost_map_withoutComment] at hlexeme
    obtain ⟨other, hother, rfl⟩ := List.mem_map.1 hlexeme
    rw [isWord_withoutComment, h.others other hother]

theorem SelectsOnce.stripped (h : SelectsOnce lexemes filler keyword rest) (stripComments : Bool) :
    SelectsOnce (Lexeme.stripped stripComments lexemes) (Lexeme.stripped stripComments filler) keyword
      (Lexeme.stripped stripComments rest) := by
  cases stripComments with
  | false => exact h
  | true => exact h.withoutComments

end

/-- A lexeme that neither cuts a text nor encloses a part of it, and that is never taken out. -/
structure Fixed (lexeme : Lexeme) : Prop where
  opening : lexeme.isMark "(" = false
  closing : lexeme.isMark ")" = false
  semicolon : lexeme.isMark ";" = false
  comment : lexeme.kind ≠ .comment
  group : lexeme.kind.isGroup = false

theorem Fixed.withoutComments_toNode {lexeme : Lexeme} (h : lexeme.Fixed) :
    lexeme.toNode.withoutComments = lexeme.toNode := by
  rw [Node.withoutComments_toNode h.group, withoutComment, if_neg h.comment]

end Lexeme

namespace Node

namespace Nests

variable {lexemes : List Lexeme} {nodes : List Node}

/-- Every node is a lexeme outside of all parentheses, or a pair of parentheses. -/
theorem exists_of_mem (h : Nests lexemes nodes) {node : Node} (hnode : node ∈ nodes) :
    (∃ lexeme ∈ Lexeme.outermost 0 lexemes, node = lexeme.toNode ∧ lexeme.isMark "(" = false ∧
      lexeme.isMark ")" = false) ∨
    ∃ enclosed inner, Nests enclosed inner ∧ enclosed ⊆ lexemes ∧
      node = group .parenthesis (openingMark :: (inner ++ [closingMark])) := by
  induction h with
  | nil => cases hnode
  | @lexeme lexeme lexemes nodes hopening hclosing _ ih =>
    rw [Lexeme.outermost, if_pos ⟨rfl, hopening⟩]
    rcases List.mem_cons.1 hnode with rfl | hnode
    · exact Or.inl ⟨lexeme, List.mem_cons_self, rfl, hopening, hclosing⟩
    · rcases ih hnode with ⟨other, hother, hshape⟩ | ⟨enclosed, inner, hinner, hsubset, hshape⟩
      · exact Or.inl ⟨other, List.mem_cons_of_mem _ hother, hshape⟩
      · exact Or.inr ⟨enclosed, inner, hinner, List.subset_cons_of_subset _ hsubset, hshape⟩
  | @parentheses enclosed lexemes inner nodes hinner _ _ ih =>
    rw [hinner.outermost_opening]
    have hrest : lexemes ⊆ .opening :: (enclosed ++ .closing :: lexemes) := by
      intro lexeme hlexeme
      simp [hlexeme]
    rcases List.mem_cons.1 hnode with rfl | hnode
    · exact Or.inr ⟨enclosed, inner, hinner, by intro lexeme hlexeme; simp [hlexeme], rfl⟩
    · rcases ih hnode with hlexeme | ⟨other, more, hmore, hsubset, hshape⟩
      · exact Or.inl hlexeme
      · exact Or.inr ⟨other, more, hmore, List.Subset.trans hsubset hrest, hshape⟩

theorem isMark_eq_false (h : Nests lexemes nodes) :
    ∀ node ∈ nodes, node.isMark "(" = false ∧ node.isMark ")" = false := by
  intro node hnode
  rcases h.exists_of_mem hnode with ⟨lexeme, -, rfl, hmarks⟩ | ⟨_, inner, -, -, rfl⟩
  · exact hmarks
  · exact ⟨rfl, rfl⟩

theorem bracketed (h : Nests lexemes nodes)
    (hkinds : ∀ lexeme ∈ lexemes, lexeme.kind.isGroup = false) : ∀ node ∈ nodes, Bracketed node := by
  induction h with
  | nil => simp
  | lexeme _ _ _ ih =>
    intro node hnode
    rcases List.mem_cons.1 hnode with rfl | hnode
    · exact .lexeme (hkinds _ List.mem_cons_self)
    · exact ih (fun lexeme hlexeme => hkinds lexeme (List.mem_cons_of_mem _ hlexeme)) node hnode
  | parentheses hinner _ ihinner ih =>
    intro node hnode
    rcases List.mem_cons.1 hnode with rfl | hnode
    · exact .parentheses (ihinner fun lexeme hlexeme => hkinds lexeme (by simp [hlexeme]))
        (fun node hnode => (hinner.isMark_eq_false node hnode).1)
        fun node hnode => (hinner.isMark_eq_false node hnode).2
    · exact ih (fun lexeme hlexeme => hkinds lexeme (by simp [hlexeme])) node hnode

theorem fringeAll (h : Nests lexemes nodes) : Node.fringeAll nodes = lexemes := by
  induction h with
  | nil => rfl
  | lexeme _ _ _ ih => rw [fringeAll_cons, fringe_toNode, ih, List.singleton_append]
  | parentheses _ _ ihinner ih =>
    rw [fringeAll_cons, fringe_group_cons, fringeAll_append, ihinner, ih]
    simp [openingMark, closingMark, Lexeme.opening, Lexeme.closing]

theorem withoutComments (h : Nests lexemes nodes)
    (hkinds : ∀ lexeme ∈ lexemes, lexeme.kind.isGroup = false) :
    Nests (lexemes.map Lexeme.withoutComment) (withoutCommentsAll nodes) := by
  induction h with
  | nil => exact .nil
  | @lexeme lexeme _ _ hopening hclosing _ ih =>
    rw [withoutCommentsAll_cons, withoutComments_toNode (hkinds _ List.mem_cons_self)]
    refine .lexeme ?_ ?_ (ih fun other hother => hkinds other (List.mem_cons_of_mem _ hother))
    · rw [Lexeme.isMark_withoutComment, hopening]
    · rw [Lexeme.isMark_withoutComment, hclosing]
  | @parentheses enclosed lexemes inner nodes _ _ ihinner ih =>
    have hlexemes : (Lexeme.opening :: (enclosed ++ .closing :: lexemes)).map Lexeme.withoutComment =
        .opening :: (enclosed.map Lexeme.withoutComment ++
          .closing :: lexemes.map Lexeme.withoutComment) := by
      simp [Lexeme.opening, Lexeme.closing, Lexeme.withoutComment]
    rw [withoutCommentsAll_cons, withoutComments_parentheses, hlexemes]
    exact .parentheses (ihinner fun other hother => hkinds other (by simp [hother]))
      (ih fun other hother => hkinds other (by simp [hother]))

theorem splitStatements (h : Nests lexemes nodes)
    (hsemicolon : ∀ lexeme ∈ Lexeme.outermost 0 lexemes, lexeme.isMark ";" = false)
    (hsubstantial : ∃ lexeme ∈ Lexeme.outermost 0 lexemes, lexeme.isSubstantial = true) :
    Node.splitStatements nodes = [nodes] := by
  have hmarks : ∀ node ∈ nodes, node.isMark ";" = false := by
    intro node hnode
    rcases h.exists_of_mem hnode with ⟨lexeme, hlexeme, rfl, -⟩ | ⟨_, inner, -, -, rfl⟩
    · exact hsemicolon lexeme hlexeme
    · rfl
  have hcut : ∀ row : List Node, (∀ node ∈ row, node.isMark ";" = false) →
      cutAtSemicolons row = [row] := by
    intro row hrow
    induction row with
    | nil => rfl
    | cons node row ih =>
      rw [cutAtSemicolons, hrow node List.mem_cons_self,
        ih fun other hother => hrow other (List.mem_cons_of_mem _ hother)]
      rfl
  obtain ⟨lexeme, hlexeme, hlexemeSubstantial⟩ := hsubstantial
  rw [← h.filterMap_lexeme?] at hlexeme
  obtain ⟨node, hnode, heq⟩ := List.mem_filterMap.1 hlexeme
  have hany : nodes.any isSubstantial = true := by
    refine List.any_eq_true.2 ⟨node, hnode, ?_⟩
    cases node with
    | group kind children => cases heq
    | leaf kind text =>
      obtain rfl := Option.some.inj heq
      simpa [Node.isSubstantial, Lexeme.isSubstantial, isWhitespace, isComment, bne,
        Node.isMark, Lexeme.isMark, isPunctuation] using hlexemeSubstantial
  rw [Node.splitStatements, hcut nodes hmarks, List.filter_cons, if_pos hany, List.filter_nil]

theorem exists_of_append {first : List Lexeme} (hfirst : ∀ lexeme ∈ first,
      lexeme.isMark "(" = false) (h : Nests (first ++ lexemes) nodes) :
    ∃ rest, nodes = first.map Lexeme.toNode ++ rest ∧ Nests lexemes rest := by
  induction first generalizing nodes with
  | nil => exact ⟨nodes, rfl, h⟩
  | cons lexeme first ih =>
    generalize hrow : lexeme :: first ++ lexemes = row at h
    cases h with
    | nil => cases hrow
    | @lexeme other others more _ _ hrest =>
      obtain ⟨rfl, rfl⟩ := List.cons.inj hrow
      obtain ⟨rest, rfl, hnests⟩ :=
        ih (fun other hother => hfirst other (List.mem_cons_of_mem _ hother)) hrest
      exact ⟨rest, rfl, hnests⟩
    | parentheses _ _ =>
      obtain ⟨rfl, -⟩ := List.cons.inj hrow
      exact absurd (hfirst .opening List.mem_cons_self) (by decide)

end Nests

/-- The nodes of a text with or without its comments. -/
def stripped (stripComments : Bool) (nodes : List Node) : List Node :=
  if stripComments then withoutCommentsAll nodes else nodes

theorem stripped_append (stripComments : Bool) (nodes others : List Node) :
    stripped stripComments (nodes ++ others) =
      stripped stripComments nodes ++ stripped stripComments others := by
  cases stripComments with
  | false => rfl
  | true => simp [stripped, withoutCommentsAll_eq_map]

theorem bracketed_stripped {nodes : List Node} (h : ∀ node ∈ nodes, Bracketed node)
    (stripComments : Bool) :
    (∀ node ∈ stripped stripComments nodes, Bracketed node) ∧
      fringeAll (stripped stripComments nodes) =
        Lexeme.stripped stripComments (fringeAll nodes) := by
  cases stripComments with
  | false => exact ⟨h, rfl⟩
  | true =>
    simp only [stripped, Lexeme.stripped, if_true, withoutCommentsAll_eq_map]
    refine ⟨fun node hnode => ?_, fringeAll_map fun node hnode => (h node hnode).withoutComments.2.1⟩
    obtain ⟨other, hother, rfl⟩ := List.mem_map.1 hnode
    exact (h other hother).withoutComments.1

section

variable {lexemes : List Lexeme} {nodes : List Node}

theorem Nests.stripped (h : Nests lexemes nodes)
    (hkinds : ∀ lexeme ∈ lexemes, lexeme.kind.isGroup = false) (stripComments : Bool) :
    Nests (Lexeme.stripped stripComments lexemes) (Node.stripped stripComments nodes) := by
  cases stripComments with
  | false => exact h
  | true => exact h.withoutComments hkinds

/-- The tree of what was read shows it again. -/
theorem Nests.fringeAll_groupAll (h : Nests lexemes nodes)
    (hkinds : ∀ lexeme ∈ lexemes, lexeme.kind.isGroup = false) (stripComments : Bool) :
    Node.fringeAll (groupAll (Node.stripped stripComments nodes)) =
      Lexeme.stripped stripComments lexemes := by
  have hstripped := bracketed_stripped (h.bracketed hkinds) stripComments
  rw [Node.fringeAll_groupAll fun node hnode => (hstripped.1 node hnode).built, hstripped.2,
    h.fringeAll]

/-- A text without semicolons outside of its parentheses is one statement. -/
theorem statementsOfText_of_nests {sql : String} (hread : Lexeme.ofText sql = .ok lexemes)
    (h : Nests lexemes nodes)
    (hsemicolon : ∀ lexeme ∈ Lexeme.outermost 0 lexemes, lexeme.isMark ";" = false)
    (hsubstantial : ∃ lexeme ∈ Lexeme.outermost 0 lexemes, lexeme.isSubstantial = true)
    (stripComments : Bool) :
    statementsOfText sql stripComments = .ok [statement (stripped stripComments nodes)] := by
  rw [statementsOfText_eq_ok_iff]
  refine ⟨lexemes, nodes, hread, h.groupParentheses sql, ?_⟩
  have hkinds := (Lexeme.ofText_eq_ok_iff.1 hread).isGroup
  have hstripped := h.stripped hkinds stripComments
  have houtermost : Lexeme.outermost 0 (Lexeme.stripped stripComments lexemes) =
      Lexeme.stripped stripComments (Lexeme.outermost 0 lexemes) := by
    cases stripComments with
    | false => rfl
    | true => exact Lexeme.outermost_map_withoutComment 0 lexemes
  have hsplit : splitStatements (stripped stripComments nodes) =
      [stripped stripComments nodes] := by
    apply hstripped.splitStatements
    · intro lexeme hlexeme
      rw [houtermost] at hlexeme
      cases stripComments with
      | false => exact hsemicolon lexeme hlexeme
      | true =>
        obtain ⟨other, hother, rfl⟩ := List.mem_map.1 hlexeme
        rw [Lexeme.isMark_withoutComment, hsemicolon other hother]
    · rw [houtermost]
      obtain ⟨lexeme, hlexeme, hlexemeSubstantial⟩ := hsubstantial
      cases stripComments with
      | false => exact ⟨lexeme, hlexeme, hlexemeSubstantial⟩
      | true =>
        refine ⟨_, List.mem_map_of_mem hlexeme, ?_⟩
        rw [Lexeme.isSubstantial_withoutComment, hlexemeSubstantial]
  change [statement (stripped stripComments nodes)] =
    (splitStatements (stripped stripComments nodes)).map statement
  rw [hsplit, List.map_singleton]

/-- Parentheses in a statement are grouped around what they hold, whatever stands beside them. -/
theorem statementsOfText_parentheses {sql : String} {before after : List Lexeme}
    (hread : Lexeme.ofText sql = .ok (before ++ .opening :: (lexemes ++ .closing :: after)))
    (h : Nests lexemes nodes) (hfixed : ∀ lexeme ∈ before ++ after, lexeme.Fixed)
    (hsubstantial : (before ++ after).any Lexeme.isSubstantial = true) (stripComments : Bool) :
    statementsOfText sql stripComments = .ok [statement (before.map Lexeme.toNode ++
      group .parenthesis (openingMark :: (stripped stripComments nodes ++ [closingMark])) ::
        after.map Lexeme.toNode)] := by
  have hbefore : ∀ lexeme ∈ before, lexeme.Fixed :=
    fun lexeme hlexeme => hfixed lexeme (List.mem_append_left after hlexeme)
  have hafter : ∀ lexeme ∈ after, lexeme.Fixed :=
    fun lexeme hlexeme => hfixed lexeme (List.mem_append_right before hlexeme)
  have hnests := (Nests.of_forall fun lexeme hlexeme =>
      ⟨(hbefore lexeme hlexeme).opening, (hbefore lexeme hlexeme).closing⟩).append
    (h.parentheses (Nests.of_forall fun lexeme hlexeme =>
      ⟨(hafter lexeme hlexeme).opening, (hafter lexeme hlexeme).closing⟩))
  have houtermost : Lexeme.outermost 0 (before ++ .opening :: (lexemes ++ .closing :: after)) =
      before ++ after := by
    have hnone := Lexeme.outermost_append (fun lexeme hlexeme => (hafter lexeme hlexeme).opening) []
    rw [List.append_nil] at hnone
    rw [Lexeme.outermost_append fun lexeme hlexeme => (hbefore lexeme hlexeme).opening,
      h.outermost_opening, hnone, Lexeme.outermost, List.append_nil]
  obtain ⟨lexeme, hlexeme, hlexemeSubstantial⟩ := List.any_eq_true.1 hsubstantial
  have htree := statementsOfText_of_nests hread hnests
    (by
      rw [houtermost]
      exact fun lexeme hlexeme => (hfixed lexeme hlexeme).semicolon)
    (by
      rw [houtermost]
      exact ⟨lexeme, hlexeme, hlexemeSubstantial⟩) stripComments
  rw [htree]
  cases stripComments with
  | false => rfl
  | true =>
    have hrow : ∀ row : List Lexeme, (∀ lexeme ∈ row, lexeme.Fixed) →
        (row.map Lexeme.toNode).map withoutComments = row.map Lexeme.toNode := by
      intro row hrow
      rw [List.map_map]
      exact List.map_congr_left fun lexeme hlexeme => (hrow lexeme hlexeme).withoutComments_toNode
    rw [stripped, if_pos rfl, withoutCommentsAll_eq_map, List.map_append, List.map_cons,
      withoutComments_parentheses,
      hrow before hbefore, hrow after hafter]
    rfl

theorem inert_of_isSelect {lexeme : Lexeme} (h : lexeme.isSelect = true) : lexeme.toNode.Inert := by
  obtain ⟨hkind, hword⟩ := Bool.and_eq_true _ _ ▸ h
  have hkeyword : lexeme.toNode.kind = .keyword .dml := beq_iff_eq.1 hkind
  have hnormalized : lexeme.toNode.normalized = "SELECT" :=
    beq_iff_eq.1 (Bool.and_eq_true _ _ ▸ hword).2
  constructor
  · simp [isItem, isOperand, isKind, hkeyword, Kind.isOperand]
  · simp [isSign, isKind, hkeyword]
  · simp [isWord, hnormalized]
  · simp [isWord, hnormalized]

theorem groupRun_append_of_inert {row : List Node} (hrow : ∀ node ∈ row, node.Inert)
    (siblings : List Node) : groupRun (row ++ siblings) = row ++ groupRun siblings := by
  induction row with
  | nil => rfl
  | cons node row ih =>
    rw [List.cons_append, (hrow node List.mem_cons_self).groupRun_cons,
      ih fun other hother => hrow other (List.mem_cons_of_mem _ hother), List.cons_append]

/-- The tree of a query begins with its `SELECT`, and there is no other one among its children. -/
theorem groupAll_of_selectsOnce {filler rest : List Lexeme} {keyword : Lexeme}
    (h : Nests lexemes nodes) (hselects : Lexeme.SelectsOnce lexemes filler keyword rest) :
    ∃ others, groupAll nodes = filler.map Lexeme.toNode ++ keyword.toNode :: others ∧
      ∀ node ∈ others, node.isWord "SELECT" = false := by
  rw [hselects.split_append] at h
  obtain ⟨siblings, rfl, hrest⟩ := Nests.exists_of_append hselects.noOpening h
  have hinert : ∀ node ∈ (filler ++ [keyword]).map Lexeme.toNode, node.Inert := by
    intro node hnode
    obtain ⟨lexeme, hlexeme, rfl⟩ := List.mem_map.1 hnode
    rcases List.mem_append.1 hlexeme with hlexeme | hlexeme
    · exact inert_of_isFiller ((isFiller_all _).trans (hselects.filler lexeme hlexeme))
    · obtain rfl := List.mem_singleton.1 hlexeme
      exact inert_of_isSelect hselects.keyword
  have hleaves : (filler ++ [keyword]).map Lexeme.toNode =
      ((filler ++ [keyword]).map Lexeme.toNode).map groupInside := by
    rw [List.map_map]
    exact List.map_congr_left fun lexeme _ => by simp [Lexeme.toNode, groupInside]
  refine ⟨groupRun (groupInsideAll siblings), ?_, ?_⟩
  · rw [groupAll, groupInsideAll_eq_map, List.map_append, ← hleaves,
      groupRun_append_of_inert hinert, groupInsideAll_eq_map]
    simp
  · intro node hnode
    rw [← Bool.not_eq_true]
    intro hword
    have hkeyword : node.isKeyword = true := (Bool.and_eq_true _ _ ▸ hword).1
    have hbefore := (filter_isKeyword_groupRun _).subset (List.mem_filter.2 ⟨hnode, hkeyword⟩)
    rw [groupInsideAll_eq_map] at hbefore
    obtain ⟨child, hchild, rfl⟩ := List.mem_map.1 (List.mem_filter.1 hbefore).1
    rcases hrest.exists_of_mem hchild with ⟨lexeme, hlexeme, rfl, -⟩ | ⟨_, inner, -, -, rfl⟩
    · have hleaf : lexeme.toNode.groupInside = lexeme.toNode := by simp [Lexeme.toNode, groupInside]
      rw [hleaf, hselects.others lexeme hlexeme] at hword
      cases hword
    · rw [groupInside_parentheses] at hkeyword
      cases hkeyword

end

end Node

end QueryLineage
