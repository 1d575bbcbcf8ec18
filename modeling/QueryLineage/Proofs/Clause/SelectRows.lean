import QueryLineage.Proofs.Clause.Declaration
import QueryLineage.Proofs.Tree.SelectRows

/-!
# The steps of queries that select rows

What stands in rows that the select list does not take is read outside of all clauses: it yields
steps that do nothing, or none. So the columns of the query are those of the list.
-/

namespace QueryLineage

namespace Node

/-- A row of a select list: what may stand between its commas without ending the list or opening
something that is closed elsewhere. -/
structure IsRow (row : List Node) : Prop where
  comma : ∀ node ∈ row, node.isMark "," = false
  closed : ∀ node ∈ row, node.isMark ")" = false
  noClause : ∀ node ∈ row,
    node.opensClause = false ∧ node.endsWhere = false ∧ node.isWord "WHERE" = false
  blocks : blocksBehind? 0 row = some 0
  significant : ∃ node ∈ row, node.isFiller .all = false

/-- A word before the rows, such as `DISTINCT`, or filler. -/
structure IsLead (node : Node) : Prop where
  kind : (node.isFiller .all || node.isKeyword) = true
  opens : node.opensClause = false
  noWhere : node.isWord "WHERE" = false
  noCase : node.isWord "CASE" = false

/-- A node at which nothing is read once the select list has been. -/
structure IsIdle (node : Node) : Prop where
  opens : node.opensClause = false
  clause : node.kind ≠ .whereClause
  noWhere : node.isWord "WHERE" = false

theorem StandsFor.opensClause {other node : Node} (h : StandsFor other node) :
    other.opensClause = node.opensClause := by
  have hkeyword := h.isKeyword
  cases h with
  | refl => rfl
  | parentheses _ _ | blank _ _ =>
    rw [opensClause_of_not_keyword rfl, opensClause_of_not_keyword (hkeyword.symm.trans rfl)]

theorem StandsFor.isIdle {other node : Node} (h : StandsFor other node) (hnode : node.IsIdle) :
    other.IsIdle where
  opens := by rw [h.opensClause, hnode.opens]
  clause := by
    cases h with
    | refl => exact hnode.clause
    | parentheses _ _ | blank _ _ => exact Kind.noConfusion
  noWhere := by rw [h.isWord, hnode.noWhere]

theorem isIdle_group {kind : Kind} (hkind : kind.isGroup = true) (hclause : kind ≠ .whereClause)
    (children : List Node) : (group kind children).IsIdle :=
  ⟨opensClause_of_not_keyword (isKeyword_group hkind children), hclause, isWord_group hkind children _⟩

/-- Grouping makes no clauses where there is no `WHERE`. -/
theorem closed_isIdle : Closed IsIdle where
  call _ _ _ _ _ _ := isIdle_group rfl (by decide) _
  identifier _ _ _ _ _ _ := isIdle_group rfl (by decide) _
  sign _ _ _ _ _ _ := isIdle_group rfl (by decide) _
  operation _ _ _ _ _ _ := isIdle_group rfl (by decide) _
  comparison _ _ _ _ _ _ := isIdle_group rfl (by decide) _
  named _ _ _ _ _ _ := isIdle_group rfl (by decide) _
  aliased _ _ _ _ _ _ := isIdle_group rfl (by decide) _
  directed node siblings n _ _ _ := by
    unfold attach
    split <;> exact isIdle_group rfl (by decide) _
  commented node siblings n _ _ _ := by
    unfold attach
    split <;> exact isIdle_group rfl (by decide) _
  listed _ _ _ _ _ _ := isIdle_group rfl (by decide) _
  caseBlock _ _ _ _ _ _ _ _ := isIdle_group rfl (by decide) _
  clause node inner hword _ hnode _ := by
    rw [hnode.noWhere] at hword
    cases hword

theorem isIdle_of_mem_groupAll {row : List Node} (hrow : ∀ node ∈ row, node.IsIdle)
    (stripComments : Bool) : ∀ node ∈ groupAll (stripped stripComments row), node.IsIdle := by
  rw [groupAll, groupInsideAll_stripped]
  refine closed_isIdle.groupRun _ fun node hnode => ?_
  obtain ⟨other, hother, rfl⟩ := List.mem_map.1 hnode
  exact (standsFor_prepared stripComments other).isIdle (hrow other hother)

theorem IsRow.isIdle {row : List Node} (h : IsRow row) (hrow : ∀ node ∈ row, Bracketed node) :
    ∀ node ∈ row, node.IsIdle := by
  intro node hnode
  obtain ⟨hopens, -, hwhere⟩ := h.noClause node hnode
  refine ⟨hopens, fun hkind => ?_, hwhere⟩
  cases hrow node hnode with
  | lexeme hleaf =>
    rw [Lexeme.toNode, kind_leaf] at hkind
    rw [hkind] at hleaf
    cases hleaf
  | parentheses _ _ _ => cases hkind

theorem isPart_and_items {list : Node} {items : List Node}
    (h : items = [list] ∧ list.isItem = true ∨
      ∃ children, list = group .identifierList children ∧ significant children = items) :
    list.IsPart ∧ list.items = items := by
  rcases h with ⟨rfl, hitem⟩ | ⟨children, rfl, hsignificant⟩
  · have hkind : list.kind ≠ .identifierList := by
      intro hkind
      rw [isItem, isOperand, isKind, isKind, hkind] at hitem
      cases hitem
    exact ⟨Or.inl hitem, items_of_kind_ne hkind⟩
  · exact ⟨Or.inr rfl, hsignificant⟩

/-- A query that selects rows holds no semicolons outside of its parentheses. -/
theorem not_semicolon_of_mem_selectRows {words : List Node} {rows : List (List Node)}
    (source : PlainName) (hwords : ∀ node ∈ words, node.IsLead) (hrows : ∀ row ∈ rows, IsRow row) :
    ∀ node ∈ selectRows words rows source, node.isMark ";" = false := by
  intro node hnode
  rw [selectRows, List.mem_cons, List.mem_append, List.mem_append] at hnode
  rcases hnode with rfl | hnode | hnode | hnode
  · rfl
  · have hkind := (hwords node hnode).kind
    rw [isFiller_all, isWhitespace, isComment, isKeyword] at hkind
    refine isMark_of_kind_ne fun hmark => ?_
    rw [hmark] at hkind
    cases hkind
  · exact forall_mem_commaSeparated (fun node => node.isMark ";" = false) (by decide)
      (fun row hrow other hother =>
        (Bool.or_eq_false_iff.1 ((hrows row hrow).noClause other hother).2.1).1) node hnode
  · simp only [behindRows, List.mem_cons, List.not_mem_nil, or_false] at hnode
    rcases hnode with rfl | rfl | rfl | rfl <;> rfl

end Node

namespace Step

/-- Behind the select list, nodes at which no clause begins are read in vain. -/
theorem exists_idle (parent : Node) {row : List Node} (hrow : ∀ node ∈ row, node.IsIdle)
    (comment text : String) (rest : List Node) :
    ∃ idle later shown, ofSiblings parent { comment, text } (row ++ rest) =
        idle ++ ofSiblings parent { comment := later, text := shown } rest ∧
      ∀ step ∈ idle, ∃ comment text, step = .read .outside .nothing comment text := by
  induction row generalizing comment text with
  | nil => exact ⟨[], comment, text, rfl, by simp⟩
  | cons node row ih =>
    have hothers : ∀ other ∈ row, other.IsIdle :=
      fun other hother => hrow other (List.mem_cons_of_mem _ hother)
    have hnode := hrow node List.mem_cons_self
    cases hpassed : node.isFiller .all || node.isPunctuation || node.isKeyword with
    | true =>
      obtain ⟨between, taken, hadvance⟩ := @Reader.exists_advance_passed
        { comment, text } rfl node hnode.opens hpassed (row ++ rest)
      rw [List.cons_append, ofSiblings_cons, hadvance]
      exact ih hothers between taken
    | false =>
      obtain ⟨idle, later, shown, hsteps, hidle⟩ := ih hothers comment (text ++ node.text)
      refine ⟨.read .outside .nothing comment (text ++ node.text) :: idle, later, shown, ?_, ?_⟩
      · have hlegible := Node.legible_of_not_passed hpassed hnode.clause
        rw [List.cons_append, ofSiblings_read parent hlegible (by decide) rfl, hsteps,
          List.cons_append]
      · exact List.forall_mem_cons.2 ⟨⟨_, _, rfl⟩, hidle⟩

/-- The steps of a query that selects rows. The list is read where it stands, and what the rows have
besides is read in vain. -/
theorem exists_ofNode_selectRows {words : List Node} {rows : List (List Node)} (source : PlainName)
    (stripComments : Bool) (hwords : ∀ node ∈ words, node.IsLead)
    (hrows : ∀ row ∈ rows, Node.IsRow row) (hnodes : ∀ row ∈ rows, ∀ node ∈ row, Node.Bracketed node)
    (hitems : Node.listedItems
      (rows.map fun row => Node.groupAll (Node.stripped stripComments row)) ≠ []) :
    ∃ idle comment first later second text,
      ofNode (Node.statement (Node.stripped stripComments (Node.selectRows words rows source))) =
        .select :: .read .selectList (.columns ((Node.listedItems
            (rows.map fun row => Node.groupAll (Node.stripped stripComments row))).map
              Node.column)) comment first ::
          (idle ++ [.read .fromList (.sources [.named source.text none]) later second,
            .finish text]) ∧
      ∀ step ∈ idle, ∃ comment text, step = .read .outside .nothing comment text := by
  obtain ⟨before, list, rest, htree, hbefore, hlist, hrest⟩ := Node.exists_groupAll_selectRows source
    stripComments (fun node hnode => ⟨(hwords node hnode).kind, (hwords node hnode).noWhere,
      (hwords node hnode).noCase⟩) (fun row hrow => (hrows row hrow).comma)
    (fun row hrow node hnode => ((hrows row hrow).noClause node hnode).2.2)
    (fun row hrow => (hrows row hrow).blocks) hitems
  obtain ⟨hpart, hlistItems⟩ := Node.isPart_and_items hlist
  have hlead : ∀ node ∈ words.map (Node.prepared stripComments) ++ before,
      node.opensClause = false ∧ (node.isFiller .all || node.isPunctuation || node.isKeyword) = true := by
    intro node hnode
    rcases List.mem_append.1 hnode with hnode | hnode
    · obtain ⟨other, hother, rfl⟩ := List.mem_map.1 hnode
      have hstands := Node.standsFor_prepared stripComments other
      have hkind := (hwords other hother).kind
      rw [hstands.opensClause, hstands.isFiller, hstands.isKeyword]
      refine ⟨(hwords other hother).opens, ?_⟩
      rcases Bool.or_eq_true_iff.1 hkind with hkind | hkind <;>
        simp only [hkind, Bool.true_or, Bool.or_true]
    · exact ⟨Node.opensClause_of_not_keyword (Node.not_keyword_of_filler (hbefore node hnode)),
        by rw [hbefore node hnode]; rfl⟩
  have hidle : ∀ node ∈ Node.joinOnce Node.listExtent (Node.enclose .identifierList) rest,
      node.IsIdle := by
    refine Node.forall_mem_joinOnce Node.closed_isIdle.listed rest fun node hnode => ?_
    rcases hrest node hnode with rfl | ⟨row, hrow, hmem⟩
    · exact ⟨Node.opensClause_of_not_keyword rfl, Kind.noConfusion, rfl⟩
    · exact Node.isIdle_of_mem_groupAll ((hrows row hrow).isIdle (hnodes row hrow)) stripComments
        node hmem
  have hselect : ∀ more, Reader.advance {} Node.selectNode more =
      ([.select], some ({ clause := .selectList, text := "SELECT" }, 0)) :=
    advance_select isSelect_selectNode "" ""
  rw [ofNode, Node.statement, Node.children_group, htree]
  generalize Node.group .statement _ = parent
  obtain ⟨comment, text, hwordSteps⟩ := exists_passed parent hlead .selectList "" "SELECT" (list ::
    (Node.joinOnce Node.listExtent (Node.enclose .identifierList) rest ++ [Node.spaceNode, Node.fromNode,
      Node.spaceNode, Node.group .identifier [Node.nameNode source.text]]))
  obtain ⟨idle, later, shown, hrestSteps, hidleSteps⟩ := exists_idle parent hidle comment
    (text ++ list.text)
    [Node.spaceNode, Node.fromNode, Node.spaceNode, Node.group .identifier [Node.nameNode source.text]]
  refine ⟨idle, comment, text ++ list.text, later, shown ++ " " ++ "FROM" ++ " " ++
    (Node.group .identifier [Node.nameNode source.text]).text, shown ++ " " ++ "FROM" ++ " " ++
    (Node.group .identifier [Node.nameNode source.text]).text, ?_, hidleSteps⟩
  rw [ofSiblings_cons, hselect, resume, List.drop_zero, List.singleton_append, ← List.append_assoc,
    hwordSteps, ofSiblings_selectList _ hpart, hlistItems, hrestSteps, ofSiblings_space,
    ofSiblings_from, ofSiblings_space, ofSiblings_source, Node.source_name]

end Step

end QueryLineage
