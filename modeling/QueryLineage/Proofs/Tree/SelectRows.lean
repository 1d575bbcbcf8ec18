import QueryLineage.Proofs.Tree.SelectList

/-!
# Queries that select rows

The tree of a query whose select list consists of any rows. Comments may be taken out of the rows,
and what they have in parentheses is grouped before them; neither makes a row a different one.
-/

namespace QueryLineage.Node

/-- A node in the place of another: that node itself, parentheses for parentheses, or a blank for a
comment. -/
inductive StandsFor : Node → Node → Prop
  | refl (node : Node) : StandsFor node node
  | parentheses {node : Node} (h : node.kind = .parenthesis) (children : List Node) :
      StandsFor (group .parenthesis children) node
  | blank {node : Node} (h : node.kind = .comment) (text : String) :
      StandsFor (leaf .whitespace text) node

namespace StandsFor

variable {other node : Node} (h : StandsFor other node)
include h

theorem trans {third : Node} (hother : StandsFor third other) : StandsFor third node := by
  cases h with
  | refl => exact hother
  | parentheses hkind children =>
    cases hother with
    | refl => exact .parentheses hkind _
    | parentheses _ others => exact .parentheses hkind others
    | blank hcomment _ => cases hcomment
  | blank hkind text =>
    cases hother with
    | refl => exact .blank hkind _
    | parentheses hparenthesis _ => cases hparenthesis
    | blank hcomment _ => cases hcomment

theorem isKeyword : other.isKeyword = node.isKeyword := by
  cases h with
  | refl => rfl
  | parentheses hkind _ | blank hkind _ => rw [Node.isKeyword, Node.isKeyword, hkind]; rfl

theorem isWord (word : String) : other.isWord word = node.isWord word := by
  have hkeyword := h.isKeyword
  cases h with
  | refl => rfl
  | parentheses hkind _ | blank hkind _ => rw [Node.isWord, Node.isWord, ← hkeyword]; rfl

theorem isMark (mark : String) : other.isMark mark = node.isMark mark := by
  cases h with
  | refl => rfl
  | parentheses hkind _ | blank hkind _ =>
    rw [Node.isMark, Node.isMark, isPunctuation, isPunctuation, hkind]; rfl

theorem isWordIn (words : List String) : other.isWordIn words = node.isWordIn words := by
  have hkeyword := h.isKeyword
  cases h with
  | refl => rfl
  | parentheses hkind _ | blank hkind _ => rw [Node.isWordIn, Node.isWordIn, ← hkeyword]; rfl

theorem endsWhere : other.endsWhere = node.endsWhere := by
  rw [Node.endsWhere, Node.endsWhere, h.isMark, h.isWordIn]

theorem isFiller : other.isFiller .all = node.isFiller .all := by
  cases h with
  | refl => rfl
  | parentheses hkind _ | blank hkind _ =>
    rw [isFiller_all, isFiller_all, isWhitespace, isWhitespace, isComment, isComment, hkind]; rfl

theorem isSubstantial : other.isSubstantial = node.isSubstantial := by
  rw [Node.isSubstantial, Node.isSubstantial, h.isFiller, h.isMark]

end StandsFor

theorem standsFor_groupInside (node : Node) : StandsFor node.groupInside node := by
  unfold groupInside
  split
  · exact .parentheses rfl _
  · exact .refl _

theorem standsFor_withoutComments (node : Node) : StandsFor node.withoutComments node := by
  unfold withoutComments
  split
  · exact .blank rfl _
  · exact .parentheses rfl _
  · exact .refl _
  · exact .blank rfl _
  · exact .parentheses rfl _
  · exact .refl _

def uncommented (stripComments : Bool) (node : Node) : Node :=
  if stripComments then node.withoutComments else node

/-- A node as it is grouped with its siblings. -/
def prepared (stripComments : Bool) (node : Node) : Node :=
  (node.uncommented stripComments).groupInside

theorem standsFor_uncommented (stripComments : Bool) (node : Node) :
    StandsFor (node.uncommented stripComments) node := by
  cases stripComments with
  | false => exact .refl node
  | true => exact standsFor_withoutComments node

theorem standsFor_prepared (stripComments : Bool) (node : Node) :
    StandsFor (node.prepared stripComments) node :=
  (standsFor_uncommented stripComments node).trans (standsFor_groupInside _)

theorem stripped_eq_map (stripComments : Bool) (nodes : List Node) :
    stripped stripComments nodes = nodes.map (uncommented stripComments) := by
  cases stripComments with
  | false => exact (List.map_id' nodes).symm
  | true => exact withoutCommentsAll_eq_map nodes

theorem groupInsideAll_stripped (stripComments : Bool) (nodes : List Node) :
    groupInsideAll (stripped stripComments nodes) = nodes.map (prepared stripComments) := by
  rw [groupInsideAll_eq_map, stripped_eq_map, List.map_map]
  rfl

/-- Nodes without semicolons outside of their parentheses are one statement. -/
theorem statementsOfText_of_forall {sql : String} {lexemes : List Lexeme} {nodes : List Node}
    (hread : Lexeme.ofText sql = .ok lexemes)
    (hnodes : groupParentheses sql (lexemes.map Lexeme.toNode) = .ok nodes)
    (hsemicolon : ∀ node ∈ nodes, node.isMark ";" = false)
    (hsubstantial : ∃ node ∈ nodes, node.isSubstantial = true) (stripComments : Bool) :
    statementsOfText sql stripComments = .ok [statement (stripped stripComments nodes)] := by
  have hmark : ∀ node ∈ stripped stripComments nodes, node.isMark ";" = false := by
    intro node hnode
    rw [stripped_eq_map] at hnode
    obtain ⟨other, hother, rfl⟩ := List.mem_map.1 hnode
    rw [(standsFor_uncommented stripComments other).isMark, hsemicolon other hother]
  have hany : (stripped stripComments nodes).any isSubstantial = true := by
    obtain ⟨node, hnode, hsub⟩ := hsubstantial
    rw [List.any_eq_true, stripped_eq_map]
    refine ⟨_, List.mem_map_of_mem hnode, ?_⟩
    rw [(standsFor_uncommented stripComments node).isSubstantial, hsub]
  have hcut : cutAtSemicolons (stripped stripComments nodes) = [stripped stripComments nodes] := by
    simpa using @cutAtSemicolons_append_of_forall (stripped stripComments nodes) [] _ _ hmark rfl
  have hsplit : splitStatements (stripped stripComments nodes) = [stripped stripComments nodes] := by
    rw [splitStatements, hcut, List.filter_cons, if_pos hany, List.filter_nil]
  rw [statementsOfText_eq_ok_iff]
  refine ⟨lexemes, nodes, hread, hnodes, ?_⟩
  rw [← stripped, hsplit]
  rfl

theorem inert_of_word {node : Node} (h : (node.isFiller .all || node.isKeyword) = true)
    (hwhere : node.isWord "WHERE" = false) (hcase : node.isWord "CASE" = false) : node.Inert := by
  rw [isFiller_all, isWhitespace, isComment, isKeyword] at h
  refine ⟨?_, ?_, hwhere, hcase⟩
  · rw [isItem, isOperand, isKind, isKind]
    cases hkind : node.kind <;> simp_all [Kind.isOperand, Kind.isKeyword]
  · rw [isSign, isKind]
    cases hkind : node.kind <;> simp_all [Kind.isKeyword]

section

variable {row : List Node} (hcomma : ∀ node ∈ row, node.isMark "," = false)
  (hwhere : ∀ node ∈ row, node.isWord "WHERE" = false) (stripComments : Bool)

include hwhere in
theorem not_where_of_mem_row :
    ∀ node ∈ row.map (prepared stripComments), node.isWord "WHERE" = false := by
  intro node hnode
  obtain ⟨other, hother, rfl⟩ := List.mem_map.1 hnode
  rw [(standsFor_prepared stripComments other).isWord, hwhere other hother]

include hcomma in
theorem not_comma_of_mem_row :
    ∀ node ∈ groupItems (groupCases (row.map (prepared stripComments))), node.isMark "," = false := by
  have hclosed : Closed fun node => node.isMark "," = false :=
    closed_of_groups fun _ children hkind => isMark_group hkind children ","
  refine hclosed.groupItems _ (hclosed.groupCases _ fun node hnode => ?_)
  obtain ⟨other, hother, rfl⟩ := List.mem_map.1 hnode
  rw [(standsFor_prepared stripComments other).isMark, hcomma other hother]

include hcomma hwhere in
/-- A row without commas and without `WHERE` is grouped without lists. -/
theorem groupAll_row : groupAll (stripped stripComments row) =
    groupItems (groupCases (row.map (prepared stripComments))) := by
  rw [groupAll, groupInsideAll_stripped, groupRun,
    groupWheres_of_forall (not_where_of_mem_row hwhere stripComments), groupLevel, groupExpressions_eq,
    joinOnce_listExtent_of_forall (not_comma_of_mem_row hcomma stripComments)]

end

def behindRows (source : PlainName) : List Node :=
  [spaceNode, fromNode, spaceNode, nameNode source.text]

/-- The nodes of a query that selects rows, with words before them. -/
def selectRows (words : List Node) (rows : List (List Node)) (source : PlainName) : List Node :=
  selectNode :: (words ++ (commaSeparated rows ++ behindRows source))

theorem groupCases_behindRows (source : PlainName) :
    groupCases (behindRows source) = behindRows source := by
  rw [behindRows, groupCases_cons rfl, groupCases_cons inert_fromNode.noCase, groupCases_cons rfl,
    groupCases_cons rfl, groupCases]

theorem bounded_behindRows (source : PlainName) : Bounded (behindRows source) :=
  .spaced rfl barrier_fromNode.toDivider _

theorem groupItems_behindRows (source : PlainName) :
    groupItems (behindRows source) =
      [spaceNode, fromNode, spaceNode, group .identifier [nameNode source.text]] := by
  have hname : groupItems [nameNode source.text] = [group .identifier [nameNode source.text]] :=
    groupItems_dotted ⟨source, []⟩
  rw [behindRows, inert_spaceNode.groupItems_cons, inert_fromNode.groupItems_cons,
    inert_spaceNode.groupItems_cons, hname]

theorem prepared_selectRows (stripComments : Bool) (words : List Node) (rows : List (List Node))
    (source : PlainName) : (selectRows words rows source).map (prepared stripComments) =
      selectNode :: (words.map (prepared stripComments) ++
        (commaSeparated (rows.map (·.map (prepared stripComments))) ++ behindRows source)) := by
  have hcomma : prepared stripComments commaNode = commaNode := by
    cases stripComments <;> rfl
  have hselect : prepared stripComments selectNode = selectNode := by
    cases stripComments <;> rfl
  have hbehind : (behindRows source).map (prepared stripComments) = behindRows source := by
    cases stripComments <;> rfl
  rw [selectRows, List.map_cons, List.map_append, List.map_append, commaSeparated_map _ hcomma,
    hselect, hbehind]

theorem groupWheres_rows {rows : List (List Node)}
    (hwhere : ∀ row ∈ rows, ∀ node ∈ row, node.isWord "WHERE" = false) (stripComments : Bool)
    (source : PlainName) :
    groupWheres (commaSeparated (rows.map (·.map (prepared stripComments))) ++ behindRows source) =
      commaSeparated (rows.map (·.map (prepared stripComments))) ++ behindRows source := by
  refine groupWheres_of_forall fun node hnode => ?_
  rcases List.mem_append.1 hnode with hnode | hnode
  · refine forall_mem_commaSeparated (fun node => node.isWord "WHERE" = false)
      barrier_commaNode.noWhere (fun row hrow => ?_) node hnode
    obtain ⟨other, hother, rfl⟩ := List.mem_map.1 hrow
    exact not_where_of_mem_row (hwhere other hother) stripComments
  · simp only [behindRows, List.mem_cons, List.not_mem_nil, or_false] at hnode
    rcases hnode with rfl | rfl | rfl | rfl
    exacts [rfl, inert_fromNode.noWhere, rfl, rfl]

/-- The rows of a query are grouped one by one, and the items that the list takes of them are the
first part behind the words. -/
theorem exists_groupAll_selectRows {words : List Node} {rows : List (List Node)} (source : PlainName)
    (stripComments : Bool)
    (hwords : ∀ node ∈ words, (node.isFiller .all || node.isKeyword) = true ∧
      node.isWord "WHERE" = false ∧ node.isWord "CASE" = false)
    (hcomma : ∀ row ∈ rows, ∀ node ∈ row, node.isMark "," = false)
    (hwhere : ∀ row ∈ rows, ∀ node ∈ row, node.isWord "WHERE" = false)
    (hblocks : ∀ row ∈ rows, blocksBehind? 0 row = some 0)
    (hitems : listedItems (rows.map fun row => groupAll (stripped stripComments row)) ≠ []) :
    ∃ before list rest, groupAll (stripped stripComments (selectRows words rows source)) =
        selectNode :: (words.map (prepared stripComments) ++ (before ++
          list :: (joinOnce listExtent (enclose .identifierList) rest ++
            [spaceNode, fromNode, spaceNode, group .identifier [nameNode source.text]]))) ∧
      (∀ node ∈ before, node.isFiller .all = true) ∧
      (listedItems (rows.map fun row => groupAll (stripped stripComments row)) = [list] ∧
          list.isItem = true ∨
        ∃ children, list = group .identifierList children ∧ significant children =
          listedItems (rows.map fun row => groupAll (stripped stripComments row))) ∧
      ∀ node ∈ rest, node = commaNode ∨ ∃ row ∈ rows, node ∈ groupAll (stripped stripComments row) := by
  have hgrouped : (rows.map fun row => groupAll (stripped stripComments row)) =
      (rows.map (·.map (prepared stripComments))).map fun row => groupItems (groupCases row) := by
    rw [List.map_map]
    exact List.map_congr_left fun row hrow =>
      groupAll_row (hcomma row hrow) (hwhere row hrow) stripComments
  have hmarks : ∀ row ∈ rows.map fun row => groupAll (stripped stripComments row),
      ∀ node ∈ row, node.isMark "," = false := by
    intro row hrow
    obtain ⟨other, hother, rfl⟩ := List.mem_map.1 hrow
    rw [groupAll_row (hcomma other hother) (hwhere other hother)]
    exact not_comma_of_mem_row (hcomma other hother) stripComments
  have hne : rows.map (·.map (prepared stripComments)) ≠ [] := by
    intro hnil
    rw [hgrouped, hnil] at hitems
    exact hitems rfl
  have hends : ∀ row ∈ rows.map (·.map (prepared stripComments)), blocksBehind? 0 row = some 0 := by
    intro row hrow
    obtain ⟨other, hother, rfl⟩ := List.mem_map.1 hrow
    rw [blocksBehind?_map fun node word => (standsFor_prepared stripComments node).isWord word,
      hblocks other hother]
  have hinert : ∀ node ∈ words.map (prepared stripComments), node.Inert := by
    intro node hnode
    obtain ⟨other, hother, rfl⟩ := List.mem_map.1 hnode
    have hstands := standsFor_prepared stripComments other
    obtain ⟨hkind, hwhere, hcase⟩ := hwords other hother
    exact inert_of_word (by rw [hstands.isFiller, hstands.isKeyword, hkind])
      (by rw [hstands.isWord, hwhere]) (by rw [hstands.isWord, hcase])
  have hspares : SparesAll listExtent (groupItems (behindRows source)) :=
    (bounded_behindRows source).groupItems.sparesAll_list (by rw [groupItems_behindRows]; rfl)
  have hlast : joinOnce listExtent (enclose .identifierList) (groupItems (behindRows source)) =
      groupItems (behindRows source) := by
    refine joinOnce_listExtent_of_forall fun node hnode => ?_
    rw [groupItems_behindRows] at hnode
    simp only [List.mem_cons, List.not_mem_nil, or_false] at hnode
    rcases hnode with rfl | rfl | rfl | rfl <;> rfl
  obtain ⟨before, list, rest, hlist, hbefore, hitem, hrest⟩ :=
    exists_joinOnce_commaSeparated hmarks hitems
  refine ⟨before, list, rest, ?_, hbefore, hitem, fun node hnode => ?_⟩
  · rw [groupAll, groupInsideAll_stripped, prepared_selectRows, inert_selectNode.groupRun_cons,
      groupRun_append_of_inert hinert, groupRun, groupWheres_rows hwhere, groupLevel,
      groupExpressions_eq, groupItems_commaSeparated hends
        (by rw [groupCases_behindRows]; exact bounded_behindRows source) hne,
      groupCases_behindRows, hspares.joinOnce_append, ← hgrouped, hlist, hlast, groupItems_behindRows,
      List.append_assoc, List.cons_append]
  · refine forall_mem_commaSeparated
      (fun node => node = commaNode ∨ ∃ row ∈ rows, node ∈ groupAll (stripped stripComments row))
      (Or.inl rfl) (fun row hrow node hnode => ?_) node (hrest node hnode)
    obtain ⟨other, hother, rfl⟩ := List.mem_map.1 hrow
    exact Or.inr ⟨other, hother, hnode⟩

end QueryLineage.Node
