import QueryLineage.Proofs.Clause.Comparison
import QueryLineage.Proofs.Clause.Linked
import QueryLineage.Proofs.Tree.Expression

/-!
# The conditions of an expression

A `WHERE` finds in an expression the predicates it was put together from, from left to right. Each
of them ends before a connective, a closing parenthesis or the end of the clause; the `AND` of a
`BETWEEN` is no connective.
-/

namespace QueryLineage

open Text
open String (toList_append append_assoc intercalate_cons_cons)

theorem Value.text_ne (value : Value) : value.text ≠ "" := by
  intro h
  obtain ⟨c, cs, hlist, -⟩ := Lexeme.exists_of_isValue value.isValue
  rw [h] at hlist
  cases hlist

namespace Node

theorem textAll_separated (values : List Value) :
    textAll (separated (values.map fun value => [valueNode value])) =
      ", ".intercalate (values.map Value.text) := by
  induction values with
  | nil => rfl
  | cons value values ih =>
    cases values with
    | nil => simp [separated, valueNode]
    | cons next values =>
      rw [List.map_cons] at ih
      have hcomma : ", " = "," ++ " " := rfl
      rw [List.map_cons] at ih
      rw [List.map_cons, List.map_cons, separated, textAll_append, textAll_cons, textAll_cons,
        textAll_cons, textAll_nil, ih, List.map_cons, List.map_cons, intercalate_cons_cons, hcomma,
        String.append_empty, append_assoc, append_assoc]
      rfl

theorem built_of_mem_separated (values : List Value) :
    ∀ node ∈ separated (values.map fun value => [valueNode value]), node.Built := by
  induction values with
  | nil => simp [separated]
  | cons value values ih =>
    have hvalue : (valueNode value).Built := .leaf rfl
    cases values with
    | nil => simpa [separated] using hvalue
    | cons next values =>
      intro node hnode
      simp only [List.map_cons, separated, List.singleton_append, List.mem_cons] at hnode
      rcases hnode with rfl | rfl | rfl | hnode
      · exact hvalue
      · exact .leaf rfl
      · exact .leaf rfl
      · exact ih node hnode

theorem text_groupInside_valueList (first : Value) (others : List Value) :
    (valueList first others).groupInside.text =
      "(" ++ ", ".intercalate ((first :: others).map Value.text) ++ ")" := by
  have hbuilt : (valueList first others).Built := by
    refine .group (by simp) fun child hchild => ?_
    rcases List.mem_cons.1 hchild with rfl | hchild
    · exact .leaf rfl
    · rcases List.mem_append.1 hchild with hchild | hchild
      · exact built_of_mem_separated _ child hchild
      · obtain rfl := List.mem_singleton.1 hchild
        exact .leaf rfl
  rw [text_eq_textAll_fringe, hbuilt.fringe_groupInside, ← text_eq_textAll_fringe, valueList,
    inParentheses, text_group, textAll_cons, textAll_append, textAll_separated]
  simp [openingMark, closingMark, append_assoc]

theorem conditionParts_space {waiting after : Bool} {node : Node} {part : String}
    (hfiller : node.isFiller .all = false)
    (hpart : conditionPart? waiting node = some (part, after)) (siblings : List Node) :
    conditionParts waiting (spaceNode :: node :: siblings) =
      (part :: (conditionParts after siblings).1, (conditionParts after siblings).2 + 2) := by
  have hspace : spaceNode.isFiller .all = true := rfl
  rw [conditionParts, if_pos hspace, conditionParts, if_neg (by simp [hfiller]), hpart]

theorem conditionPart?_valueNode (waiting : Bool) (value : Value) :
    conditionPart? waiting (valueNode value) = some (value.text, waiting) := by
  rw [conditionPart?, valueNode, kind_leaf]
  simp [Lexeme.trim_of_isValue value.isValue]

theorem conditionPart?_valueList (waiting : Bool) (first : Value) (others : List Value) :
    conditionPart? waiting (valueList first others).groupInside =
      some ("(" ++ ", ".intercalate ((first :: others).map Value.text) ++ ")", waiting) := by
  have hkind : (valueList first others).groupInside.kind = .parenthesis := rfl
  have htrim : trim ("(" ++ ", ".intercalate ((first :: others).map Value.text) ++ ")") =
      "(" ++ ", ".intercalate ((first :: others).map Value.text) ++ ")" :=
    trim_eq_self_of_ends (by rw [toList_append, toList_append]; rfl) (by decide : isBlank '(' = false)
      (by decide : isBlank ')' = false)
  rw [conditionPart?, hkind, text_groupInside_valueList]
  exact congrArg (fun text => some (text, waiting)) htrim

theorem conditionPart?_wordNode : ∀ word ∈ ["IS", "NOT", "NOT NULL", "IN"],
    conditionPart? false (wordNode word) = some (word, false) := by
  decide +kernel

theorem conditionPart?_nullNode : conditionPart? false nullNode = some ("NULL", false) := by
  decide +kernel

theorem conditionPart?_between : conditionPart? false (wordNode "BETWEEN") = some ("BETWEEN", true) ∧
    conditionPart? true (wordNode "AND") = some ("AND", false) := by
  decide +kernel

theorem conditionParts_connective (connective : Connective) (siblings : List Node) :
    conditionParts false (spaceNode :: wordNode connective.word :: siblings) = ([], 0) := by
  have hspace : spaceNode.isFiller .all = true := rfl
  have hfiller : (wordNode connective.word).isFiller .all = false := rfl
  have hpart : conditionPart? false (wordNode connective.word) = none := by
    cases connective <;> decide +kernel
  rw [conditionParts, if_pos hspace, conditionParts, if_neg (by simp [hfiller]), hpart]

/-- All parts of a predicate that is no comparison are taken, and nothing behind them. -/
theorem conditionParts_parts {predicate : Predicate} {siblings : List Node}
    (h : ∀ operator value, predicate ≠ .compare operator value)
    (hend : conditionParts false siblings = ([], 0)) :
    conditionParts false (behindSpaces (groupInsideAll predicate.parts) ++ siblings) =
      (predicate.words, (behindSpaces (groupInsideAll predicate.parts)).length) := by
  have hword : ∀ word ∈ ["IS", "NOT", "NOT NULL", "IN"], ∀ others,
      conditionParts false (spaceNode :: wordNode word :: others) =
        (word :: (conditionParts false others).1, (conditionParts false others).2 + 2) :=
    fun word hword others => conditionParts_space rfl (conditionPart?_wordNode word hword) others
  cases predicate with
  | compare operator value => exact absurd rfl (h operator value)
  | isNull =>
    refine (hword "IS" (by decide) (spaceNode :: nullNode :: siblings)).trans ?_
    rw [conditionParts_space rfl conditionPart?_nullNode, hend]
    rfl
  | isNotNull =>
    refine (hword "IS" (by decide) (spaceNode :: wordNode "NOT NULL" :: siblings)).trans ?_
    rw [hword _ (by decide), hend]
    rfl
  | isIn negated first others =>
    have hin : conditionParts false (spaceNode :: wordNode "IN" :: spaceNode ::
        (valueList first others).groupInside :: siblings) =
          (["IN", "(" ++ ", ".intercalate ((first :: others).map Value.text) ++ ")"], 4) := by
      rw [hword _ (by decide), conditionParts_space rfl (conditionPart?_valueList _ _ _), hend]
    cases negated with
    | false => exact hin
    | true =>
      refine (hword "NOT" (by decide) (spaceNode :: wordNode "IN" :: spaceNode ::
        (valueList first others).groupInside :: siblings)).trans ?_
      rw [hin]
      rfl
  | between negated low high =>
    have hbetween : conditionParts false (spaceNode :: wordNode "BETWEEN" :: spaceNode ::
        valueNode low :: spaceNode :: wordNode "AND" :: spaceNode :: valueNode high :: siblings) =
          (["BETWEEN", low.text, "AND", high.text], 8) := by
      rw [conditionParts_space rfl conditionPart?_between.1,
        conditionParts_space rfl (conditionPart?_valueNode _ _),
        conditionParts_space rfl conditionPart?_between.2,
        conditionParts_space rfl (conditionPart?_valueNode _ _), hend]
    cases negated with
    | false => exact hbetween
    | true =>
      refine (hword "NOT" (by decide) (spaceNode :: wordNode "BETWEEN" :: spaceNode ::
        valueNode low :: spaceNode :: wordNode "AND" :: spaceNode :: valueNode high ::
          siblings)).trans ?_
      rw [hbetween]
      rfl

/-- A predicate that is no comparison begins with a keyword, and something follows it. -/
theorem exists_words_of_not_compare {predicate : Predicate}
    (h : ∀ operator value, predicate ≠ .compare operator value) :
    ∃ word value values others, predicate.words = word :: value :: values ∧
      groupInsideAll predicate.parts = wordNode word :: others ∧
      word ∈ ["IS", "NOT", "IN", "BETWEEN"] ∧ value ≠ "" := by
  have hvalues : ∀ text : String, "(" ++ text ++ ")" ≠ "" := by
    intro text heq
    have hlist := congrArg String.toList heq
    simp at hlist
  cases predicate with
  | compare operator value => exact absurd rfl (h operator value)
  | isNull => exact ⟨_, _, _, _, rfl, rfl, by decide, by decide⟩
  | isNotNull => exact ⟨_, _, _, _, rfl, rfl, by decide, by decide⟩
  | isIn negated first others =>
    cases negated with
    | false => exact ⟨_, _, _, _, rfl, rfl, by decide, hvalues _⟩
    | true => exact ⟨_, _, _, _, rfl, rfl, by decide, by decide⟩
  | between negated low high =>
    cases negated with
    | false => exact ⟨_, _, _, _, rfl, rfl, by decide, low.text_ne⟩
    | true => exact ⟨_, _, _, _, rfl, rfl, by decide, by decide⟩

section

variable {name : DottedName} {predicate : Predicate} {siblings : List Node}
  (hend : conditionParts false siblings = ([], 0))
include hend

theorem keywordCondition_parts (h : ∀ operator value, predicate ≠ .compare operator value) :
    keywordCondition (identifierNode name)
        (behindSpaces (groupInsideAll predicate.parts) ++ siblings) =
      (some { name := name.text, condition? := some predicate.text },
        (behindSpaces (groupInsideAll predicate.parts)).length) := by
  obtain ⟨word, value, values, others, hwords, hparts, hword, hvalue⟩ :=
    exists_words_of_not_compare h
  have hstarts : startsCondition (behindSpaces (groupInsideAll predicate.parts) ++ siblings) = true := by
    have hkeyword : ∀ word ∈ ["IS", "NOT", "IN", "BETWEEN"],
        (!(wordNode word).isConnective) = true := by decide +kernel
    have hfind : (behindSpaces (wordNode word :: others) ++ siblings).find?
        (fun node => !node.isFiller .all) = some (wordNode word) := rfl
    rw [hparts, startsCondition, hfind, Option.any_some, hkeyword word hword]
    rfl
  have hne : " ".intercalate (value :: values) ≠ "" := by
    cases values with
    | nil => rwa [String.intercalate_singleton]
    | cons next values =>
      intro heq
      rw [intercalate_cons_cons, String.append_eq_empty_iff, String.append_eq_empty_iff] at heq
      exact hvalue heq.1.1
  have hupper : ∀ word ∈ ["IS", "NOT", "IN", "BETWEEN"], upper word = word := by decide +kernel
  have htext : predicate.text = word ++ " " ++ " ".intercalate (value :: values) := by
    rw [Predicate.text, hwords, intercalate_cons_cons]
  rw [keywordCondition, if_pos hstarts, conditionParts_parts h hend, hwords]
  simp only
  rw [text_identifierNode, trim_eq_self name.isBlank_of_mem,
    Attribute.withCondition_of_ne (hupper word hword) hne, htext]

omit hend in
theorem conditionsFrom_length_append (first : List Node) :
    conditionsFrom first.length (first ++ siblings) = conditionsFrom 0 siblings := by
  induction first with
  | nil => rfl
  | cons node first ih => rw [List.length_cons, List.cons_append, conditionsFrom, ih]

/-- A predicate is one condition, whatever ends it. -/
theorem conditionsFrom_predicate {found : List Attribute}
    (hfound : conditionsFrom 0 siblings = .ok found) :
    conditionsFrom 0 (predicate.grouped name ++ siblings) =
      .ok ({ name := name.text, condition? := some predicate.text } :: found) := by
  by_cases h : ∀ operator value, predicate ≠ .compare operator value
  · have hgrouped : predicate.grouped name =
        identifierNode name :: behindSpaces (groupInsideAll predicate.parts) := by
      cases predicate with
      | compare operator value => exact absurd rfl (h operator value)
      | _ => rfl
    rw [hgrouped, List.cons_append, conditionsFrom_cons_operand (Or.inl rfl)
      (keywordCondition_parts hend h), conditionsFrom_length_append, hfound]
    rfl
  · obtain ⟨operator, value, rfl⟩ : ∃ operator value, predicate = .compare operator value := by
      cases predicate with
      | compare operator value => exact ⟨operator, value, rfl⟩
      | _ => exact absurd (fun _ _ => Predicate.noConfusion) h
    have htrim : trim (valueNode value).text = (valueNode value).text :=
      Lexeme.trim_of_isValue value.isValue
    have htext : (Predicate.compare operator value).text =
        operator.text ++ " " ++ (valueNode value).text := by
      rw [Predicate.text, Predicate.words, intercalate_cons_cons, String.intercalate_singleton]
      rfl
    rw [Predicate.grouped, List.singleton_append, conditionsFrom_cons (by simp) (by simp),
      conditions, kind_group, comparison_eq_ok name operator htrim value.text_ne, hfound, htext]
    rfl

end

end Node

namespace Expression

open Node

theorem conditionParts_groupedBehind (connective : Connective) (others : List Expression)
    {siblings : List Node} (hend : conditionParts false siblings = ([], 0)) :
    conditionParts false (groupedBehind connective others ++ siblings) = ([], 0) := by
  cases others with
  | nil => rwa [groupedBehind]
  | cons operand others =>
    rw [groupedBehind]
    exact conditionParts_connective connective _

mutual

/-- The conditions of an expression are found before those behind it. -/
theorem conditionsFrom_grouped : ∀ (expression : Expression) {siblings : List Node}
    {found : List Attribute}, conditionParts false siblings = ([], 0) →
      conditionsFrom 0 siblings = .ok found →
      conditionsFrom 0 (expression.grouped ++ siblings) = .ok (expression.conditions ++ found)
  | condition name predicate, siblings, found, hend, hfound => by
    rw [grouped, conditions]
    exact conditionsFrom_predicate hend hfound
  | connected connective first others, siblings, found, hend, hfound => by
    rw [grouped, conditions, List.append_assoc, List.append_assoc]
    exact conditionsFrom_grouped first (conditionParts_groupedBehind connective others hend)
      (conditionsFrom_groupedBehind connective others hend hfound)
  | parenthesized inner, siblings, found, hend, hfound => by
    have hclosing : conditionsFrom 0 (inner.grouped ++ [closingMark]) = .ok inner.conditions := by
      have hinner := @conditionsFrom_grouped inner [closingMark] [] rfl rfl
      rwa [List.append_nil] at hinner
    have hselect : (Node.inParentheses inner.grouped).isSubselect = false := by
      have hany : (openingMark :: (inner.grouped ++ [closingMark])).any isDml = false := by
        rw [List.any_eq_false]
        intro node hnode
        rw [Bool.not_eq_true]
        rcases List.mem_cons.1 hnode with rfl | hnode
        · rfl
        · rcases List.mem_append.1 hnode with hnode | hnode
          · exact noDml_of_mem_grouped hnode
          · obtain rfl := List.mem_singleton.1 hnode
            rfl
      rw [isSubselect, Node.inParentheses, hasDml, children_group, hany, Bool.and_false]
    have hinside : (Node.inParentheses inner.grouped).innerConditions = .ok inner.conditions := by
      rw [Node.inParentheses, innerConditions, conditionsFrom_cons_of_passed rfl, hclosing]
    have hconditions : (Node.inParentheses inner.grouped).conditions = .ok inner.conditions := by
      have hkind : (Node.inParentheses inner.grouped).kind = .parenthesis := rfl
      rw [Node.conditions, hkind]
      simp only [hselect, Bool.false_eq_true, if_false, hinside]
    rw [grouped, conditions, List.singleton_append,
      conditionsFrom_cons (by simp [Node.inParentheses]) (by simp [Node.inParentheses]), hconditions,
      hfound]
    rfl

theorem conditionsFrom_groupedBehind (connective : Connective) : ∀ (others : List Expression)
    {siblings : List Node} {found : List Attribute}, conditionParts false siblings = ([], 0) →
      conditionsFrom 0 siblings = .ok found →
      conditionsFrom 0 (groupedBehind connective others ++ siblings) =
        .ok (conditionsAll others ++ found)
  | [], siblings, found, hend, hfound => by rwa [groupedBehind, conditionsAll]
  | operand :: others, siblings, found, hend, hfound => by
    have hoperand := conditionsFrom_grouped operand
      (conditionParts_groupedBehind connective others hend)
      (conditionsFrom_groupedBehind connective others hend hfound)
    rw [groupedBehind, conditionsAll, List.cons_append, List.cons_append, List.cons_append,
      conditionsFrom_cons_of_passed rfl, conditionsFrom_cons_of_passed rfl,
      conditionsFrom_cons_of_passed rfl, List.append_assoc, List.append_assoc]
    exact hoperand

end

end Expression

namespace Node

/-- The clause of an expression in a query, up to what ends it. -/
theorem exists_whereClause (name : String) (expression : Expression) {tail others : List Node}
    (htail : tail = [] ∨ tail = [spaceNode]) (hothers : ∀ node ∈ others.head?, node.endsWhere = true) :
    ∃ clause, (groupRun (selectNode :: spaceNode :: starNode :: spaceNode :: fromNode :: spaceNode ::
        nameNode name :: spaceNode :: whereNode ::
          (spaceNode :: (groupInsideAll expression.nodes ++ tail) ++ others))).find?
            (fun node => node.kind == .whereClause) = some clause ∧
      clause.conditions = .ok expression.conditions := by
  have hordinary : ∀ node ∈ groupInsideAll expression.nodes, node.Ordinary :=
    fun _ hnode => Expression.ordinary_of_mem_groupInsideAll hnode
  have htail' : ∀ node ∈ tail, node.endsWhere = false := by
    rcases htail with rfl | rfl
    · simp
    · intro node hnode
      obtain rfl := List.mem_singleton.1 hnode
      rfl
  have hbefore : ∀ node ∈ spaceNode :: (groupInsideAll expression.nodes ++ tail),
      node.endsWhere = false := by
    intro node hnode
    rcases List.mem_cons.1 hnode with rfl | hnode
    · rfl
    · rcases List.mem_append.1 hnode with hnode | hnode
      · exact (hordinary node hnode).goesOn
      · exact htail' node hnode
  have hlevel : groupLevel (groupInsideAll expression.nodes ++ tail) = expression.grouped ++ tail := by
    rcases htail with rfl | rfl
    · rw [List.append_nil, List.append_nil, expression.groupLevel_nodes]
    · rw [groupLevel_append_space fun node hnode => (hordinary node hnode).noCase,
        expression.groupLevel_nodes]
  have hfound : conditionsFrom 0 (expression.grouped ++ tail) = .ok expression.conditions := by
    have hend : conditionParts false tail = ([], 0) ∧ conditionsFrom 0 tail = .ok [] := by
      rcases htail with rfl | rfl <;> exact ⟨rfl, rfl⟩
    have hfound := expression.conditionsFrom_grouped hend.1 hend.2
    rwa [List.append_nil] at hfound
  refine ⟨group .whereClause (whereNode :: spaceNode :: (expression.grouped ++ tail)), ?_, ?_⟩
  · rw [groupRun_selectStarFrom, groupRun, groupWheres_cons rfl, groupWheres_cons rfl,
      groupWheres_whereNode_append hbefore hothers, (endsName_whereClause _).groupLevel_name,
      inert_spaceNode.groupLevel_cons, hlevel]
    rfl
  · rw [conditions, kind_group]
    simp only [innerConditions]
    rw [conditionsFrom_cons_of_passed rfl, conditionsFrom_cons_of_passed rfl, hfound]

end Node

/-- A text that can be read by itself and begins with a keyword that ends a `WHERE`. -/
structure Lexeme.ClosesWhere (text : String) : Prop where
  keyword : ∃ first lexemes, ofText text = .ok (first :: lexemes) ∧
    first.toNode.isWordIn Keyword.whereTerminators = true
  readable : ∃ trees, Node.statementsOfText text false = .ok trees

theorem Node.written_where (name : PlainName) (expression : Expression) :
    Written ("SELECT * FROM " ++ name.text ++ " WHERE " ++ expression.text)
      (selectNode :: spaceNode :: starNode :: spaceNode :: fromNode :: spaceNode ::
        nameNode name.text :: spaceNode :: whereNode :: spaceNode :: expression.nodes) := by
  have hwhere : Written "WHERE" [whereNode] :=
    @written_keyword ⟨.keyword .generic, "WHERE"⟩ (by decide)
  have htext : " WHERE " = " " ++ "WHERE" ++ " " := by decide
  rw [htext, ← append_assoc, ← append_assoc]
  exact ((written_selectStarFrom name).spaced hwhere).spaced expression.written

/-- The conditions of a `WHERE` are those of the expression that is written in it, from left to
right, whatever ends the clause. -/
theorem conditions_of_statementsOfText_where (name : PlainName) (expression : Expression)
    {behind? : Option String} (hbehind : ∀ behind ∈ behind?, Lexeme.ClosesWhere behind)
    (stripComments : Bool) : ∃ tree trees clause,
      Node.statementsOfText ("SELECT * FROM " ++ name.text ++ " WHERE " ++ expression.text ++
        behind?.elim "" (" " ++ ·)) stripComments = .ok (tree :: trees) ∧
      tree.children.find? (fun node => node.kind == .whereClause) = some clause ∧
      clause.conditions = .ok expression.conditions := by
  have hwritten := Node.written_where name expression
  cases behind? with
  | none =>
    obtain ⟨clause, hclause, hconditions⟩ :=
      @Node.exists_whereClause name.text expression [] [] (Or.inl rfl) (by simp)
    rw [List.append_nil, List.append_nil] at hclause
    simp only [Option.elim_none, String.append_empty]
    exact ⟨_, [], clause, hwritten.statementsOfText rfl stripComments, hclause, hconditions⟩
  | some behind =>
    obtain ⟨⟨first, lexemes, hread, hword⟩, ⟨trees, htrees⟩⟩ := hbehind behind rfl
    obtain ⟨lexemes', nodes, hread', hgroup, -⟩ := Node.statementsOfText_eq_ok_iff.1 htrees
    obtain rfl := Except.ok.inj (hread.symm.trans hread')
    have hkeyword : first.toNode.isKeyword = true := (Bool.and_eq_true_iff.1 hword).1
    obtain ⟨rest, others, hstatements⟩ := hwritten.statementsOfText_behind rfl hread hkeyword
      (Node.Pairs.groupParentheses_eq_ok_iff.1 hgroup) stripComments
    have hends : ∀ node ∈ (first.toNode :: Node.groupInsideAll rest).head?, node.endsWhere = true := by
      rintro node ⟨⟩
      rw [Node.endsWhere, hword, Bool.or_true]
    obtain ⟨clause, hclause, hconditions⟩ :=
      Node.exists_whereClause name.text expression (Or.inr rfl) hends
    have hinside : Node.groupInsideAll (expression.nodes ++ Node.spaceNode :: first.toNode :: rest) =
        Node.groupInsideAll expression.nodes ++ [Node.spaceNode] ++
          first.toNode :: Node.groupInsideAll rest := by
      rw [Node.groupInsideAll_append, List.append_assoc]
      rfl
    rw [List.cons_append, ← hinside] at hclause
    simp only [Option.elim_some, ← append_assoc]
    exact ⟨_, others, clause, hstatements, hclause, hconditions⟩

/-- A disjunction in parentheses before the `AND` of a conjunction and that of a `BETWEEN`. -/
def Expression.disjunctionAndBetween : Expression :=
  .connected .and
    (.parenthesized (.connected .or
      (.condition ⟨.a, [.b]⟩ (.compare .equal ⟨"1", by decide +kernel⟩))
      [.condition ⟨.c, []⟩ .isNull]))
    [.condition ⟨.d, []⟩ (.between true ⟨"2", by decide +kernel⟩ ⟨"'x'", by decide +kernel⟩)]

theorem conditions_of_disjunctionAndBetween : ∃ tree trees clause,
    Node.statementsOfText
      "SELECT * FROM t WHERE (a.b = 1 OR c IS NULL) AND d NOT BETWEEN 2 AND 'x' GROUP BY d" false =
        .ok (tree :: trees) ∧
      tree.children.find? (fun node => node.kind == .whereClause) = some clause ∧
      clause.conditions = .ok [{ name := "a.b", condition? := some "= 1" },
        { name := "c", condition? := some "IS NULL" },
        { name := "d", condition? := some "NOT BETWEEN 2 AND 'x'" }] := by
  have hcloses : ∀ behind ∈ some "GROUP BY d", Lexeme.ClosesWhere behind := by
    rintro behind ⟨⟩
    refine ⟨⟨⟨.keyword .generic, "GROUP BY"⟩, [.space, ⟨.name, "d"⟩], by decide +kernel,
      by decide +kernel⟩, ?_⟩
    have hok : (Node.statementsOfText "GROUP BY d" false).toBool = true := by decide +kernel
    cases htrees : Node.statementsOfText "GROUP BY d" false with
    | error error =>
      rw [htrees] at hok
      cases hok
    | ok trees => exact ⟨trees, rfl⟩
  exact conditions_of_statementsOfText_where .t .disjunctionAndBetween hcloses false

end QueryLineage
