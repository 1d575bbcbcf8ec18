import QueryLineage.Proofs.Tree.Parts

/-!
# Boolean expressions

Predicates on names, with `AND` and `OR` between them and parentheses around any part. An expression
is given with its text, the nodes that it is read as and what they are grouped to: between the
connectives each predicate is grouped by itself.
-/

namespace QueryLineage

open Node String

inductive Connective where
  | and
  | or

def Connective.word : Connective → String
  | and => "AND"
  | or => "OR"

/-- What a condition says of its name. -/
inductive Predicate where
  | compare (operator : Operator) (value : Value)
  | isNull
  | isNotNull
  | isIn (negated : Bool) (first : Value) (others : List Value)
  | between (negated : Bool) (low high : Value)

namespace Node

def wordNode (word : String) : Node := leaf (.keyword .generic) word

def nullNode : Node := leaf .literal "NULL"

/-- Parts with a blank before each of them. -/
def behindSpaces (parts : List Node) : List Node :=
  parts.flatMap fun part => [spaceNode, part]

def valueList (first : Value) (others : List Value) : Node :=
  inParentheses (separated ((first :: others).map fun value => [valueNode value]))

end Node

namespace Predicate

def negation (negated : Bool) : List String :=
  if negated then ["NOT"] else []

/-- The parts of the predicate as they are written, with a space between any two of them. -/
def words : Predicate → List String
  | compare operator value => [operator.text, value.text]
  | isNull => ["IS", "NULL"]
  | isNotNull => ["IS", "NOT NULL"]
  | isIn negated first others =>
    negation negated ++ ["IN", "(" ++ ", ".intercalate ((first :: others).map Value.text) ++ ")"]
  | between negated low high => negation negated ++ ["BETWEEN", low.text, "AND", high.text]

def text (predicate : Predicate) : String :=
  " ".intercalate predicate.words

def parts : Predicate → List Node
  | compare operator value => [operatorNode operator, valueNode value]
  | isNull => [wordNode "IS", nullNode]
  | isNotNull => [wordNode "IS", wordNode "NOT NULL"]
  | isIn negated first others =>
    (negation negated).map wordNode ++ [wordNode "IN", valueList first others]
  | between negated low high =>
    (negation negated).map wordNode ++
      [wordNode "BETWEEN", valueNode low, wordNode "AND", valueNode high]

/-- What the name and the parts are grouped to. -/
def grouped (name : DottedName) : Predicate → List Node
  | compare operator value =>
    [group .comparison
      [identifierNode name, spaceNode, operatorNode operator, spaceNode, valueNode value]]
  | predicate =>
    identifierNode name :: behindSpaces (groupInsideAll predicate.parts)

end Predicate

/-- A boolean expression. A connective stands between any two of its operands. -/
inductive Expression where
  | condition (name : DottedName) (predicate : Predicate)
  | connected (connective : Connective) (first : Expression) (others : List Expression)
  | parenthesized (inner : Expression)

namespace Expression

mutual

def text : Expression → String
  | condition name predicate => name.text ++ " " ++ predicate.text
  | connected connective first others => first.text ++ textBehind connective others
  | parenthesized inner => "(" ++ inner.text ++ ")"

/-- The further operands, each behind the connective. -/
def textBehind (connective : Connective) : List Expression → String
  | [] => ""
  | operand :: others =>
    " " ++ connective.word ++ " " ++ operand.text ++ textBehind connective others

end

mutual

def nodes : Expression → List Node
  | condition name predicate => dotted name ++ behindSpaces predicate.parts
  | connected connective first others => first.nodes ++ nodesBehind connective others
  | parenthesized inner => [Node.inParentheses inner.nodes]

def nodesBehind (connective : Connective) : List Expression → List Node
  | [] => []
  | operand :: others =>
    spaceNode :: wordNode connective.word :: spaceNode ::
      (operand.nodes ++ nodesBehind connective others)

end

mutual

/-- What the nodes of the expression are grouped to. -/
def grouped : Expression → List Node
  | condition name predicate => predicate.grouped name
  | connected connective first others => first.grouped ++ groupedBehind connective others
  | parenthesized inner => [Node.inParentheses inner.grouped]

def groupedBehind (connective : Connective) : List Expression → List Node
  | [] => []
  | operand :: others =>
    spaceNode :: wordNode connective.word :: spaceNode ::
      (operand.grouped ++ groupedBehind connective others)

end

mutual

def conditions : Expression → List Attribute
  | condition name predicate => [{ name := name.text, condition? := some predicate.text }]
  | connected _ first others => first.conditions ++ conditionsAll others
  | parenthesized inner => inner.conditions

def conditionsAll : List Expression → List Attribute
  | [] => []
  | operand :: others => operand.conditions ++ conditionsAll others

end

end Expression

namespace Node

/-- The keywords of predicates, and the connectives. -/
def operandWords : List String := ["AND", "OR", "IS", "NOT", "NOT NULL", "IN", "BETWEEN"]

theorem mem_operandWords (connective : Connective) : connective.word ∈ operandWords := by
  cases connective <;> simp [Connective.word, operandWords]

theorem barrier_wordNode {word : String} (h : word ∈ operandWords) : (wordNode word).Barrier := by
  have hwords : ∀ word ∈ operandWords, (wordNode word).isWord "WHERE" = false ∧
      (wordNode word).isWord "CASE" = false ∧
      (wordNode word).isWordIn ["OVER", "AS", "ASC", "DESC"] = false := by decide +kernel
  obtain ⟨hwhere, hcase, hword⟩ := hwords word h
  exact ⟨⟨rfl, rfl, hwhere, hcase⟩, rfl, rfl, rfl, hword⟩

/-- A node that a `WHERE` goes on with and where nothing begins that is grouped by keywords. -/
structure Ordinary (node : Node) : Prop where
  noWhere : node.isWord "WHERE" = false
  noCase : node.isWord "CASE" = false
  goesOn : node.endsWhere = false
  noDml : node.isDml = false

theorem ordinary_wordNode {word : String} (h : word ∈ operandWords) : (wordNode word).Ordinary := by
  have hends : ∀ word ∈ operandWords, (wordNode word).endsWhere = false := by decide +kernel
  exact ⟨(barrier_wordNode h).noWhere, (barrier_wordNode h).noCase, hends word h, rfl⟩

theorem ordinary_of_mem_dotted {name : DottedName} {node : Node} (h : node ∈ dotted name) :
    node.Ordinary := by
  rcases List.mem_cons.1 h with rfl | h
  · exact ⟨rfl, rfl, rfl, rfl⟩
  · obtain ⟨part, -, hpart⟩ := List.mem_flatMap.1 h
    simp only [List.mem_cons, List.not_mem_nil, or_false] at hpart
    rcases hpart with rfl | rfl
    · exact ⟨rfl, rfl, by decide +kernel, rfl⟩
    · exact ⟨rfl, rfl, rfl, rfl⟩

theorem Ordinary.groupInside {node : Node} (h : node.Ordinary) : node.groupInside.Ordinary := by
  unfold Node.groupInside
  split
  · exact ⟨rfl, rfl, rfl, rfl⟩
  · exact h

theorem ordinary_of_mem_parts {predicate : Predicate} {node : Node} (h : node ∈ predicate.parts) :
    node.Ordinary := by
  have hnegation : ∀ negated, ∀ node ∈ (Predicate.negation negated).map wordNode, node.Ordinary := by
    intro negated node hnode
    cases negated with
    | false => simp [Predicate.negation] at hnode
    | true =>
      obtain rfl := List.mem_singleton.1 hnode
      exact ordinary_wordNode (by decide)
  cases predicate with
  | compare operator value =>
    simp only [Predicate.parts, List.mem_cons, List.not_mem_nil, or_false] at h
    rcases h with rfl | rfl <;> exact ⟨rfl, rfl, rfl, rfl⟩
  | isNull =>
    simp only [Predicate.parts, List.mem_cons, List.not_mem_nil, or_false] at h
    rcases h with rfl | rfl
    · exact ordinary_wordNode (by decide)
    · exact ⟨rfl, rfl, rfl, rfl⟩
  | isNotNull =>
    simp only [Predicate.parts, List.mem_cons, List.not_mem_nil, or_false] at h
    rcases h with rfl | rfl <;> exact ordinary_wordNode (by decide)
  | isIn negated first others =>
    rcases List.mem_append.1 h with h | h
    · exact hnegation negated node h
    · simp only [List.mem_cons, List.not_mem_nil, or_false] at h
      rcases h with rfl | rfl
      · exact ordinary_wordNode (by decide)
      · exact ⟨rfl, rfl, rfl, rfl⟩
  | between negated low high =>
    rcases List.mem_append.1 h with h | h
    · exact hnegation negated node h
    · simp only [List.mem_cons, List.not_mem_nil, or_false] at h
      rcases h with rfl | rfl | rfl | rfl
      · exact ordinary_wordNode (by decide)
      · exact ⟨rfl, rfl, rfl, rfl⟩
      · exact ordinary_wordNode (by decide)
      · exact ⟨rfl, rfl, rfl, rfl⟩

end Node

namespace Expression

mutual

theorem ordinary_of_mem_nodes : ∀ {expression : Expression} {node : Node},
    node ∈ expression.nodes → node.Ordinary
  | condition name predicate, node, h => by
    rw [nodes] at h
    rcases List.mem_append.1 h with h | h
    · exact ordinary_of_mem_dotted h
    · obtain ⟨part, hpart, hnode⟩ := List.mem_flatMap.1 h
      simp only [List.mem_cons, List.not_mem_nil, or_false] at hnode
      rcases hnode with rfl | rfl
      · exact ⟨rfl, rfl, rfl, rfl⟩
      · exact ordinary_of_mem_parts hpart
  | connected connective first others, node, h => by
    rw [nodes] at h
    rcases List.mem_append.1 h with h | h
    · exact ordinary_of_mem_nodes h
    · exact ordinary_of_mem_nodesBehind h
  | parenthesized inner, node, h => by
    rw [nodes] at h
    obtain rfl := List.mem_singleton.1 h
    exact ⟨rfl, rfl, rfl, rfl⟩

theorem ordinary_of_mem_nodesBehind : ∀ {connective : Connective} {others : List Expression}
    {node : Node}, node ∈ nodesBehind connective others → node.Ordinary
  | connective, [], node, h => by
    rw [nodesBehind] at h
    cases h
  | connective, operand :: others, node, h => by
    rw [nodesBehind] at h
    simp only [List.mem_cons] at h
    rcases h with rfl | rfl | rfl | h
    · exact ⟨rfl, rfl, rfl, rfl⟩
    · exact ordinary_wordNode (mem_operandWords connective)
    · exact ⟨rfl, rfl, rfl, rfl⟩
    · rcases List.mem_append.1 h with h | h
      · exact ordinary_of_mem_nodes h
      · exact ordinary_of_mem_nodesBehind h

end

end Expression

namespace Node

theorem written_valueList (first : Value) (others : List Value) :
    Written ("(" ++ ", ".intercalate ((first :: others).map Value.text) ++ ")")
      [valueList first others] :=
  (Written.separated (by simp) fun value _ => written_value value).parentheses

theorem written_condition (name : DottedName) (predicate : Predicate) :
    Written (name.text ++ " " ++ predicate.text) (dotted name ++ behindSpaces predicate.parts) := by
  have hword : ∀ word ∈ ["AND", "IS", "IN", "BETWEEN"], Written word [wordNode word] := by
    intro word hword
    have hmem : (⟨.keyword .generic, word⟩ : Lexeme) ∈ Lexeme.keywords := by
      revert word
      decide
    exact written_keyword hmem
  have hnull : Written "NULL" [nullNode] :=
    @written_keyword ⟨.literal, "NULL"⟩ (by decide)
  have hnotNull : Written "NOT NULL" [wordNode "NOT NULL"] :=
    @written_phrase ["NOT", "NULL"] (by decide)
  have hnot : ∀ word ∈ ["IN", "BETWEEN"], ∀ {rest : String} {nodes : List Node}, Written rest nodes →
      Written ("NOT" ++ " " ++ (word ++ " " ++ rest))
        (wordNode "NOT" :: spaceNode :: wordNode word :: spaceNode :: nodes) := by
    intro word hmem rest nodes hrest
    simpa [wordNode, append_assoc] using (written_not hmem).spaced hrest
  -- the texts and nodes of both sides are written out the same way
  cases predicate with
  | compare operator value =>
    have h := (written_dotted name).spaced ((written_operator operator).spaced (written_value value))
    simpa [behindSpaces, Predicate.text, Predicate.words, Predicate.parts, intercalate_cons_cons] using h
  | isNull =>
    have h := (written_dotted name).spaced ((hword "IS" (by decide)).spaced hnull)
    simpa [behindSpaces, Predicate.text, Predicate.words, Predicate.parts, intercalate_cons_cons] using h
  | isNotNull =>
    have h := (written_dotted name).spaced ((hword "IS" (by decide)).spaced hnotNull)
    simpa [behindSpaces, Predicate.text, Predicate.words, Predicate.parts, intercalate_cons_cons] using h
  | isIn negated first others =>
    have hvalues := written_valueList first others
    cases negated with
    | false =>
      have h := (written_dotted name).spaced ((hword "IN" (by decide)).spaced hvalues)
      simpa [behindSpaces, Predicate.text, Predicate.words, Predicate.parts, Predicate.negation,
        intercalate_cons_cons] using h
    | true =>
      have h := (written_dotted name).spaced (hnot "IN" (by decide) hvalues)
      simpa [behindSpaces, Predicate.text, Predicate.words, Predicate.parts, Predicate.negation,
        intercalate_cons_cons] using h
  | between negated low high =>
    have hvalues := (written_value low).spaced ((hword "AND" (by decide)).spaced (written_value high))
    cases negated with
    | false =>
      have h := (written_dotted name).spaced ((hword "BETWEEN" (by decide)).spaced hvalues)
      simpa [behindSpaces, Predicate.text, Predicate.words, Predicate.parts, Predicate.negation,
        intercalate_cons_cons] using h
    | true =>
      have h := (written_dotted name).spaced (hnot "BETWEEN" (by decide) hvalues)
      simpa [behindSpaces, Predicate.text, Predicate.words, Predicate.parts, Predicate.negation,
        intercalate_cons_cons] using h

end Node

namespace Expression

theorem written_connective (connective : Connective) :
    Written connective.word [wordNode connective.word] := by
  have hmem : (⟨.keyword .generic, connective.word⟩ : Lexeme) ∈ Lexeme.keywords := by
    cases connective <;> decide
  exact written_keyword hmem

mutual

theorem written : ∀ expression : Expression, Written expression.text expression.nodes
  | condition name predicate => by
    rw [text, nodes]
    exact written_condition name predicate
  | connected connective first others => by
    rw [text, nodes]
    exact written_behind connective others first.written
  | parenthesized inner => by
    rw [text, nodes]
    exact inner.written.parentheses

/-- The induction is on the operands that follow; those before them are one written text. -/
theorem written_behind (connective : Connective) : ∀ (others : List Expression) {first : String}
    {before : List Node}, Written first before →
      Written (first ++ textBehind connective others) (before ++ nodesBehind connective others)
  | [], first, before, h => by simpa [textBehind, nodesBehind] using h
  | operand :: others, first, before, h => by
    have hnext := (h.spaced (written_connective connective)).spaced operand.written
    simpa [textBehind, nodesBehind, append_assoc] using written_behind connective others hnext

end

end Expression

namespace Node

/-- A leaf that nothing is made of before the last passes over its level. -/
structure Simple (node : Node) : Prop extends node.Ordinary where
  parenthesis : node.isKind .parenthesis = false

theorem groupInside_eq_self {node : Node} (h : node.isKind .parenthesis = false) :
    node.groupInside = node := by
  unfold groupInside
  split
  · exact absurd h (by simp [isKind])
  · rfl

theorem groupInsideAll_of_forall {siblings : List Node}
    (h : ∀ node ∈ siblings, node.isKind .parenthesis = false) : groupInsideAll siblings = siblings := by
  rw [groupInsideAll_eq_map, List.map_congr_left fun node hnode => groupInside_eq_self (h node hnode),
    List.map_id']

theorem groupInsideAll_eq_self {siblings : List Node} (h : ∀ node ∈ siblings, node.Simple) :
    groupInsideAll siblings = siblings :=
  groupInsideAll_of_forall fun node hnode => (h node hnode).parenthesis

theorem simple_of_mem_dotted {name : DottedName} {node : Node} (h : node ∈ dotted name) :
    node.Simple :=
  ⟨ordinary_of_mem_dotted h, isKind_parenthesis_of_mem_dotted name node h⟩

theorem simple_spaceNode : spaceNode.Simple :=
  ⟨⟨rfl, rfl, rfl, rfl⟩, rfl⟩

theorem simple_wordNode {word : String} (h : word ∈ operandWords) : (wordNode word).Simple :=
  ⟨ordinary_wordNode h, rfl⟩

theorem groupInsideAll_dotted (name : DottedName) : groupInsideAll (dotted name) = dotted name :=
  groupInsideAll_eq_self fun _ hnode => simple_of_mem_dotted hnode

theorem groupInsideAll_behindSpaces (parts : List Node) :
    groupInsideAll (behindSpaces parts) = behindSpaces (groupInsideAll parts) := by
  rw [groupInsideAll_eq_map, groupInsideAll_eq_map, behindSpaces, behindSpaces, List.map_flatMap,
    List.flatMap_map]
  rfl

theorem groupLevel_dotted (name : DottedName) : groupLevel (dotted name) = [identifierNode name] :=
  groupLevel_of_groupItems (fun _ hnode => (ordinary_of_mem_dotted hnode).noCase)
    (groupItems_dotted name)

theorem groupLevel_nameNode (name : PlainName) :
    groupLevel [nameNode name.text] = [group .identifier [nameNode name.text]] :=
  groupLevel_dotted ⟨name, []⟩

theorem groupLevel_literal (text : String) :
    groupLevel [leaf .literal text] = [leaf .literal text] := by
  refine groupLevel_of_groupItems (fun node hnode => ?_) (groupItems_literal text)
  obtain rfl := List.mem_singleton.1 hnode
  rfl

theorem groupLevel_valueNode (value : Value) : groupLevel [valueNode value] = [valueNode value] :=
  groupLevel_literal value.text

theorem groupLevel_parentheses (children : List Node) :
    groupLevel [group .parenthesis children] = [group .parenthesis children] := by
  refine groupLevel_of_groupItems (fun node hnode => ?_) (groupItems_parentheses children)
  obtain rfl := List.mem_singleton.1 hnode
  rfl

section

variable {word : String} (hword : word ∈ operandWords)
include hword

theorem groupLevel_wordNode (others : List Node) :
    groupLevel (spaceNode :: wordNode word :: others) =
      spaceNode :: wordNode word :: groupLevel others := by
  rw [inert_spaceNode.groupLevel_cons, (barrier_wordNode hword).toInert.groupLevel_cons]

/-- What stands before a keyword of a predicate is grouped by itself. -/
theorem groupLevel_append_wordNode {siblings : List Node}
    (h : ∀ node ∈ siblings, node.isWord "CASE" = false) (others : List Node) :
    groupLevel (siblings ++ spaceNode :: wordNode word :: others) =
      groupLevel siblings ++ spaceNode :: wordNode word :: groupLevel others :=
  (barrier_wordNode hword).groupLevel_append rfl h others

end

/-- A name, keywords and values are not joined with each other. -/
theorem groupLevel_condition (name : DottedName) (predicate : Predicate) :
    groupLevel (groupInsideAll (dotted name ++ behindSpaces predicate.parts)) =
      predicate.grouped name := by
  have hname : ∀ node ∈ dotted name, node.isWord "CASE" = false :=
    fun _ hnode => (ordinary_of_mem_dotted hnode).noCase
  have hbetween : ∀ low high : Value, groupLevel
      [spaceNode, valueNode low, spaceNode, wordNode "AND", spaceNode, valueNode high] =
        [spaceNode, valueNode low, spaceNode, wordNode "AND", spaceNode, valueNode high] := by
    intro low high
    have hlow : ∀ node ∈ [valueNode low], node.isWord "CASE" = false := by
      intro node hnode
      obtain rfl := List.mem_singleton.1 hnode
      rfl
    have happend := groupLevel_append_wordNode (show "AND" ∈ operandWords by decide) hlow
      [spaceNode, valueNode high]
    rw [inert_spaceNode.groupLevel_cons, groupLevel_valueNode, groupLevel_valueNode] at happend
    rw [inert_spaceNode.groupLevel_cons]
    exact congrArg _ happend
  rw [groupInsideAll_append, groupInsideAll_dotted, groupInsideAll_behindSpaces]
  cases predicate with
  | compare operator value =>
    refine groupLevel_of_groupItems ?_ (groupItems_compareValue name operator value)
    intro node hnode
    rcases List.mem_append.1 hnode with hnode | hnode
    · exact hname node hnode
    · have hmem : node ∈ [spaceNode, operatorNode operator, spaceNode, valueNode value] := hnode
      simp only [List.mem_cons, List.not_mem_nil, or_false] at hmem
      rcases hmem with rfl | rfl | rfl | rfl <;> rfl
  | isNull =>
    have hrow := groupLevel_append_wordNode (show "IS" ∈ operandWords by decide) hname
      [spaceNode, nullNode]
    rwa [groupLevel_dotted, inert_spaceNode.groupLevel_cons, nullNode, groupLevel_literal] at hrow
  | isNotNull =>
    have hrow := groupLevel_append_wordNode (show "IS" ∈ operandWords by decide) hname
      [spaceNode, wordNode "NOT NULL"]
    rwa [groupLevel_dotted, groupLevel_wordNode (by decide), groupLevel_nil] at hrow
  | isIn negated first others =>
    have hvalues : groupLevel [(valueList first others).groupInside] =
        [(valueList first others).groupInside] := by
      rw [valueList, inParentheses, groupInside_parentheses]
      exact groupLevel_parentheses _
    cases negated with
    | false =>
      have hrow := groupLevel_append_wordNode (show "IN" ∈ operandWords by decide) hname
        [spaceNode, (valueList first others).groupInside]
      rwa [groupLevel_dotted, inert_spaceNode.groupLevel_cons, hvalues] at hrow
    | true =>
      have hrow := groupLevel_append_wordNode (show "NOT" ∈ operandWords by decide) hname
        [spaceNode, wordNode "IN", spaceNode, (valueList first others).groupInside]
      rwa [groupLevel_dotted, groupLevel_wordNode (by decide), inert_spaceNode.groupLevel_cons,
        hvalues] at hrow
  | between negated low high =>
    cases negated with
    | false =>
      have hrow := groupLevel_append_wordNode (show "BETWEEN" ∈ operandWords by decide) hname
        [spaceNode, valueNode low, spaceNode, wordNode "AND", spaceNode, valueNode high]
      rwa [groupLevel_dotted, hbetween] at hrow
    | true =>
      have hrow := groupLevel_append_wordNode (show "NOT" ∈ operandWords by decide) hname
        [spaceNode, wordNode "BETWEEN", spaceNode, valueNode low, spaceNode, wordNode "AND", spaceNode,
          valueNode high]
      rwa [groupLevel_dotted, groupLevel_wordNode (by decide), hbetween] at hrow

end Node

namespace Expression

theorem ordinary_of_mem_groupInsideAll {expression : Expression} {node : Node}
    (h : node ∈ groupInsideAll expression.nodes) : node.Ordinary := by
  rw [groupInsideAll_eq_map] at h
  obtain ⟨other, hother, rfl⟩ := List.mem_map.1 h
  exact (ordinary_of_mem_nodes hother).groupInside

mutual

theorem groupLevel_nodes : ∀ expression : Expression,
    groupLevel (groupInsideAll expression.nodes) = expression.grouped
  | condition name predicate => by
    rw [nodes, grouped]
    exact groupLevel_condition name predicate
  | connected connective first others => by
    rw [nodes, grouped, groupInsideAll_append, groupLevel_nodesBehind connective others
      fun node hnode => (ordinary_of_mem_groupInsideAll hnode).noCase, groupLevel_nodes first]
  | parenthesized inner => by
    have hinner : groupAll inner.nodes = inner.grouped := by
      rw [groupAll, groupRun, groupWheres_of_forall fun node hnode =>
        (ordinary_of_mem_groupInsideAll hnode).noWhere, groupLevel_nodes inner]
    have hinside : groupInsideAll [Node.inParentheses inner.nodes] =
        [Node.inParentheses inner.grouped] := by
      rw [groupInsideAll_eq_map, List.map_singleton, Node.inParentheses, groupInside_parentheses,
        hinner]
      rfl
    rw [nodes, grouped, hinside]
    exact groupLevel_parentheses _

theorem groupLevel_nodesBehind (connective : Connective) : ∀ (others : List Expression)
    {siblings : List Node}, (∀ node ∈ siblings, node.isWord "CASE" = false) →
      groupLevel (siblings ++ groupInsideAll (nodesBehind connective others)) =
        groupLevel siblings ++ groupedBehind connective others
  | [], siblings, _ => by
    rw [nodesBehind, groupedBehind, groupInsideAll, List.append_nil, List.append_nil]
  | operand :: others, siblings, h => by
    have hinside : groupInsideAll (nodesBehind connective (operand :: others)) =
        spaceNode :: wordNode connective.word :: spaceNode ::
          (groupInsideAll operand.nodes ++ groupInsideAll (nodesBehind connective others)) := by
      rw [nodesBehind, ← groupInsideAll_append]
      rfl
    rw [hinside, groupLevel_append_wordNode (mem_operandWords connective) h,
      inert_spaceNode.groupLevel_cons, groupLevel_nodesBehind connective others
        fun node hnode => (ordinary_of_mem_groupInsideAll hnode).noCase, groupLevel_nodes operand,
      groupedBehind]

end

theorem noDml_of_mem_grouped {expression : Expression} {node : Node}
    (h : node ∈ expression.grouped) : node.isDml = false := by
  rw [← Bool.not_eq_true]
  intro hdml
  have hkeyword : node.isKeyword = true := by
    rw [isKeyword, beq_iff_eq.1 hdml]
    rfl
  have hkept := (filter_isKeyword_groupExpressions _).trans
    (filter_isKeyword_groupCases (groupInsideAll expression.nodes))
  rw [← groupLevel_nodes] at h
  have hmem := hkept.subset (List.mem_filter.2 ⟨h, hkeyword⟩)
  rw [(ordinary_of_mem_groupInsideAll (List.mem_filter.1 hmem).1).noDml] at hdml
  cases hdml

end Expression

end QueryLineage
