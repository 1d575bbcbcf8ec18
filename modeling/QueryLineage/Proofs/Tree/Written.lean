import QueryLineage.Proofs.Lexeme.Seat
import QueryLineage.Proofs.Lexeme.Written
import QueryLineage.Proofs.Tree.Conditions
import QueryLineage.Proofs.Tree.Plain

/-!
# Written parts of queries

A part of a query that is written out becomes the same nodes wherever it stands before a delimiter.
Parts are put together with blanks, with commas and in parentheses; the nodes of the whole are then
put together in the same way.
-/

namespace QueryLineage

open Text Pattern

instance (name : String) : Decidable (Lexeme.IsPlain name) :=
  decidable_of_iff (word? name.toList = some name.toList.length ∧
    Lexeme.ofText name = .ok [⟨.name, name⟩] ∧
    ∀ words ∈ keywordPhrases, 1 < words.length → ∀ word ∈ words,
      spelling? word.toList name.toList ≠ some name.toList.length)
    ⟨fun h => ⟨⟨h.1, h.2.1⟩, h.2.2⟩, fun h => ⟨h.word, h.read, h.apart⟩⟩

/-- A name in the form of a word that is no part of a keyword. -/
structure PlainName where
  text : String
  isPlain : Lexeme.IsPlain text

namespace PlainName

/-! Names of one letter, of which the examples are made. -/

def a : PlainName := ⟨"a", by decide +kernel⟩

def b : PlainName := ⟨"b", by decide +kernel⟩

def c : PlainName := ⟨"c", by decide +kernel⟩

def d : PlainName := ⟨"d", by decide +kernel⟩

def t : PlainName := ⟨"t", by decide +kernel⟩

def x : PlainName := ⟨"x", by decide +kernel⟩

def y : PlainName := ⟨"y", by decide +kernel⟩

def z : PlainName := ⟨"z", by decide +kernel⟩

end PlainName

/-- A name of one part, or of more with dots between them. -/
structure DottedName where
  first : PlainName
  others : List PlainName := []

def DottedName.text (name : DottedName) : String :=
  name.first.text ++ String.join (name.others.map fun part => "." ++ part.text)

theorem DottedName.text_cons (first second : PlainName) (others : List PlainName) :
    DottedName.text ⟨first, second :: others⟩ =
      first.text ++ ("." ++ DottedName.text ⟨second, others⟩) := by
  simp [DottedName.text, String.append_assoc]

theorem DottedName.isDecimal_head (name : DottedName) (behind : String) :
    ∀ c ∈ (name.text ++ behind).toList.head?, isDecimal c = false := by
  obtain ⟨c, cs, hlist, -, hdigit⟩ := name.first.isPlain.isWord.start
  rw [DottedName.text, String.toList_append, String.toList_append, hlist]
  rintro d ⟨⟩
  exact hdigit

/-- A number or a string. -/
structure Value where
  text : String
  isValue : Lexeme.IsValue text

def comparisonOperators : List String :=
  comparisonMarks ++ matchPhrases.map (" ".intercalate ·)

structure Operator where
  text : String
  mem : text ∈ comparisonOperators

def Operator.equal : Operator := ⟨"=", by decide +kernel⟩

def Operator.less : Operator := ⟨"<", by decide +kernel⟩

namespace Node

def dotNode : Node := leaf .punctuation "."

def commaNode : Node := leaf .punctuation ","

def operatorNode (operator : Operator) : Node := leaf .comparisonOperator operator.text

def valueNode (value : Value) : Node := leaf .literal value.text

/-- The nodes of a name before they are joined. -/
def dotted (name : DottedName) : List Node :=
  nameNode name.first.text :: name.others.flatMap fun part => [dotNode, nameNode part.text]

def separated : List (List Node) → List Node
  | [] => []
  | [row] => row
  | row :: next :: rows => row ++ commaNode :: spaceNode :: separated (next :: rows)

def inParentheses (siblings : List Node) : Node :=
  group .parenthesis (openingMark :: (siblings ++ [closingMark]))

/-- The text becomes the nodes wherever it stands before a delimiter. It has neither comments nor
semicolons. -/
structure Written (text : String) (nodes : List Node) : Prop where
  visible : ∃ c cs, text.toList = c :: cs ∧ isBlank c = false
  exists_lexemes : ∃ lexemes,
    (∀ rest others, Lexeme.Delimits rest → Lexeme.Reads rest others →
      Lexeme.Reads (text.toList ++ rest) (lexemes ++ others)) ∧
    Nests lexemes nodes ∧
    ∀ lexeme ∈ lexemes, lexeme.kind ≠ .comment ∧ lexeme.isMark ";" = false

namespace Written

variable {first second : String} {nodes others : List Node}

theorem of_stands {lexeme : Lexeme} (h : lexeme.Stands) (hkind : lexeme.kind ≠ .punctuation)
    (hcomment : lexeme.kind ≠ .comment) : Written lexeme.text [lexeme.toNode] where
  visible := by
    obtain ⟨c, cs, hlist, hc, -⟩ := h.visible
    exact ⟨c, cs, hlist, hc⟩
  exists_lexemes := by
    have hmark : ∀ mark, lexeme.isMark mark = false := fun mark => Lexeme.isMark_of_kind_ne hkind
    refine ⟨[lexeme], fun rest others hrest hread => h.reads hrest hread,
      .lexeme (hmark _) (hmark _) .nil, fun other hother => ?_⟩
    obtain rfl := List.mem_singleton.1 hother
    exact ⟨hcomment, hmark _⟩

theorem head_visible (h : Written first nodes) (rest : List Char) :
    ∀ c ∈ (first.toList ++ rest).head?, isBlank c = false := by
  obtain ⟨c, cs, hlist, hc⟩ := h.visible
  rw [hlist]
  rintro d ⟨⟩
  exact hc

theorem append (h : Written first nodes) (hsecond : Written second others)
    (hdelimits : Lexeme.Delimits second.toList) :
    Written (first ++ second) (nodes ++ others) := by
  obtain ⟨c, cs, hlist, hc⟩ := h.visible
  obtain ⟨lexemes, hreads, hnests, hkinds⟩ := h.exists_lexemes
  obtain ⟨more, hreads', hnests', hkinds'⟩ := hsecond.exists_lexemes
  refine ⟨⟨c, cs ++ second.toList, by rw [String.toList_append, hlist]; rfl, hc⟩, lexemes ++ more,
    fun rest others hrest hread => ?_, hnests.append hnests', ?_⟩
  · have hsecondRead := hreads' rest others hrest hread
    obtain ⟨d, ds, hlist', -⟩ := hsecond.visible
    rw [String.toList_append, List.append_assoc, List.append_assoc]
    apply hreads _ _ _ hsecondRead
    rw [hlist'] at hdelimits ⊢
    exact hdelimits
  · exact fun lexeme hlexeme => (List.mem_append.1 hlexeme).elim (hkinds _) (hkinds' _)

theorem spaced (h : Written first nodes) (hsecond : Written second others) :
    Written (first ++ " " ++ second) (nodes ++ spaceNode :: others) := by
  obtain ⟨c, cs, hlist, hc⟩ := h.visible
  obtain ⟨lexemes, hreads, hnests, hkinds⟩ := h.exists_lexemes
  obtain ⟨more, hreads', hnests', hkinds'⟩ := hsecond.exists_lexemes
  refine ⟨⟨c, cs ++ ' ' :: second.toList, ?_, hc⟩, lexemes ++ Lexeme.space :: more,
    fun rest others hrest hread => ?_, hnests.append (.lexeme rfl rfl hnests'), ?_⟩
  · simp [hlist]
  · have hsecondRead := (hreads' rest others hrest hread).space (hsecond.head_visible rest)
    have happend := hreads _ _ (Lexeme.delimits_cons (by decide) _) hsecondRead
    simpa using happend
  · intro lexeme hlexeme
    rcases List.mem_append.1 hlexeme with hlexeme | hlexeme
    · exact hkinds lexeme hlexeme
    · rcases List.mem_cons.1 hlexeme with rfl | hlexeme
      · exact ⟨by decide, rfl⟩
      · exact hkinds' lexeme hlexeme

theorem parentheses (h : Written first nodes) :
    Written ("(" ++ first ++ ")") [inParentheses nodes] := by
  obtain ⟨lexemes, hreads, hnests, hkinds⟩ := h.exists_lexemes
  refine ⟨⟨'(', first.toList ++ [')'], by simp, by decide⟩,
    Lexeme.opening :: (lexemes ++ [Lexeme.closing]), fun rest others hrest hread => ?_,
    .parentheses hnests .nil, ?_⟩
  · have hclosing := hreads _ _ (Lexeme.delimits_cons (by decide) _) hread.closing
    simpa using hclosing.opening
  · intro lexeme hlexeme
    rcases List.mem_cons.1 hlexeme with rfl | hlexeme
    · exact ⟨by decide, rfl⟩
    · rcases List.mem_append.1 hlexeme with hlexeme | hlexeme
      · exact hkinds lexeme hlexeme
      · obtain rfl := List.mem_singleton.1 hlexeme
        exact ⟨by decide, rfl⟩

theorem comma : Written "," [commaNode] := by
  refine ⟨⟨',', [], rfl, by decide⟩, [⟨.punctuation, ","⟩], fun rest others _ hread => ?_,
    .lexeme rfl rfl .nil, ?_⟩
  · have hcomma : ",".toList = [','] := rfl
    rw [hcomma, List.singleton_append]
    exact Lexeme.Reads.cons (n := 0) (by simp [opensComment]) rfl hread
  · intro lexeme hlexeme
    obtain rfl := List.mem_singleton.1 hlexeme
    exact ⟨by decide, rfl⟩

theorem separated {α : Type} {text : α → String} {row : α → List Node} {items : List α}
    (hne : items ≠ []) (h : ∀ item ∈ items, Written (text item) (row item)) :
    Written (", ".intercalate (items.map text)) (Node.separated (items.map row)) := by
  induction items with
  | nil => exact absurd rfl hne
  | cons item items ih =>
    have hitem := h item List.mem_cons_self
    cases items with
    | nil => simpa [Node.separated] using hitem
    | cons next items =>
      have hrest := ih (by simp) fun other hother => h other (List.mem_cons_of_mem _ hother)
      have hdelimits : Lexeme.Delimits
          ("," ++ " " ++ ", ".intercalate ((next :: items).map text)).toList := by
        rw [String.toList_append, String.toList_append]
        exact Lexeme.delimits_cons (by decide) _
      have hcomma : ", " = "," ++ " " := rfl
      have happend := hitem.append (comma.spaced hrest) hdelimits
      simpa [Node.separated, hcomma, String.append_assoc] using happend

theorem spacedAll {α : Type} {text : α → String} {row : α → List Node}
    (hitem : ∀ item, Written (text item) (row item)) (h : Written first nodes) (items : List α) :
    Written (first ++ String.join (items.map fun item => " " ++ text item))
      (nodes ++ items.flatMap fun item => spaceNode :: row item) := by
  induction items generalizing first nodes with
  | nil => simpa using h
  | cons item items ih => simpa [String.append_assoc] using ih (h.spaced (hitem item))

end Written

theorem written_name (name : PlainName) : Written name.text [nameNode name.text] :=
  .of_stands name.isPlain.stands Kind.noConfusion Kind.noConfusion

theorem written_value (value : Value) : Written value.text [valueNode value] :=
  .of_stands (Lexeme.stands_value value.isValue) Kind.noConfusion Kind.noConfusion

theorem written_operator (operator : Operator) : Written operator.text [operatorNode operator] := by
  have hstands : Lexeme.Stands ⟨.comparisonOperator, operator.text⟩ := by
    rcases List.mem_append.1 operator.mem with hmark | hform
    · exact Lexeme.stands_comparisonMark hmark
    · obtain ⟨words, hwords, heq⟩ := List.mem_map.1 hform
      rw [← heq]
      exact Lexeme.stands_likeForm words hwords
  exact .of_stands hstands Kind.noConfusion Kind.noConfusion

theorem written_keyword {lexeme : Lexeme} (h : lexeme ∈ Lexeme.keywords) :
    Written lexeme.text [lexeme.toNode] := by
  have hkinds : ∀ lexeme ∈ Lexeme.keywords, lexeme.kind ≠ .punctuation ∧ lexeme.kind ≠ .comment := by
    decide
  exact .of_stands (Lexeme.stands_of_mem_keywords lexeme h) (hkinds lexeme h).1 (hkinds lexeme h).2

theorem written_phrase {words : List String} (h : words ∈ keywordPhrases) :
    Written (" ".intercalate words) [leaf (.keyword .generic) (" ".intercalate words)] :=
  .of_stands (Lexeme.stands_phrase words h) Kind.noConfusion Kind.noConfusion

theorem written_star : Written "*" [starNode] := by
  refine ⟨⟨'*', [], rfl, by decide⟩, [⟨.wildcard, "*"⟩], fun rest others _ hread => ?_,
    .lexeme rfl rfl .nil, ?_⟩
  · have hstar : "*".toList = ['*'] := rfl
    rw [hstar, List.singleton_append]
    exact Lexeme.Reads.cons (n := 0) (by simp [opensComment]) rfl hread
  · intro lexeme hlexeme
    obtain rfl := List.mem_singleton.1 hlexeme
    exact ⟨by decide, rfl⟩

/-- A keyword before something that does not make one keyword with it. -/
theorem Written.behindKeyword {word second : String} {others : List Node}
    (hword : Word word.toList) (hkind : LexRule.wordKind word.toList [] = .keyword .generic)
    (h : Written second others)
    (hapart : ∀ rest, phraseIn? keywordPhrases (word.toList ++ ' ' :: (second.toList ++ rest)) = none ∧
      phraseIn? matchPhrases (word.toList ++ ' ' :: (second.toList ++ rest)) = none) :
    Written (word ++ " " ++ second) (leaf (.keyword .generic) word :: spaceNode :: others) := by
  obtain ⟨c, cs, hlist, hc, -⟩ := Lexeme.BeginsWord.visible hword.start
  obtain ⟨lexemes, hreads, hnests, hkinds⟩ := h.exists_lexemes
  refine ⟨⟨c, cs ++ ' ' :: second.toList, by simp [hlist], hc⟩,
    ⟨.keyword .generic, word⟩ :: Lexeme.space :: lexemes, fun rest others hrest hread => ?_,
    .lexeme rfl rfl (.lexeme rfl rfl hnests), ?_⟩
  · have hread := Lexeme.Reads.word hword (hapart rest).1 (hapart rest).2
      ((hreads rest others hrest hread).space (h.head_visible rest))
    rw [hkind, String.ofList_toList] at hread
    simpa using hread
  · intro lexeme hlexeme
    simp only [List.mem_cons] at hlexeme
    rcases hlexeme with rfl | rfl | hlexeme
    · exact ⟨Kind.noConfusion, rfl⟩
    · exact ⟨Kind.noConfusion, rfl⟩
    · exact hkinds lexeme hlexeme

/-- `NOT` before a keyword that does not make one keyword with it. -/
theorem written_not {word : String} (h : word ∈ ["IN", "BETWEEN"]) :
    Written ("NOT " ++ word)
      [leaf (.keyword .generic) "NOT", spaceNode, leaf (.keyword .generic) word] := by
  have hkeyword : (⟨.keyword .generic, word⟩ : Lexeme) ∈ Lexeme.keywords := by
    revert word
    decide
  have hnot : "NOT " = "NOT" ++ " " := by decide
  rw [hnot]
  refine (written_keyword hkeyword).behindKeyword (Lexeme.word_of_decide (by decide +kernel))
    (by decide +kernel) fun rest => ?_
  simp only [List.mem_cons, List.not_mem_nil, or_false] at h
  rcases h with rfl | rfl <;> exact ⟨rfl, rfl⟩

theorem Written.dot (first : PlainName) {second : String} {others : List Node}
    (h : Written second others) (hdigit : ∀ c ∈ second.toList.head?, isDecimal c = false) :
    Written (first.text ++ ("." ++ second)) (nameNode first.text :: dotNode :: others) := by
  obtain ⟨lexemes, hreads, hnests, hkinds⟩ := h.exists_lexemes
  obtain ⟨c, cs, hlist, hc, -⟩ := first.isPlain.stands.visible
  obtain ⟨d, ds, hlist', -⟩ := h.visible
  refine ⟨⟨c, cs ++ ("." ++ second).toList, ?_, hc⟩,
    ⟨.name, first.text⟩ :: ⟨.punctuation, "."⟩ :: lexemes,
    fun rest more hrest hread => ?_, .lexeme rfl rfl (.lexeme rfl rfl hnests), ?_⟩
  · rw [String.toList_append, hlist]
    rfl
  · have hsecond := hreads rest more hrest hread
    rw [hlist', List.cons_append] at hsecond
    have hfirst := first.isPlain.reads_dot
      (Lexeme.Reads.dot (hdigit d (by rw [hlist']; rfl)) hsecond)
    rw [← List.cons_append, ← hlist'] at hfirst
    simpa using hfirst
  · intro lexeme hlexeme
    simp only [List.mem_cons] at hlexeme
    rcases hlexeme with rfl | rfl | hlexeme
    · exact ⟨Kind.noConfusion, rfl⟩
    · exact ⟨Kind.noConfusion, rfl⟩
    · exact hkinds lexeme hlexeme

theorem written_dotted (name : DottedName) : Written name.text (dotted name) := by
  obtain ⟨first, others⟩ := name
  induction others generalizing first with
  | nil => simpa [DottedName.text, dotted] using written_name first
  | cons second others ih =>
    have hdigit := DottedName.isDecimal_head ⟨second, others⟩ ""
    rw [String.append_empty] at hdigit
    rw [DottedName.text_cons]
    exact (ih second).dot first hdigit

theorem written_selectStarFrom (name : PlainName) : Written ("SELECT * FROM " ++ name.text)
    [selectNode, spaceNode, starNode, spaceNode, fromNode, spaceNode, nameNode name.text] := by
  have hselect : Written "SELECT" [selectNode] := @written_keyword ⟨.keyword .dml, "SELECT"⟩ (by decide)
  have hfrom : Written "FROM" [fromNode] := @written_keyword ⟨.keyword .generic, "FROM"⟩ (by decide)
  have htext : "SELECT * FROM " = "SELECT" ++ " " ++ "*" ++ " " ++ "FROM" ++ " " := by decide
  rw [htext]
  exact ((hselect.spaced written_star).spaced hfrom).spaced (written_name name)

namespace Nests

variable {lexemes : List Lexeme} {nodes : List Node}

/-- Where there are no comments none is taken out. -/
theorem withoutCommentsAll_eq (h : Nests lexemes nodes)
    (hkinds : ∀ lexeme ∈ lexemes, lexeme.kind.isGroup = false ∧ lexeme.kind ≠ .comment) :
    withoutCommentsAll nodes = nodes := by
  induction h with
  | nil => rfl
  | @lexeme lexeme _ _ _ _ _ ih =>
    obtain ⟨hgroup, hcomment⟩ := hkinds lexeme List.mem_cons_self
    rw [withoutCommentsAll_cons, withoutComments_toNode hgroup, Lexeme.withoutComment,
      if_neg hcomment, ih fun other hother => hkinds other (List.mem_cons_of_mem _ hother)]
  | parentheses _ _ ihinner ih =>
    rw [withoutCommentsAll_cons, withoutComments_parentheses,
      ihinner fun lexeme hlexeme => hkinds lexeme (by simp [hlexeme]),
      ih fun lexeme hlexeme => hkinds lexeme (by simp [hlexeme])]

theorem pairs (h : Nests lexemes nodes) : Pairs lexemes nodes := by
  induction h with
  | nil => exact .nil
  | lexeme hopening _ _ ih => exact .lexeme hopening ih
  | parentheses hinner _ _ ih => exact .parentheses hinner ih

theorem isMark_semicolon (h : Nests lexemes nodes)
    (hmarks : ∀ lexeme ∈ lexemes, lexeme.isMark ";" = false) :
    ∀ node ∈ nodes, node.isMark ";" = false := by
  intro node hnode
  rcases h.exists_of_mem hnode with ⟨lexeme, hlexeme, rfl, -, -⟩ | ⟨_, inner, -, -, rfl⟩
  · exact hmarks lexeme (mem_of_mem_outermost hlexeme)
  · rfl

end Nests

/-- What stands before the first semicolon belongs to the first statement. -/
theorem cutAtSemicolons_append_of_forall {siblings others piece : List Node}
    {pieces : List (List Node)} (h : ∀ node ∈ siblings, node.isMark ";" = false)
    (hothers : cutAtSemicolons others = piece :: pieces) :
    cutAtSemicolons (siblings ++ others) = (siblings ++ piece) :: pieces := by
  induction siblings with
  | nil => exact hothers
  | cons node siblings ih =>
    rw [List.cons_append, cutAtSemicolons, if_neg (by simp [h node List.mem_cons_self]),
      ih fun other hother => h other (List.mem_cons_of_mem _ hother)]
    rfl

namespace Written

variable {text : String} {nodes : List Node}

/-- A written text before another one that begins with a keyword: the first statement begins with
the nodes of both. -/
theorem statementsOfText_behind (h : Written text nodes) (hnodes : nodes.any isSubstantial = true)
    {behind : String} {first : Lexeme} {lexemes : List Lexeme} {more : List Node}
    (hread : Lexeme.ofText behind = .ok (first :: lexemes))
    (hkeyword : first.toNode.isKeyword = true) (hpairs : Pairs (first :: lexemes) more)
    (stripComments : Bool) : ∃ rest others,
      Node.statementsOfText (text ++ " " ++ behind) stripComments =
        .ok (statement (nodes ++ spaceNode :: first.toNode :: rest) :: others) := by
  obtain ⟨lexemes', hreads, hnests, hkinds⟩ := h.exists_lexemes
  have hbehind := Lexeme.ofText_eq_ok_iff.1 hread
  have hkind : first.kind ≠ .whitespace ∧ first.kind ≠ .punctuation ∧ first.kind ≠ .comment := by
    rw [isKeyword, Lexeme.toNode, kind_leaf] at hkeyword
    refine ⟨?_, ?_, ?_⟩ <;> rintro heq <;> rw [heq] at hkeyword <;> cases hkeyword
  have hvisible : ∀ c ∈ behind.toList.head?, isBlank c = false := by
    generalize behind.toList = cs at hbehind
    cases hbehind with
    | @cons c cs kind n _ _ hfirst _ =>
      rintro d ⟨⟩
      rw [← Bool.not_eq_true]
      exact fun hblank => hkind.1 (LexRule.kind_of_isBlank hblank hfirst)
  have hall : Lexeme.Reads (text ++ " " ++ behind).toList
      (lexemes' ++ Lexeme.space :: first :: lexemes) := by
    have happend := hreads _ _ (Lexeme.delimits_cons (by decide) _) (hbehind.space hvisible)
    simpa using happend
  have hgroup := hall.isGroup
  have hstripped : withoutCommentsAll nodes = nodes :=
    hnests.withoutCommentsAll_eq fun lexeme hlexeme =>
      ⟨hgroup lexeme (List.mem_append_left _ hlexeme), (hkinds lexeme hlexeme).1⟩
  have hmarks := hnests.isMark_semicolon fun lexeme hlexeme => (hkinds lexeme hlexeme).2
  obtain ⟨tail, rfl⟩ : ∃ tail, more = first.toNode :: tail := by
    cases hpairs with
    | lexeme _ _ => exact ⟨_, rfl⟩
    | parentheses _ _ => exact absurd rfl hkind.2.1
  have hfirst : first.toNode.withoutComments = first.toNode := by
    rw [withoutComments_toNode (hgroup first (by simp)), Lexeme.withoutComment, if_neg hkind.2.2]
  obtain ⟨row, hrow⟩ : ∃ row, (if stripComments then
      withoutCommentsAll (nodes ++ spaceNode :: first.toNode :: tail)
      else nodes ++ spaceNode :: first.toNode :: tail) =
        nodes ++ spaceNode :: first.toNode :: row := by
    cases stripComments with
    | false => exact ⟨tail, rfl⟩
    | true =>
      refine ⟨withoutCommentsAll tail, ?_⟩
      rw [if_pos rfl, withoutCommentsAll_eq_map, List.map_append, ← withoutCommentsAll_eq_map,
        hstripped, List.map_cons, List.map_cons, hfirst, withoutCommentsAll_eq_map]
      rfl
  obtain ⟨piece, pieces, hpieces⟩ := List.exists_cons_of_ne_nil (cutAtSemicolons_ne_nil row)
  have hcut : cutAtSemicolons (nodes ++ spaceNode :: first.toNode :: row) =
      (nodes ++ spaceNode :: first.toNode :: piece) :: pieces := by
    have hbetween : ∀ node ∈ nodes ++ [spaceNode, first.toNode], node.isMark ";" = false := by
      intro node hnode
      rcases List.mem_append.1 hnode with hnode | hnode
      · exact hmarks node hnode
      · simp only [List.mem_cons, List.not_mem_nil, or_false] at hnode
        rcases hnode with rfl | rfl
        · rfl
        · exact isMark_of_kind_ne hkind.2.1
    simpa using cutAtSemicolons_append_of_forall hbetween hpieces
  refine ⟨piece, (pieces.filter (·.any isSubstantial)).map statement, ?_⟩
  rw [statementsOfText_eq_ok_iff]
  refine ⟨_, _, Lexeme.ofText_eq_ok_iff.2 hall,
    Pairs.groupParentheses_eq_ok_iff.2 (hnests.pairs.append (.lexeme rfl hpairs)), ?_⟩
  change _ = (splitStatements (if stripComments then
    withoutCommentsAll (nodes ++ spaceNode :: first.toNode :: tail)
    else nodes ++ spaceNode :: first.toNode :: tail)).map statement
  rw [hrow, splitStatements, hcut, List.filter_cons_of_pos (by rw [List.any_append, hnodes]; rfl)]
  rfl

/-- A written text is one statement. -/
theorem statementsOfText (h : Written text nodes) (hnodes : nodes.any isSubstantial = true)
    (stripComments : Bool) :
    Node.statementsOfText text stripComments = .ok [statement nodes] := by
  obtain ⟨lexemes, hreads, hnests, hkinds⟩ := h.exists_lexemes
  have hread : Lexeme.Reads text.toList lexemes := by
    simpa using hreads [] [] Lexeme.delimits_nil .nil
  have hstripped : (if stripComments then withoutCommentsAll nodes else nodes) = nodes := by
    rw [hnests.withoutCommentsAll_eq fun lexeme hlexeme =>
      ⟨hread.isGroup lexeme hlexeme, (hkinds lexeme hlexeme).1⟩, ite_self]
  have hcut : cutAtSemicolons nodes = [nodes] := by
    have hmarks := hnests.isMark_semicolon fun lexeme hlexeme => (hkinds lexeme hlexeme).2
    simpa using @cutAtSemicolons_append_of_forall nodes [] _ _ hmarks rfl
  rw [statementsOfText_eq_ok_iff]
  refine ⟨lexemes, nodes, Lexeme.ofText_eq_ok_iff.2 hread, hnests.groupParentheses text, ?_⟩
  rw [hstripped, splitStatements, hcut, List.filter_cons_of_pos (by exact hnodes)]
  rfl

end Written

end Node

end QueryLineage
