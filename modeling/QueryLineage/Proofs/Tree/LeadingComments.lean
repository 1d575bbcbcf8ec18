import Mathlib.Data.List.Forall2
import QueryLineage.Proofs.Tree.Compound
import QueryLineage.Proofs.Tree.SelectRows

/-!
# Comments before the parts of a query

Most passes step over blanks only, so that a comment keeps apart what a blank would not. No pass joins
anything across a comma, a semicolon or a keyword of a clause, however: a comment that comes first
behind one of these has nothing before it that it could be in the way of. Rows with comments in such
places are grouped alike whether their comments are taken out or not.
-/

namespace QueryLineage.Node

/-- Whether a comment makes no difference right behind the keyword. Behind `GROUP BY` and `ORDER BY`
it would take the place of what is to be ordered by. -/
def admitsComment (keyword : Node) : Bool :=
  !keyword.isWordIn ["GROUP BY", "ORDER BY"]

/-- Whether the node is a keyword across which nothing is joined. -/
def isDividingWord (node : Node) : Bool :=
  node.isKeyword && !node.isWordIn ["CASE", "OVER", "AS", "ASC", "DESC"]

/-- A part of a row that has no comment and in which nothing begins or ends that is grouped by
keywords, other than the blocks that both begin and end in it. -/
structure Whole (part : List Node) : Prop where
  clear : ∀ node ∈ part, node.withoutComments = node
  noWhere : ∀ node ∈ part, node.isWord "WHERE" = false
  goesOn : ∀ node ∈ part, node.endsWhere = false
  blocks : blocksBehind? 0 part = some 0

/-- The comments of the row stand outside of parentheses and blocks, and each of them leads a part of
the row: before it is a comma or a keyword, or nothing, with only blanks and further comments between.
The row itself may begin with a comment if `leads` says so. -/
inductive CommentsLead : Bool → List Node → Prop
  | clear (leads : Bool) {row : List Node} (h : ∀ node ∈ row, node.withoutComments = node) :
      CommentsLead leads row
  | blank {leads : Bool} {blank : Node} {row : List Node} (hblank : blank.isWhitespace = true)
      (h : CommentsLead leads row) : CommentsLead leads (blank :: row)
  | comment (text : String) {row : List Node} (h : CommentsLead true row) :
      CommentsLead true (leaf .comment text :: row)
  | word (leads : Bool) {word : Node} {row : List Node} (hword : word.isDividingWord = true)
      (h : CommentsLead word.admitsComment row) : CommentsLead leads (word :: row)
  | comma (leads : Bool) {part row : List Node} {comma : Node} (hpart : Whole part)
      (hcomma : comma.isMark "," = true) (h : CommentsLead true row) :
      CommentsLead leads (part ++ comma :: row)
  | clause (leads : Bool) {part row : List Node} {blank word : Node} (hpart : Whole part)
      (hblank : blank.isWhitespace = true) (hword : word.isDividingWord = true)
      (h : CommentsLead word.admitsComment row) : CommentsLead leads (part ++ blank :: word :: row)

/-- The same member of a list, or a blank in the place of a comment. -/
inductive MemberAlike : Node → Node → Prop
  | same (node : Node) : MemberAlike node node
  | comment (text blank : String) : MemberAlike (leaf .comment text) (leaf .whitespace blank)

/-- Whether a comment may stand behind the node, where `leads` says whether it may before it. -/
def leadsBehind (leads : Bool) (node : Node) : Bool :=
  if node.isFiller .all then leads else node.admitsComment

/-- The second row has blanks where the first one has comments, also inside its lists and the clauses
of a `WHERE`, and is the same elsewhere. No such comment stands right behind a `GROUP BY` or `ORDER BY`,
nor does one come first unless `leads` says so. -/
inductive RowsAlike : Bool → List Node → List Node → Prop
  | nil (leads : Bool) : RowsAlike leads [] []
  | same {leads : Bool} (node : Node) {row other : List Node}
      (h : RowsAlike (node.leadsBehind leads) row other) : RowsAlike leads (node :: row) (node :: other)
  | comment (text blank : String) {row other : List Node} (h : RowsAlike true row other) :
      RowsAlike true (leaf .comment text :: row) (leaf .whitespace blank :: other)
  | list (leads : Bool) {children others row other : List Node}
      (hchildren : List.Forall₂ MemberAlike children others) (h : RowsAlike true row other) :
      RowsAlike leads (group .identifierList children :: row) (group .identifierList others :: other)
  | clause (leads : Bool) {children others row other : List Node}
      (hchildren : RowsAlike true children others) (h : RowsAlike true row other) :
      RowsAlike leads (group .whereClause children :: row) (group .whereClause others :: other)

theorem leadsBehind_mono {leads more : Bool} (hleads : leads = true → more = true) (node : Node) :
    node.leadsBehind leads = true → node.leadsBehind more = true := by
  unfold leadsBehind
  split
  · exact hleads
  · exact id

namespace RowsAlike

variable {leads : Bool} {row other : List Node}

theorem refl (leads : Bool) (row : List Node) : RowsAlike leads row row := by
  induction row generalizing leads with
  | nil => exact .nil leads
  | cons node row ih => exact .same node (ih _)

theorem mono (h : RowsAlike leads row other) {more : Bool} (hmore : leads = true → more = true) :
    RowsAlike more row other := by
  induction h generalizing more with
  | nil => exact .nil more
  | same node _ ih => exact .same node (ih (leadsBehind_mono hmore node))
  | comment text blank h _ =>
    rw [hmore rfl]
    exact .comment text blank h
  | list _ hchildren h _ => exact .list more hchildren h
  | clause _ hchildren h _ => exact .clause more hchildren h

theorem leading (h : RowsAlike leads row other) : RowsAlike true row other :=
  h.mono fun _ => rfl

theorem append (part : List Node) (h : RowsAlike false row other) (leads : Bool) :
    RowsAlike leads (part ++ row) (part ++ other) := by
  induction part generalizing leads with
  | nil => exact h.mono fun hfalse => absurd hfalse Bool.false_ne_true
  | cons node part ih => exact .same node (ih _)

theorem drop (h : RowsAlike leads row other) (n : Nat) :
    RowsAlike true (row.drop n) (other.drop n) := by
  induction n generalizing leads row other with
  | zero => exact h.leading
  | succ n ih =>
    cases h with
    | nil => exact .nil true
    | same _ h | comment _ _ h | list _ _ h | clause _ _ h => exact ih h

/-- What is neither a list nor a `WHERE` clause is found at the same place, and up to there the rows
hold the same but for comments. -/
theorem reach {p : Node → Bool} (hlist : ∀ children, p (group .identifierList children) = false)
    (hclause : ∀ children, p (group .whereClause children) = false) (h : RowsAlike leads row other) :
    Node.reach .all p other = Node.reach .all p row ∧ ∀ n, Node.reach .all p row = some n →
      List.Forall₂ MemberAlike (row.take n) (other.take n) := by
  have hstep : ∀ {node found : Node} {row other : List Node}, MemberAlike node found →
      node.isFiller .all = true → found.isFiller .all = true →
      (Node.reach .all p other = Node.reach .all p row ∧ ∀ n, Node.reach .all p row = some n →
        List.Forall₂ MemberAlike (row.take n) (other.take n)) →
      Node.reach .all p (found :: other) = Node.reach .all p (node :: row) ∧
        ∀ n, Node.reach .all p (node :: row) = some n →
          List.Forall₂ MemberAlike ((node :: row).take n) ((found :: other).take n) := by
    intro node found row other hmember hnode hfound ih
    rw [Node.reach, Node.reach, if_pos hnode, if_pos hfound, ih.1]
    refine ⟨rfl, fun n hn => ?_⟩
    obtain ⟨m, hm, rfl⟩ := Option.map_eq_some_iff.1 hn
    exact .cons hmember (ih.2 m hm)
  induction h with
  | nil => exact ⟨rfl, fun n hn => by cases hn⟩
  | @same _ node _ _ _ ih =>
    by_cases hnode : node.isFiller .all = true
    · exact hstep (.same node) hnode hnode ih
    · rw [Node.reach, Node.reach, if_neg hnode, if_neg hnode]
      refine ⟨rfl, fun n hn => ?_⟩
      split at hn
      · cases hn
        exact .cons (.same node) .nil
      · cases hn
  | comment text blank _ ih => exact hstep (.comment text blank) rfl rfl ih
  | @list _ children others _ _ _ _ _ =>
    rw [Node.reach, Node.reach, hlist children, hlist others]
    exact ⟨rfl, fun n hn => by cases hn⟩
  | @clause _ children others _ _ _ _ _ =>
    rw [Node.reach, Node.reach, hclause children, hclause others]
    exact ⟨rfl, fun n hn => by cases hn⟩

theorem reaches {ps : List (Node → Bool)}
    (hps : ∀ p ∈ ps, ∀ children, p (group .identifierList children) = false ∧
      p (group .whereClause children) = false) (h : RowsAlike leads row other) :
    Node.reaches .all ps other = Node.reaches .all ps row ∧ ∀ n, Node.reaches .all ps row = some n →
      List.Forall₂ MemberAlike (row.take n) (other.take n) := by
  induction ps generalizing leads row other with
  | nil =>
    refine ⟨rfl, fun n hn => ?_⟩
    cases hn
    exact .nil
  | cons p ps ih =>
    obtain ⟨hsame, hbefore⟩ := h.reach (fun children => (hps p List.mem_cons_self children).1)
      fun children => (hps p List.mem_cons_self children).2
    rw [Node.reaches, Node.reaches, hsame]
    cases hm : Node.reach .all p row with
    | none => exact ⟨rfl, fun n hn => by cases hn⟩
    | some m =>
      obtain ⟨hrest, hbehind⟩ := ih (fun q hq => hps q (List.mem_cons_of_mem _ hq)) (h.drop m)
      simp only [bind, Option.bind_some, hrest]
      refine ⟨trivial, fun n hn => ?_⟩
      obtain ⟨k, hk, hn⟩ := Option.bind_eq_some_iff.1 hn
      cases hn
      rw [List.take_add, List.take_add]
      exact List.rel_append (hbefore m hm) (hbehind k hk)

theorem listTail (h : RowsAlike leads row other) : Node.listTail other = Node.listTail row ∧
    List.Forall₂ MemberAlike (row.take (Node.listTail row)) (other.take (Node.listTail row)) := by
  have hps : ∀ p ∈ [(isMark · ","), isItem], ∀ children,
      p (group .identifierList children) = false ∧ p (group .whereClause children) = false := by
    intro p hp children
    simp only [List.mem_cons, List.not_mem_nil, or_false] at hp
    rcases hp with rfl | rfl <;> exact ⟨rfl, rfl⟩
  fun_induction Node.listTail row generalizing leads other with
  | case1 =>
    cases h
    rw [Node.listTail]
    exact ⟨rfl, .nil⟩
  | case2 node siblings n hn ih =>
    obtain ⟨heq, htake⟩ := h.reaches hps
    obtain ⟨found, others, rfl⟩ : ∃ found others, other = found :: others := by
      cases h <;> exact ⟨_, _, rfl⟩
    obtain ⟨htail, hmembers⟩ := ih (h.drop (n + 1))
    have hsplit : ∀ nodes : List Node, nodes.take (n + 1 + Node.listTail (siblings.drop n)) =
        nodes.take (n + 1) ++ (nodes.drop (n + 1)).take (Node.listTail (siblings.drop n)) :=
      fun nodes => List.take_add
    rw [Node.listTail, heq, hn, hsplit, hsplit]
    exact ⟨congrArg (n + 1 + ·) htail, List.rel_append (htake _ hn) hmembers⟩
  | case3 node siblings hnone =>
    obtain ⟨found, others, rfl⟩ : ∃ found others, other = found :: others := by
      cases h <;> exact ⟨_, _, rfl⟩
    refine ⟨?_, .nil⟩
    rw [Node.listTail, (h.reaches hps).1]
    split
    · next n hn => exact absurd hn (hnone n)
    · rfl

/-- The pass for lists makes the same lists of both rows, apart from the comments in them. -/
theorem joinLists (h : RowsAlike leads row other) :
    RowsAlike leads (joinOnce listExtent (enclose .identifierList) row)
      (joinOnce listExtent (enclose .identifierList) other) := by
  fun_induction joinOnce listExtent (enclose .identifierList) row generalizing leads other with
  | case1 =>
    cases h
    rw [joinOnce_nil]
    exact .nil leads
  | case2 node siblings n hn ih =>
    rw [listExtent] at hn
    split at hn
    next hitem =>
      obtain rfl := Option.some.inj hn
      rw [Bool.and_eq_true] at hitem
      cases h with
      | same _ h =>
        obtain ⟨htail, hmembers⟩ := h.listTail
        rw [joinOnce_cons_of_some (by rw [listExtent, htail, if_pos (by simpa using hitem)])]
        exact .list leads (.cons (.same node) hmembers) (ih (h.drop _))
      | comment _ _ _ => cases hitem.1
      | list _ _ _ => cases hitem.1
      | clause _ _ _ => cases hitem.1
    next => cases hn
  | case3 node siblings hnone ih =>
    cases h with
    | same _ h =>
      rw [listExtent, ← h.listTail.1, ← listExtent] at hnone
      rw [joinOnce_cons_of_none hnone]
      exact .same node (ih h)
    | comment text blank h =>
      rw [joinOnce_cons_of_none (listExtent_of_not_item rfl _)]
      exact .comment text blank (ih h)
    | list _ hchildren h =>
      rw [joinOnce_cons_of_none (listExtent_of_not_item rfl _)]
      exact .list leads hchildren (ih h)
    | clause _ hchildren h =>
      rw [joinOnce_cons_of_none (listExtent_of_not_item rfl _)]
      exact .clause leads hchildren (ih h)

end RowsAlike

/-- Rows that are the same but for comments, none of which is in the way of a group: all that is joined
stands in parts that are the same. -/
inductive DividedAlike : Bool → List Node → List Node → Prop
  | same (leads : Bool) (row : List Node) : DividedAlike leads row row
  | blank {leads : Bool} {blank : Node} {row other : List Node} (hblank : blank.isWhitespace = true)
      (h : DividedAlike leads row other) : DividedAlike leads (blank :: row) (blank :: other)
  | comment (text blank : String) {row other : List Node} (h : DividedAlike true row other) :
      DividedAlike true (leaf .comment text :: row) (leaf .whitespace blank :: other)
  | divider (leads : Bool) {node : Node} {row other : List Node} (hnode : node.Divider)
      (h : DividedAlike node.admitsComment row other) :
      DividedAlike leads (node :: row) (node :: other)
  | clause (leads : Bool) {children others row other : List Node}
      (hchildren : RowsAlike true children others) (h : DividedAlike true row other) :
      DividedAlike leads (group .whereClause children :: row) (group .whereClause others :: other)
  | part (leads : Bool) {part row other : List Node} (hblocks : blocksBehind? 0 part = some 0)
      (hrow : Bounded row) (hother : Bounded other) (h : DividedAlike false row other) :
      DividedAlike leads (part ++ row) (part ++ other)

theorem Divider.leadsBehind {node : Node} (h : node.Divider) (leads : Bool) :
    node.leadsBehind leads = node.admitsComment := by
  rw [Node.leadsBehind, h.filler, if_neg Bool.false_ne_true]

theorem Bounded.groupCases {row : List Node} (h : Bounded row) : Bounded (Node.groupCases row) := by
  cases h with
  | nil => rw [Node.groupCases]; exact .nil
  | blank hblank =>
    rw [groupCases_cons (inert_of_isFiller (isFiller_of_isWhitespace hblank)).noCase, Node.groupCases]
    exact .blank hblank
  | spaced hblank hnode siblings =>
    rw [groupCases_cons (inert_of_isFiller (isFiller_of_isWhitespace hblank)).noCase,
      groupCases_cons hnode.noCase]
    exact .spaced hblank hnode _
  | mark hnode hpart hdot siblings =>
    rw [groupCases_cons hnode.noCase]
    exact .mark hnode hpart hdot _

namespace DividedAlike

variable {leads : Bool} {row other : List Node}

theorem groupItems (h : DividedAlike leads row other) :
    RowsAlike leads (Node.groupItems (groupCases row)) (Node.groupItems (groupCases other)) := by
  induction h with
  | same leads row => exact .refl leads _
  | @blank leads blank row other hblank _ ih =>
    have hinert := inert_of_isFiller (isFiller_of_isWhitespace hblank)
    have hleads : blank.leadsBehind leads = leads := if_pos (isFiller_of_isWhitespace hblank)
    rw [groupCases_cons hinert.noCase, groupCases_cons hinert.noCase, hinert.groupItems_cons,
      hinert.groupItems_cons]
    exact .same blank (by rw [hleads]; exact ih)
  | comment text blank _ ih =>
    rw [groupCases_cons rfl, groupCases_cons rfl, groupItems_cons rfl rfl rfl,
      groupItems_cons rfl rfl rfl]
    exact .comment text blank ih
  | @divider leads node row other hnode _ ih =>
    have hitem := hnode.item
    simp only [isItem, Bool.or_eq_false_iff] at hitem
    rw [groupCases_cons hnode.noCase, groupCases_cons hnode.noCase,
      groupItems_cons hitem.1.1 hitem.2 hnode.sign, groupItems_cons hitem.1.1 hitem.2 hnode.sign]
    exact .same node (hnode.leadsBehind leads ▸ ih)
  | clause leads hchildren _ ih =>
    rw [groupCases_cons rfl, groupCases_cons rfl, groupItems_cons rfl rfl rfl,
      groupItems_cons rfl rfl rfl]
    exact .clause leads hchildren ih
  | part leads hblocks hrow hother _ ih =>
    rw [groupCases_append_of_blocks hblocks, groupCases_append_of_blocks hblocks,
      hrow.groupCases.groupItems_append, hother.groupCases.groupItems_append]
    exact ih.append _ leads

theorem groupLevel (h : DividedAlike leads row other) :
    RowsAlike leads (Node.groupLevel row) (Node.groupLevel other) :=
  h.groupItems.joinLists

end DividedAlike

/-- Whether a clause of a `WHERE` goes on with the node. -/
def goesOn (node : Node) : Bool :=
  !node.endsWhere

theorem groupWheres_where {keyword : Node} (h : keyword.isWord "WHERE" = true) (siblings : List Node) :
    groupWheres (keyword :: siblings) =
      group .whereClause (keyword :: groupLevel (siblings.takeWhile goesOn)) ::
        groupWheres (siblings.dropWhile goesOn) := by
  have hbehind : siblings.drop (siblings.takeWhile goesOn).length = siblings.dropWhile goesOn := by
    have hsplit : siblings.takeWhile goesOn ++ siblings.drop (siblings.takeWhile goesOn).length =
        siblings.takeWhile goesOn ++ siblings.dropWhile goesOn := by
      rw [List.takeWhile_append_dropWhile]
      conv_rhs => rw [← List.take_append_drop (siblings.takeWhile goesOn).length siblings]
      rw [← List.prefix_iff_eq_take.1 (List.takeWhile_prefix goesOn)]
    exact List.append_cancel_left hsplit
  rw [← hbehind, groupWheres, if_pos h]
  rfl

theorem Bounded.takeWhile {row : List Node} (h : Bounded row) (p : Node → Bool) :
    Bounded (row.takeWhile p) := by
  cases h with
  | nil => exact .nil
  | @blank blank hblank =>
    cases hp : p blank with
    | false => rw [List.takeWhile_cons_of_neg (by simp [hp])]; exact .nil
    | true => rw [List.takeWhile_cons_of_pos hp]; exact .blank hblank
  | @spaced blank node hblank hnode siblings =>
    cases hp : p blank with
    | false => rw [List.takeWhile_cons_of_neg (by simp [hp])]; exact .nil
    | true =>
      rw [List.takeWhile_cons_of_pos hp]
      cases hnext : p node with
      | false => rw [List.takeWhile_cons_of_neg (by simp [hnext])]; exact .blank hblank
      | true => rw [List.takeWhile_cons_of_pos hnext]; exact .spaced hblank hnode _
  | @mark node hnode hpart hdot siblings =>
    cases hp : p node with
    | false => rw [List.takeWhile_cons_of_neg (by simp [hp])]; exact .nil
    | true => rw [List.takeWhile_cons_of_pos hp]; exact .mark hnode hpart hdot _

theorem Bounded.groupWheres {row : List Node} (h : Bounded row) : Bounded (Node.groupWheres row) := by
  cases h with
  | nil => rw [Node.groupWheres]; exact .nil
  | blank hblank =>
    rw [groupWheres_cons (inert_of_isFiller (isFiller_of_isWhitespace hblank)).noWhere,
      Node.groupWheres]
    exact .blank hblank
  | @spaced blank node hblank hnode siblings =>
    rw [groupWheres_cons (inert_of_isFiller (isFiller_of_isWhitespace hblank)).noWhere]
    cases hwhere : node.isWord "WHERE" with
    | false => rw [groupWheres_cons hwhere]; exact .spaced hblank hnode _
    | true => rw [groupWheres_where hwhere]; exact .spaced hblank (barrier_whereClause _).toDivider _
  | @mark node hnode hpart hdot siblings =>
    have hwhere : node.isWord "WHERE" = false := by
      unfold isNamePart at hpart
      rw [isWord, isKeyword]
      cases hkind : node.kind <;> simp_all [Kind.isKeyword]
    rw [groupWheres_cons hwhere]
    exact .mark hnode hpart hdot _

/-- Rows that are the same but for comments, as a whole, up to where a clause of a `WHERE` ends, and
behind that. -/
structure ClausesAlike (leads : Bool) (row other : List Node) : Prop where
  whole : DividedAlike leads (groupWheres row) (groupWheres other)
  clause : DividedAlike leads (row.takeWhile goesOn) (other.takeWhile goesOn)
  behind : DividedAlike true (groupWheres (row.dropWhile goesOn))
    (groupWheres (other.dropWhile goesOn))

theorem goesOn_of_isFiller {node : Node} (h : node.isFiller .all = true) : node.goesOn = true := by
  have htrails := trails_of_isFiller h
  have hmark : node.isMark ";" = false := by
    apply isMark_of_kind_ne
    intro hpunctuation
    rw [isFiller_all, isWhitespace, isComment, hpunctuation] at h
    cases h
  rw [goesOn, endsWhere, hmark, isWordIn, htrails.isKeyword]
  rfl

namespace ClausesAlike

variable {leads : Bool} {row other : List Node}

theorem same (leads : Bool) (row : List Node) : ClausesAlike leads row row :=
  ⟨.same leads _, .same leads _, .same true _⟩

theorem blank {blank : Node} (hblank : blank.isWhitespace = true) (h : ClausesAlike leads row other) :
    ClausesAlike leads (blank :: row) (blank :: other) := by
  have hfiller := isFiller_of_isWhitespace hblank
  have hgoesOn : blank.goesOn = true := goesOn_of_isFiller hfiller
  have hwhere := (inert_of_isFiller hfiller).noWhere
  constructor
  · rw [groupWheres_cons hwhere, groupWheres_cons hwhere]
    exact .blank hblank h.whole
  · rw [List.takeWhile_cons_of_pos hgoesOn, List.takeWhile_cons_of_pos hgoesOn]
    exact .blank hblank h.clause
  · rw [List.dropWhile_cons_of_pos hgoesOn, List.dropWhile_cons_of_pos hgoesOn]
    exact h.behind

theorem comment (text blank : String) (h : ClausesAlike true row other) :
    ClausesAlike true (leaf .comment text :: row) (leaf .whitespace blank :: other) := by
  constructor
  · rw [groupWheres_cons rfl, groupWheres_cons rfl]
    exact .comment text blank h.whole
  · exact .comment text blank h.clause
  · exact h.behind

theorem divider (leads : Bool) {node : Node} (hnode : node.Divider)
    (h : ClausesAlike node.admitsComment row other) :
    ClausesAlike leads (node :: row) (node :: other) := by
  have hwhole : ∀ leads, DividedAlike leads (groupWheres (node :: row)) (groupWheres (node :: other)) := by
    intro leads
    cases hwhere : node.isWord "WHERE" with
    | false =>
      rw [groupWheres_cons hwhere, groupWheres_cons hwhere]
      exact .divider leads hnode h.whole
    | true =>
      rw [groupWheres_where hwhere, groupWheres_where hwhere]
      refine .clause leads (.same node ?_) h.behind
      rw [hnode.leadsBehind]
      exact h.clause.groupLevel
  refine ⟨hwhole leads, ?_, ?_⟩
  · by_cases hgoesOn : node.goesOn = true
    · rw [List.takeWhile_cons_of_pos hgoesOn, List.takeWhile_cons_of_pos hgoesOn]
      exact .divider leads hnode h.clause
    · rw [List.takeWhile_cons_of_neg hgoesOn, List.takeWhile_cons_of_neg hgoesOn]
      exact .same leads []
  · by_cases hgoesOn : node.goesOn = true
    · rw [List.dropWhile_cons_of_pos hgoesOn, List.dropWhile_cons_of_pos hgoesOn]
      exact h.behind
    · rw [List.dropWhile_cons_of_neg hgoesOn, List.dropWhile_cons_of_neg hgoesOn]
      exact hwhole true

theorem part (leads : Bool) {part : List Node}
    (hwhere : ∀ node ∈ part, node.isWord "WHERE" = false)
    (hgoesOn : ∀ node ∈ part, node.goesOn = true) (hblocks : blocksBehind? 0 part = some 0)
    (hrow : Bounded row) (hother : Bounded other) (h : ClausesAlike false row other) :
    ClausesAlike leads (part ++ row) (part ++ other) := by
  constructor
  · rw [groupWheres_append hwhere, groupWheres_append hwhere]
    exact .part leads hblocks hrow.groupWheres hother.groupWheres h.whole
  · rw [List.takeWhile_append_of_pos hgoesOn, List.takeWhile_append_of_pos hgoesOn]
    exact .part leads hblocks (hrow.takeWhile _) (hother.takeWhile _) h.clause
  · rw [List.dropWhile_append_of_pos hgoesOn, List.dropWhile_append_of_pos hgoesOn]
    exact h.behind

theorem groupRun (h : ClausesAlike leads row other) :
    RowsAlike leads (Node.groupRun row) (Node.groupRun other) :=
  h.whole.groupLevel

end ClausesAlike

theorem prepared_of_kind {node : Node} (hcomment : node.kind ≠ .comment)
    (hparenthesis : node.kind ≠ .parenthesis) (stripComments : Bool) :
    node.prepared stripComments = node := by
  have hkept : node.withoutComments = node := by
    unfold withoutComments
    split <;> simp_all
  have hinside : node.groupInside = node := by
    unfold groupInside
    split <;> simp_all
  rw [prepared, uncommented, hkept, ite_self, hinside]

theorem prepared_of_clear {node : Node} (h : node.withoutComments = node) (stripComments : Bool) :
    node.prepared stripComments = node.groupInside := by
  rw [prepared, uncommented, h, ite_self]

theorem divider_of_isDividingWord {word : Node} (h : word.isDividingWord = true) : word.Divider := by
  rw [isDividingWord, Bool.and_eq_true, Bool.not_eq_true'] at h
  obtain ⟨hkeyword, hword⟩ := h
  have hnone : ∀ other ∈ ["CASE", "OVER", "AS", "ASC", "DESC"], word.normalized ≠ other := by
    rintro other hother rfl
    rw [isWordIn, hkeyword, Bool.true_and, List.contains_eq_mem, decide_eq_false_iff_not] at hword
    exact hword hother
  rw [isKeyword] at hkeyword
  constructor
  · rw [isItem, isOperand, isKind, isKind]
    cases hkind : word.kind <;> simp_all [Kind.isOperand, Kind.isKeyword]
  · rw [isSign, isKind]
    cases hkind : word.kind <;> simp_all [Kind.isKeyword]
  · simp [isWord, hnone "CASE"]
  · rw [isFiller_all, isWhitespace, isComment]
    cases hkind : word.kind <;> simp_all [Kind.isKeyword]
  · rw [isKind]
    cases hkind : word.kind <;> simp_all [Kind.isKeyword]
  · rw [isKind]
    cases hkind : word.kind <;> simp_all [Kind.isKeyword]
  · simp [isWordIn, hnone]

theorem divider_of_isMark {node : Node} {mark : String} (h : node.isMark mark = true) :
    node.Divider := by
  have hkind : node.kind = .punctuation := beq_iff_eq.1 (Bool.and_eq_true_iff.1 h).1
  have htrails : node.Trails := Or.inl hkind
  refine ⟨htrails.isItem, ?_, htrails.isWord "CASE", ?_, htrails.isKind (by simp),
    htrails.isKind (by simp), ?_⟩
  · rw [isSign, htrails.isKind (by simp), Bool.false_and]
  · rw [isFiller_all, isWhitespace, isComment, hkind]
    rfl
  · rw [isWordIn, htrails.isKeyword, Bool.false_and]

theorem map_prepared_of_clear {row : List Node} (h : ∀ node ∈ row, node.withoutComments = node) :
    row.map (prepared true) = row.map (prepared false) :=
  List.map_congr_left fun node hnode => by
    rw [prepared_of_clear (h node hnode), prepared_of_clear (h node hnode)]

/-- A part that is whole stays so when its parentheses are grouped. -/
theorem ClausesAlike.prepared_append {part row other : List Node} (hpart : Whole part)
    (hrow : Bounded row) (hother : Bounded other) (h : ClausesAlike false row other) (leads : Bool) :
    ClausesAlike leads (part.map (prepared false) ++ row) (part.map (prepared true) ++ other) := by
  have hstands : ∀ node ∈ part.map (prepared false), ∃ old ∈ part, StandsFor node old := by
    intro node hnode
    obtain ⟨old, hold, rfl⟩ := List.mem_map.1 hnode
    exact ⟨old, hold, standsFor_prepared false old⟩
  rw [map_prepared_of_clear hpart.clear]
  refine .part leads (fun node hnode => ?_) (fun node hnode => ?_) ?_ hrow hother h
  · obtain ⟨old, hold, hstands⟩ := hstands node hnode
    rw [hstands.isWord, hpart.noWhere old hold]
  · obtain ⟨old, hold, hstands⟩ := hstands node hnode
    rw [goesOn, hstands.endsWhere, hpart.goesOn old hold]
    rfl
  · rw [blocksBehind?_map fun node word => (standsFor_prepared false node).isWord word, hpart.blocks]

/-- Comments that lead the parts of a row are in the way of no group. -/
theorem CommentsLead.clausesAlike {leads : Bool} {row : List Node} (h : CommentsLead leads row) :
    ClausesAlike leads (row.map (prepared false)) (row.map (prepared true)) := by
  have hword : ∀ {word : Node}, word.isDividingWord = true → ∀ stripComments,
      word.prepared stripComments = word := by
    intro word hword
    have hkeyword := (Bool.and_eq_true_iff.1 hword).1
    refine prepared_of_kind ?_ ?_ <;>
    · intro hkind
      rw [isKeyword, hkind] at hkeyword
      cases hkeyword
  have hplain : ∀ {blank : Node}, blank.isWhitespace = true → ∀ stripComments,
      blank.prepared stripComments = blank := by
    intro blank hblank
    have hkind : blank.kind = .whitespace := beq_iff_eq.1 hblank
    exact prepared_of_kind (by rw [hkind]; decide) (by rw [hkind]; decide)
  induction h with
  | clear leads h =>
    rw [map_prepared_of_clear h]
    exact .same leads _
  | blank hblank _ ih =>
    rw [List.map_cons, List.map_cons, hplain hblank, hplain hblank]
    exact ih.blank hblank
  | comment text _ ih => exact ih.comment text _
  | word leads hdividing _ ih =>
    rw [List.map_cons, List.map_cons, hword hdividing, hword hdividing]
    exact ih.divider leads (divider_of_isDividingWord hdividing)
  | @comma leads part row comma hpart hcomma _ ih =>
    have hkind : comma.kind = .punctuation := beq_iff_eq.1 (Bool.and_eq_true_iff.1 hcomma).1
    have hkept : ∀ stripComments, comma.prepared stripComments = comma :=
      prepared_of_kind (by rw [hkind]; decide) (by rw [hkind]; decide)
    have hdivider := divider_of_isMark hcomma
    have hadmits : comma.admitsComment = true := by
      rw [admitsComment, isWordIn, isKeyword, hkind]
      rfl
    have hdot : comma.isMark "." = false := by
      rw [isMark, (beq_iff_eq.1 (Bool.and_eq_true_iff.1 hcomma).2 : comma.text = ",")]
      exact Bool.and_false _
    have hbounded : ∀ row : List Node, Bounded (comma :: row) :=
      fun row => .mark hdivider (by rw [isNamePart, hkind]) hdot row
    rw [List.map_append, List.map_append, List.map_cons, List.map_cons, hkept, hkept]
    refine .prepared_append hpart (hbounded _) (hbounded _) (.divider false hdivider ?_) leads
    rw [hadmits]
    exact ih
  | clause leads hpart hblank hdividing _ ih =>
    have hdivider := divider_of_isDividingWord hdividing
    simp only [List.map_append, List.map_cons, hplain hblank, hword hdividing]
    exact .prepared_append hpart (.spaced hblank hdivider _) (.spaced hblank hdivider _)
      (.blank hblank (.divider false hdivider ih)) leads

/-- A row with leading comments is grouped alike whether its comments are taken out or not. -/
theorem CommentsLead.groupAll {leads : Bool} {row : List Node} (h : CommentsLead leads row) :
    RowsAlike leads (Node.groupAll row) (Node.groupAll (withoutCommentsAll row)) := by
  have hgrouped := h.clausesAlike.groupRun
  rw [← groupInsideAll_stripped, ← groupInsideAll_stripped] at hgrouped
  exact hgrouped

/-- Comments do not tell where statements end. -/
theorem splitStatements_withoutCommentsAll (nodes : List Node) :
    splitStatements (withoutCommentsAll nodes) = (splitStatements nodes).map withoutCommentsAll := by
  have hsubstantial : isSubstantial ∘ withoutComments = isSubstantial :=
    funext fun node => (standsFor_withoutComments node).isSubstantial
  have hpieces : (List.any · isSubstantial) ∘ List.map withoutComments =
      (List.any · isSubstantial) := by
    funext piece
    rw [Function.comp_apply, List.any_map, hsubstantial]
  have hmap : List.map withoutComments = withoutCommentsAll :=
    funext fun piece => (withoutCommentsAll_eq_map piece).symm
  rw [splitStatements, withoutCommentsAll_eq_map,
    cutAtSemicolons_map fun node _ => (standsFor_withoutComments node).isMark ";", hmap,
    List.filter_map, ← hmap, hpieces, splitStatements]

theorem RowsAlike.depthAll {leads : Bool} {row other : List Node} (h : RowsAlike leads row other) :
    Node.depthAll other = Node.depthAll row := by
  have hmembers : ∀ {children others : List Node}, List.Forall₂ MemberAlike children others →
      Node.depthAll others = Node.depthAll children := by
    intro children others hchildren
    induction hchildren with
    | nil => rfl
    | cons hmember _ ih => cases hmember <;> simp [Node.depthAll, depth, ih]
  induction h with
  | nil => rfl
  | same node _ ih => rw [Node.depthAll, Node.depthAll, ih]
  | comment text blank _ ih => simp [Node.depthAll, depth, ih]
  | list _ hchildren _ ih => simp [Node.depthAll, depth, ih, hmembers hchildren]
  | clause _ _ _ ihchildren ih => simp [Node.depthAll, depth, ih, ihchildren]

end QueryLineage.Node
