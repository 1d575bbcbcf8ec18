import QueryLineage.Proofs.Tree.Enclosed
import QueryLineage.Proofs.Tree.Semicolon

/-!
# Barriers in a row

Most keywords, the clauses and the commas of a row are barriers: no pass joins what stands before
such a node with the node or with anything behind it. A row is therefore grouped part by part, and
each part is grouped as it is alone. Only lists go on behind commas.
-/

namespace QueryLineage.Node

/-- A node that no group of operands takes up, and with which no block begins. -/
structure Divider (node : Node) : Prop where
  item : node.isItem = false
  sign : node.isSign = false
  noCase : node.isWord "CASE" = false
  filler : node.isFiller .all = false
  operator : node.isKind .operator = false
  comparison : node.isKind .comparisonOperator = false
  word : node.isWordIn ["OVER", "AS", "ASC", "DESC"] = false

/-- A node that no group before it takes up, and with which none begins. -/
structure Barrier (node : Node) : Prop extends node.Inert, node.Divider

/-- A row that begins with a divider, perhaps behind a blank, or is no more than a blank. Right
behind a dot a keyword would be a part of the name, so only other dividers need no blank. -/
inductive Bounded : List Node → Prop
  | nil : Bounded []
  | blank {blank : Node} (hblank : blank.isWhitespace = true) : Bounded [blank]
  | spaced {blank node : Node} (hblank : blank.isWhitespace = true) (h : node.Divider)
      (siblings : List Node) : Bounded (blank :: node :: siblings)
  | mark {node : Node} (h : node.Divider) (hpart : node.isNamePart = false)
      (hdot : node.isMark "." = false) (siblings : List Node) : Bounded (node :: siblings)

theorem trails_of_isFiller {node : Node} (h : node.isFiller .all = true) : node.Trails := by
  rw [isFiller_all, Bool.or_eq_true] at h
  exact Or.inr (h.imp beq_iff_eq.1 beq_iff_eq.1)

namespace Divider

variable {node : Node} (h : node.Divider)
include h

theorem not_operand : node.isOperand = false := by
  have hitem := h.item
  simp only [isItem, Bool.or_eq_false_iff] at hitem
  exact hitem.1.1

theorem not_wildcard : node.isKind .wildcard = false := by
  have hitem := h.item
  simp only [isItem, Bool.or_eq_false_iff] at hitem
  exact hitem.1.2

theorem not_whitespace : node.isWhitespace = false := by
  have hfiller := h.filler
  rw [isFiller_all, Bool.or_eq_false_iff] at hfiller
  exact hfiller.1

theorem not_comment : node.isComment = false := by
  have hfiller := h.filler
  rw [isFiller_all, Bool.or_eq_false_iff] at hfiller
  exact hfiller.2

theorem not_word {word : String} (hword : word ∈ ["OVER", "AS", "ASC", "DESC"]) :
    node.isWord word = false := by
  have hnone := h.word
  rw [isWordIn, Bool.and_eq_false_iff] at hnone
  rw [Node.isWord, Bool.and_eq_false_iff, beq_eq_false_iff_ne]
  refine hnone.imp_right fun hnot => ?_
  rintro rfl
  simp_all

theorem not_direction : node.isWordIn ["ASC", "DESC"] = false := by
  have hnone := h.word
  simp only [isWordIn, Bool.and_eq_false_iff] at hnone ⊢
  exact hnone.imp_right fun hnot => by simp_all

theorem not_kind {kind : Kind} (hkind : kind.isOperand = true) : node.isKind kind = false := by
  rw [← Bool.not_eq_true]
  intro hnode
  have hoperand := h.not_operand
  rw [isOperand, beq_iff_eq.1 hnode, hkind] at hoperand
  cases hoperand

end Divider

section Reaching

variable {filler : Filler} {p : Node → Bool} {others : List Node}

theorem reach_append (h : reach filler p others = none) (siblings : List Node) :
    reach filler p (siblings ++ others) = reach filler p siblings := by
  induction siblings with
  | nil => exact h
  | cons node siblings ih => rw [List.cons_append, reach, reach, ih]

theorem reaches_append {ps : List (Node → Bool)} (h : ∀ p ∈ ps, reach filler p others = none)
    (siblings : List Node) :
    reaches filler ps (siblings ++ others) = reaches filler ps siblings := by
  induction ps generalizing siblings with
  | nil => rfl
  | cons p ps ih =>
    rw [reaches, reaches, reach_append (h p List.mem_cons_self)]
    cases hn : reach filler p siblings with
    | none => rfl
    | some n =>
      simp only [bind, Option.bind_some]
      rw [List.drop_append_of_le_length (reach_le_length hn),
        ih fun q hq => h q (List.mem_cons_of_mem _ hq)]

/-- What no divider is cannot be reached behind one. -/
theorem Bounded.reach_eq_none (h : Bounded others) (hfiller : filler.whitespace = true)
    (hp : ∀ node : Node, node.Divider → p node = false) : reach filler p others = none := by
  have hpassed : ∀ {blank : Node}, blank.isWhitespace = true → blank.isFiller filler = true := by
    intro blank hblank
    rw [isFiller, hfiller, hblank]
    rfl
  have hstop : ∀ {node : Node}, node.Divider → ∀ siblings, reach filler p (node :: siblings) = none := by
    intro node hnode siblings
    rw [reach, if_neg (by simp [isFiller, hnode.not_whitespace, hnode.not_comment]),
      if_neg (by simp [hp node hnode])]
  cases h with
  | nil => rfl
  | blank hblank => rw [reach, if_pos (hpassed hblank), reach, Option.map_none]
  | spaced hblank hnode siblings =>
    rw [reach, if_pos (hpassed hblank), hstop hnode, Option.map_none]
  | mark hnode _ _ siblings => exact hstop hnode siblings

end Reaching

/-- No group of a pass that begins before a row takes in anything of it or depends on it. -/
structure SparesAll (extent : Node → List Node → Option Nat) (others : List Node) : Prop where
  append : ∀ node siblings, extent node (siblings ++ others) = extent node siblings
  le_length : ∀ node siblings n, extent node siblings = some n → n ≤ siblings.length

namespace Bounded

variable {others : List Node} (h : Bounded others)
include h

theorem sparesAll_call : SparesAll callExtent others where
  append node siblings := by
    have hparenthesis : reach .blanks (isKind .parenthesis) others = none :=
      h.reach_eq_none rfl fun node hnode => hnode.not_kind rfl
    rw [callExtent, callExtent, reach_append hparenthesis]
    cases hreach : reach .blanks (isKind .parenthesis) siblings with
    | none => rfl
    | some n =>
      have hwindow : windowExtent ((siblings ++ others).drop n) = windowExtent (siblings.drop n) := by
        rw [List.drop_append_of_le_length (reach_le_length hreach)]
        refine reaches_append (fun p hp => h.reach_eq_none rfl fun node hnode => ?_) _
        simp only [List.mem_cons, List.not_mem_nil, or_false] at hp
        rcases hp with rfl | rfl
        · exact hnode.not_word (by simp)
        · exact Bool.or_eq_false_iff.2 ⟨hnode.not_kind rfl, hnode.not_kind rfl⟩
      rw [Option.map_some, Option.map_some, hwindow]
  le_length := trails_semicolon.spares_call.le_length

theorem dottedExtent_append (siblings : List Node) :
    dottedExtent (siblings ++ others) = dottedExtent siblings := by
  have hplain : ∀ {blank : Node}, blank.isWhitespace = true →
      blank.isMark "." = false ∧ blank.isNamePart = false := by
    intro blank hblank
    have htrails := trails_of_isFiller (isFiller_of_isWhitespace hblank)
    exact ⟨isMark_of_kind_ne (by rw [beq_iff_eq.1 hblank]; decide), htrails.isNamePart⟩
  have hhead : ∀ node rest, others = node :: rest → node.isMark "." = false ∧ node.isNamePart = false := by
    rintro node rest rfl
    cases h with
    | blank hblank => exact hplain hblank
    | spaced hblank _ _ => exact hplain hblank
    | mark _ hpart hdot _ => exact ⟨hdot, hpart⟩
  have hnone : dottedExtent others = 0 := by
    cases others with
    | nil => rfl
    | cons node rest =>
      cases rest with
      | nil => rfl
      | cons next rest =>
        rw [dottedExtent, if_neg]
        simp [(hhead node _ rfl).1]
  fun_induction dottedExtent siblings with
  | case1 dot part siblings hpart ih =>
    rw [List.cons_append, List.cons_append, dottedExtent, if_pos hpart, ih]
  | case2 dot part siblings hpart =>
    rw [List.cons_append, List.cons_append, dottedExtent, if_neg hpart]
  | case3 siblings hshort =>
    rcases siblings with _ | ⟨dot, _ | ⟨part, rest⟩⟩
    · exact hnone
    · cases others with
      | nil => rfl
      | cons node rest =>
        rw [List.singleton_append, dottedExtent, if_neg]
        simp [(hhead node _ rfl).2]
    · exact absurd rfl (hshort dot part rest)

theorem sparesAll_identifier : SparesAll identifierExtent others where
  append node siblings := by rw [identifierExtent, identifierExtent, h.dottedExtent_append]
  le_length := trails_semicolon.spares_identifier.le_length

theorem sparesAll_operation : SparesAll operationExtent others where
  append node siblings := by
    rw [operationExtent, operationExtent, reaches_append fun p hp => h.reach_eq_none rfl fun node hnode => ?_]
    simp only [List.mem_cons, List.not_mem_nil, or_false] at hp
    rcases hp with rfl | rfl
    · exact Bool.or_eq_false_iff.2 ⟨hnode.operator, hnode.not_wildcard⟩
    · exact hnode.not_operand
  le_length := trails_semicolon.spares_operation.le_length

theorem sparesAll_comparison : SparesAll comparisonExtent others where
  append node siblings := by
    rw [comparisonExtent, comparisonExtent,
      reaches_append fun p hp => h.reach_eq_none rfl fun node hnode => ?_]
    simp only [List.mem_cons, List.not_mem_nil, or_false] at hp
    rcases hp with rfl | rfl
    · exact hnode.comparison
    · exact hnode.not_operand
  le_length := trails_semicolon.spares_comparison.le_length

theorem sparesAll_as : SparesAll asExtent others where
  append node siblings := by
    rw [asExtent, asExtent, reaches_append fun p hp => h.reach_eq_none rfl fun node hnode => ?_]
    simp only [List.mem_cons, List.not_mem_nil, or_false] at hp
    rcases hp with rfl | rfl
    · exact hnode.not_word (by simp)
    · have hoperand := hnode.not_operand
      unfold isOperand at hoperand
      unfold isAliasOrBody
      split <;> simp_all [Kind.isOperand]
  le_length := trails_semicolon.spares_as.le_length

theorem sparesAll_alias : SparesAll aliasExtent others where
  append node siblings := by
    rw [aliasExtent, aliasExtent, reach_append (h.reach_eq_none rfl fun node hnode => ?_)]
    rw [isSingleName, hnode.not_kind rfl, Bool.false_and]
  le_length := trails_semicolon.spares_alias.le_length

theorem sparesAll_direction : SparesAll directionExtent others where
  append node siblings := by
    rw [directionExtent, directionExtent,
      reach_append (h.reach_eq_none rfl fun node hnode => hnode.not_direction)]
  le_length := trails_semicolon.spares_direction.le_length

theorem sparesAll_comment : SparesAll commentExtent others where
  append node siblings := by
    rw [commentExtent, commentExtent,
      reach_append (h.reach_eq_none rfl fun node hnode => hnode.not_comment)]
  le_length := (trails_semicolon.spares_comment rfl).le_length

end Bounded

section Passes

variable {extent : Node → List Node → Option Nat} {join : Node → List Node → Node}
  {others : List Node}

theorem SparesAll.joinOnce_append (h : SparesAll extent others) (siblings : List Node) :
    joinOnce extent join (siblings ++ others) =
      joinOnce extent join siblings ++ joinOnce extent join others := by
  fun_induction joinOnce extent join siblings with
  | case1 => rfl
  | case2 node siblings n hn ih =>
    have hle := h.le_length node siblings n hn
    rw [List.cons_append, joinOnce_cons_of_some ((h.append node siblings).trans hn),
      List.take_append_of_le_length hle, List.drop_append_of_le_length hle, ih, List.cons_append]
  | case3 node siblings hnone ih =>
    rw [List.cons_append, joinOnce_cons_of_none ((h.append node siblings).trans hnone), ih,
      List.cons_append]

theorem SparesAll.joinRepeatedly_append (h : SparesAll extent others) (siblings : List Node) :
    joinRepeatedly extent join (siblings ++ others) =
      joinRepeatedly extent join siblings ++ joinRepeatedly extent join others := by
  fun_induction joinRepeatedly extent join siblings with
  | case1 => rfl
  | case2 node =>
    have hshort : ∀ n, extent node others ≠ some (n + 1) := by
      intro n hn
      rw [← List.nil_append others, h.append] at hn
      exact absurd (h.le_length node [] _ hn) (by simp)
    cases others with
    | nil => simp [joinRepeatedly]
    | cons next others =>
      rw [List.singleton_append, joinRepeatedly]
      split
      · next n hn => exact absurd hn (hshort n)
      · rfl
  | case3 node next siblings n hn ih =>
    have hle : n ≤ siblings.length := Nat.le_of_succ_le_succ (h.le_length node _ _ hn)
    rw [List.cons_append, List.cons_append, joinRepeatedly, ← List.cons_append, h.append, hn]
    dsimp only
    rw [List.take_append_of_le_length hle, List.drop_append_of_le_length hle, ← ih]
    rfl
  | case4 node next siblings hnone ih =>
    rw [List.cons_append, List.cons_append, joinRepeatedly, ← List.cons_append, h.append]
    split
    · next n hn => exact absurd hn (hnone n)
    · rw [ih, List.cons_append]

end Passes

namespace Bounded

variable {others : List Node} (h : Bounded others)
include h

/-- A pass that leaves alone what is neither an operand nor a sign leaves the beginning of the row
alone. -/
theorem of_pass {pass : List Node → List Node} (hnil : pass [] = [])
    (hcons : ∀ node siblings, node.isItem = false → node.isSign = false →
      pass (node :: siblings) = node :: pass siblings) : Bounded (pass others) := by
  have hspace : ∀ {blank : Node}, blank.isWhitespace = true → ∀ siblings,
      pass (blank :: siblings) = blank :: pass siblings := by
    intro blank hblank siblings
    have hinert := inert_of_isFiller (isFiller_of_isWhitespace hblank)
    exact hcons blank siblings hinert.item hinert.sign
  cases h with
  | nil => rw [hnil]; exact .nil
  | blank hblank => rw [hspace hblank, hnil]; exact .blank hblank
  | spaced hblank hnode siblings =>
    rw [hspace hblank, hcons _ _ hnode.item hnode.sign]
    exact .spaced hblank hnode _
  | mark hnode hpart hdot siblings =>
    rw [hcons _ _ hnode.item hnode.sign]
    exact .mark hnode hpart hdot _

theorem joinOnce {extent : Node → List Node → Option Nat} {join : Node → List Node → Node}
    (hextent : ∀ node : Node, node.isItem = false → ∀ siblings, extent node siblings = none) :
    Bounded (Node.joinOnce extent join others) :=
  h.of_pass joinOnce_nil fun node siblings hnode _ =>
    joinOnce_cons_of_none (hextent node hnode siblings)

theorem joinRepeatedly {extent : Node → List Node → Option Nat} {join : Node → List Node → Node}
    (hextent : ∀ node : Node, node.isItem = false → ∀ siblings, extent node siblings = none) :
    Bounded (Node.joinRepeatedly extent join others) :=
  h.of_pass joinRepeatedly_nil fun node siblings hnode _ =>
    joinRepeatedly_cons_of_none (hextent node hnode siblings)

theorem groupSigns : Bounded (Node.groupSigns false others) :=
  h.of_pass (groupSigns_nil false) fun node siblings hnode hsign => by
    have hoperand : node.isOperand = false := by
      simp only [isItem, Bool.or_eq_false_iff] at hnode
      exact hnode.1.1
    rw [groupSigns_cons hsign, hoperand, ite_self]

/-- Signs behind the row depend on nothing before it. -/
theorem groupSigns_eq (preceded : Bool) :
    Node.groupSigns preceded others = Node.groupSigns false others := by
  have hstop : ∀ {node : Node}, node.Divider → ∀ siblings,
      Node.groupSigns preceded (node :: siblings) = Node.groupSigns false (node :: siblings) := by
    intro node hnode siblings
    rw [groupSigns_cons hnode.sign, groupSigns_cons hnode.sign, hnode.not_whitespace,
      if_neg Bool.false_ne_true, if_neg Bool.false_ne_true]
  cases h with
  | nil => rw [groupSigns_nil, groupSigns_nil]
  | blank hblank =>
    have hsign := (inert_of_isFiller (isFiller_of_isWhitespace hblank)).sign
    rw [groupSigns_cons hsign, groupSigns_cons hsign, groupSigns_nil, groupSigns_nil]
  | spaced hblank hnode siblings =>
    have hsign := (inert_of_isFiller (isFiller_of_isWhitespace hblank)).sign
    rw [groupSigns_cons hsign, groupSigns_cons hsign, if_pos hblank, if_pos hblank, hstop hnode]
  | mark hnode _ _ siblings => exact hstop hnode siblings

theorem groupSigns_append (preceded : Bool) (siblings : List Node) :
    Node.groupSigns preceded (siblings ++ others) =
      Node.groupSigns preceded siblings ++ Node.groupSigns false others := by
  fun_induction Node.groupSigns preceded siblings with
  | case1 preceded sign operand siblings hsign ih =>
    rw [List.cons_append, List.cons_append, Node.groupSigns, if_pos hsign, ih, List.cons_append]
  | case2 preceded sign operand siblings hsign ih =>
    rw [List.cons_append, List.cons_append, Node.groupSigns, if_neg hsign, ← List.cons_append, ih,
      List.cons_append]
  | case3 siblings preceded hshort =>
    rcases siblings with _ | ⟨sign, _ | ⟨operand, rest⟩⟩
    · exact h.groupSigns_eq preceded
    · -- the row does not begin with an operand that the sign could be joined with
      have hhead : ∀ node rest, others = node :: rest → node.isOperand = false := by
        rintro node rest rfl
        cases h with
        | blank hblank => exact (trails_of_isFiller (isFiller_of_isWhitespace hblank)).isOperand
        | spaced hblank _ _ => exact (trails_of_isFiller (isFiller_of_isWhitespace hblank)).isOperand
        | mark hnode _ _ _ => exact hnode.not_operand
      cases others with
      | nil => simp [Node.groupSigns]
      | cons node rest =>
        rw [List.singleton_append, Node.groupSigns, if_neg (by simp [hhead node rest rfl]),
          h.groupSigns_eq]
        rfl
    · exact absurd rfl (hshort sign operand rest)

/-- A row is grouped part by part, apart from lists. -/
theorem groupItems_append (siblings : List Node) :
    groupItems (siblings ++ others) = groupItems siblings ++ groupItems others := by
  have hoperand : ∀ {node : Node}, node.isItem = false → node.isOperand = false ∧
      node.isKind .comparison = false := by
    intro node hnode
    simp only [isItem, Bool.or_eq_false_iff] at hnode
    exact ⟨hnode.1.1, hnode.2⟩
  have hcalled : Bounded (Node.joinOnce callExtent (enclose .function) others) :=
    h.joinOnce fun node hnode => callExtent_of_not_operand (hoperand hnode).1
  have hnamed : Bounded (Node.joinOnce identifierExtent (enclose .identifier) _) :=
    hcalled.joinOnce fun node hnode => identifierExtent_of_not_operand (hoperand hnode).1
  have hsigned := hnamed.groupSigns
  have hoperated : Bounded (Node.joinRepeatedly operationExtent (enclose .operation) _) :=
    hsigned.joinRepeatedly fun node hnode => operationExtent_of_not_operand (hoperand hnode).1
  have hcompared : Bounded (Node.joinOnce comparisonExtent (enclose .comparison) _) :=
    hoperated.joinOnce fun node hnode => comparisonExtent_of_not_operand (hoperand hnode).1
  have hbodied : Bounded (Node.joinRepeatedly asExtent (enclose .identifier) _) :=
    hcompared.joinRepeatedly fun node hnode =>
      asExtent_of_not_operand (hoperand hnode).1 (hoperand hnode).2
  have haliased : Bounded (Node.joinOnce aliasExtent (enclose .identifier) _) :=
    hbodied.joinOnce fun node hnode => aliasExtent_of_not_operand (hoperand hnode).1
  have hdirected : Bounded (Node.joinOnce directionExtent attach _) :=
    haliased.joinOnce fun node hnode => directionExtent_of_not_operand (hoperand hnode).1
  unfold groupItems
  simp only
  rw [h.sparesAll_call.joinOnce_append, hcalled.sparesAll_identifier.joinOnce_append,
    hnamed.groupSigns_append, hsigned.sparesAll_operation.joinRepeatedly_append,
    hoperated.sparesAll_comparison.joinOnce_append,
    hcompared.sparesAll_as.joinRepeatedly_append, hbodied.sparesAll_alias.joinOnce_append,
    haliased.sparesAll_direction.joinOnce_append,
    hdirected.sparesAll_comment.joinRepeatedly_append]

/-- No list goes on behind a barrier that is no comma. -/
theorem listTail_append (hcomma : reach .all (·.isMark ",") others = none) (siblings : List Node) :
    listTail (siblings ++ others) = listTail siblings := by
  have hps : ∀ p ∈ [(isMark · ","), isItem], reach .all p others = none := by
    intro p hp
    simp only [List.mem_cons, List.not_mem_nil, or_false] at hp
    rcases hp with rfl | rfl
    · exact hcomma
    · exact h.reach_eq_none rfl fun node hnode => hnode.item
  fun_induction listTail siblings with
  | case1 =>
    cases others with
    | nil => rw [List.nil_append, listTail]
    | cons node others =>
      have hnone : reaches .all [(isMark · ","), isItem] (node :: others) = none := by
        rw [reaches, hcomma]
        rfl
      rw [List.nil_append, listTail, hnone]
  | case2 node siblings n hn ih =>
    have hle : n ≤ siblings.length := Nat.le_of_succ_le_succ (reaches_le_length hn)
    rw [List.cons_append, listTail, ← List.cons_append, reaches_append hps, hn]
    dsimp only
    rw [List.drop_append_of_le_length hle, ih]
  | case3 node siblings hnone =>
    rw [List.cons_append, listTail, ← List.cons_append, reaches_append hps]
    split
    · next n hn => exact absurd hn (hnone n)
    · rfl

theorem sparesAll_list (hcomma : reach .all (·.isMark ",") others = none) :
    SparesAll listExtent others where
  append node siblings := by rw [listExtent, listExtent, h.listTail_append hcomma]
  le_length := (trails_semicolon.spares_list rfl).le_length

theorem groupItems : Bounded (Node.groupItems others) :=
  h.of_pass (by simp [Node.groupItems]) fun node siblings hnode hsign => by
    simp only [isItem, Bool.or_eq_false_iff] at hnode
    exact groupItems_cons hnode.1.1 hnode.2 hsign siblings

theorem groupExpressions_append (hcomma : reach .all (·.isMark ",") (Node.groupItems others) = none)
    (siblings : List Node) :
    groupExpressions (siblings ++ others) = groupExpressions siblings ++ groupExpressions others := by
  rw [groupExpressions_eq, h.groupItems_append,
    (h.groupItems.sparesAll_list hcomma).joinOnce_append, ← groupExpressions_eq, ← groupExpressions_eq]

end Bounded

theorem groupItems_nil : groupItems [] = [] := by
  simp [groupItems]

theorem groupExpressions_nil : groupExpressions [] = [] := by
  rw [groupExpressions_eq, groupItems_nil, joinOnce_nil]

theorem groupLevel_nil : groupLevel [] = [] := by
  rw [groupLevel, groupCases, groupExpressions_nil]

theorem groupCases_append {siblings : List Node}
    (h : ∀ node ∈ siblings, node.isWord "CASE" = false) (others : List Node) :
    groupCases (siblings ++ others) = siblings ++ groupCases others := by
  induction siblings with
  | nil => rfl
  | cons node siblings ih =>
    rw [List.cons_append, groupCases_cons (h node List.mem_cons_self),
      ih fun other hother => h other (List.mem_cons_of_mem _ hother), List.cons_append]

theorem groupLevel_eq {siblings : List Node} (h : ∀ node ∈ siblings, node.isWord "CASE" = false) :
    groupLevel siblings = groupExpressions siblings := by
  have hcases := groupCases_append h []
  rw [List.append_nil, groupCases, List.append_nil] at hcases
  rw [groupLevel, hcases]

theorem groupWheres_append {siblings : List Node}
    (h : ∀ node ∈ siblings, node.isWord "WHERE" = false) (others : List Node) :
    groupWheres (siblings ++ others) = siblings ++ groupWheres others := by
  induction siblings with
  | nil => rfl
  | cons node siblings ih =>
    rw [List.cons_append, groupWheres_cons (h node List.mem_cons_self),
      ih fun other hother => h other (List.mem_cons_of_mem _ hother), List.cons_append]

/-- What stands behind a barrier other than a comma is grouped as it is alone, and so is what stands
before it. -/
theorem Barrier.groupLevel_append {node : Node} (h : node.Barrier) (hcomma : node.isMark "," = false)
    {siblings : List Node} (hcases : ∀ sibling ∈ siblings, sibling.isWord "CASE" = false)
    (others : List Node) :
    groupLevel (siblings ++ spaceNode :: node :: others) =
      groupLevel siblings ++ spaceNode :: node :: groupLevel others := by
  have hreach : reach .all (·.isMark ",") (groupItems (spaceNode :: node :: groupCases others)) =
      none := by
    have hspace : spaceNode.isFiller .all = true := rfl
    rw [inert_spaceNode.groupItems_cons, h.toInert.groupItems_cons, reach, if_pos hspace, reach,
      if_neg (by simp [h.filler]), if_neg (by simp [hcomma]), Option.map_none]
  rw [groupLevel, groupCases_append hcases, groupCases_cons inert_spaceNode.noCase,
    groupCases_cons h.noCase, (Bounded.spaced rfl h.toDivider _).groupExpressions_append hreach,
    groupLevel_eq hcases, inert_spaceNode.groupExpressions_cons, h.toInert.groupExpressions_cons]
  rfl

theorem groupLevel_append_space {siblings : List Node}
    (hcases : ∀ sibling ∈ siblings, sibling.isWord "CASE" = false) :
    groupLevel (siblings ++ [spaceNode]) = groupLevel siblings ++ [spaceNode] := by
  have hreach : reach .all (·.isMark ",") (groupItems [spaceNode]) = none := by
    rw [inert_spaceNode.groupItems_cons, groupItems_nil]
    rfl
  rw [groupLevel, groupCases_append hcases, groupCases_cons inert_spaceNode.noCase, groupCases,
    (Bounded.blank rfl).groupExpressions_append hreach, groupLevel_eq hcases,
    inert_spaceNode.groupExpressions_cons, groupExpressions_nil]

end QueryLineage.Node
