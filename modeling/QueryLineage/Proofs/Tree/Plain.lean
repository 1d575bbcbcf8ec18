import QueryLineage.Proofs.Text.Trim
import QueryLineage.Proofs.Tree.Single

/-!
# Texts in which parentheses are parentheses

Where no string, quoted name or comment contains a parenthesis or a semicolon, the parentheses in
the text of a query have partners as those among its lexemes do, and its text does not end with a
semicolon.
-/

namespace QueryLineage

open Text

/-- Parentheses and semicolons stand only where they are lexemes of their own. -/
def Lexeme.Plain (lexemes : List Lexeme) : Prop :=
  ∀ lexeme ∈ lexemes, lexeme.isMark "(" = true ∨ lexeme.isMark ")" = true ∨
    lexeme.isMark ";" = true ∨ ∀ c ∈ lexeme.text.toList, c ≠ '(' ∧ c ≠ ')' ∧ c ≠ ';'

theorem Lexeme.Plain.withoutComments {lexemes : List Lexeme} (h : Plain lexemes) :
    Plain (lexemes.map withoutComment) := by
  intro lexeme hlexeme
  obtain ⟨other, hother, rfl⟩ := List.mem_map.1 hlexeme
  rw [isMark_withoutComment, isMark_withoutComment, isMark_withoutComment]
  rcases h other hother with hmark | hmark | hmark | hplain
  · exact Or.inl hmark
  · exact Or.inr (Or.inl hmark)
  · exact Or.inr (Or.inr (Or.inl hmark))
  · refine Or.inr (Or.inr (Or.inr ?_))
    unfold withoutComment
    split
    · split <;> exact forall_mem_of_all (by decide)
    · exact hplain

namespace Node

/-- The text of the node has as many opening parentheses as closing ones. -/
def Balanced (node : Node) : Prop :=
  node.text.toList.count '(' = node.text.toList.count ')'

theorem balanced_textAll {nodes : List Node} (h : ∀ node ∈ nodes, node.Balanced) :
    (textAll nodes).toList.count '(' = (textAll nodes).toList.count ')' := by
  induction nodes with
  | nil => rfl
  | cons node nodes ih =>
    have hnode : node.text.toList.count '(' = node.text.toList.count ')' :=
      h node List.mem_cons_self
    rw [textAll_cons, String.toList_append, List.count_append, List.count_append, hnode,
      ih fun other hother => h other (List.mem_cons_of_mem _ hother)]

theorem balanced_group {kind : Kind} {children : List Node}
    (h : ∀ child ∈ children, child.Balanced) : (group kind children).Balanced := by
  rw [Balanced, text_group]
  exact balanced_textAll h

theorem balanced_enclose {kind : Kind} {node : Node} {siblings : List Node} {n : Nat}
    (hnode : node.Balanced) (hsiblings : ∀ sibling ∈ siblings, sibling.Balanced) :
    (enclose kind node (siblings.take n)).Balanced := by
  apply balanced_group
  intro child hchild
  rcases List.mem_cons.1 hchild with rfl | hchild
  · exact hnode
  · exact hsiblings child (List.mem_of_mem_take hchild)

theorem balanced_attach {node : Node} {siblings : List Node} {n : Nat} (hnode : node.Balanced)
    (hsiblings : ∀ sibling ∈ siblings, sibling.Balanced) :
    (attach node (siblings.take n)).Balanced := by
  have htaken : ∀ sibling ∈ siblings.take n, sibling.Balanced :=
    fun sibling hsibling => hsiblings sibling (List.mem_of_mem_take hsibling)
  unfold attach
  split
  · next children =>
    have hchildren : (textAll children).toList.count '(' = (textAll children).toList.count ')' := by
      rw [← text_group .identifier]
      exact hnode
    rw [Balanced, text_group, textAll_append, String.toList_append, List.count_append,
      List.count_append, hchildren, balanced_textAll htaken]
  · exact balanced_group htaken
  · apply balanced_group
    intro child hchild
    rcases List.mem_cons.1 hchild with rfl | hchild
    · exact hnode
    · exact htaken child hchild

theorem closed_balanced : Closed Balanced where
  call _ _ _ _ hnode hsiblings := balanced_enclose hnode hsiblings
  identifier _ _ _ _ hnode hsiblings := balanced_enclose hnode hsiblings
  sign sign operand _ _ hnode hother := by
    apply balanced_group
    intro child hchild
    simp only [List.mem_cons, List.not_mem_nil, or_false] at hchild
    rcases hchild with rfl | rfl
    · exact hnode
    · exact hother
  operation _ _ _ _ hnode hsiblings := balanced_enclose hnode hsiblings
  comparison _ _ _ _ hnode hsiblings := balanced_enclose hnode hsiblings
  named _ _ _ _ hnode hsiblings := balanced_enclose hnode hsiblings
  aliased _ _ _ _ hnode hsiblings := balanced_enclose hnode hsiblings
  directed _ _ _ _ hnode hsiblings := balanced_attach hnode hsiblings
  commented _ _ _ _ hnode hsiblings := balanced_attach hnode hsiblings
  listed _ _ _ _ hnode hsiblings := balanced_enclose hnode hsiblings
  caseBlock node inner ending _ _ hnode hinner hending := by
    apply balanced_group
    intro child hchild
    rcases List.mem_cons.1 hchild with rfl | hchild
    · exact hnode
    · rcases List.mem_append.1 hchild with hchild | hchild
      · exact hinner child hchild
      · rwa [List.mem_singleton.1 hchild]
  clause node inner _ _ hnode hinner := by
    apply balanced_group
    intro child hchild
    rcases List.mem_cons.1 hchild with rfl | hchild
    · exact hnode
    · exact hinner child hchild

section

variable {lexemes : List Lexeme} {nodes : List Node}

theorem Nests.balanced (h : Nests lexemes nodes) (hplain : Lexeme.Plain lexemes) :
    ∀ node ∈ nodes, node.Balanced := by
  induction h with
  | nil => simp
  | @lexeme lexeme lexemes nodes hopening hclosing _ ih =>
    intro node hnode
    rcases List.mem_cons.1 hnode with rfl | hnode
    · rcases hplain lexeme List.mem_cons_self with hmark | hmark | hmark | hnone
      · rw [hmark] at hopening
        cases hopening
      · rw [hmark] at hclosing
        cases hclosing
      · rw [Lexeme.eq_of_isMark hmark]
        unfold Balanced
        decide
      · have hzero : ∀ c, (c = '(' ∨ c = ')') → lexeme.text.toList.count c = 0 := by
          intro c hc
          rw [List.count_eq_zero]
          intro hmem
          obtain ⟨hnotOpening, hnotClosing, -⟩ := hnone c hmem
          exact hc.elim hnotOpening hnotClosing
        rw [Balanced, Lexeme.toNode, text_leaf, hzero _ (Or.inl rfl), hzero _ (Or.inr rfl)]
    · exact ih (fun other hother => hplain other (List.mem_cons_of_mem _ hother)) node hnode
  | @parentheses enclosed lexemes inner nodes _ _ ihinner ih =>
    intro node hnode
    rcases List.mem_cons.1 hnode with rfl | hnode
    · have hinner := balanced_textAll (ihinner fun other hother => hplain other (by simp [hother]))
      have hopen : openingMark.text.toList = ['('] := by decide
      have hclose : closingMark.text.toList = [')'] := by decide
      rw [Balanced, text_group, textAll_cons, textAll_append, textAll_cons, textAll_nil,
        String.append_empty, String.toList_append, String.toList_append, hopen, hclose]
      simp [hinner, Nat.add_comm]
    · exact ih (fun other hother => hplain other (by simp [hother])) node hnode

theorem balanced_groupAll (h : Nests lexemes nodes) (hplain : Lexeme.Plain lexemes)
    (hkinds : ∀ lexeme ∈ lexemes, lexeme.kind.isGroup = false) :
    ∀ node ∈ groupAll nodes, node.Balanced := by
  rw [groupAll, groupInsideAll_eq_map]
  apply closed_balanced.groupRun
  intro node hnode
  obtain ⟨child, hchild, rfl⟩ := List.mem_map.1 hnode
  rw [Balanced, text_eq_textAll_fringe, (h.bracketed hkinds child hchild).built.fringe_groupInside,
    ← text_eq_textAll_fringe]
  exact h.balanced hplain child hchild

theorem mem_of_mem_outermost {depth : Nat} {lexeme : Lexeme}
    (h : lexeme ∈ Lexeme.outermost depth lexemes) : lexeme ∈ lexemes := by
  induction lexemes generalizing depth with
  | nil => exact h
  | cons other lexemes ih =>
    rw [Lexeme.outermost] at h
    split at h
    · rcases List.mem_cons.1 h with rfl | h
      · exact List.mem_cons_self
      · exact List.mem_cons_of_mem _ (ih h)
    · exact List.mem_cons_of_mem _ (ih h)

/-- The text does not end with a semicolon, if none stands outside of parentheses. -/
theorem Nests.lastVisible?_textAll (h : Nests lexemes nodes) (hplain : Lexeme.Plain lexemes)
    (hsemicolon : ∀ lexeme ∈ Lexeme.outermost 0 lexemes, lexeme.isMark ";" = false) :
    lastVisible? (textAll nodes).toList ≠ some ';' := by
  have hnode : ∀ node ∈ nodes, lastVisible? node.text.toList ≠ some ';' := by
    intro node hnode
    rcases h.exists_of_mem hnode with ⟨lexeme, hlexeme, rfl, hopening, hclosing⟩ |
      ⟨_, inner, -, -, rfl⟩
    · intro hlast
      have hmem := mem_of_lastVisible? hlast
      have hmark := hsemicolon lexeme hlexeme
      rcases hplain lexeme (mem_of_mem_outermost hlexeme) with heq | heq | heq | hnone
      · simp [hopening] at heq
      · simp [hclosing] at heq
      · simp [hmark] at heq
      · exact (hnone ';' hmem).2.2 rfl
    · have hclose : closingMark.text.toList = [')'] := by decide
      have hvisible : lastVisible? [')'] = some ')' := by decide
      rw [text_group, textAll_cons, textAll_append, textAll_cons, textAll_nil, String.append_empty,
        String.toList_append, String.toList_append, hclose, lastVisible?_append,
        lastVisible?_append, hvisible, Option.some_or, Option.some_or]
      decide
  clear h
  induction nodes with
  | nil => decide
  | cons node nodes ih =>
    have hrest := ih fun other hother => hnode other (List.mem_cons_of_mem _ hother)
    rw [textAll_cons, String.toList_append, lastVisible?_append]
    cases hlast : lastVisible? (textAll nodes).toList with
    | none => exact hnode node List.mem_cons_self
    | some c =>
      rw [hlast] at hrest
      exact hrest

end

end Node

end QueryLineage
