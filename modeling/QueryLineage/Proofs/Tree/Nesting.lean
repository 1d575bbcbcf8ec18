import QueryLineage.Proofs.Lexeme.Enclosed
import QueryLineage.Proofs.Tree.Lossless

/-!
# Nesting

Where every parenthesis has a partner, what becomes of lexemes can be said without a stack: a pair
of parentheses encloses what its inside becomes, and the lexemes behind it become what they become
by themselves. So a row of lexemes between parentheses is grouped as it is alone, and of two rows
one behind the other each is, also where closing parentheses are left over.
-/

namespace QueryLineage

open Text

namespace Lexeme

/-- The lexemes that no pair of parentheses encloses, without the pairs themselves; `depth`
parentheses are open at the beginning. -/
def outermost (depth : Nat) : List Lexeme → List Lexeme
  | [] => []
  | lexeme :: lexemes =>
    if depth = 0 ∧ lexeme.isMark "(" = false then lexeme :: outermost 0 lexemes
    else outermost (depthAfter depth lexeme) lexemes

end Lexeme

namespace Node

def lexeme? : Node → Option Lexeme
  | leaf kind text => some ⟨kind, text⟩
  | group _ _ => none

/-- The lexemes have no parenthesis without a partner, and they become the nodes. -/
inductive Nests : List Lexeme → List Node → Prop
  | nil : Nests [] []
  | lexeme {lexeme : Lexeme} {lexemes : List Lexeme} {nodes : List Node}
      (hopening : lexeme.isMark "(" = false) (hclosing : lexeme.isMark ")" = false)
      (hrest : Nests lexemes nodes) : Nests (lexeme :: lexemes) (lexeme.toNode :: nodes)
  | parentheses {enclosed lexemes : List Lexeme} {inner nodes : List Node}
      (hinner : Nests enclosed inner) (hrest : Nests lexemes nodes) :
      Nests (.opening :: (enclosed ++ .closing :: lexemes))
        (group .parenthesis (openingMark :: (inner ++ [closingMark])) :: nodes)

/-- The lexemes become the nodes, where a closing parenthesis may have no partner. -/
inductive Pairs : List Lexeme → List Node → Prop
  | nil : Pairs [] []
  | lexeme {lexeme : Lexeme} {lexemes : List Lexeme} {nodes : List Node}
      (hopening : lexeme.isMark "(" = false) (hrest : Pairs lexemes nodes) :
      Pairs (lexeme :: lexemes) (lexeme.toNode :: nodes)
  | parentheses {enclosed lexemes : List Lexeme} {inner nodes : List Node}
      (hinner : Nests enclosed inner) (hrest : Pairs lexemes nodes) :
      Pairs (.opening :: (enclosed ++ .closing :: lexemes))
        (group .parenthesis (openingMark :: (inner ++ [closingMark])) :: nodes)

namespace Nests

variable {lexemes others : List Lexeme} {nodes more : List Node}

theorem append (h : Nests lexemes nodes) (hmore : Nests others more) :
    Nests (lexemes ++ others) (nodes ++ more) := by
  induction h with
  | nil => exact hmore
  | lexeme hopening hclosing _ ih => exact .lexeme hopening hclosing ih
  | @parentheses enclosed lexemes _ _ hinner _ _ ih =>
    rw [List.cons_append, List.append_assoc, List.cons_append]
    exact .parentheses hinner ih

theorem of_forall (h : ∀ lexeme ∈ lexemes, lexeme.isMark "(" = false ∧ lexeme.isMark ")" = false) :
    Nests lexemes (lexemes.map Lexeme.toNode) := by
  induction lexemes with
  | nil => exact .nil
  | cons lexeme lexemes ih =>
    obtain ⟨hopening, hclosing⟩ := h lexeme List.mem_cons_self
    exact .lexeme hopening hclosing (ih fun l hl => h l (List.mem_cons_of_mem _ hl))

/-- What nests is read as a whole, whatever stands before it and behind it. -/
theorem closeParentheses (h : Nests lexemes nodes) (sql : String) (offset : Nat)
    (opened : List OpenParenthesis) (current more : List Node) : ∃ offset',
      Node.closeParentheses sql offset opened current (lexemes.map Lexeme.toNode ++ more) =
        Node.closeParentheses sql offset' opened (current ++ nodes) more := by
  induction h generalizing offset opened current more with
  | nil => exact ⟨offset, by simp⟩
  | @lexeme lexeme lexemes nodes hopening hclosing _ ih =>
    obtain ⟨offset', heq⟩ := ih (offset + byteLength lexeme.toNode.text.toList) opened
      (current ++ [lexeme.toNode]) more
    refine ⟨offset', ?_⟩
    rw [List.map_cons, List.cons_append, closeParentheses_other (by exact hopening)
      fun _ => by exact hclosing, heq, List.append_assoc, List.singleton_append]
  | @parentheses enclosed lexemes inner nodes _ _ ihinner ihrest =>
    obtain ⟨middle, hmiddle⟩ := ihinner (offset + byteLength openingMark.text.toList)
      (⟨current, offset⟩ :: opened) [openingMark] (closingMark :: (lexemes.map Lexeme.toNode ++ more))
    obtain ⟨offset', hrest⟩ := ihrest (middle + byteLength closingMark.text.toList) opened
      (current ++ [group .parenthesis (openingMark :: (inner ++ [closingMark]))]) more
    refine ⟨offset', ?_⟩
    have hshape : (Lexeme.opening :: (enclosed ++ .closing :: lexemes)).map Lexeme.toNode ++ more =
        openingMark :: (enclosed.map Lexeme.toNode ++
          closingMark :: (lexemes.map Lexeme.toNode ++ more)) := by
      simp [Lexeme.opening, Lexeme.closing, Lexeme.toNode, openingMark, closingMark]
    rw [hshape, closeParentheses_opening rfl, hmiddle, closeParentheses_closing rfl rfl]
    simpa using hrest

theorem groupParentheses (h : Nests lexemes nodes) (sql : String) :
    Node.groupParentheses sql (lexemes.map Lexeme.toNode) = .ok nodes := by
  obtain ⟨offset, heq⟩ := h.closeParentheses sql 0 [] [] []
  rw [List.append_nil] at heq
  exact heq

/-- What is read up to the parenthesis that closes the innermost open one. The induction is on the
number of lexemes, since what follows an inner pair is read in the same way as the pair. -/
theorem exists_of_closeParentheses {sql : String} (n : Nat) :
    ∀ {lexemes : List Lexeme} {offset : Nat} {innermost : OpenParenthesis}
      {outer : List OpenParenthesis} {current : List Node}, lexemes.length ≤ n →
    Node.closeParentheses sql offset (innermost :: outer) current
      (lexemes.map Lexeme.toNode) = .ok nodes →
    ∃ enclosed inner rest offset', lexemes = enclosed ++ .closing :: rest ∧ Nests enclosed inner ∧
      Node.closeParentheses sql offset' outer
        (innermost.before ++ [group .parenthesis (current ++ inner ++ [closingMark])])
        (rest.map Lexeme.toNode) = .ok nodes := by
  induction n with
  | zero =>
    intro lexemes offset innermost outer current hn h
    obtain rfl := List.length_eq_zero_iff.1 (Nat.le_zero.1 hn)
    cases h
  | succ n ih =>
    intro lexemes offset innermost outer current hn h
    cases lexemes with
    | nil => cases h
    | cons lexeme lexemes =>
      have hlength : lexemes.length ≤ n := Nat.le_of_succ_le_succ hn
      rw [List.map_cons] at h
      by_cases hopening : lexeme.isMark "(" = true
      · obtain rfl := Lexeme.eq_of_isMark hopening
        rw [closeParentheses_opening rfl] at h
        obtain ⟨enclosed, inner, rest, middle, rfl, hinner, h⟩ := ih hlength h
        rw [List.length_append, List.length_cons] at hlength
        obtain ⟨enclosed', inner', rest', offset', rfl, hinner', h⟩ := ih (by omega) h
        refine ⟨.opening :: (enclosed ++ .closing :: enclosed'), _, rest', offset', ?_,
          .parentheses hinner hinner', ?_⟩
        · simp [Lexeme.opening]
        · simpa [openingMark, Lexeme.toNode] using h
      · have hnot : lexeme.isMark "(" = false := by simpa using hopening
        by_cases hclosing : lexeme.isMark ")" = true
        · obtain rfl := Lexeme.eq_of_isMark hclosing
          rw [closeParentheses_closing rfl rfl] at h
          have hempty : current ++ [] ++ [closingMark] = current ++ [closingMark] := by simp
          refine ⟨[], [], lexemes, offset + byteLength closingMark.text.toList, rfl, .nil, ?_⟩
          rw [hempty]
          exact h
        · have hnot' : lexeme.isMark ")" = false := by simpa using hclosing
          rw [closeParentheses_other (by exact hnot) fun _ => by exact hnot'] at h
          obtain ⟨enclosed, inner, rest, offset', rfl, hinner, h⟩ := ih hlength h
          refine ⟨lexeme :: enclosed, _, rest, offset', rfl, .lexeme hnot hnot' hinner, ?_⟩
          simpa using h

theorem outermost_append (h : Nests lexemes nodes) (depth : Nat) (rest : List Lexeme) :
    Lexeme.outermost (depth + 1) (lexemes ++ rest) = Lexeme.outermost (depth + 1) rest := by
  induction h generalizing depth rest with
  | nil => rfl
  | @lexeme lexeme lexemes nodes hopening hclosing _ ih =>
    rw [List.cons_append, Lexeme.outermost, if_neg (by simp), Lexeme.depthAfter, if_neg (by simp [hopening]),
      if_neg (by simp [hclosing]), ih]
  | @parentheses enclosed lexemes inner nodes _ _ ihinner ihrest =>
    rw [List.cons_append, List.append_assoc, Lexeme.outermost, if_neg (by simp)]
    have hopen : Lexeme.depthAfter (depth + 1) .opening = depth + 1 + 1 := rfl
    rw [hopen, ihinner, List.cons_append, Lexeme.outermost, if_neg (by simp)]
    exact ihrest depth rest

theorem outermost_opening (h : Nests lexemes nodes) (rest : List Lexeme) :
    Lexeme.outermost 0 (.opening :: (lexemes ++ .closing :: rest)) = Lexeme.outermost 0 rest := by
  have hopen : Lexeme.depthAfter 0 .opening = 0 + 1 := rfl
  have hclose : Lexeme.depthAfter (0 + 1) .closing = 0 := rfl
  rw [Lexeme.outermost, if_neg (by simp [Lexeme.opening, Lexeme.isMark]), hopen,
    h.outermost_append 0, Lexeme.outermost, if_neg (by simp), hclose]

theorem filterMap_lexeme? (h : Nests lexemes nodes) :
    nodes.filterMap Node.lexeme? = Lexeme.outermost 0 lexemes := by
  induction h with
  | nil => rfl
  | lexeme hopening _ _ ih =>
    rw [Lexeme.outermost, if_pos ⟨rfl, hopening⟩, ← ih]
    rfl
  | parentheses hinner _ _ ih => rw [hinner.outermost_opening, ← ih]; rfl

end Nests

namespace Pairs

variable {lexemes others : List Lexeme} {nodes more : List Node}

theorem append (h : Pairs lexemes nodes) (hmore : Pairs others more) :
    Pairs (lexemes ++ others) (nodes ++ more) := by
  induction h with
  | nil => exact hmore
  | lexeme hopening _ ih => exact .lexeme hopening ih
  | @parentheses enclosed lexemes _ _ hinner _ ih =>
    rw [List.cons_append, List.append_assoc, List.cons_append]
    exact .parentheses hinner ih

/-- Where every parenthesis has a partner, the lexemes nest. -/
theorem nests (h : Pairs lexemes nodes)
    (hclosed : ∀ lexeme ∈ Lexeme.outermost 0 lexemes, lexeme.isMark ")" = false) :
    Nests lexemes nodes := by
  induction h with
  | nil => exact .nil
  | @lexeme lexeme lexemes nodes hopening _ ih =>
    rw [Lexeme.outermost, if_pos ⟨rfl, hopening⟩] at hclosed
    exact .lexeme hopening (hclosed lexeme List.mem_cons_self)
      (ih fun other hother => hclosed other (List.mem_cons_of_mem _ hother))
  | parentheses hinner _ ih =>
    rw [hinner.outermost_opening] at hclosed
    exact .parentheses hinner (ih hclosed)

/-- What stands before the lexemes does not matter where no parenthesis is open. -/
theorem closeParentheses (h : Pairs lexemes nodes) (sql : String) (offset : Nat)
    (current : List Node) :
    Node.closeParentheses sql offset [] current (lexemes.map Lexeme.toNode) =
      .ok (current ++ nodes) := by
  induction h generalizing offset current with
  | nil => simp [Node.closeParentheses]
  | lexeme hopening _ ih =>
    rw [List.map_cons, closeParentheses_other (by exact hopening) (by simp), ih]
    simp
  | @parentheses enclosed lexemes inner nodes hinner _ ih =>
    have hshape : (Lexeme.opening :: (enclosed ++ .closing :: lexemes)).map Lexeme.toNode =
        openingMark :: (enclosed.map Lexeme.toNode ++ closingMark :: lexemes.map Lexeme.toNode) := by
      simp [Lexeme.opening, Lexeme.closing, Lexeme.toNode, openingMark, closingMark]
    obtain ⟨offset', heq⟩ := hinner.closeParentheses sql
      (offset + byteLength openingMark.text.toList) [⟨current, offset⟩] [openingMark]
      (closingMark :: lexemes.map Lexeme.toNode)
    rw [hshape, closeParentheses_opening rfl, heq, closeParentheses_closing rfl rfl, ih]
    simp

/-- The induction is on the number of lexemes, since what follows a pair is read like the whole. -/
theorem of_closeParentheses {sql : String} (n : Nat) :
    ∀ {lexemes : List Lexeme} {offset : Nat} {current : List Node}, lexemes.length ≤ n →
    Node.closeParentheses sql offset [] current (lexemes.map Lexeme.toNode) = .ok nodes →
    ∃ more, nodes = current ++ more ∧ Pairs lexemes more := by
  induction n with
  | zero =>
    intro lexemes offset current hn h
    obtain rfl := List.length_eq_zero_iff.1 (Nat.le_zero.1 hn)
    cases h
    exact ⟨[], by simp, .nil⟩
  | succ n ih =>
    intro lexemes offset current hn h
    cases lexemes with
    | nil =>
      cases h
      exact ⟨[], by simp, .nil⟩
    | cons lexeme lexemes =>
      have hlength : lexemes.length ≤ n := Nat.le_of_succ_le_succ hn
      rw [List.map_cons] at h
      by_cases hopening : lexeme.isMark "(" = true
      · obtain rfl := Lexeme.eq_of_isMark hopening
        rw [closeParentheses_opening rfl] at h
        obtain ⟨enclosed, inner, rest, middle, rfl, hinner, h⟩ :=
          Nests.exists_of_closeParentheses _ (Nat.le_refl _) h
        rw [List.length_append, List.length_cons] at hlength
        obtain ⟨more, rfl, hmore⟩ := ih (by omega) h
        refine ⟨_, ?_, .parentheses hinner hmore⟩
        simp [openingMark, Lexeme.toNode]
      · have hnot : lexeme.isMark "(" = false := by simpa using hopening
        rw [closeParentheses_other (by exact hnot) (by simp)] at h
        obtain ⟨more, rfl, hmore⟩ := ih hlength h
        exact ⟨_, by simp, .lexeme hnot hmore⟩

/-- What becomes of the lexemes of a text by its parentheses, if none of them is left open. -/
theorem groupParentheses_eq_ok_iff {sql : String} :
    groupParentheses sql (lexemes.map Lexeme.toNode) = .ok nodes ↔ Pairs lexemes nodes := by
  constructor
  · intro h
    obtain ⟨more, rfl, hmore⟩ := of_closeParentheses _ (Nat.le_refl _) h
    exact hmore
  · intro h
    exact h.closeParentheses sql 0 []

end Pairs

theorem Nests.of_groupParentheses {sql : String} {lexemes : List Lexeme} {nodes : List Node}
    (hclosed : ∀ lexeme ∈ Lexeme.outermost 0 lexemes, lexeme.isMark ")" = false)
    (h : Node.groupParentheses sql (lexemes.map Lexeme.toNode) = .ok nodes) :
    Nests lexemes nodes :=
  (Pairs.groupParentheses_eq_ok_iff.1 h).nests hclosed

end Node

end QueryLineage
