import QueryLineage.Proofs.Tree.Brackets

/-!
# Which parentheses belong together

Grouping by parentheses keeps a stack of half-read rows of siblings. What it comes to can be said
without one: from left to right, every closing parenthesis is paired with the nearest opening one
before it that is not in a pair yet. The groups are these pairs, and reading fails at the last
opening parenthesis that is in none of them.
-/

namespace QueryLineage.Node

open Text

/-- The positions before `n` of opening parentheses that are in none of the pairs. -/
def unpaired (tokens : List Node) (pairs : List (Nat × Nat)) (n : Nat) : List Nat :=
  (List.range n).filter fun i => tokens[i]?.any (·.isMark "(") && !pairs.any (·.1 == i)

/-- The pairs of parentheses among the first `n` nodes: a closing one with the nearest opening one
before it that is not in a pair yet. A closing one without such a partner is in no pair. -/
def matching (tokens : List Node) : Nat → List (Nat × Nat)
  | 0 => []
  | n + 1 =>
    let pairs := matching tokens n
    if tokens[n]?.any (·.isMark ")") then
      match (unpaired tokens pairs n).getLast? with
      | some i => pairs ++ [(i, n)]
      | none => pairs
    else pairs

/-- The opening parentheses among the first `n` nodes that none of these closes. -/
def unclosed (tokens : List Node) (n : Nat) : List Nat :=
  unpaired tokens (matching tokens n) n

theorem not_isMark_of_isMark {node : Node} {mark other : String} (h : node.isMark mark = true)
    (hne : mark ≠ other) : node.isMark other = false := by
  rw [isMark, Bool.and_eq_true, beq_iff_eq] at h
  rw [isMark, h.2, beq_eq_false_iff_ne.2 hne, Bool.and_false]

section

variable {tokens : List Node} {n : Nat} {node : Node}

theorem matching_succ_closing (h : tokens[n]? = some node) (hmark : node.isMark ")" = true)
    {i : Nat} (hlast : (unclosed tokens n).getLast? = some i) :
    matching tokens (n + 1) = matching tokens n ++ [(i, n)] := by
  rw [unclosed] at hlast
  simp [matching, h, hmark, hlast]

theorem matching_succ_other (h : tokens[n]? = some node)
    (hmark : node.isMark ")" = true → unclosed tokens n = []) :
    matching tokens (n + 1) = matching tokens n := by
  rw [matching]
  split
  · next hclosing =>
    rw [h, Option.any_some] at hclosing
    have hnone := hmark hclosing
    rw [unclosed] at hnone
    rw [hnone]
    rfl
  · rfl

theorem lt_of_mem_matching : ∀ pair ∈ matching tokens n, pair.1 < n ∧ pair.2 < n := by
  induction n with
  | zero => simp [matching]
  | succ n ih =>
    have hearlier : ∀ pair ∈ matching tokens n, pair.1 < n + 1 ∧ pair.2 < n + 1 := fun pair hpair =>
      ⟨Nat.lt_succ_of_lt (ih pair hpair).1, Nat.lt_succ_of_lt (ih pair hpair).2⟩
    intro pair hpair
    rw [matching] at hpair
    split at hpair
    · split at hpair
      · next i hlast =>
        rcases List.mem_append.1 hpair with hpair | hpair
        · exact hearlier pair hpair
        · obtain rfl := List.mem_singleton.1 hpair
          have hmem := (List.mem_filter.1 (List.mem_of_getLast? hlast)).1
          exact ⟨Nat.lt_succ_of_lt (List.mem_range.1 hmem), Nat.lt_succ_self n⟩
      · exact hearlier pair hpair
    · exact hearlier pair hpair

theorem unclosed_succ_opening (h : tokens[n]? = some node) (hmark : node.isMark "(" = true) :
    unclosed tokens (n + 1) = unclosed tokens n ++ [n] := by
  have hnot : node.isMark ")" = false := not_isMark_of_isMark hmark (by decide)
  have hnew : (matching tokens n).any (·.1 == n) = false := by
    rw [List.any_eq_false]
    intro pair hpair
    simpa using Nat.ne_of_lt (lt_of_mem_matching pair hpair).1
  rw [unclosed, matching_succ_other h (by simp [hnot]), unpaired, List.range_succ,
    List.filter_append]
  simp [unclosed, unpaired, h, hmark, hnew]

theorem unclosed_succ_other (h : tokens[n]? = some node) (hopening : node.isMark "(" = false)
    (hclosing : node.isMark ")" = true → unclosed tokens n = []) :
    unclosed tokens (n + 1) = unclosed tokens n := by
  rw [unclosed, matching_succ_other h hclosing, unpaired, List.range_succ, List.filter_append]
  simp [unclosed, unpaired, h, hopening]

/-- A closing parenthesis closes the last one that is open. -/
theorem unclosed_succ_closing (h : tokens[n]? = some node) (hmark : node.isMark ")" = true)
    {front : List Nat} {i : Nat} (hfront : unclosed tokens n = front ++ [i]) :
    unclosed tokens (n + 1) = front := by
  have hlast : (unclosed tokens n).getLast? = some i := by rw [hfront, List.getLast?_concat]
  have hnot : node.isMark "(" = false := not_isMark_of_isMark hmark (by decide)
  have hsplit : unclosed tokens (n + 1) = (unclosed tokens n).filter (· != i) := by
    rw [unclosed, matching_succ_closing h hmark hlast, unpaired, List.range_succ,
      List.filter_append, unclosed, unpaired, List.filter_filter]
    simp only [h, hnot, List.filter_cons, List.filter_nil, Option.any_some, Bool.false_and,
      Bool.false_eq_true, if_false, List.append_nil]
    apply List.filter_congr
    intro j _
    have hcomm : (j != i) = !(i == j) := by rw [bne, BEq.comm]
    rw [List.any_append, List.any_cons, List.any_nil, Bool.or_false, Bool.not_or, ← Bool.and_assoc,
      Bool.and_comm, hcomm]
  have hnodup : (unclosed tokens n).Nodup := List.nodup_range.filter _
  rw [hfront] at hnodup
  have hapart : i ∉ front := by
    intro hmem
    exact (List.nodup_append.1 hnodup).2.2 i hmem i (by simp) rfl
  rw [hsplit, hfront, List.filter_append, List.filter_eq_self.2]
  · simp
  · intro j hj
    simp only [bne_iff_ne]
    rintro rfl
    exact hapart hj

end

/-- A part of what grouping by parentheses yields: a node that was there, or a group that is new.
Both know the positions of the nodes that were there. -/
inductive Piece where
  | token (token : Node × Nat)
  | pair (opening : Node × Nat) (inner : List Piece) (closing : Node × Nat)

namespace Piece

mutual

def node : Piece → Node
  | token kept => kept.1
  | pair opening inner closing => group .parenthesis (opening.1 :: (nodes inner ++ [closing.1]))

def nodes : List Piece → List Node
  | [] => []
  | piece :: pieces => piece.node :: nodes pieces

end

mutual

/-- What the piece has been made of, without the new groups. -/
def tokens : Piece → List (Node × Nat)
  | token kept => [kept]
  | pair opening inner closing => opening :: (tokensAll inner ++ [closing])

def tokensAll : List Piece → List (Node × Nat)
  | [] => []
  | piece :: pieces => piece.tokens ++ tokensAll pieces

end

mutual

/-- The positions of the parentheses of the new groups. -/
def pairs : Piece → List (Nat × Nat)
  | token _ => []
  | pair opening inner closing => (opening.2, closing.2) :: pairsAll inner

def pairsAll : List Piece → List (Nat × Nat)
  | [] => []
  | piece :: pieces => piece.pairs ++ pairsAll pieces

end

@[simp] theorem nodes_nil : nodes [] = [] := by simp [nodes]

@[simp] theorem nodes_append (pieces others : List Piece) :
    nodes (pieces ++ others) = nodes pieces ++ nodes others := by
  induction pieces with
  | nil => simp
  | cons piece pieces ih => simp [nodes, ih]

@[simp] theorem nodes_singleton (piece : Piece) : nodes [piece] = [piece.node] := by simp [nodes]

@[simp] theorem tokensAll_nil : tokensAll [] = [] := by simp [tokensAll]

@[simp] theorem tokensAll_append (pieces others : List Piece) :
    tokensAll (pieces ++ others) = tokensAll pieces ++ tokensAll others := by
  induction pieces with
  | nil => simp
  | cons piece pieces ih => simp [tokensAll, ih]

@[simp] theorem tokensAll_singleton (piece : Piece) : tokensAll [piece] = piece.tokens := by
  simp [tokensAll]

@[simp] theorem pairsAll_nil : pairsAll [] = [] := by simp [pairsAll]

@[simp] theorem pairsAll_append (pieces others : List Piece) :
    pairsAll (pieces ++ others) = pairsAll pieces ++ pairsAll others := by
  induction pieces with
  | nil => simp
  | cons piece pieces ih => simp [pairsAll, ih]

@[simp] theorem pairsAll_singleton (piece : Piece) : pairsAll [piece] = piece.pairs := by
  simp [pairsAll]

/-- A new group begins with its opening parenthesis and ends with its closing one, and no other
parenthesis stands between them outside of further groups. -/
inductive Formed : Piece → Prop
  | token (token : Node × Nat) : Formed (.token token)
  | pair {opening closing : Node × Nat} {inner : List Piece}
      (hopening : opening.1.isMark "(" = true) (hclosing : closing.1.isMark ")" = true)
      (hinner : ∀ piece ∈ inner, Formed piece)
      (hmarks : ∀ piece ∈ inner, piece.node.isMark "(" = false ∧ piece.node.isMark ")" = false) :
      Formed (.pair opening inner closing)

/-- If the piece is a closing parenthesis, then it is none of a pair among the first `n` nodes. -/
def Leftover (nodes : List Node) (n : Nat) (piece : Piece) : Prop :=
  piece.node.isMark ")" = true → ∃ token, piece = .token token ∧ token.2 < n ∧
    ∀ pair ∈ matching nodes n, pair.2 ≠ token.2

end Piece

/-- An opening parenthesis that has not been closed, and what stands before it beside it. -/
structure Frame where
  before : List Piece
  opening : Node × Nat

namespace Frame

/-- The siblings read since the innermost open parenthesis, with it. -/
def level : List Frame → List Piece → List Node
  | [], pieces => Piece.nodes pieces
  | frame :: _, pieces => frame.opening.1 :: Piece.nodes pieces

/-- The stack of the open parentheses. -/
def stack (tokens : List Node) : List Frame → List OpenParenthesis
  | [] => []
  | frame :: outer =>
    ⟨level outer frame.before, byteLength (textAll (tokens.take frame.opening.2)).toList⟩ ::
      stack tokens outer

def tokens : List Frame → List Piece → List (Node × Nat)
  | [], pieces => Piece.tokensAll pieces
  | frame :: outer, pieces =>
    tokens outer frame.before ++ frame.opening :: Piece.tokensAll pieces

def pairs : List Frame → List Piece → List (Nat × Nat)
  | [], pieces => Piece.pairsAll pieces
  | frame :: outer, pieces => pairs outer frame.before ++ Piece.pairsAll pieces

/-- What stands inside an open parenthesis are no parentheses, and outside of all of them no opening
ones. -/
def Formed (nodes : List Node) (n : Nat) : List Frame → List Piece → Prop
  | [], pieces => ∀ piece ∈ pieces, piece.Formed ∧ piece.node.isMark "(" = false ∧
      piece.Leftover nodes n
  | frame :: outer, pieces => frame.opening.1.isMark "(" = true ∧
      (∀ piece ∈ pieces, piece.Formed ∧ piece.node.isMark "(" = false ∧
        piece.node.isMark ")" = false) ∧
      Formed nodes n outer frame.before

section

variable {all : List Node} {n : Nat} (frames : List Frame) (pieces : List Piece) (piece : Piece)

theorem level_concat : level frames (pieces ++ [piece]) = level frames pieces ++ [piece.node] := by
  cases frames <;> simp [level]

theorem tokens_concat :
    tokens frames (pieces ++ [piece]) = tokens frames pieces ++ piece.tokens := by
  cases frames <;> simp [tokens]

theorem pairs_concat : pairs frames (pieces ++ [piece]) = pairs frames pieces ++ piece.pairs := by
  cases frames <;> simp [pairs]

variable {frames pieces piece}

theorem Formed.concat (h : Formed all n frames pieces) (hpiece : piece.Formed)
    (hopening : piece.node.isMark "(" = false) (hleft : piece.Leftover all n)
    (hclosing : frames ≠ [] → piece.node.isMark ")" = false) :
    Formed all n frames (pieces ++ [piece]) := by
  cases frames with
  | nil =>
    intro other hother
    rcases List.mem_append.1 hother with hother | hother
    · exact h other hother
    · rw [List.mem_singleton.1 hother]
      exact ⟨hpiece, hopening, hleft⟩
  | cons frame outer =>
    refine ⟨h.1, fun other hother => ?_, h.2.2⟩
    rcases List.mem_append.1 hother with hother | hother
    · exact h.2.1 other hother
    · rw [List.mem_singleton.1 hother]
      exact ⟨hpiece, hopening, hclosing (by simp)⟩

end

end Frame

/-- What is known after `n` nodes. -/
structure Midway (nodes : List Node) (n : Nat) (frames : List Frame) (pieces : List Piece) :
    Prop where
  tokens : Frame.tokens frames pieces = (nodes.take n).zipIdx
  pairs : (Frame.pairs frames pieces).Perm (matching nodes n)
  opened : (frames.map (·.opening.2)).reverse = unclosed nodes n
  formed : Frame.Formed nodes n frames pieces

namespace Midway

variable {nodes : List Node} {n : Nat} {frames outer : List Frame} {frame : Frame}
  {pieces : List Piece} {node : Node}

theorem zipIdx_take_succ (h : nodes[n]? = some node) :
    (nodes.take (n + 1)).zipIdx = (nodes.take n).zipIdx ++ [(node, n)] := by
  have hlt : n < nodes.length := (List.getElem?_eq_some_iff.1 h).1
  rw [List.take_add_one, h, List.zipIdx_append, List.length_take_of_le (Nat.le_of_lt hlt)]
  simp

theorem leftover_succ {piece : Piece} (h : piece.Leftover nodes n) :
    piece.Leftover nodes (n + 1) := by
  intro hmark
  obtain ⟨token, rfl, hlt, hpairs⟩ := h hmark
  refine ⟨token, rfl, Nat.lt_succ_of_lt hlt, fun pair hpair => ?_⟩
  rw [matching] at hpair
  split at hpair
  · split at hpair
    · rcases List.mem_append.1 hpair with hpair | hpair
      · exact hpairs pair hpair
      · rw [List.mem_singleton.1 hpair]
        exact Nat.ne_of_gt hlt
    · exact hpairs pair hpair
  · exact hpairs pair hpair

theorem formed_succ (h : Frame.Formed nodes n frames pieces) :
    Frame.Formed nodes (n + 1) frames pieces := by
  induction frames generalizing pieces with
  | nil =>
    intro piece hpiece
    obtain ⟨hformed, hopening, hleft⟩ := h piece hpiece
    exact ⟨hformed, hopening, leftover_succ hleft⟩
  | cons frame outer ih => exact ⟨h.1, h.2.1, ih h.2.2⟩

theorem start : Midway nodes 0 [] [] where
  tokens := by simp [Frame.tokens]
  pairs := by simp [Frame.pairs, matching]
  opened := rfl
  formed := by simp [Frame.Formed]

theorem opening (h : Midway nodes n frames pieces) (hnode : nodes[n]? = some node)
    (hmark : node.isMark "(" = true) : Midway nodes (n + 1) (⟨pieces, (node, n)⟩ :: frames) [] where
  tokens := by
    rw [zipIdx_take_succ hnode, ← h.tokens, Frame.tokens, Piece.tokensAll_nil]
  pairs := by
    have hnot : node.isMark ")" = false := not_isMark_of_isMark hmark (by decide)
    rw [matching_succ_other hnode (by simp [hnot]), Frame.pairs, Piece.pairsAll_nil,
      List.append_nil]
    exact h.pairs
  opened := by
    rw [unclosed_succ_opening hnode hmark, ← h.opened, List.map_cons, List.reverse_cons]
  formed := ⟨hmark, by simp, formed_succ h.formed⟩

theorem closing (h : Midway nodes n (frame :: outer) pieces) (hnode : nodes[n]? = some node)
    (hmark : node.isMark ")" = true) :
    Midway nodes (n + 1) outer (frame.before ++ [.pair frame.opening pieces (node, n)]) := by
  have hfront : unclosed nodes n = (outer.map (·.opening.2)).reverse ++ [frame.opening.2] := by
    rw [← h.opened, List.map_cons, List.reverse_cons]
  have hlast : (unclosed nodes n).getLast? = some frame.opening.2 := by
    rw [hfront, List.getLast?_concat]
  have hgroup (mark : String) :
      (Piece.pair frame.opening pieces (node, n)).node.isMark mark = false := by
    rw [Piece.node]
    exact isMark_of_kind_ne (by simp)
  obtain ⟨hopening, hinner, houter⟩ := h.formed
  refine ⟨?_, ?_, (unclosed_succ_closing hnode hmark hfront).symm, ?_⟩
  · rw [Frame.tokens_concat, zipIdx_take_succ hnode, ← h.tokens, Frame.tokens, Piece.tokens,
      List.append_assoc, List.cons_append]
  · rw [Frame.pairs_concat, matching_succ_closing hnode hmark hlast, Piece.pairs]
    refine List.Perm.trans List.perm_middle ?_
    exact (h.pairs.cons _).trans (List.perm_append_singleton _ _).symm
  · have hpair : (Piece.pair frame.opening pieces (node, n)).Formed :=
      .pair hopening hmark (fun piece hpiece => (hinner piece hpiece).1)
        fun piece hpiece => (hinner piece hpiece).2
    have hleft : (Piece.pair frame.opening pieces (node, n)).Leftover nodes (n + 1) :=
      fun hclosing => absurd hclosing (by simp [hgroup])
    exact (formed_succ houter).concat hpair (hgroup "(") hleft fun _ => hgroup ")"

theorem other (h : Midway nodes n frames pieces) (hnode : nodes[n]? = some node)
    (hopening : node.isMark "(" = false) (hclosing : node.isMark ")" = true → frames = []) :
    Midway nodes (n + 1) frames (pieces ++ [.token (node, n)]) := by
  have hnone : node.isMark ")" = true → Node.unclosed nodes n = [] := by
    intro hmark
    rw [← h.opened, hclosing hmark]
    rfl
  have hmatching := matching_succ_other hnode hnone
  refine ⟨?_, ?_, ?_, ?_⟩
  · rw [Frame.tokens_concat, zipIdx_take_succ hnode, ← h.tokens, Piece.tokens]
  · rw [Frame.pairs_concat, hmatching, Piece.pairs, List.append_nil]
    exact h.pairs
  · rw [unclosed_succ_other hnode hopening hnone, h.opened]
  · refine (formed_succ h.formed).concat (.token _) (by rw [Piece.node]; exact hopening)
      (fun _ => ⟨(node, n), rfl, Nat.lt_succ_self n, fun pair hpair => ?_⟩) fun hne => ?_
    · rw [hmatching] at hpair
      exact Nat.ne_of_lt (lt_of_mem_matching pair hpair).2
    · rw [Piece.node, ← Bool.not_eq_true]
      exact fun hmark => hne (hclosing hmark)

theorem byteLength_take_succ (h : nodes[n]? = some node) :
    byteLength (textAll (nodes.take (n + 1))).toList =
      byteLength (textAll (nodes.take n)).toList + byteLength node.text.toList := by
  rw [List.take_add_one, h, Option.toList_some, textAll_append, String.toList_append,
    byteLength_append, textAll_cons, textAll_nil, String.append_empty]

/-- The stack is read to its end. The induction is on the nodes that are left. -/
theorem exists_of_closeParentheses (h : Midway nodes n frames pieces) (hn : n ≤ nodes.length)
    (sql : String) {rest : List Node} (hrest : nodes.drop n = rest) : ∃ frames' pieces',
      Midway nodes nodes.length frames' pieces' ∧
      closeParentheses sql (byteLength (textAll (nodes.take n)).toList)
          (Frame.stack nodes frames) (Frame.level frames pieces) rest =
        closeParentheses sql (byteLength (textAll nodes).toList)
          (Frame.stack nodes frames') (Frame.level frames' pieces') [] := by
  induction rest generalizing n frames pieces with
  | nil =>
    obtain rfl : n = nodes.length := Nat.le_antisymm hn (List.drop_eq_nil_iff.1 hrest)
    rw [List.take_length]
    exact ⟨frames, pieces, h, rfl⟩
  | cons node rest ih =>
    have hnode : nodes[n]? = some node := by rw [← List.head?_drop, hrest, List.head?_cons]
    have hrest' : nodes.drop (n + 1) = rest := by
      rw [← List.drop_drop, hrest, List.drop_one, List.tail_cons]
    have hn' : n + 1 ≤ nodes.length := (List.getElem?_eq_some_iff.1 hnode).1
    have hoffset := byteLength_take_succ hnode
    by_cases hopening : node.isMark "(" = true
    · obtain ⟨frames', pieces', hmidway, heq⟩ := ih (h.opening hnode hopening) hn' hrest'
      refine ⟨frames', pieces', hmidway, ?_⟩
      rw [closeParentheses_opening hopening, ← heq, hoffset, Frame.stack, Frame.level,
        Piece.nodes_nil]
    · rw [Bool.not_eq_true] at hopening
      by_cases hclosing : node.isMark ")" = true ∧ frames ≠ []
      · obtain ⟨frame, outer, rfl⟩ := List.exists_cons_of_ne_nil hclosing.2
        obtain ⟨frames', pieces', hmidway, heq⟩ := ih (h.closing hnode hclosing.1) hn' hrest'
        refine ⟨frames', pieces', hmidway, ?_⟩
        rw [Frame.stack, closeParentheses_closing hclosing.1 hopening, ← heq, hoffset,
          Frame.level_concat, Piece.node, Frame.level, List.cons_append]
      · have hnone : node.isMark ")" = true → frames = [] := by simpa using hclosing
        obtain ⟨frames', pieces', hmidway, heq⟩ := ih (h.other hnode hopening hnone) hn' hrest'
        refine ⟨frames', pieces', hmidway, ?_⟩
        rw [closeParentheses_other hopening, ← heq, hoffset, Frame.level_concat, Piece.node]
        intro hopened
        rw [← Bool.not_eq_true]
        intro hmark
        exact hopened (by rw [hnone hmark, Frame.stack])

end Midway

/-- The pieces are the nodes in which nothing but the pairs of parentheses has been grouped. -/
structure Grouped (nodes : List Node) (pieces : List Piece) : Prop where
  tokens : Piece.tokensAll pieces = nodes.zipIdx
  pairs : (Piece.pairsAll pieces).Perm (matching nodes nodes.length)
  formed : ∀ piece ∈ pieces, piece.Formed
  opening : ∀ piece ∈ pieces, piece.node.isMark "(" = false
  -- a closing parenthesis outside of all groups is in none of the pairs
  closing : ∀ piece ∈ pieces, piece.node.isMark ")" = true → ∃ token, piece = .token token ∧
    ∀ pair ∈ matching nodes nodes.length, pair.2 ≠ token.2

theorem text_of_isMark {node : Node} {mark : String} (h : node.isMark mark = true) :
    node.text = mark := by
  rw [isMark, Bool.and_eq_true, beq_iff_eq] at h
  exact h.2

/-- Where a node stands in a text that shows all of them. -/
theorem toList_textAll_of_getElem? {nodes : List Node} {n : Nat} {node : Node}
    (h : nodes[n]? = some node) :
    (textAll nodes).toList = (textAll (nodes.take n)).toList ++
      (node.text.toList ++ (textAll (nodes.drop (n + 1))).toList) := by
  have hlt := (List.getElem?_eq_some_iff.1 h).1
  have hsplit : nodes = nodes.take n ++ node :: nodes.drop (n + 1) := by
    rw [← (List.getElem?_eq_some_iff.1 h).2, List.getElem_cons_drop, List.take_append_drop]
  have htext : textAll nodes = textAll (nodes.take n ++ node :: nodes.drop (n + 1)) :=
    congrArg textAll hsplit
  rw [htext, textAll_append, textAll_cons, String.toList_append, String.toList_append]

/-- Grouping by parentheses is the matching of parentheses. It succeeds if and only if every opening
parenthesis is closed, and then the new groups are the pairs; otherwise it fails at the last opening
parenthesis that is not closed. -/
theorem groupParentheses_matching (sql : String) (nodes : List Node) :
    (unclosed nodes nodes.length = [] ∧ ∃ pieces, Grouped nodes pieces ∧
      groupParentheses sql nodes = .ok (Piece.nodes pieces)) ∨
    ∃ last error, (unclosed nodes nodes.length).getLast? = some last ∧
      groupParentheses sql nodes = .error error ∧ error.fault = .unclosedParenthesis ∧
      (sql = textAll nodes →
        error.start = byteLength (textAll (nodes.take last)).toList ∧ error.text = "(") := by
  obtain ⟨frames, pieces, hmidway, heq⟩ :=
    Midway.start.exists_of_closeParentheses (Nat.zero_le nodes.length) sql List.drop_zero
  have hstart : groupParentheses sql nodes = closeParentheses sql
      (byteLength (textAll nodes).toList) (Frame.stack nodes frames) (Frame.level frames pieces)
      [] := by
    rw [← heq, groupParentheses, List.take_zero, textAll_nil, Frame.stack, Frame.level,
      Piece.nodes_nil]
    rfl
  cases frames with
  | nil =>
    refine Or.inl ⟨hmidway.opened.symm, pieces, ?_, hstart⟩
    have htokens := hmidway.tokens
    rw [List.take_length] at htokens
    refine ⟨htokens, hmidway.pairs, fun piece hpiece => (hmidway.formed piece hpiece).1,
      fun piece hpiece => (hmidway.formed piece hpiece).2.1, fun piece hpiece hmark => ?_⟩
    obtain ⟨token, rfl, -, hpairs⟩ := (hmidway.formed piece hpiece).2.2 hmark
    exact ⟨token, rfl, hpairs⟩
  | cons frame outer =>
    have hlast : (unclosed nodes nodes.length).getLast? = some frame.opening.2 := by
      rw [← hmidway.opened, List.map_cons, List.reverse_cons, List.getLast?_concat]
    refine Or.inr ⟨frame.opening.2, _, hlast, hstart, rfl, ?_⟩
    rintro rfl
    have hmem := List.mem_of_getLast? hlast
    obtain ⟨node, hnode, hmark⟩ := (Option.any_eq_true _ _).1
      (Bool.and_eq_true _ _ ▸ (List.mem_filter.1 hmem).2).1
    have htext := toList_textAll_of_getElem? hnode
    rw [text_of_isMark hmark] at htext
    have hlocated := ParseError.locate_append htext .unclosedParenthesis
    have hstop : byteLength ((textAll (nodes.take frame.opening.2)).toList ++ "(".toList) =
        byteLength (textAll (nodes.take frame.opening.2)).toList + 1 := by
      rw [byteLength_append]
      rfl
    rw [hstop] at hlocated
    rw [hlocated]
    exact ⟨rfl, rfl⟩

end QueryLineage.Node
