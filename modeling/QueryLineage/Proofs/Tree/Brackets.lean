import QueryLineage.Proofs.Tree.Fringe
import QueryLineage.Tree.Parenthesis
import QueryLineage.Tree.Statement

/-!
# Parentheses and semicolons

What grouping by parentheses makes of lexemes: every node is a lexeme or a pair of parentheses
with nodes of the same sort inside. Cutting such nodes at semicolons comes to the same as cutting
the lexemes at those semicolons where no parenthesis is open.
-/

namespace QueryLineage

namespace Lexeme

def isMark (lexeme : Lexeme) (mark : String) : Bool :=
  lexeme.kind == .punctuation && lexeme.text == mark

/-- Whether the lexeme is more than filler or a semicolon. -/
def isSubstantial (lexeme : Lexeme) : Bool :=
  lexeme.kind != .whitespace && lexeme.kind != .comment && !lexeme.isMark ";"

/-- The number of open parentheses behind a lexeme, where `depth` of them are open before it. -/
def depthAfter (depth : Nat) (lexeme : Lexeme) : Nat :=
  if lexeme.isMark "(" then depth + 1
  else if lexeme.isMark ")" then depth - 1
  else depth

/-- Cuts lexemes behind every semicolon where no parenthesis is open; `depth` of them are open at
the beginning. The last piece has no semicolon and may be empty. -/
def chunks (depth : Nat) : List Lexeme → List (List Lexeme)
  | [] => [[]]
  | lexeme :: lexemes =>
    if depth = 0 ∧ lexeme.isMark ";" = true then [lexeme] :: chunks 0 lexemes
    else match chunks (depthAfter depth lexeme) lexemes with
      | [] => [[lexeme]]
      | piece :: pieces => (lexeme :: piece) :: pieces

/-- The lexemes of each statement, with its semicolon. -/
def statements (lexemes : List Lexeme) : List (List Lexeme) :=
  (chunks 0 lexemes).filter (·.any isSubstantial)

@[simp] theorem isMark_toNode (lexeme : Lexeme) (mark : String) :
    lexeme.toNode.isMark mark = lexeme.isMark mark := rfl

theorem isMark_of_kind_ne {lexeme : Lexeme} {mark : String} (h : lexeme.kind ≠ .punctuation) :
    lexeme.isMark mark = false := by
  simp [isMark, h]

theorem eq_of_isMark {lexeme : Lexeme} {mark : String} (h : lexeme.isMark mark = true) :
    lexeme = ⟨.punctuation, mark⟩ := by
  obtain ⟨kind, text⟩ := lexeme
  simp only [isMark, Bool.and_eq_true, beq_iff_eq] at h
  rw [h.1, h.2]

end Lexeme

/-- Two rows of pieces as one, the last piece of the first being continued by the first piece of
the second. -/
def glue {α : Type} : List (List α) → List (List α) → List (List α)
  | [], others => others
  | [piece], [] => [piece]
  | [piece], other :: others => (piece ++ other) :: others
  | piece :: next :: pieces, others => piece :: glue (next :: pieces) others

section Glue

variable {α β : Type}

@[simp] theorem glue_nil_left (others : List (List α)) : glue [] others = others := rfl

@[simp] theorem glue_singleton_cons (piece other : List α) (others : List (List α)) :
    glue [piece] (other :: others) = (piece ++ other) :: others := rfl

@[simp] theorem glue_cons_cons (piece next : List α) (pieces others : List (List α)) :
    glue (piece :: next :: pieces) others = piece :: glue (next :: pieces) others := rfl

theorem glue_ne_nil {pieces others : List (List α)} (h : pieces ≠ []) :
    glue pieces others ≠ [] := by
  match pieces, others with
  | [], _ => exact absurd rfl h
  | [_], [] => simp [glue]
  | [_], _ :: _ => simp
  | _ :: _ :: _, _ => simp

theorem glue_assoc (first second third : List (List α)) :
    glue (glue first second) third = glue first (glue second third) := by
  induction first with
  | nil => rfl
  | cons piece pieces ih =>
    cases pieces with
    | cons next pieces =>
      have hne : glue (next :: pieces) second ≠ [] := glue_ne_nil (by simp)
      obtain ⟨other, others, heq⟩ := List.exists_cons_of_ne_nil hne
      rw [glue_cons_cons, glue_cons_cons, ← ih, heq, glue_cons_cons]
    | nil =>
      match second, third with
      | [], [] => rfl
      | [], _ :: _ => rfl
      | [other], [] => rfl
      | [other], _ :: _ => simp
      | other :: next :: others, third => simp

theorem glue_nil_right {pieces : List (List α)} (h : pieces ≠ []) : glue pieces [[]] = pieces := by
  induction pieces with
  | nil => exact absurd rfl h
  | cons piece pieces ih =>
    cases pieces with
    | nil => simp
    | cons next pieces => rw [glue_cons_cons, ih (by simp)]

theorem map_glue {f : List α → List β} (hf : ∀ xs ys, f (xs ++ ys) = f xs ++ f ys)
    (pieces others : List (List α)) :
    (glue pieces others).map f = glue (pieces.map f) (others.map f) := by
  induction pieces with
  | nil => rfl
  | cons piece pieces ih =>
    cases pieces with
    | nil => cases others <;> simp [glue, hf]
    | cons next pieces =>
      rw [glue_cons_cons, List.map_cons, ih]
      simp

theorem flatten_glue (pieces others : List (List α)) :
    (glue pieces others).flatten = pieces.flatten ++ others.flatten := by
  induction pieces with
  | nil => rfl
  | cons piece pieces ih =>
    cases pieces with
    | nil => cases others <;> simp [glue]
    | cons next pieces => simp [ih]

end Glue

theorem Lexeme.chunks_ne_nil (depth : Nat) (lexemes : List Lexeme) : chunks depth lexemes ≠ [] := by
  cases lexemes with
  | nil => simp [chunks]
  | cons lexeme lexemes =>
    rw [chunks]
    split
    · simp
    · split <;> simp

theorem Lexeme.chunks_cons (depth : Nat) (lexeme : Lexeme) (lexemes : List Lexeme) :
    chunks depth (lexeme :: lexemes) =
      glue (if depth = 0 ∧ lexeme.isMark ";" = true then [[lexeme], []] else [[lexeme]])
        (chunks (depthAfter depth lexeme) lexemes) := by
  rw [chunks]
  split
  · next h =>
    have hdepth : depthAfter depth lexeme = 0 := by
      simp [depthAfter, eq_of_isMark h.2, isMark, h.1]
    obtain ⟨piece, pieces, heq⟩ := List.exists_cons_of_ne_nil (chunks_ne_nil 0 lexemes)
    simp [hdepth, heq]
  · cases chunks (depthAfter depth lexeme) lexemes <;> simp [glue]

theorem Lexeme.flatten_chunks (depth : Nat) (lexemes : List Lexeme) :
    (chunks depth lexemes).flatten = lexemes := by
  induction lexemes generalizing depth with
  | nil => rfl
  | cons lexeme lexemes ih =>
    rw [chunks_cons, flatten_glue, ih]
    split <;> rfl

namespace Node

open Text

theorem cutAtSemicolons_ne_nil (siblings : List Node) : cutAtSemicolons siblings ≠ [] := by
  cases siblings with
  | nil => simp [cutAtSemicolons]
  | cons node siblings =>
    rw [cutAtSemicolons]
    split
    · simp
    · split <;> simp

theorem cutAtSemicolons_cons (node : Node) (siblings : List Node) :
    cutAtSemicolons (node :: siblings) =
      glue (if node.isMark ";" then [[node], []] else [[node]]) (cutAtSemicolons siblings) := by
  obtain ⟨piece, pieces, heq⟩ := List.exists_cons_of_ne_nil (cutAtSemicolons_ne_nil siblings)
  rw [cutAtSemicolons, heq]
  split <;> simp

theorem cutAtSemicolons_append (siblings others : List Node) :
    cutAtSemicolons (siblings ++ others) =
      glue (cutAtSemicolons siblings) (cutAtSemicolons others) := by
  induction siblings with
  | nil =>
    obtain ⟨piece, pieces, h⟩ := List.exists_cons_of_ne_nil (cutAtSemicolons_ne_nil others)
    simp [cutAtSemicolons, h]
  | cons node siblings ih =>
    rw [List.cons_append, cutAtSemicolons_cons, ih, ← glue_assoc, ← cutAtSemicolons_cons]

theorem cutAtSemicolons_concat (siblings : List Node) (node : Node) :
    cutAtSemicolons (siblings ++ [node]) =
      glue (cutAtSemicolons siblings) (if node.isMark ";" then [[node], []] else [[node]]) := by
  rw [cutAtSemicolons_append, cutAtSemicolons_cons]
  congr 1
  split <;> simp [cutAtSemicolons, glue]

section Equations

variable {sql : String} {offset : Nat} {opened : List OpenParenthesis} {current nodes : List Node}
  {node : Node}

theorem closeParentheses_opening (h : node.isMark "(" = true) :
    closeParentheses sql offset opened current (node :: nodes) =
      closeParentheses sql (offset + byteLength node.text.toList) (⟨current, offset⟩ :: opened)
        [node] nodes := by
  cases opened <;> simp [closeParentheses, h]

theorem closeParentheses_closing {innermost : OpenParenthesis} {outer : List OpenParenthesis}
    (h : node.isMark ")" = true) (hopening : node.isMark "(" = false) :
    closeParentheses sql offset (innermost :: outer) current (node :: nodes) =
      closeParentheses sql (offset + byteLength node.text.toList) outer
        (innermost.before ++ [group .parenthesis (current ++ [node])]) nodes := by
  simp [closeParentheses, h, hopening]

theorem closeParentheses_other (hopening : node.isMark "(" = false)
    (hclosing : opened ≠ [] → node.isMark ")" = false) :
    closeParentheses sql offset opened current (node :: nodes) =
      closeParentheses sql (offset + byteLength node.text.toList) opened (current ++ [node])
        nodes := by
  cases opened with
  | nil => simp [closeParentheses, hopening]
  | cons innermost outer => simp [closeParentheses, hopening, hclosing]

end Equations

def mark (text : String) : Node := leaf .punctuation text

def openingMark : Node := leaf .punctuation "("

def closingMark : Node := leaf .punctuation ")"

/-- A lexeme, or a pair of parentheses with lexemes and further pairs inside. -/
inductive Bracketed : Node → Prop
  | lexeme {lexeme : Lexeme} (h : lexeme.kind.isGroup = false) : Bracketed lexeme.toNode
  | parentheses {inner : List Node} (hinner : ∀ node ∈ inner, Bracketed node)
      (hopening : ∀ node ∈ inner, node.isMark "(" = false)
      (hclosing : ∀ node ∈ inner, node.isMark ")" = false) :
      Bracketed (group .parenthesis (openingMark :: (inner ++ [closingMark])))

theorem Bracketed.built {node : Node} (h : Bracketed node) : Built node := by
  induction h with
  | lexeme h => exact .leaf h
  | parentheses _ _ _ ih =>
    refine .group (fun _ => by simp) fun child hchild => ?_
    rcases List.mem_cons.1 hchild with rfl | hchild
    · exact .leaf rfl
    · rcases List.mem_append.1 hchild with hchild | hchild
      · exact ih child hchild
      · rw [List.mem_singleton.1 hchild]
        exact .leaf rfl

theorem Bracketed.isSubstantial {node : Node} (h : Bracketed node) :
    node.fringe.any Lexeme.isSubstantial = node.isSubstantial := by
  cases h with
  | @lexeme lexeme _ =>
    simp [Node.isSubstantial, Lexeme.isSubstantial, isWhitespace, isComment, Lexeme.toNode, bne,
      Lexeme.isMark, isMark, isPunctuation]
  | parentheses _ _ _ =>
    have hopening : Lexeme.isSubstantial ⟨.punctuation, "("⟩ = true := by decide
    simp [Node.isSubstantial, isWhitespace, isComment, isMark, isPunctuation, openingMark, hopening]

/-- What has been read while parentheses are still open: at every level an opening parenthesis and
what followed it, and lexemes and pairs before them. -/
def Pending : List OpenParenthesis → List Node → Prop
  | [], current => ∀ node ∈ current, Bracketed node ∧ node.isMark "(" = false
  | innermost :: outer, current =>
    (∃ inner, current = openingMark :: inner ∧
      ∀ node ∈ inner, Bracketed node ∧ node.isMark "(" = false ∧ node.isMark ")" = false) ∧
      Pending outer innermost.before

theorem Pending.concat {opened : List OpenParenthesis} {current : List Node} {node : Node}
    (h : Pending opened current) (hnode : Bracketed node) (hopening : node.isMark "(" = false)
    (hclosing : opened ≠ [] → node.isMark ")" = false) : Pending opened (current ++ [node]) := by
  cases opened with
  | nil =>
    intro other hother
    rcases List.mem_append.1 hother with hother | hother
    · exact h other hother
    · rw [List.mem_singleton.1 hother]
      exact ⟨hnode, hopening⟩
  | cons innermost outer =>
    obtain ⟨⟨inner, rfl, hinner⟩, houter⟩ := h
    refine ⟨⟨inner ++ [node], rfl, fun other hother => ?_⟩, houter⟩
    rcases List.mem_append.1 hother with hother | hother
    · exact hinner other hother
    · rw [List.mem_singleton.1 hother]
      exact ⟨hnode, hopening, hclosing (by simp)⟩

theorem Pending.opened {opened : List OpenParenthesis} {current : List Node}
    (h : Pending opened current) (start : Nat) :
    Pending (⟨current, start⟩ :: opened) [openingMark] :=
  ⟨⟨[], rfl, by simp⟩, h⟩

theorem Pending.closed {innermost : OpenParenthesis} {outer : List OpenParenthesis}
    {current : List Node} (h : Pending (innermost :: outer) current) :
    Pending outer (innermost.before ++ [group .parenthesis (current ++ [closingMark])]) := by
  obtain ⟨⟨inner, rfl, hinner⟩, houter⟩ := h
  refine houter.concat (.parentheses (fun n hn => (hinner n hn).1) (fun n hn => (hinner n hn).2.1)
    fun n hn => (hinner n hn).2.2) (isMark_of_kind_ne (by simp)) fun _ => isMark_of_kind_ne (by simp)

/-- The induction is on the lexemes that are still to be read. -/
theorem bracketed_closeParentheses {sql : String} {lexemes : List Lexeme} {offset : Nat}
    {opened : List OpenParenthesis} {current nodes : List Node} (hpending : Pending opened current)
    (hkinds : ∀ lexeme ∈ lexemes, lexeme.kind.isGroup = false)
    (h : closeParentheses sql offset opened current (lexemes.map Lexeme.toNode) = .ok nodes) :
    ∀ node ∈ nodes, Bracketed node ∧ node.isMark "(" = false := by
  induction lexemes generalizing offset opened current with
  | nil =>
    cases opened with
    | nil => cases h; exact hpending
    | cons innermost outer => cases h
  | cons lexeme lexemes ih =>
    have hlexeme : Bracketed lexeme.toNode := .lexeme (hkinds lexeme List.mem_cons_self)
    have hrest := fun l hl => hkinds l (List.mem_cons_of_mem _ hl)
    rw [List.map_cons] at h
    by_cases hopening : lexeme.isMark "(" = true
    · rw [closeParentheses_opening (by exact hopening)] at h
      obtain rfl := Lexeme.eq_of_isMark hopening
      exact ih (hpending.opened _) hrest h
    · have hnot : lexeme.toNode.isMark "(" = false := by simpa using hopening
      by_cases hclosing : opened ≠ [] ∧ lexeme.isMark ")" = true
      · obtain ⟨innermost, outer, rfl⟩ := List.exists_cons_of_ne_nil hclosing.1
        rw [closeParentheses_closing (by exact hclosing.2) hnot] at h
        obtain rfl := Lexeme.eq_of_isMark hclosing.2
        exact ih hpending.closed hrest h
      · have hother : opened ≠ [] → lexeme.toNode.isMark ")" = false := by simpa using hclosing
        rw [closeParentheses_other hnot hother] at h
        exact ih (hpending.concat hlexeme hnot hother) hrest h

theorem bracketed_groupParentheses {sql : String} {lexemes : List Lexeme} {nodes : List Node}
    (hkinds : ∀ lexeme ∈ lexemes, lexeme.kind.isGroup = false)
    (h : groupParentheses sql (lexemes.map Lexeme.toNode) = .ok nodes) :
    ∀ node ∈ nodes, Bracketed node ∧ node.isMark "(" = false :=
  bracketed_closeParentheses (by simp [Pending]) hkinds h

/-- The pieces that have been read while parentheses are still open, as lexemes. What stands
inside an open parenthesis goes to the last piece. -/
def shown : List OpenParenthesis → List Node → List (List Lexeme)
  | [], current => (cutAtSemicolons current).map fringeAll
  | innermost :: outer, current => glue (shown outer innermost.before) [fringeAll current]

theorem shown_ne_nil (opened : List OpenParenthesis) (current : List Node) :
    shown opened current ≠ [] := by
  induction opened generalizing current with
  | nil => simp [shown, cutAtSemicolons_ne_nil]
  | cons innermost outer ih => exact glue_ne_nil (ih innermost.before)

theorem shown_concat (opened : List OpenParenthesis) (current : List Node) (node : Node) :
    shown opened (current ++ [node]) =
      glue (shown opened current)
        (if opened = [] ∧ node.isMark ";" = true then [node.fringe, []] else [node.fringe]) := by
  cases opened with
  | nil =>
    rw [shown, cutAtSemicolons_concat, map_glue fringeAll_append, shown]
    congr 1
    by_cases h : node.isMark ";" = true <;> simp [h]
  | cons innermost outer =>
    rw [shown, shown, glue_assoc]
    simp

theorem shown_closed (innermost : OpenParenthesis) (outer : List OpenParenthesis)
    (current : List Node) :
    shown outer (innermost.before ++ [group .parenthesis (current ++ [closingMark])]) =
      glue (shown (innermost :: outer) current) [[⟨.punctuation, ")"⟩]] := by
  have hmark : (group .parenthesis (current ++ [closingMark])).isMark ";" = false :=
    isMark_of_kind_ne (by simp)
  rw [shown_concat, if_neg (by simp [hmark]), fringe_group _ (by simp), shown, glue_assoc]
  simp [closingMark]

/-- Cutting the nodes at semicolons cuts the lexemes where no parenthesis is open. -/
theorem map_cutAtSemicolons_closeParentheses {sql : String} {lexemes : List Lexeme} {offset : Nat}
    {opened : List OpenParenthesis} {current nodes : List Node}
    (h : closeParentheses sql offset opened current (lexemes.map Lexeme.toNode) = .ok nodes) :
    (cutAtSemicolons nodes).map fringeAll =
      glue (shown opened current) (Lexeme.chunks opened.length lexemes) := by
  induction lexemes generalizing offset opened current with
  | nil =>
    cases opened with
    | nil =>
      cases h
      rw [Lexeme.chunks, glue_nil_right (shown_ne_nil _ _), shown]
    | cons innermost outer => cases h
  | cons lexeme lexemes ih =>
    rw [List.map_cons] at h
    rw [Lexeme.chunks_cons, ← glue_assoc]
    by_cases hopening : lexeme.isMark "(" = true
    · rw [closeParentheses_opening (by exact hopening)] at h
      obtain rfl := Lexeme.eq_of_isMark hopening
      rw [ih h, shown]
      simp [Lexeme.depthAfter, Lexeme.isMark]
    · have hnot : lexeme.isMark "(" = false := by simpa using hopening
      by_cases hclosing : opened ≠ [] ∧ lexeme.isMark ")" = true
      · obtain ⟨innermost, outer, rfl⟩ := List.exists_cons_of_ne_nil hclosing.1
        rw [closeParentheses_closing (by exact hclosing.2) (by exact hnot)] at h
        obtain rfl := Lexeme.eq_of_isMark hclosing.2
        rw [ih h, show Lexeme.toNode ⟨.punctuation, ")"⟩ = closingMark from rfl, shown_closed]
        simp [Lexeme.depthAfter, Lexeme.isMark]
      · have hother : opened ≠ [] → lexeme.isMark ")" = false := by simpa using hclosing
        have hdepth : Lexeme.depthAfter opened.length lexeme = opened.length := by
          cases opened with
          | nil => simp [Lexeme.depthAfter, hnot]
          | cons innermost outer => simp [Lexeme.depthAfter, hnot, hother]
        rw [closeParentheses_other (by exact hnot) (by exact hother)] at h
        rw [ih h, shown_concat, hdepth]
        simp

theorem fringeAll_flatten (pieces : List (List Node)) :
    fringeAll pieces.flatten = (pieces.map fringeAll).flatten := by
  induction pieces with
  | nil => rfl
  | cons piece pieces ih => simp [ih]

/-- Grouping what stands between parentheses loses no lexeme. -/
theorem fringeAll_groupParentheses {sql : String} {lexemes : List Lexeme} {nodes : List Node}
    (h : groupParentheses sql (lexemes.map Lexeme.toNode) = .ok nodes) :
    fringeAll nodes = lexemes := by
  have hcut := congrArg List.flatten (map_cutAtSemicolons_closeParentheses h)
  rw [← fringeAll_flatten, flatten_cutAtSemicolons, flatten_glue, Lexeme.flatten_chunks] at hcut
  exact hcut

end Node

end QueryLineage
