import Mathlib.Data.List.Forall2
import QueryLineage.Proofs.Analysis.Run
import QueryLineage.Proofs.Analysis.SelectText
import QueryLineage.Proofs.Clause.Closing
import QueryLineage.Proofs.Clause.Named
import QueryLineage.Proofs.Lexeme.Ends
import QueryLineage.Proofs.Outcome
import QueryLineage.Proofs.Tree.Semicolon

/-!
# A batch is the sequence of its texts

Two texts with a semicolon between them are processed like the first and then the second. Each is
read by itself, so the statements of the batch are theirs, except that the last statement of the
first text has the semicolon behind it; and a statement does the same with and without one.
-/

namespace QueryLineage

open Text

namespace Lexeme

/-- What is shown last of a text does not end with a semicolon if it neither is one nor a comment to
the end of a line, whether or not the comments are taken out. -/
theorem Reads.lastVisible?_stripped {cs : List Char} {lexemes : List Lexeme} (h : Reads cs lexemes)
    (hlast : ∀ last ∈ lastShown? lexemes, last.isLineComment = false) (stripComments : Bool) :
    ∀ last ∈ lastShown? (stripped stripComments lexemes), last ≠ .semicolon →
      lastVisible? last.text.toList ≠ some ';' := by
  intro last hmem hsemicolon
  cases stripComments with
  | false => exact h.lastVisible?_ne last (mem_of_lastShown? hmem).1 (hlast last hmem) hsemicolon
  | true =>
    obtain ⟨hstripped, hkind⟩ := mem_of_lastShown? hmem
    obtain ⟨other, hother, rfl⟩ := List.mem_map.1 hstripped
    have hcomment : other.kind ≠ .comment := by
      intro hcomment
      rcases withoutComment_of_kind hcomment with heq | heq <;> simp [heq] at hkind
    rw [withoutComment_of_kind_ne hcomment] at hsemicolon ⊢
    exact h.lastVisible?_ne other hother (by simp [isLineComment, hcomment]) hsemicolon

end Lexeme

namespace Node

theorem lastShown?_ne_semicolon {piece : List Node} (h : ∀ node ∈ piece, Bracketed node)
    (hpiece : ∀ node ∈ piece, node.isMark ";" = false) :
    ∀ last ∈ Lexeme.lastShown? (fringeAll piece), last ≠ .semicolon := by
  induction piece with
  | nil => simp [Lexeme.lastShown?]
  | cons node piece ih =>
    intro last hlast
    rw [fringeAll_cons, Lexeme.lastShown?_append] at hlast
    rcases Option.or_eq_some_iff.1 hlast with hlast | ⟨-, hlast⟩
    · exact ih (fun other hother => h other (List.mem_cons_of_mem _ hother))
        (fun other hother => hpiece other (List.mem_cons_of_mem _ hother)) last hlast
    · rintro rfl
      cases h node List.mem_cons_self with
      | @lexeme lexeme _ =>
        have hmem := (Lexeme.mem_of_lastShown? hlast).1
        rw [fringe_toNode, List.mem_singleton] at hmem
        have hmark := hpiece _ List.mem_cons_self
        rw [← hmem] at hmark
        cases hmark
      | @parentheses inner _ _ _ =>
        have hclosing : Lexeme.lastShown? closingMark.fringe = some .closing := rfl
        rw [fringe_group _ (by simp), fringeAll_cons, fringeAll_append, fringeAll_cons,
          fringeAll_nil, List.append_nil, ← List.append_assoc, Lexeme.lastShown?_append, hclosing,
          Option.some_or] at hlast
        exact absurd hlast (by decide)

/-- A statement of a text, and what it is in a batch, where a semicolon may stand behind it if its own
text does not end with one. -/
inductive Continued : Node → Node → Prop
  | same (tree : Node) : Continued tree tree
  | closed {piece : List Node}
      (hlast : lastVisible? (textAll (groupAll piece)).toList ≠ some ';') :
      Continued (statement piece) (statement (piece ++ [mark ";"]))

section

variable {lexemes : List Lexeme} {nodes piece : List Node} {pieces : List (List Node)}
  {stripComments : Bool}

theorem lastVisible?_lastPiece {cs : List Char} (hreads : Lexeme.Reads cs lexemes)
    (hlast : ∀ last ∈ Lexeme.lastShown? lexemes, last.isLineComment = false)
    (hnodes : Pairs lexemes nodes)
    (hcut : cutAtSemicolons (stripped stripComments nodes) = pieces ++ [piece])
    (hpiece : ∀ node ∈ piece, node.isMark ";" = false) :
    lastVisible? (textAll (groupAll piece)).toList ≠ some ';' := by
  have hgrouped : groupParentheses "" (lexemes.map Lexeme.toNode) = .ok nodes :=
    Pairs.groupParentheses_eq_ok_iff.2 hnodes
  obtain ⟨hshape, hfringe⟩ := bracketed_stripped (fun node hnode =>
    (bracketed_groupParentheses hreads.isGroup hgrouped node hnode).1) stripComments
  have hbracketed : ∀ node ∈ piece, Bracketed node := fun node hnode =>
    hshape node (mem_of_mem_cutAtSemicolons (by rw [hcut]; simp) hnode)
  have hrow : Lexeme.stripped stripComments lexemes =
      fringeAll pieces.flatten ++ fringeAll piece := by
    rw [← fringeAll_groupParentheses hgrouped, ← hfringe, ← fringeAll_append,
      ← flatten_cutAtSemicolons (stripped stripComments nodes), hcut]
    simp
  have hseated := hreads.seated.stripped stripComments
  rw [hrow] at hseated
  rw [textAll_eq_textAll_fringeAll,
    fringeAll_groupAll fun node hnode => (hbracketed node hnode).built,
    hseated.of_append_right.lastVisible?_textAll]
  cases hshown : Lexeme.lastShown? (fringeAll piece) with
  | none => simp
  | some last =>
    have hmem : Lexeme.lastShown? (Lexeme.stripped stripComments lexemes) = some last := by
      rw [hrow, Lexeme.lastShown?_append, hshown]
      rfl
    exact hreads.lastVisible?_stripped hlast stripComments last hmem
      (lastShown?_ne_semicolon hbracketed hpiece last hshown)

theorem stripped_append_mark (nodes others : List Node) :
    stripped stripComments (nodes ++ mark ";" :: others) =
      stripped stripComments nodes ++ mark ";" :: stripped stripComments others := by
  rw [stripped_append]
  cases stripComments <;> rfl

/-- The statements of a batch are those of its texts. -/
theorem statementsOfText_append_semicolon {first second : String} {trees others : List Node}
    (hlexemes : Lexeme.ofText first = .ok lexemes)
    (hlast : ∀ last ∈ Lexeme.lastShown? lexemes, last.isLineComment = false)
    (hfirst : statementsOfText first stripComments = .ok trees)
    (hsecond : statementsOfText second stripComments = .ok others) :
    ∃ closed, List.Forall₂ Continued trees closed ∧
      statementsOfText (first ++ ";" ++ second) stripComments = .ok (closed ++ others) := by
  obtain ⟨lexemes', nodes, hlexemes', hnodes, rfl⟩ := statementsOfText_eq_ok_iff.1 hfirst
  obtain rfl : lexemes = lexemes' := Except.ok.inj (hlexemes.symm.trans hlexemes')
  obtain ⟨later, nodes', hlater, hnodes', rfl⟩ := statementsOfText_eq_ok_iff.1 hsecond
  rw [Pairs.groupParentheses_eq_ok_iff] at hnodes hnodes'
  obtain ⟨pieces, piece, hcut, hpiece⟩ := exists_lastPiece (stripped stripComments nodes)
  have hshown :=
    lastVisible?_lastPiece (Lexeme.ofText_eq_ok_iff.1 hlexemes) hlast hnodes hcut hpiece
  obtain ⟨before, hbefore, hbatch⟩ :=
    splitStatements_append_mark hcut (stripped stripComments nodes')
  refine ⟨(before ++ (if piece.any isSubstantial then [piece ++ [mark ";"]] else [])).map statement,
    ?_, ?_⟩
  · change List.Forall₂ Continued ((splitStatements (stripped stripComments nodes)).map statement) _
    rw [hbefore, List.map_append, List.map_append]
    refine List.rel_append (List.forall₂_same.2 fun tree _ => .same tree) ?_
    split
    · exact .cons (.closed hshown) .nil
    · exact .nil
  · rw [statementsOfText_eq_ok_iff]
    refine ⟨_, nodes ++ mark ";" :: nodes', Lexeme.ofText_append_semicolon hlexemes hlater hlast,
      Pairs.groupParentheses_eq_ok_iff.2 (hnodes.append (.lexeme rfl hnodes')), ?_⟩
    change _ =
      (splitStatements (stripped stripComments (nodes ++ mark ";" :: nodes'))).map statement
    rw [stripped_append_mark, hbatch]
    exact List.map_append.symm

end

theorem depthAll_concat_leaf (siblings : List Node) (kind : Kind) (text : String) :
    depthAll (siblings ++ [leaf kind text]) = depthAll siblings := by
  induction siblings with
  | nil => rfl
  | cons node siblings ih => rw [List.cons_append, depthAll, depthAll, ih]

end Node

section

variable {config : Config}

theorem Walk.step_closedBy {descend : Node → Option Nat → Bool → Run Unit} {text : String}
    {step : Step} (h : ∀ shown, step = .finish shown →
      selectText? (shown ++ text) = selectText? shown) (walk : Walk) :
    walk.step descend config (step.closedBy text) = walk.step descend config step := by
  cases step with
  | finish shown =>
    simp only [Step.closedBy, Walk.step, Walk.finish, h shown rfl]
  | select => rfl
  | read clause reading comment text => rfl
  | restrict conditions => rfl
  | fail error => rfl

theorem Walk.foldlM_closedBy {descend : Node → Option Nat → Bool → Run Unit} {text : String}
    {steps : List Step} (h : ∀ shown, .finish shown ∈ steps →
      selectText? (shown ++ text) = selectText? shown) (walk : Walk) :
    (steps.map (Step.closedBy text)).foldlM (Walk.step descend config) walk =
      steps.foldlM (Walk.step descend config) walk := by
  induction steps generalizing walk with
  | nil => rfl
  | cons step steps ih =>
    rw [List.map_cons, List.foldlM_cons, List.foldlM_cons, Walk.step_closedBy]
    · exact bind_congr fun next =>
        ih (fun shown hshown => h shown (List.mem_cons_of_mem _ hshown)) next
    · rintro shown rfl
      exact h shown List.mem_cons_self

/-- Unless something in it fails, a statement is read into the same steps with a semicolon behind it,
up to the end. -/
theorem Step.ofNode_statement_concat {piece : List Node}
    (h : ∀ error, .fail error ∉ Step.ofNode (.statement piece)) :
    Step.ofNode (.statement (piece ++ [.mark ";"])) =
      (Step.ofNode (.statement piece)).map (Step.closedBy ";") := by
  rw [Step.ofNode, Node.statement, Node.children_group, Node.groupAll_concat]
  exact Step.ofSiblings_append_mark ";" _ h

theorem Step.selectText?_of_finish {piece : List Node}
    (hlast : lastVisible? (Node.textAll (Node.groupAll piece)).toList ≠ some ';') {shown : String}
    (h : .finish shown ∈ Step.ofNode (.statement piece)) :
    Walk.selectText? (shown ++ ";") = Walk.selectText? shown := by
  have hrow : ({} : Reader).text = Node.textAll [] := by simp
  obtain ⟨before, after, hsplit, rfl⟩ := Step.exists_of_finish_mem hrow h
  have hgrouped : Node.groupAll piece = before ++ after := hsplit
  apply Walk.selectText?_append_semicolon
  intro hsemicolon
  apply hlast
  rw [hgrouped, Node.textAll_append, String.toList_append, lastVisible?_append, hsemicolon]
  rfl

/-- A statement that can be interpreted does the same with a semicolon behind it. -/
theorem run_interpret_continued {tree closed : Node} (h : tree.Continued closed)
    {enclosing : Option Nat} {declared : Bool} {registry after : Registry}
    (hrun : (interpret config tree enclosing declared).run registry = (.ok (), after)) :
    (interpret config closed enclosing declared).run registry = (.ok (), after) := by
  cases h with
  | same => exact hrun
  | @closed piece hshown =>
    have hdepth : (Node.statement piece).depth = Node.depthAll (Node.groupAll piece) + 1 := by
      rw [Node.statement, Node.depth]
    have hdepth' : (Node.statement (piece ++ [.mark ";"])).depth =
        Node.depthAll (Node.groupAll piece) + 1 := by
      rw [Node.statement, Node.groupAll_concat, Node.depth, Node.mark, Node.depthAll_concat_leaf]
    rw [interpret, hdepth, run_interpretWithin_eq_ok_iff] at hrun
    rw [interpret, hdepth', run_interpretWithin_eq_ok_iff]
    obtain ⟨last, hsteps⟩ := hrun
    refine ⟨last, ?_⟩
    rw [Step.ofNode_statement_concat (fail_not_mem_of_run hsteps), Walk.foldlM_closedBy]
    · exact hsteps
    · exact fun shown => Step.selectText?_of_finish hshown

theorem run_forM_continued {trees closed : List Node} (h : List.Forall₂ Node.Continued trees closed)
    {registry after : Registry}
    (hrun : (forM trees fun tree => interpret config tree none false).run registry =
      (.ok (), after)) :
    (forM closed fun tree => interpret config tree none false).run registry = (.ok (), after) := by
  induction h generalizing registry with
  | nil => exact hrun
  | @cons tree closed trees others htree _ ih =>
    rw [List.forM_cons, Run.run_bind_eq_ok_iff] at hrun
    obtain ⟨answer, middle, hfirst, hrest⟩ := hrun
    rw [List.forM_cons, Run.run_bind_ok _ (run_interpret_continued htree hfirst)]
    exact ih hrest

/-- A batch is the sequence of its texts: if the first one succeeds, the batch goes on with the
second from there, and its result and its registry are those of the second. The first text must not end
inside a comment, and both must be readable, since a batch is read before anything of it is run. -/
theorem run_process_batch {first second : String} {lexemes : List Lexeme} {others : List Node}
    {registry middle : Registry} (hlexemes : Lexeme.ofText first = .ok lexemes)
    (hlast : ∀ last ∈ Lexeme.lastShown? lexemes, last.isLineComment = false)
    (hsecond : Node.statementsOfText second config.stripComments = .ok others)
    (hfirst : (process config first).run registry = (.ok (), middle)) :
    (process config (first ++ ";" ++ second)).run registry =
      (process config second).run middle := by
  cases htrees : Node.statementsOfText first config.stripComments with
  | error error =>
    rw [process, htrees] at hfirst
    cases hfirst
  | ok trees =>
    obtain ⟨closed, hclosed, hbatch⟩ :=
      Node.statementsOfText_append_semicolon hlexemes hlast htrees hsecond
    rw [process_eq_forM htrees] at hfirst
    rw [process_eq_forM hbatch, process_eq_forM hsecond, List.forM_append,
      Run.run_bind_ok _ (run_forM_continued hclosed hfirst)]

/-- The first text ends with a comment, and a semicolon stands in a string of it; the second text
fails. -/
theorem run_process_batch_mismatch :
    let first := "SELECT ';' FROM t /* x */ "
    let second := "WITH c (x, y) AS (SELECT a FROM t) SELECT x FROM c"
    ∃ middle, (process {} first).run .empty = (.ok (), middle) ∧
      (process {} (first ++ ";" ++ second)).run .empty = (process {} second).run middle ∧
      ((process {} second).run middle).1.isOk = false := by
  intro first second
  have hread : ((Lexeme.ofText first).toOption.any fun lexemes =>
      (Lexeme.lastShown? lexemes).all fun last => !last.isLineComment) = true := by
    decide +kernel
  obtain ⟨others, hothers⟩ : ∃ others, Node.statementsOfText second false = .ok others :=
    exists_of_isOk (by decide +kernel)
  have hruns : (match (process {} first).run .empty with
      | (.ok (), middle) => !((process {} second).run middle).1.isOk
      | (.error _, _) => false) = true := by
    decide +kernel
  obtain ⟨lexemes, hlexemes, hlast⟩ := exists_of_any hread
  rcases hfirst : (process {} first).run .empty with ⟨result, middle⟩
  rw [hfirst] at hruns
  cases result with
  | error error => cases hruns
  | ok answer =>
    refine ⟨middle, rfl, run_process_batch hlexemes ?_ hothers hfirst, by simpa using hruns⟩
    intro last hmem
    simpa [Option.mem_def.1 hmem] using hlast

end

end QueryLineage
