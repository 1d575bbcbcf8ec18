import QueryLineage.Proofs.Analysis.Moved
import QueryLineage.Proofs.Analysis.SelectText
import QueryLineage.Proofs.Clause.Named
import QueryLineage.Proofs.Clause.Opening
import QueryLineage.Proofs.Tree.Plain

/-!
# A query means the same wherever it is written

A query is analysed by itself, in parentheses as the source of another query, or in parentheses as
a common table. Its tables are the same in all three places.
-/

namespace QueryLineage

open Text Run.Follows

section

variable {P : Placing} {name : String} {lexemes : List Lexeme} {keyword : Lexeme}
  {others : List Node}

/-- Behind its `SELECT`, a query in parentheses is followed wherever it stands. -/
theorem follows_query (hshows : ∀ source, P.shows source source)
    (hadmits : ∀ text, Foreign name text → P.Admits text) (havoids : Avoids lexemes name)
    (htidy : ∀ node ∈ others, node.Tidy lexemes)
    (hselect : ∀ node ∈ others, node.isWord "SELECT" = false)
    (hend : (∀ source shown, P.shows source shown) ∨
      ∀ before after, keyword.toNode :: others = before ++ after →
        Walk.selectText? (Node.textAll after ++ ")") = Walk.selectText? (Node.textAll after))
    {parent : Node} {reader : Reader} (hreader : reader.text = keyword.text) (config : Config)
    {n m : Nat} (hn : ∀ node ∈ others, node.depth ≤ n) (hm : ∀ node ∈ others, node.depth ≤ m)
    {walk other : Walk} (hmoved : walk.Moved False P.shift 0 other) :
    Run.Follows (Registry.Placed P) (fun _ _ => True)
      ((Step.ofSiblings parent reader others).foldlM
        (Walk.step (interpretWithin config n) config) walk)
      (((Step.ofSiblings parent reader others).map (Step.closedBy ")")).foldlM
        (Walk.step (interpretWithin config m) config) other) := by
  have hholds : ∀ step ∈ Step.ofSiblings parent reader others, step.Holds P.Admits
      fun body => body.Tidy lexemes ∧ body.depth ≤ n ∧ body.depth ≤ m := by
    apply Step.holds_ofSiblings
    intro node hnode hblank clause reading hread
    exact (havoids.naming.holds_read (htidy node hnode) hblank hread).mono hadmits fun body hbody =>
      ⟨hbody.1, Nat.le_trans hbody.2 (hn node hnode), Nat.le_trans hbody.2 (hm node hnode)⟩
  have hbodies : ∀ node : Node, node.Tidy lexemes → ∀ step ∈ Step.ofNode node,
      step.Holds P.Admits fun body => body.Tidy lexemes ∧ body.depth < node.depth := by
    intro node hnode step hstep
    exact (havoids.naming.holds_ofNode_steps (fun child hchild => hnode.child hchild) step hstep).mono
      hadmits fun _ hbody => hbody
  have hclosed : List.Forall₂ (fun step closed => closed = step.closedBy ")")
      (Step.ofSiblings parent reader others)
      ((Step.ofSiblings parent reader others).map (Step.closedBy ")")) := by
    rw [List.forall₂_map_right_iff]
    exact List.forall₂_same.2 fun _ _ => rfl
  refine (foldlM hclosed ?_ hmoved).mono fun _ _ _ => trivial
  rintro found hfound _ rfl walk other hmoved
  have hsame : found.closedBy ")" = found → Run.Follows (Registry.Placed P)
      (Walk.Moved False P.shift 0) (Walk.step (interpretWithin config n) config walk found)
      (Walk.step (interpretWithin config m) config other (found.closedBy ")")) := by
    intro heq
    rw [heq]
    refine step hshows ?_ hmoved config ?_ (hholds found hfound)
    · rintro body id declared ⟨hbody, hbodyn, hbodym⟩
      exact Run.Follows.interpretWithin hshows config hbodies n m body hbody hbodyn hbodym id declared
    · rintro rfl
      obtain ⟨node, hnode, hword⟩ := Step.exists_of_select_mem hfound
      rw [hselect node hnode] at hword
      cases hword
  cases found with
  | finish text =>
    have htext : (∀ source shown, P.shows source shown) ∨
        Walk.selectText? (text ++ ")") = Walk.selectText? text := by
      refine hend.imp_right fun hall => ?_
      have hrow : reader.text = Node.textAll [keyword.toNode] := by simp [hreader, Lexeme.toNode]
      obtain ⟨before, after, hsplit, rfl⟩ := Step.exists_of_finish_mem hrow hfound
      exact hall before after hsplit
    exact (finish_first hmoved config hshows htext).bind fun _ _ _ => pure hmoved
  | select => exact hsame rfl
  | read clause reading comment text => exact hsame rfl
  | restrict conditions => exact hsame rfl
  | fail error => exact hsame rfl

end

/-- A text that is one statement is analysed by interpreting its tree. -/
theorem analyze_eq_ok_iff {config : Config} {sql : String} {tree : Node} {registry : Registry}
    (htree : Node.statementsOfText sql config.stripComments = .ok [tree]) :
    analyze config sql = .ok registry ↔
      (interpretWithin config tree.depth tree none false).run .empty = (.ok (), registry) := by
  rw [analyze_eq_ok_iff_run, run_process_of_single htree]
  rfl

/-- A query that may be written in another one under a name: no parenthesis of it is closed without
having been opened, no semicolon stands outside of its parentheses, it does not end inside a
comment, it begins with the only `SELECT` of its own level, and the name is a word that it does not
contain. -/
structure Embeddable (query name : String) (lexemes : List Lexeme) : Prop where
  read : Lexeme.ofText query = .ok lexemes
  semicolon : ∀ lexeme ∈ Lexeme.outermost 0 lexemes, lexeme.isMark ";" = false
  closed : ∀ lexeme ∈ Lexeme.outermost 0 lexemes, lexeme.isMark ")" = false
  ended : ∀ last ∈ lexemes.getLast?, last.isUnendedComment = false
  select : ∃ filler keyword rest, Lexeme.SelectsOnce lexemes filler keyword rest
  isName : Lexeme.IsName name
  fresh : ∀ lexeme ∈ lexemes, lexeme.text ≠ name

def Registry.selected : Registry :=
  Registry.empty.create { name := .generated .select }

/-- A walk right behind the `SELECT` of a query whose own table is `table`. -/
def Walk.selected (enclosing : Option Nat) (table : Nat) : Walk :=
  { enclosing, table := some table, declared := false }

section

variable {config : Config} {query name : String} {lexemes : List Lexeme} {registry : Registry}

namespace Embeddable

variable (h : Embeddable query name lexemes)
include h

theorem kinds : ∀ lexeme ∈ lexemes, lexeme.kind.isGroup = false :=
  (Lexeme.ofText_eq_ok_iff.1 h.read).isGroup

theorem avoids (stripComments : Bool) : Avoids (Lexeme.stripped stripComments lexemes) name := by
  have havoids : Avoids lexemes name :=
    ⟨(Lexeme.ofText_eq_ok_iff.1 h.read).seated, h.isName.isWord, h.fresh⟩
  cases stripComments with
  | false => exact havoids
  | true => exact havoids.withoutComments

theorem exists_nodes (hanalyze : analyze config query = .ok registry) :
    ∃ nodes, Node.Nests lexemes nodes := by
  cases hnodes : Node.groupParentheses query (lexemes.map Lexeme.toNode) with
  | ok nodes => exact ⟨nodes, .of_groupParentheses h.closed hnodes⟩
  | error error =>
    have hfails : Node.statementsOfText query config.stripComments = .error error := by
      rw [Node.statementsOfText, h.read]
      change (Node.groupParentheses query (lexemes.map Lexeme.toNode) >>= _) = _
      rw [hnodes]
      rfl
    rw [analyze, process, hfails] at hanalyze
    cases hanalyze

theorem exists_substantial : ∃ lexeme ∈ Lexeme.outermost 0 lexemes, lexeme.isSubstantial = true := by
  obtain ⟨filler, keyword, rest, hselect⟩ := h.select
  exact hselect.exists_isSubstantial

theorem kinds_stripped (stripComments : Bool) :
    ∀ lexeme ∈ Lexeme.stripped stripComments lexemes, lexeme.kind.isGroup = false := by
  cases stripComments with
  | false => exact h.kinds
  | true =>
    intro lexeme hlexeme
    obtain ⟨other, hother, rfl⟩ := List.mem_map.1 hlexeme
    exact Lexeme.isGroup_withoutComment (h.kinds other hother)

section

variable {nodes : List Node} (hnodes : Node.Nests lexemes nodes) (stripComments : Bool)
include hnodes

/-- The tree of the query begins with its only `SELECT`. -/
theorem exists_tree : ∃ (filler : List Lexeme) (keyword : Lexeme) (others : List Node),
    Node.groupAll (Node.stripped stripComments nodes) =
      filler.map Lexeme.toNode ++ keyword.toNode :: others ∧
    (∀ lexeme ∈ filler, lexeme.isFiller = true) ∧ keyword.isSelect = true ∧
    ∀ node ∈ others, node.isWord "SELECT" = false := by
  obtain ⟨filler, keyword, rest, hselect⟩ := h.select
  have hstripped := hselect.stripped stripComments
  obtain ⟨others, htree, hothers⟩ :=
    Node.groupAll_of_selectsOnce (hnodes.stripped h.kinds stripComments) hstripped
  exact ⟨_, keyword, others, htree, hstripped.filler, hstripped.keyword, hothers⟩

theorem fringeAll_tree : Node.fringeAll (Node.groupAll (Node.stripped stripComments nodes)) =
    Lexeme.stripped stripComments lexemes :=
  hnodes.fringeAll_groupAll h.kinds stripComments

theorem tidy : ∀ node ∈ Node.groupAll (Node.stripped stripComments nodes),
    node.Tidy (Lexeme.stripped stripComments lexemes) := by
  have hstripped := hnodes.stripped h.kinds stripComments
  have hbracketed := hstripped.bracketed (h.kinds_stripped stripComments)
  intro node hnode
  refine ⟨Node.formed_groupAll hbracketed node hnode, Node.shaped_groupAll hbracketed node hnode, ?_⟩
  rw [← h.fringeAll_tree hnodes]
  exact Node.fringe_infix_of_mem hnode

/-- Where parentheses and semicolons are lexemes of their own, the closing parenthesis behind the
query does not change the text that its table gets. -/
theorem selectText?_append_closing (hplain : Lexeme.Plain lexemes) {before after : List Node}
    (hsplit : Node.groupAll (Node.stripped stripComments nodes) = before ++ after) :
    Walk.selectText? (Node.textAll after ++ ")") = Walk.selectText? (Node.textAll after) := by
  have hstripped := hnodes.stripped h.kinds stripComments
  have hplainStripped : Lexeme.Plain (Lexeme.stripped stripComments lexemes) := by
    cases stripComments with
    | false => exact hplain
    | true => exact hplain.withoutComments
  have hsemicolon : ∀ lexeme ∈ Lexeme.outermost 0 (Lexeme.stripped stripComments lexemes),
      lexeme.isMark ";" = false := by
    cases stripComments with
    | false => exact h.semicolon
    | true =>
      intro lexeme hlexeme
      rw [Lexeme.stripped, if_pos rfl, Lexeme.outermost_map_withoutComment] at hlexeme
      obtain ⟨other, hother, rfl⟩ := List.mem_map.1 hlexeme
      rw [Lexeme.isMark_withoutComment, h.semicolon other hother]
  apply Walk.selectText?_append_closing
  · apply Node.balanced_textAll
    intro node hnode
    apply Node.balanced_groupAll hstripped hplainStripped (h.kinds_stripped stripComments)
    rw [hsplit]
    exact List.mem_append_right before hnode
  · have hwhole := hstripped.lastVisible?_textAll hplainStripped hsemicolon
    rw [Node.textAll_eq_textAll_fringeAll, hstripped.fringeAll, ← h.fringeAll_tree hnodes,
      ← Node.textAll_eq_textAll_fringeAll, hsplit, Node.textAll_append, String.toList_append,
      lastVisible?_append] at hwhole
    intro hlast
    rw [hlast] at hwhole
    exact hwhole rfl

end

end Embeddable

theorem Step.ofNode_of_select {filler : List Lexeme} {keyword : Lexeme} {others : List Node}
    (hfiller : ∀ lexeme ∈ filler, lexeme.isFiller = true) (hkeyword : keyword.isSelect = true) :
    ∃ reader : Reader, reader.text = keyword.text ∧
      (∀ kind, Step.ofNode (.group kind (filler.map Lexeme.toNode ++ keyword.toNode :: others)) =
        .select :: Step.ofSiblings
          (.group kind (filler.map Lexeme.toNode ++ keyword.toNode :: others)) reader others) ∧
      Step.ofNode (.enclosed (filler.map Lexeme.toNode ++ keyword.toNode :: others)) =
        .select :: Step.ofSiblings
          (.enclosed (filler.map Lexeme.toNode ++ keyword.toNode :: others)) reader
          (others ++ [Node.closingMark]) := by
  obtain ⟨later, hlater⟩ := Step.exists_ofSiblings_select hfiller hkeyword ""
  refine ⟨{ clause := .selectList, comment := later, text := keyword.text }, rfl, fun kind => ?_, ?_⟩
  · exact hlater _ "" others
  · rw [Step.ofNode, Node.enclosed, Node.children_group, Step.ofSiblings_opening, List.append_assoc,
      List.cons_append]
    exact hlater _ "(" (others ++ [Node.closingMark])

/-- A query in parentheses does in the larger registry what the query does by itself. -/
theorem follows_enclosed {nodes : List Node} {P : Placing} (h : Embeddable query name lexemes)
    (hnodes : Node.Nests lexemes nodes) (hanalyze : analyze config query = .ok registry)
    (hshows : ∀ source, P.shows source source)
    (hplain : Lexeme.Plain lexemes ∨ ∀ source shown, P.shows source shown)
    (hadmits : ∀ text, Foreign name text → P.Admits text) {start : Registry}
    (hstart : Registry.Placed P .selected start) {m : Nat}
    (hm : (Node.enclosed (Node.groupAll (Node.stripped config.stripComments nodes))).depth ≤ m) :
    ∃ larger,
      (interpretWithin config m
          (Node.enclosed (Node.groupAll (Node.stripped config.stripComments nodes)))
          (some P.shift) false).run start = (.ok (), larger) ∧
        Registry.Placed P registry larger := by
  rw [analyze_eq_ok_iff (Node.statementsOfText_of_nests h.read hnodes h.semicolon
    h.exists_substantial config.stripComments)] at hanalyze
  obtain ⟨filler, keyword, others, htree, hfiller, hkeyword, hothers⟩ :=
    h.exists_tree hnodes config.stripComments
  have htidy := h.tidy hnodes config.stripComments
  have hclosing := h.selectText?_append_closing hnodes config.stripComments
  rw [Node.statement] at hanalyze
  rw [htree] at hanalyze hm htidy ⊢
  obtain ⟨reader, hreader, hsteps, hmoved⟩ := Step.ofNode_of_select hfiller hkeyword
  have hdepth : ∀ node ∈ others, node.depth ≤
      Node.depthAll (filler.map Lexeme.toNode ++ keyword.toNode :: others) := by
    intro node hnode
    apply Node.depth_le_depthAll
    simp [hnode]
  cases m with
  | zero =>
    rw [Node.enclosed, Node.depth] at hm
    omega
  | succ m =>
    rw [Node.depth, run_interpretWithin_eq_ok_iff, hsteps, List.foldlM_cons] at hanalyze
    obtain ⟨last, hlast⟩ := hanalyze
    have hselect : (Walk.step (interpretWithin config (Node.depthAll (filler.map Lexeme.toNode ++
        keyword.toNode :: others))) config (Walk.start none false) .select).run .empty =
        (.ok (Walk.selected none 0), .selected) := rfl
    rw [Run.run_bind_ok _ hselect] at hlast
    have hclosed := Step.ofSiblings_append_mark ")"
      (.enclosed (filler.map Lexeme.toNode ++ keyword.toNode :: others)) (fail_not_mem_of_run hlast)
    have hwalk : Walk.Moved False P.shift 0 (Walk.selected none 0)
        (Walk.selected (some P.shift) P.shift) :=
      ⟨rfl, congrArg some (Nat.zero_add _).symm, rfl, rfl, rfl, rfl, False.elim⟩
    have hend : (∀ source shown, P.shows source shown) ∨
        ∀ before after, keyword.toNode :: others = before ++ after →
          Walk.selectText? (Node.textAll after ++ ")") = Walk.selectText? (Node.textAll after) := by
      refine hplain.symm.imp_right fun hplain before after hsplit => ?_
      have hwhole : Node.groupAll (Node.stripped config.stripComments nodes) =
          (filler.map Lexeme.toNode ++ before) ++ after := by
        rw [htree, hsplit, List.append_assoc]
      exact hclosing hplain hwhole
    have hdeep : ∀ node ∈ others, node.depth ≤ m := by
      intro node hnode
      have hchild : node ∈
          (Node.enclosed (filler.map Lexeme.toNode ++ keyword.toNode :: others)).children := by
        simp [Node.enclosed, hnode]
      have hlt := Node.depth_lt_of_mem_children hchild
      omega
    obtain ⟨other, larger, hrun, hplaced, -⟩ :=
      follows_query hshows hadmits (h.avoids config.stripComments)
        (fun node hnode => htidy node (by simp [hnode])) hothers hend hreader config hdepth hdeep
        hwalk .selected start hstart last registry hlast
    refine ⟨larger, ?_, hplaced⟩
    have hmark : Node.closingMark = .mark ")" := rfl
    rw [run_interpretWithin_eq_ok_iff, hmoved, List.foldlM_cons, hmark, hclosed]
    exact ⟨other, hrun⟩

end

end QueryLineage
