import QueryLineage.Proofs.Analysis.Depth
import QueryLineage.Proofs.Analysis.Moved
import QueryLineage.Proofs.Analysis.SelectText
import QueryLineage.Proofs.Analysis.Standing
import QueryLineage.Proofs.Clause.OwnText
import QueryLineage.Proofs.Tree.Enclosed

/-!
# The source of a query

When a query with one `SELECT` and without a join has been interpreted, its table shows the text of
the query from the keyword on. Whether this is the text without the mark that ends the query depends
on how often parentheses occur in the text, be it in literals, quoted names or comments, and on its
last character.
-/

namespace QueryLineage

open Text

namespace Node

/-- The mark that ends a query in parentheses, or a statement. -/
def terminator (node : Node) : String :=
  if node.kind = .parenthesis then ")" else ";"

/-- Whether the last of the siblings is the mark that ends the query they belong to. -/
def isTerminated (node : Node) (siblings : List Node) : Bool :=
  siblings.getLast?.any (·.isMark node.terminator)

/-- The text of the last children of a query, without the mark that ends it. -/
def ownText (node : Node) (siblings : List Node) : String :=
  textAll (if node.isTerminated siblings then siblings.dropLast else siblings)

/-- What the text must be like for a query to be shown without the mark that ends it, and without
that mark only. -/
def ShowsOwnText (node : Node) (siblings : List Node) : Prop :=
  let cs := (node.ownText siblings).toList
  if node.kind = .parenthesis then cs.count '(' ≤ cs.count ')'
  else (node.isTerminated siblings = true ∨ lastVisible? cs ≠ some ';') ∧ ¬ Walk.LosesClosing cs

theorem exists_of_isTerminated {node : Node} {siblings : List Node}
    (h : node.isTerminated siblings = true) :
    ∃ before last, siblings = before ++ [last] ∧ last.isMark node.terminator = true := by
  unfold isTerminated at h
  cases hlast : siblings.getLast? with
  | none => rw [hlast] at h; cases h
  | some last =>
    rw [hlast] at h
    obtain ⟨before, hsplit⟩ := List.getLast?_eq_some_iff.1 hlast
    exact ⟨before, last, hsplit, h⟩

theorem textAll_eq_ownText_append {node : Node} {siblings : List Node}
    (h : node.isTerminated siblings = true) :
    textAll siblings = node.ownText siblings ++ node.terminator := by
  rw [ownText, if_pos h]
  obtain ⟨before, last, rfl, hmark⟩ := exists_of_isTerminated h
  have htext : last.text = node.terminator := beq_iff_eq.1 (Bool.and_eq_true _ _ ▸ hmark).2
  rw [List.dropLast_concat, textAll_append, textAll_cons, textAll_nil, String.append_empty, htext]

/-- The text begins with the keyword. -/
theorem exists_ownText_eq (node : Node) {keyword : Node} (hkeyword : keyword.isKeyword = true)
    (rest : List Node) : ∃ more, node.ownText (keyword :: rest) = keyword.text ++ more := by
  unfold ownText
  split
  · next hend =>
    obtain ⟨before, last, hsplit, hmark⟩ := exists_of_isTerminated hend
    have hpunctuation : last.isPunctuation = true := (Bool.and_eq_true _ _ ▸ hmark).1
    rw [hsplit, List.dropLast_concat]
    cases before with
    | nil =>
      -- a keyword is no mark
      obtain ⟨rfl, -⟩ := List.cons.inj hsplit
      have hpassed := (Reader.not_passed_of_isKeyword hkeyword).1
      rw [hpunctuation, Bool.or_true] at hpassed
      cases hpassed
    | cons first before =>
      obtain ⟨rfl, -⟩ := List.cons.inj hsplit
      exact ⟨textAll before, textAll_cons keyword before⟩
  · exact ⟨textAll rest, textAll_cons keyword rest⟩

theorem select_of_spelled {keyword : Node}
    (h : keyword.text.toList.map Char.toUpper = "SELECT".toList) :
    (keyword.text.toList.take 6).map Char.toUpper = "SELECT".toList := by
  rw [List.map_take, h]
  decide

/-- What is shown of a query is its own text exactly where that can be told from the mark behind
it. -/
theorem selectText?_eq_trim_ownText_iff {node keyword : Node} {rest : List Node}
    (hkeyword : keyword.isKeyword = true)
    (hspelled : keyword.text.toList.map Char.toUpper = "SELECT".toList)
    (hend : node.kind = .parenthesis → node.isTerminated (keyword :: rest) = true) :
    Walk.selectText? (textAll (keyword :: rest)) = some (trim (node.ownText (keyword :: rest))) ↔
      node.ShowsOwnText (keyword :: rest) := by
  have hselect : ((node.ownText (keyword :: rest)).toList.take 6).map Char.toUpper =
      "SELECT".toList := by
    obtain ⟨more, hmore⟩ := exists_ownText_eq node hkeyword rest
    rw [hmore]
    exact Walk.select_append (select_of_spelled hspelled) more
  unfold ShowsOwnText
  dsimp only
  by_cases hkind : node.kind = .parenthesis
  · have htext := textAll_eq_ownText_append (hend hkind)
    rw [terminator, if_pos hkind] at htext
    rw [if_pos hkind, htext]
    exact Walk.selectText?_append_closing_eq_trim_iff hselect
  · rw [if_neg hkind]
    cases hterminated : node.isTerminated (keyword :: rest) with
    | true =>
      have htext := textAll_eq_ownText_append hterminated
      rw [terminator, if_neg hkind] at htext
      rw [htext, Walk.selectText?_append_semicolon_eq_trim_iff hselect]
      simp
    | false =>
      have htext : node.ownText (keyword :: rest) = textAll (keyword :: rest) := by
        rw [ownText, hterminated, if_neg Bool.false_ne_true]
      rw [htext] at hselect ⊢
      rw [Walk.selectText?_eq_trim_iff hselect]
      simp

end Node

theorem Walk.Continues.foldlM_step {descend : Node → Option Nat → Bool → Run Unit} (config : Config)
    (walk : Walk) {steps : List Step} (hsteps : .select ∉ steps) :
    Run.Answers walk.Continues (steps.foldlM (Walk.step descend config) walk) :=
  Keeps.foldlM steps
    (fun step hstep next hnext =>
      have hother : step ≠ .select := fun hselect => hsteps (hselect ▸ hstep)
      (Continues.step config next hother).mono fun _ => hnext.trans)
    (refl walk)

section

variable {descend : Node → Option Nat → Bool → Run Unit} {config : Config} {enclosing : Option Nat}
  {declared : Bool} {registry later : Registry} {walk last : Walk}

/-- Where a `SELECT` begins, there is the table that takes what it finds. -/
theorem Walk.table_of_select (henclosing : ∀ id ∈ enclosing, id < registry.size)
    (hrun : (Walk.start enclosing declared).select.run registry = (.ok walk, later)) :
    walk.table = some (enclosing.getD registry.size) ∧
      enclosing.getD registry.size < later.size := by
  cases enclosing with
  | some id =>
    cases hrun
    exact ⟨rfl, henclosing id rfl⟩
  | none =>
    cases hrun
    refine ⟨rfl, ?_⟩
    rw [Registry.size_create]
    exact Nat.lt_succ_self _

/-- What the last step shows is what the table of the query shows in the end. -/
theorem Walk.exists_source_of_run
    (hdescend : ∀ node enclosing declared, Acts (descend node enclosing declared))
    (hcapture : config.captureSource = true) {steps : List Step} (hsteps : .select ∉ steps)
    {text shown : String} (htext : Walk.selectText? text = some shown)
    (henclosing : ∀ id ∈ enclosing, id < registry.size)
    (hrun : ((.select :: (steps ++ [.finish text])).foldlM (Walk.step descend config)
      (Walk.start enclosing declared)).run registry = (.ok last, later)) :
    ∃ table, later.find? (enclosing.getD registry.size) = some table ∧ table.source = shown := by
  rw [List.foldlM_cons, Run.run_bind_eq_ok_iff] at hrun
  obtain ⟨first, begun, hselect, hrun⟩ := hrun
  obtain ⟨htable, hlt⟩ := Walk.table_of_select henclosing hselect
  obtain ⟨middle, ready, next, done, hmiddle, hfinish, hend⟩ :=
    Run.run_foldlM_append_cons_eq_ok_iff.1 hrun
  have hown : middle.table = some (enclosing.getD registry.size) :=
    ((Walk.Continues.foldlM_step config first hsteps).of_run hmiddle).table _ htable
  obtain ⟨table, hfind, -⟩ :=
    (Acts.foldlM (Acts.step hdescend config) first steps).retains hmiddle
      _ _ (List.getElem?_eq_getElem hlt)
  rw [Walk.step, Run.run_bind_ok _ (Walk.run_finish hown config text ready)] at hfinish
  cases hfinish
  cases hend
  refine ⟨{ table with source := shown }, ?_, rfl⟩
  rw [Registry.find?_modify, if_pos rfl, hfind, hcapture, if_pos rfl, htext]
  rfl

end

/-- A query in parentheses ends with the closing one. -/
theorem Node.OneSelect.isTerminated {node keyword : Node} {rest : List Node}
    (h : node.OneSelect keyword rest) (hshaped : node.Shaped) (hkind : node.kind = .parenthesis) :
    node.isTerminated (keyword :: rest) = true := by
  have hlast : node.children.getLast? = some closingMark := by
    cases node with
    | leaf kind text =>
      obtain rfl : kind = .parenthesis := hkind
      cases hshaped
    | group kind children =>
      obtain rfl : kind = .parenthesis := hkind
      cases hshaped with
      | parenthesis =>
        rw [children_group, ← List.cons_append]
        exact List.getLast?_concat
  obtain ⟨before, hchildren, -⟩ := h.children
  rw [hchildren, List.getLast?_append] at hlast
  cases hrest : (keyword :: rest).getLast? with
  | none => simp at hrest
  | some last =>
    rw [hrest] at hlast
    obtain rfl : last = closingMark := Option.some.inj hlast
    rw [Node.isTerminated, hrest, Node.terminator, if_pos hkind]
    rfl

/-- A query of the text, which has one `SELECT`, has been interpreted to its end: a statement or a
query inside it, for a table that encloses it or for one of its own. -/
structure Interpreted (config : Config) (sql : String) (node keyword : Node) (rest : List Node)
    (enclosing : Option Nat) (registry later : Registry) : Prop where
  query : ∃ statements, Node.statementsOfText sql config.stripComments = .ok statements ∧
    ∃ statement ∈ statements, node = statement ∨ node.IsInside statement
  select : node.OneSelect keyword rest
  known : ∀ id ∈ enclosing, id < registry.size
  run : ∃ declared, (interpret config node enclosing declared).run registry = (.ok (), later)

section

variable {config : Config} {sql : String} {node keyword : Node} {rest : List Node}
  {enclosing : Option Nat} {registry later : Registry}

theorem Interpreted.tidy (h : Interpreted config sql node keyword rest enclosing registry later) :
    ∃ lexemes, Lexeme.Seated lexemes ∧ (∀ child ∈ node.children, child.Tidy lexemes) ∧
      (node.kind = .parenthesis → node.isTerminated (keyword :: rest) = true) := by
  obtain ⟨statements, hread, statement, hstatement, hnode⟩ := h.query
  obtain ⟨lexemes, -, hseated, htidy⟩ := Node.tidy_of_mem_statementsOfText hread
  refine ⟨_, hseated, ?_⟩
  rcases hnode with rfl | hinside
  · refine ⟨htidy node hstatement, fun hkind => ?_⟩
    obtain ⟨-, nodes, -, -, rfl⟩ := Node.statementsOfText_eq_ok_iff.1 hread
    obtain ⟨piece, -, rfl⟩ := List.mem_map.1 hstatement
    cases hkind
  · obtain ⟨hquery, -⟩ := hinside.tidy hseated (htidy statement hstatement)
    exact ⟨fun _ => hquery.child, h.select.isTerminated hquery.shaped.here⟩

/-- The source of a query is its own text, trimmed, exactly where the text can be told from the mark
that ends the query. -/
theorem source_eq_trim_ownText_iff (hcapture : config.captureSource = true)
    (h : Interpreted config sql node keyword rest enclosing registry later)
    (hspelled : keyword.text.toList.map Char.toUpper = "SELECT".toList) :
    ∃ table, later.find? (enclosing.getD registry.size) = some table ∧
      (table.source = trim (node.ownText (keyword :: rest)) ↔
        node.ShowsOwnText (keyword :: rest)) := by
  obtain ⟨lexemes, hseated, hchildren, hend⟩ := h.tidy
  obtain ⟨declared, hrun⟩ := h.run
  rw [interpret_eq config hseated hchildren, Run.run_bind_eq_ok_iff] at hrun
  obtain ⟨last, done, hsteps, hdone⟩ := hrun
  cases hdone
  have hkeyword : keyword ∈ node.children := by
    obtain ⟨before, heq, -⟩ := h.select.children
    simp [heq]
  have hclause := Node.clauseAfter?_of_spelled hseated (hchildren keyword hkeyword) h.select.select
    hspelled
  obtain ⟨steps, hnode, hselect⟩ := h.select.exists_ofNode_eq hclause (fail_not_mem_of_run hsteps)
  have hiff := Node.selectText?_eq_trim_ownText_iff (Reader.isKeyword_of_clauseAfter? hclause)
    hspelled hend
  have hselected := Walk.select_append (Node.select_of_spelled hspelled) (Node.textAll rest)
  rw [← Node.textAll_cons] at hselected
  have hshown := Walk.selectText?_of_select hselected
  rw [hnode] at hsteps
  obtain ⟨table, hfind, hsource⟩ :=
    Walk.exists_source_of_run (Acts.interpret config) hcapture hselect hshown h.known hsteps
  refine ⟨table, hfind, ?_⟩
  rw [hsource, ← hiff, hshown, Option.some.injEq]

end

def Node.literalRow (literal : String) : List Node :=
  [spaceNode, leaf .literal literal, spaceNode, fromNode, spaceNode,
    group .identifier [nameNode "t"], closingMark]

/-- A query that reads a literal from a table, in parentheses. -/
def Node.literalQuery (literal : String) : Node :=
  group .parenthesis (openingMark :: selectNode :: literalRow literal)

def fromLiteral (literal : String) : String :=
  "SELECT * FROM (SELECT " ++ literal ++ " FROM t) s"

def Registry.beforeLiteral : Registry where
  tables := [{ id := 0, name := "select-1", attributes := [.ofName "*"] },
    { id := 1, name := "select-2", aliases := ["s"] }]
  selects := 2

def Registry.behindLiteral (literal : String) : Registry :=
  ((interpret {} (.literalQuery literal) (some 1) false).run .beforeLiteral).2

theorem interpreted_literalQuery {literal : String} (h : literal = "'('" ∨ literal = "')'") :
    Interpreted {} (fromLiteral literal) (.literalQuery literal) .selectNode
      (Node.literalRow literal) (some 1) .beforeLiteral (.behindLiteral literal) := by
  refine ⟨?_, ?_, ?_, ?_⟩
  · refine ⟨[.group .statement [.selectNode, .spaceNode, .starNode, .spaceNode, .fromNode,
      .spaceNode, .group .identifier [.literalQuery literal, .spaceNode,
        .group .identifier [.nameNode "s"]]]],
      ?_, _, List.mem_singleton_self _, Or.inr (.part ?_)⟩
    · rcases h with rfl | rfl <;> decide +kernel
    · rcases h with rfl | rfl <;> decide +kernel
  · refine ⟨⟨[Node.openingMark], rfl, ?_⟩, by decide +kernel, ?_⟩
    · simp [Node.openingMark, Node.isMark, Node.isPunctuation]
    · rcases h with rfl | rfl <;> decide +kernel
  · rintro id ⟨⟩
    decide
  · refine ⟨false, Prod.ext ?_ rfl⟩
    rcases h with rfl | rfl <;> decide +kernel

/-- A closing parenthesis in a literal does not change where the query ends. -/
theorem source_eq_trim_ownText_closingLiteral : ∃ table,
    (Registry.behindLiteral "')'").find? 1 = some table ∧ table.source = "SELECT ')' FROM t" := by
  obtain ⟨table, hfind, hsource⟩ :=
    source_eq_trim_ownText_iff rfl (interpreted_literalQuery (Or.inr rfl)) (by decide)
  have hshows :
      (Node.literalQuery "')'").ShowsOwnText (Node.selectNode :: Node.literalRow "')'") := by
    unfold Node.ShowsOwnText
    decide +kernel
  have htext : trim ((Node.literalQuery "')'").ownText (Node.selectNode :: Node.literalRow "')'")) =
      "SELECT ')' FROM t" := by
    decide +kernel
  exact ⟨table, hfind, (hsource.2 hshows).trans htext⟩

/-- An opening one does: it is taken for the partner of the parenthesis behind the query, which is
then shown as a part of it. -/
theorem not_source_eq_trim_ownText_openingLiteral : ¬ ∀ (config : Config) (sql : String)
    (node keyword : Node) (rest : List Node) (enclosing : Option Nat) (registry later : Registry),
    config.captureSource = true →
    Interpreted config sql node keyword rest enclosing registry later →
    ∃ table, later.find? (enclosing.getD registry.size) = some table ∧
      table.source = trim (node.ownText (keyword :: rest)) := by
  intro hall
  obtain ⟨table, hfind, hsource⟩ :=
    hall {} _ _ _ _ _ _ _ rfl (interpreted_literalQuery (Or.inl rfl))
  have hshown : ((Registry.behindLiteral "'('").find? 1).map Table.source =
      some "SELECT '(' FROM t)" := by
    decide +kernel
  have htext : trim ((Node.literalQuery "'('").ownText (Node.selectNode :: Node.literalRow "'('")) =
      "SELECT '(' FROM t" := by
    decide +kernel
  rw [Option.getD_some] at hfind
  rw [hfind, Option.map_some, hsource, htext] at hshown
  exact absurd hshown (by decide)

end QueryLineage
