import QueryLineage.Proofs.Analysis.SelectFrom
import QueryLineage.Proofs.Clause.SelectRows

/-!
# The columns of a query

A query has a column for each row of its select list as long as each row comes to one item. The list
ends at the first row that does not, and the rows behind it are lost, without a failure.
-/

namespace QueryLineage

open Node

theorem Walk.run_idle (descend : Node → Option Nat → Bool → Run Unit) (config : Config) (walk : Walk)
    (registry : Registry) {idle : List Step}
    (h : ∀ step ∈ idle, ∃ comment text, step = .read .outside .nothing comment text) :
    (idle.foldlM (Walk.step descend config) walk).run registry = (.ok walk, registry) := by
  induction idle with
  | nil => rfl
  | cons step idle ih =>
    obtain ⟨comment, text, rfl⟩ := h step List.mem_cons_self
    have hstep : (Walk.step descend config walk (.read .outside .nothing comment text)).run registry =
        (.ok walk, registry) := rfl
    rw [List.foldlM_cons, Run.run_bind_ok _ hstep]
    exact ih fun other hother => h other (List.mem_cons_of_mem _ hother)

/-- The columns of a query are the items that its list takes of the rows: all of them if each row is
one item, else those up to the first row that is not. -/
theorem analyze_selectRows (config : Config) {sql : String} {lexemes : List Lexeme} {words : List Node}
    {rows : List (List Node)} {source : PlainName} (hread : Lexeme.ofText sql = .ok lexemes)
    (hnodes : groupParentheses sql (lexemes.map Lexeme.toNode) = .ok (selectRows words rows source))
    (hwords : ∀ node ∈ words, node.IsLead) (hrows : ∀ row ∈ rows, IsRow row)
    (hitems : listedItems (rows.map fun row => groupAll (stripped config.stripComments row)) ≠ []) :
    ∃ attributes text, analyze config sql = .ok
        { tables := [{ id := 0, name := "select-1", attributes, source := text, links := [1] },
            { id := 1, name := source.text }]
          selects := 1 } ∧
      attributes = (listedItems
        (rows.map fun row => groupAll (stripped config.stripComments row))).map column ∧
      ((∀ row ∈ rows, IsSingle (groupAll (stripped config.stripComments row))) →
        attributes.length = rows.length) := by
  have htree := statementsOfText_of_forall hread hnodes
    (not_semicolon_of_mem_selectRows source hwords hrows) ⟨selectNode, List.mem_cons_self, rfl⟩
    config.stripComments
  have hbracketed : ∀ row ∈ rows, ∀ node ∈ row, Bracketed node := by
    intro row hrow node hnode
    refine (bracketed_groupParentheses (Lexeme.ofText_eq_ok_iff.1 hread).isGroup hnodes node ?_).1
    rw [selectRows, List.mem_cons, List.mem_append, List.mem_append]
    exact Or.inr (Or.inr (Or.inl (mem_commaSeparated hrow hnode)))
  obtain ⟨idle, comment, first, later, second, text, hsteps, hidle⟩ :=
    Step.exists_ofNode_selectRows source config.stripComments hwords hrows hbracketed hitems
  have hlength : (∀ row ∈ rows, IsSingle (groupAll (stripped config.stripComments row))) →
      (listedItems (rows.map fun row => groupAll (stripped config.stripComments row))).length =
        rows.length := by
    intro hsingle
    rw [length_listedItems, List.length_map]
    intro row hrow
    obtain ⟨other, hother, rfl⟩ := List.mem_map.1 hrow
    exact hsingle other hother
  generalize listedItems (rows.map fun row => groupAll (stripped config.stripComments row)) = items
    at hsteps hlength ⊢
  have hunknown : (Registry.withColumns (items.map column)).findKnownAs? source.text = none := by
    have hne : "select-1" ≠ source.text := source.isPlain.ne_numbered .select 1
    simp [Registry.findKnownAs?, Registry.withColumns, Table.isKnownAs, hne]
  have hsplit : ∀ last : Step, (Step.select :: .read .selectList (.columns (items.map column)) comment
      first :: (idle ++ [.read .fromList (.sources [.named source.text none]) later second, last])) =
        [Step.select, .read .selectList (.columns (items.map column)) comment first] ++
          (idle ++ [.read .fromList (.sources [.named source.text none]) later second, last]) :=
    fun _ => rfl
  have hsource : (Walk.step (interpretWithin config (depthAll (groupAll
      (stripped config.stripComments (selectRows words rows source))))) config Walk.listed
        (.read .fromList (.sources [.named source.text none]) later second)).run
          (Registry.withColumns (items.map column)) =
      (.ok { Walk.listed with anchor := some 1 },
        { tables := [{ id := 0, name := "select-1", attributes := items.map column, links := [1] },
            { id := 1, name := source.text }]
          selects := 1 }) := by
    rw [Walk.run_unknown config .fromList hunknown]
    rfl
  refine ⟨items.map column, (if config.captureSource then Walk.selectText? text else none).getD "",
    ?_, rfl, fun hsingle => by rw [List.length_map, hlength hsingle]⟩
  rw [analyze_eq_ok_iff htree, statement, Node.depth, run_interpretWithin_eq_ok_iff, ← statement, hsteps,
    hsplit, List.foldlM_append, Run.run_bind_ok _ (Walk.run_selectList _ config _ comment first),
    List.foldlM_append, Run.run_bind_ok _ (Walk.run_idle _ config _ _ hidle), List.foldlM_cons,
    Run.run_bind_ok _ hsource, List.foldlM_cons, Walk.step, bind_assoc,
    Run.run_bind_ok _ (Walk.run_finish rfl config text _)]
  exact ⟨_, rfl⟩

namespace Node

/-- A `DISTINCT` before the rows. -/
def distinctWords : List Node :=
  [spaceNode, leaf (.keyword .generic) "DISTINCT", spaceNode]

/-- A call with its alias, and a name with a comment before it. -/
def callAndName : List (List Node) :=
  [[nameNode "f", group .parenthesis [openingMark, nameNode "x", commaNode, nameNode "y", closingMark],
      spaceNode, asNode, spaceNode, nameNode "a"],
    [spaceNode, leaf .comment "/* c */", spaceNode, nameNode "b"]]

/-- A condition with its alias, and a name. -/
def conditionAndName : List (List Node) :=
  [[spaceNode, nameNode "x", spaceNode, leaf (.keyword .generic) "IS", spaceNode, leaf .literal "NULL",
      spaceNode, asNode, spaceNode, nameNode "a"], [spaceNode, nameNode "b"]]

end Node

theorem analyze_selectRows_distinct : ∃ text,
    analyze {} "SELECT DISTINCT f(x,y) AS a, /* c */ b FROM t" = .ok
      { tables := [
          { id := 0, name := "select-1", attributes := [.aliased "f(x,y)" (some "a"), .ofName "b"]
            source := text, links := [1] },
          { id := 1, name := "t" }]
        selects := 1 } := by
  have hread : Lexeme.ofText "SELECT DISTINCT f(x,y) AS a, /* c */ b FROM t" = .ok
      [⟨.keyword .dml, "SELECT"⟩, .space, ⟨.keyword .generic, "DISTINCT"⟩, .space, ⟨.name, "f"⟩, .opening,
        ⟨.name, "x"⟩, ⟨.punctuation, ","⟩, ⟨.name, "y"⟩, .closing, .space, ⟨.keyword .generic, "AS"⟩,
        .space, ⟨.name, "a"⟩, ⟨.punctuation, ","⟩, .space, ⟨.comment, "/* c */"⟩, .space, ⟨.name, "b"⟩,
        .space, ⟨.keyword .generic, "FROM"⟩, .space, ⟨.name, "t"⟩] := by
    decide +kernel
  have hwords : ∀ node ∈ distinctWords, node.IsLead := by
    intro node hnode
    simp only [distinctWords, List.mem_cons, List.not_mem_nil, or_false] at hnode
    rcases hnode with rfl | rfl | rfl <;>
      exact ⟨by decide +kernel, by decide +kernel, by decide +kernel, by decide +kernel⟩
  have hrows : ∀ row ∈ callAndName, IsRow row := by
    intro row hrow
    simp only [callAndName, List.mem_cons, List.not_mem_nil, or_false] at hrow
    rcases hrow with rfl | rfl <;>
      exact ⟨by decide +kernel, by decide +kernel, by decide +kernel, by decide +kernel, by decide +kernel⟩
  obtain ⟨_, text, hanalyze, rfl, -⟩ := analyze_selectRows {} hread
    (by decide +kernel : _ = Except.ok (selectRows distinctWords callAndName .t)) hwords hrows
    (by decide +kernel)
  have hcolumns : (listedItems (callAndName.map fun row => groupAll (stripped false row))).map column =
      [.aliased "f(x,y)" (some "a"), .ofName "b"] := by
    decide +kernel
  exact ⟨text, by rw [hanalyze, hcolumns]; rfl⟩

/-- The list ends in a row that is a condition of keywords, and the columns behind it are lost. -/
theorem not_analyze_selectRows_isNull : ¬ ∀ (config : Config) (sql : String) (lexemes : List Lexeme)
    (rows : List (List Node)) (source : PlainName), rows ≠ [] → (∀ row ∈ rows, IsRow row) →
    Lexeme.ofText sql = .ok lexemes →
    groupParentheses sql (lexemes.map Lexeme.toNode) = .ok (selectRows [] rows source) →
    ∃ registry table, analyze config sql = .ok registry ∧ registry.find? 0 = some table ∧
      table.attributes.length = rows.length := by
  intro hall
  have hread : Lexeme.ofText "SELECT x IS NULL AS a, b FROM t" = .ok
      [⟨.keyword .dml, "SELECT"⟩, .space, ⟨.name, "x"⟩, .space, ⟨.keyword .generic, "IS"⟩, .space,
        ⟨.literal, "NULL"⟩, .space, ⟨.keyword .generic, "AS"⟩, .space, ⟨.name, "a"⟩, ⟨.punctuation, ","⟩,
        .space, ⟨.name, "b"⟩, .space, ⟨.keyword .generic, "FROM"⟩, .space, ⟨.name, "t"⟩] := by
    decide +kernel
  have hrows : ∀ row ∈ conditionAndName, IsRow row := by
    intro row hrow
    simp only [conditionAndName, List.mem_cons, List.not_mem_nil, or_false] at hrow
    rcases hrow with rfl | rfl <;>
      exact ⟨by decide +kernel, by decide +kernel, by decide +kernel, by decide +kernel, by decide +kernel⟩
  obtain ⟨registry, table, hanalyze, htable, hlength⟩ := hall {} _ _ conditionAndName .t (by decide)
    hrows hread (by decide +kernel)
  have hone : ((analyze {} "SELECT x IS NULL AS a, b FROM t").toOption.bind fun registry =>
      (registry.find? 0).map fun table => table.attributes.length) = some 1 := by
    decide +kernel
  rw [hanalyze] at hone
  rw [Except.toOption, Option.bind_some, htable, Option.map_some, hlength] at hone
  cases hone

end QueryLineage
