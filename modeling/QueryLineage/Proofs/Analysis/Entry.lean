import QueryLineage.Proofs.Analysis.Acts
import QueryLineage.Proofs.Analysis.Declaration
import QueryLineage.Proofs.Analysis.Depth
import QueryLineage.Proofs.Clause.Entry

/-!
# Queries with an entry of a `WITH`

However the entry of a `WITH` is written, its query is interpreted into its table, and nothing else
is done to that table. If columns are listed without `AS` behind them, the list is taken for the
query.
-/

namespace QueryLineage

open Text

namespace CommonTable

/-- The table of the first entry of a text, before its query is interpreted into it. -/
def declared (entry : CommonTable) (source : String) : Table where
  id := 0
  name := entry.name
  attributes := entry.columns.map .placeholder
  comment := entry.comment?.getD ""
  source := source

/-- The table of the entry is there whatever its query has done. -/
theorem exists_declared {entry : CommonTable} {source : String} {config : Config} {body : Node}
    {columns : Bool} {result : Except LineageError Unit} {after : Registry}
    (hrun : (interpret config body (some 0) columns).run { tables := [entry.declared source] } =
      (result, after)) :
    ∃ found rest, after.tables = found :: rest ∧ found.name = entry.name ∧ found.id = 0 := by
  have hacts := Acts.interpret config body (some 0) columns
  obtain ⟨found, hfound, hname, -⟩ := hacts.retains hrun 0 (entry.declared source) rfl
  have hcreate := Run.run_create
    { name := .named entry.name
      attributes := entry.columns.map .placeholder
      comment := entry.comment?.getD ""
      source } .empty
  have hcreated :=
    (Run.run_bind_ok (fun _ => interpret config body (some 0) columns) hcreate).trans hrun
  have hid := ((Acts.create _).bind fun _ => hacts).id_eq hcreated hfound
  cases htables : after.tables with
  | nil =>
    rw [Registry.find?, htables] at hfound
    cases hfound
  | cons other rest =>
    rw [Registry.find?, htables] at hfound
    obtain rfl := Option.some.inj hfound
    exact ⟨other, rest, rfl, hname, hid⟩

end CommonTable

/-- An entry of a `WITH` is read as its name, its columns and its query, whether it has columns and
a comment or not, and its query is interpreted into its table. If it has columns, `AS` stands behind
them. -/
theorem run_process_entry (config : Config) (entry : EntryForm) {query : String}
    {lexemes : List Lexeme} {inner : List Node} (hquery : Enclosable query lexemes inner)
    (hform : entry.columns = [] ∨ entry.behindAs = true) :
    let body := EntryForm.body config.stripComments inner
    let node := entry.node config.stripComments body
    let table := (entry.parsed config.stripComments body).declared
      (if config.captureSource then trim node.text else "")
    body.fringe = .opening :: (Lexeme.stripped config.stripComments lexemes ++ [.closing]) ∧
    CommonTable.ofNode node = .ok (entry.parsed config.stripComments body) ∧
    ∃ tree before steps shown,
      Node.statementsOfText (entry.text query) config.stripComments = .ok [tree] ∧
      Step.ofNode tree = .read .withList (.entries [node]) "" before :: steps ∧
      ∀ result after, (interpret config body (some 0) (!entry.columns.isEmpty)).run
          { tables := [table] } = (result, after) →
        (process config (entry.text query)).run .empty =
          (result, if result.isOk then after.readAll 0 shown else after) := by
  have htree := entry.statementsOfText_text hquery config.stripComments
  rw [Node.statement, entry.groupAll_nodes hform] at htree
  have hentry := entry.ofNode_node hform config.stripComments inner
  obtain ⟨before, comment, text, hsteps⟩ := Step.exists_ofNode_asCommonTable entry.name.text
    (entry.kind_node config.stripComments (EntryForm.body config.stripComments inner))
    fun _ hlexeme => entry.isFiller_of_mem_outside hlexeme
  obtain ⟨_, -, hseated, htidy⟩ := Node.tidy_of_mem_statementsOfText htree
  refine ⟨EntryForm.fringe_body hquery config.stripComments, hentry, _, before, _,
    (if config.captureSource then Walk.selectText? text else none).getD "", htree, hsteps,
    fun result after hrun => ?_⟩
  have hcolumns : (entry.parsed config.stripComments
      (EntryForm.body config.stripComments inner)).columns.isEmpty = entry.columns.isEmpty := by
    rw [EntryForm.parsed, List.isEmpty_map]
  rw [← hcolumns] at hrun
  rw [run_process_of_single htree, interpret_eq config hseated (htidy _ List.mem_cons_self)]
  cases result with
  | ok answer =>
    obtain ⟨found, rest, htables, hname, hid⟩ := CommonTable.exists_declared hrun
    have hfound : ((after.create { name := .generated .select }).modify after.size
        (·.appendAttributes [.ofName "*"])).findKnownAs? entry.name.text = some found := by
      have htext : entry.name.text = found.name := hname.symm
      rw [htext]
      apply Registry.findKnownAs?_of_head
      rw [Registry.tables_unlinked, htables, List.cons_append]
    have hlt : found.id < after.size := by
      rw [hid, Registry.size, htables]
      exact Nat.zero_lt_succ _
    have houter := run_asCommonTable hsteps hentry rfl hrun hfound hlt
    rwa [hid] at houter
  | error error =>
    have hfailed : (Walk.step (interpret config) config (Walk.start none false)
        (.read .withList (.entries [entry.node config.stripComments
          (EntryForm.body config.stripComments inner)]) "" before)).run .empty =
            (.error error, after) :=
      Walk.run_entry_of_error config hentry hrun
    rw [hsteps, List.foldlM_cons, bind_assoc, Run.run_bind_error _ hfailed]
    rfl

/-- A column before `AS`, and a comment behind the query. -/
def EntryForm.commented : EntryForm where
  name := .c
  columns := [.x]
  behindAs := true
  comment? := some ⟨"-- n\n", by decide +kernel, by decide +kernel⟩

theorem enclosable_selectFrom : Enclosable "SELECT a FROM t"
    [⟨.keyword .dml, "SELECT"⟩, .space, ⟨.name, "a"⟩, .space, ⟨.keyword .generic, "FROM"⟩, .space,
      ⟨.name, "t"⟩]
    [Node.selectNode, Node.spaceNode, Node.nameNode "a", Node.spaceNode, Node.fromNode, Node.spaceNode,
      Node.nameNode "t"] where
  read := by decide +kernel
  nests := .of_groupParentheses (by decide +kernel) (by decide +kernel : Node.groupParentheses "" _ = _)
  ended := by decide +kernel

theorem run_process_entry_commented : ∃ shown,
    (process {} "WITH c (x) AS (SELECT a FROM t) -- n\n SELECT * FROM c").run .empty = (.ok (),
      { tables := [
          { id := 0, name := "c", attributes := [.aliased "a" (some "x")], comment := "-- n"
            source := "SELECT a FROM t", links := [1] },
          { id := 1, name := "t" }, .star 2 "select-1" [0] shown]
        selects := 1 }) := by
  have htext : EntryForm.commented.text "SELECT a FROM t" =
      "WITH c (x) AS (SELECT a FROM t) -- n\n SELECT * FROM c" := by
    decide +kernel
  obtain ⟨-, -, _, _, _, shown, -, -, hprocess⟩ :=
    run_process_entry {} .commented enclosable_selectFrom (Or.inr rfl)
  have hbody := hprocess (.ok ())
    { tables := [
        { id := 0, name := "c", attributes := [.aliased "a" (some "x")], comment := "-- n"
          source := "SELECT a FROM t", links := [1] },
        { id := 1, name := "t" }] } (Prod.ext (by decide +kernel) (by decide +kernel))
  rw [htext] at hbody
  have hnumber : selectName 1 = "select-1" := by decide
  refine ⟨shown, hbody.trans ?_⟩
  rw [← hnumber]
  rfl

/-- Columns without `AS` behind them. -/
def EntryForm.columnsAlone : EntryForm where
  name := .c
  columns := [.a]
  behindAs := false

/-- The columns of the entry that a step reads, if it reads a single one. -/
def Step.entryColumns? : Step → Option (List String)
  | .read _ (.entries [node]) _ _ => (CommonTable.ofNode node).toOption.map CommonTable.columns
  | _ => none

/-- The columns are not read, and the query stays outside of the entry. -/
theorem not_ofNode_columnsAlone : ¬ ∀ (config : Config) (entry : EntryForm) (query : String)
    (lexemes : List Lexeme) (inner : List Node), Enclosable query lexemes inner →
    ∃ tree node body before steps,
      Node.statementsOfText (entry.text query) config.stripComments = .ok [tree] ∧
      Step.ofNode tree = .read .withList (.entries [node]) "" before :: steps ∧
      CommonTable.ofNode node = .ok (entry.parsed config.stripComments body) := by
  intro hall
  obtain ⟨tree, node, body, before, steps, htree, hsteps, hentry⟩ :=
    hall {} .columnsAlone _ _ _ enclosable_selectFrom
  have hread : ((Node.statementsOfText
      (EntryForm.columnsAlone.text "SELECT a FROM t") false).toOption.bind fun trees =>
        (trees.flatMap Step.ofNode).head?.bind Step.entryColumns?) = some [] := by
    decide +kernel
  have hstripped : ({} : Config).stripComments = false := rfl
  rw [hstripped] at htree hentry
  rw [htree, Except.toOption, Option.bind_some, List.flatMap_singleton, hsteps, List.head?_cons,
    Option.bind_some, Step.entryColumns?, hentry] at hread
  cases hread

end QueryLineage
