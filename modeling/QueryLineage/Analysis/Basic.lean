import QueryLineage.Analysis.Walk
import QueryLineage.Clause.CommonTable
import QueryLineage.Clause.Step
import QueryLineage.Tree.Query

/-!
# Analysing queries

The steps of a statement are carried out on a registry, one after the other. Where a step holds
queries in parentheses, the steps of all of these are carried out before anything of the step
itself is recorded. A failure ends the run, and what was registered before it stays registered.
-/

namespace QueryLineage

open Text

/-! ## Queries inside queries

How a query in parentheses is interpreted is a parameter `descend` of what follows. It takes the
query, the table that encloses it, and whether that table has declared its columns. -/

/-- Finds the table of a source. A query in parentheses is interpreted into a new table. -/
def Source.resolve (descend : Node → Option Nat → Bool → Run Unit) : Source → Run Finding
  | named name alias? => pure (.source name alias?)
  | derived alias? body => do
    let id ← Run.create { name := .generated .select, alias? }
    descend body (some id) false
    pure (.derived id)

/-- Creates the common table of an entry and interprets its query into it. The comment is the one
before the entry, for the case that the entry has none. -/
def CommonTable.register (descend : Node → Option Nat → Bool → Run Unit) (config : Config)
    (comment : String) (node : Node) : Run Nat := do
  let entry ← CommonTable.ofNode node
  let id ← Run.create
    { name := .named entry.name
      attributes := entry.columns.map .placeholder
      comment := entry.comment?.getD comment
      source := if config.captureSource then trim node.text else "" }
  descend entry.body (some id) (!entry.columns.isEmpty)
  pure id

def Reading.resolve (descend : Node → Option Nat → Bool → Run Unit) (config : Config)
    (comment : String) : Reading → Run (List Finding)
  | .columns attributes => pure [.columns attributes]
  | .sources found => found.mapM (Source.resolve descend)
  | .entries nodes => do
    let _ ← nodes.mapM (CommonTable.register descend config comment)
    pure [.nothing]
  | .conditions attributes => pure [.conditions attributes]
  | .nothing => pure [.nothing]

def Walk.step (descend : Node → Option Nat → Bool → Run Unit) (config : Config) (walk : Walk) :
    Step → Run Walk
  | .select => walk.select
  | .read clause reading comment text => do
    let findings ← reading.resolve descend config comment
    findings.foldlM (Walk.record config clause text) walk
  | .restrict conditions => walk.restrict conditions
  | .fail error => throw error
  | .finish text => do
    walk.finish config text
    pure walk

/-- Interprets a query whose depth is at most the first argument. -/
def interpretWithin (config : Config) : Nat → Node → Option Nat → Bool → Run Unit
  | 0, _, _, _ => pure ()
  | n + 1, node, enclosing, declared => do
    let _ ← (Step.ofNode node).foldlM (Walk.step (interpretWithin config n) config)
      (Walk.start enclosing declared)

/-- Interprets a statement or a query in parentheses. What it finds goes to the enclosing table;
without one, every `SELECT` has a table of its own. -/
def interpret (config : Config) (node : Node) (enclosing : Option Nat) (declared : Bool) :
    Run Unit :=
  interpretWithin config node.depth node enclosing declared

/-- Reads one node as a part of a clause and interprets the queries in it. -/
def dispatch (config : Config) (clause : Clause) (comment : String) (node : Node) :
    Run (List Finding) := do
  let reading ← node.read clause
  reading.resolve (interpret config) config comment

def process (config : Config) (sql : String) : Run Unit := do
  match Node.statementsOfText sql config.stripComments with
  | .error error => throw (.parse error)
  | .ok statements => statements.forM fun statement => interpret config statement none false

/-- The registry of a text by itself. -/
def analyze (config : Config) (sql : String) : Except LineageError Registry :=
  match (process config sql).run .empty with
  | (.error error, _) => .error error
  | (.ok (), registry) => .ok registry

end QueryLineage
