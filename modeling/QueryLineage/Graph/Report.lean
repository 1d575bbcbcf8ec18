import QueryLineage.Graph.Registry
import QueryLineage.Text.Blank

/-!
# Reports

A registry as a text for people: one block of lines for each table, with an empty line between
blocks. Links are shown by the names of their targets.
-/

namespace QueryLineage

open Text

namespace Registry

/-- The names of the tables that a table reads from. -/
def targetNames (registry : Registry) (table : Table) : List String :=
  (table.links.filterMap registry.find?).map Table.name

/-- The line under a heading, unless there is nothing to show. -/
def reportLine (heading text : String) : List String :=
  if text.isEmpty then [] else ["  " ++ heading ++ ": " ++ text]

def reportList (heading : String) (names : List String) : List String :=
  if names.isEmpty then [] else ["  " ++ heading ++ ": " ++ ", ".intercalate names]

def reportAttributes (attributes : List Attribute) : List String :=
  if attributes.isEmpty then []
  else "  attributes:" :: attributes.map fun column => "    - " ++ column.render

def reportTable (registry : Registry) (table : Table) : List String :=
  s!"[{table.id}] {table.name}" ::
    (reportList "aliases" table.aliases ++
      reportLine "comment" table.comment ++
      reportAttributes table.attributes ++
      reportList "reads from" (registry.targetNames table) ++
      (if table.source.isEmpty then [] else ["  sql: " ++ collapse table.source]))

def report (registry : Registry) : String :=
  let blocks := registry.tables.map fun table =>
    String.join ((registry.reportTable table).map (· ++ "\n"))
  "\n".intercalate blocks

end Registry

end QueryLineage
