import QueryLineage.Analysis.Config
import QueryLineage.Clause.Basic
import QueryLineage.Graph.Registry

/-!
# Walking through a statement

What is found in a statement is recorded in a registry. A `SELECT` at the top creates a table; a
query in parentheses and a common table have theirs before they are walked through. A `FROM` links
the table to its sources. A `JOIN` puts a table of its own between what it joins: the source or
join before it links to that table, and that table links to the source behind it.
-/

namespace QueryLineage

open Text

/-- A run on a registry that may fail; the registry is kept in either case. -/
abbrev Run := ExceptT LineageError (StateM Registry)

/-- What a statement remembers from one step to the next: the table around it, the one that takes
what is found, whether that one has `declared` columns that wait for the list which fills them in,
whether it has got a list yet, the join that the next condition belongs to, and what the next join
is linked to. -/
structure Walk where
  enclosing : Option Nat
  table : Option Nat
  declared : Bool
  listRead : Bool := false
  lastJoin : Option Nat := none
  anchor : Option Nat := none
  deriving DecidableEq, Repr

/-- What a part of a clause comes to once its queries in parentheses have been interpreted. -/
inductive Finding where
  | columns (attributes : List Attribute)
  | source (name : String) (alias? : Option String)
  | derived (id : Nat)
  | conditions (attributes : List Attribute)
  | nothing

namespace Run

def create (new : NewTable) : Run Nat := do
  let registry ← get
  set (registry.create new)
  pure registry.size

def change (id : Nat) (change : Table → Table) : Run Unit :=
  modify (·.modify id change)

def link (source target : Nat) : Run Unit :=
  modify (·.link source target)

end Run

namespace Walk

def start (enclosing : Option Nat) (declared : Bool) : Walk :=
  { enclosing, table := enclosing, declared }

/-- The table of the statement. A statement that has none, such as a `DELETE`, is given one. -/
def ownTable (walk : Walk) : Run (Nat × Walk) :=
  match walk.table with
  | some table => pure (table, walk)
  | none => do
    let table ← Run.create { name := .generated .table }
    pure (table, { walk with table := some table })

def select (walk : Walk) : Run Walk :=
  match walk.enclosing with
  | some _ => pure { walk with lastJoin := none, anchor := none }
  | none => do
    let table ← Run.create { name := .generated .select }
    pure { walk with table := some table, listRead := false, lastJoin := none, anchor := none }

def fill (id : Nat) (produced : List Attribute) : Run Unit := do
  match (← get).find? id with
  | none => pure ()
  | some table =>
    let declared := (table.attributes.filter Attribute.isPlaceholder).length
    if produced.length < declared then
      throw (.aliasCountMismatch table.name declared produced.length)
    else
      Run.change id fun table =>
        { table with attributes := Attribute.fillPlaceholders table.attributes produced }

/-- Reads a select list into the table. The lists of further branches of a union describe the same
columns and are merged with the first. -/
def addColumns (walk : Walk) (attributes : List Attribute) : Run Walk := do
  let (table, walk) ← walk.ownTable
  let first := !walk.listRead
  let walk := { walk with listRead := true }
  if walk.declared then
    fill table attributes
    pure { walk with declared := false }
  else
    if first then Run.change table (·.appendAttributes attributes)
    else Run.change table (·.mergeAttributes attributes)
    pure walk

/-- Puts the conditions of an `ON` on its join, which also takes the text. -/
def addConditions (walk : Walk) (config : Config) (attributes : List Attribute)
    (text : String) : Run Unit :=
  match walk.lastJoin with
  | none => pure ()
  | some join =>
    Run.change join fun table =>
      let table := table.updateAttributes attributes
      if config.captureSource then table.setSource (trim text) else table

def restrict (walk : Walk) (attributes : List Attribute) : Run Walk := do
  let (table, walk) ← walk.ownTable
  Run.change table (·.updateAttributes attributes)
  pure walk

/-- Links a source to the statement, by a join table if it is joined. -/
def addSource (walk : Walk) (clause : Clause) (source : Nat) : Run Walk := do
  if clause = .joinList then
    let (anchor, walk) ←
      match walk.anchor with
      | some anchor => pure (anchor, walk)
      | none => walk.ownTable
    let join ← Run.create { name := .generated .join }
    Run.link anchor join
    Run.link join source
    pure { walk with lastJoin := some join, anchor := some join }
  else
    let (table, walk) ← walk.ownTable
    Run.link table source
    pure { walk with anchor := some source }

/-- The table known under a name, which is created if there is none; it gets the alias. -/
def tableNamed (name : String) (alias? : Option String) : Run Nat := do
  let id ←
    match (← get).findKnownAs? name with
    | some table => pure table.id
    | none => Run.create { name := .named name }
  match alias? with
  | none => pure ()
  | some other => modify (·.addAlias id other)
  pure id

def record (config : Config) (clause : Clause) (text : String) (walk : Walk) :
    Finding → Run Walk
  | .columns attributes => walk.addColumns attributes
  | .source name alias? => do walk.addSource clause (← tableNamed name alias?)
  | .derived id => walk.addSource clause id
  | .conditions attributes => do
    walk.addConditions config attributes text
    pure walk
  | .nothing => pure walk

/-- The text of a query in parentheses or of a statement, without what ends it. Other texts than
those of a `SELECT` are of no interest. -/
def selectText? (text : String) : Option String :=
  let cs := trimChars text.toList
  if (cs.take 6).map Char.toUpper = "SELECT".toList then
    let cs := trimEndChars (if cs.getLast? = some ';' then cs.dropLast else cs)
    let cs :=
      if cs.count '(' < cs.count ')' then
        trimEndChars (if cs.getLast? = some ')' then cs.dropLast else cs)
      else cs
    some (String.ofList cs)
  else none

def finish (walk : Walk) (config : Config) (text : String) : Run Unit :=
  match walk.table, selectText? text with
  | some table, some source =>
    if config.captureSource then Run.change table (·.setSource source) else pure ()
  | _, _ => pure ()

end Walk

end QueryLineage
