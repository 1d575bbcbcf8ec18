import QueryLineage.Graph.Attribute

/-!
# Tables

A node of the lineage graph: a table of the database, a common table, a sub-select, a `SELECT` or
the result of a join. Its links name the tables that it reads from.
-/

namespace QueryLineage

structure Table where
  id : Nat
  name : String
  aliases : List String := []
  attributes : List Attribute := []
  comment : String := ""
  source : String := ""
  links : List Nat := []
  deriving DecidableEq, Repr

namespace Table

def isKnownAs (table : Table) (text : String) : Bool :=
  table.name == text || table.aliases.contains text

/-- Whether `other` would be a new alias: not empty, and not a name the table has. -/
def admits (table : Table) (other : String) : Bool :=
  !other.isEmpty && !table.isKnownAs other

def addAlias (table : Table) (other : String) : Table :=
  if table.admits other then { table with aliases := table.aliases ++ [other] } else table

/-- Adds a link, unless the table has it. -/
def link (table : Table) (target : Nat) : Table :=
  if table.links.contains target then table else { table with links := table.links ++ [target] }

def updateAttributes (table : Table) (attributes : List Attribute) : Table :=
  { table with attributes := Attribute.updateAll table.attributes attributes }

def mergeAttributes (table : Table) (attributes : List Attribute) : Table :=
  { table with attributes := Attribute.mergeAll table.attributes attributes }

def appendAttributes (table : Table) (attributes : List Attribute) : Table :=
  { table with attributes := table.attributes ++ attributes }

def setSource (table : Table) (source : String) : Table :=
  { table with source }

@[simp] theorem id_addAlias (table : Table) (other : String) :
    (table.addAlias other).id = table.id := by
  unfold addAlias
  split <;> rfl

@[simp] theorem name_addAlias (table : Table) (other : String) :
    (table.addAlias other).name = table.name := by
  unfold addAlias
  split <;> rfl

@[simp] theorem id_link (table : Table) (target : Nat) : (table.link target).id = table.id := by
  unfold link
  split <;> rfl

@[simp] theorem name_link (table : Table) (target : Nat) :
    (table.link target).name = table.name := by
  unfold link
  split <;> rfl

theorem mem_links_link (table : Table) (target id : Nat) :
    id ∈ (table.link target).links ↔ id ∈ table.links ∨ id = target := by
  unfold link
  split
  · next h =>
    have : target ∈ table.links := by simpa using h
    constructor
    · exact Or.inl
    · rintro (h | rfl) <;> assumption
  · simp

end Table

end QueryLineage
