import QueryLineage.Graph.Table

/-!
# Registries

All tables found in one run, in the order of their creation. The id of a table is its position, so
ids are never used twice. Tables without a name of their own are named after their origin, and
each origin counts for itself.
-/

namespace QueryLineage

/-- The origins of the tables that have no name of their own. -/
inductive Origin where
  | select
  | join
  | table
  deriving DecidableEq, Repr

def Origin.word : Origin → String
  | select => "select"
  | join => "join"
  | table => "table"

/-- The name of a table: its own, or one to be generated. -/
inductive TableName where
  | named (name : String)
  | generated (origin : Origin)
  deriving DecidableEq, Repr

/-- What a table is created from. -/
structure NewTable where
  name : TableName
  alias? : Option String := none
  attributes : List Attribute := []
  comment : String := ""
  source : String := ""

structure Registry where
  tables : List Table := []
  selects : Nat := 0
  joins : Nat := 0
  others : Nat := 0
  deriving DecidableEq, Repr

namespace Registry

def empty : Registry := {}

def size (registry : Registry) : Nat :=
  registry.tables.length

def isEmpty (registry : Registry) : Bool :=
  registry.tables.isEmpty

/-- How many names have been generated for tables of the origin. -/
def count (registry : Registry) : Origin → Nat
  | .select => registry.selects
  | .join => registry.joins
  | .table => registry.others

def counted (registry : Registry) : Origin → Registry
  | .select => { registry with selects := registry.selects + 1 }
  | .join => { registry with joins := registry.joins + 1 }
  | .table => { registry with others := registry.others + 1 }

def generatedName (registry : Registry) (origin : Origin) : String :=
  s!"{origin.word}-{registry.count origin + 1}"

/-- Adds a table whose name is known. -/
def push (registry : Registry) (name : String) (new : NewTable) : Registry :=
  let table : Table := { id := registry.size, name }
  let table := new.alias?.elim table table.addAlias
  { registry with
    tables := registry.tables ++
      [{ table with attributes := new.attributes, comment := new.comment, source := new.source }] }

/-- Creates a table. Its id is the number of tables there were before. -/
def create (registry : Registry) (new : NewTable) : Registry :=
  match new.name with
  | .named name => registry.push name new
  | .generated origin => (registry.counted origin).push (registry.generatedName origin) new

def find? (registry : Registry) (id : Nat) : Option Table :=
  registry.tables[id]?

/-- The first table that has `text` for its name or for one of its aliases. -/
def findKnownAs? (registry : Registry) (text : String) : Option Table :=
  registry.tables.find? (·.isKnownAs text)

/-- Changes one table. Nothing happens if it does not exist. -/
def modify (registry : Registry) (id : Nat) (change : Table → Table) : Registry :=
  { registry with tables := registry.tables.modify id change }

/-- Whether `link` adds something: both tables exist, and the first does not have the link. -/
def admitsLink (registry : Registry) (source target : Nat) : Bool :=
  target < registry.size && (registry.find? source).any fun table => !table.links.contains target

def link (registry : Registry) (source target : Nat) : Registry :=
  if target < registry.size then registry.modify source (·.link target) else registry

/-- Whether `addAlias` adds something. -/
def admitsAlias (registry : Registry) (id : Nat) (other : String) : Bool :=
  (registry.find? id).any (·.admits other)

def addAlias (registry : Registry) (id : Nat) (other : String) : Registry :=
  registry.modify id (·.addAlias other)

@[simp] theorem count_modify (registry : Registry) (id : Nat) (change : Table → Table)
    (origin : Origin) : (registry.modify id change).count origin = registry.count origin := by
  cases origin <;> rfl

@[simp] theorem size_modify (registry : Registry) (id : Nat) (change : Table → Table) :
    (registry.modify id change).size = registry.size := by
  simp [modify, size]

@[simp] theorem size_link (registry : Registry) (source target : Nat) :
    (registry.link source target).size = registry.size := by
  unfold link
  split <;> simp

@[simp] theorem size_addAlias (registry : Registry) (id : Nat) (other : String) :
    (registry.addAlias id other).size = registry.size := by
  simp [addAlias]

theorem count_create (registry : Registry) (new : NewTable) (origin : Origin) :
    (registry.create new).count origin =
      registry.count origin + if new.name = .generated origin then 1 else 0 := by
  unfold create
  cases new.name with
  | named name => cases origin <;> simp [push, count]
  | generated other => cases origin <;> cases other <;> simp [push, count, counted]

@[simp] theorem size_create (registry : Registry) (new : NewTable) :
    (registry.create new).size = registry.size + 1 := by
  unfold create
  split
  · simp [push, size]
  · next origin _ => cases origin <;> simp [push, size, counted]

theorem find?_modify (registry : Registry) (id other : Nat) (change : Table → Table) :
    (registry.modify id change).find? other =
      if id = other then (registry.find? other).map change else registry.find? other := by
  simp only [modify, find?, List.getElem?_modify]
  split <;> simp

end Registry

end QueryLineage
