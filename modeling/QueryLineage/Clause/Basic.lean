import QueryLineage.Clause.Condition
import QueryLineage.Clause.Naming
import QueryLineage.Text.Search

/-!
# Clauses

What a part of a query means depends on the clause it stands in. This module reads one part of a
clause; what comes of it does not depend on the tables that are known.
-/

namespace QueryLineage

inductive Clause where
  | outside
  | selectList
  | fromList
  | joinList
  | withList
  | onCondition
  deriving DecidableEq, Repr

def Clause.word : Clause → String
  | outside => "none"
  | selectList => "select"
  | fromList => "from"
  | joinList => "join"
  | withList => "with"
  | onCondition => "on"

/-- A source of a query: a table by its name, or a query in parentheses. -/
inductive Source where
  | named (name : String) (alias? : Option String)
  | derived (alias? : Option String) (body : Node)

/-- What a part of a clause says. -/
inductive Reading where
  | columns (attributes : List Attribute)
  | sources (sources : List Source)
  | entries (nodes : List Node)
  | conditions (attributes : List Attribute)
  | nothing

namespace Node

open Text

def column (node : Node) : Attribute :=
  if node.kind = .wildcard then .ofName "*"
  else .aliased node.nameAndAlias.1 node.nameAndAlias.2

/-- The query that a source holds, be it bare or the first part of an identifier. -/
def subselect? (node : Node) : Option Node :=
  if node.isSubselect then some node
  else if node.kind = .identifier then
    (node.children.find? fun child => !child.isFiller .all).filter isSubselect
  else none

def source (node : Node) : Source :=
  match node.subselect? with
  | some body => .derived node.nameAndAlias.2 body
  | none => .named node.nameAndAlias.1 node.nameAndAlias.2

def isJoin (node : Node) : Bool :=
  node.isKeyword && occursIn "JOIN".toList node.normalized.toList

def read (clause : Clause) (node : Node) : Except LineageError Reading :=
  match clause with
  | .outside => .ok .nothing
  | .selectList => .ok (.columns (node.items.map column))
  | .fromList | .joinList => .ok (.sources (node.items.map source))
  | .withList => .ok (.entries node.items)
  | .onCondition => (node.items.mapM conditions).map fun found => .conditions found.flatten

/-- Reads an operand of an `ON` with the siblings behind it, and counts those that it takes. -/
def readOperand (node : Node) (siblings : List Node) : Reading × Nat :=
  let (condition?, taken) := keywordCondition node siblings
  (.conditions condition?.toList, taken)

end Node

end QueryLineage
