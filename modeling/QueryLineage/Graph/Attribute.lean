import QueryLineage.Text.Upper

/-!
# Attributes

A column or an expression that a table has, under a name and perhaps an alias, with the condition
that was put on it. Attributes of one table describe the same column when they share a name or an
alias.
-/

namespace QueryLineage

open Text

structure Attribute where
  name : String
  alias? : Option String := none
  -- an operator in upper case, followed by a space and its value if there is one
  condition? : Option String := none
  deriving DecidableEq, Repr

namespace Attribute

/-- The name of a column that a common table declares and its query has not filled in yet. -/
def pendingName : String := "?"

def ofName (name : String) : Attribute := { name }

def aliased (name : String) (alias? : Option String) : Attribute := { name, alias? }

def withCondition (name operator value : String) : Attribute :=
  let operator := upper operator
  { name, condition? := some (if value.isEmpty then operator else operator ++ " " ++ value) }

/-- A column that has been declared under an alias only. -/
def placeholder (other : String) : Attribute := aliased pendingName (some other)

def isPlaceholder (column : Attribute) : Bool :=
  column.name == pendingName

/-- Whether two attributes describe the same column. -/
def isSameAs (first second : Attribute) : Bool :=
  first.name == second.name || second.alias? == some first.name ||
    first.alias? == some second.name || (first.alias?.isSome && first.alias? == second.alias?)

@[simp] theorem isPlaceholder_placeholder (other : String) :
    (placeholder other).isPlaceholder = true := by
  simp [placeholder, aliased, isPlaceholder]

@[simp] theorem isSameAs_self (column : Attribute) : column.isSameAs column = true := by
  simp [isSameAs]

theorem isSameAs_comm (first second : Attribute) :
    first.isSameAs second = second.isSameAs first := by
  rw [Bool.eq_iff_iff]
  simp only [isSameAs, Bool.or_eq_true, Bool.and_eq_true, beq_iff_eq]
  constructor <;> rintro (((h | h) | h) | ⟨h, e⟩)
  · exact Or.inl (Or.inl (Or.inl h.symm))
  · exact Or.inl (Or.inr h)
  · exact Or.inl (Or.inl (Or.inr h))
  · exact Or.inr ⟨e ▸ h, e.symm⟩
  · exact Or.inl (Or.inl (Or.inl h.symm))
  · exact Or.inl (Or.inr h)
  · exact Or.inl (Or.inl (Or.inr h))
  · exact Or.inr ⟨e ▸ h, e.symm⟩

def render (column : Attribute) : String :=
  column.name ++ (column.alias?.elim "" (" AS " ++ ·)) ++
    (column.condition?.elim "" (" " ++ ·))

/-- Puts the condition of `column` on the first attribute of the same column. If there is none,
`column` comes last. -/
def update (attributes : List Attribute) (column : Attribute) : List Attribute :=
  match attributes with
  | [] => [column]
  | existing :: rest =>
    if existing.isSameAs column then
      { existing with condition? := column.condition? } :: rest
    else existing :: update rest column

def updateAll (attributes incoming : List Attribute) : List Attribute :=
  incoming.foldl update attributes

/-- Appends an attribute unless there is one of the same column. -/
def merge (attributes : List Attribute) (column : Attribute) : List Attribute :=
  if attributes.any (·.isSameAs column) then attributes else attributes ++ [column]

def mergeAll (attributes incoming : List Attribute) : List Attribute :=
  incoming.foldl merge attributes

/-- Fills the placeholders in order with the attributes that a query produces. Each keeps its
alias; what is left over of the query comes last. -/
def fillPlaceholders : List Attribute → List Attribute → List Attribute
  | [], produced => produced
  | existing :: rest, [] => existing :: rest
  | existing :: rest, first :: produced =>
    if existing.isPlaceholder then
      { existing with name := first.name, condition? := first.condition? } ::
        fillPlaceholders rest produced
    else existing :: fillPlaceholders rest (first :: produced)

@[simp] theorem updateAll_nil (attributes : List Attribute) : updateAll attributes [] = attributes :=
  rfl

@[simp] theorem mergeAll_nil (attributes : List Attribute) : mergeAll attributes [] = attributes :=
  rfl

@[simp] theorem fillPlaceholders_nil (attributes : List Attribute) :
    fillPlaceholders attributes [] = attributes := by
  cases attributes <;> rfl

end Attribute

end QueryLineage
