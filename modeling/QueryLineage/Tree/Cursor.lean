import QueryLineage.Tree.Node

/-!
# Cursors

A position in a run of siblings that moves forward. It may also be set by hand, and then it may
stand behind the last sibling.
-/

namespace QueryLineage

structure Cursor where
  siblings : List Node
  position : Nat := 0

namespace Cursor

def atEnd (cursor : Cursor) : Bool :=
  cursor.siblings.length ≤ cursor.position

def current? (cursor : Cursor) : Option Node :=
  cursor.siblings[cursor.position]?

/-- The sibling that stands `ahead` places behind the current one. -/
def peek? (cursor : Cursor) (ahead : Nat) : Option Node :=
  cursor.siblings[cursor.position + ahead]?

def remaining (cursor : Cursor) : List Node :=
  cursor.siblings.drop cursor.position

/-- The next sibling that is not filler. -/
def peekPast (cursor : Cursor) (filler : Filler) : Option Node :=
  cursor.remaining.find? fun node => !node.isFiller filler

/-- Moves to the next sibling that is not filler. -/
def skip (cursor : Cursor) (filler : Filler) : Cursor :=
  { cursor with
    position := cursor.position + (cursor.remaining.takeWhile (Node.isFiller filler)).length }

/-- Reads the current sibling and moves behind it. -/
def next (cursor : Cursor) : Option Node × Cursor :=
  match cursor.current? with
  | some node => (some node, { cursor with position := cursor.position + 1 })
  | none => (none, cursor)

/-- Reads the next sibling that is not filler and moves behind it. -/
def advance (cursor : Cursor) (filler : Filler) : Option Node × Cursor :=
  (cursor.skip filler).next

def seek (cursor : Cursor) (position : Nat) : Cursor :=
  { cursor with position }

theorem current?_eq_head? (cursor : Cursor) : cursor.current? = cursor.remaining.head? := by
  simp [current?, remaining, List.head?_drop]

end Cursor

end QueryLineage
