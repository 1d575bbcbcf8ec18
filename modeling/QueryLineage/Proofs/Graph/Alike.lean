import Mathlib.Data.List.Forall2
import QueryLineage.Graph.Registry
import QueryLineage.Clause.Fault

/-!
# Registries with the same graph

Two registries have the same graph if their tables agree one by one in everything but the comments
and the sources, which only tell where a table comes from.
-/

namespace QueryLineage

/-- The tables differ at most in their comments and their sources. -/
structure Table.Alike (table other : Table) : Prop where
  id : other.id = table.id
  name : other.name = table.name
  aliases : other.aliases = table.aliases
  attributes : other.attributes = table.attributes
  links : other.links = table.links

/-- The registries have the same graph, and they go on to count in the same way. -/
structure Registry.Alike (registry other : Registry) : Prop where
  tables : List.Forall₂ Table.Alike registry.tables other.tables
  selects : other.selects = registry.selects
  joins : other.joins = registry.joins
  others : other.others = registry.others

/-- What does not look at comments and sources is the same for all tables. -/
theorem Registry.Alike.map_eq {α : Type} {registry other : Registry} (h : registry.Alike other)
    {f : Table → α} (hf : ∀ table moved : Table, table.Alike moved → f moved = f table) :
    other.tables.map f = registry.tables.map f := by
  have htables := h.tables
  generalize registry.tables = tables, other.tables = others at htables
  induction htables with
  | nil => rfl
  | cons hhead _ ih => rw [List.map_cons, List.map_cons, hf _ _ hhead, ih]

/-- Both outcomes are failures, or both are registries with the same graph. -/
def SameGraph : Except LineageError Registry → Except LineageError Registry → Prop
  | .ok registry, .ok other => registry.Alike other
  | .error _, .error _ => True
  | _, _ => False

end QueryLineage
