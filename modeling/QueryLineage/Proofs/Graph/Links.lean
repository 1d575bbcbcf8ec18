import Mathlib.Logic.Relation
import QueryLineage.Proofs.Graph.Sound

/-!
# Following links

The links of a registry as a relation between ids, and the paths along them. Of all that is done to
a registry only linking changes them, and a path that there is remains. So do the names of tables.
-/

namespace QueryLineage.Registry

variable (registry : Registry)

/-- What the table is linked to; a table that does not exist is linked to nothing. -/
def linksOf (id : Nat) : List Nat :=
  ((registry.find? id).map Table.links).getD []

def Links (source target : Nat) : Prop :=
  target ∈ registry.linksOf source

/-- Some links lead from the first table to the second. -/
def Reaches : Nat → Nat → Prop :=
  Relation.TransGen registry.Links

variable {registry}

theorem linksOf_eq {id : Nat} {table : Table} (h : registry.find? id = some table) :
    registry.linksOf id = table.links := by
  rw [linksOf, h]
  rfl

theorem linksOf_eq_nil {id : Nat} (h : registry.size ≤ id) : registry.linksOf id = [] := by
  rw [linksOf, find?, List.getElem?_eq_none h]
  rfl

theorem Reaches.mono {source target : Nat} (h : registry.Reaches source target)
    {other : Registry} (hlinks : ∀ i j, registry.Links i j → other.Links i j) :
    other.Reaches source target :=
  Relation.TransGen.mono hlinks _ _ h

theorem linksOf_create (registry : Registry) (new : NewTable) (id : Nat) :
    (registry.create new).linksOf id = registry.linksOf id := by
  by_cases h : id = registry.size
  · rw [linksOf_eq_nil (Nat.le_of_eq h.symm), linksOf, find?_create, if_pos h]
    cases halias : new.alias? <;> simp [pushed, halias]
  · rw [linksOf, linksOf, find?_create, if_neg h]

theorem linksOf_modify {change : Table → Table} (h : ∀ table, (change table).links = table.links)
    (registry : Registry) (id other : Nat) :
    (registry.modify id change).linksOf other = registry.linksOf other := by
  rw [linksOf, linksOf, find?_modify]
  split
  · cases registry.find? other with
    | none => rfl
    | some table => exact h table
  · rfl

section

variable {source target : Nat} (hsource : source < registry.size) (htarget : target < registry.size)
include hsource htarget

theorem find?_link_source : ∃ table, registry.find? source = some table ∧
    (registry.link source target).find? source = some (table.link target) := by
  refine ⟨registry.tables[source], List.getElem?_eq_getElem hsource, ?_⟩
  rw [Registry.link, if_pos htarget, find?_modify, if_pos rfl, find?,
    List.getElem?_eq_getElem hsource, Option.map_some]

theorem links_link (i j : Nat) : (registry.link source target).Links i j ↔
    registry.Links i j ∨ i = source ∧ j = target := by
  by_cases h : i = source
  · subst h
    obtain ⟨table, hfind, hlinked⟩ := find?_link_source hsource htarget
    rw [Links, Links, linksOf_eq hfind, linksOf_eq hlinked, Table.mem_links_link]
    simp
  · rw [Links, linksOf, Registry.link, if_pos htarget, find?_modify, if_neg (Ne.symm h)]
    simp [Links, linksOf, h]

theorem linksOf_link_self (hnew : ¬ registry.Links source target) :
    (registry.link source target).linksOf source = registry.linksOf source ++ [target] := by
  obtain ⟨table, hfind, hlinked⟩ := find?_link_source hsource htarget
  rw [Links, linksOf_eq hfind] at hnew
  rw [linksOf_eq hfind, linksOf_eq hlinked, Table.link, if_neg (by simpa using hnew)]

end

theorem linksOf_link_of_ne {source id : Nat} (h : id ≠ source) (target : Nat) :
    (registry.link source target).linksOf id = registry.linksOf id := by
  unfold Registry.link
  split
  · rw [linksOf, find?_modify, if_neg (Ne.symm h), linksOf]
  · rfl

/-- The second registry has the nodes of the first, whatever they say about their columns, and has
counted as many names. -/
structure SameNodes (registry other : Registry) : Prop where
  size : other.size = registry.size
  count : ∀ origin, other.count origin = registry.count origin
  node : ∀ i table, other.find? i = some table →
    ∃ old, registry.find? i = some old ∧ old.SameNode table

theorem SameNodes.refl (registry : Registry) : registry.SameNodes registry where
  size := rfl
  count _ := rfl
  node _ table hfind := ⟨table, hfind, rfl, rfl, rfl, rfl⟩

theorem SameNodes.modify {other : Registry} (h : registry.SameNodes other) (id : Nat)
    {change : Table → Table} (same : ∀ table : Table, table.SameNode (change table)) :
    registry.SameNodes (other.modify id change) where
  size := by rw [size_modify, h.size]
  count origin := (count_modify other id change origin).trans (h.count origin)
  node i table hfind := by
    rw [find?_modify] at hfind
    split at hfind
    · obtain ⟨middle, hmiddle, rfl⟩ := Option.map_eq_some_iff.1 hfind
      obtain ⟨old, hold, hsame⟩ := h.node i middle hmiddle
      have hchange := same middle
      exact ⟨old, hold, hchange.id.trans hsame.id, hchange.name.trans hsame.name,
        hchange.aliases.trans hsame.aliases, hchange.links.trans hsame.links⟩
    · exact h.node i table hfind

theorem SameNodes.linksOf {other : Registry} (h : registry.SameNodes other) (id : Nat) :
    other.linksOf id = registry.linksOf id := by
  cases hfind : other.find? id with
  | none =>
    have hsize : other.size ≤ id := List.getElem?_eq_none_iff.1 hfind
    rw [linksOf_eq_nil hsize, linksOf_eq_nil (h.size ▸ hsize)]
  | some table =>
    obtain ⟨old, hold, hsame⟩ := h.node id table hfind
    rw [linksOf_eq hfind, linksOf_eq hold, hsame.links]

/-- The registry with a new join between what is before it and the source that it joins. -/
def join (registry : Registry) (anchor source : Nat) : Registry :=
  ((registry.create { name := .generated .join }).link anchor registry.size).link registry.size source

@[simp] theorem size_join (registry : Registry) (anchor source : Nat) :
    (registry.join anchor source).size = registry.size + 1 := by
  simp [join]

theorem linksOf_join_of_ne {anchor id : Nat} (hanchor : id ≠ anchor) (hjoin : id ≠ registry.size)
    (source : Nat) : (registry.join anchor source).linksOf id = registry.linksOf id := by
  rw [join, linksOf_link_of_ne hjoin, linksOf_link_of_ne hanchor, linksOf_create]

section

variable {anchor source : Nat} (hanchor : anchor < registry.size) (hsource : source < registry.size)
include hanchor

theorem linksOf_join_anchor (hbelow : ¬ registry.Links anchor registry.size) :
    (registry.join anchor source).linksOf anchor = registry.linksOf anchor ++ [registry.size] := by
  have hcreated := linksOf_create registry { name := .generated .join } anchor
  rw [join, linksOf_link_of_ne (Nat.ne_of_lt hanchor), linksOf_link_self, hcreated]
  · rw [size_create]
    exact Nat.lt_succ_of_lt hanchor
  · rw [size_create]
    exact Nat.lt_succ_self _
  · rwa [Links, hcreated]

include hsource

/-- Of the joins there were, none is linked to more than before, unless it is before the new one. -/
theorem links_join (i j : Nat) : (registry.join anchor source).Links i j ↔
    registry.Links i j ∨ i = anchor ∧ j = registry.size ∨ i = registry.size ∧ j = source := by
  rw [join, links_link, links_link, Links, linksOf_create, or_assoc]
  · rfl
  all_goals simp
  all_goals omega

theorem linksOf_join_self : (registry.join anchor source).linksOf registry.size = [source] := by
  have hnone : ((registry.create { name := .generated .join }).link anchor registry.size).linksOf
      registry.size = [] := by
    rw [linksOf_link_of_ne (Nat.ne_of_gt hanchor), linksOf_create, linksOf_eq_nil (Nat.le_refl _)]
  rw [join, linksOf_link_self, hnone, List.nil_append]
  · simp
  · simp only [size_link, size_create]
    omega
  · rw [Links, hnone]
    exact List.not_mem_nil

end

/-- The registry is a later one: the tables of the older one keep their places and names, and their
links remain. -/
def Retains (registry older : Registry) : Prop :=
  ∀ i table, older.find? i = some table → ∃ later, registry.find? i = some later ∧
    later.name = table.name ∧ ∀ target ∈ table.links, target ∈ later.links

namespace Retains

variable {older : Registry}

theorem refl (registry : Registry) : registry.Retains registry :=
  fun _ table hfind => ⟨table, hfind, rfl, fun _ => id⟩

theorem trans {later : Registry} (h : registry.Retains older) (hlater : later.Retains registry) :
    later.Retains older := by
  intro i table hfind
  obtain ⟨middle, hmiddle, hname, hlinks⟩ := h i table hfind
  obtain ⟨last, hlast, hlastName, hlastLinks⟩ := hlater i middle hmiddle
  exact ⟨last, hlast, hlastName.trans hname, fun target htarget =>
    hlastLinks target (hlinks target htarget)⟩

theorem links (h : registry.Retains older) {i j : Nat} (hlink : older.Links i j) :
    registry.Links i j := by
  cases hfind : older.find? i with
  | none => simp [Links, linksOf, hfind] at hlink
  | some table =>
    obtain ⟨later, hlater, -, hlinks⟩ := h i table hfind
    rw [Links, linksOf_eq hfind] at hlink
    rw [Links, linksOf_eq hlater]
    exact hlinks j hlink

theorem create (registry : Registry) (new : NewTable) : (registry.create new).Retains registry := by
  intro i table hfind
  have hlt : i < registry.size := (List.getElem?_eq_some_iff.1 hfind).1
  refine ⟨table, ?_, rfl, fun _ => id⟩
  rw [find?_create, if_neg (Nat.ne_of_lt hlt), hfind]

theorem modify (registry : Registry) (id : Nat) {change : Table → Table}
    (hchange : ∀ table, (change table).name = table.name ∧
      ∀ target ∈ table.links, target ∈ (change table).links) :
    (registry.modify id change).Retains registry := by
  intro i table hfind
  rw [find?_modify, hfind]
  split
  · exact ⟨change table, rfl, hchange table⟩
  · exact ⟨table, rfl, rfl, fun _ hother => hother⟩

theorem link (registry : Registry) (source target : Nat) :
    (registry.link source target).Retains registry := by
  unfold Registry.link
  split
  · exact modify registry source fun table => ⟨table.name_link target, fun other hother =>
      (table.mem_links_link target other).2 (.inl hother)⟩
  · exact refl registry

/-- Whatever is done to a registry makes it a later one. -/
theorem apply (registry : Registry) (operation : Operation) :
    (operation.apply registry).Retains registry := by
  cases operation with
  | create new => exact create registry new
  | link source target => exact link registry source target
  | addAlias id other =>
    exact modify registry id fun table => ⟨table.name_addAlias other, by simp⟩
  | updateAttributes id attributes => exact modify registry id fun _ => ⟨rfl, fun _ hother => hother⟩
  | edit id change same =>
    exact modify registry id fun table => ⟨(same table).name, by simp [(same table).links]⟩

theorem perform (registry : Registry) (operations : List Operation) :
    (registry.perform operations).Retains registry := by
  induction operations generalizing registry with
  | nil => exact refl registry
  | cons operation operations ih =>
    exact (apply registry operation).trans (ih (operation.apply registry))

end Retains

end QueryLineage.Registry
