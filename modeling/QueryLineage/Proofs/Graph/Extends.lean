import QueryLineage.Proofs.Graph.Numbered
import QueryLineage.Proofs.Graph.Sound

/-!
# Registries that only grow

A registry extends an older one if the tables of the older one have kept their places and what
they say. They may have been given aliases, and links to joins that have been made since.
-/

namespace QueryLineage

/-- The table is what the older one was, up to aliases that the older one is not known by and
links that `fresh` allows. Both come behind those that there were. -/
structure Table.Extends (fresh : Nat → Prop) (table older : Table) : Prop where
  id : table.id = older.id
  name : table.name = older.name
  attributes : table.attributes = older.attributes
  comment : table.comment = older.comment
  source : table.source = older.source
  aliases : ∃ added, table.aliases = older.aliases ++ added ∧
    ∀ other ∈ added, older.isKnownAs other = false
  links : ∃ added, table.links = older.links ++ added ∧ ∀ id ∈ added, fresh id

namespace Table.Extends

variable {fresh : Nat → Prop} {table older : Table}

theorem refl (fresh : Nat → Prop) (table : Table) : table.Extends fresh table :=
  ⟨rfl, rfl, rfl, rfl, rfl, ⟨[], by simp⟩, ⟨[], by simp⟩⟩

theorem mono (h : table.Extends fresh older) {weaker : Nat → Prop}
    (hweaker : ∀ id, fresh id → weaker id) : table.Extends weaker older := by
  obtain ⟨added, hlinks, hfresh⟩ := h.links
  exact { h with links := ⟨added, hlinks, fun id hid => hweaker id (hfresh id hid)⟩ }

theorem addAlias (h : table.Extends fresh older) (other : String) :
    (table.addAlias other).Extends fresh older := by
  unfold Table.addAlias
  split
  · next hadmits =>
    obtain ⟨added, haliases, hadded⟩ := h.aliases
    have hunknown : older.isKnownAs other = false := by
      simp only [Table.admits, Table.isKnownAs, h.name, haliases] at hadmits
      simp_all [Table.isKnownAs]
    refine { h with aliases := ⟨added ++ [other], by rw [haliases, List.append_assoc], ?_⟩ }
    intro text htext
    rcases List.mem_append.1 htext with htext | htext
    · exact hadded text htext
    · rwa [List.mem_singleton.1 htext]
  · exact h

theorem link (h : table.Extends fresh older) {target : Nat} (htarget : fresh target) :
    (table.link target).Extends fresh older := by
  unfold Table.link
  split
  · exact h
  · obtain ⟨added, hlinks, hfresh⟩ := h.links
    refine { h with links := ⟨added ++ [target], by rw [hlinks, List.append_assoc], ?_⟩ }
    intro id hid
    rcases List.mem_append.1 hid with hid | hid
    · exact hfresh id hid
    · rwa [List.mem_singleton.1 hid]

end Table.Extends

namespace Registry

/-- The table has been made for a join since the registry was the older one. -/
def JoinedSince (registry older : Registry) (id : Nat) : Prop :=
  older.size ≤ id ∧ ∃ table n, registry.find? id = some table ∧ table.id = id ∧
    table.name = Origin.join.numbered n ∧ older.joins < n ∧ n ≤ registry.joins

/-- The registry is the older one with what has been added since. -/
structure Extends (registry older : Registry) : Prop where
  size : older.size ≤ registry.size
  joins : older.joins ≤ registry.joins
  tables : ∀ i table, older.find? i = some table →
    ∃ later, registry.find? i = some later ∧ later.Extends (registry.JoinedSince older) table

theorem joins_create (registry : Registry) (new : NewTable) :
    registry.joins ≤ (registry.create new).joins := by
  unfold create
  split
  · exact Nat.le_refl _
  · next origin _ => cases origin <;> simp [push, counted]

variable {registry older : Registry}

theorem JoinedSince.create {id : Nat} (h : registry.JoinedSince older id) (new : NewTable) :
    (registry.create new).JoinedSince older id := by
  obtain ⟨hsize, table, n, hfind, hid, hname, hlt, hle⟩ := h
  have hne : id ≠ registry.size := by
    rintro rfl
    rw [find?, size, List.getElem?_eq_none (Nat.le_refl _)] at hfind
    cases hfind
  refine ⟨hsize, table, n, ?_, hid, hname, hlt, Nat.le_trans hle (joins_create registry new)⟩
  rw [find?_create, if_neg hne, hfind]

theorem JoinedSince.modify {id : Nat} (h : registry.JoinedSince older id) (target : Nat)
    {change : Table → Table} (hchange : ∀ table, (change table).id = table.id ∧
      (change table).name = table.name) : (registry.modify target change).JoinedSince older id := by
  obtain ⟨hsize, table, n, hfind, hid, hname, hlt, hle⟩ := h
  by_cases heq : target = id
  · refine ⟨hsize, change table, n, ?_, ?_, ?_, hlt, hle⟩
    · rw [find?_modify, if_pos heq, hfind, Option.map_some]
    · rw [(hchange table).1, hid]
    · rw [(hchange table).2, hname]
  · refine ⟨hsize, table, n, ?_, hid, hname, hlt, hle⟩
    rw [find?_modify, if_neg heq, hfind]

theorem joinedSince_create_join (hsize : older.size ≤ registry.size)
    (hjoins : older.joins ≤ registry.joins) :
    (registry.create { name := .generated .join }).JoinedSince older registry.size := by
  refine ⟨hsize, registry.pushed (registry.generatedName .join) { name := .generated .join },
    registry.joins + 1, ?_, pushed_id _ _ _, ?_, Nat.lt_succ_of_le hjoins, Nat.le_refl _⟩
  · rw [find?_create, if_pos rfl]
    rfl
  · rw [pushed_name, generatedName_eq, Registry.count]

namespace Extends

theorem refl (registry : Registry) : registry.Extends registry :=
  ⟨Nat.le_refl _, Nat.le_refl _, fun _ table hfind => ⟨table, hfind, .refl _ table⟩⟩

theorem create (h : registry.Extends older) (new : NewTable) :
    (registry.create new).Extends older where
  size := by
    rw [size_create]
    exact Nat.le_succ_of_le h.size
  joins := Nat.le_trans h.joins (joins_create registry new)
  tables i table hfind := by
    obtain ⟨later, hlater, hextends⟩ := h.tables i table hfind
    have hlt : i < registry.size := (List.getElem?_eq_some_iff.1 hlater).1
    refine ⟨later, ?_, hextends.mono fun id hid => hid.create new⟩
    rw [find?_create, if_neg (Nat.ne_of_lt hlt), hlater]

/-- A change of one table keeps an extension if it keeps what the older registry says of that
table. -/
theorem modify (h : registry.Extends older) (id : Nat) {change : Table → Table}
    (hsame : ∀ table, (change table).id = table.id ∧ (change table).name = table.name)
    (hchange : ∀ table, older.find? id = some table →
      ∀ later, later.Extends (registry.JoinedSince older) table →
        (change later).Extends (registry.JoinedSince older) table) :
    (registry.modify id change).Extends older where
  size := by
    rw [size_modify]
    exact h.size
  joins := h.joins
  tables i table hfind := by
    obtain ⟨later, hlater, hextends⟩ := h.tables i table hfind
    by_cases heq : id = i
    · subst heq
      refine ⟨change later, ?_, (hchange table hfind later hextends).mono fun _ hid =>
        hid.modify id hsame⟩
      rw [find?_modify, if_pos rfl, hlater, Option.map_some]
    · refine ⟨later, ?_, hextends.mono fun _ hid => hid.modify id hsame⟩
      rw [find?_modify, if_neg heq, hlater]

theorem modify_new (h : registry.Extends older) {id : Nat} (hid : older.size ≤ id)
    {change : Table → Table}
    (hsame : ∀ table, (change table).id = table.id ∧ (change table).name = table.name) :
    (registry.modify id change).Extends older := by
  refine h.modify id hsame fun table hfind => ?_
  have hlt : id < older.size := (List.getElem?_eq_some_iff.1 hfind).1
  exact absurd hid (Nat.not_le_of_lt hlt)

theorem addAlias (h : registry.Extends older) (id : Nat) (other : String) :
    (registry.addAlias id other).Extends older :=
  h.modify id (fun table => ⟨table.id_addAlias other, table.name_addAlias other⟩)
    fun _ _ _ hlater => hlater.addAlias other

theorem link (h : registry.Extends older) {source target : Nat}
    (hlink : older.size ≤ source ∨ registry.JoinedSince older target) :
    (registry.link source target).Extends older := by
  have hsame (table : Table) :
      (table.link target).id = table.id ∧ (table.link target).name = table.name :=
    ⟨table.id_link target, table.name_link target⟩
  unfold Registry.link
  split
  · rcases hlink with hsource | htarget
    · exact h.modify_new hsource hsame
    · exact h.modify source hsame fun _ _ _ hlater => hlater.link htarget
  · exact h

end Extends

end Registry

end QueryLineage
