import QueryLineage.Proofs.Analysis.Wired
import QueryLineage.Proofs.Clause.Named

/-!
# Later ledgers

While one query is worked off, the queries in it are worked off as well, and each of them leaves
what it finds on the ledger as it was: tables stay what they are, and no join that there was gets
another link. So a query can still count on the table that its next join is linked to. No name
that a query gives is that of a join, so what a name stands for is never a join either.
-/

namespace QueryLineage

namespace Ledger

variable {base ledger after : Ledger} {pending : List Nat}

/-- No table of the base becomes another one, no link is lost, and joins are linked to nothing
more. -/
structure Later (base ledger : Ledger) : Prop where
  roles : base.roles <+: ledger.roles
  links : ∀ i j, base.registry.Links i j → ledger.registry.Links i j
  joins : ∀ i, base.roleOf i = some .join →
    ledger.registry.linksOf i = base.registry.linksOf i

theorem roleOf_of_extended (h : base.roles <+: ledger.roles) {id : Nat} {role : Role}
    (hid : base.roleOf id = some role) : ledger.roleOf id = some role := by
  obtain ⟨added, heq⟩ := h
  rw [roleOf, ← heq, List.getElem?_append_left (lt_of_roleOf hid)]
  exact hid

theorem roleOf_eq_of_extended (h : base.roles <+: ledger.roles) {id : Nat}
    (hid : id < base.roles.length) : ledger.roleOf id = base.roleOf id := by
  have hrole : base.roleOf id = some base.roles[id] := List.getElem?_eq_getElem hid
  rw [hrole, roleOf_of_extended h hrole]

theorem IsQuery.later {id : Nat} (h : ledger.IsQuery id) (hlater : Later ledger after) :
    after.IsQuery id := by
  obtain ⟨role, hrole, hquery⟩ := h
  exact ⟨role, roleOf_of_extended hlater.roles hrole, hquery⟩

namespace Later

theorem refl (ledger : Ledger) : Later ledger ledger :=
  ⟨List.prefix_refl _, fun _ _ => id, fun _ _ => rfl⟩

theorem trans (h : Later base ledger) (hlater : Later ledger after) : Later base after where
  roles := h.roles.trans hlater.roles
  links i j hlink := hlater.links i j (h.links i j hlink)
  joins i hi := (hlater.joins i (roleOf_of_extended h.roles hi)).trans (h.joins i hi)

theorem congr (h : Later base ledger) {registry : Registry}
    (hlinks : ∀ id, registry.linksOf id = ledger.registry.linksOf id) :
    Later base { ledger with registry } where
  roles := h.roles
  links i j hlink := by
    rw [Registry.Links, hlinks]
    exact h.links i j hlink
  joins i hi := (hlinks i).trans (h.joins i hi)

theorem created (h : Later base ledger) (role : Role) (new : NewTable) :
    Later base (ledger.created role new) where
  roles := h.roles.trans (List.prefix_append _ _)
  links i j hlink := by
    change j ∈ (ledger.registry.create new).linksOf i
    rw [Registry.linksOf_create]
    exact h.links i j hlink
  joins i hi := (Registry.linksOf_create ledger.registry new i).trans (h.joins i hi)

section

variable {owner source : Nat} (h : Later base ledger) (hwired : Wired (source :: pending) ledger)
include h hwired

theorem sourced (howner : ledger.IsQuery owner) : Later base (ledger.sourced owner source) where
  roles := h.roles
  links i j hlink :=
    (Registry.links_link (hwired.owner_lt howner) hwired.source_lt.1 i j).2
      (.inl (h.links i j hlink))
  joins i hi := by
    have hjoin := roleOf_of_extended h.roles hi
    exact (Registry.linksOf_link_of_ne (Wired.ne_of_isQuery howner hjoin rfl) source).trans
      (h.joins i hi)

/-- What is before a new join is linked to it, so it must not be a join of the base. -/
theorem joined {anchor : Nat} (hanchor : anchor < ledger.registry.size)
    (hnew : base.roleOf anchor ≠ some .join) : Later base (ledger.joined owner anchor source) where
  roles := h.roles.trans (List.prefix_append _ _)
  links i j hlink :=
    (Registry.links_join hanchor hwired.source_lt.1 i j).2 (.inl (h.links i j hlink))
  joins i hi := by
    have hne : i ≠ anchor := by
      rintro rfl
      exact hnew hi
    have hlt : i < ledger.registry.size :=
      hwired.size ▸ lt_of_roleOf (roleOf_of_extended h.roles hi)
    exact (Registry.linksOf_join_of_ne hne (Nat.ne_of_lt hlt) source).trans (h.joins i hi)

end

end Later

/-- Ids are positions, and exactly the tables of joins have the names of joins; they have no other
names. -/
structure Identified (ledger : Ledger) : Prop where
  id : ∀ i table, ledger.registry.find? i = some table → table.id = i
  join : ∀ i table, ledger.registry.find? i = some table →
    (ledger.roleOf i = some .join ↔ ∃ n, table.name = Origin.join.numbered n)
  aliases : ∀ i table, ledger.registry.find? i = some table → ledger.roleOf i = some .join →
    table.aliases = []

/-- What a table is created from tells whether it is a join. -/
structure Suits (role : Role) (new : NewTable) : Prop where
  named : ∀ name, new.name = .named name → Unnumbered name
  join : new.name = .generated .join ↔ role = .join
  alias? : role = .join → new.alias? = none

theorem Suits.generated {origin : Origin} {role : Role} {new : NewTable}
    (hname : new.name = .generated origin) (horigin : origin ≠ .join) (hrole : role ≠ .join) :
    Suits role new where
  named name h := by
    rw [hname] at h
    cases h
  join := by simp [hname, horigin, hrole]
  alias? h := absurd h hrole

theorem Suits.given {name : String} {role : Role} {new : NewTable}
    (hname : new.name = .named name) (hunnumbered : Unnumbered name) (hrole : role ≠ .join) :
    Suits role new where
  named other h := by
    rw [hname] at h
    cases h
    exact hunnumbered
  join := by simp [hname, hrole]
  alias? h := absurd h hrole

namespace Identified

theorem congr (h : Identified ledger) {registry : Registry}
    (hnodes : ∀ i table, registry.find? i = some table → ∃ old, ledger.registry.find? i = some old ∧
      table.id = old.id ∧ table.name = old.name ∧
      (ledger.roleOf i = some .join → table.aliases = old.aliases)) :
    Identified { ledger with registry } where
  id i table hfind := by
    obtain ⟨old, hold, hid, -⟩ := hnodes i table hfind
    rw [hid, h.id i old hold]
  join i table hfind := by
    obtain ⟨old, hold, -, hname, -⟩ := hnodes i table hfind
    rw [hname]
    exact h.join i old hold
  aliases i table hfind hi := by
    obtain ⟨old, hold, -, -, haliases⟩ := hnodes i table hfind
    rw [haliases hi, h.aliases i old hold hi]

/-- Changes of tables that keep their names and aliases are not noticed. -/
theorem modify (h : Identified ledger) (id : Nat) {change : Table → Table}
    (hchange : ∀ table, (change table).id = table.id ∧ (change table).name = table.name)
    (haliases : ledger.roleOf id = some .join → ∀ table, (change table).aliases = table.aliases) :
    Identified { ledger with registry := ledger.registry.modify id change } := by
  refine h.congr fun i table hfind => ?_
  rw [Registry.find?_modify] at hfind
  split at hfind
  · next heq =>
    obtain ⟨old, hold, rfl⟩ := Option.map_eq_some_iff.1 hfind
    exact ⟨old, hold, (hchange old).1, (hchange old).2, fun hi => haliases (heq ▸ hi) old⟩
  · exact ⟨table, hfind, rfl, rfl, fun _ => rfl⟩

theorem link (h : Identified ledger) (source target : Nat) :
    Identified { ledger with registry := ledger.registry.link source target } := by
  unfold Registry.link
  split
  · exact h.modify source (fun table => ⟨table.id_link target, table.name_link target⟩)
      fun _ table => table.aliases_link target
  · exact h

theorem created (h : Identified ledger) (hsize : ledger.roles.length = ledger.registry.size)
    {role : Role} {new : NewTable} (hnew : Suits role new) :
    Identified (ledger.created role new) := by
  have hcreated : ∀ i table, (ledger.created role new).registry.find? i = some table →
      (i = ledger.registry.size ∧
          table = ledger.registry.pushed (ledger.registry.nameGiven new.name) new) ∨
        (i ≠ ledger.registry.size ∧ ledger.registry.find? i = some table) :=
    fun _ _ => Registry.eq_or_find?_of_create
  have hself :
      (ledger.created role new).roleOf ledger.registry.size = some .join ↔ role = .join := by
    rw [roleOf_created hsize, if_pos rfl, Option.some.injEq]
  have hold : ∀ i, i ≠ ledger.registry.size →
      ((ledger.created role new).roleOf i = some .join ↔ ledger.roleOf i = some .join) := by
    intro i hne
    rw [roleOf_created hsize, if_neg hne]
  refine ⟨fun i table hfind => ?_, fun i table hfind => ?_, fun i table hfind hi => ?_⟩
  · rcases hcreated i table hfind with ⟨rfl, rfl⟩ | ⟨-, hfind⟩
    · exact Registry.pushed_id _ _ _
    · exact h.id i table hfind
  · rcases hcreated i table hfind with ⟨rfl, rfl⟩ | ⟨hne, hfind⟩
    · rw [hself, ← hnew.join, Registry.pushed_name]
      cases hname : new.name with
      | named name =>
        refine ⟨by simp, ?_⟩
        rintro ⟨n, hn⟩
        exact absurd hn (hnew.named name hname .join n)
      | generated origin =>
        rw [Registry.nameGiven, Registry.generatedName_eq, TableName.generated.injEq]
        constructor
        · rintro rfl
          exact ⟨_, rfl⟩
        · rintro ⟨n, hn⟩
          by_contra hne
          exact Origin.numbered_ne hne _ _ hn
    · rw [hold i hne]
      exact h.join i table hfind
  · rcases hcreated i table hfind with ⟨rfl, rfl⟩ | ⟨hne, hfind⟩
    · have hnone := hnew.alias? (hself.1 hi)
      simp [Registry.pushed, hnone]
    · exact h.aliases i table hfind ((hold i hne).1 hi)

theorem joined (h : Identified ledger) (hsize : ledger.roles.length = ledger.registry.size)
    (owner anchor source : Nat) : Identified (ledger.joined owner anchor source) := by
  have hsuits : Suits .join { name := .generated .join } := ⟨by simp, by simp, fun _ => rfl⟩
  have hcreated := h.created hsize hsuits
  have hlinked := (hcreated.link anchor ledger.registry.size).link ledger.registry.size source
  exact ⟨hlinked.id, hlinked.join, hlinked.aliases⟩

end Identified

end Ledger

end QueryLineage
