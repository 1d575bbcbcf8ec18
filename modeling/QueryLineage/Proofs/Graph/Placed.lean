import QueryLineage.Proofs.Graph.Numbered
import QueryLineage.Proofs.Graph.Sound

/-!
# Registries inside registries

The tables of one registry may stand in a larger one: behind some other tables, with the numbers
of the `SELECT`s moved, and the first table under another name. Every operation on the registry
can then be followed in the larger one, and looking up a name finds the same table in both, as
long as the name belongs to none of the tables that only one of them knows by it.
-/

namespace QueryLineage

@[simp] theorem Table.source_link (table : Table) (target : Nat) :
    (table.link target).source = table.source := by
  unfold Table.link
  split <;> rfl

/-- How the tables of a registry stand in a larger one: behind the tables `before`, where the numbers
of their `SELECT`s count from `up + 1` instead of `down + 1`. The first of them may have another
name, other aliases and another source there. -/
structure Placing where
  before : List Table
  down : Nat
  up : Nat
  name : String
  aliases : List String
  shows : String → String → Prop

namespace Placing

variable (P : Placing)

def shift : Nat :=
  P.before.length

/-- The two tables say the same, the second in the larger registry, whatever they are called. -/
structure Shares (table other : Table) : Prop where
  id : other.id = table.id + P.shift
  attributes : other.attributes = table.attributes
  comment : other.comment = table.comment
  links : other.links = table.links.map (· + P.shift)

/-- The first table of the registry and the table that it is in the larger one. -/
structure IsFirst (table other : Table) : Prop extends P.Shares table other where
  name : table.name = selectName 1
  aliases : table.aliases = []
  otherName : other.name = P.name
  otherAliases : other.aliases = P.aliases
  source : P.shows table.source other.source

/-- A further table of the registry and the table that it is in the larger one. -/
structure IsCopy (table other : Table) : Prop extends P.Shares table other where
  name : Renumbered P.down P.up table.name other.name
  aliases : other.aliases = table.aliases
  source : other.source = table.source

/-- A name by which the tables before and the first table are not known, nor any `SELECT`. -/
structure Admits (text : String) : Prop where
  before : ∀ table ∈ P.before, table.isKnownAs text = false
  name : P.name ≠ text
  aliases : text ∉ P.aliases
  select : ∀ n, text ≠ selectName n

end Placing

namespace Registry

/-- The tables of the registry stand in the larger one as the placing says. -/
structure Placed (P : Placing) (registry larger : Registry) : Prop where
  size : larger.size = registry.size + P.shift
  before : ∀ i, i < P.shift → larger.find? i = P.before[i]?
  first : ∃ table other, registry.find? 0 = some table ∧ larger.find? P.shift = some other ∧
    table.id = 0 ∧ P.IsFirst table other
  copies : ∀ i table, i ≠ 0 → registry.find? i = some table →
    ∃ other, larger.find? (i + P.shift) = some other ∧ table.id = i ∧ P.IsCopy table other
  selects : ∃ n, registry.selects = n + P.down ∧ larger.selects = n + P.up
  joins : larger.joins = registry.joins
  others : larger.others = registry.others

namespace Placed

variable {P : Placing} {registry larger : Registry}

theorem size_pos (h : Placed P registry larger) : 0 < registry.size := by
  obtain ⟨table, _, hfind, -⟩ := h.first
  exact (List.getElem?_eq_some_iff.1 hfind).1

theorem shares (h : Placed P registry larger) {i : Nat} {table : Table}
    (hfind : registry.find? i = some table) :
    ∃ other, larger.find? (i + P.shift) = some other ∧ table.id = i ∧ P.Shares table other := by
  by_cases hi : i = 0
  · subst hi
    obtain ⟨first, other, hfirst, hother, hid, his⟩ := h.first
    obtain rfl : first = table := Option.some.inj (hfirst.symm.trans hfind)
    exact ⟨other, by rwa [Nat.zero_add], hid, his.toShares⟩
  · obtain ⟨other, hother, hid, his⟩ := h.copies i table hi hfind
    exact ⟨other, hother, hid, his.toShares⟩

theorem find?_eq_none (h : Placed P registry larger) {i : Nat} (hfind : registry.find? i = none) :
    larger.find? (i + P.shift) = none := by
  have hsize : larger.tables.length = registry.tables.length + P.shift := h.size
  have hi : registry.tables.length ≤ i := List.getElem?_eq_none_iff.1 hfind
  exact List.getElem?_eq_none_iff.2 (by omega)

theorem modify (h : Placed P registry larger) (id : Nat) {change changed : Table → Table}
    (hid : ∀ table, (change table).id = table.id)
    (hfirst : id = 0 → ∀ table other, P.IsFirst table other →
      P.IsFirst (change table) (changed other))
    (hcopy : id ≠ 0 → ∀ table other, P.IsCopy table other →
      P.IsCopy (change table) (changed other)) :
    Placed P (registry.modify id change) (larger.modify (id + P.shift) changed) where
  size := by rw [size_modify, size_modify, h.size]
  before i hi := by
    rw [find?_modify, if_neg (by omega)]
    exact h.before i hi
  first := by
    obtain ⟨table, other, htable, hother, hzero, his⟩ := h.first
    by_cases heq : id = 0
    · refine ⟨change table, changed other, ?_, ?_, by rw [hid, hzero], hfirst heq _ _ his⟩
      · rw [find?_modify, if_pos heq, htable, Option.map_some]
      · rw [find?_modify, if_pos (by omega), hother, Option.map_some]
    · refine ⟨table, other, ?_, ?_, hzero, his⟩
      · rw [find?_modify, if_neg heq, htable]
      · rw [find?_modify, if_neg (by omega), hother]
  copies i table hi hfind := by
    rw [find?_modify] at hfind
    by_cases heq : id = i
    · rw [if_pos heq] at hfind
      obtain ⟨old, hold, rfl⟩ := Option.map_eq_some_iff.1 hfind
      obtain ⟨other, hother, hindex, his⟩ := h.copies i old hi hold
      refine ⟨changed other, ?_, by rw [hid, hindex], hcopy (by rwa [heq]) old other his⟩
      rw [find?_modify, if_pos (by omega), hother, Option.map_some]
    · rw [if_neg heq] at hfind
      obtain ⟨other, hother, his⟩ := h.copies i table hi hfind
      refine ⟨other, ?_, his⟩
      rw [find?_modify, if_neg (by omega), hother]
  selects := h.selects
  joins := h.joins
  others := h.others

theorem modify_same (h : Placed P registry larger) (hshows : ∀ source, P.shows source source)
    (id : Nat) (attributes : List Attribute → List Attribute) (source? : Option String) :
    Placed P
      (registry.modify id fun table => { table with
        attributes := attributes table.attributes, source := source?.getD table.source })
      (larger.modify (id + P.shift) fun table => { table with
        attributes := attributes table.attributes, source := source?.getD table.source }) := by
  refine h.modify id (fun table => rfl) ?_ ?_
  · intro _ table other his
    have hsource : P.shows (source?.getD table.source) (source?.getD other.source) := by
      cases source? with
      | none => exact his.source
      | some source => exact hshows source
    exact { his with attributes := congrArg attributes his.attributes, source := hsource }
  · intro _ table other his
    have hsource : source?.getD other.source = source?.getD table.source := by
      rw [his.source]
    exact { his with attributes := congrArg attributes his.attributes, source := hsource }

/-- The first table may get any source if nothing is said about it. -/
theorem modify_source (h : Placed P registry larger)
    (hshows : ∀ source shown, P.shows source shown) (source? shown? : Option String) :
    Placed P
      (registry.modify 0 fun table => { table with source := source?.getD table.source })
      (larger.modify (0 + P.shift) fun table =>
        { table with source := shown?.getD table.source }) := by
  refine h.modify 0 (fun table => rfl) ?_ ?_
  · intro _ table other his
    exact { his with source := hshows _ _ }
  · intro hne
    exact absurd rfl hne

theorem modify_before (h : Placed P registry larger) {id : Nat} (hid : id < P.shift)
    (change : Table → Table) :
    Placed { P with before := P.before.modify id change } registry (larger.modify id change) := by
  have hshift : ({ P with before := P.before.modify id change } : Placing).shift = P.shift := by
    simp [Placing.shift]
  have hother : ∀ i, (larger.modify id change).find? (i + P.shift) = larger.find? (i + P.shift) := by
    intro i
    rw [find?_modify, if_neg (by omega)]
  have hshares : ∀ {table other : Table}, P.Shares table other →
      ({ P with before := P.before.modify id change } : Placing).Shares table other := by
    intro table other his
    exact ⟨by rw [his.id, hshift], his.attributes, his.comment, by rw [his.links, hshift]⟩
  refine ⟨by rw [size_modify, h.size, hshift], ?_, ?_, ?_, h.selects, h.joins, h.others⟩
  · intro i hi
    rw [hshift] at hi
    rw [find?_modify, List.getElem?_modify, h.before i hi]
    split <;> simp
  · obtain ⟨table, other, htable, hfirst, hzero, his⟩ := h.first
    refine ⟨table, other, htable, ?_, hzero, { hshares his.toShares with
      name := his.name
      aliases := his.aliases
      otherName := his.otherName
      otherAliases := his.otherAliases
      source := his.source }⟩
    have hmodify := hother 0
    rw [Nat.zero_add] at hmodify
    rw [hshift, hmodify, hfirst]
  · intro i table hi hfind
    obtain ⟨other, hcopy, hindex, his⟩ := h.copies i table hi hfind
    refine ⟨other, by rw [hshift, hother, hcopy], hindex, { hshares his.toShares with
      name := his.name
      aliases := his.aliases
      source := his.source }⟩

theorem addAlias (h : Placed P registry larger) {id : Nat} (hid : id ≠ 0) {text : String}
    (htext : ∀ n, text ≠ selectName n) :
    Placed P (registry.addAlias id text) (larger.addAlias (id + P.shift) text) := by
  apply h.modify id (fun table => Table.id_addAlias table text)
  · intro heq
    exact absurd heq hid
  · intro _ table other his
    have hadmits : other.admits text = table.admits text := by
      rw [Table.admits, Table.admits, Table.isKnownAs, Table.isKnownAs, his.name.beq_eq htext,
        his.aliases]
    unfold Table.addAlias
    rw [hadmits]
    split
    · exact { his with aliases := by rw [his.aliases] }
    · exact his

theorem link (h : Placed P registry larger) (source target : Nat) :
    Placed P (registry.link source target)
      (larger.link (source + P.shift) (target + P.shift)) := by
  have hlinks : ∀ {table other : Table}, P.Shares table other →
      P.Shares (table.link target) (other.link (target + P.shift)) := by
    intro table other his
    have hcontains : other.links.contains (target + P.shift) = table.links.contains target := by
      rw [his.links, Bool.eq_iff_iff]
      simp
    unfold Table.link
    rw [hcontains]
    split
    · exact his
    · exact { his with links := by simp [his.links] }
  have hsize : target + P.shift < larger.size ↔ target < registry.size := by
    rw [h.size]
    omega
  unfold Registry.link
  by_cases hlt : target < registry.size
  · rw [if_pos hlt, if_pos (hsize.2 hlt)]
    apply h.modify source (fun table => Table.id_link table target)
    · intro _ table other his
      exact { hlinks his.toShares with
        name := by rw [Table.name_link, his.name]
        aliases := by rw [Table.aliases_link, his.aliases]
        otherName := by rw [Table.name_link, his.otherName]
        otherAliases := by rw [Table.aliases_link, his.otherAliases]
        source := by
          rw [Table.source_link, Table.source_link]
          exact his.source }
    · intro _ table other his
      exact { hlinks his.toShares with
        name := by
          rw [Table.name_link, Table.name_link]
          exact his.name
        aliases := by rw [Table.aliases_link, Table.aliases_link, his.aliases]
        source := by rw [Table.source_link, Table.source_link, his.source] }
  · rw [if_neg hlt, if_neg (fun h => hlt (hsize.1 h))]
    exact h

theorem isCopy_pushed (hsize : larger.size = registry.size + P.shift) {name other : String}
    {new : NewTable} (hname : Renumbered P.down P.up name other)
    (halias : ∀ text ∈ new.alias?, ∀ n, text ≠ selectName n) :
    P.IsCopy (registry.pushed name new) (larger.pushed other new) where
  id := by rw [pushed_id, pushed_id, hsize]
  attributes := rfl
  comment := rfl
  links := by cases h : new.alias? <;> simp [pushed, h]
  name := by rwa [pushed_name, pushed_name]
  aliases := by
    cases h : new.alias? with
    | none => simp [pushed, h]
    | some text =>
      rw [pushed_aliases h, pushed_aliases h]
      unfold Table.addAlias Table.admits Table.isKnownAs
      dsimp only
      rw [hname.beq_eq (halias text h)]
      split <;> rfl
  source := rfl

/-- A table under one name in the registry and under another in the larger one. -/
theorem push (h : Placed P registry larger) {name other : String} {new : NewTable}
    (hname : Renumbered P.down P.up name other)
    (halias : ∀ text ∈ new.alias?, ∀ n, text ≠ selectName n) :
    Placed P (registry.push name new) (larger.push other new) where
  size := by
    have hsize := h.size
    simp only [Registry.size, tables_push, List.length_append, List.length_singleton] at hsize ⊢
    omega
  before i hi := by
    have hsize := h.size
    rw [find?_push, if_neg (by omega)]
    exact h.before i hi
  first := by
    obtain ⟨table, first, htable, hfirst, his⟩ := h.first
    have hsize := h.size
    have hpos := h.size_pos
    refine ⟨table, first, ?_, ?_, his⟩
    · rw [find?_push, if_neg (by omega), htable]
    · rw [find?_push, if_neg (by omega), hfirst]
  copies i table hi hfind := by
    rw [find?_push] at hfind
    by_cases heq : i = registry.size
    · rw [if_pos heq] at hfind
      obtain rfl := Option.some.inj hfind
      refine ⟨_, ?_, by rw [pushed_id, heq], isCopy_pushed h.size hname halias⟩
      rw [find?_push, if_pos (by rw [h.size, heq])]
    · rw [if_neg heq] at hfind
      have hsize := h.size
      obtain ⟨copy, hcopy, his⟩ := h.copies i table hi hfind
      refine ⟨copy, ?_, his⟩
      rw [find?_push, if_neg (by omega), hcopy]
  selects := h.selects
  joins := h.joins
  others := h.others

theorem counted (h : Placed P registry larger) (origin : Origin) :
    Placed P (registry.counted origin) (larger.counted origin) := by
  obtain ⟨n, hselects, hlarger⟩ := h.selects
  cases origin with
  | select =>
    refine { h with selects := ⟨n + 1, ?_, ?_⟩ }
    · simp only [Registry.counted, hselects]
      omega
    · simp only [Registry.counted, hlarger]
      omega
  | join => exact { h with joins := congrArg (· + 1) h.joins }
  | table => exact { h with others := congrArg (· + 1) h.others }

theorem renumbered_generatedName (h : Placed P registry larger) (origin : Origin) :
    Renumbered P.down P.up (registry.generatedName origin) (larger.generatedName origin) := by
  cases origin with
  | select =>
    obtain ⟨n, hselects, hlarger⟩ := h.selects
    have hname : registry.selects + 1 = n + 1 + P.down := by omega
    have hother : larger.selects + 1 = n + 1 + P.up := by omega
    rw [generatedName_select, generatedName_select, hname, hother]
    exact .select n
  | join =>
    have hname : larger.generatedName .join = registry.generatedName .join := by
      simp only [generatedName, count, h.joins]
    rw [hname]
    exact .same (generatedName_ne_selectName (by simp) registry)
  | table =>
    have hname : larger.generatedName .table = registry.generatedName .table := by
      simp only [generatedName, count, h.others]
    rw [hname]
    exact .same (generatedName_ne_selectName (by simp) registry)

/-- A new table is placed like the others, if neither its name nor its alias could be mistaken for
a generated one. -/
theorem create (h : Placed P registry larger) {new : NewTable}
    (hname : ∀ name, new.name = .named name → ∀ n, name ≠ selectName n)
    (halias : ∀ text ∈ new.alias?, ∀ n, text ≠ selectName n) :
    Placed P (registry.create new) (larger.create new) := by
  unfold Registry.create
  cases hnew : new.name with
  | named name => exact h.push (.same (hname name hnew)) halias
  | generated origin =>
    exact (h.counted origin).push (h.renumbered_generatedName origin) halias

theorem find?_of_forall {α β : Type} {p : α → Bool} {q : β → Bool} {xs : List α} {ys : List β}
    (hlength : ys.length = xs.length)
    (h : ∀ (i : Nat) (x : α) (y : β), xs[i]? = some x → ys[i]? = some y → q y = p x) :
    (xs.find? p = none ∧ ys.find? q = none) ∨
      ∃ (i : Nat) (x : α) (y : β), xs[i]? = some x ∧ ys[i]? = some y ∧ p x = true ∧ xs.find? p = some x ∧
        ys.find? q = some y := by
  induction xs generalizing ys with
  | nil =>
    obtain rfl := List.length_eq_zero_iff.1 hlength
    exact .inl ⟨rfl, rfl⟩
  | cons x xs ih =>
    cases ys with
    | nil => cases hlength
    | cons y ys =>
      have hhead : q y = p x := h 0 x y rfl rfl
      by_cases hx : p x = true
      · exact .inr ⟨0, x, y, rfl, rfl, hx, List.find?_cons_of_pos hx,
          List.find?_cons_of_pos (by rw [hhead, hx])⟩
      · rw [List.find?_cons_of_neg hx, List.find?_cons_of_neg (by rwa [hhead])]
        rcases ih (Nat.succ.inj hlength) fun i => h (i + 1) with hnone | ⟨i, hfound⟩
        · exact .inl hnone
        · exact .inr ⟨i + 1, hfound⟩

/-- A name that is admitted finds the same table in both registries, which is never the first. -/
theorem findKnownAs? (h : Placed P registry larger) {text : String} (htext : P.Admits text) :
    (registry.findKnownAs? text = none ∧ larger.findKnownAs? text = none) ∨
      ∃ table other, registry.findKnownAs? text = some table ∧
        larger.findKnownAs? text = some other ∧ table.id ≠ 0 ∧ other.id = table.id + P.shift := by
  have hsize : larger.tables.length = registry.tables.length + P.shift := h.size
  have hbefore : larger.tables.take P.shift = P.before := by
    apply List.ext_getElem?
    intro i
    rw [List.getElem?_take]
    split
    · next hi => exact h.before i hi
    · next hi => rw [List.getElem?_eq_none (Nat.le_of_not_lt hi)]
  have hfind : larger.findKnownAs? text = (larger.tables.drop P.shift).find? (·.isKnownAs text) := by
    have hnone : P.before.find? (·.isKnownAs text) = none := by
      rw [List.find?_eq_none]
      intro table htable
      simp [htext.before table htable]
    rw [Registry.findKnownAs?, ← List.take_append_drop P.shift larger.tables, List.find?_append,
      hbefore, hnone, Option.none_or, ← hbefore, List.take_append_drop]
  have hpointwise : ∀ (i : Nat) (table other : Table), registry.tables[i]? = some table →
      (larger.tables.drop P.shift)[i]? = some other →
      other.isKnownAs text = table.isKnownAs text ∧
        (table.isKnownAs text = true → table.id ≠ 0 ∧ other.id = table.id + P.shift) := by
    intro i table other htable hother
    rw [List.getElem?_drop, Nat.add_comm] at hother
    by_cases hi : i = 0
    · subst hi
      obtain ⟨first, moved, hfirst, hmoved, -, his⟩ := h.first
      rw [Nat.zero_add] at hother
      obtain rfl : first = table := Option.some.inj (hfirst.symm.trans htable)
      obtain rfl : moved = other := Option.some.inj (hmoved.symm.trans hother)
      have hunknown : first.isKnownAs text = false := by
        simp [Table.isKnownAs, his.name, his.aliases, (htext.select 1).symm]
      have hmovedUnknown : moved.isKnownAs text = false := by
        simp [Table.isKnownAs, his.otherName, his.otherAliases, htext.name, htext.aliases]
      rw [hunknown, hmovedUnknown]
      exact ⟨rfl, by simp⟩
    · obtain ⟨moved, hmoved, hid, his⟩ := h.copies i table hi htable
      obtain rfl : moved = other := Option.some.inj (hmoved.symm.trans hother)
      refine ⟨?_, fun _ => ⟨by rwa [hid], his.id⟩⟩
      rw [Table.isKnownAs, Table.isKnownAs, his.name.beq_eq htext.select, his.aliases]
  rw [hfind, Registry.findKnownAs?]
  rcases find?_of_forall (by rw [List.length_drop]; omega)
    fun i table other htable hother => (hpointwise i table other htable hother).1 with
    hnone | ⟨i, table, other, htable, hother, hknown, hfound, hmoved⟩
  · exact .inl hnone
  · have hids := (hpointwise i table other htable hother).2 hknown
    exact .inr ⟨table, other, hfound, hmoved, hids⟩

end Placed

end Registry

end QueryLineage
