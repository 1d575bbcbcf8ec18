import Mathlib.Data.List.Nodup
import QueryLineage.Graph.Report

/-!
# Sound registries

A registry is changed by a few operations only. After any number of them, in any order and with
any arguments, ids are positions, generated names count the tables of their origin, aliases are
proper names that do not repeat, and links lead to tables of the registry. A report then has a
name for every link.
-/

namespace QueryLineage

namespace Table

/-- Another version of the same node of the graph: what identifies it and what it is linked to are
the same, whatever it says about its columns. -/
structure SameNode (table other : Table) : Prop where
  id : other.id = table.id
  name : other.name = table.name
  aliases : other.aliases = table.aliases
  links : other.links = table.links

/-- The aliases of the table are not empty, differ from its name and do not repeat. -/
def ProperAliases (table : Table) : Prop :=
  "" ∉ table.aliases ∧ table.name ∉ table.aliases ∧ table.aliases.Nodup

/-- The links of the table do not repeat and lead to one of the first `size` tables. -/
def LinksBelow (table : Table) (size : Nat) : Prop :=
  table.links.Nodup ∧ ∀ target ∈ table.links, target < size

theorem properAliases_addAlias {table : Table} (h : table.ProperAliases) (other : String) :
    (table.addAlias other).ProperAliases := by
  obtain ⟨hempty, hname, hnodup⟩ := h
  unfold addAlias
  split
  · next hadmits =>
    simp only [admits, isKnownAs, Bool.and_eq_true, Bool.not_eq_true', Bool.or_eq_false_iff,
      beq_eq_false_iff_ne, List.contains_eq_mem, decide_eq_false_iff_not] at hadmits
    obtain ⟨hother, hne, hnew⟩ := hadmits
    refine ⟨?_, ?_, ?_⟩
    · have hnonempty : "" ≠ other := by
        rintro rfl
        simp at hother
      simp [hempty, hnonempty]
    · simp [hname, hne]
    · exact hnodup.append (List.nodup_singleton other) (List.disjoint_singleton.2 hnew)
  · exact ⟨hempty, hname, hnodup⟩

@[simp] theorem links_addAlias (table : Table) (other : String) :
    (table.addAlias other).links = table.links := by
  unfold addAlias
  split <;> rfl

@[simp] theorem aliases_link (table : Table) (target : Nat) :
    (table.link target).aliases = table.aliases := by
  unfold link
  split <;> rfl

theorem isKnownAs_link (table : Table) (target : Nat) (name : String) :
    (table.link target).isKnownAs name = table.isKnownAs name := by
  unfold link
  split <;> rfl

theorem linksBelow_link {table : Table} {size target : Nat} (h : table.LinksBelow size)
    (htarget : target < size) : (table.link target).LinksBelow size := by
  refine ⟨?_, fun id hid => ?_⟩
  · unfold link
    split
    · exact h.1
    · next hnew =>
      have hfresh : target ∉ table.links := by simpa using hnew
      exact h.1.append (List.nodup_singleton target) (List.disjoint_singleton.2 hfresh)
  · rcases (mem_links_link table target id).1 hid with hid | rfl
    · exact h.2 id hid
    · exact htarget

end Table

namespace Registry

/-- What is done to a registry. An edit concerns what a table says about its columns, its comment
or its source. -/
inductive Operation where
  | create (new : NewTable)
  | link (source target : Nat)
  | addAlias (id : Nat) (other : String)
  | updateAttributes (id : Nat) (attributes : List Attribute)
  | edit (id : Nat) (change : Table → Table) (same : ∀ table : Table, table.SameNode (change table))

def Operation.apply (registry : Registry) : Operation → Registry
  | create new => registry.create new
  | link source target => registry.link source target
  | addAlias id other => registry.addAlias id other
  | updateAttributes id attributes => registry.modify id (·.updateAttributes attributes)
  | edit id change _ => registry.modify id change

def Operation.created? : Operation → Option TableName
  | create new => some new.name
  | link _ _ | addAlias _ _ | updateAttributes _ _ | edit _ _ _ => none

def perform (registry : Registry) (operations : List Operation) : Registry :=
  operations.foldl Operation.apply registry

@[simp] theorem perform_nil (registry : Registry) : registry.perform [] = registry := rfl

@[simp] theorem perform_cons (registry : Registry) (operation : Operation)
    (operations : List Operation) :
    registry.perform (operation :: operations) =
      (operation.apply registry).perform operations := rfl

theorem perform_append (registry : Registry) (first second : List Operation) :
    registry.perform (first ++ second) = (registry.perform first).perform second :=
  List.foldl_append

/-- The registry is what its tables were created from: `created` lists, in the order of creation,
the name that each table was given or the origin for which a name was generated. The `k`-th table
of an origin bears the number `k`, whatever was created in between. -/
structure Sound (registry : Registry) (created : List TableName) : Prop where
  size : created.length = registry.size
  count : ∀ origin, registry.count origin = created.count (.generated origin)
  id : ∀ i table, registry.find? i = some table → table.id = i
  named : ∀ i table name, registry.find? i = some table → created[i]? = some (.named name) →
    table.name = name
  generated : ∀ i table origin, registry.find? i = some table →
    created[i]? = some (.generated origin) →
    table.name = s!"{origin.word}-{(created.take (i + 1)).count (.generated origin)}"
  aliases : ∀ i table, registry.find? i = some table → table.ProperAliases
  links : ∀ i table, registry.find? i = some table → table.LinksBelow registry.size

theorem sound_empty : Sound empty [] where
  size := rfl
  count origin := by cases origin <;> rfl
  id i table h := by simp [empty, find?] at h
  named i table name h := by simp [empty, find?] at h
  generated i table origin h := by simp [empty, find?] at h
  aliases i table h := by simp [empty, find?] at h
  links i table h := by simp [empty, find?] at h

theorem Sound.modify {registry : Registry} {created : List TableName} {id : Nat}
    {change : Table → Table} (h : registry.Sound created)
    (hchange : ∀ table, registry.find? id = some table →
      (change table).id = table.id ∧ (change table).name = table.name ∧
        (change table).ProperAliases ∧ (change table).LinksBelow registry.size) :
    (registry.modify id change).Sound created := by
  have hfind : ∀ i table, (registry.modify id change).find? i = some table →
      ∃ old, registry.find? i = some old ∧ table.id = old.id ∧ table.name = old.name ∧
        table.ProperAliases ∧ table.LinksBelow registry.size := by
    intro i table htable
    rw [find?_modify] at htable
    split at htable
    · next heq =>
      obtain ⟨old, hold, rfl⟩ := Option.map_eq_some_iff.1 htable
      exact ⟨old, hold, hchange old (heq ▸ hold)⟩
    · exact ⟨table, htable, rfl, rfl, h.aliases i table htable, h.links i table htable⟩
  refine ⟨by rw [size_modify, h.size], fun origin => ?_, ?_, ?_, ?_, ?_, ?_⟩
  · rw [← h.count origin]
    cases origin <;> rfl
  · intro i table htable
    obtain ⟨old, hold, hid, -⟩ := hfind i table htable
    rw [hid, h.id i old hold]
  · intro i table name htable hcreated
    obtain ⟨old, hold, -, hname, -⟩ := hfind i table htable
    rw [hname, h.named i old name hold hcreated]
  · intro i table origin htable hcreated
    obtain ⟨old, hold, -, hname, -⟩ := hfind i table htable
    rw [hname, h.generated i old origin hold hcreated]
  · intro i table htable
    obtain ⟨_, _, _, _, haliases, _⟩ := hfind i table htable
    exact haliases
  · intro i table htable
    obtain ⟨_, _, _, _, _, hlinks⟩ := hfind i table htable
    rw [size_modify]
    exact hlinks

theorem Sound.edit {registry : Registry} {created : List TableName} (h : registry.Sound created)
    (id : Nat) {change : Table → Table} (same : ∀ table : Table, table.SameNode (change table)) :
    (registry.modify id change).Sound created := by
  apply h.modify
  intro table htable
  have hsame := same table
  refine ⟨hsame.id, hsame.name, ?_, ?_⟩
  · rw [Table.ProperAliases, hsame.aliases, hsame.name]
    exact h.aliases id table htable
  · rw [Table.LinksBelow, hsame.links]
    exact h.links id table htable

theorem Sound.addAlias {registry : Registry} {created : List TableName}
    (h : registry.Sound created) (id : Nat) (other : String) :
    (registry.addAlias id other).Sound created := by
  apply h.modify
  intro table htable
  refine ⟨Table.id_addAlias table other, Table.name_addAlias table other,
    Table.properAliases_addAlias (h.aliases id table htable) other, ?_⟩
  rw [Table.LinksBelow, Table.links_addAlias]
  exact h.links id table htable

theorem Sound.link {registry : Registry} {created : List TableName} (h : registry.Sound created)
    (source target : Nat) : (registry.link source target).Sound created := by
  unfold Registry.link
  split
  · next htarget =>
    apply h.modify
    intro table htable
    refine ⟨Table.id_link table target, Table.name_link table target, ?_,
      Table.linksBelow_link (h.links source table htable) htarget⟩
    rw [Table.ProperAliases, Table.aliases_link, Table.name_link]
    exact h.aliases source table htable
  · exact h

def pushed (registry : Registry) (name : String) (new : NewTable) : Table :=
  let table : Table := { id := registry.size, name }
  { new.alias?.elim table table.addAlias with
    attributes := new.attributes, comment := new.comment, source := new.source }

theorem tables_push (registry : Registry) (name : String) (new : NewTable) :
    (registry.push name new).tables = registry.tables ++ [registry.pushed name new] := rfl

theorem find?_push (registry : Registry) (name : String) (new : NewTable) (i : Nat) :
    (registry.push name new).find? i =
      if i = registry.size then some (registry.pushed name new) else registry.find? i := by
  rw [find?, tables_push, find?, size, List.getElem?_append]
  split
  · next h => rw [if_neg (Nat.ne_of_lt h)]
  · next h =>
    split
    · next heq => simp [heq]
    · next hne =>
      rw [List.getElem?_eq_none (by simp; omega), List.getElem?_eq_none (by omega)]

theorem pushed_id (registry : Registry) (name : String) (new : NewTable) :
    (registry.pushed name new).id = registry.size := by
  cases h : new.alias? <;> simp [pushed, h]

theorem pushed_name (registry : Registry) (name : String) (new : NewTable) :
    (registry.pushed name new).name = name := by
  cases h : new.alias? <;> simp [pushed, h]

theorem pushed_aliases {new : NewTable} {other : String} (h : new.alias? = some other)
    (registry : Registry) (name : String) :
    (registry.pushed name new).aliases =
      (Table.addAlias { id := registry.size, name } other).aliases := by
  simp [pushed, h]

theorem mem_aliases_pushed {registry : Registry} {name other : String} {new : NewTable}
    (h : other ∈ (registry.pushed name new).aliases) : other ∈ new.alias? := by
  cases halias : new.alias? with
  | none => simp [pushed, halias] at h
  | some shown =>
    rw [pushed_aliases halias, Table.addAlias] at h
    split at h
    · rw [List.mem_singleton.1 h]
      rfl
    · simp at h

def nameGiven (registry : Registry) : TableName → String
  | .named name => name
  | .generated origin => registry.generatedName origin

theorem find?_create (registry : Registry) (new : NewTable) (i : Nat) :
    (registry.create new).find? i =
      if i = registry.size then some (registry.pushed (registry.nameGiven new.name) new)
      else registry.find? i := by
  unfold create
  split
  · next name hname =>
    rw [hname]
    exact find?_push registry name new i
  · next origin hname =>
    rw [hname]
    cases origin <;> exact find?_push _ _ new i

theorem exists_find?_create_size (registry : Registry) (new : NewTable) :
    ∃ table, (registry.create new).find? registry.size = some table ∧
      table.name = registry.nameGiven new.name :=
  ⟨_, (find?_create registry new _).trans (if_pos rfl), pushed_name registry _ new⟩

theorem eq_or_find?_of_create {registry : Registry} {new : NewTable} {i : Nat} {table : Table}
    (h : (registry.create new).find? i = some table) :
    (i = registry.size ∧ table = registry.pushed (registry.nameGiven new.name) new) ∨
      (i ≠ registry.size ∧ registry.find? i = some table) := by
  rw [find?_create] at h
  split at h
  · next heq => exact .inl ⟨heq, (Option.some.inj h).symm⟩
  · next hne => exact .inr ⟨hne, h⟩

theorem properAliases_pushed (registry : Registry) (name : String) (new : NewTable) :
    (registry.pushed name new).ProperAliases := by
  have hbare : Table.ProperAliases { id := registry.size, name } := by simp [Table.ProperAliases]
  cases h : new.alias? with
  | none => simp [pushed, h, Table.ProperAliases]
  | some other =>
    have hadded := Table.properAliases_addAlias hbare other
    rw [Table.ProperAliases, Table.name_addAlias] at hadded
    rw [Table.ProperAliases, pushed_name, pushed_aliases h]
    exact hadded

theorem linksBelow_pushed (registry : Registry) (name : String) (new : NewTable) (size : Nat) :
    (registry.pushed name new).LinksBelow size := by
  cases h : new.alias? <;> simp [pushed, h, Table.LinksBelow]

/-- A new table keeps soundness if the counters have counted it and its name is the one that they
give. -/
theorem Sound.push {registry counted : Registry} {created : List TableName} {name : String}
    {new : NewTable} (h : registry.Sound created) (htables : counted.tables = registry.tables)
    (hcount : ∀ origin, counted.count origin =
      registry.count origin + if new.name = .generated origin then 1 else 0)
    (hnamed : ∀ own, new.name = .named own → name = own)
    (hgenerated : ∀ origin, new.name = .generated origin →
      name = s!"{origin.word}-{registry.count origin + 1}") :
    (counted.push name new).Sound (created ++ [new.name]) := by
  have hsize : counted.size = registry.size := by rw [Registry.size, htables, Registry.size]
  have hlast : (created ++ [new.name])[registry.size]? = some new.name := by
    rw [← h.size]
    simp
  have hold : ∀ i, i < registry.size → (created ++ [new.name])[i]? = created[i]? := by
    intro i hi
    rw [List.getElem?_append_left (h.size ▸ hi)]
  have hfind : ∀ i table, (counted.push name new).find? i = some table →
      (i = registry.size ∧ table = counted.pushed name new) ∨
        (i < registry.size ∧ registry.find? i = some table) := by
    intro i table htable
    rw [find?_push, hsize] at htable
    split at htable
    · next heq => exact .inl ⟨heq, (Option.some.inj htable).symm⟩
    · rw [find?, htables] at htable
      exact .inr ⟨(List.getElem?_eq_some_iff.1 htable).1, htable⟩
  have hpushedSize : (counted.push name new).size = registry.size + 1 := by
    rw [Registry.size, tables_push, List.length_append, ← Registry.size, hsize]
    rfl
  have hmono : ∀ table : Table, table.LinksBelow registry.size →
      table.LinksBelow (counted.push name new).size := fun table hlinks =>
    ⟨hlinks.1, fun target ht => by rw [hpushedSize]; exact Nat.lt_succ_of_lt (hlinks.2 target ht)⟩
  refine ⟨?_, ?_, ?_, ?_, ?_, ?_, ?_⟩
  · rw [List.length_append, h.size, hpushedSize]
    rfl
  · intro origin
    have hpushed : (counted.push name new).count origin = counted.count origin := by
      cases origin <;> rfl
    rw [hpushed, hcount, h.count, List.count_append, List.count_singleton]
    by_cases heq : new.name = .generated origin <;> simp [heq]
  · intro i table htable
    rcases hfind i table htable with ⟨rfl, rfl⟩ | ⟨_, htable⟩
    · rw [pushed_id, hsize]
    · exact h.id i table htable
  · intro i table own htable hcreated
    rcases hfind i table htable with ⟨rfl, rfl⟩ | ⟨hi, htable⟩
    · rw [hlast] at hcreated
      rw [pushed_name, hnamed own (Option.some.inj hcreated)]
    · rw [hold i hi] at hcreated
      exact h.named i table own htable hcreated
  · intro i table origin htable hcreated
    rcases hfind i table htable with ⟨rfl, rfl⟩ | ⟨hi, htable⟩
    · rw [hlast] at hcreated
      have hname := Option.some.inj hcreated
      rw [pushed_name, hgenerated origin hname, ← h.size, h.count, List.take_of_length_le (by simp),
        List.count_append, List.count_singleton, if_pos (by simp [hname])]
    · rw [hold i hi] at hcreated
      rw [List.take_append_of_le_length (by rw [h.size]; exact hi)]
      exact h.generated i table origin htable hcreated
  · intro i table htable
    rcases hfind i table htable with ⟨_, rfl⟩ | ⟨_, htable⟩
    · exact properAliases_pushed counted name new
    · exact h.aliases i table htable
  · intro i table htable
    rcases hfind i table htable with ⟨_, rfl⟩ | ⟨_, htable⟩
    · exact linksBelow_pushed counted name new _
    · exact hmono table (h.links i table htable)

theorem Sound.create {registry : Registry} {created : List TableName}
    (h : registry.Sound created) (new : NewTable) :
    (registry.create new).Sound (created ++ [new.name]) := by
  unfold Registry.create
  split
  · next name hname =>
    exact h.push rfl (fun origin => by simp [hname]) (fun own hown => by simp_all)
      fun origin horigin => by simp_all
  · next origin hname =>
    refine h.push (by cases origin <;> rfl) (fun other => ?_) (fun own hown => by simp_all)
      fun other hother => ?_
    · rw [hname]
      cases origin <;> cases other <;> simp [counted, Registry.count]
    · rw [hname] at hother
      cases hother
      rfl

theorem Sound.apply {registry : Registry} {created : List TableName} (h : registry.Sound created)
    (operation : Operation) :
    (operation.apply registry).Sound (created ++ operation.created?.toList) := by
  cases operation with
  | create new => exact h.create new
  | link source target =>
    rw [Operation.created?, Option.toList_none, List.append_nil]
    exact h.link source target
  | addAlias id other =>
    rw [Operation.created?, Option.toList_none, List.append_nil]
    exact h.addAlias id other
  | updateAttributes id attributes =>
    rw [Operation.created?, Option.toList_none, List.append_nil]
    exact h.edit id fun table => ⟨rfl, rfl, rfl, rfl⟩
  | edit id change same =>
    rw [Operation.created?, Option.toList_none, List.append_nil]
    exact h.edit id same

theorem Sound.perform {registry : Registry} {created : List TableName}
    (h : registry.Sound created) (operations : List Operation) :
    (registry.perform operations).Sound (created ++ operations.filterMap Operation.created?) := by
  induction operations generalizing registry created with
  | nil => simpa using h
  | cons operation operations ih =>
    have hrest := ih (h.apply operation)
    cases hcreated : operation.created? <;> simpa [hcreated] using hrest

/-- A report names the target of every link, and no link is left out. -/
def NamesLinks (registry : Registry) : Prop :=
  ∀ table ∈ registry.tables, (registry.targetNames table).map some =
    table.links.map fun target => (registry.find? target).map Table.name

theorem Sound.namesLinks {registry : Registry} {created : List TableName}
    (h : registry.Sound created) : registry.NamesLinks := by
  intro table htable
  obtain ⟨i, hi⟩ := List.mem_iff_getElem?.1 htable
  have hlinks : ∀ target ∈ table.links, target < registry.size := (h.links i table hi).2
  rw [Registry.targetNames]
  generalize table.links = links at hlinks
  induction links with
  | nil => rfl
  | cons target links ih =>
    have htarget : target < registry.tables.length := hlinks target List.mem_cons_self
    have hfind : registry.find? target = some registry.tables[target] :=
      List.getElem?_eq_getElem htarget
    rw [List.filterMap_cons_some hfind, List.map_cons, List.map_cons, List.map_cons, hfind,
      ih fun other hother => hlinks other (List.mem_cons_of_mem _ hother)]
    rfl

end Registry

end QueryLineage
