import QueryLineage.Proofs.Analysis.Invariant
import QueryLineage.Proofs.Outcome

/-!
# Names of tables

The name of a table that the text does not name is generated. It is the name of no other table, nor
could the text have given it to one. A name behind `FROM` or `JOIN` is that of a new table only if
no table before it is known under that name. So only an entry of a `WITH`, whose table is always a
new one, can repeat the name of a table before it.
-/

namespace QueryLineage

namespace Ledger

/-- Generated names are numbered up to what has been counted, names from the text are never numbered,
and only common tables repeat a name. -/
structure Distinct (ledger : Ledger) : Prop where
  size : ledger.roles.length = ledger.registry.size
  generated : ∀ i table role origin, ledger.registry.find? i = some table →
    ledger.roleOf i = some role → role.origin? = some origin →
      ∃ n ≤ ledger.registry.count origin, table.name = origin.numbered n
  given : ∀ i table role, ledger.registry.find? i = some table → ledger.roleOf i = some role →
    role.origin? = none → Unnumbered table.name
  aliases : ∀ i table, ledger.registry.find? i = some table → ∀ other ∈ table.aliases,
    Unnumbered other
  fresh : ∀ i j first second, ledger.registry.find? i = some first →
    ledger.registry.find? j = some second → i < j → first.name = second.name →
      ledger.roleOf j = some .common

namespace Distinct

variable {ledger : Ledger}

/-- Whatever becomes of the tables, they keep their names, and aliases are added from the text. -/
theorem congr (h : Distinct ledger) {registry : Registry}
    (hsize : registry.size = ledger.registry.size)
    (hcount : ∀ origin, registry.count origin = ledger.registry.count origin)
    (hnodes : ∀ i table, registry.find? i = some table → ∃ old, ledger.registry.find? i = some old ∧
      table.name = old.name ∧ ∀ other ∈ table.aliases, other ∈ old.aliases ∨ Unnumbered other) :
    Distinct { ledger with registry } where
  size := h.size.trans hsize.symm
  generated i table role origin hfind hrole horigin := by
    obtain ⟨old, hold, hname, -⟩ := hnodes i table hfind
    rw [hname, hcount]
    exact h.generated i old role origin hold hrole horigin
  given i table role hfind hrole horigin := by
    obtain ⟨old, hold, hname, -⟩ := hnodes i table hfind
    rw [hname]
    exact h.given i old role hold hrole horigin
  aliases i table hfind other hother := by
    obtain ⟨old, hold, -, haliases⟩ := hnodes i table hfind
    exact (haliases other hother).elim (h.aliases i old hold other) id
  fresh i j first second hfirst hsecond hlt hname := by
    obtain ⟨old, hold, holdName, -⟩ := hnodes i first hfirst
    obtain ⟨other, hother, hotherName, -⟩ := hnodes j second hsecond
    exact h.fresh i j old other hold hother hlt (holdName ▸ hotherName ▸ hname)

theorem modify (h : Distinct ledger) (id : Nat) {change : Table → Table}
    (hchange : ∀ table : Table, (change table).name = table.name ∧
      ∀ other ∈ (change table).aliases, other ∈ table.aliases ∨ Unnumbered other) :
    Distinct { ledger with registry := ledger.registry.modify id change } := by
  refine h.congr (Registry.size_modify _ _ _) (Registry.count_modify _ _ _) fun i table hfind => ?_
  rw [Registry.find?_modify] at hfind
  split at hfind
  · obtain ⟨old, hold, rfl⟩ := Option.map_eq_some_iff.1 hfind
    exact ⟨old, hold, hchange old⟩
  · exact ⟨table, hfind, rfl, fun _ => .inl⟩

/-- A new table whose name is as its role wants it, and which repeats no name unless it is a common
one. -/
theorem created (h : Distinct ledger) {role : Role} {new : NewTable}
    (horigin : ∀ origin, role.origin? = some origin → new.name = .generated origin)
    (hgiven : role.origin? = none → Unnumbered (ledger.registry.nameGiven new.name))
    (halias : ∀ other ∈ new.alias?, Unnumbered other)
    (hfresh : role ≠ .common → ∀ i table, ledger.registry.find? i = some table →
      table.name ≠ ledger.registry.nameGiven new.name) : Distinct (ledger.created role new) := by
  have hcases : ∀ i table, (ledger.created role new).registry.find? i = some table →
      (i = ledger.registry.size ∧
          table = ledger.registry.pushed (ledger.registry.nameGiven new.name) new) ∨
        (i ≠ ledger.registry.size ∧ ledger.registry.find? i = some table) :=
    fun _ _ => Registry.eq_or_find?_of_create
  have hself : (ledger.created role new).roleOf ledger.registry.size = some role := by
    rw [roleOf_created h.size, if_pos rfl]
  have hold : ∀ i, i ≠ ledger.registry.size →
      (ledger.created role new).roleOf i = ledger.roleOf i := by
    intro i hne
    rw [roleOf_created h.size, if_neg hne]
  refine ⟨?_, ?_, ?_, ?_, ?_⟩
  · change (ledger.roles ++ [role]).length = (ledger.registry.create new).size
    rw [List.length_append, Registry.size_create, h.size]
    rfl
  · intro i table found origin hfind hfound hnumbered
    change ∃ n ≤ (ledger.registry.create new).count origin, _
    rw [Registry.count_create]
    rcases hcases i table hfind with ⟨rfl, rfl⟩ | ⟨hne, hfind⟩
    · obtain rfl := Option.some.inj (hself.symm.trans hfound)
      have hname := horigin origin hnumbered
      rw [Registry.pushed_name, hname, if_pos rfl]
      exact ⟨_, Nat.le_refl _, Registry.generatedName_eq _ _⟩
    · rw [hold i hne] at hfound
      obtain ⟨n, hn, hname⟩ := h.generated i table found origin hfind hfound hnumbered
      exact ⟨n, Nat.le_add_right_of_le hn, hname⟩
  · intro i table found hfind hfound hnone
    rcases hcases i table hfind with ⟨rfl, rfl⟩ | ⟨hne, hfind⟩
    · obtain rfl := Option.some.inj (hself.symm.trans hfound)
      rw [Registry.pushed_name]
      exact hgiven hnone
    · rw [hold i hne] at hfound
      exact h.given i table found hfind hfound hnone
  · intro i table hfind other hother
    rcases hcases i table hfind with ⟨rfl, rfl⟩ | ⟨hne, hfind⟩
    · exact halias other (Registry.mem_aliases_pushed hother)
    · exact h.aliases i table hfind other hother
  · intro i j first second hfirst hsecond hlt hname
    rcases hcases j second hsecond with ⟨rfl, rfl⟩ | ⟨hne, hsecond⟩
    · rcases hcases i first hfirst with ⟨rfl, -⟩ | ⟨-, hfirst⟩
      · exact absurd hlt (Nat.lt_irrefl _)
      · rw [Registry.pushed_name] at hname
        by_cases hrole : role = .common
        · rw [hself, hrole]
        · exact absurd hname (hfresh hrole i first hfirst)
    · have hlast : j < ledger.registry.size := (List.getElem?_eq_some_iff.1 hsecond).1
      rcases hcases i first hfirst with ⟨rfl, -⟩ | ⟨-, hfirst⟩
      · exact absurd hlt (Nat.not_lt_of_le (Nat.le_of_lt hlast))
      · rw [hold j hne]
        exact h.fresh i j first second hfirst hsecond hlt hname

theorem ne_generatedName (h : Distinct ledger) {i : Nat} {table : Table}
    (hfind : ledger.registry.find? i = some table) (origin : Origin) :
    table.name ≠ ledger.registry.generatedName origin := by
  intro heq
  rw [Registry.generatedName_eq] at heq
  have hlt : i < ledger.roles.length := h.size ▸ (List.getElem?_eq_some_iff.1 hfind).1
  have hrole : ledger.roleOf i = some ledger.roles[i] := List.getElem?_eq_getElem hlt
  cases horigin : ledger.roles[i].origin? with
  | none => exact h.given i table _ hfind hrole horigin origin _ heq
  | some other =>
    obtain ⟨n, hn, hname⟩ := h.generated i table _ other hfind hrole horigin
    rw [hname] at heq
    by_cases hsame : other = origin
    · subst hsame
      have := Origin.numbered_inj heq
      omega
    · exact Origin.numbered_ne hsame _ _ heq

end Distinct

theorem distinct_empty : Distinct {} := by
  constructor <;> simp [Registry.find?, Registry.empty, Registry.size]

theorem invariant_distinct : Invariant True Distinct where
  generated ledger role origin new hrole hname halias h := by
    refine h.created (fun other hother => ?_) (fun hnone => ?_) halias fun _ i table hfind => ?_
    · rw [hname, Option.some.inj (hrole.symm.trans hother)]
    · rw [hrole] at hnone
      cases hnone
    · rw [hname]
      exact h.ne_generatedName hfind origin
  common ledger name new _ hname hunnumbered halias h := by
    refine h.created (fun origin horigin => by cases horigin) (fun _ => ?_) ?_
      fun hrole => absurd rfl hrole
    · rw [hname]
      exact hunnumbered
    · rw [halias]
      simp
  source ledger name hunnumbered hunknown h := by
    refine h.created (fun origin horigin => by cases horigin) (fun _ => hunnumbered) (by simp)
      fun _ i table hfind heq => ?_
    have hnot := List.find?_eq_none.1 hunknown table (List.mem_of_getElem? hfind)
    rw [Registry.nameGiven] at heq
    simp [Table.isKnownAs, heq] at hnot
  edited ledger registry hsame h := by
    refine h.congr hsame.size hsame.count fun i table hfind => ?_
    obtain ⟨old, hold, hnode⟩ := hsame.node i table hfind
    exact ⟨old, hold, hnode.name, fun other hother => .inl (hnode.aliases ▸ hother)⟩
  linked ledger source target h := by
    unfold Registry.link
    split
    · exact h.modify source fun table => ⟨table.name_link target, fun other hother =>
        .inl (table.aliases_link target ▸ hother)⟩
    · exact h
  aliased ledger id other hunnumbered h := by
    refine h.modify id fun table => ⟨table.name_addAlias other, fun shown hshown => ?_⟩
    unfold Table.addAlias at hshown
    split at hshown
    · rcases List.mem_append.1 hshown with hshown | hshown
      · exact .inl hshown
      · exact .inr (List.mem_singleton.1 hshown ▸ hunnumbered)
    · exact .inl hshown
  mentioned ledger mentions h := ⟨h.size, h.generated, h.given, h.aliases, h.fresh⟩

theorem invariant_noCommon : Invariant False fun ledger => .common ∉ ledger.roles where
  generated ledger role origin new hrole _ _ h := by
    have hne : role ≠ .common := by
      rintro rfl
      cases hrole
    simp [Ledger.created, h, hne.symm]
  common _ _ _ hentries := hentries.elim
  source ledger name _ _ h := by simp [Ledger.created, h]
  edited _ _ _ h := h
  linked _ _ _ h := h
  aliased _ _ _ _ h := h
  mentioned _ _ h := h

/-- Where no table is a common one, names are pairwise different. -/
theorem Distinct.nodup {ledger : Ledger} (h : Distinct ledger) (hcommon : .common ∉ ledger.roles) :
    (ledger.registry.tables.map Table.name).Nodup := by
  rw [List.nodup_iff_getElem?_ne_getElem?]
  intro i j hlt hj hname
  rw [List.length_map] at hj
  rw [List.getElem?_map, List.getElem?_map, List.getElem?_eq_getElem hj,
    List.getElem?_eq_getElem (Nat.lt_trans hlt hj)] at hname
  have hrole := h.fresh i j _ _ (List.getElem?_eq_getElem _) (List.getElem?_eq_getElem hj) hlt
    (Option.some.inj hname)
  exact hcommon (List.mem_of_getElem? hrole)

theorem Distinct.eq_of_generated {ledger : Ledger} (h : Distinct ledger) {i j : Nat}
    {table other : Table} {role : Role} {origin : Origin}
    (hfind : ledger.registry.find? i = some table) (hrole : ledger.roleOf i = some role)
    (horigin : role.origin? = some origin) (hother : ledger.registry.find? j = some other)
    (hname : other.name = table.name) : j = i := by
  rcases Nat.lt_trichotomy i j with hlt | heq | hlt
  · have hcommon := h.fresh i j table other hfind hother hlt hname.symm
    obtain ⟨n, -, hnumbered⟩ := h.generated i table role origin hfind hrole horigin
    exact absurd (hname.trans hnumbered) (h.given j other .common hother hcommon rfl origin n)
  · exact heq.symm
  · have hcommon := h.fresh j i other table hother hfind hlt hname
    obtain rfl := Option.some.inj (hrole.symm.trans hcommon)
    cases horigin

end Ledger

/-- Two tables of one name are told apart by a `WITH`: the later one is an entry of it. A generated
name is the name of one table only; the other names and the aliases are taken from the text, and none
of them is like a generated one. So names are pairwise different where no entry is registered, in
particular in a text without the word `WITH`. -/
theorem names_distinct {config : Config} {sql : String} {registry : Registry}
    (h : analyze config sql = .ok registry) :
    (∃ ledger, Ledger.analyze config sql = .ok ledger ∧ ledger.registry = registry ∧
      ledger.roles.length = registry.size ∧
      (∀ i j first second, registry.find? i = some first → registry.find? j = some second →
        i < j → first.name = second.name → ledger.roleOf j = some .common) ∧
      (∀ i table role origin, registry.find? i = some table → ledger.roleOf i = some role →
        role.origin? = some origin → (∃ n, table.name = origin.numbered n) ∧
          ∀ j other, registry.find? j = some other → other.name = table.name → j = i) ∧
      (∀ i table role, registry.find? i = some table → ledger.roleOf i = some role →
        role.origin? = none → Unnumbered table.name) ∧
      (∀ table ∈ registry.tables, ∀ other ∈ table.aliases, Unnumbered other) ∧
      (.common ∉ ledger.roles → (registry.tables.map Table.name).Nodup)) ∧
    ((∀ lexemes, Lexeme.ofText sql = .ok lexemes →
        ∀ lexeme ∈ lexemes, lexeme.kind ≠ .keyword .cte) →
      (registry.tables.map Table.name).Nodup) := by
  obtain ⟨ledger, hledger, rfl⟩ := exists_ledger h
  have hdistinct : ledger.Distinct :=
    Ledger.invariant_distinct.of_analyze Ledger.distinct_empty (fun _ _ _ => trivial) hledger
  refine ⟨⟨ledger, hledger, rfl, hdistinct.size, hdistinct.fresh, ?_, hdistinct.given, ?_,
    hdistinct.nodup⟩, fun hwith => hdistinct.nodup ?_⟩
  · intro i table role origin hfind hrole horigin
    obtain ⟨n, -, hname⟩ := hdistinct.generated i table role origin hfind hrole horigin
    exact ⟨⟨n, hname⟩, fun j other => hdistinct.eq_of_generated hfind hrole horigin⟩
  · intro table htable
    obtain ⟨i, hi, rfl⟩ := List.getElem_of_mem htable
    exact hdistinct.aliases i _ (List.getElem?_eq_getElem hi)
  · refine Ledger.invariant_noCommon.of_analyze (by simp) (fun lexemes hlexemes hcte => ?_) hledger
    obtain ⟨lexeme, hlexeme, hkind⟩ := hcte
    exact hwith lexemes hlexemes lexeme hlexeme hkind

/-- Two statements that read a table and an entry of the same name. -/
def repeatedName : String :=
  "SELECT a FROM c; WITH c AS (SELECT a FROM t) SELECT a FROM c x"

/-- The second table of the name is the entry. -/
theorem names_distinct_repeatedName : ∃ registry ledger, analyze {} repeatedName = .ok registry ∧
    Ledger.analyze {} repeatedName = .ok ledger ∧
    registry.tables.map Table.name = ["select-1", "c", "c", "t", "select-2"] ∧
    ledger.roleOf 2 = some .common := by
  have hread : (analyze {} repeatedName).toOption.map (fun registry =>
      registry.tables.map Table.name) = some ["select-1", "c", "c", "t", "select-2"] := by
    decide +kernel
  obtain ⟨registry, hok, hnames⟩ := exists_of_map hread
  obtain ⟨⟨ledger, hledger, -, -, hfresh, -⟩, -⟩ := names_distinct hok
  have hfind : ∀ i name, ["select-1", "c", "c", "t", "select-2"][i]? = some name →
      ∃ table, registry.find? i = some table ∧ table.name = name := by
    intro i name hname
    rw [← hnames, List.getElem?_map] at hname
    exact Option.map_eq_some_iff.1 hname
  obtain ⟨first, hfirst, hfirstName⟩ := hfind 1 "c" rfl
  obtain ⟨second, hsecond, hsecondName⟩ := hfind 2 "c" rfl
  exact ⟨registry, ledger, hok, hledger, hnames,
    hfresh 1 2 first second hfirst hsecond (by decide) (hfirstName.trans hsecondName.symm)⟩

end QueryLineage
