import QueryLineage.Proofs.Analysis.Later
import QueryLineage.Proofs.Analysis.Moved
import QueryLineage.Proofs.Analysis.Triple

/-!
# A ledger in the middle of a query

What is kept from one step of a query to the next: the ledger is wired as it should be, and the
table that the next join is linked to is reached from the table of the query. If it is a join, the
query has made it, and there is no other join behind it yet.
-/

namespace QueryLineage

/-- The run does nothing to a registry but edit what tables say about their columns, and `p` holds
of its answer. -/
abbrev Run.Edits {α : Type} (p : α → Prop) (x : Run α) : Prop :=
  ∀ registry : Registry, Keeps registry.SameNodes (fun _ _ => True) p x

namespace Run.Edits

variable {walk : Walk} {own : Nat}

theorem change (id : Nat) {change : Table → Table}
    (same : ∀ table : Table, table.SameNode (change table)) :
    Edits (fun _ => True) (Run.change id change) :=
  fun _ _ hsame => ⟨trivial, hsame.modify id same⟩

theorem fill (id : Nat) (produced : List Attribute) :
    Edits (fun _ => True) (Walk.fill id produced) := by
  intro registry
  unfold Walk.fill
  refine Keeps.get.bind fun current _ => ?_
  split
  · exact Keeps.pure trivial
  · next table _ =>
    by_cases hfew : produced.length < (table.attributes.filter Attribute.isPlaceholder).length
    · simp only [hfew, if_true]
      exact Triple.throw fun _ _ => trivial
    · simp only [hfew, if_false]
      refine change id (fun _ => ?_) registry
      exact ⟨rfl, rfl, rfl, rfl⟩

theorem addColumns (h : walk.table = some own) (attributes : List Attribute) :
    Edits (fun later => later.enclosing = walk.enclosing ∧ later.table = walk.table ∧
      later.anchor = walk.anchor) (walk.addColumns attributes) := by
  intro registry
  unfold Walk.addColumns
  rw [Walk.ownTable_of_eq_some h, pure_bind]
  dsimp only
  split
  · exact (fill own attributes registry).bind fun _ _ => Keeps.pure ⟨rfl, rfl, rfl⟩
  · split
    · refine Keeps.bind (change own ?_ registry) fun _ _ => Keeps.pure ⟨rfl, rfl, rfl⟩
      exact fun _ => ⟨rfl, rfl, rfl, rfl⟩
    · refine Keeps.bind (change own ?_ registry) fun _ _ => Keeps.pure ⟨rfl, rfl, rfl⟩
      exact fun _ => ⟨rfl, rfl, rfl, rfl⟩

theorem restrict (h : walk.table = some own) (attributes : List Attribute) :
    Edits (· = walk) (walk.restrict attributes) := by
  intro registry
  unfold Walk.restrict
  rw [Walk.ownTable_of_eq_some h, pure_bind]
  refine Keeps.bind (change own ?_ registry) fun _ _ => Keeps.pure rfl
  exact fun _ => ⟨rfl, rfl, rfl, rfl⟩

theorem addConditions (walk : Walk) (config : Config) (attributes : List Attribute)
    (text : String) : Edits (fun _ => True) (walk.addConditions config attributes text) := by
  intro registry
  unfold Walk.addConditions
  split
  · exact Keeps.pure trivial
  · refine change _ (fun table => ?_) registry
    dsimp only
    split <;> exact ⟨rfl, rfl, rfl, rfl⟩

theorem finish (walk : Walk) (config : Config) (text : String) :
    Edits (fun _ => True) (walk.finish config text) := by
  intro registry
  unfold Walk.finish
  split
  · split
    · refine change _ (fun _ => ?_) registry
      exact ⟨rfl, rfl, rfl, rfl⟩
    · exact Keeps.pure trivial
  · exact Keeps.pure trivial

end Run.Edits

namespace Ledger

/-- What does not depend on what tables say about their columns is kept by edits. -/
theorem keeps_ofRun {α : Type} {inv : Ledger → Prop}
    (hedited : ∀ (ledger : Ledger) (registry : Registry), ledger.registry.SameNodes registry →
      inv ledger → inv { ledger with registry })
    {x : Run α} {p : α → Prop} (hx : x.Edits p) :
    Keeps inv (fun _ _ => True) p (Ledger.ofRun x) := by
  intro ledger h
  have hsame := hx ledger.registry ledger.registry (.refl _)
  rcases hrun : x.run ledger.registry with ⟨result, registry⟩
  have hledger : (Ledger.ofRun x).run ledger =
      ((x.run ledger.registry).1, { ledger with registry := (x.run ledger.registry).2 }) := rfl
  rw [hrun] at hsame hledger
  rw [hledger]
  cases result with
  | error error => trivial
  | ok a => exact ⟨hsame.1, hedited ledger registry hsame.2 h⟩

/-- The ledger in the middle of a query, which has found `base`. -/
structure Midway (base : Ledger) (pending : List Nat) (walk : Walk) (ledger : Ledger) : Prop where
  later : Later base ledger
  wired : Wired pending ledger
  identified : Identified ledger
  enclosing : ∀ id ∈ walk.enclosing, ledger.IsQuery id
  table : ∀ id ∈ walk.table, ledger.IsQuery id
  anchor : ∀ id ∈ walk.anchor, id < ledger.registry.size ∧
    (∃ table ∈ walk.table, Relation.ReflTransGen ledger.registry.Links table id) ∧
    (ledger.roleOf id = some .join →
      base.roles.length ≤ id ∧ ∃ first, ledger.registry.linksOf id = [first])

section

variable {base ledger after : Ledger} {pending other : List Nat} {walk : Walk}

namespace Midway

/-- Whatever is done to the ledger that makes it a later one does not disturb the query. -/
theorem extend (h : Midway base pending walk ledger) (hlater : Later ledger after)
    (hwired : Wired other after) (hidentified : Identified after) :
    Midway base other walk after where
  later := h.later.trans hlater
  wired := hwired
  identified := hidentified
  enclosing id hid := (h.enclosing id hid).later hlater
  table id hid := (h.table id hid).later hlater
  anchor id hid := by
    obtain ⟨hlt, ⟨table, htable, hpath⟩, hopen⟩ := h.anchor id hid
    have hlength : id < ledger.roles.length := h.wired.size.symm ▸ hlt
    refine ⟨?_, ⟨table, htable, Relation.ReflTransGen.mono hlater.links _ _ hpath⟩, fun hjoin => ?_⟩
    · exact hwired.size ▸ Nat.lt_of_lt_of_le hlength hlater.roles.length_le
    · rw [roleOf_eq_of_extended hlater.roles hlength] at hjoin
      rw [hlater.joins id hjoin]
      exact hopen hjoin

theorem move {next : Walk} (h : Midway base pending walk ledger)
    (hnext : next.enclosing = walk.enclosing ∧ next.table = walk.table ∧
      next.anchor = walk.anchor) : Midway base pending next ledger := by
  obtain ⟨henclosing, htable, hanchor⟩ := hnext
  refine ⟨h.later, h.wired, h.identified, ?_, ?_, ?_⟩
  · rw [henclosing]
    exact h.enclosing
  · rw [htable]
    exact h.table
  · rw [hanchor, htable]
    exact h.anchor

theorem permute (h : Midway base pending walk ledger)
    (hpending : ∀ id, id ∈ other ↔ id ∈ pending) : Midway base other walk ledger :=
  { h with wired := { h.wired with
      waiting := fun i hi => h.wired.waiting i ((hpending i).1 hi)
      mentioned := fun i role hrole hmentioned =>
        (h.wired.mentioned i role hrole hmentioned).imp_left (hpending i).2 } }

theorem created (h : Midway base pending walk ledger) {role : Role} {new : NewTable}
    (hrole : role ≠ .join) (hnew : Suits role new) :
    Midway base (ledger.registry.size :: pending) walk (ledger.created role new) :=
  h.extend ((Later.refl ledger).created role new) (h.wired.created hrole new)
    (h.identified.created h.wired.size hnew)

theorem createdQuery (h : Midway base pending walk ledger) {role : Role} {new : NewTable}
    (hquery : role.isQuery = true) (hmentioned : role.isMentioned = false) (hnew : Suits role new) :
    Midway base pending walk (ledger.created role new) ∧
      (ledger.created role new).IsQuery ledger.registry.size := by
  have hrole : role ≠ .join := by
    rintro rfl
    cases hquery
  have hself : (ledger.created role new).roleOf ledger.registry.size = some role :=
    (roleOf_concat rfl).2 (.inr ⟨h.wired.size.symm, rfl⟩)
  have hcreated := h.created hrole hnew
  refine ⟨{ hcreated with wired := hcreated.wired.settle fun found hfound => ?_ },
    role, hself, hquery⟩
  rw [hself] at hfound
  rwa [← Option.some.inj hfound]

/-- From now on, the walk puts what it finds on a table that is that of a query. -/
theorem settleAt {next : Walk} (h : Midway base pending walk ledger) {id : Nat}
    (hid : ledger.IsQuery id) (henclosing : next.enclosing = walk.enclosing)
    (htable : next.table = some id) (hanchor : next.anchor = none) :
    Midway base pending next ledger where
  later := h.later
  wired := h.wired
  identified := h.identified
  enclosing := by
    rw [henclosing]
    exact h.enclosing
  table := by
    rw [htable]
    rintro _ ⟨⟩
    exact hid
  anchor := by
    rw [hanchor]
    simp

section

variable {owner source : Nat} (h : Midway base (source :: pending) walk ledger)
  (howner : walk.table = some owner)
include h howner

/-- Behind a `FROM`, the next join is linked to its source. -/
theorem sourced :
    Midway base pending { walk with anchor := some source } (ledger.sourced owner source) := by
  have hquery := h.table owner howner
  have hidentified : Identified (ledger.sourced owner source) := by
    have hlinked := h.identified.link owner source
    exact ⟨hlinked.id, hlinked.join, hlinked.aliases⟩
  have hextended : Midway base pending walk (ledger.sourced owner source) :=
    h.extend ((Later.refl ledger).sourced h.wired hquery) (h.wired.sourced hquery) hidentified
  refine { hextended with anchor := ?_ }
  rintro _ ⟨⟩
  obtain ⟨hlt, hnojoin⟩ := h.wired.source_lt
  refine ⟨hextended.wired.size ▸ h.wired.size ▸ hlt, ⟨owner, howner, .single ?_⟩, fun hjoin => ?_⟩
  · exact (Registry.links_link (h.wired.owner_lt hquery) hlt _ _).2 (.inr ⟨rfl, rfl⟩)
  · exact absurd hjoin hnojoin

/-- Behind a `JOIN`, the next join is linked to this one. -/
theorem joined {anchor : Nat} (hanchor : anchor < ledger.registry.size)
    (hpath : Relation.ReflTransGen ledger.registry.Links owner anchor)
    (hopen : ledger.roleOf anchor = some .join →
      base.roles.length ≤ anchor ∧ ∃ first, ledger.registry.linksOf anchor = [first])
    (lastJoin : Option Nat) :
    Midway base pending { walk with lastJoin, anchor := some ledger.registry.size }
      (ledger.joined owner anchor source) := by
  have hquery := h.table owner howner
  have hnew : base.roleOf anchor ≠ some .join := by
    intro hjoin
    have hle := (hopen (roleOf_of_extended h.later.roles hjoin)).1
    exact absurd (lt_of_roleOf hjoin) (Nat.not_lt_of_le hle)
  obtain ⟨hwired, hself⟩ := h.wired.joined hanchor hquery hpath fun hjoin => (hopen hjoin).2
  have hroles : (ledger.joined owner anchor source).roles = ledger.roles ++ [.join] := rfl
  refine ⟨h.later.joined h.wired hanchor hnew, hwired, h.identified.joined h.wired.size _ _ _,
    fun id hid => (h.enclosing id hid).concat hroles, fun id hid => (h.table id hid).concat hroles, ?_⟩
  rintro _ ⟨⟩
  have hreaches := (h.wired.reaches_joined hanchor hpath).to_reflTransGen
  refine ⟨?_, ⟨owner, howner, hreaches⟩, fun _ => ⟨?_, source, hself⟩⟩
  · change ledger.registry.size < (ledger.registry.join anchor source).size
    rw [Registry.size_join]
    exact Nat.lt_succ_self _
  · exact h.wired.size ▸ h.later.roles.length_le

end

end Midway

/-- Wherever the run succeeds from a ledger where `before` holds, `after` holds of its answer and
the ledger that it leaves. -/
abbrev Leads {α : Type} (before : Ledger → Prop) (x : LedgerRun α) (after : α → Ledger → Prop) :
    Prop :=
  Triple before x after fun _ _ => True

namespace Leads

variable {α : Type}

theorem ofRun {x : Run α} {p : α → Prop} (hx : x.Edits p) :
    Leads (Midway base pending walk) (Ledger.ofRun x)
      fun a ledger => p a ∧ Midway base pending walk ledger := by
  refine keeps_ofRun (fun ledger registry hsame h => ?_) hx
  refine h.extend ((Later.refl ledger).congr hsame.linksOf)
    (h.wired.congr hsame.size hsame.linksOf) (h.identified.congr fun i table hfind => ?_)
  obtain ⟨old, hold, hsame⟩ := hsame.node i table hfind
  exact ⟨old, hold, hsame.id, hsame.name, fun _ => hsame.aliases⟩

theorem ownTable (walk : Walk) :
    Leads (Midway base pending walk) (Ledger.ownTable walk)
      fun own ledger => own.2.table = some own.1 ∧ Midway base pending own.2 ledger := by
  unfold Ledger.ownTable
  split
  · next table htable => exact Triple.pure fun ledger h => ⟨htable, h⟩
  · next htable =>
    intro ledger h
    have hsuits : Suits .anonymous { name := .generated .table } :=
      .generated rfl (by decide) (by decide)
    obtain ⟨hcreated, hquery⟩ := h.createdQuery rfl rfl hsuits
    have hanchor : walk.anchor = none := by
      cases hanchor : walk.anchor with
      | none => rfl
      | some id =>
        obtain ⟨-, ⟨table, hmem, -⟩, -⟩ := h.anchor id hanchor
        rw [htable] at hmem
        cases hmem
    exact ⟨rfl, hcreated.settleAt hquery rfl rfl hanchor⟩

theorem select (walk : Walk) :
    Leads (Midway base pending walk) (Ledger.select walk) (Midway base pending) := by
  unfold Ledger.select
  split
  · exact Triple.pure fun ledger h => { h with anchor := by simp }
  · intro ledger h
    have hsuits : Suits .select { name := .generated .select } :=
      .generated rfl (by decide) (by decide)
    obtain ⟨hcreated, hquery⟩ := h.createdQuery rfl rfl hsuits
    exact hcreated.settleAt hquery rfl rfl rfl

theorem addColumns (walk : Walk) (attributes : List Attribute) :
    Leads (Midway base pending walk) (Ledger.addColumns walk attributes) (Midway base pending) := by
  refine (ownTable walk).bind fun own ledger hown => ?_
  refine Triple.mono (ofRun (Run.Edits.addColumns hown.1 attributes)) (fun _ => id)
    (fun next ledger hnext => ?_) ledger hown.2
  exact hnext.2.move hnext.1

theorem restrict (walk : Walk) (attributes : List Attribute) :
    Leads (Midway base pending walk) (Ledger.restrict walk attributes) (Midway base pending) := by
  refine (ownTable walk).bind fun own ledger hown => ?_
  refine Triple.mono (ofRun (Run.Edits.restrict hown.1 attributes)) (fun _ => id)
    (fun next ledger hnext => ?_) ledger hown.2
  exact hnext.1 ▸ hnext.2

theorem joinSource {owner anchor source : Nat} (howner : walk.table = some owner) :
    Leads (fun ledger => Midway base (source :: pending) walk ledger ∧
        anchor < ledger.registry.size ∧
        Relation.ReflTransGen ledger.registry.Links owner anchor ∧
        (ledger.roleOf anchor = some .join →
          base.roles.length ≤ anchor ∧ ∃ first, ledger.registry.linksOf anchor = [first]))
      (Ledger.joinSource walk anchor source) (Midway base pending) := by
  rintro ledger ⟨h, hanchor, hpath, hopen⟩
  have hrun : (Ledger.joinSource walk anchor source).run ledger =
      (.ok { walk with
          lastJoin := some ledger.registry.size, anchor := some ledger.registry.size },
        ledger.joined owner anchor source) := by
    unfold Ledger.joinSource
    rw [howner]
    rfl
  rw [hrun]
  exact h.joined howner hanchor hpath hopen _

theorem addSource (walk : Walk) (clause : Clause) (source : Nat) :
    Leads (Midway base (source :: pending) walk) (Ledger.addSource walk clause source)
      (Midway base pending) := by
  unfold Ledger.addSource
  by_cases hclause : clause = .joinList
  · rw [if_pos hclause]
    split
    · next anchor hanchor =>
      intro ledger h
      obtain ⟨hlt, ⟨owner, howner, hpath⟩, hopen⟩ := h.anchor anchor hanchor
      exact joinSource howner ledger ⟨h, hlt, hpath, hopen⟩
    · refine (ownTable walk).bind fun own ledger hown => ?_
      obtain ⟨howner, h⟩ := hown
      have hquery := h.table own.1 howner
      refine joinSource howner ledger ⟨h, h.wired.owner_lt hquery, .refl, fun hjoin => ?_⟩
      exact absurd rfl (Wired.ne_of_isQuery hquery hjoin rfl)
  · rw [if_neg hclause]
    refine (ownTable walk).bind fun own ledger hown => ?_
    exact hown.2.sourced hown.1

/-- What has a name that is not that of a join is not a join. -/
theorem knownAs {name : String} (hname : Unnumbered name) :
    Leads (Midway base pending walk) (Ledger.knownAs name)
      fun id => Midway base (id :: pending) walk := by
  intro ledger h
  cases hfound : ledger.registry.findKnownAs? name with
  | none =>
    have hsuits : Suits .source { name := .named name } := .given rfl hname (by decide)
    rw [run_knownAs_of_none hfound]
    exact h.created (by decide) hsuits
  | some table =>
    rw [run_knownAs_of_some hfound]
    obtain ⟨i, hi, htable⟩ := List.getElem_of_mem (List.mem_of_find?_eq_some hfound)
    have hfind : ledger.registry.find? i = some table := htable ▸ List.getElem?_eq_getElem hi
    obtain ⟨role, hrole⟩ : ∃ role, ledger.roleOf i = some role :=
      ⟨_, List.getElem?_eq_getElem (h.wired.size.symm ▸ hi)⟩
    have hnojoin : role ≠ .join := by
      rintro rfl
      obtain ⟨n, hn⟩ := (h.identified.join i table hfind).1 hrole
      have hknown := List.find?_some hfound
      rw [Table.isKnownAs, h.identified.aliases i table hfind hrole, Bool.or_eq_true,
        beq_iff_eq] at hknown
      rcases hknown with heq | hmem
      · exact hname .join n (heq.symm.trans hn)
      · cases hmem
    change Midway base (table.id :: pending) walk ledger
    rw [h.identified.id i table hfind]
    refine { h with wired := { h.wired with waiting := ?_, mentioned := ?_ } }
    · intro other hother
      rcases List.mem_cons.1 hother with rfl | hother
      · exact ⟨role, hrole, hnojoin⟩
      · exact h.wired.waiting other hother
    · intro other found hfound hmentioned
      exact (h.wired.mentioned other found hfound hmentioned).imp_left (List.mem_cons_of_mem _)

theorem giveAlias (id : Nat) (alias? : Option String) :
    Leads (Midway base (id :: pending) walk) (Ledger.ofRun (Walk.giveAlias id alias?))
      fun _ => Midway base (id :: pending) walk := by
  cases alias? with
  | none => exact Triple.pure fun _ h => h
  | some other =>
    intro ledger h
    have hlinks : ∀ i, (ledger.registry.addAlias id other).linksOf i = ledger.registry.linksOf i :=
      Registry.linksOf_modify (fun table => table.links_addAlias other) ledger.registry id
    refine h.extend ((Later.refl ledger).congr hlinks)
      (h.wired.congr (Registry.size_addAlias _ _ _) hlinks)
      (h.identified.modify id (fun table => ?_) fun hjoin => ?_)
    · exact ⟨table.id_addAlias other, table.name_addAlias other⟩
    · exact absurd hjoin h.wired.source_lt.2

theorem tableNamed {name : String} (hname : Unnumbered name) (alias? : Option String) :
    Leads (Midway base pending walk) (Ledger.tableNamed name alias?)
      fun id => Midway base (id :: pending) walk :=
  (knownAs hname).bind fun id => (giveAlias id alias?).bind fun _ => Triple.pure fun _ h => h

end Leads

end

end Ledger

end QueryLineage
