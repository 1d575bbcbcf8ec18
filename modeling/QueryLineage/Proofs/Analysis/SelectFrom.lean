import QueryLineage.Proofs.Analysis.JoinChain
import QueryLineage.Proofs.Clause.SelectFrom

/-!
# What a query reads from its sources

A query has the items of its select list for its columns, in their order and as often as they are
listed. It is linked to its sources in their order, and each source is registered with its alias.
-/

namespace QueryLineage

/-- No generated name is read as a name with dots either. -/
theorem DottedName.ne_numbered (name : DottedName) (origin : Origin) (n : Nat) :
    origin.numbered n ≠ name.text := by
  have hparts : ∀ parts : List PlainName,
      '-' ∉ (String.join (parts.map fun part => "." ++ part.text)).toList := by
    intro parts
    induction parts with
    | nil => simp
    | cons part parts ih =>
      have hpart : '-' ∉ part.text.toList := fun hmem => by
        have hcontinues := part.isPlain.isWord.continues '-' hmem
        revert hcontinues
        decide
      simpa [hpart] using ih
  intro heq
  have hmem : '-' ∈ name.text.toList := by
    rw [← heq, Origin.toList_numbered]
    simp
  rw [DottedName.text, String.toList_append] at hmem
  rcases List.mem_append.1 hmem with hmem | hmem
  · have hcontinues := name.first.isPlain.isWord.continues '-' hmem
    revert hcontinues
    decide
  · exact hparts name.others hmem

namespace SelectItem

def names (source : SelectItem) : List String := source.name.text :: source.alias?.toList

def table (source : SelectItem) (id : Nat) : Table where
  id
  name := source.name.text
  aliases := source.alias?.toList

theorem alias_ne_empty {source : SelectItem} {other : String} (h : source.alias? = some other) :
    other ≠ "" := by
  cases source with
  | bare name => cases h
  | aliased name behindAs shown =>
    cases h
    exact shown.isPlain.ne_empty

theorem isKnownAs_table (source : SelectItem) (id : Nat) {text : String}
    (h : text ∉ source.names) : (source.table id).isKnownAs text = false := by
  rw [names, List.mem_cons, not_or] at h
  rw [Table.isKnownAs, Bool.or_eq_false_iff]
  exact ⟨beq_eq_false_iff_ne.2 (Ne.symm h.1), by simpa [table] using h.2⟩

end SelectItem

namespace Registry

variable {registry later : Registry} {before behind : List Table} {own read new : Table}

/-- A table is linked to a new one that is put behind all tables. -/
theorem link_behind (htables : registry.tables = before ++ own :: behind)
    (hlinks : ∀ id ∈ own.links, id < registry.size) (new : Table) :
    Registry.link { registry with tables := registry.tables ++ [new] } before.length registry.size =
      { registry with
        tables := before ++ { own with links := own.links ++ [registry.size] } ::
          (behind ++ [new]) } := by
  have hcreated : registry.tables ++ [new] = before ++ own :: (behind ++ [new]) := by
    rw [htables, List.append_assoc, List.cons_append]
  rw [link_eq hcreated rfl (by simp [size]), Table.link_of_lt hlinks]

theorem lt_of_mem_behind (hlinks : ∀ id ∈ own.links, id < registry.size) :
    ∀ id ∈ own.links ++ [registry.size], id < registry.size + 1 := by
  intro id hid
  rcases List.mem_append.1 hid with hid | hid
  · exact Nat.lt_succ_of_lt (hlinks id hid)
  · rw [List.mem_singleton.1 hid]
    exact Nat.lt_succ_self _

theorem size_behind (htables : registry.tables = before ++ own :: behind)
    (hlater : later.tables = before ++ read :: (behind ++ [new])) :
    later.size = registry.size + 1 := by
  rw [size, size, htables, hlater]
  simp only [List.length_append, List.length_cons, List.length_nil]
  omega

/-- What is unknown is so when a table has been read into and another one has been put behind all
tables. -/
theorem findKnownAs?_behind (htables : registry.tables = before ++ own :: behind) {name : String}
    (hfresh : registry.findKnownAs? name = none) (hread : read.isKnownAs name = own.isKnownAs name)
    (hnew : new.isKnownAs name = false) (hlater : later.tables = before ++ read :: (behind ++ [new])) :
    later.findKnownAs? name = none := by
  simp only [findKnownAs?_eq_none, htables, hlater, List.forall_mem_append, List.forall_mem_cons,
    hread] at hfresh ⊢
  exact ⟨hfresh.1, hfresh.2.1, hfresh.2.2, hnew, by simp⟩

end Registry

section

variable (config : Config) {walk : Walk} {registry : Registry}

theorem Walk.run_tableNamed (source : SelectItem) (hnodup : source.names.Nodup)
    (hfresh : registry.findKnownAs? source.name.text = none) :
    (tableNamed source.name.text source.alias?).run registry = (.ok registry.size,
      { registry with tables := registry.tables ++ [source.table registry.size] }) := by
  have hcreated : (knownAs source.name.text).run registry =
      (.ok registry.size, registry.create { name := .named source.name.text }) := by
    rw [run_knownAs_of_none hfresh, Run.run_create]
  rw [tableNamed_eq, Run.run_bind_ok _ hcreated]
  unfold SelectItem.table
  cases halias : source.alias? with
  | none => rfl
  | some other =>
    have hne : source.name.text ≠ other := by
      rintro heq
      rw [SelectItem.names, halias, heq] at hnodup
      simp at hnodup
    have hempty := SelectItem.alias_ne_empty halias
    have hadded : (registry.create { name := .named source.name.text }).addAlias registry.size other =
        { registry with tables := registry.tables ++
            [{ id := registry.size, name := source.name.text, aliases := [other] }] } := by
      have hadmits : Table.addAlias { id := registry.size, name := source.name.text } other =
          { id := registry.size, name := source.name.text, aliases := [other] } := by
        simp [Table.addAlias, Table.admits, Table.isKnownAs, hempty, hne]
      have htables : (registry.create { name := .named source.name.text }).tables =
          registry.tables ++ { id := registry.size, name := source.name.text } :: [] := rfl
      have hsize : registry.tables.length = registry.size := rfl
      rw [Registry.addAlias, Registry.modify_eq htables hsize, hadmits]
      rfl
    have hgiven : (giveAlias registry.size (some other)).run
        (registry.create { name := .named source.name.text }) = (.ok (), _) :=
      Run.run_modify _ _
    rw [Run.run_bind_ok _ hgiven, hadded]
    rfl

def sourceTables (id : Nat) : List SelectItem → List Table
  | [] => []
  | source :: sources => source.table id :: sourceTables (id + 1) sources

section

variable (text : String) {before behind : List Table} {own : Table}
  (htables : registry.tables = before ++ own :: behind) (hown : walk.table = some before.length)
  (hlinks : ∀ id ∈ own.links, id < registry.size)

include htables hown hlinks

/-- A source that is not known yet is registered behind all tables, and the table of the query is
linked to it. -/
theorem Walk.run_source (source : SelectItem) (hnodup : source.names.Nodup)
    (hfresh : registry.findKnownAs? source.name.text = none) :
    (Walk.record config .fromList text walk (.source source.name.text source.alias?)).run registry =
      (.ok { walk with anchor := some registry.size },
        { registry with
          tables := before ++ { own with links := own.links ++ [registry.size] } ::
            (behind ++ [source.table registry.size]) }) := by
  rw [Walk.record, Run.run_bind_ok _ (Walk.run_tableNamed source hnodup hfresh),
    addSource_of_ne (by decide), ownTable_of_eq_some hown, pure_bind,
    Run.run_bind_ok _ (Run.run_link _ _ _), Registry.link_behind htables hlinks, Run.run_pure]

/-- The table of a query is linked to its sources one after the other. -/
theorem Walk.run_sources (sources : List SelectItem)
    (hnodup : (sources.flatMap SelectItem.names).Nodup)
    (hfresh : ∀ source ∈ sources, ∀ name ∈ source.names, registry.findKnownAs? name = none) :
    ∃ anchor, ((sources.map fun source => Finding.source source.name.text source.alias?).foldlM
        (Walk.record config .fromList text) walk).run registry =
      (.ok { walk with anchor }, { registry with tables :=
        before ++ { own with links := own.links ++ List.range' registry.size sources.length } ::
          (behind ++ sourceTables registry.size sources) }) := by
  induction sources generalizing walk registry behind own with
  | nil =>
    refine ⟨walk.anchor, ?_⟩
    have hsame : { registry with tables := before ++ own :: behind } = registry := by rw [← htables]
    simp only [List.map_nil, List.foldlM_nil, List.length_nil, List.range'_zero, List.append_nil,
      sourceTables, hsame]
    rfl
  | cons source sources ih =>
    rw [List.flatMap_cons, List.nodup_append] at hnodup
    obtain ⟨hnames, hothers, hapart⟩ := hnodup
    have hknown := hfresh source List.mem_cons_self
    have hrecord := Walk.run_source config text htables hown hlinks source hnames
      (hknown _ List.mem_cons_self)
    let read : Table := { own with links := own.links ++ [registry.size] }
    let later : Registry := { registry with
      tables := before ++ read :: (behind ++ [source.table registry.size]) }
    have hsize : later.size = registry.size + 1 := Registry.size_behind htables rfl
    have hbelow : ∀ id ∈ read.links, id < later.size := hsize ▸ Registry.lt_of_mem_behind hlinks
    have hstill : ∀ other ∈ sources, ∀ name ∈ other.names, later.findKnownAs? name = none := by
      intro other hother name hname
      have hnot : name ∉ source.names := fun hmem =>
        hapart name hmem name (List.mem_flatMap.2 ⟨other, hother, hname⟩) rfl
      have hread : read.isKnownAs name = own.isKnownAs name := rfl
      exact Registry.findKnownAs?_behind htables (hfresh other (List.mem_cons_of_mem _ hother) name hname)
        hread (source.isKnownAs_table _ hnot) rfl
    have hownNext : ({ walk with anchor := some registry.size } : Walk).table = some before.length := hown
    have htablesNext : later.tables = before ++ read :: (behind ++ [source.table registry.size]) := rfl
    obtain ⟨anchor, hrun⟩ := ih htablesNext hownNext hbelow hothers hstill
    refine ⟨anchor, ?_⟩
    rw [List.map_cons, List.foldlM_cons, Run.run_bind_ok _ hrecord, hrun, hsize, List.length_cons,
      List.range'_succ, sourceTables]
    simp only [read, later, List.append_assoc, List.singleton_append]

end

theorem Walk.step_sources (descend : Node → Option Nat → Bool → Run Unit) (clause : Clause)
    (sources : List SelectItem) (comment text : String) :
    Walk.step descend config walk (.read clause (.sources (sources.map fun source =>
        .named source.name.text source.alias?)) comment text) =
      (sources.map fun source => Finding.source source.name.text source.alias?).foldlM
        (Walk.record config clause text) walk := by
  have hresolved : (sources.map fun source : SelectItem =>
      Source.named source.name.text source.alias?).mapM (Source.resolve descend) =
        pure (sources.map fun source => Finding.source source.name.text source.alias?) := by
    induction sources with
    | nil => rfl
    | cons source sources ih => simp [ih, Source.resolve]
  rw [Walk.step, Reading.resolve, hresolved, pure_bind]

end

/-- What is registered when the select list of a query has been read. -/
def Registry.withColumns (attributes : List Attribute) : Registry where
  tables := [{ id := 0, name := "select-1", attributes }]
  selects := 1

def Walk.listed : Walk :=
  { Walk.selected none 0 with listRead := true }

theorem Walk.run_selectList (descend : Node → Option Nat → Bool → Run Unit) (config : Config)
    (attributes : List Attribute) (comment text : String) :
    ([Step.select, .read .selectList (.columns attributes) comment text].foldlM
      (Walk.step descend config) (Walk.start none false)).run .empty =
        (.ok .listed, .withColumns attributes) := by
  have hselect : (Walk.step descend config (.start none false) .select).run .empty =
      (.ok (.selected none 0), { tables := [{ id := 0, name := "select-1" }], selects := 1 }) := by
    have hnumber : Registry.selected =
        { tables := [{ id := 0, name := "select-1" }], selects := 1 } := by decide +kernel
    rw [← hnumber]
    rfl
  rw [List.foldlM_cons, Run.run_bind_ok _ hselect]
  rfl

namespace SelectFrom

def registry (query : SelectFrom) (source : String) : Registry where
  tables := {
      id := 0
      name := "select-1"
      attributes := query.items.map ListItem.toAttribute
      source
      links := List.range' 1 query.sources.length } :: sourceTables 1 query.sources
  selects := 1

theorem findKnownAs?_eq_none (query : SelectFrom) (attributes : List Attribute) :
    ∀ source ∈ query.sources, ∀ name ∈ source.names,
      (Registry.withColumns attributes).findKnownAs? name = none := by
  intro source _ name hname
  have hne : "select-1" ≠ name := by
    rcases List.mem_cons.1 hname with rfl | hname
    · exact source.name.ne_numbered .select 1
    · cases source with
      | bare _ => cases hname
      | aliased _ _ other =>
        obtain rfl := List.mem_singleton.1 hname
        exact other.isPlain.ne_numbered .select 1
  simp [Registry.findKnownAs?, Registry.withColumns, Table.isKnownAs, hne]

end SelectFrom

/-- A query has its items for its columns, in their order and as often as they are listed, and is
linked to its sources in their order; each source has its alias, if it is given one. -/
theorem analyze_selectFrom (config : Config) (query : SelectFrom)
    (hnames : (query.sources.flatMap SelectItem.names).Nodup) :
    analyze config query.text = .ok (query.registry
      ((if config.captureSource then Walk.selectText? query.text else none).getD "")) := by
  obtain ⟨first, second, hsteps⟩ := query.ofNode_tree
  generalize hlist : query.items.map ListItem.toAttribute = attributes at hsteps
  have hsplit : ∀ step last : Step, [Step.select, .read .selectList (.columns attributes) "" first,
      step, last] = [Step.select, .read .selectList (.columns attributes) "" first] ++ [step, last] :=
    fun _ _ => rfl
  have hown : Walk.listed.table = some ([] : List Table).length := rfl
  have htables : (Registry.withColumns attributes).tables =
      [] ++ { id := 0, name := "select-1", attributes } :: [] := rfl
  obtain ⟨anchor, hsources⟩ := Walk.run_sources config second htables hown (by simp) query.sources
    hnames (query.findKnownAs?_eq_none attributes)
  rw [analyze_eq_ok_iff (query.statementsOfText_text config.stripComments), Node.depth,
    run_interpretWithin_eq_ok_iff, hsteps, hsplit, List.foldlM_append,
    Run.run_bind_ok _ (Walk.run_selectList _ config attributes "" first), List.foldlM_cons,
    Walk.step_sources, Run.run_bind_ok _ hsources, List.foldlM_cons, Walk.step, bind_assoc,
    Run.run_bind_ok _ (Walk.run_finish rfl config query.text _)]
  subst hlist
  exact ⟨_, rfl⟩

/-- A query with wildcards, an item that is listed twice and aliases of both forms. -/
def SelectFrom.twoSources : SelectFrom where
  firstItem := .all
  otherItems := [.allOf ⟨.a, [.b]⟩, .column (.aliased ⟨.x, []⟩ false .y), .column (.bare ⟨.x, []⟩),
    .column (.bare ⟨.x, []⟩)]
  firstSource := .aliased ⟨.a, [.b]⟩ true .c
  otherSources := [.bare ⟨.d, []⟩]

theorem analyze_selectFrom_twoSources :
    analyze {} "SELECT *, a.b.*, x y, x, x FROM a.b AS c, d" = .ok
      { tables := [
          { id := 0, name := "select-1"
            attributes := [.ofName "*", .ofName "a.b.*", .aliased "x" (some "y"), .ofName "x", .ofName "x"]
            source := "SELECT *, a.b.*, x y, x, x FROM a.b AS c, d", links := [1, 2] },
          { id := 1, name := "a.b", aliases := ["c"] }, { id := 2, name := "d" }]
        selects := 1 } := by
  have htext : SelectFrom.twoSources.text = "SELECT *, a.b.*, x y, x, x FROM a.b AS c, d" := by
    decide +kernel
  rw [← htext, analyze_selectFrom {} .twoSources (by decide)]
  decide +kernel

end QueryLineage
