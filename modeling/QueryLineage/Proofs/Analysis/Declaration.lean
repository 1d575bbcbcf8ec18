import QueryLineage.Proofs.Analysis.Conditions
import QueryLineage.Proofs.Clause.Declaration

/-!
# Common tables that declare their columns

The columns that a common table declares are filled in from the left with those of its query, and
what is left over of the query comes behind them. If the query has too few, nothing is filled in and
the run ends there.
-/

namespace QueryLineage

open Text

/-- Every column takes the name of the item at its place and keeps its own as an alias. -/
theorem Attribute.fillPlaceholders_placeholders {columns : List String} {produced : List Attribute}
    (h : columns.length ≤ produced.length) :
    fillPlaceholders (columns.map placeholder) produced =
      List.zipWith (fun column item => { item with alias? := some column }) columns produced ++
        produced.drop columns.length := by
  induction columns generalizing produced with
  | nil => rfl
  | cons column columns ih =>
    cases produced with
    | nil => exact absurd h (Nat.not_succ_le_zero _)
    | cons first produced =>
      have hrest := ih (Nat.le_of_succ_le_succ h)
      rw [List.map_cons, fillPlaceholders, if_pos (isPlaceholder_placeholder column), hrest]
      rfl

theorem Attribute.filter_isPlaceholder_placeholders (columns : List String) :
    (columns.map placeholder).filter isPlaceholder = columns.map placeholder := by
  rw [List.filter_eq_self]
  intro column hcolumn
  obtain ⟨other, -, rfl⟩ := List.mem_map.1 hcolumn
  exact isPlaceholder_placeholder other

section

variable {id : Nat} {registry : Registry} {table : Table} {produced : List Attribute}
  (hfind : registry.find? id = some table)
include hfind

theorem Walk.run_fill
    (h : (table.attributes.filter Attribute.isPlaceholder).length ≤ produced.length) :
    (Walk.fill id produced).run registry = (.ok (), registry.modify id fun table =>
      { table with attributes := Attribute.fillPlaceholders table.attributes produced }) := by
  rw [Walk.fill, Run.run_bind_ok _ (Run.run_get registry), hfind]
  dsimp only
  rw [if_neg (Nat.not_lt.2 h), Run.run_change]

theorem Walk.run_fill_of_lt
    (h : produced.length < (table.attributes.filter Attribute.isPlaceholder).length) :
    (Walk.fill id produced).run registry = (.error (.aliasCountMismatch table.name
      (table.attributes.filter Attribute.isPlaceholder).length produced.length), registry) := by
  rw [Walk.fill, Run.run_bind_ok _ (Run.run_get registry), hfind]
  dsimp only
  rw [if_pos h, Run.run_throw]

end

/-- An entry of which the query fails is registered nevertheless. -/
theorem Walk.run_entry_of_error {descend : Node → Option Nat → Bool → Run Unit} (config : Config)
    {walk : Walk} {registry after : Registry} {node : Node} {entry : CommonTable} {error : LineageError}
    {comment text : String} (hentry : CommonTable.ofNode node = .ok entry)
    (hrun : (descend entry.body (some registry.size) (!entry.columns.isEmpty)).run (registry.create
      { name := .named entry.name
        attributes := entry.columns.map .placeholder
        comment := entry.comment?.getD comment
        source := if config.captureSource then trim node.text else "" }) = (.error error, after)) :
    (Walk.step descend config walk
        (.read .withList (.entries [node]) comment text)).run registry = (.error error, after) := by
  have hregister : (CommonTable.register descend config comment node).run registry =
      (.error error, after) := by
    have hread : (liftM (CommonTable.ofNode node) : Run CommonTable).run registry =
        (.ok entry, registry) := by
      rw [hentry]
      rfl
    rw [CommonTable.register, Run.run_bind_ok _ hread, Run.run_bind_ok _ (Run.run_create _ _),
      Run.run_bind_error _ hrun]
  rw [Walk.step, Reading.resolve, List.mapM_cons, bind_assoc, bind_assoc,
    Run.run_bind_error _ hregister]

namespace Declaration

variable (table : Declaration) (config : Config)

def filled : List Attribute :=
  List.zipWith (fun (column : PlainName) (item : SelectItem) =>
      .aliased item.name.text (some column.text)) table.columns table.items ++
    (table.items.drop table.columns.length).map SelectItem.toAttribute

def declared (source : String) : Table where
  id := 0
  name := table.name.text
  attributes := (table.columns.map PlainName.text).map .placeholder
  source := source

def completed (source : String) : Table where
  id := 0
  name := table.name.text
  attributes := table.filled
  source := source
  links := [1]

theorem fillPlaceholders_declared (h : table.columns.length ≤ table.items.length) (source : String) :
    Attribute.fillPlaceholders (table.declared source).attributes
      (table.items.map SelectItem.toAttribute) = table.filled := by
  have hitem : ∀ (column : PlainName) (item : SelectItem),
      ({ item.toAttribute with alias? := some column.text } : Attribute) =
        .aliased item.name.text (some column.text) := by
    rintro column (_ | _) <;> rfl
  rw [declared, Attribute.fillPlaceholders_placeholders (by simpa using h), List.zipWith_map,
    List.length_map, ← List.map_drop, filled]
  congr 2
  funext column item
  exact hitem column item

theorem length_declared (source : String) :
    ((table.declared source).attributes.filter Attribute.isPlaceholder).length =
      table.columns.length := by
  rw [declared, Attribute.filter_isPlaceholder_placeholders, List.length_map, List.length_map]

variable {descend : Node → Option Nat → Bool → Run Unit}

/-- The first select list that is read into a table with declared columns fills them in. -/
theorem step_selectList (attributes : List Attribute) (text : String) :
    Walk.step descend config (Walk.start (some 0) true)
        (.read .selectList (.columns attributes) "" text) =
      Walk.fill 0 attributes >>= fun _ => pure { Walk.selected (some 0) 0 with listRead := true } := by
  have hown : (Walk.start (some 0) true).table = some 0 := rfl
  rw [Walk.step, Reading.resolve, pure_bind, List.foldlM_cons, Walk.record, Walk.addColumns,
    Walk.ownTable_of_eq_some hown, pure_bind]
  simp only [List.foldlM_nil, bind_pure]
  rfl

theorem run_select (registry : Registry) :
    (Walk.step descend config (Walk.start (some 0) true) .select).run registry =
      (.ok (Walk.start (some 0) true), registry) := rfl

theorem run_body (h : table.columns.length ≤ table.items.length)
    (hne : table.name.text ≠ table.source.text) (n : Nat) (entry : String) :
    ∃ source, (interpretWithin config (n + 1) table.body (some 0) true).run
        { tables := [table.declared entry] } =
      (.ok (), { tables := [table.completed source, { id := 1, name := table.source.text }] }) := by
  obtain ⟨first, second, text, hsteps⟩ := table.exists_ofNode_body
  have hfind : Registry.find? { tables := [table.declared entry] } 0 = some (table.declared entry) := rfl
  have hle : ((table.declared entry).attributes.filter Attribute.isPlaceholder).length ≤
      (table.items.map SelectItem.toAttribute).length := by
    rwa [table.length_declared, List.length_map]
  have hfill : (Walk.fill 0 (table.items.map SelectItem.toAttribute)).run
      { tables := [table.declared entry] } =
        (.ok (), { tables := [{ table.declared entry with attributes := table.filled }] }) := by
    rw [Walk.run_fill hfind hle, ← table.fillPlaceholders_declared h entry]
    rfl
  have hfresh : Registry.findKnownAs?
      { tables := [{ table.declared entry with attributes := table.filled }] } table.source.text =
        none := by
    simp [Registry.findKnownAs?, Table.isKnownAs, declared, hne]
  have hsource : (Walk.step (interpretWithin config n) config
      { Walk.selected (some 0) 0 with listRead := true }
      (.read .fromList (.sources [.named table.source.text none]) "" second)).run
        { tables := [{ table.declared entry with attributes := table.filled }] } =
      (.ok { Walk.selected (some 0) 0 with listRead := true, anchor := some 1 },
        { tables := [table.completed entry, { id := 1, name := table.source.text }] }) :=
    Walk.run_unknown config .fromList hfresh
  refine ⟨(if config.captureSource then Walk.selectText? text else none).getD entry, ?_⟩
  rw [run_interpretWithin_eq_ok_iff, hsteps, List.foldlM_cons, Run.run_bind_ok _ (run_select config _),
    List.foldlM_cons, step_selectList, bind_assoc, Run.run_bind_ok _ hfill, pure_bind,
    List.foldlM_cons, Run.run_bind_ok _ hsource, List.foldlM_cons, Walk.step, bind_assoc,
    Run.run_bind_ok _ (Walk.run_finish rfl config text _)]
  exact ⟨_, rfl⟩

/-- Where the query has too few columns, nothing is recorded. -/
theorem run_body_of_lt (h : table.items.length < table.columns.length) (n : Nat) (entry : String) :
    (interpretWithin config (n + 1) table.body (some 0) true).run { tables := [table.declared entry] } =
      (.error (.aliasCountMismatch table.name.text table.columns.length table.items.length),
        { tables := [table.declared entry] }) := by
  obtain ⟨first, second, text, hsteps⟩ := table.exists_ofNode_body
  have hfind : Registry.find? { tables := [table.declared entry] } 0 = some (table.declared entry) := rfl
  have hlt : (table.items.map SelectItem.toAttribute).length <
      ((table.declared entry).attributes.filter Attribute.isPlaceholder).length := by
    rwa [table.length_declared, List.length_map]
  have hfill := Walk.run_fill_of_lt hfind hlt
  rw [table.length_declared, List.length_map] at hfill
  rw [interpretWithin, hsteps, List.foldlM_cons, bind_assoc, Run.run_bind_ok _ (run_select config _),
    List.foldlM_cons, step_selectList, bind_assoc, bind_assoc, Run.run_bind_error _ hfill]
  rfl

theorem statementsOfText_text (stripComments : Bool) :
    Node.statementsOfText table.text stripComments =
      .ok [.group .statement (Node.withNode :: Node.spaceNode :: .group .identifier table.entry ::
        Node.spaceNode :: Node.selectNode :: Node.spaceNode :: Node.starNode :: Node.spaceNode ::
        Node.fromNode :: Node.spaceNode :: [.group .identifier [Node.nameNode table.name.text]])] := by
  rw [table.written.statementsOfText rfl, Node.statement, table.groupAll_nodes]

end Declaration

/-- A common table that declares columns gets the names of the items of its query in their order,
each under the declared column at its place; further items keep their own aliases. If there are fewer
items than columns, the run fails and leaves the table as it was declared. -/
theorem run_process_declaration (config : Config) (table : Declaration)
    (hne : table.name.text ≠ table.source.text) :
    (table.columns.length ≤ table.items.length → ∃ entry query,
      (process config table.text).run .empty = (.ok (),
        { tables := [table.completed entry, { id := 1, name := table.source.text },
            .star 2 "select-1" [0] query]
          selects := 1 })) ∧
    (table.items.length < table.columns.length → ∃ entry,
      (process config table.text).run .empty =
        (.error (.aliasCountMismatch table.name.text table.columns.length table.items.length),
          { tables := [table.declared entry] })) := by
  have htree := table.statementsOfText_text config.stripComments
  obtain ⟨before, comment, text, hsteps⟩ := @Step.exists_ofNode_asCommonTable table.name.text
    (.group .identifier table.entry) (Or.inl rfl) [] (by simp)
  rw [List.map_nil, List.nil_append] at hsteps
  obtain ⟨n, hdepth⟩ : ∃ n, Node.depthAll (Node.withNode :: Node.spaceNode ::
      .group .identifier table.entry :: Node.spaceNode :: Node.selectNode :: Node.spaceNode ::
      Node.starNode :: Node.spaceNode :: Node.fromNode :: Node.spaceNode ::
      [.group .identifier [Node.nameNode table.name.text]]) = n + 1 :=
    Nat.exists_eq_succ_of_ne_zero
      (Nat.ne_of_gt (@Node.depthAll_pos .identifier table.entry _ (by simp)))
  have hentry := table.ofNode_entry
  rw [run_process_of_single htree, interpret, Node.depth, hdepth]
  constructor
  · intro h
    obtain ⟨source, hrun⟩ := table.run_body config h hne n
      (if config.captureSource then trim (Node.group .identifier table.entry).text else "")
    have hfound : ((Registry.create { tables := [table.completed source,
        { id := 1, name := table.source.text }] } { name := .generated .select }).modify 2
          (·.appendAttributes [.ofName "*"])).findKnownAs? table.name.text =
            some (table.completed source) := by
      have hname : table.name.text = (table.completed source).name := rfl
      rw [hname]
      exact Registry.findKnownAs?_of_head rfl
    have hid : (table.completed source).id <
        Registry.size { tables := [table.completed source, { id := 1, name := table.source.text }] } :=
      Nat.two_pos
    have hnumber : selectName 1 = "select-1" := by decide
    refine ⟨source, (if config.captureSource then Walk.selectText? text else none).getD "",
      (run_asCommonTable hsteps hentry rfl hrun hfound hid).trans ?_⟩
    rw [← hnumber]
    rfl
  · intro h
    refine ⟨if config.captureSource then trim (Node.group .identifier table.entry).text else "", ?_⟩
    have hrun := table.run_body_of_lt config h n
      (if config.captureSource then trim (Node.group .identifier table.entry).text else "")
    have hfailed : (Walk.step (interpretWithin config (n + 1)) config (Walk.start none false)
        (.read .withList (.entries [.group .identifier table.entry]) "" before)).run .empty = _ :=
      Walk.run_entry_of_error config hentry hrun
    rw [interpretWithin, hsteps, List.foldlM_cons, bind_assoc, Run.run_bind_error _ hfailed]

/-- One column for two items, of which the first has an alias of its own. -/
def Declaration.twoItems : Declaration where
  name := .c
  firstColumn := .x
  otherColumns := []
  firstItem := .aliased ⟨.a, [.b]⟩ true .y
  otherItems := [.aliased ⟨.d, []⟩ false .z]
  source := .t

/-- Two columns for one item. -/
def Declaration.twoColumns : Declaration where
  name := .c
  firstColumn := .x
  otherColumns := [.y]
  firstItem := .bare ⟨.a, []⟩
  otherItems := []
  source := .t

theorem run_process_declaration_counts :
    (∃ entry query,
      (process {} "WITH c(x) AS (SELECT a.b AS y, d z FROM t) SELECT * FROM c").run .empty =
        (.ok (), {
          tables := [
            { id := 0, name := "c", source := entry, links := [1]
              attributes := [.aliased "a.b" (some "x"), .aliased "d" (some "z")] },
            { id := 1, name := "t" }, .star 2 "select-1" [0] query]
          selects := 1 })) ∧
    ∃ entry, (process {} "WITH c(x, y) AS (SELECT a FROM t) SELECT * FROM c").run .empty =
      (.error (.aliasCountMismatch "c" 2 1), {
        tables := [
          { id := 0, name := "c", source := entry
            attributes := [.placeholder "x", .placeholder "y"] }] }) := by
  have hitems : Declaration.twoItems.text =
      "WITH c(x) AS (SELECT a.b AS y, d z FROM t) SELECT * FROM c" := by decide +kernel
  have hcolumns : Declaration.twoColumns.text =
      "WITH c(x, y) AS (SELECT a FROM t) SELECT * FROM c" := by decide +kernel
  constructor
  · obtain ⟨entry, query, hrun⟩ :=
      (run_process_declaration {} .twoItems (by decide)).1 (by decide)
    rw [hitems] at hrun
    exact ⟨entry, query, hrun⟩
  · obtain ⟨entry, hrun⟩ := (run_process_declaration {} .twoColumns (by decide)).2 (by decide)
    rw [hcolumns] at hrun
    exact ⟨entry, hrun⟩

end QueryLineage
