import QueryLineage.Proofs.Analysis.SelectFrom
import QueryLineage.Proofs.Clause.Compound

/-!
# What branches with set operators between them read

At the top every branch has a table of its own. In parentheses all of them are read into the table of
the query around them: the columns of the first branch are appended there, and those of the others are
merged with what is there. The conditions of a branch are put on the columns right behind its own.
-/

namespace QueryLineage

namespace Branch

variable (branch : Branch)

/-- The columns of a table once the branch has been read into it, as the first one or as another. -/
def readInto (another : Bool) (attributes : List Attribute) : List Attribute :=
  Attribute.updateAll
    (if another then Attribute.mergeAll attributes branch.columns else attributes ++ branch.columns)
    branch.conditions

/-- The columns of a table once branches have been read into it, one after the other. -/
def readAll (another : Bool) (attributes : List Attribute) : List Branch → List Attribute
  | [] => attributes
  | branch :: branches => readAll true (branch.readInto another attributes) branches

def table (number : Nat) (source : String) : Table where
  id := 2 * number
  name := selectName (number + 1)
  attributes := branch.readInto false []
  source
  links := [2 * number + 1]

def sourceTable (id : Nat) : Table where
  id
  name := branch.source.text

end Branch

/-- The tables of branches at the top, from the given number on. Only the last of them gets the
text of its query. -/
def branchTables (source : String) (number : Nat) : List Branch → List Table
  | [] => []
  | branch :: branches =>
    branch.table number (if branches.isEmpty then source else "") ::
      branch.sourceTable (2 * number + 1) :: branchTables source (number + 1) branches

def branchSources (id : Nat) : List Branch → List Table
  | [] => []
  | branch :: branches => branch.sourceTable id :: branchSources (id + 1) branches

section

variable (descend : Node → Option Nat → Bool → Run Unit) (config : Config) {walk : Walk}
  {registry : Registry} {before behind : List Table} {own : Table}

/-- What a select list does to a table that has not declared its columns, as the first one or as
another. -/
def Table.addColumns (table : Table) (another : Bool) (attributes : List Attribute) : Table :=
  if another then table.mergeAttributes attributes else table.appendAttributes attributes

omit descend config in
theorem Walk.addColumns_eq {id : Nat} (hown : walk.table = some id) (hdeclared : walk.declared = false)
    (attributes : List Attribute) :
    walk.addColumns attributes = (do
      Run.change id (·.addColumns walk.listRead attributes)
      pure { walk with listRead := true }) := by
  obtain ⟨enclosing, table, declared, listRead, lastJoin, anchor⟩ := walk
  obtain rfl : declared = false := hdeclared
  obtain rfl : table = some id := hown
  cases listRead <;> rfl

section

variable (htables : registry.tables = before ++ own :: behind) (hown : walk.table = some before.length)
include htables hown

theorem Walk.run_columns (hdeclared : walk.declared = false) (attributes : List Attribute)
    (comment text : String) :
    (Walk.step descend config walk
        (.read .selectList (.columns attributes) comment text)).run registry =
      (.ok { walk with listRead := true },
        { registry with
          tables := before ++ own.addColumns walk.listRead attributes :: behind }) := by
  rw [Walk.step, Reading.resolve, pure_bind, List.foldlM_cons, Walk.record,
    Walk.addColumns_eq hown hdeclared, bind_assoc, Run.run_bind_ok _ (Run.run_change _ _ _),
    Registry.modify_eq htables rfl]
  rfl

theorem Walk.run_newSource {name : String} (hlinks : ∀ id ∈ own.links, id < registry.size)
    (hfresh : registry.findKnownAs? name = none) (comment text : String) :
    (Walk.step descend config walk
        (.read .fromList (.sources [.named name none]) comment text)).run registry =
      (.ok { walk with anchor := some registry.size },
        { registry with
          tables := before ++ { own with links := own.links ++ [registry.size] } ::
            (behind ++ [{ id := registry.size, name }]) }) := by
  have hcreated : registry.create { name := .named name } = { registry with
      tables := registry.tables ++ [{ id := registry.size, name }] } := rfl
  rw [Walk.run_unknown config .fromList hfresh, Walk.addSource_of_ne (by decide),
    Walk.ownTable_of_eq_some hown, pure_bind, Run.run_bind_ok _ (Run.run_link _ _ _), hcreated,
    Registry.link_behind htables hlinks, Run.run_pure]

theorem Walk.run_clause (branch : Branch) :
    ((branch.restriction?.elim [] fun restriction => [Step.restrict restriction.attributes]).foldlM
        (Walk.step descend config) walk).run registry =
      (.ok walk,
        { registry with
          tables := before ++ own.updateAttributes branch.conditions :: behind }) := by
  rw [Branch.conditions]
  cases branch.restriction? with
  | none =>
    have hsame : { registry with tables := before ++ own :: behind } = registry := by rw [← htables]
    exact congrArg (fun registry => (Except.ok walk, registry)) hsame.symm
  | some restriction =>
    rw [Option.elim_some, Option.elim_some, List.foldlM_cons, Walk.step, Walk.restrict,
      Walk.ownTable_of_eq_some hown, pure_bind, bind_assoc, Run.run_bind_ok _ (Run.run_change _ _ _),
      Registry.modify_eq htables rfl]
    rfl

theorem Walk.run_branch (branch : Branch) (hdeclared : walk.declared = false)
    (hlinks : ∀ id ∈ own.links, id < registry.size)
    (hfresh : registry.findKnownAs? branch.source.text = none) :
    (branch.steps.foldlM (Walk.step descend config) walk).run registry =
      (.ok { walk with listRead := true, anchor := some registry.size },
        { registry with
          tables := before ++ { own with
            attributes := branch.readInto walk.listRead own.attributes
            links := own.links ++ [registry.size] } ::
              (behind ++ [branch.sourceTable registry.size]) }) := by
  have hsize : Registry.size { registry with
      tables := before ++ own.addColumns walk.listRead branch.columns :: behind } = registry.size := by
    rw [Registry.size, Registry.size, htables, List.length_append, List.length_append,
      List.length_cons, List.length_cons]
  have hkept : (own.addColumns walk.listRead branch.columns).links = own.links ∧
      (own.addColumns walk.listRead branch.columns).isKnownAs branch.source.text =
        own.isKnownAs branch.source.text := by
    rw [Table.addColumns]
    split <;> exact ⟨rfl, rfl⟩
  have hstill : Registry.findKnownAs? { registry with
      tables := before ++ own.addColumns walk.listRead branch.columns :: behind }
        branch.source.text = none := by
    simp only [Registry.findKnownAs?_eq_none, htables, List.forall_mem_append,
      List.forall_mem_cons, hkept.2] at hfresh ⊢
    exact hfresh
  have hlisted : ({ walk with listRead := true } : Walk).table = some before.length := hown
  have hread : ({ walk with listRead := true, anchor := some registry.size } : Walk).table =
      some before.length := hown
  have hsource := fun text => Walk.run_newSource descend config rfl hlisted
    (by rwa [hsize, hkept.1]) hstill "" text
  rw [hsize] at hsource
  have htaken : Table.updateAttributes { own.addColumns walk.listRead branch.columns with
      links := (own.addColumns walk.listRead branch.columns).links ++ [registry.size] }
        branch.conditions = { own with
          attributes := branch.readInto walk.listRead own.attributes
          links := own.links ++ [registry.size] } := by
    rw [Branch.readInto, Table.addColumns]
    cases walk.listRead <;> rfl
  rw [Branch.steps, List.cons_append, List.cons_append, List.nil_append, List.foldlM_cons,
    Run.run_bind_ok _ (Walk.run_columns descend config htables hown hdeclared _ _ _),
    List.foldlM_cons, Run.run_bind_ok _ (hsource branch.head),
    Walk.run_clause descend config rfl hread branch, htaken]
  rfl

end

theorem Branch.isKnownAs_sourceTable {branch : Branch} {name : String}
    (hname : branch.source.text ≠ name) (id : Nat) : (branch.sourceTable id).isKnownAs name = false := by
  simpa [Branch.sourceTable, Table.isKnownAs] using hname

/-- Branches inside a query are read into its table one after the other. -/
theorem Walk.run_branchesInside (branches : List Branch)
    (htables : registry.tables = before ++ own :: behind) {enclosing : Nat}
    (henclosing : walk.enclosing = some enclosing) (hown : walk.table = some before.length)
    (hdeclared : walk.declared = false) (hlinks : ∀ id ∈ own.links, id < registry.size)
    (hnames : (branches.map fun branch => branch.source.text).Nodup)
    (hfresh : ∀ branch ∈ branches, registry.findKnownAs? branch.source.text = none) :
    ∃ last : Walk, last.table = some before.length ∧
      ((branches.flatMap fun branch => .select :: branch.steps).foldlM
          (Walk.step descend config) walk).run registry =
        (.ok last,
          { registry with
            tables := before ++ { own with
              attributes := Branch.readAll walk.listRead own.attributes branches
              links := own.links ++ List.range' registry.size branches.length } ::
                (behind ++ branchSources registry.size branches) }) := by
  induction branches generalizing walk registry own behind with
  | nil =>
    refine ⟨walk, hown, ?_⟩
    have hsame : { registry with tables := before ++ own :: behind } = registry := by rw [← htables]
    simp only [List.flatMap_nil, List.foldlM_nil, List.length_nil, List.range'_zero, List.append_nil,
      branchSources, Branch.readAll, hsame]
    rfl
  | cons branch branches ih =>
    rw [List.map_cons, List.nodup_cons] at hnames
    have hselect : (Walk.step descend config walk .select).run registry =
        (.ok { walk with lastJoin := none, anchor := none }, registry) := by
      rw [Walk.step, Walk.select, henclosing]
      rfl
    let read : Table := { own with
      attributes := branch.readInto walk.listRead own.attributes
      links := own.links ++ [registry.size] }
    let later : Registry := { registry with
      tables := before ++ read :: (behind ++ [branch.sourceTable registry.size]) }
    let next : Walk := { walk with listRead := true, lastJoin := none, anchor := some registry.size }
    have hstart : ({ walk with lastJoin := none, anchor := none } : Walk).table = some before.length :=
      hown
    have hbranch : (branch.steps.foldlM (Walk.step descend config)
        { walk with lastJoin := none, anchor := none }).run registry = (.ok next, later) :=
      Walk.run_branch descend config htables hstart branch hdeclared hlinks
        (hfresh branch List.mem_cons_self)
    have hsize : later.size = registry.size + 1 := Registry.size_behind htables rfl
    have hbelow : ∀ id ∈ read.links, id < later.size := hsize ▸ Registry.lt_of_mem_behind hlinks
    have hstill : ∀ other ∈ branches, later.findKnownAs? other.source.text = none := by
      intro other hother
      have hname : branch.source.text ≠ other.source.text :=
        fun heq => hnames.1 (List.mem_map.2 ⟨other, hother, heq.symm⟩)
      have hread : read.isKnownAs other.source.text = own.isKnownAs other.source.text := rfl
      exact Registry.findKnownAs?_behind htables (hfresh other (List.mem_cons_of_mem _ hother)) hread
        (Branch.isKnownAs_sourceTable hname registry.size) rfl
    have htablesNext : later.tables = before ++ read :: (behind ++ [branch.sourceTable registry.size]) :=
      rfl
    have henclosingNext : next.enclosing = some enclosing := henclosing
    obtain ⟨last, hlast, hothers⟩ := ih htablesNext henclosingNext hown hdeclared hbelow hnames.2 hstill
    refine ⟨last, hlast, ?_⟩
    rw [List.flatMap_cons, List.cons_append, List.foldlM_cons, Run.run_bind_ok _ hselect,
      List.foldlM_append, Run.run_bind_ok _ hbranch, hothers, hsize, List.length_cons,
      List.range'_succ, branchSources, Branch.readAll]
    simp only [read, later, next, List.append_assoc, List.singleton_append]

/-- A branch at the top begins a table of its own. -/
theorem Walk.run_branchAtTop (branch : Branch) (henclosing : walk.enclosing = none)
    (hdeclared : walk.declared = false) {number : Nat} (hsize : registry.size = 2 * number)
    (hselects : registry.selects = number)
    (hfresh : registry.findKnownAs? branch.source.text = none) :
    ((Step.select :: branch.steps).foldlM (Walk.step descend config) walk).run registry =
      (.ok { walk with
          table := some (2 * number), listRead := true, lastJoin := none
          anchor := some (2 * number + 1) },
        { registry with
          tables := registry.tables ++ [branch.table number "", branch.sourceTable (2 * number + 1)]
          selects := number + 1 }) := by
  let own : Table := { id := 2 * number, name := selectName (number + 1) }
  let begun : Registry := { registry with tables := registry.tables ++ [own], selects := number + 1 }
  have hselect : (Walk.step descend config walk .select).run registry =
      (.ok { walk with
        table := some (2 * number), listRead := false, lastJoin := none, anchor := none }, begun) := by
    have hcreated : registry.create { name := .generated .select } = begun := by
      have hcounted : (registry.counted .select).size = 2 * number := hsize
      rw [Registry.create_select _ rfl, Registry.push, hcounted, hselects]
      simp only [begun, own, Registry.counted, hselects]
      rfl
    rw [Walk.step, Walk.select, henclosing, Run.run_bind_ok _ (Run.run_create _ _), hcreated, hsize]
    rfl
  have hown : ({ walk with
      table := some (2 * number), listRead := false, lastJoin := none, anchor := none } : Walk).table =
        some registry.tables.length := congrArg some hsize.symm
  have hbegun : begun.size = 2 * number + 1 := by
    rw [← hsize]
    simp [begun, Registry.size]
  have hstill : begun.findKnownAs? branch.source.text = none := by
    have hname : selectName (number + 1) ≠ branch.source.text := by
      rw [← numbered_select]
      exact branch.source.isPlain.ne_numbered .select _
    simp only [Registry.findKnownAs?_eq_none, begun, List.forall_mem_append] at hfresh ⊢
    refine ⟨hfresh, ?_⟩
    simpa [own, Table.isKnownAs] using hname
  have htables : begun.tables = registry.tables ++ own :: [] := rfl
  have hbranch := Walk.run_branch descend config htables hown branch hdeclared (by simp [own]) hstill
  rw [List.foldlM_cons, Run.run_bind_ok _ hselect, hbranch, hbegun]
  rfl

/-- Branches at the top are read into tables of their own one after the other. -/
theorem Walk.run_branchesAtTop (branch : Branch) (branches : List Branch)
    (henclosing : walk.enclosing = none) (hdeclared : walk.declared = false) {number : Nat}
    (hsize : registry.size = 2 * number) (hselects : registry.selects = number)
    (hnames : ((branch :: branches).map fun branch => branch.source.text).Nodup)
    (hfresh : ∀ other ∈ branch :: branches, registry.findKnownAs? other.source.text = none)
    (text : String) :
    ∃ last, (((branch :: branches).flatMap (fun branch => Step.select :: branch.steps) ++
        [Step.finish text]).foldlM (Walk.step descend config) walk).run registry =
      (.ok last, { registry with
        tables := registry.tables ++ branchTables
          ((if config.captureSource then Walk.selectText? text else none).getD "") number
            (branch :: branches)
        selects := number + (branches.length + 1) }) := by
  induction branches generalizing branch walk registry number with
  | nil =>
    have hbranch := Walk.run_branchAtTop descend config branch henclosing hdeclared hsize hselects
      (hfresh branch List.mem_cons_self)
    have htables : (registry.tables ++ [branch.table number "", branch.sourceTable (2 * number + 1)]) =
        registry.tables ++ branch.table number "" :: [branch.sourceTable (2 * number + 1)] := rfl
    rw [List.flatMap_singleton, List.foldlM_append, Run.run_bind_ok _ hbranch, List.foldlM_cons,
      Walk.step, bind_assoc, Run.run_bind_ok _ (Walk.run_finish rfl config text _),
      Registry.modify_eq htables hsize]
    exact ⟨_, rfl⟩
  | cons other others ih =>
    let later : Registry := { registry with
      tables := registry.tables ++ [branch.table number "", branch.sourceTable (2 * number + 1)]
      selects := number + 1 }
    rw [List.map_cons, List.nodup_cons] at hnames
    have hsizeNext : later.size = 2 * (number + 1) := by
      have hlength : later.size = registry.size + 2 := by simp [later, Registry.size]
      rw [hlength, hsize]
      omega
    have hstill : ∀ next ∈ other :: others, later.findKnownAs? next.source.text = none := by
      intro next hnext
      have hold := hfresh next (List.mem_cons_of_mem _ hnext)
      have hname : selectName (number + 1) ≠ next.source.text := by
        rw [← numbered_select]
        exact next.source.isPlain.ne_numbered .select _
      have hsource : branch.source.text ≠ next.source.text :=
        fun heq => hnames.1 (List.mem_map.2 ⟨next, hnext, heq.symm⟩)
      simp only [Registry.findKnownAs?_eq_none, later, List.forall_mem_append,
        List.forall_mem_cons] at hold ⊢
      exact ⟨hold, by simpa [Branch.table, Table.isKnownAs] using hname,
        Branch.isKnownAs_sourceTable hsource _, by simp⟩
    let next : Walk := { walk with
      table := some (2 * number), listRead := true, lastJoin := none, anchor := some (2 * number + 1) }
    have hbranch : ((Step.select :: branch.steps).foldlM (Walk.step descend config) walk).run registry =
        (.ok next, later) :=
      Walk.run_branchAtTop descend config branch henclosing hdeclared hsize hselects
        (hfresh branch List.mem_cons_self)
    have henclosingNext : next.enclosing = none := henclosing
    obtain ⟨last, hothers⟩ := ih other henclosingNext hdeclared hsizeNext rfl hnames.2 hstill
    refine ⟨last, ?_⟩
    have hcount : number + 1 + (others.length + 1) = number + (others.length + 1 + 1) := by omega
    rw [List.flatMap_cons, List.append_assoc, List.foldlM_append, Run.run_bind_ok _ hbranch, hothers,
      hcount]
    simp only [later, List.append_assoc]
    rfl

end

/-- A query before it reads from another one, and that one before it is read. -/
def Registry.nested (name : String) : Registry where
  tables := [{ id := 0, name := "select-1", attributes := [.ofName "*"] },
    { id := 1, name := "select-2", aliases := [name] }]
  selects := 2

theorem Registry.nested_eq (name : PlainName) :
    (Registry.selected.modify 0 (·.appendAttributes [.ofName "*"])).create
      { name := .generated .select, alias? := some name.text } = .nested name.text := by
  have hselected : Registry.selected.modify 0 (·.appendAttributes [.ofName "*"]) =
      { tables := [{ id := 0, name := "select-1", attributes := [.ofName "*"] }], selects := 1 } := by
    decide +kernel
  have hname : selectName 2 = "select-2" := by decide +kernel
  have hne : "select-2" ≠ name.text := name.isPlain.ne_numbered .select 2
  have halias : Table.addAlias { id := 1, name := "select-2" } name.text =
      { id := 1, name := "select-2", aliases := [name.text] } := by
    simp [Table.addAlias, Table.admits, Table.isKnownAs, name.isPlain.ne_empty, hne]
  have hsize : Registry.size
      { tables := [{ id := 0, name := "select-1", attributes := [.ofName "*"] }], selects := 2 } = 1 :=
    rfl
  rw [hselected, Registry.create_select _ rfl, Registry.counted, Registry.push, hname, hsize,
    Option.elim_some, halias]
  rfl

namespace CompoundQuery

variable (query : CompoundQuery)

def registry (source : String) : Registry where
  tables := branchTables source 0 query.branches
  selects := query.branches.length

def innerTables (name source : String) : List Table :=
  { id := 1
    name := "select-2"
    aliases := [name]
    attributes := Branch.readAll false [] query.branches
    source
    links := List.range' 2 query.branches.length } :: branchSources 2 query.branches

/-- What is registered for a query that reads everything from the query in parentheses. -/
def nestedRegistry (name outer inner : String) : Registry where
  tables :=
    { id := 0, name := "select-1", attributes := [.ofName "*"], source := outer, links := [1] } ::
      query.innerTables name inner
  selects := 2

theorem run_statement (config : Config) (descend : Node → Option Nat → Bool → Run Unit)
    (hnames : (query.branches.map fun branch => branch.source.text).Nodup) :
    ∃ last, ((query.branches.flatMap (fun branch => Step.select :: branch.steps) ++
        [Step.finish query.last.text]).foldlM (Walk.step descend config)
          (Walk.start none false)).run .empty =
      (.ok last, query.registry
        ((if config.captureSource then Walk.selectText? query.last.text else none).getD "")) := by
  have henclosing : (Walk.start none false).enclosing = none := rfl
  have hsize : Registry.empty.size = 2 * 0 := rfl
  obtain ⟨last, hrun⟩ := Walk.run_branchesAtTop descend config query.first
    (query.others.map FurtherBranch.branch) henclosing rfl hsize rfl hnames (fun _ _ => rfl)
    query.last.text
  refine ⟨last, hrun.trans ?_⟩
  rw [Nat.zero_add]
  rfl

theorem run_nested (config : Config) (descend : Node → Option Nat → Bool → Run Unit) (name : PlainName)
    (hnames : (name.text :: query.branches.map fun branch => branch.source.text).Nodup) :
    ∃ last, ((query.branches.flatMap (fun branch => Step.select :: branch.steps) ++
        [Step.finish (query.last.text ++ ")")]).foldlM (Walk.step descend config)
          (Walk.start (some 1) false)).run (.nested name.text) =
      (.ok last,
        { tables := { id := 0, name := "select-1", attributes := [.ofName "*"] } ::
            (query.innerTables name.text ((if config.captureSource then
              Walk.selectText? (query.last.text ++ ")") else none).getD ""))
          selects := 2 }) := by
  rw [List.nodup_cons] at hnames
  have htables : (Registry.nested name.text).tables =
      [{ id := 0, name := "select-1", attributes := [.ofName "*"] }] ++
        { id := 1, name := "select-2", aliases := [name.text] } :: [] := rfl
  have henclosing : (Walk.start (some 1) false).enclosing = some 1 := rfl
  have hfresh : ∀ branch ∈ query.branches,
      (Registry.nested name.text).findKnownAs? branch.source.text = none := by
    intro branch hbranch
    have hfirst : "select-1" ≠ branch.source.text := branch.source.isPlain.ne_numbered .select 1
    have hsecond : "select-2" ≠ branch.source.text := branch.source.isPlain.ne_numbered .select 2
    have hname : branch.source.text ≠ name.text :=
      fun heq => hnames.1 (List.mem_map.2 ⟨branch, hbranch, heq⟩)
    simp [Registry.findKnownAs?, Registry.nested, Table.isKnownAs, hfirst, hsecond, hname]
  obtain ⟨last, hlast, hrun⟩ := Walk.run_branchesInside descend config query.branches htables
    henclosing rfl rfl (by simp) hnames.2 hfresh
  rw [List.foldlM_append, Run.run_bind_ok _ hrun, List.foldlM_cons, Walk.step, bind_assoc,
    Run.run_bind_ok _ (Walk.run_finish hlast config _ _), Registry.modify_eq rfl rfl]
  exact ⟨last, rfl⟩

end CompoundQuery

/-- At the top, the branches of a query with set operators are read into tables of their own, each of
which is linked to the source of its branch and has the conditions of that branch only. In parentheses
they are read into one table one after the other, which is linked to all sources in their order. -/
theorem analyze_compound (config : Config) (query : CompoundQuery) (name : PlainName)
    (hnames : (name.text :: query.branches.map fun branch => branch.source.text).Nodup) :
    analyze config query.text = .ok (query.registry
      ((if config.captureSource then Walk.selectText? query.last.text else none).getD "")) ∧
    ∃ outer, analyze config (asSource query.text name.text) = .ok (query.nestedRegistry name.text outer
      ((if config.captureSource then
        Walk.selectText? (query.last.text ++ ")") else none).getD "")) := by
  refine ⟨?_, ?_⟩
  · obtain ⟨last, hrun⟩ := query.run_statement config (interpretWithin config
      (Node.depthAll (Node.groupedBranches query.first query.others))) (List.nodup_cons.1 hnames).2
    rw [analyze_eq_ok_iff (query.statementsOfText_text config.stripComments), Node.depth,
      run_interpretWithin_eq_ok_iff, query.ofNode_tree]
    exact ⟨last, hrun⟩
  · have htree := query.statementsOfText_asSource name config.stripComments
    have hselect : (Node.enclosed (Node.groupedBranches query.first query.others)).isSubselect =
        true := by
      cases query.others <;> rfl
    obtain ⟨text, hsteps⟩ := Step.exists_ofNode_asSource name.isPlain.ne_empty hselect
    have hpos : 0 < Node.depthAll (Node.selectNode :: Node.spaceNode :: Node.starNode ::
        Node.spaceNode :: Node.fromNode :: Node.spaceNode :: [.group .identifier
          [.enclosed (Node.groupedBranches query.first query.others), Node.spaceNode,
            .group .identifier [Node.nameNode name.text]]]) :=
      Node.depthAll_pos (List.mem_of_getLast? rfl)
    obtain ⟨n, hdepth⟩ := Nat.exists_eq_succ_of_ne_zero (Nat.ne_of_gt hpos)
    obtain ⟨last, hrun⟩ := query.run_nested config (interpretWithin config n) name hnames
    rw [← query.ofNode_enclosed, ← Registry.nested_eq] at hrun
    have hquery := run_asSource hsteps (run_interpretWithin_eq_ok_iff.2 ⟨last, hrun⟩)
    refine ⟨(if config.captureSource then Walk.selectText? text else none).getD "", ?_⟩
    rw [analyze_eq_ok_iff htree, Node.depth, hdepth, hquery, Registry.link,
      if_pos (by simp [Registry.size, CompoundQuery.innerTables])]
    rfl

/-- Three branches, of which the second lists a column twice and has conditions on that column and on
one that it does not list. -/
def CompoundQuery.threeBranches : CompoundQuery where
  first := ⟨.bare ⟨.x, []⟩, [.aliased ⟨.y, []⟩ true .z], .a, none⟩
  others := [
    ⟨.union, ⟨.bare ⟨.y, []⟩, [.bare ⟨.y, []⟩], .b,
      some ⟨⟨⟨.y, []⟩, .equal, ⟨.x, []⟩⟩, [⟨.or, ⟨.d, []⟩, .less, ⟨.z, []⟩⟩]⟩⟩⟩,
    ⟨.except, ⟨.aliased ⟨.c, [.x]⟩ false .z, [], .c, none⟩⟩]

theorem analyze_compound_threeBranches :
    CompoundQuery.threeBranches.text = "SELECT x, y AS z FROM a UNION SELECT y, y FROM b " ++
      "WHERE y = x OR d < z EXCEPT SELECT c.x z FROM c" ∧
    analyze {} CompoundQuery.threeBranches.text = .ok
      { tables := [
          { id := 0, name := "select-1"
            attributes := [.ofName "x", .aliased "y" (some "z")]
            links := [1] },
          { id := 1, name := "a" },
          { id := 2, name := "select-2"
            attributes := [{ name := "y", condition? := some "= x" }, .ofName "y",
              { name := "d", condition? := some "< z" }]
            links := [3] },
          { id := 3, name := "b" },
          { id := 4, name := "select-3"
            attributes := [.aliased "c.x" (some "z")]
            source := "SELECT c.x z FROM c"
            links := [5] },
          { id := 5, name := "c" }]
        selects := 3 } ∧
    ∃ outer, analyze {} (asSource CompoundQuery.threeBranches.text "t") = .ok
      { tables := [
          { id := 0, name := "select-1", attributes := [.ofName "*"], source := outer, links := [1] },
          { id := 1, name := "select-2", aliases := ["t"]
            attributes := [.ofName "x", { name := "y", alias? := some "z", condition? := some "= x" },
              { name := "d", condition? := some "< z" }]
            source := "SELECT c.x z FROM c"
            links := [2, 3, 4] },
          { id := 2, name := "a" }, { id := 3, name := "b" }, { id := 4, name := "c" }]
        selects := 2 } := by
  obtain ⟨htop, outer, hinside⟩ := analyze_compound {} .threeBranches .t (by decide +kernel)
  have hinner : CompoundQuery.threeBranches.innerTables PlainName.t.text
      ((if ({} : Config).captureSource then
        Walk.selectText? (CompoundQuery.threeBranches.last.text ++ ")") else none).getD "") = [
          { id := 1, name := "select-2", aliases := ["t"]
            attributes := [.ofName "x", { name := "y", alias? := some "z", condition? := some "= x" },
              { name := "d", condition? := some "< z" }]
            source := "SELECT c.x z FROM c"
            links := [2, 3, 4] },
          { id := 2, name := "a" }, { id := 3, name := "b" }, { id := 4, name := "c" }] := by
    decide +kernel
  rw [CompoundQuery.nestedRegistry, hinner] at hinside
  exact ⟨by decide +kernel, htop.trans (by decide +kernel), outer, hinside⟩

end QueryLineage
