import QueryLineage.Proofs.Analysis.Conditions
import QueryLineage.Proofs.Clause.JoinChain
import QueryLineage.Proofs.Graph.Links

/-!
# The tables of a chain of joins

Each join of a chain adds two tables behind those that are there: the one that is joined, and one
for the join itself, to which the last table so far is linked. So whatever a chain begins with, its
tables are found join by join.
-/

namespace QueryLineage

open Text Pattern

section

variable {descend : Node → Option Nat → Bool → Run Unit} (config : Config) {walk : Walk}
  {registry : Registry}

/-- Two lists of conditions that one join takes are one list, with the later text. -/
theorem Table.takeConditions_takeConditions (table : Table) (first second : List Attribute)
    (before text : String) :
    (table.takeConditions config first before).takeConditions config second text =
      table.takeConditions config (first ++ second) text := by
  unfold takeConditions
  cases config.captureSource <;>
    simp [updateAttributes, setSource, Attribute.updateAll, List.foldl_append]

theorem Registry.modify_modify (id : Nat) (first second : Table → Table) :
    (registry.modify id first).modify id second = registry.modify id (second ∘ first) := by
  rw [modify, modify, modify, List.modify_modify_eq]

/-- All comparisons of a join come to its table, with the text up to the last of them. -/
theorem Walk.run_links {join : Nat} (hjoin : walk.lastJoin = some join) (attributes : List Attribute)
    (text : String) (links : List Link) :
    ((Step.read .onCondition (.conditions attributes) "" text :: Join.linkSteps text links).foldlM
        (Walk.step descend config) walk).run registry =
      (.ok walk, registry.modify join (·.takeConditions config
        (attributes ++ links.map fun link => link.comparison.toAttribute)
        (text ++ String.join (links.map fun link => " " ++ link.text)))) := by
  rw [List.foldlM_cons, Run.run_bind_ok _ (Walk.run_conditions config hjoin attributes)]
  induction links generalizing attributes text registry with
  | nil =>
    have htext : text ++ String.join ([].map fun link : Link => " " ++ link.text) = text :=
      String.append_empty
    rw [htext, List.map_nil, List.append_nil]
    rfl
  | cons link links ih =>
    have htext : text ++ String.join ((link :: links).map fun link => " " ++ link.text) =
        text ++ " " ++ link.text ++ String.join (links.map fun link => " " ++ link.text) := by
      rw [List.map_cons, String.join_cons, ← String.append_assoc, ← String.append_assoc]
    have hmerged : (registry.modify join (·.takeConditions config attributes text)).modify join
        (·.takeConditions config [link.comparison.toAttribute] (text ++ " " ++ link.text)) =
          registry.modify join (·.takeConditions config
            (attributes ++ [link.comparison.toAttribute]) (text ++ " " ++ link.text)) := by
      rw [Registry.modify_modify]
      congr 1
      funext table
      exact Table.takeConditions_takeConditions config table _ _ _ _
    rw [Join.linkSteps, List.foldlM_cons, Run.run_bind_ok _ (Walk.run_conditions config hjoin _),
      hmerged, ih, htext, List.map_cons, List.append_assoc, List.singleton_append]

end

namespace Join

/-- The table that is joined by the join of the given number. -/
def sourceTable (number : Nat) (join : Join) : Table where
  id := 2 * number
  name := join.source.text

/-- The table of the join of the given number, with its links behind that to its source. -/
def table (config : Config) (number : Nat) (join : Join) (behind : List Nat) : Table where
  id := 2 * number + 1
  name := Origin.join.numbered number
  attributes := Attribute.updateAll [] join.attributes
  source := if config.captureSource then join.text else ""
  links := 2 * number :: behind

def bareTable (number : Nat) (links : List Nat) : Table where
  id := 2 * number + 1
  name := Origin.join.numbered number
  links

end Join

theorem Comparison.isBlank_getLast? (comparison : Comparison) (before : String) :
    ∀ c ∈ (before ++ comparison.text).toList.getLast?, isBlank c = false := by
  have hne : comparison.right.text.toList ≠ [] := by
    rw [Ne, String.toList_eq_nil_iff]
    exact comparison.right.text_ne
  intro c hc
  rw [Comparison.text, String.toList_append, String.toList_append, ← List.append_assoc,
    List.getLast?_append_of_ne_nil _ hne] at hc
  exact comparison.right.isBlank_of_mem c (List.mem_of_getLast? hc)

/-- The text of a join neither begins nor ends with a blank. -/
theorem Join.trim_text (join : Join) : trim join.text = join.text := by
  have hlinks : ∀ (links : List Link) (text : String),
      (∀ c ∈ text.toList.getLast?, isBlank c = false) →
      ∀ c ∈ (text ++ String.join (links.map fun link => " " ++ link.text)).toList.getLast?,
        isBlank c = false := by
    intro links
    induction links with
    | nil =>
      intro text htext
      have hjoin : String.join ([].map fun link : Link => " " ++ link.text) = "" := rfl
      rwa [hjoin, String.append_empty]
    | cons link links ih =>
      intro text _
      rw [List.map_cons, String.join_cons, ← String.append_assoc]
      apply ih
      rw [Link.text, ← String.append_assoc, ← String.append_assoc]
      exact link.comparison.isBlank_getLast? _
  apply trim_eq_self_of_visible
  · simpa using (Node.written_join join).head_visible []
  · rw [join.text_eq]
    exact hlinks join.others _ (join.first.isBlank_getLast? _)

theorem Table.link_of_lt {table : Table} {id : Nat} (h : ∀ target ∈ table.links, target < id) :
    table.link id = { table with links := table.links ++ [id] } := by
  have hnew : table.links.contains id = false := by
    simpa using fun hmem => Nat.lt_irrefl _ (h _ hmem)
  rw [Table.link, hnew, if_neg Bool.false_ne_true]

namespace Registry

variable {registry : Registry} {before behind : List Table} {last table : Table} {id number : Nat}

theorem modify_eq (htables : registry.tables = before ++ table :: behind) (hid : before.length = id)
    (change : Table → Table) :
    registry.modify id change = { registry with tables := before ++ change table :: behind } := by
  subst hid
  rw [modify, htables, modify_append_cons]

theorem link_eq (htables : registry.tables = before ++ table :: behind) (hid : before.length = id)
    {target : Nat} (htarget : target < registry.size) :
    registry.link id target = { registry with tables := before ++ table.link target :: behind } := by
  rw [link, if_pos htarget, modify_eq htables hid]

theorem join_create (htables : registry.tables = before ++ [last])
    (hlength : before.length + 1 = 2 * number) (hjoins : registry.joins + 1 = number) (join : Join) :
    (registry.create { name := .named join.source.text }).join before.length registry.size =
      { registry with
        tables := before ++ [last.link (2 * number + 1), join.sourceTable number] ++
          [Join.bareTable number [2 * number]]
        joins := number } := by
  have hsize : registry.size = 2 * number := by
    rw [size, htables, List.length_append, ← hlength]
    rfl
  have hcreated : (registry.create { name := .named join.source.text }).create
      { name := .generated .join } = { registry with
        tables := before ++ last :: [join.sourceTable number, Join.bareTable number []]
        joins := number } := by
    have htwice : before ++ last :: [join.sourceTable number, Join.bareTable number []] =
        registry.tables ++ [join.sourceTable number] ++ [Join.bareTable number []] := by
      rw [htables, List.append_assoc, List.append_assoc]
      rfl
    rw [htwice, Join.sourceTable, Join.bareTable, ← hsize, ← hjoins,
      ← size_create registry { name := .named join.source.text }]
    rfl
  have hsplit : before ++ last.link (2 * number + 1) ::
      [join.sourceTable number, Join.bareTable number []] =
        (before ++ [last.link (2 * number + 1), join.sourceTable number]) ++
          Join.bareTable number [] :: [] := by
    rw [List.append_assoc]
    rfl
  rw [Registry.join, hcreated, size_create, hsize, link_eq rfl rfl (by simp [size, ← hlength]),
    hsplit, link_eq rfl (by simp [← hlength]) (by simp [size, ← hlength])]
  rfl

end Registry

section

variable {descend : Node → Option Nat → Bool → Run Unit} (config : Config) {walk : Walk}
  {registry : Registry}

/-- One join adds its source and its own table, and the table before it is linked to it. -/
theorem Walk.run_join {before : List Table} {last : Table}
    (htables : registry.tables = before ++ [last]) {number : Nat}
    (hlength : before.length + 1 = 2 * number) (hjoins : registry.joins + 1 = number)
    (hanchor : walk.anchor = some before.length) (join : Join)
    (hfresh : registry.findKnownAs? join.source.text = none) :
    (join.steps.foldlM (Walk.step descend config) walk).run registry =
      (.ok { walk with lastJoin := some (2 * number + 1), anchor := some (2 * number + 1) },
        { registry with
          tables := before ++ [last.link (2 * number + 1), join.sourceTable number,
            join.table config number []]
          joins := number }) := by
  have hsize : registry.size + 1 = 2 * number + 1 := by
    rw [Registry.size, htables, List.length_append, ← hlength]
    rfl
  have hsource : (Walk.step descend config walk (.read .joinList
      (.sources [.named join.source.text none]) "" (join.word ++ " " ++ join.source.text))).run
        registry = (.ok { walk with lastJoin := some (2 * number + 1), anchor := some (2 * number + 1) },
          (registry.create { name := .named join.source.text }).join before.length registry.size) := by
    rw [Walk.run_unknown config .joinList hfresh, Walk.addSource_joinList, hanchor, ← hsize,
      ← Registry.size_create registry { name := .named join.source.text }]
    rfl
  have hconditions : (Join.bareTable number [2 * number]).takeConditions config join.attributes
      join.text = join.table config number [] := by
    unfold Table.takeConditions Join.table
    cases config.captureSource
    · rfl
    · rw [join.trim_text]
      rfl
  have hattributes : [join.first.toAttribute] ++ join.others.map (fun link =>
      link.comparison.toAttribute) = join.attributes := rfl
  rw [Join.steps, List.foldlM_cons, Run.run_bind_ok _ hsource, Walk.run_links config rfl,
    ← join.text_eq, hattributes, Registry.join_create htables hlength hjoins,
    Registry.modify_eq rfl (by simp [← hlength]), hconditions, List.append_assoc]
  rfl

end

/-- The tables of joins that follow one another, from the given number on. Each join is linked to its
source and, unless it is the last, to the next join. -/
def joinTables (config : Config) (number : Nat) : List Join → List Table
  | [] => []
  | join :: joins =>
    join.sourceTable number ::
      join.table config number (if joins.isEmpty then [] else [2 * number + 3]) ::
      joinTables config (number + 1) joins

theorem Registry.findKnownAs?_eq_none {registry : Registry} {text : String} :
    registry.findKnownAs? text = none ↔
      ∀ table ∈ registry.tables, table.isKnownAs text = false := by
  simp [findKnownAs?, List.find?_eq_none]

section

variable {descend : Node → Option Nat → Bool → Run Unit} (config : Config) {walk : Walk}
  {registry : Registry}

/-- A join that is not the last one is linked to the next one behind its source. -/
theorem Join.link_table (join : Join) (number : Nat) :
    (join.table config number []).link (2 * (number + 1) + 1) =
      join.table config number [2 * number + 3] := by
  have hbelow : ∀ target ∈ (join.table config number []).links, target < 2 * (number + 1) + 1 := by
    intro target htarget
    obtain rfl := List.mem_singleton.1 htarget
    omega
  rw [Table.link_of_lt hbelow]
  rfl

/-- What is unknown is so behind a join of another source. -/
theorem Registry.findKnownAs?_of_join {before : List Table} {last : Table}
    (htables : registry.tables = before ++ [last]) {name : PlainName}
    (hfresh : registry.findKnownAs? name.text = none) {join : Join}
    (hname : join.source.text ≠ name.text) {number : Nat} {later : Registry}
    (hlater : later.tables = before ++ [last.link (2 * number + 1), join.sourceTable number] ++
      [join.table config number []]) :
    later.findKnownAs? name.text = none := by
  rw [findKnownAs?_eq_none, htables] at hfresh
  rw [findKnownAs?_eq_none, hlater]
  simp only [List.mem_append, List.mem_cons, List.not_mem_nil, or_false] at hfresh ⊢
  rintro table ((htable | rfl | rfl) | rfl)
  · exact hfresh table (Or.inl htable)
  · rw [Table.isKnownAs_link, hfresh last (Or.inr rfl)]
  · simp [Table.isKnownAs, Join.sourceTable, hname]
  · simp [Table.isKnownAs, Join.table, name.isPlain.ne_numbered]

variable (descend) in
/-- What a chain of joins leaves, whatever is there before it. -/
theorem Walk.run_joins (joins : List Join) {before : List Table} {last : Table}
    (htables : registry.tables = before ++ [last]) {number : Nat}
    (hlength : before.length + 1 = 2 * number) (hjoins : registry.joins + 1 = number)
    (hanchor : walk.anchor = some before.length)
    (hnames : (joins.map fun join => join.source.text).Nodup)
    (hfresh : ∀ join ∈ joins, registry.findKnownAs? join.source.text = none) :
    ∃ walk', ((joins.flatMap Join.steps).foldlM (Walk.step descend config) walk).run registry =
      (.ok walk', { registry with
        tables := before ++ (if joins.isEmpty then last else last.link (2 * number + 1)) ::
          joinTables config number joins
        joins := registry.joins + joins.length }) := by
  induction joins generalizing walk registry before last number with
  | nil =>
    refine ⟨walk, ?_⟩
    have hsame : { registry with tables := before ++ [last] } = registry := by rw [← htables]
    exact congrArg (fun registry => (Except.ok walk, registry)) hsame.symm
  | cons join joins ih =>
    have hjoin : (join.steps.foldlM (Walk.step descend config) walk).run registry = _ :=
      Walk.run_join config htables hlength hjoins hanchor join (hfresh join List.mem_cons_self)
    have hother : ∀ other ∈ joins, join.source.text ≠ other.source.text := by
      intro other hmem heq
      exact (List.nodup_cons.1 hnames).1 (List.mem_map.2 ⟨other, hmem, heq.symm⟩)
    have hstill : ∀ other ∈ joins, Registry.findKnownAs? { registry with
        tables := before ++ [last.link (2 * number + 1), join.sourceTable number] ++
          [join.table config number []]
        joins := number } other.source.text = none := by
      intro other hmem
      exact Registry.findKnownAs?_of_join config htables (hfresh other (List.mem_cons_of_mem _ hmem))
        (hother other hmem) rfl
    have hsplit : before ++ [last.link (2 * number + 1), join.sourceTable number,
        join.table config number []] = before ++ [last.link (2 * number + 1), join.sourceTable number] ++
          [join.table config number []] := by
      rw [List.append_assoc]
      rfl
    rw [hsplit] at hjoin
    have hlength' : (before ++ [last.link (2 * number + 1), join.sourceTable number]).length =
        2 * number + 1 := by
      rw [List.length_append, ← hlength]
      rfl
    have htables' : ({ registry with
        tables := before ++ [last.link (2 * number + 1), join.sourceTable number] ++
          [join.table config number []]
        joins := number } : Registry).tables = before ++ [last.link (2 * number + 1),
          join.sourceTable number] ++ [join.table config number []] := rfl
    have hanchor' : ({ walk with
        lastJoin := some (2 * number + 1)
        anchor := some (2 * number + 1) } : Walk).anchor =
          some (before ++ [last.link (2 * number + 1), join.sourceTable number]).length := by
      rw [hlength']
    obtain ⟨walk', hrest⟩ := ih htables' (by rw [hlength']; rfl) rfl hanchor'
      (List.nodup_cons.1 hnames).2 hstill
    refine ⟨walk', ?_⟩
    rw [List.flatMap_cons, List.foldlM_append, Run.run_bind_ok _ hjoin, hrest, join.link_table]
    have hcount : number + joins.length = registry.joins + (join :: joins).length := by
      rw [List.length_cons, ← hjoins]
      omega
    simp only [hcount]
    rw [List.append_assoc]
    cases joins <;> rfl

end

/-- The text of a join is none that a table gets for its query. -/
theorem Join.selectText?_text (join : Join) : Walk.selectText? join.text = none := by
  have hwords : ∀ words ∈ joinPhrases,
      ((" ".intercalate words).toList.head?.map Char.toUpper).any (· != 'S') = true := by
    decide +kernel
  have hword := hwords join.words join.isJoin
  rw [← Join.word] at hword
  obtain ⟨rest, htext⟩ : ∃ rest, join.text.toList = join.word.toList ++ rest := by
    rw [Join.text, String.append_assoc, String.append_assoc, String.append_assoc,
      String.toList_append]
    exact ⟨_, rfl⟩
  have hchars : trimChars join.text.toList = join.text.toList := by
    have htrim := congrArg String.toList join.trim_text
    rwa [trim, String.toList_ofList] at htrim
  rw [Walk.selectText?, hchars, htext]
  cases hlist : join.word.toList with
  | nil =>
    rw [hlist] at hword
    cases hword
  | cons c cs =>
    rw [hlist] at hword
    have hne : c.toUpper ≠ 'S' := by simpa using hword
    have hnot : ((c :: cs ++ rest).take 6).map Char.toUpper ≠ "SELECT".toList := by
      have hselect : "SELECT".toList = ['S', 'E', 'L', 'E', 'C', 'T'] := by decide
      rw [hselect]
      exact fun heq => hne (List.cons.inj heq).1
    exact if_neg hnot

def Registry.readFrom (name : String) : Registry where
  tables := [{ id := 0, name := "select-1", attributes := [.ofName "*"], links := [1] },
    { id := 1, name }]
  selects := 1

/-- The walk behind the only source of a query. -/
def Walk.readFrom : Walk :=
  { Walk.selected none 0 with listRead := true, anchor := some 1 }

section

variable {descend : Node → Option Nat → Bool → Run Unit} (config : Config) {walk : Walk}
  {registry : Registry}

theorem Walk.run_finish_of_none {text : String} (h : Walk.selectText? text = none) :
    (Walk.step descend config walk (.finish text)).run registry = (.ok walk, registry) := by
  rw [Walk.step, Walk.finish, h]
  cases walk.table <;> rfl

theorem Walk.run_selectStarFrom {name : String} (hname : "select-1" ≠ name) (first second : String) :
    ([Step.select, .read .selectList (.columns [.ofName "*"]) "" first,
        .read .fromList (.sources [.named name none]) "" second].foldlM
      (Walk.step descend config) (Walk.start none false)).run .empty =
        (.ok .readFrom, .readFrom name) := by
  have hselect : (Walk.step descend config (.start none false) .select).run .empty =
      (.ok (.selected none 0), .selected) := rfl
  have hstar : Registry.selected.modify 0 (·.appendAttributes [.ofName "*"]) =
      { tables := [{ id := 0, name := "select-1", attributes := [.ofName "*"] }], selects := 1 } := by
    decide +kernel
  have hfresh : Registry.findKnownAs?
      { tables := [{ id := 0, name := "select-1", attributes := [.ofName "*"] }], selects := 1 }
        name = none := by
    simp [Registry.findKnownAs?, Table.isKnownAs, hname]
  rw [List.foldlM_cons, Run.run_bind_ok _ hselect, List.foldlM_cons,
    Run.run_bind_ok _ (Walk.run_star config), hstar, List.foldlM_cons,
    Run.run_bind_ok _ (Walk.run_unknown config .fromList hfresh)]
  rfl

variable (descend) in
theorem Walk.run_joinChain (source : PlainName) (first : Join) (others : List Join)
    (hnames : (source.text :: (first :: others).map fun join => join.source.text).Nodup) :
    ∃ last, (((first :: others).flatMap Join.steps).foldlM (Walk.step descend config) .readFrom).run
      (.readFrom source.text) = (.ok last,
        { tables := { id := 0, name := "select-1", attributes := [.ofName "*"], links := [1] } ::
            { id := 1, name := source.text, links := [3] } :: joinTables config 1 (first :: others)
          selects := 1
          joins := others.length + 1 }) := by
  obtain ⟨hsource, hjoined⟩ := List.nodup_cons.1 hnames
  have hfresh : ∀ join ∈ first :: others,
      (Registry.readFrom source.text).findKnownAs? join.source.text = none := by
    intro join hmem
    have hne : source.text ≠ join.source.text := fun heq =>
      hsource (List.mem_map.2 ⟨join, hmem, heq.symm⟩)
    have hselect : "select-1" ≠ join.source.text := join.source.isPlain.ne_numbered .select 1
    simp [Registry.findKnownAs?, Registry.readFrom, Table.isKnownAs, hselect, hne]
  have hcount : 0 + (first :: others).length = others.length + 1 := Nat.zero_add _
  have htables : (Registry.readFrom source.text).tables =
      [{ id := 0, name := "select-1", attributes := [.ofName "*"], links := [1] }] ++
        [{ id := 1, name := source.text }] := rfl
  have hanchor : Walk.readFrom.anchor = some 1 := rfl
  have hjoins : (Registry.readFrom source.text).joins + 1 = 1 := rfl
  obtain ⟨last, hrun⟩ := Walk.run_joins descend config (first :: others) htables rfl hjoins hanchor
    hjoined hfresh
  refine ⟨last, hrun.trans ?_⟩
  rw [← hcount]
  rfl

end

/-- A chain of joins becomes a chain of tables: the table of the query is linked to the first source,
and that to the first join. The text of a query begins anew at a join, so that its own table gets
none. -/
theorem analyze_joinChain (config : Config) (source : PlainName) (first : Join) (others : List Join)
    (hnames : (source.text :: (first :: others).map fun join => join.source.text).Nodup) :
    analyze config (joinChain source (first :: others)) = .ok
      { tables := { id := 0, name := "select-1", attributes := [.ofName "*"], links := [1] } ::
          { id := 1, name := source.text, links := [3] } :: joinTables config 1 (first :: others)
        selects := 1
        joins := others.length + 1 } := by
  have htree := (Node.written_joinChain source (first :: others)).statementsOfText rfl
    config.stripComments
  obtain ⟨join, htext⟩ : ∃ join : Join, ((first :: others).getLast?.map Join.text).getD
      ("SELECT * FROM " ++ source.text) = join.text := by
    rw [List.getLast?_cons]
    exact ⟨_, rfl⟩
  have hsteps : ∀ steps : List Step, Step.select :: .read .selectList (.columns [.ofName "*"]) ""
      "SELECT *" :: .read .fromList (.sources [.named source.text none]) ""
        ("SELECT * FROM " ++ source.text) :: steps =
      [Step.select, .read .selectList (.columns [.ofName "*"]) "" "SELECT *",
        .read .fromList (.sources [.named source.text none]) "" ("SELECT * FROM " ++ source.text)] ++
          steps := fun _ => rfl
  have hselect : "select-1" ≠ source.text := source.isPlain.ne_numbered .select 1
  rw [Node.statement, Node.groupAll_joinChain] at htree
  rw [analyze_eq_ok_iff htree, Node.depth, run_interpretWithin_eq_ok_iff, Step.ofNode,
    Node.children_group, Step.ofSiblings_joinChain, htext, hsteps]
  obtain ⟨last, hrun⟩ := Walk.run_joinChain (interpretWithin config _) config source first others
    hnames
  refine ⟨last, ?_⟩
  rw [List.foldlM_append, Run.run_bind_ok _ (Walk.run_selectStarFrom config hselect _ _),
    List.foldlM_append, Run.run_bind_ok _ hrun, List.foldlM_cons,
    Run.run_bind_ok _ (Walk.run_finish_of_none config join.selectText?_text)]
  rfl

def Join.leftOuter : Join where
  words := ["LEFT", "OUTER", "JOIN"]
  isJoin := by decide
  source := .b
  first := ⟨⟨.a, [.x]⟩, .equal, ⟨.b, [.x]⟩⟩
  others := []

def Join.twofold : Join where
  words := ["JOIN"]
  isJoin := by decide
  source := .c
  first := ⟨⟨.y, []⟩, .less, ⟨.z, []⟩⟩
  others := [⟨.and, ⟨.b, [.y]⟩, .equal, ⟨.c, [.y]⟩⟩]

theorem analyze_joinChain_leftOuter :
    analyze {} "SELECT * FROM a LEFT OUTER JOIN b ON a.x = b.x JOIN c ON y < z AND b.y = c.y" = .ok
      { tables := [{ id := 0, name := "select-1", attributes := [.ofName "*"], links := [1] },
          { id := 1, name := "a", links := [3] }, { id := 2, name := "b" },
          { id := 3, name := "join-1", attributes := [.withCondition "a.x" "=" "b.x"],
            source := "LEFT OUTER JOIN b ON a.x = b.x", links := [2, 5] },
          { id := 4, name := "c" },
          { id := 5, name := "join-2",
            attributes := [.withCondition "y" "<" "z", .withCondition "b.y" "=" "c.y"],
            source := "JOIN c ON y < z AND b.y = c.y", links := [4] }]
        selects := 1
        joins := 2 } := by
  have htext : joinChain .a [Join.leftOuter, Join.twofold] =
      "SELECT * FROM a LEFT OUTER JOIN b ON a.x = b.x JOIN c ON y < z AND b.y = c.y" := by
    decide +kernel
  have htables : joinTables {} 1 [Join.leftOuter, Join.twofold] =
      [{ id := 2, name := "b" },
        { id := 3, name := "join-1", attributes := [.withCondition "a.x" "=" "b.x"],
          source := "LEFT OUTER JOIN b ON a.x = b.x", links := [2, 5] },
        { id := 4, name := "c" },
        { id := 5, name := "join-2",
          attributes := [.withCondition "y" "<" "z", .withCondition "b.y" "=" "c.y"],
          source := "JOIN c ON y < z AND b.y = c.y", links := [4] }] := by
    decide +kernel
  rw [← htext, analyze_joinChain {} _ _ _ (by decide), htables]
  rfl

end QueryLineage
