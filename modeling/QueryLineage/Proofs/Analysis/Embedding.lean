import QueryLineage.Proofs.Analysis.Enclosed
import QueryLineage.Proofs.Clause.Outer
import QueryLineage.Proofs.Outcome
import QueryLineage.Proofs.Tree.Trailing

/-!
# Queries that read from a query

What becomes of the tables of a query when another query reads everything from it, either from the
query itself in parentheses or from a common table that is defined by it.
-/

namespace QueryLineage

open Text

namespace Embeddable

variable {query name : String} {lexemes : List Lexeme} (h : Embeddable query name lexemes)
  {nodes : List Node} (hnodes : Node.Nests lexemes nodes) (stripComments : Bool)
include h hnodes

theorem statementsOfText_asSource :
    Node.statementsOfText (asSource query name) stripComments =
      .ok [.group .statement (Node.selectNode :: Node.spaceNode :: Node.starNode :: Node.spaceNode ::
        Node.fromNode :: Node.spaceNode :: [.group .identifier
          [.enclosed (Node.groupAll (Node.stripped stripComments nodes)), Node.spaceNode,
            .group .identifier [Node.nameNode name]]])] := by
  have hfixed : ∀ lexeme ∈ Lexeme.selectStarFrom ++ [.space, ⟨.name, name⟩], lexeme.Fixed := by
    simp only [Lexeme.selectStarFrom, List.cons_append, List.nil_append, List.forall_mem_cons]
    refine ⟨?_, ?_, ?_, ?_, ?_, ?_, ?_, ?_, by simp⟩ <;> exact ⟨rfl, rfl, rfl, by simp [Lexeme.space], rfl⟩
  rw [Node.statementsOfText_parentheses (Lexeme.ofText_asSource h.read h.ended h.isName) hnodes
    hfixed rfl, Node.statement, ← Node.groupAll_asSource]
  rfl

theorem statementsOfText_asCommonTable :
    Node.statementsOfText (asCommonTable query name) stripComments =
      .ok [.group .statement (Node.withNode :: Node.spaceNode ::
        .group .identifier [.group .identifier [Node.nameNode name], Node.spaceNode, Node.asNode,
          Node.spaceNode, .enclosed (Node.groupAll (Node.stripped stripComments nodes))] ::
        Node.spaceNode :: Node.selectNode :: Node.spaceNode :: Node.starNode :: Node.spaceNode ::
        Node.fromNode :: Node.spaceNode :: [.group .identifier [Node.nameNode name]])] := by
  have hfixed : ∀ lexeme ∈ Lexeme.withAs name ++
      .space :: (Lexeme.selectStarFrom ++ [⟨.name, name⟩]), lexeme.Fixed := by
    simp only [Lexeme.withAs, Lexeme.selectStarFrom, List.cons_append, List.nil_append,
      List.forall_mem_cons]
    refine ⟨?_, ?_, ?_, ?_, ?_, ?_, ?_, ?_, ?_, ?_, ?_, ?_, ?_, ?_, by simp⟩ <;>
      exact ⟨rfl, rfl, rfl, by simp [Lexeme.space], rfl⟩
  rw [Node.statementsOfText_parentheses (Lexeme.ofText_asCommonTable h.read h.ended h.isName) hnodes
    hfixed rfl, Node.statement, ← Node.groupAll_asCommonTable]
  rfl

end Embeddable

section

variable {descend : Node → Option Nat → Bool → Run Unit} (config : Config) {walk : Walk} {table : Nat}
  {registry after : Registry} {comment text : String}

theorem Walk.run_star :
    (Walk.step descend config (.selected none table)
        (.read .selectList (.columns [.ofName "*"]) comment text)).run registry =
      (.ok { Walk.selected none table with listRead := true },
        registry.modify table (·.appendAttributes [.ofName "*"])) := rfl

theorem Walk.step_source (clause : Clause) (source : Source) :
    Walk.step descend config walk (.read clause (.sources [source]) comment text) =
      source.resolve descend >>= Walk.record config clause text walk := by
  simp [Walk.step, Reading.resolve, List.mapM_cons]

theorem Walk.run_derived (htable : walk.table = some table) {alias? : Option String} {body : Node}
    (hrun : (descend body (some registry.size) false).run
      (registry.create { name := .generated .select, alias? }) = (.ok (), after)) :
    (Walk.step descend config walk
        (.read .fromList (.sources [.derived alias? body]) comment text)).run registry =
      (.ok { walk with anchor := some registry.size }, after.link table registry.size) := by
  rw [Walk.step_source, Source.resolve, bind_assoc, Run.run_bind_ok _ (Run.run_create _ _), bind_assoc,
    Run.run_bind_ok _ hrun, pure_bind, Walk.record, Walk.addSource, if_neg (by decide),
    Walk.ownTable_of_eq_some htable]
  rfl

theorem Walk.run_named (htable : walk.table = some table) {name : String} {found : Table}
    (hfound : registry.findKnownAs? name = some found) :
    (Walk.step descend config walk
        (.read .fromList (.sources [.named name none]) comment text)).run registry =
      (.ok { walk with anchor := some found.id }, registry.link table found.id) := by
  have hnamed : (Walk.tableNamed name none).run registry = (.ok found.id, registry) := by
    rw [Walk.tableNamed, Run.run_bind_ok _ (Run.run_get registry), hfound]
    rfl
  rw [Walk.step_source, Source.resolve, pure_bind, Walk.record, Run.run_bind_ok _ hnamed,
    Walk.addSource, if_neg (by decide), Walk.ownTable_of_eq_some htable]
  rfl

theorem Walk.run_entry {node : Node} {entry : CommonTable} (hentry : CommonTable.ofNode node = .ok entry)
    (hrun : (descend entry.body (some registry.size) (!entry.columns.isEmpty)).run (registry.create
      { name := .named entry.name
        attributes := entry.columns.map .placeholder
        comment := entry.comment?.getD comment
        source := if config.captureSource then trim node.text else "" }) = (.ok (), after)) :
    (Walk.step descend config walk
        (.read .withList (.entries [node]) comment text)).run registry = (.ok walk, after) := by
  have hregister : (CommonTable.register descend config comment node).run registry =
      (.ok registry.size, after) := by
    have hread : (liftM (CommonTable.ofNode node) : Run CommonTable).run registry =
        (.ok entry, registry) := by
      rw [hentry]
      rfl
    rw [CommonTable.register, Run.run_bind_ok _ hread, Run.run_bind_ok _ (Run.run_create _ _),
      Run.run_bind_ok _ hrun]
    rfl
  have hmap : ([node].mapM (CommonTable.register descend config comment)).run registry =
      (.ok [registry.size], after) := by
    rw [List.mapM_cons, Run.run_bind_ok _ hregister]
    rfl
  rw [Walk.step, Reading.resolve, bind_assoc, Run.run_bind_ok _ hmap]
  rfl

end

theorem Step.exists_ofNode_asSource {name : String} (hname : name ≠ "") {siblings : List Node}
    (hselect : (Node.enclosed siblings).isSubselect = true) :
    ∃ text, Step.ofNode (.group .statement (Node.selectNode :: Node.spaceNode :: Node.starNode ::
        Node.spaceNode :: Node.fromNode :: Node.spaceNode :: [.group .identifier
          [.enclosed siblings, Node.spaceNode, .group .identifier [Node.nameNode name]]])) =
      [.select, .read .selectList (.columns [.ofName "*"]) "" "SELECT *",
        .read .fromList (.sources [.derived (some name) (.enclosed siblings)]) "" text,
        .finish text] := by
  refine ⟨"SELECT * FROM " ++ (Node.group .identifier
    [.enclosed siblings, Node.spaceNode, .group .identifier [Node.nameNode name]]).text, ?_⟩
  rw [Step.ofNode, Node.children_group, Step.ofSiblings_selectStarFrom, Step.ofSiblings_source,
    Node.enclosed, Node.source_parenthesesName hname hselect]

def Table.star (id : Nat) (name : String) (links : List Nat) (source : String) : Table :=
  { id, name, attributes := [.ofName "*"], links, source }

/-- The tables of a query stand behind the table that reads everything from it, and the numbers of
its `SELECT`s are one more. The name is an alias of its own table. -/
def Placing.asSource (name : String) (lexemes : List Lexeme) (outer : Table) : Placing where
  before := [outer]
  down := 0
  up := 1
  name := selectName 2
  aliases := [name]
  shows source shown := Lexeme.Plain lexemes → shown = source

/-- The tables of a query stand where they stand by themselves, its own under the name of a common
table. The numbers of the other `SELECT`s are one less. Where the own table has no source by itself,
it shows that of the common table. -/
def Placing.asCommonTable (name : String) (lexemes : List Lexeme) (entry : String) : Placing where
  before := []
  down := 1
  up := 0
  name := name
  aliases := []
  shows source shown := Lexeme.Plain lexemes → shown = source ∨ (source = "" ∧ shown = entry)

def commonTableText (config : Config) (name : String) (lexemes : List Lexeme) : String :=
  if config.captureSource then
    name ++ " AS (" ++ Lexeme.textAll (Lexeme.stripped config.stripComments lexemes) ++ ")"
  else ""

namespace Registry

theorem selected_eq :
    Registry.selected = { tables := [{ id := 0, name := selectName 1 }], selects := 1 } := by
  rw [selected, create_select _ rfl]
  rfl

theorem placed_asSource {name : String} (hname : name ≠ "") (hselect : ∀ n, name ≠ selectName n)
    (lexemes : List Lexeme) :
    Placed (.asSource name lexemes (.star 0 (selectName 1) [] "")) .selected
      ((Registry.selected.modify 0 (·.appendAttributes [.ofName "*"])).create
        { name := .generated .select, alias? := some name }) := by
  have hadmits : Table.admits { id := 1, name := selectName 2 } name = true := by
    have hne : selectName 2 ≠ name := (hselect 2).symm
    simp [Table.admits, Table.isKnownAs, hname, hne]
  have hcreate : (Registry.selected.modify 0 (·.appendAttributes [.ofName "*"])).create
      { name := .generated .select, alias? := some name } =
        { tables := [.star 0 (selectName 1) [] "", { id := 1, name := selectName 2, aliases := [name] }]
          selects := 2 } := by
    rw [selected_eq, create_select _ rfl]
    change Registry.mk [_, { Table.addAlias { id := 1, name := selectName 2 } name with
      attributes := [], comment := "", source := "" }] 2 0 0 = _
    rw [Table.addAlias, if_pos hadmits]
    rfl
  rw [hcreate, selected_eq]
  refine ⟨rfl, ?_, ⟨_, _, rfl, rfl, rfl, ⟨⟨rfl, rfl, rfl, rfl⟩, rfl, rfl, rfl, rfl, fun _ => rfl⟩⟩, ?_,
    ⟨1, rfl, rfl⟩, rfl, rfl⟩
  · intro i hi
    obtain rfl : i = 0 := Nat.lt_one_iff.1 hi
    rfl
  · intro i table hi hfind
    obtain ⟨hlt, -⟩ := List.getElem?_eq_some_iff.1 hfind
    exact absurd (Nat.lt_one_iff.1 hlt) hi

theorem placed_asCommonTable (name : String) (lexemes : List Lexeme) (entry : String) :
    Placed (.asCommonTable name lexemes entry) .selected
      (Registry.empty.create { name := .named name, source := entry }) := by
  rw [selected_eq]
  refine ⟨rfl, ?_, ⟨_, _, rfl, rfl, rfl, ⟨⟨rfl, rfl, rfl, rfl⟩, rfl, rfl, rfl, rfl,
    fun _ => Or.inr ⟨rfl, rfl⟩⟩⟩, ?_, ⟨0, rfl, rfl⟩, rfl, rfl⟩
  · intro i hi
    exact absurd hi (Nat.not_lt_zero i)
  · intro i table hi hfind
    obtain ⟨hlt, -⟩ := List.getElem?_eq_some_iff.1 hfind
    exact absurd (Nat.lt_one_iff.1 hlt) hi

theorem findKnownAs?_of_head {registry : Registry} {table : Table} {rest : List Table}
    (htables : registry.tables = table :: rest) : registry.findKnownAs? table.name = some table := by
  rw [findKnownAs?, htables, List.find?_cons_of_pos (by simp [Table.isKnownAs])]

theorem modify_append_cons (before : List Table) (table : Table) (behind : List Table)
    (change : Table → Table) :
    (before ++ table :: behind).modify before.length change = before ++ change table :: behind := by
  rw [List.modify_eq_take_drop, List.take_left, List.drop_left]
  rfl

theorem tables_unlinked (registry : Registry) :
    ((registry.create { name := .generated .select }).modify registry.size
      (·.appendAttributes [.ofName "*"])).tables =
        registry.tables ++ [.star registry.size (selectName (registry.selects + 1)) [] ""] := by
  rw [create_select _ rfl, modify, tables_push]
  exact modify_append_cons _ _ _ _

/-- The registry with the table of a query that reads everything from one of its tables. -/
def readAll (registry : Registry) (target : Nat) (source : String) : Registry :=
  { registry with
    tables := registry.tables ++
      [.star registry.size (selectName (registry.selects + 1)) [target] source]
    selects := registry.selects + 1 }

theorem readAll_eq (registry : Registry) {target : Nat} (htarget : target < registry.size)
    (source? : Option String) :
    (((registry.create { name := .generated .select }).modify registry.size
        (·.appendAttributes [.ofName "*"])).link registry.size target).modify registry.size
          (fun table => { table with source := source?.getD table.source }) =
      registry.readAll target (source?.getD "") := by
  have hlt : target < ((registry.create { name := .generated .select }).modify registry.size
      (·.appendAttributes [.ofName "*"])).size := by
    rw [size, tables_unlinked, List.length_append]
    exact Nat.lt_add_right 1 htarget
  rw [link, if_pos hlt, modify, modify]
  dsimp only
  rw [tables_unlinked, size, modify_append_cons, modify_append_cons]
  rfl

end Registry

theorem Foreign.admits_asSource {name text : String} (h : Foreign name text) (lexemes : List Lexeme) :
    (Placing.asSource name lexemes (.star 0 (selectName 1) [] "")).Admits text where
  before table htable := by
    obtain rfl := List.mem_singleton.1 htable
    simp [Table.isKnownAs, Table.star, (h.select 1).symm]
  name := (h.select 2).symm
  aliases hmem := h.word (List.mem_singleton.1 hmem)
  select := h.select

theorem Foreign.admits_asCommonTable {name text : String} (h : Foreign name text)
    (lexemes : List Lexeme) (entry : String) :
    (Placing.asCommonTable name lexemes entry).Admits text where
  before _ htable := absurd htable List.not_mem_nil
  name := h.word.symm
  aliases := List.not_mem_nil
  select := h.select

/-- No generated name is read as a name, because of its hyphen. -/
theorem Lexeme.IsName.ne_numbered {name : String} (h : Lexeme.IsName name) (origin : Origin)
    (n : Nat) : origin.numbered n ≠ name := by
  rintro rfl
  have hcontinues := h.isWord.continues '-' (by simp [Origin.toList_numbered])
  revert hcontinues
  decide

theorem Lexeme.IsName.ne_selectName {name : String} (h : Lexeme.IsName name) (n : Nat) :
    name ≠ selectName n :=
  numbered_select n ▸ (h.ne_numbered .select n).symm

theorem Node.depth_le_depthAll_of_mem_children {node parent : Node} {siblings : List Node}
    (hnode : node ∈ parent.children) (hparent : parent ∈ siblings) :
    node.depth ≤ depthAll siblings :=
  Nat.le_trans (Nat.le_of_lt (depth_lt_of_mem_children hnode)) (depth_le_depthAll hparent)

/-- The outer query gets its column before the inner one is read, and is linked to it after that. -/
theorem run_asSource {config : Config} {tree body : Node} {name first text : String} {n : Nat}
    {after : Registry}
    (hsteps : Step.ofNode tree = [.select, .read .selectList (.columns [.ofName "*"]) "" first,
      .read .fromList (.sources [.derived (some name) body]) "" text, .finish text])
    (hrun : (interpretWithin config n body (some 1) false).run
      ((Registry.selected.modify 0 (·.appendAttributes [.ofName "*"])).create
        { name := .generated .select, alias? := some name }) = (.ok (), after)) :
    (interpretWithin config (n + 1) tree none false).run .empty =
      (.ok (), (after.link 0 1).modify 0 fun table => { table with
        source := (if config.captureSource then Walk.selectText? text else none).getD
          table.source }) := by
  have hselect : (Walk.step (interpretWithin config n) config (Walk.start none false) .select).run
      .empty = (.ok (Walk.selected none 0), .selected) := rfl
  have hsource : (Walk.step (interpretWithin config n) config
      { Walk.selected none 0 with listRead := true }
      (.read .fromList (.sources [.derived (some name) body]) "" text)).run
        (Registry.selected.modify 0 (·.appendAttributes [.ofName "*"])) = (.ok _, after.link 0 1) :=
    Walk.run_derived config rfl hrun
  rw [run_interpretWithin_eq_ok_iff, hsteps, List.foldlM_cons, Run.run_bind_ok _ hselect,
    List.foldlM_cons, Run.run_bind_ok _ (Walk.run_star config), List.foldlM_cons,
    Run.run_bind_ok _ hsource, List.foldlM_cons, Walk.step, bind_assoc,
    Run.run_bind_ok _ (Walk.run_finish rfl config text _)]
  exact ⟨_, rfl⟩

/-- The common table is there before the query that reads from it. -/
theorem run_asCommonTable {descend : Node → Option Nat → Bool → Run Unit} {config : Config}
    {steps : List Step} {node : Node} {entry : CommonTable}
    {name before comment first text source : String} {after : Registry} {found : Table}
    (hsteps : steps = [.read .withList (.entries [node]) "" before, .select,
      .read .selectList (.columns [.ofName "*"]) comment first,
      .read .fromList (.sources [.named name none]) comment text, .finish text])
    (hentry : CommonTable.ofNode node = .ok entry)
    (hsource : (if config.captureSource then trim node.text else "") = source)
    (hrun : (descend entry.body (some 0) (!entry.columns.isEmpty)).run
      (Registry.empty.create
        { name := .named entry.name
          attributes := entry.columns.map .placeholder
          comment := entry.comment?.getD ""
          source }) = (.ok (), after))
    (hfound : ((after.create { name := .generated .select }).modify after.size
      (·.appendAttributes [.ofName "*"])).findKnownAs? name = some found)
    (hid : found.id < after.size) :
    (do let _ ← steps.foldlM (Walk.step descend config) (Walk.start none false) : Run Unit).run .empty =
      (.ok (), after.readAll found.id
        ((if config.captureSource then Walk.selectText? text else none).getD "")) := by
  subst hsource
  have hwith : (Walk.step descend config (Walk.start none false)
      (.read .withList (.entries [node]) "" before)).run .empty = (.ok _, after) :=
    Walk.run_entry config hentry hrun
  have hselect : (Walk.step descend config (Walk.start none false) .select).run after =
      (.ok (Walk.selected none after.size), after.create { name := .generated .select }) :=
    rfl
  have hnamed : (Walk.step descend config { Walk.selected none after.size with listRead := true }
      (.read .fromList (.sources [.named name none]) comment text)).run _ = (.ok _, _) :=
    Walk.run_named config rfl hfound
  rw [← Registry.readAll_eq after hid, hsteps, List.foldlM_cons, bind_assoc,
    Run.run_bind_ok _ hwith, List.foldlM_cons, bind_assoc, Run.run_bind_ok _ hselect,
    List.foldlM_cons, bind_assoc, Run.run_bind_ok _ (Walk.run_star config), List.foldlM_cons,
    bind_assoc, Run.run_bind_ok _ hnamed, List.foldlM_cons, bind_assoc, Walk.step, bind_assoc,
    Run.run_bind_ok _ (Walk.run_finish rfl config text _)]
  rfl

namespace Embeddable

variable {config : Config} {query name : String} {lexemes : List Lexeme} {registry : Registry}
  (h : Embeddable query name lexemes)
include h

theorem isSubselect {nodes : List Node} (hnodes : Node.Nests lexemes nodes) (stripComments : Bool) :
    (Node.enclosed (Node.groupAll (Node.stripped stripComments nodes))).isSubselect = true := by
  obtain ⟨filler, keyword, others, htree, -, hkeyword, -⟩ := h.exists_tree hnodes stripComments
  have hdml : keyword.toNode.isDml = true := (Bool.and_eq_true _ _ ▸ hkeyword).1
  have hchild : keyword.toNode ∈
      (Node.enclosed (Node.groupAll (Node.stripped stripComments nodes))).children := by
    rw [htree, Node.enclosed]
    simp
  have hany := List.any_eq_true.2 ⟨_, hchild, hdml⟩
  exact Bool.and_eq_true_iff.2 ⟨rfl, hany⟩

theorem exists_asSource (hanalyze : analyze config query = .ok registry) :
    ∃ larger source, analyze config (asSource query name) = .ok larger ∧
      Registry.Placed (.asSource name lexemes (.star 0 (selectName 1) [1] source)) registry
        larger := by
  obtain ⟨nodes, hnodes⟩ := h.exists_nodes hanalyze
  have htree := h.statementsOfText_asSource hnodes config.stripComments
  have hselect := h.isSubselect hnodes config.stripComments
  have hname := h.isName.ne_empty
  have hplain : Lexeme.Plain lexemes ∨ ∀ source shown, (Placing.asSource name lexemes
      (.star 0 (selectName 1) [] "")).shows source shown := by
    by_cases hplain : Lexeme.Plain lexemes
    · exact Or.inl hplain
    · exact Or.inr fun _ _ htrue => absurd htrue hplain
  have hfollows := fun m => follows_enclosed (m := m) h hnodes hanalyze (fun _ _ => rfl) hplain
    (fun _ hforeign => hforeign.admits_asSource lexemes)
    (Registry.placed_asSource hname h.isName.ne_selectName lexemes)
  generalize Node.groupAll (Node.stripped config.stripComments nodes) = siblings at *
  obtain ⟨text, hsteps⟩ := Step.exists_ofNode_asSource hname hselect
  have hdepth : (Node.enclosed siblings).depth ≤ Node.depthAll (Node.selectNode :: Node.spaceNode ::
      Node.starNode :: Node.spaceNode :: Node.fromNode :: Node.spaceNode :: [.group .identifier
        [.enclosed siblings, Node.spaceNode, .group .identifier [Node.nameNode name]]]) := by
    have hchild : Node.enclosed siblings ∈ (Node.group .identifier
        [.enclosed siblings, Node.spaceNode, .group .identifier [Node.nameNode name]]).children := by
      simp
    exact Nat.le_trans (Nat.le_of_lt (Node.depth_lt_of_mem_children hchild))
      (Node.depth_le_depthAll (by simp))
  obtain ⟨inner, hrun, hplaced⟩ := hfollows _ hdepth
  have hlink : inner.link 0 1 = inner.modify 0 (·.link 1) := by
    have hsize : inner.size = registry.size + 1 := hplaced.size
    have hpos := hplaced.size_pos
    rw [Registry.link, if_pos (by omega)]
  have hzero : 0 < (Placing.asSource name lexemes (.star 0 (selectName 1) [] "")).shift :=
    Nat.one_pos
  refine ⟨_, (if config.captureSource then Walk.selectText? text else none).getD "", ?_,
    (hplaced.modify_before hzero (·.link 1)).modify_before hzero fun table => { table with
      source := (if config.captureSource then Walk.selectText? text else none).getD table.source }⟩
  rw [← hlink, analyze_eq_ok_iff htree, Node.depth]
  exact run_asSource hsteps hrun

theorem trim_entry {nodes : List Node} (hnodes : Node.Nests lexemes nodes) (stripComments : Bool) :
    trim (Node.group .identifier [.group .identifier [Node.nameNode name], Node.spaceNode,
      Node.asNode, Node.spaceNode,
      .enclosed (Node.groupAll (Node.stripped stripComments nodes))]).text =
      name ++ " AS (" ++ Lexeme.textAll (Lexeme.stripped stripComments lexemes) ++ ")" := by
  have hinner : Node.textAll (Node.groupAll (Node.stripped stripComments nodes)) =
      Lexeme.textAll (Lexeme.stripped stripComments lexemes) := by
    rw [Node.textAll_eq_textAll_fringeAll, h.fringeAll_tree hnodes]
  have htext : (Node.group .identifier [.group .identifier [Node.nameNode name], Node.spaceNode,
      Node.asNode, Node.spaceNode,
      .enclosed (Node.groupAll (Node.stripped stripComments nodes))]).text =
      name ++ " AS (" ++ Lexeme.textAll (Lexeme.stripped stripComments lexemes) ++ ")" := by
    have hmiddle : " AS (" = " " ++ ("AS" ++ (" " ++ "(")) := by decide
    rw [hmiddle]
    simp only [Node.enclosed, Node.nameNode, Node.spaceNode, Node.asNode, Node.openingMark,
      Node.closingMark, Node.text_group, Node.text_leaf, Node.textAll_cons, Node.textAll_append,
      Node.textAll_nil, String.append_empty, hinner, String.append_assoc]
  obtain ⟨c, cs, hlist, hstart, -⟩ := h.isName.isWord.start
  have hclose : ")".toList = [')'] := by decide
  have hends : (name ++ " AS (" ++ Lexeme.textAll (Lexeme.stripped stripComments lexemes) ++
      ")").toList = c :: ((cs ++ " AS (".toList ++
        (Lexeme.textAll (Lexeme.stripped stripComments lexemes)).toList) ++ [')']) := by
    rw [String.toList_append, String.toList_append, String.toList_append, hlist, hclose]
    rfl
  rw [htext]
  exact trim_eq_self_of_ends hends (isBlank_of_continuesWord (continuesWord_of_isWordStart hstart))
    (by decide)

theorem exists_asCommonTable (hanalyze : analyze config query = .ok registry) :
    ∃ larger last source, analyze config (asCommonTable query name) = .ok last ∧
      last.tables = larger.tables ++
        [.star registry.size (selectName registry.selects) [0] source] ∧
      Registry.Placed (.asCommonTable name lexemes (commonTableText config name lexemes)) registry
        larger := by
  obtain ⟨nodes, hnodes⟩ := h.exists_nodes hanalyze
  have htree := h.statementsOfText_asCommonTable hnodes config.stripComments
  have hentry := h.trim_entry hnodes config.stripComments
  have hplain : Lexeme.Plain lexemes ∨ ∀ source shown, (Placing.asCommonTable name lexemes
      (commonTableText config name lexemes)).shows source shown := by
    by_cases hplain : Lexeme.Plain lexemes
    · exact Or.inl hplain
    · exact Or.inr fun _ _ htrue => absurd htrue hplain
  have hfollows := fun m => follows_enclosed (m := m) h hnodes hanalyze (fun _ _ => Or.inl rfl) hplain
    (fun _ hforeign => hforeign.admits_asCommonTable lexemes (commonTableText config name lexemes))
    (Registry.placed_asCommonTable name lexemes (commonTableText config name lexemes))
  generalize Node.groupAll (Node.stripped config.stripComments nodes) = siblings at *
  obtain ⟨before, comment, text, hsteps⟩ := @Step.exists_ofNode_asCommonTable name
    (.group .identifier [.group .identifier [Node.nameNode name], Node.spaceNode, Node.asNode,
      Node.spaceNode, .enclosed siblings]) (Or.inl rfl) [] (by simp)
  rw [List.map_nil, List.nil_append] at hsteps
  obtain ⟨inner, hrun, hplaced⟩ := hfollows _ (Node.depth_le_depthAll_of_mem_children
    (show Node.enclosed siblings ∈ (Node.group .identifier [.group .identifier [Node.nameNode name],
      Node.spaceNode, Node.asNode, Node.spaceNode, .enclosed siblings]).children by simp)
    (show _ ∈ Node.withNode :: Node.spaceNode :: .group .identifier
      [.group .identifier [Node.nameNode name], Node.spaceNode, Node.asNode, Node.spaceNode,
        .enclosed siblings] :: Node.spaceNode :: Node.selectNode :: Node.spaceNode ::
      Node.starNode :: Node.spaceNode :: Node.fromNode :: Node.spaceNode ::
      [.group .identifier [Node.nameNode name]] by simp))
  have hsize : inner.size = registry.size := hplaced.size
  have hpos : 0 < inner.size := hsize ▸ hplaced.size_pos
  obtain ⟨n, hselects, hinner⟩ := hplaced.selects
  have hnumber : inner.selects + 1 = registry.selects := by rw [hselects, hinner]; rfl
  obtain ⟨table, first, -, hfirst, hid, his⟩ := hplaced.first
  have hzero : first.id = 0 := his.id.trans hid
  have hname : first.name = name := his.otherName
  have hfound : ((inner.create { name := .generated .select }).modify inner.size
      (·.appendAttributes [.ofName "*"])).findKnownAs? name = some first := by
    obtain ⟨rest, htables⟩ : ∃ rest, inner.tables = first :: rest := by
      cases htables : inner.tables with
      | nil =>
        rw [Registry.size, htables] at hpos
        cases hpos
      | cons other rest =>
        rw [Registry.find?, htables] at hfirst
        exact ⟨rest, congrArg (· :: rest) (Option.some.inj hfirst)⟩
    rw [← hname]
    apply Registry.findKnownAs?_of_head
    rw [Registry.tables_unlinked, htables, List.cons_append]
  have hanalyzed := (analyze_eq_ok_iff htree).2
    (run_asCommonTable hsteps (CommonTable.ofNode_nameAsParentheses name _)
      (by rw [hentry, commonTableText]) hrun hfound (hzero ▸ hpos))
  rw [hzero] at hanalyzed
  refine ⟨inner, _, (if config.captureSource then Walk.selectText? text else none).getD "",
    hanalyzed, ?_, hplaced⟩
  rw [Registry.readAll, hsize, hnumber]

end Embeddable

/-- A query means the same wherever it is written. As a source, its tables stand behind that of the
outer query, with all ids and links one more; as a common table, they stand where they stand by
themselves, and the table of the outer query comes last. What is not said here about the source of
the query's own table is what depends on parentheses and semicolons inside strings, quoted names and
comments. -/
theorem analyze_enclosed {config : Config} {query name : String} {lexemes : List Lexeme}
    {registry : Registry} (h : Embeddable query name lexemes)
    (hanalyze : analyze config query = .ok registry) :
    (∃ larger source, analyze config (asSource query name) = .ok larger ∧
      Registry.Placed (.asSource name lexemes (.star 0 (selectName 1) [1] source)) registry
        larger) ∧
    ∃ larger last source, analyze config (asCommonTable query name) = .ok last ∧
      last.tables = larger.tables ++
        [.star registry.size (selectName registry.selects) [0] source] ∧
      Registry.Placed (.asCommonTable name lexemes (commonTableText config name lexemes)) registry
        larger :=
  ⟨h.exists_asSource hanalyze, h.exists_asCommonTable hanalyze⟩

/-- The query of the next two facts, which has a join. -/
def joinQuery : List Lexeme :=
  [⟨.keyword .dml, "SELECT"⟩, .space, ⟨.wildcard, "*"⟩, .space, ⟨.keyword .generic, "FROM"⟩, .space,
    ⟨.name, "a"⟩, .space, ⟨.keyword .generic, "JOIN"⟩, .space, ⟨.name, "b"⟩, .space,
    ⟨.keyword .generic, "ON"⟩, .space, ⟨.name, "x"⟩, .space, ⟨.comparisonOperator, "="⟩, .space,
    ⟨.name, "y"⟩]

theorem embeddable_joinQuery : Embeddable "SELECT * FROM a JOIN b ON x = y" "s" joinQuery where
  read := by decide +kernel
  semicolon := by decide +kernel
  closed := by decide +kernel
  ended := by decide +kernel
  select := ⟨[], ⟨.keyword .dml, "SELECT"⟩, joinQuery.tail, rfl, by decide, by decide +kernel,
    by decide +kernel⟩
  isName := ⟨by decide +kernel, by decide +kernel⟩
  fresh := by decide +kernel

theorem exists_analyze_joinQuery : ∃ registry,
    analyze {} "SELECT * FROM a JOIN b ON x = y" = .ok registry ∧
      (registry.find? 0).map Table.source = some "" := by
  have hread : ((analyze {} "SELECT * FROM a JOIN b ON x = y").toOption.map fun registry =>
      (registry.find? 0).map Table.source) = some (some "") := by decide +kernel
  exact exists_of_map hread

theorem analyze_enclosed_join : ∃ registry,
    analyze {} "SELECT * FROM a JOIN b ON x = y" = .ok registry ∧
    (∃ larger source, analyze {} (asSource "SELECT * FROM a JOIN b ON x = y" "s") = .ok larger ∧
      Registry.Placed (.asSource "s" joinQuery (.star 0 (selectName 1) [1] source)) registry
        larger) ∧
    ∃ larger last source,
      analyze {} (asCommonTable "SELECT * FROM a JOIN b ON x = y" "s") = .ok last ∧
      last.tables = larger.tables ++
        [.star registry.size (selectName registry.selects) [0] source] ∧
      Registry.Placed (.asCommonTable "s" joinQuery (commonTableText {} "s" joinQuery)) registry
        larger := by
  obtain ⟨registry, hanalyze, -⟩ := exists_analyze_joinQuery
  exact ⟨registry, hanalyze, analyze_enclosed embeddable_joinQuery hanalyze⟩

/-- The text that a query collects begins anew at a join, so that its own table gets none; a common
table then keeps the text of its entry. -/
theorem source_asCommonTable_ne : ¬ ∀ (config : Config) (query name : String)
    (lexemes : List Lexeme) (registry last : Registry), Embeddable query name lexemes →
    analyze config query = .ok registry → analyze config (asCommonTable query name) = .ok last →
    (last.find? 0).map Table.source = (registry.find? 0).map Table.source := by
  intro hall
  have hcommon : ((analyze {} (asCommonTable "SELECT * FROM a JOIN b ON x = y" "s")).toOption.map
      fun last => (last.find? 0).map Table.source) =
        some (some "s AS (SELECT * FROM a JOIN b ON x = y)") := by decide +kernel
  obtain ⟨registry, hanalyze, hsource⟩ := exists_analyze_joinQuery
  obtain ⟨last, hlast, hshown⟩ := exists_of_map hcommon
  have heq := hall {} _ _ _ _ _ embeddable_joinQuery hanalyze hlast
  have hsame := hshown.symm.trans (heq.trans hsource)
  revert hsame
  decide

end QueryLineage
