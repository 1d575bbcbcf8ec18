import QueryLineage.Proofs.Analysis.Embedding
import QueryLineage.Proofs.Clause.Joined

/-!
# An `ON` and a `WHERE` read the same conditions

The text of the conditions is put behind the `ON` of a join and into a `WHERE`. If each part of it
is one that both read, with connectives between them, the table of the join gets what the `WHERE`
finds. Where a part is passed over, its keywords end what the `ON` reads.
-/

namespace QueryLineage

open Text

def Registry.joined : Registry where
  tables := [
    { id := 0, name := "select-1", attributes := [.ofName "*"], links := [1] },
    { id := 1, name := "a", links := [3] },
    { id := 2, name := "b" },
    { id := 3, name := "join-1", links := [2] }]
  selects := 1
  joins := 1

def Walk.joined : Walk :=
  { Walk.selected none 0 with listRead := true, lastJoin := some 3, anchor := some 3 }

section

variable {descend : Node → Option Nat → Bool → Run Unit} (config : Config) {walk : Walk}
  {registry : Registry} {comment text : String}

theorem Walk.run_unknown (clause : Clause) {name : String}
    (hnone : registry.findKnownAs? name = none) :
    (Walk.step descend config walk
        (.read clause (.sources [.named name none]) comment text)).run registry =
      (walk.addSource clause registry.size).run (registry.create { name := .named name }) := by
  have hnamed : (Walk.tableNamed name none).run registry =
      (.ok registry.size, registry.create { name := .named name }) := by
    rw [Walk.tableNamed, Run.run_bind_ok _ (Run.run_get registry), hnone]
    rfl
  rw [Walk.step_source, Source.resolve, pure_bind, Walk.record, Run.run_bind_ok _ hnamed]

/-- The steps of a query that joins `b` to `a`, up to the `ON`. -/
theorem Walk.run_joined (first second third : String) :
    ([Step.select, .read .selectList (.columns [.ofName "*"]) "" first,
        .read .fromList (.sources [.named "a" none]) "" second,
        .read .joinList (.sources [.named "b" none]) "" third].foldlM
      (Walk.step descend config) (Walk.start none false)).run .empty = (.ok .joined, .joined) := by
  have hselect : (Walk.step descend config (.start none false) .select).run .empty =
      (.ok (.selected none 0), .selected) := rfl
  have hstar : Registry.selected.modify 0 (·.appendAttributes [.ofName "*"]) =
      { tables := [{ id := 0, name := "select-1", attributes := [.ofName "*"] }], selects := 1 } := by
    decide +kernel
  have ha : (Walk.step descend config { Walk.selected none 0 with listRead := true }
      (.read .fromList (.sources [.named "a" none]) "" second)).run
        { tables := [{ id := 0, name := "select-1", attributes := [.ofName "*"] }], selects := 1 } =
      (.ok { Walk.selected none 0 with listRead := true, anchor := some 1 },
        { tables := [{ id := 0, name := "select-1", attributes := [.ofName "*"], links := [1] },
            { id := 1, name := "a" }]
          selects := 1 }) :=
    Walk.run_unknown config .fromList (by decide +kernel)
  have hb : (Walk.step descend config
      { Walk.selected none 0 with listRead := true, anchor := some 1 }
      (.read .joinList (.sources [.named "b" none]) "" third)).run
        { tables := [{ id := 0, name := "select-1", attributes := [.ofName "*"], links := [1] },
            { id := 1, name := "a" }]
          selects := 1 } = (.ok .joined, .joined) :=
    Walk.run_unknown config .joinList (by decide +kernel)
  rw [List.foldlM_cons, Run.run_bind_ok _ hselect, List.foldlM_cons,
    Run.run_bind_ok _ (Walk.run_star config), hstar, List.foldlM_cons, Run.run_bind_ok _ ha,
    List.foldlM_cons, Run.run_bind_ok _ hb]
  rfl

theorem Registry.map_name_modify (id : Nat) {change : Table → Table}
    (hchange : ∀ table, (change table).name = table.name) :
    (registry.modify id change).tables.map Table.name = registry.tables.map Table.name := by
  apply List.ext_getElem?
  intro i
  simp only [Registry.modify, List.getElem?_map, List.getElem?_modify]
  split <;> simp [Function.comp_def, hchange]

/-- What an `ON` does to the table of its join. -/
def Table.takeConditions (table : Table) (config : Config) (attributes : List Attribute)
    (text : String) : Table :=
  let table := table.updateAttributes attributes
  if config.captureSource then table.setSource (trim text) else table

theorem Table.name_takeConditions (table : Table) (attributes : List Attribute) :
    (table.takeConditions config attributes text).name = table.name := by
  unfold takeConditions
  dsimp only
  split <;> rfl

theorem Table.attributes_takeConditions (table : Table) (attributes : List Attribute) :
    (table.takeConditions config attributes text).attributes =
      Attribute.updateAll table.attributes attributes := by
  unfold takeConditions
  dsimp only
  split <;> rfl

theorem Walk.run_conditions {join : Nat} (hjoin : walk.lastJoin = some join)
    (attributes : List Attribute) :
    (Walk.step descend config walk
        (.read .onCondition (.conditions attributes) comment text)).run registry =
      (.ok walk, registry.modify join (·.takeConditions config attributes text)) := by
  have hadd : walk.addConditions config attributes text =
      Run.change join (·.takeConditions config attributes text) := by
    rw [Walk.addConditions, hjoin]
    rfl
  rw [Walk.step, Reading.resolve, pure_bind, List.foldlM_cons, Walk.record, hadd, bind_assoc,
    Run.run_bind_ok _ (Run.run_change _ _ _)]
  rfl

/-- Steps that collect conditions put all of them on the last join. -/
theorem Walk.run_collects {steps : List Step} {found : List Attribute}
    (h : Step.Collects steps found) {own join : Nat} {table : Table}
    (hown : walk.table = some own) (hjoin : walk.lastJoin = some join)
    (hfind : registry.find? join = some table) :
    ∃ after, (steps.foldlM (Walk.step descend config) walk).run registry = (.ok walk, after) ∧
      after.tables.map Table.name = registry.tables.map Table.name ∧
      (after.find? join).map Table.attributes =
        some (Attribute.updateAll table.attributes found) := by
  induction h generalizing registry table with
  | finish text =>
    have hfinish := Walk.run_finish hown config text registry
    refine ⟨registry.modify own fun table => { table with
      source := (if config.captureSource then Walk.selectText? text else none).getD
        table.source }, ?_, Registry.map_name_modify own fun _ => rfl, ?_⟩
    · rw [List.foldlM_cons, Walk.step, bind_assoc, Run.run_bind_ok _ hfinish]
      rfl
    · rw [Registry.find?_modify, hfind]
      split <;> rfl
  | @read steps found attributes comment text _ ih =>
    have hnext : (registry.modify join (·.takeConditions config attributes text)).find? join =
        some (table.takeConditions config attributes text) := by
      rw [Registry.find?_modify, if_pos rfl, hfind]
      rfl
    obtain ⟨after, hrun, hnames, hattributes⟩ := ih hnext
    refine ⟨after, ?_, ?_, ?_⟩
    · rw [List.foldlM_cons, Run.run_bind_ok _ (Walk.run_conditions config hjoin attributes), hrun]
    · rw [hnames, Registry.map_name_modify join fun table => table.name_takeConditions config attributes]
    · rw [hattributes, Table.attributes_takeConditions, Attribute.updateAll, Attribute.updateAll,
        Attribute.updateAll, List.foldl_append]

variable (descend) in
theorem Walk.run_collects_joined {steps : List Step} {found : List Attribute}
    (h : Step.Collects steps found) :
    ∃ after, (steps.foldlM (Walk.step descend config) Walk.joined).run .joined =
        (.ok .joined, after) ∧
      after.tables.map Table.name = ["select-1", "a", "b", "join-1"] ∧
      (after.find? 3).map Table.attributes = some (Attribute.updateAll [] found) := by
  have hown : Walk.joined.table = some 0 := rfl
  have hjoin : Walk.joined.lastJoin = some 3 := rfl
  have hfind : Registry.joined.find? 3 = some { id := 3, name := "join-1", links := [2] } := rfl
  exact Walk.run_collects config h hown hjoin hfind

end

/-- Conditions that are linked by connectives come to the join as a `WHERE` finds them: its table is
the only one of its name, and it has no other attributes. -/
theorem analyze_joinedOn {config : Config} {conditions : String} {lexemes : List Lexeme}
    (h : Lexeme.Conditional conditions lexemes) {tree clause : Node}
    (htree : Node.statementsOfText (restrictedBy conditions) config.stripComments = .ok [tree])
    (hclause : clause ∈ tree.children) (hkind : clause.kind = .whereClause)
    (hlinked : Node.linked true 0 clause.children = true) {found : List Attribute}
    (hfound : clause.conditions = .ok found) (hne : found ≠ []) :
    ∃ registry, analyze config (joinedOn conditions) = .ok registry ∧
      registry.tables.map Table.name = ["select-1", "a", "b", "join-1"] ∧
      (registry.find? 3).map Table.attributes = some (Attribute.updateAll [] found) := by
  obtain ⟨siblings, rfl, hjoined⟩ := h.exists_siblings htree hclause hkind
  have hkeyword : Node.whereNode.isKeyword = true := rfl
  have hopens : Node.whereNode.opensClause = false := by decide +kernel
  rw [Node.children_group, Node.linked, if_neg (by decide), if_pos hkeyword, if_pos rfl, hopens,
    Bool.not_false, Bool.true_and] at hlinked
  have hfrom : Node.conditionsFrom 0 siblings = .ok found := by
    rw [← hfound]
    change _ = Node.conditionsFrom 0 (Node.whereNode :: siblings)
    rw [Node.conditionsFrom_cons_of_passed (by decide)]
  have hcollects : Step.Collects (Step.ofSiblings (.group .statement (Node.sourcesOn ++ siblings))
      { clause := .onCondition, awaiting := true, text := "JOIN b ON" } siblings) found :=
    Step.collects_ofSiblings hlinked ⟨rfl, rfl, by simp⟩ hfrom fun _ => hne
  have hsteps : Step.ofNode (.group .statement (Node.sourcesOn ++ siblings)) =
      [Step.select, .read .selectList (.columns [.ofName "*"]) "" "SELECT *",
        .read .fromList (.sources [.named "a" none]) "" "SELECT * FROM a",
        .read .joinList (.sources [.named "b" none]) "" "JOIN b"] ++
      Step.ofSiblings (.group .statement (Node.sourcesOn ++ siblings))
        { clause := .onCondition, awaiting := true, text := "JOIN b ON" } siblings := by
    rw [Step.ofNode, Node.children_group, Step.ofSiblings_sourcesOn]
    rfl
  obtain ⟨after, hrun, hnames, hattributes⟩ := Walk.run_collects_joined
    (interpretWithin config (Node.depthAll (Node.sourcesOn ++ siblings))) config hcollects
  refine ⟨after, ?_, hnames, hattributes⟩
  rw [analyze_eq_ok_iff hjoined, Node.depth, run_interpretWithin_eq_ok_iff, hsteps]
  refine ⟨.joined, ?_⟩
  rw [List.foldlM_append, Run.run_bind_ok _ (Walk.run_joined config _ _ _)]
  exact hrun

/-- A comparison and a condition of keywords, with a connective between them. -/
def Lexeme.comparisonAndNull : List Lexeme :=
  [space, ⟨.name, "a"⟩, ⟨.punctuation, "."⟩, ⟨.name, "x"⟩, space, ⟨.comparisonOperator, "="⟩, space,
    ⟨.name, "b"⟩, ⟨.punctuation, "."⟩, ⟨.name, "x"⟩, space, ⟨.keyword .generic, "AND"⟩, space,
    ⟨.name, "a"⟩, ⟨.punctuation, "."⟩, ⟨.name, "y"⟩, space, ⟨.keyword .generic, "IS"⟩, space,
    ⟨.literal, "NULL"⟩]

theorem analyze_joinedOn_isNull : ∃ registry,
    analyze {} (joinedOn "a.x = b.x AND a.y IS NULL") = .ok registry ∧
      registry.tables.map Table.name = ["select-1", "a", "b", "join-1"] ∧
      (registry.find? 3).map Table.attributes =
        some [.withCondition "a.x" "=" "b.x", .withCondition "a.y" "IS" "NULL"] := by
  have hconditional : Lexeme.Conditional "a.x = b.x AND a.y IS NULL" Lexeme.comparisonAndNull :=
    ⟨by decide +kernel, by decide +kernel, by decide +kernel, by decide +kernel⟩
  have htree := hconditional.statementsOfText_restrictedBy (.of_forall (by decide +kernel)) false
  have hfound : (Node.group .whereClause (Node.whereNode ::
      Node.groupAll (Lexeme.comparisonAndNull.map Lexeme.toNode))).conditions =
        .ok [.withCondition "a.x" "=" "b.x", .withCondition "a.y" "IS" "NULL"] := by
    decide +kernel
  exact analyze_joinedOn hconditional htree (List.mem_append_right _ List.mem_cons_self) rfl
    (by decide +kernel) hfound (by simp)

/-- A condition on a call, which is none that is read, before a comparison. -/
def Lexeme.callAndComparison : List Lexeme :=
  [space, ⟨.name, "f"⟩, opening, ⟨.name, "x"⟩, closing, space, ⟨.keyword .generic, "IS"⟩, space,
    ⟨.literal, "NULL"⟩, space, ⟨.keyword .generic, "AND"⟩, space, ⟨.name, "a"⟩,
    ⟨.punctuation, "."⟩, ⟨.name, "y"⟩, space, ⟨.comparisonOperator, "="⟩, space, ⟨.name, "b"⟩,
    ⟨.punctuation, "."⟩, ⟨.name, "y"⟩]

/-- Behind a part that is read, a keyword that is no connective ends the conditions of the join, so
that the connective after it does not go on with them. -/
theorem not_analyze_joinedOn_call : ¬ ∀ (config : Config) (conditions : String)
    (lexemes : List Lexeme) (tree clause : Node) (found : List Attribute),
    Lexeme.Conditional conditions lexemes →
    Node.statementsOfText (restrictedBy conditions) config.stripComments = .ok [tree] →
    clause ∈ tree.children → clause.kind = .whereClause → clause.conditions = .ok found →
    found ≠ [] → ∃ registry, analyze config (joinedOn conditions) = .ok registry ∧
      (registry.find? 3).map Table.attributes = some (Attribute.updateAll [] found) := by
  intro hall
  have hconditional : Lexeme.Conditional "f(x) IS NULL AND a.y = b.y" Lexeme.callAndComparison :=
    ⟨by decide +kernel, by decide +kernel, by decide +kernel, by decide +kernel⟩
  have hnodes : Node.Nests Lexeme.callAndComparison _ :=
    .lexeme rfl rfl (.lexeme rfl rfl (.parentheses (.lexeme rfl rfl .nil)
      (.of_forall (by decide +kernel))))
  have htree := hconditional.statementsOfText_restrictedBy hnodes false
  obtain ⟨registry, hanalyze, hattributes⟩ := hall {} _ _ _ _ [.withCondition "a.y" "=" "b.y"]
    hconditional htree (List.mem_append_right _ List.mem_cons_self) rfl (by decide +kernel) (by simp)
  have hnone : ((analyze {} (joinedOn "f(x) IS NULL AND a.y = b.y")).toOption.bind fun registry =>
      (registry.find? 3).map Table.attributes) = some [] := by
    decide +kernel
  rw [hanalyze] at hnone
  rw [Except.toOption, Option.bind_some, hattributes] at hnone
  cases hnone

end QueryLineage
