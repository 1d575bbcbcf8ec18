import QueryLineage.Proofs.Analysis.Enclosed
import QueryLineage.Proofs.Analysis.Mentions
import QueryLineage.Proofs.Clause.Chain

/-!
# Joins and the tables that they make

A source behind `JOIN` makes one table for the join, and a source behind `FROM` or `JOIN` is known to
the registry from then on. Nothing else in the list of steps makes a join, and a name that has been
known stays known. So a query makes as many joins as it joins sources, if each of these is read.
-/

namespace QueryLineage

open Text

namespace Table

theorem isKnownAs_addAlias {table : Table} {name : String} (h : table.isKnownAs name = true)
    (other : String) : (table.addAlias other).isKnownAs name = true := by
  unfold addAlias
  split
  · rw [isKnownAs, Bool.or_eq_true] at h ⊢
    refine h.imp_right fun hname => ?_
    rw [List.contains_iff_mem] at hname ⊢
    exact List.mem_append_left _ hname
  · exact h

end Table

namespace Ledger

/-- So many joins have been made, and some table is known under each of the names. -/
structure Joining (joins : Nat) (names : List String) (ledger : Ledger) : Prop where
  joins : ledger.roles.count .join = joins
  known : ∀ name ∈ names, ∃ i table, ledger.registry.find? i = some table ∧
    table.isKnownAs name = true

namespace Joining

variable {ledger : Ledger} {joins : Nat} {names : List String}

theorem congr (h : Joining joins names ledger) {registry : Registry}
    (hnodes : ∀ i table, ledger.registry.find? i = some table → ∃ later,
      registry.find? i = some later ∧
        ∀ name, table.isKnownAs name = true → later.isKnownAs name = true) :
    Joining joins names { ledger with registry } := by
  refine ⟨h.joins, fun name hname => ?_⟩
  obtain ⟨i, table, hfind, hknown⟩ := h.known name hname
  obtain ⟨later, hlater, hname⟩ := hnodes i table hfind
  exact ⟨i, later, hlater, hname name hknown⟩

theorem modify (h : Joining joins names ledger) (id : Nat) {change : Table → Table}
    (hchange : ∀ table name, Table.isKnownAs table name = true →
      (change table).isKnownAs name = true) :
    Joining joins names { ledger with registry := ledger.registry.modify id change } := by
  refine h.congr fun i table hfind => ?_
  rw [Registry.find?_modify, hfind]
  split
  · exact ⟨change table, rfl, hchange table⟩
  · exact ⟨table, rfl, fun _ hname => hname⟩

theorem link (h : Joining joins names ledger) (source target : Nat) :
    Joining joins names { ledger with registry := ledger.registry.link source target } := by
  unfold Registry.link
  split
  · exact h.modify source fun table name hname => (table.isKnownAs_link target name).trans hname
  · exact h

theorem edited (h : Joining joins names ledger) {registry : Registry}
    (hsame : ledger.registry.SameNodes registry) :
    Joining joins names { ledger with registry } := by
  refine h.congr fun i table hfind => ?_
  have hlt : i < registry.size := hsame.size ▸ (List.getElem?_eq_some_iff.1 hfind).1
  obtain ⟨old, hold, hnode⟩ := hsame.node i _ (List.getElem?_eq_getElem hlt)
  obtain rfl := Option.some.inj (hold.symm.trans hfind)
  refine ⟨_, List.getElem?_eq_getElem hlt, fun name hname => ?_⟩
  rwa [Table.isKnownAs, hnode.name, hnode.aliases]

theorem known_created (h : Joining joins names ledger) (role : Role) (new : NewTable) :
    ∀ name ∈ names, ∃ i table, (ledger.created role new).registry.find? i = some table ∧
      table.isKnownAs name = true := by
  intro name hname
  obtain ⟨i, table, hfind, hknown⟩ := h.known name hname
  have hlt : i < ledger.registry.size := (List.getElem?_eq_some_iff.1 hfind).1
  refine ⟨i, table, ?_, hknown⟩
  rw [Ledger.created, Registry.find?_create, if_neg (Nat.ne_of_lt hlt), hfind]

theorem created (h : Joining joins names ledger) (role : Role) (hrole : role ≠ .join)
    (new : NewTable) : Joining joins names (ledger.created role new) := by
  refine ⟨?_, h.known_created role new⟩
  have hother : [role].count .join = 0 := List.count_eq_zero_of_not_mem (by simpa using hrole.symm)
  rw [Ledger.created, List.count_append, h.joins, hother, Nat.add_zero]

theorem createdJoin (h : Joining joins names ledger) (new : NewTable) :
    Joining (joins + 1) names (ledger.created .join new) := by
  refine ⟨?_, h.known_created .join new⟩
  rw [Ledger.created, List.count_append, h.joins, List.count_singleton_self]

theorem createdSource (h : Joining joins names ledger) (name : String) :
    Joining joins (name :: names) (ledger.created .source { name := .named name }) := by
  have hcreated := h.created .source (by decide) { name := .named name }
  refine ⟨hcreated.joins, fun other hother => ?_⟩
  rcases List.mem_cons.1 hother with rfl | hother
  · obtain ⟨table, hfind, hname⟩ := ledger.registry.exists_find?_create_size { name := .named other }
    refine ⟨_, table, hfind, ?_⟩
    rw [Table.isKnownAs, hname, Registry.nameGiven, beq_self_eq_true, Bool.true_or]
  · exact hcreated.known other hother

/-- The run makes no join. -/
abbrev Kept {α : Type} (joins : Nat) (names : List String) (p : α → Prop) (x : LedgerRun α) : Prop :=
  Keeps (Joining joins names) (fun _ _ => True) p x

theorem edit {α : Type} {x : Run α} {p : α → Prop} (hx : x.Edits p) :
    Kept joins names p (Ledger.ofRun x) :=
  keeps_ofRun (fun _ _ hsame h => h.edited hsame) hx

theorem create {role : Role} (hrole : role ≠ .join) (new : NewTable) :
    Kept joins names (fun _ => True) (Ledger.create role new) :=
  fun _ h => ⟨trivial, h.created role hrole new⟩

theorem ownTable (walk : Walk) :
    Kept joins names (fun own => own.2.table = some own.1) (Ledger.ownTable walk) := by
  unfold Ledger.ownTable
  split
  · next htable => exact Keeps.pure htable
  · exact (create (by decide) _).bind fun _ _ => Keeps.pure rfl

theorem select (walk : Walk) : Kept joins names (fun _ => True) (Ledger.select walk) := by
  unfold Ledger.select
  split
  · exact Keeps.pure trivial
  · exact (create (by decide) _).bind fun _ _ => Keeps.pure trivial

theorem addColumns (walk : Walk) (attributes : List Attribute) :
    Kept joins names (fun _ => True) (Ledger.addColumns walk attributes) :=
  (ownTable walk).bind fun _ howner =>
    (edit (Run.Edits.addColumns howner attributes)).mono fun _ _ => trivial

theorem restrict (walk : Walk) (attributes : List Attribute) :
    Kept joins names (fun _ => True) (Ledger.restrict walk attributes) :=
  (ownTable walk).bind fun _ howner =>
    (edit (Run.Edits.restrict howner attributes)).mono fun _ _ => trivial

theorem joinSource (walk : Walk) (anchor source : Nat) :
    Leads (Joining joins names) (Ledger.joinSource walk anchor source)
      fun _ => Joining (joins + 1) names :=
  fun ledger h =>
    have hlinked := ((h.createdJoin { name := .generated .join }).link anchor
      ledger.registry.size).link ledger.registry.size source
    ⟨hlinked.joins, hlinked.known⟩

theorem addSource (walk : Walk) (clause : Clause) (source : Nat) :
    Leads (Joining joins names) (Ledger.addSource walk clause source)
      fun _ => Joining (if clause = .joinList then joins + 1 else joins) names := by
  unfold Ledger.addSource
  split
  · split
    · exact joinSource walk _ source
    · exact Triple.bind (ownTable walk) fun own ledger hown =>
        joinSource own.2 own.1 source ledger hown.2
  · refine Triple.bind (ownTable walk) fun own ledger hown => ?_
    have hlinked := hown.2.link own.1 source
    exact ⟨hlinked.joins, hlinked.known⟩

theorem knownAs (name : String) :
    Leads (Joining joins names) (Ledger.knownAs name) fun _ => Joining joins (name :: names) := by
  intro ledger h
  cases hfound : ledger.registry.findKnownAs? name with
  | none =>
    rw [run_knownAs_of_none hfound]
    exact h.createdSource name
  | some table =>
    rw [run_knownAs_of_some hfound]
    obtain ⟨i, hi, htable⟩ := List.getElem_of_mem (List.mem_of_find?_eq_some hfound)
    refine ⟨h.joins, fun other hother => ?_⟩
    rcases List.mem_cons.1 hother with rfl | hother
    · have hknown := List.find?_some hfound
      exact ⟨i, table, htable ▸ List.getElem?_eq_getElem hi, hknown⟩
    · exact h.known other hother

theorem giveAlias (id : Nat) (alias? : Option String) :
    Kept joins names (fun _ => True) (Ledger.ofRun (Walk.giveAlias id alias?)) := by
  cases alias? with
  | none => exact Keeps.pure trivial
  | some other =>
    exact fun ledger h =>
      ⟨trivial, h.modify id fun table name hname => Table.isKnownAs_addAlias hname other⟩

theorem tableNamed (name : String) (alias? : Option String) :
    Leads (Joining joins names) (Ledger.tableNamed name alias?)
      fun _ => Joining joins (name :: names) :=
  (knownAs name).bind fun id => Triple.bind (giveAlias id alias?) fun _ =>
    Triple.pure fun _ h => h.2

section

variable (descend : Node → Option Nat → Bool → LedgerRun Unit) (config : Config) (walk : Walk)

omit descend config walk in
theorem step_read {descend : Node → Option Nat → Bool → LedgerRun Unit} {config : Config}
    {clause : Clause} {reading : Reading} {comment text : String} {finding : Finding}
    (hresolve : Ledger.resolve descend config comment reading = pure [finding]) (walk : Walk) :
    Ledger.step descend config walk (.read clause reading comment text) =
      Ledger.record config clause text walk finding := by
  rw [Ledger.step, hresolve, pure_bind, List.foldlM_cons]
  simp

theorem step_of_isQuiet {step : Step} (hquiet : step.isQuiet = true) :
    Kept joins names (fun _ => True) (Ledger.step descend config walk step) := by
  cases step with
  | select => exact select walk
  | restrict attributes => exact restrict walk attributes
  | finish text =>
    exact (edit (Run.Edits.finish walk config text)).bind fun _ _ => Keeps.pure trivial
  | fail error => cases hquiet
  | read clause reading comment text =>
    cases reading with
    | columns attributes =>
      rw [step_read rfl]
      exact addColumns walk attributes
    | conditions attributes =>
      rw [step_read rfl]
      exact (edit (Run.Edits.addConditions walk config attributes text)).bind fun _ _ =>
        Keeps.pure trivial
    | nothing =>
      rw [step_read rfl]
      exact Keeps.pure trivial
    | sources found => cases hquiet
    | entries nodes => cases hquiet

theorem step_source (clause : Clause) (name : String) (alias? : Option String)
    (comment text : String) :
    Leads (Joining joins names) (Ledger.step descend config walk
        (.read clause (.sources [.named name alias?]) comment text))
      fun _ => Joining (if clause = .joinList then joins + 1 else joins) (name :: names) := by
  have hresolve : Ledger.resolve descend config comment (.sources [.named name alias?]) =
      pure [.source name alias?] := by
    simp [Ledger.resolve, Ledger.resolveSource, List.mapM_cons]
  rw [step_read hresolve]
  exact (tableNamed name alias?).bind fun id => addSource walk clause id

/-- Steps make a join for each source that is joined, and they know all sources in the end. -/
theorem foldlM_step {steps : List Step} {found : List (Clause × String)}
    (h : Step.Sources steps found) :
    Leads (Joining joins names) (steps.foldlM (Ledger.step descend config) walk) fun _ =>
      Joining (joins + found.countP (·.1 = .joinList)) (found.map Prod.snd ++ names) := by
  induction h generalizing walk joins names with
  | nil => exact Triple.pure fun _ h => h
  | quiet hquiet _ ih =>
    rw [List.foldlM_cons]
    exact Triple.bind (step_of_isQuiet descend config walk hquiet) fun next ledger hnext =>
      ih next ledger hnext.2
  | source clause name alias? comment text _ ih =>
    rw [List.foldlM_cons]
    refine (step_source descend config walk clause name alias? comment text).bind fun next => ?_
    refine Triple.mono (ih next) (fun _ => id) fun _ ledger hlast => ⟨?_, fun other hother => ?_⟩
    · rw [hlast.joins, List.countP_cons]
      by_cases hclause : clause = .joinList <;> simp [hclause]
      omega
    · refine hlast.known other ?_
      simpa [or_left_comm] using hother

end

end Joining

/-- The tables that are for a purpose are as many as the purpose is entered. -/
theorem exists_ids (ledger : Ledger) (role : Role) : ∃ ids : List Nat, ids.Nodup ∧
    ids.length = ledger.roles.count role ∧ ∀ id, id ∈ ids ↔ ledger.roleOf id = some role := by
  refine ⟨ledger.roles.findIdxs (· == role), List.nodup_findIdxs, List.length_findIdxs, ?_⟩
  intro id
  rw [List.mem_findIdxs_iff_exists_getElem_pos, roleOf, List.getElem?_eq_some_iff]
  simp

/-- The joins of a text are told by their names. -/
theorem roleOf_eq_join_iff {config : Config} {sql : String} {ledger : Ledger}
    (h : analyze config sql = .ok ledger) (id : Nat) :
    ledger.roleOf id = some .join ↔ ledger.registry.IsJoin id := by
  obtain ⟨hwired, hidentified⟩ := wired_analyze h
  constructor
  · intro hrole
    have hlt : id < ledger.registry.size := hwired.size ▸ lt_of_roleOf hrole
    have hfind := List.getElem?_eq_getElem hlt
    obtain ⟨n, hname⟩ := (hidentified.join id _ hfind).1 hrole
    exact ⟨_, n, hfind, hname⟩
  · rintro ⟨table, n, hfind, hname⟩
    exact (hidentified.join id table hfind).2 ⟨n, hname⟩

end Ledger

/-- A query that joins sources to a first one makes one join for each, and all of its sources are
known, provided that no condition of keywords behind an `ON` runs on into the next `JOIN`. -/
theorem joins_of_joinQuery {config : Config} {sql first : String} {row : List Node}
    {names : List String} (hquery : Node.JoinQuery row first names)
    (htree : Node.statementsOfText sql config.stripComments = .ok [.group .statement row])
    {registry : Registry} (h : analyze config sql = .ok registry) :
    (∃ joins : List Nat, joins.Nodup ∧ joins.length = names.length ∧
      ∀ id, id ∈ joins ↔ registry.IsJoin id) ∧
    ∀ name ∈ first :: names, ∃ table, registry.findKnownAs? name = some table := by
  have hsources : Step.Sources (Step.ofNode (.group .statement row))
      ((.fromList, first) :: names.map (.joinList, ·)) := by
    have hrun := (analyze_eq_ok_iff htree).1 h
    rw [Node.depth, run_interpretWithin_eq_ok_iff] at hrun
    obtain ⟨last, hrun⟩ := hrun
    exact Step.sources_of_joinQuery hquery (fail_not_mem_of_run hrun)
  have hstatement : Ledger.Leads (Ledger.Joining 0 [])
      (Ledger.interpretWithin config (Node.group .statement row).depth (.group .statement row) none
        false) fun _ => Ledger.Joining names.length (first :: names) := by
    rw [Node.depth, Ledger.interpretWithin]
    refine (Ledger.Joining.foldlM_step _ config _ hsources).bind fun last => ?_
    exact Triple.pure fun ledger hlast => by simpa [Function.comp_def] using hlast
  obtain ⟨ledger, hledger, rfl⟩ := exists_ledger h
  have hjoining : ledger.Joining names.length (first :: names) := by
    have hprocess : Ledger.Leads (Ledger.Joining 0 []) (Ledger.process config sql)
        fun _ => Ledger.Joining names.length (first :: names) := by
      rw [Ledger.process, htree]
      exact hstatement.bind fun _ => Triple.pure fun _ hlast => hlast
    have hlast := hprocess {} ⟨rfl, by simp⟩
    rwa [Ledger.run_process_of_analyze hledger] at hlast
  constructor
  · obtain ⟨ids, hnodup, hlength, hids⟩ := ledger.exists_ids .join
    refine ⟨ids, hnodup, hlength.trans hjoining.joins, fun id => (hids id).trans ?_⟩
    exact Ledger.roleOf_eq_join_iff hledger id
  · intro name hname
    obtain ⟨i, table, hfind, hknown⟩ := hjoining.known name hname
    exact Option.isSome_iff_exists.1
      (List.find?_isSome.2 ⟨table, List.mem_of_getElem? hfind, hknown⟩)

namespace Node

def columnNode (table column : String) : Node :=
  group .identifier [nameNode table, leaf .punctuation ".", nameNode column]

def equalNode (first second : Node) : Node :=
  group .comparison [first, spaceNode, leaf .comparisonOperator "=", spaceNode, second]

/-- A condition of keywords, without its operand. -/
def isNull : List Node :=
  [spaceNode, leaf (.keyword .generic) "IS", spaceNode, leaf .literal "NULL"]

/-- Conditions of keywords before a connective and at the end. -/
def nullConditions : List Node :=
  sourcesOn ++ spaceNode :: columnNode "b" "y" :: (isNull ++ spaceNode ::
    leaf (.keyword .generic) "AND" :: spaceNode :: equalNode (columnNode "b" "x")
      (columnNode "a" "x") :: spaceNode :: joinNode :: spaceNode ::
        group .identifier [nameNode "c"] :: spaceNode :: onNode :: spaceNode ::
          columnNode "c" "y" :: isNull)

theorem joinQuery_nullConditions : JoinQuery nullConditions "a" ["b", "c"] := by
  have hfiller : ∀ node ∈ [spaceNode], node.isFiller .all = true := by decide
  have hlast : JoinChain (joinNode :: ([spaceNode] ++ group .identifier [nameNode "c"] ::
      ([spaceNode] ++ onNode :: (spaceNode :: columnNode "c" "y" :: isNull ++ [])))) ["c"] :=
    .join (by decide +kernel) hfiller (source_name "c") hfiller (by decide +kernel)
      (by decide +kernel) (Or.inl rfl) .nil
  have hchain : JoinChain (joinNode :: ([spaceNode] ++ group .identifier [nameNode "b"] ::
      ([spaceNode] ++ onNode :: (spaceNode :: columnNode "b" "y" :: (isNull ++ [spaceNode,
        leaf (.keyword .generic) "AND", spaceNode, equalNode (columnNode "b" "x")
          (columnNode "a" "x"), spaceNode]) ++ _)))) ["b", "c"] :=
    .join (by decide +kernel) hfiller (source_name "b") hfiller (by decide +kernel)
      (by decide +kernel) (Or.inr (by decide +kernel)) hlast
  have hitems : ∀ node ∈ [spaceNode, starNode, spaceNode], node.opensClause = false := by
    decide +kernel
  have hbefore : ∀ node ∈ ([] : List Node), node.isFiller .all = true := by decide
  have hselect : Reader.clauseAfter? selectNode = some .selectList := by decide +kernel
  have hfrom : Reader.clauseAfter? fromNode = some .fromList := by decide +kernel
  change JoinQuery ([] ++ selectNode :: ([spaceNode, starNode, spaceNode] ++ fromNode ::
    ([spaceNode] ++ group .identifier [nameNode "a"] :: ([spaceNode] ++ _)))) "a" _
  exact .mk hbefore hselect hitems hfrom hfiller (source_name "a") hfiller hchain

end Node

/-- Both joins are made: the one condition ends before its connective, the other one with the text. -/
theorem joins_of_joinQuery_nullConditions : ∃ registry,
    analyze {} "SELECT * FROM a JOIN b ON b.y IS NULL AND b.x = a.x JOIN c ON c.y IS NULL" =
      .ok registry ∧
    (∃ joins : List Nat, joins.Nodup ∧ joins.length = 2 ∧ ∀ id, id ∈ joins ↔ registry.IsJoin id) ∧
    ∀ name ∈ ["a", "b", "c"], ∃ table, registry.findKnownAs? name = some table := by
  have htree : Node.statementsOfText
      "SELECT * FROM a JOIN b ON b.y IS NULL AND b.x = a.x JOIN c ON c.y IS NULL" false =
        .ok [.group .statement Node.nullConditions] := by decide +kernel
  obtain ⟨registry, hok⟩ : ∃ registry, analyze {}
      "SELECT * FROM a JOIN b ON b.y IS NULL AND b.x = a.x JOIN c ON c.y IS NULL" = .ok registry :=
    exists_analyze_of_single htree (by decide +kernel)
  exact ⟨registry, hok, joins_of_joinQuery Node.joinQuery_nullConditions htree hok⟩

/-- The keyword of the next join is taken for a part of the condition. -/
theorem not_keywordCondition_ends_isNull : ¬ ∀ (config : Config) (sql : String)
    (tree opener operand : Node) (before filler siblings : List Node),
    Node.statementsOfText sql config.stripComments = .ok [tree] →
    tree.children = before ++ opener :: (filler ++ operand :: siblings) →
    opener.isWord "ON" = true → (∀ node ∈ filler, node.isFiller .all = true) →
    operand.kind = .identifier →
    ∀ node ∈ siblings.take (Node.keywordCondition operand siblings).2, node.opensClause = false := by
  intro hall
  have htree : Node.statementsOfText
      "SELECT * FROM a JOIN b ON b.x IS NULL JOIN c ON c.y = b.y" false =
        .ok [.group .statement (Node.sourcesOn ++ Node.spaceNode :: Node.columnNode "b" "x" ::
          (Node.isNull ++ Node.spaceNode :: Node.joinNode :: Node.spaceNode ::
            .group .identifier [Node.nameNode "c"] :: Node.spaceNode :: Node.onNode ::
              Node.spaceNode :: [Node.equalNode (Node.columnNode "c" "y")
                (Node.columnNode "b" "y")]))] := by
    decide +kernel
  have hends := hall {} _ _ Node.onNode (Node.columnNode "b" "x") (Node.sourcesOn.take 12)
    [Node.spaceNode] _ htree rfl (by decide +kernel) (by decide) rfl Node.joinNode
  have hopens : Node.joinNode.opensClause = true := by decide +kernel
  rw [hends (by decide +kernel)] at hopens
  cases hopens

end QueryLineage
