import QueryLineage.Proofs.Analysis.Run

/-!
# What tables are for

A registry tells what its tables are called, but not what they were registered for. A ledger keeps
this along with the registry: for each table, what has brought it about, and for each `FROM` and
`JOIN`, the table of the query that it belongs to and the tables that it mentions. A run with a
ledger does to the registry what the run does without.
-/

namespace QueryLineage

open Text

/-- What a table has been registered for: a `SELECT` or another statement at the top, an entry of a
`WITH`, and behind `FROM` or `JOIN` a query in parentheses, a name or the join itself. -/
inductive Role where
  | select
  | anonymous
  | common
  | derived
  | source
  | join
  deriving DecidableEq, Repr

/-- Whether the table is that of a query, which has clauses of its own. -/
def Role.isQuery : Role → Bool
  | select | anonymous | common | derived => true
  | source | join => false

/-- Whether the table has been registered by a `FROM` or `JOIN` that mentions it. -/
def Role.isMentioned : Role → Bool
  | derived | source | join => true
  | select | anonymous | common => false

/-- A registry with what its tables are for, in the order of their ids, and with the table of each
`FROM` or `JOIN` before each table that is mentioned there. -/
structure Ledger where
  registry : Registry := .empty
  roles : List Role := []
  mentions : List (Nat × Nat) := []

/-- A run on a ledger that may fail. -/
abbrev LedgerRun := ExceptT LineageError (StateM Ledger)

namespace Ledger

def ofRun {α : Type} (x : Run α) : LedgerRun α :=
  ExceptT.mk fun ledger =>
    let (result, registry) := x.run ledger.registry
    (result, { ledger with registry })

def create (role : Role) (new : NewTable) : LedgerRun Nat := do
  let id ← ofRun (Run.create new)
  modify fun ledger => { ledger with roles := ledger.roles ++ [role] }
  pure id

/-- Enters that the table is mentioned in a clause of the first one. -/
def mention (owner? : Option Nat) (target : Nat) : LedgerRun Unit :=
  modify fun ledger =>
    { ledger with mentions := ledger.mentions ++ owner?.toList.map fun owner => (owner, target) }

def ownTable (walk : Walk) : LedgerRun (Nat × Walk) :=
  match walk.table with
  | some table => pure (table, walk)
  | none => do
    let table ← create .anonymous { name := .generated .table }
    pure (table, { walk with table := some table })

def select (walk : Walk) : LedgerRun Walk :=
  match walk.enclosing with
  | some _ => pure { walk with lastJoin := none, anchor := none }
  | none => do
    let table ← create .select { name := .generated .select }
    pure { walk with table := some table, listRead := false, lastJoin := none, anchor := none }

def addColumns (walk : Walk) (attributes : List Attribute) : LedgerRun Walk := do
  let own ← ownTable walk
  ofRun (own.2.addColumns attributes)

def restrict (walk : Walk) (attributes : List Attribute) : LedgerRun Walk := do
  let own ← ownTable walk
  ofRun (own.2.restrict attributes)

def joinSource (walk : Walk) (anchor source : Nat) : LedgerRun Walk := do
  let join ← create .join { name := .generated .join }
  ofRun (Run.link anchor join)
  ofRun (Run.link join source)
  mention walk.table join
  mention walk.table source
  pure { walk with lastJoin := some join, anchor := some join }

def addSource (walk : Walk) (clause : Clause) (source : Nat) : LedgerRun Walk :=
  if clause = .joinList then
    match walk.anchor with
    | some anchor => joinSource walk anchor source
    | none => do
      let own ← ownTable walk
      joinSource own.2 own.1 source
  else do
    let own ← ownTable walk
    ofRun (Run.link own.1 source)
    mention (some own.1) source
    pure { own.2 with anchor := some source }

def knownAs (name : String) : LedgerRun Nat := do
  match (← get).registry.findKnownAs? name with
  | some table => pure table.id
  | none => create .source { name := .named name }

theorem run_knownAs_of_some {name : String} {ledger : Ledger} {table : Table}
    (h : ledger.registry.findKnownAs? name = some table) :
    (knownAs name).run ledger = (.ok table.id, ledger) := by
  rw [knownAs, Run.run_bind_ok _ (Run.run_get ledger), h]
  rfl

theorem run_knownAs_of_none {name : String} {ledger : Ledger}
    (h : ledger.registry.findKnownAs? name = none) :
    (knownAs name).run ledger = (create .source { name := .named name }).run ledger := by
  rw [knownAs, Run.run_bind_ok _ (Run.run_get ledger), h]

def tableNamed (name : String) (alias? : Option String) : LedgerRun Nat := do
  let id ← knownAs name
  ofRun (Walk.giveAlias id alias?)
  pure id

def record (config : Config) (clause : Clause) (text : String) (walk : Walk) :
    Finding → LedgerRun Walk
  | .columns attributes => addColumns walk attributes
  | .source name alias? => do addSource walk clause (← tableNamed name alias?)
  | .derived id => addSource walk clause id
  | .conditions attributes => do
    ofRun (walk.addConditions config attributes text)
    pure walk
  | .nothing => pure walk

section

variable (descend : Node → Option Nat → Bool → LedgerRun Unit) (config : Config)

def resolveSource : Source → LedgerRun Finding
  | .named name alias? => pure (.source name alias?)
  | .derived alias? body => do
    let id ← create .derived { name := .generated .select, alias? }
    descend body (some id) false
    pure (.derived id)

def register (comment : String) (node : Node) : LedgerRun Nat := do
  let entry ← ofRun (CommonTable.ofNode node)
  let id ← create .common
    { name := .named entry.name
      attributes := entry.columns.map .placeholder
      comment := entry.comment?.getD comment
      source := if config.captureSource then trim node.text else "" }
  descend entry.body (some id) (!entry.columns.isEmpty)
  pure id

def resolve (comment : String) : Reading → LedgerRun (List Finding)
  | .columns attributes => pure [.columns attributes]
  | .sources found => found.mapM (resolveSource descend)
  | .entries nodes => do
    let _ ← nodes.mapM (register descend config comment)
    pure [.nothing]
  | .conditions attributes => pure [.conditions attributes]
  | .nothing => pure [.nothing]

def step (walk : Walk) : Step → LedgerRun Walk
  | .select => select walk
  | .read clause reading comment text => do
    let findings ← resolve descend config comment reading
    findings.foldlM (record config clause text) walk
  | .restrict conditions => restrict walk conditions
  | .fail error => throw error
  | .finish text => do
    ofRun (walk.finish config text)
    pure walk

end

def interpretWithin (config : Config) : Nat → Node → Option Nat → Bool → LedgerRun Unit
  | 0, _, _, _ => pure ()
  | n + 1, node, enclosing, declared => do
    let _ ← (Step.ofNode node).foldlM (step (interpretWithin config n) config)
      (Walk.start enclosing declared)

def process (config : Config) (sql : String) : LedgerRun Unit :=
  match Node.statementsOfText sql config.stripComments with
  | .error error => throw (.parse error)
  | .ok statements =>
    statements.forM fun statement => interpretWithin config statement.depth statement none false

def analyze (config : Config) (sql : String) : Except LineageError Ledger :=
  match (process config sql).run {} with
  | (.error error, _) => .error error
  | (.ok (), ledger) => .ok ledger

theorem run_process_of_analyze {config : Config} {sql : String} {ledger : Ledger}
    (h : analyze config sql = .ok ledger) : (process config sql).run {} = (.ok (), ledger) := by
  unfold analyze at h
  rcases hrun : (process config sql).run {} with ⟨result, last⟩
  rw [hrun] at h
  cases result with
  | error error => cases h
  | ok answer =>
    cases h
    rfl

/-- The second run does to the registry what the first one does, and answers the same. -/
def Erases {α : Type} (x : LedgerRun α) (y : Run α) : Prop :=
  ∀ ledger, y.run ledger.registry = ((x.run ledger).1, (x.run ledger).2.registry)

namespace Erases

variable {α β : Type}

theorem pure (a : α) : Erases (Pure.pure a) (Pure.pure a) := fun _ => rfl

theorem throw (error : LineageError) :
    Erases (MonadExcept.throw error : LedgerRun α) (MonadExcept.throw error) := fun _ => rfl

theorem bind {first : LedgerRun α} {other : Run α} {next : α → LedgerRun β} {later : α → Run β}
    (hfirst : Erases first other) (hnext : ∀ a, Erases (next a) (later a)) :
    Erases (first >>= next) (other >>= later) := by
  intro ledger
  rw [Run.run_bind, Run.run_bind, hfirst ledger]
  rcases first.run ledger with ⟨result, middle⟩
  cases result with
  | error error => rfl
  | ok a => exact hnext a middle

theorem mapM {f : α → LedgerRun β} {g : α → Run β} (h : ∀ a, Erases (f a) (g a)) (as : List α) :
    Erases (as.mapM f) (as.mapM g) := by
  induction as with
  | nil => exact pure []
  | cons a as ih =>
    rw [List.mapM_cons, List.mapM_cons]
    exact (h a).bind fun b => ih.bind fun bs => pure (b :: bs)

theorem foldlM {f : β → α → LedgerRun β} {g : β → α → Run β} (h : ∀ b a, Erases (f b a) (g b a))
    (b : β) (as : List α) : Erases (as.foldlM f b) (as.foldlM g b) := by
  induction as generalizing b with
  | nil => exact pure b
  | cons a as ih =>
    rw [List.foldlM_cons, List.foldlM_cons]
    exact (h b a).bind ih

theorem forM {f : α → LedgerRun PUnit} {g : α → Run PUnit} (h : ∀ a, Erases (f a) (g a))
    (as : List α) : Erases (as.forM f) (as.forM g) := by
  induction as with
  | nil => exact pure ()
  | cons a as ih => exact (h a).bind fun _ => ih

theorem ofRun (x : Run α) : Erases (Ledger.ofRun x) x := fun _ => rfl

theorem create (role : Role) (new : NewTable) : Erases (Ledger.create role new) (Run.create new) :=
  fun _ => rfl

/-- What is entered besides the registry is not seen in the registry. -/
theorem mention {owner? : Option Nat} {target : Nat} {next : LedgerRun α} {later : Run α}
    (h : Erases next later) : Erases (Ledger.mention owner? target >>= fun _ => next) later :=
  fun ledger => h { ledger with
    mentions := ledger.mentions ++ owner?.toList.map fun owner => (owner, target) }

theorem ownTable (walk : Walk) : Erases (Ledger.ownTable walk) walk.ownTable := by
  unfold Ledger.ownTable Walk.ownTable
  cases walk.table with
  | some table => exact pure _
  | none => exact (create _ _).bind fun table => pure _

theorem select (walk : Walk) : Erases (Ledger.select walk) walk.select := by
  unfold Ledger.select Walk.select
  cases walk.enclosing with
  | some table => exact pure _
  | none => exact (create _ _).bind fun table => pure _

theorem addColumns (walk : Walk) (attributes : List Attribute) :
    Erases (Ledger.addColumns walk attributes) (walk.addColumns attributes) := by
  have howned : walk.addColumns attributes =
      walk.ownTable >>= fun own => own.2.addColumns attributes := by
    unfold Walk.addColumns Walk.ownTable
    cases htable : walk.table with
    | some table => simp only [pure_bind, htable]
    | none => simp only [bind_assoc, pure_bind]
  rw [howned]
  exact (ownTable walk).bind fun own => ofRun _

theorem restrict (walk : Walk) (attributes : List Attribute) :
    Erases (Ledger.restrict walk attributes) (walk.restrict attributes) := by
  have howned : walk.restrict attributes =
      walk.ownTable >>= fun own => own.2.restrict attributes := by
    unfold Walk.restrict Walk.ownTable
    cases htable : walk.table with
    | some table => simp only [pure_bind, htable]
    | none => simp only [bind_assoc, pure_bind]
  rw [howned]
  exact (ownTable walk).bind fun own => ofRun _

theorem joinSource (walk : Walk) (anchor source : Nat) :
    Erases (Ledger.joinSource walk anchor source) (walk.joinSource anchor source) :=
  (create _ _).bind fun _ => (ofRun _).bind fun _ => (ofRun _).bind fun _ =>
    mention (mention (pure _))

theorem addSource (walk : Walk) (clause : Clause) (source : Nat) :
    Erases (Ledger.addSource walk clause source) (walk.addSource clause source) := by
  unfold Ledger.addSource
  by_cases hclause : clause = .joinList
  · rw [if_pos hclause, hclause, Walk.addSource_joinList]
    cases walk.anchor with
    | some anchor => exact joinSource walk anchor source
    | none => exact (ownTable walk).bind fun own => joinSource own.2 own.1 source
  · rw [if_neg hclause, Walk.addSource_of_ne hclause]
    exact (ownTable walk).bind fun own => (ofRun _).bind fun _ => mention (pure _)

theorem knownAs (name : String) : Erases (Ledger.knownAs name) (Walk.knownAs name) := by
  intro ledger
  cases hfound : ledger.registry.findKnownAs? name with
  | some table => rw [Walk.run_knownAs_of_some hfound, run_knownAs_of_some hfound]
  | none =>
    rw [Walk.run_knownAs_of_none hfound, run_knownAs_of_none hfound]
    exact create _ _ ledger

theorem tableNamed (name : String) (alias? : Option String) :
    Erases (Ledger.tableNamed name alias?) (Walk.tableNamed name alias?) := by
  rw [Walk.tableNamed_eq]
  exact (knownAs name).bind fun id => (ofRun _).bind fun _ => pure id

theorem record (config : Config) (clause : Clause) (text : String) (walk : Walk)
    (finding : Finding) : Erases (Ledger.record config clause text walk finding)
      (Walk.record config clause text walk finding) := by
  cases finding with
  | columns attributes => exact addColumns walk attributes
  | source name alias? => exact (tableNamed name alias?).bind fun id => addSource walk clause id
  | derived id => exact addSource walk clause id
  | conditions attributes => exact (ofRun _).bind fun _ => pure walk
  | nothing => exact pure walk

section

variable {descend : Node → Option Nat → Bool → LedgerRun Unit}
  {other : Node → Option Nat → Bool → Run Unit}
  (hdescend : ∀ node enclosing declared,
    Erases (descend node enclosing declared) (other node enclosing declared))
include hdescend

theorem resolveSource (source : Source) :
    Erases (Ledger.resolveSource descend source) (source.resolve other) := by
  cases source with
  | named name alias? => exact pure _
  | derived alias? body =>
    exact (create _ _).bind fun id => (hdescend body (some id) false).bind fun _ => pure _

theorem register (config : Config) (comment : String) (node : Node) :
    Erases (Ledger.register descend config comment node)
      (CommonTable.register other config comment node) :=
  (ofRun _).bind fun entry => (create _ _).bind fun id =>
    (hdescend entry.body (some id) _).bind fun _ => pure id

theorem resolve (config : Config) (comment : String) (reading : Reading) :
    Erases (Ledger.resolve descend config comment reading)
      (reading.resolve other config comment) := by
  cases reading with
  | columns attributes => exact pure _
  | sources found => exact mapM (resolveSource hdescend) found
  | entries nodes => exact (mapM (register hdescend config comment) nodes).bind fun _ => pure _
  | conditions attributes => exact pure _
  | nothing => exact pure _

theorem step (config : Config) (walk : Walk) (step : Step) :
    Erases (Ledger.step descend config walk step) (Walk.step other config walk step) := by
  cases step with
  | select => exact select walk
  | read clause reading comment text =>
    exact (resolve hdescend config comment reading).bind fun findings =>
      foldlM (record config clause text) walk findings
  | restrict conditions => exact restrict walk conditions
  | fail error => exact throw error
  | finish text => exact (ofRun _).bind fun _ => pure walk

end

theorem interpretWithin (config : Config) (n : Nat) : ∀ node enclosing declared,
    Erases (Ledger.interpretWithin config n node enclosing declared)
      (QueryLineage.interpretWithin config n node enclosing declared) := by
  induction n with
  | zero => exact fun _ _ _ => pure ()
  | succ n ih => exact fun node enclosing declared =>
      (foldlM (step ih config) _ _).bind fun _ => pure ()

theorem process (config : Config) (sql : String) :
    Erases (Ledger.process config sql) (QueryLineage.process config sql) := by
  unfold Ledger.process QueryLineage.process
  cases Node.statementsOfText sql config.stripComments with
  | error error => exact throw _
  | ok statements => exact forM (fun statement =>
      interpretWithin config statement.depth statement none false) statements

end Erases

theorem analyze_eq (config : Config) (sql : String) :
    QueryLineage.analyze config sql = (analyze config sql).map registry := by
  have hprocess : (QueryLineage.process config sql).run .empty =
      (((process config sql).run {}).1, ((process config sql).run {}).2.registry) :=
    Erases.process config sql {}
  unfold QueryLineage.analyze analyze
  rw [hprocess]
  rcases (process config sql).run {} with ⟨result, ledger⟩
  cases result <;> rfl

end Ledger

end QueryLineage
