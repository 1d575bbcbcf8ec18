import QueryLineage.Proofs.Analysis.Run
import QueryLineage.Proofs.Graph.Links

/-!
# Runs act by operations

Whatever a run does to its registry, and wherever it fails, it does by operations of the registry.
The registry that a caller finds after any calls is therefore sound.
-/

namespace QueryLineage

/-- The run changes its registry by operations only, whether it succeeds or fails. -/
def Acts {α : Type} (x : Run α) : Prop :=
  ∀ registry, ∃ operations, (x.run registry).2 = registry.perform operations

namespace Acts

variable {α β : Type}

theorem pure (a : α) : Acts (Pure.pure a) := by
  intro registry
  exact ⟨[], rfl⟩

theorem throw (error : LineageError) : Acts (MonadExcept.throw error : Run α) := by
  intro registry
  exact ⟨[], rfl⟩

theorem get : Acts (MonadState.get : Run Registry) := by
  intro registry
  exact ⟨[], rfl⟩

theorem bind {first : Run α} {next : α → Run β} (hfirst : Acts first)
    (hnext : ∀ a, Acts (next a)) : Acts (first >>= next) := by
  intro registry
  obtain ⟨operations, hoperations⟩ := hfirst registry
  rw [Run.run_bind]
  rcases hrun : first.run registry with ⟨result, later⟩
  rw [hrun] at hoperations
  cases result with
  | error error => exact ⟨operations, hoperations⟩
  | ok a =>
    obtain ⟨further, hfurther⟩ := hnext a later
    refine ⟨operations ++ further, ?_⟩
    rw [Registry.perform_append, ← hoperations]
    exact hfurther

theorem mapM {f : α → Run β} (hf : ∀ a, Acts (f a)) (as : List α) : Acts (as.mapM f) := by
  induction as with
  | nil => exact pure []
  | cons a as ih =>
    rw [List.mapM_cons]
    exact (hf a).bind fun b => ih.bind fun bs => pure (b :: bs)

theorem foldlM {f : β → α → Run β} (hf : ∀ b a, Acts (f b a)) (b : β) (as : List α) :
    Acts (as.foldlM f b) := by
  induction as generalizing b with
  | nil => exact pure b
  | cons a as ih =>
    rw [List.foldlM_cons]
    exact (hf b a).bind ih

theorem forM {f : α → Run PUnit} (hf : ∀ a, Acts (f a)) (as : List α) : Acts (as.forM f) := by
  induction as with
  | nil => exact pure ()
  | cons a as ih => exact (hf a).bind fun _ => ih

theorem lift (result : Except LineageError α) : Acts (liftM result : Run α) := by
  cases result with
  | error error => exact throw error
  | ok a => exact pure a

theorem retains {x : Run α} (h : Acts x) {registry later : Registry}
    {result : Except LineageError α} (hrun : x.run registry = (result, later)) :
    later.Retains registry := by
  obtain ⟨operations, rfl⟩ : ∃ operations, later = registry.perform operations := by
    simpa [hrun] using h registry
  exact .perform registry operations

/-- Ids are positions after any run that began with no tables. -/
theorem id_eq {x : Run α} (h : Acts x) {later : Registry} {result : Except LineageError α}
    (hrun : x.run .empty = (result, later)) {i : Nat} {table : Table}
    (hfind : later.find? i = some table) : table.id = i := by
  obtain ⟨operations, rfl⟩ : ∃ operations, later = Registry.empty.perform operations := by
    simpa [hrun] using h .empty
  exact (Registry.sound_empty.perform operations).id i table hfind

theorem create (new : NewTable) : Acts (Run.create new) := by
  intro registry
  exact ⟨[.create new], rfl⟩

theorem link (source target : Nat) : Acts (Run.link source target) := by
  intro registry
  exact ⟨[.link source target], rfl⟩

theorem addAlias (id : Nat) (other : String) :
    Acts (modify (·.addAlias id other) : Run Unit) := by
  intro registry
  exact ⟨[.addAlias id other], rfl⟩

theorem change (id : Nat) {change : Table → Table}
    (same : ∀ table : Table, table.SameNode (change table)) :
    Acts (Run.change id change) := by
  intro registry
  exact ⟨[.edit id change same], rfl⟩

theorem ownTable (walk : Walk) : Acts walk.ownTable := by
  unfold Walk.ownTable
  split
  · exact pure _
  · exact (create _).bind fun table => pure _

theorem select (walk : Walk) : Acts walk.select := by
  unfold Walk.select
  split
  · exact pure _
  · exact (create _).bind fun table => pure _

theorem fill (id : Nat) (produced : List Attribute) : Acts (Walk.fill id produced) := by
  unfold Walk.fill
  refine get.bind fun registry => ?_
  split
  · exact pure ()
  · next table _ =>
    by_cases hfew : produced.length < (table.attributes.filter Attribute.isPlaceholder).length
    · simp only [hfew, if_true]
      exact throw _
    · simp only [hfew, if_false]
      exact change id fun table => ⟨rfl, rfl, rfl, rfl⟩

theorem addColumns (walk : Walk) (attributes : List Attribute) :
    Acts (walk.addColumns attributes) := by
  unfold Walk.addColumns
  refine (ownTable walk).bind fun (table, walk) => ?_
  dsimp only
  split
  · exact (fill table attributes).bind fun _ => pure _
  · split <;>
      refine bind (change table fun table => ?_) fun _ => pure _ <;> exact ⟨rfl, rfl, rfl, rfl⟩

theorem addConditions (walk : Walk) (config : Config) (attributes : List Attribute)
    (text : String) : Acts (walk.addConditions config attributes text) := by
  unfold Walk.addConditions
  split
  · exact pure ()
  · refine change _ fun table => ?_
    dsimp only
    split <;> exact ⟨rfl, rfl, rfl, rfl⟩

theorem restrict (walk : Walk) (attributes : List Attribute) : Acts (walk.restrict attributes) := by
  unfold Walk.restrict
  refine (ownTable walk).bind ?_
  rintro ⟨table, walk⟩
  refine bind (change table fun table => ?_) fun _ => pure walk
  exact ⟨rfl, rfl, rfl, rfl⟩

theorem joinSource (walk : Walk) (anchor source : Nat) : Acts (walk.joinSource anchor source) :=
  (create _).bind fun join => (link anchor join).bind fun _ =>
    (link join source).bind fun _ => pure _

theorem addSource (walk : Walk) (clause : Clause) (source : Nat) :
    Acts (walk.addSource clause source) := by
  by_cases hclause : clause = .joinList
  · rw [hclause, Walk.addSource_joinList]
    cases walk.anchor with
    | none => exact (ownTable walk).bind fun own => joinSource own.2 own.1 source
    | some anchor => exact joinSource walk anchor source
  · rw [Walk.addSource_of_ne hclause]
    exact (ownTable walk).bind fun own => (link own.1 source).bind fun _ => pure _

theorem knownAs (name : String) : Acts (Walk.knownAs name) := by
  unfold Walk.knownAs
  refine get.bind fun registry => ?_
  split
  · exact pure _
  · exact create _

theorem giveAlias (id : Nat) (alias? : Option String) : Acts (Walk.giveAlias id alias?) := by
  cases alias? with
  | none => exact pure ()
  | some other => exact addAlias id other

theorem tableNamed (name : String) (alias? : Option String) :
    Acts (Walk.tableNamed name alias?) := by
  rw [Walk.tableNamed_eq]
  exact (knownAs name).bind fun id => (giveAlias id alias?).bind fun _ => pure id

theorem record (config : Config) (clause : Clause) (text : String) (walk : Walk)
    (finding : Finding) : Acts (Walk.record config clause text walk finding) := by
  cases finding with
  | columns attributes => exact addColumns walk attributes
  | source name alias? => exact (tableNamed name alias?).bind (addSource walk clause)
  | derived id => exact addSource walk clause id
  | conditions attributes =>
    exact (addConditions walk config attributes text).bind fun _ => pure walk
  | nothing => exact pure walk

theorem finish (walk : Walk) (config : Config) (text : String) :
    Acts (walk.finish config text) := by
  unfold Walk.finish
  split
  · split
    · exact change _ fun table => ⟨rfl, rfl, rfl, rfl⟩
    · exact pure ()
  · exact pure ()

section Descent

variable {descend : Node → Option Nat → Bool → Run Unit}
  (hdescend : ∀ node enclosing declared, Acts (descend node enclosing declared))

include hdescend

theorem resolveSource (source : Source) : Acts (source.resolve descend) := by
  cases source with
  | named name alias? => exact pure _
  | derived alias? body =>
    exact (create _).bind fun id => (hdescend body (some id) false).bind fun _ => pure _

theorem register (config : Config) (comment : String) (node : Node) :
    Acts (CommonTable.register descend config comment node) := by
  unfold CommonTable.register
  refine (lift (CommonTable.ofNode node)).bind fun entry => (create _).bind fun id => ?_
  exact (hdescend entry.body (some id) (!entry.columns.isEmpty)).bind fun _ => pure id

theorem resolve (config : Config) (comment : String) (reading : Reading) :
    Acts (reading.resolve descend config comment) := by
  cases reading with
  | columns attributes => exact pure _
  | sources found => exact mapM (resolveSource hdescend) found
  | entries nodes =>
    exact (mapM (register hdescend config comment) nodes).bind fun _ => pure _
  | conditions attributes => exact pure _
  | nothing => exact pure _

theorem step (config : Config) (walk : Walk) (step : Step) :
    Acts (Walk.step descend config walk step) := by
  cases step with
  | select => exact select walk
  | read clause reading comment text =>
    exact (resolve hdescend config comment reading).bind fun findings =>
      foldlM (record config clause text) walk findings
  | restrict conditions => exact restrict walk conditions
  | fail error => exact throw error
  | finish text => exact (finish walk config text).bind fun _ => pure walk

end Descent

theorem interpretWithin (config : Config) (n : Nat) :
    ∀ node enclosing declared, Acts (interpretWithin config n node enclosing declared) := by
  induction n with
  | zero => exact fun _ _ _ => pure ()
  | succ n ih =>
    intro node enclosing declared
    unfold QueryLineage.interpretWithin
    exact (foldlM (step ih config) _ _).bind fun _ => pure ()

theorem interpret (config : Config) (node : Node) (enclosing : Option Nat) (declared : Bool) :
    Acts (interpret config node enclosing declared) :=
  interpretWithin config node.depth node enclosing declared

theorem dispatch (config : Config) (clause : Clause) (comment : String) (node : Node) :
    Acts (dispatch config clause comment node) := by
  unfold QueryLineage.dispatch
  exact (lift (node.read clause)).bind (resolve (interpret config) config comment)

theorem process (config : Config) (sql : String) : Acts (process config sql) := by
  unfold QueryLineage.process
  split
  · exact throw _
  · exact forM (fun statement => interpret config statement none false) _

end Acts

/-- What can be asked of an interpreter, with any arguments. -/
inductive Call where
  | process (sql : String)
  | interpret (node : Node) (enclosing : Option Nat) (declared : Bool)
  | dispatch (clause : Clause) (comment : String) (node : Node)
  | register (comment : String) (node : Node)

namespace Call

/-- Carries out a call, without its answer. -/
def run (config : Config) : Call → Run Unit
  | process sql => QueryLineage.process config sql
  | interpret node enclosing declared => QueryLineage.interpret config node enclosing declared
  | dispatch clause comment node => do
    let _ ← QueryLineage.dispatch config clause comment node
  | register comment node => do
    let _ ← CommonTable.register (QueryLineage.interpret config) config comment node

theorem acts_run (config : Config) (call : Call) : Acts (call.run config) := by
  cases call with
  | process sql => exact Acts.process config sql
  | interpret node enclosing declared => exact Acts.interpret config node enclosing declared
  | dispatch clause comment node =>
    exact (Acts.dispatch config clause comment node).bind fun _ => Acts.pure ()
  | register comment node =>
    exact (Acts.register (Acts.interpret config) config comment node).bind fun _ => Acts.pure ()

/-- The registry after several calls. A call that fails keeps what it has registered. -/
def registryAfter (config : Config) (registry : Registry) (calls : List Call) : Registry :=
  calls.foldl (fun registry call => ((call.run config).run registry).2) registry

theorem exists_registryAfter_eq (config : Config) (registry : Registry) (calls : List Call) :
    ∃ operations, registryAfter config registry calls = registry.perform operations := by
  induction calls generalizing registry with
  | nil => exact ⟨[], rfl⟩
  | cons call calls ih =>
    obtain ⟨first, hfirst⟩ := acts_run config call registry
    obtain ⟨rest, hrest⟩ := ih (((call.run config).run registry).2)
    refine ⟨first ++ rest, ?_⟩
    rw [Registry.perform_append, ← hfirst]
    exact hrest

/-- After any operations, and after any calls with their failures, the registry is sound and a
report on it names every link. -/
theorem sound_of_operations_of_calls :
    (∀ operations : List Registry.Operation,
      (Registry.empty.perform operations).Sound (operations.filterMap Registry.Operation.created?) ∧
        (Registry.empty.perform operations).NamesLinks) ∧
      ∀ (config : Config) (calls : List Call), ∃ operations : List Registry.Operation,
        registryAfter config .empty calls = Registry.empty.perform operations ∧
          (registryAfter config .empty calls).Sound
            (operations.filterMap Registry.Operation.created?) ∧
          (registryAfter config .empty calls).NamesLinks := by
  have hsound (operations : List Registry.Operation) :
      (Registry.empty.perform operations).Sound
        (operations.filterMap Registry.Operation.created?) :=
    Registry.sound_empty.perform operations
  refine ⟨fun operations => ⟨hsound operations, (hsound operations).namesLinks⟩,
    fun config calls => ?_⟩
  obtain ⟨operations, hoperations⟩ := exists_registryAfter_eq config .empty calls
  refine ⟨operations, hoperations, ?_⟩
  rw [hoperations]
  exact ⟨hsound operations, (hsound operations).namesLinks⟩

end Call

end QueryLineage
