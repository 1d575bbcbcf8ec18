import QueryLineage.Analysis.Basic
import QueryLineage.Proofs.Outcome

/-!
# Runs, step by step

What a run answers and what it leaves of the state, for each way to build a run from smaller
ones. The state is a registry, or a registry with something more. The longer runs of a walk are
put together from parts that have a meaning of their own.
-/

namespace QueryLineage.Run

section

variable {α β σ : Type}

@[simp] theorem run_pure (a : α) (state : σ) :
    (pure a : ExceptT LineageError (StateM σ) α).run state = (.ok a, state) := rfl

@[simp] theorem run_throw (error : LineageError) (state : σ) :
    (throw error : ExceptT LineageError (StateM σ) α).run state = (.error error, state) := rfl

theorem run_bind (first : ExceptT LineageError (StateM σ) α)
    (next : α → ExceptT LineageError (StateM σ) β) (state : σ) :
    (first >>= next).run state =
      match first.run state with
      | (.ok a, state) => (next a).run state
      | (.error error, state) => (.error error, state) := by
  change (ExceptT.bindCont next ((first.run state).1)).run (first.run state).2 = _
  rcases first.run state with ⟨result, later⟩
  cases result <;> rfl

theorem run_bind_ok {first : ExceptT LineageError (StateM σ) α} {state later : σ} {a : α}
    (next : α → ExceptT LineageError (StateM σ) β) (h : first.run state = (.ok a, later)) :
    (first >>= next).run state = (next a).run later := by
  rw [run_bind, h]

theorem run_bind_error {first : ExceptT LineageError (StateM σ) α} {state later : σ}
    {error : LineageError} (next : α → ExceptT LineageError (StateM σ) β)
    (h : first.run state = (.error error, later)) :
    (first >>= next).run state = (.error error, later) := by
  rw [run_bind, h]

theorem run_bind_eq_ok_iff {first : ExceptT LineageError (StateM σ) α}
    {next : α → ExceptT LineageError (StateM σ) β} {state later : σ} {b : β} :
    (first >>= next).run state = (.ok b, later) ↔
      ∃ a middle, first.run state = (.ok a, middle) ∧ (next a).run middle = (.ok b, later) := by
  constructor
  · intro h
    rw [run_bind] at h
    rcases hfirst : first.run state with ⟨result, middle⟩
    rw [hfirst] at h
    cases result with
    | error error => cases h
    | ok a => exact ⟨a, middle, rfl, h⟩
  · rintro ⟨a, middle, hfirst, hnext⟩
    rw [run_bind_ok next hfirst, hnext]

@[simp] theorem run_get (state : σ) :
    (get : ExceptT LineageError (StateM σ) σ).run state = (.ok state, state) := rfl

@[simp] theorem run_modify (change : σ → σ) (state : σ) :
    (modify change : ExceptT LineageError (StateM σ) Unit).run state = (.ok (), change state) := rfl

end

@[simp] theorem run_create (new : NewTable) (registry : Registry) :
    (create new).run registry = (.ok registry.size, registry.create new) := rfl

@[simp] theorem run_change (id : Nat) (change : Table → Table) (registry : Registry) :
    (Run.change id change).run registry = (.ok (), registry.modify id change) := rfl

@[simp] theorem run_link (source target : Nat) (registry : Registry) :
    (link source target).run registry = (.ok (), registry.link source target) := rfl

/-- A run over a list that succeeds does so up to an item, at the item and behind it. -/
theorem run_foldlM_append_cons_eq_ok_iff {α β σ : Type}
    {f : β → α → ExceptT LineageError (StateM σ) β} {first rest : List α} {a : α} {b last : β}
    {state later : σ} :
    ((first ++ a :: rest).foldlM f b).run state = (.ok last, later) ↔
      ∃ middle ready next done, (first.foldlM f b).run state = (.ok middle, ready) ∧
        (f middle a).run ready = (.ok next, done) ∧
        (rest.foldlM f next).run done = (.ok last, later) := by
  rw [List.foldlM_append, run_bind_eq_ok_iff]
  simp only [List.foldlM_cons, run_bind_eq_ok_iff]
  constructor
  · rintro ⟨middle, ready, hfirst, next, done, ha, hrest⟩
    exact ⟨middle, ready, next, done, hfirst, ha, hrest⟩
  · rintro ⟨middle, ready, next, done, hfirst, ha, hrest⟩
    exact ⟨middle, ready, hfirst, next, done, ha, hrest⟩

theorem length_of_mapM {α β σ : Type} {f : α → ExceptT LineageError (StateM σ) β} {as : List α}
    {bs : List β} {state later : σ} (h : (as.mapM f).run state = (.ok bs, later)) :
    bs.length = as.length := by
  induction as generalizing bs state with
  | nil =>
    cases h
    rfl
  | cons a as ih =>
    rw [List.mapM_cons, run_bind_eq_ok_iff] at h
    obtain ⟨b, middle, -, h⟩ := h
    rw [run_bind_eq_ok_iff] at h
    obtain ⟨rest, last, hrest, h⟩ := h
    cases h
    rw [List.length_cons, List.length_cons, ih hrest]

end QueryLineage.Run

namespace QueryLineage.Walk

theorem ownTable_of_eq_some {walk : Walk} {own : Nat} (h : walk.table = some own) :
    walk.ownTable = pure (own, walk) := by
  unfold ownTable
  rw [h]

/-- Puts a join between the anchor and the source. It is the anchor of the next join. -/
def joinSource (walk : Walk) (anchor source : Nat) : Run Walk := do
  let join ← Run.create { name := .generated .join }
  Run.link anchor join
  Run.link join source
  pure { walk with lastJoin := some join, anchor := some join }

theorem addSource_joinList (walk : Walk) (source : Nat) :
    walk.addSource .joinList source =
      match walk.anchor with
      | some anchor => walk.joinSource anchor source
      | none => walk.ownTable >>= fun own => own.2.joinSource own.1 source := by
  unfold addSource
  rw [if_pos rfl]
  cases walk.anchor <;> rfl

theorem addSource_of_ne {clause : Clause} (h : clause ≠ .joinList) (walk : Walk) (source : Nat) :
    walk.addSource clause source = walk.ownTable >>= fun own =>
      Run.link own.1 source >>= fun _ => pure { own.2 with anchor := some source } := by
  unfold addSource
  rw [if_neg h]

def knownAs (name : String) : Run Nat := do
  match (← get).findKnownAs? name with
  | some table => pure table.id
  | none => Run.create { name := .named name }

theorem run_knownAs_of_some {name : String} {registry : Registry} {table : Table}
    (h : registry.findKnownAs? name = some table) :
    (knownAs name).run registry = (.ok table.id, registry) := by
  rw [knownAs, Run.run_bind_ok _ (Run.run_get registry), h]
  rfl

theorem run_knownAs_of_none {name : String} {registry : Registry}
    (h : registry.findKnownAs? name = none) :
    (knownAs name).run registry = (Run.create { name := .named name }).run registry := by
  rw [knownAs, Run.run_bind_ok _ (Run.run_get registry), h]

def giveAlias (id : Nat) : Option String → Run Unit
  | none => pure ()
  | some other => modify (·.addAlias id other)

theorem tableNamed_eq (name : String) (alias? : Option String) :
    tableNamed name alias? =
      knownAs name >>= fun id => giveAlias id alias? >>= fun _ => pure id := by
  unfold tableNamed knownAs
  rw [bind_assoc]
  refine bind_congr fun registry => ?_
  cases registry.findKnownAs? name <;> cases alias? <;> rfl

theorem run_finish {walk : Walk} {own : Nat} (h : walk.table = some own) (config : Config)
    (text : String) (registry : Registry) :
    (walk.finish config text).run registry =
      (.ok (), registry.modify own fun table => { table with
        source := (if config.captureSource then selectText? text else none).getD table.source }) := by
  have hsame : registry.modify own (fun table => table) = registry := by
    have hid : registry.tables.modify own (fun table => table) = registry.tables :=
      List.modify_id own registry.tables
    rw [Registry.modify, hid]
  unfold finish
  rw [h]
  cases selectText? text with
  | none =>
    rw [ite_self]
    exact congrArg (Prod.mk _) hsame.symm
  | some source =>
    dsimp only
    split
    · rfl
    · exact congrArg (Prod.mk _) hsame.symm

end QueryLineage.Walk

namespace QueryLineage

/-- A run that succeeds has met no failure. -/
theorem fail_not_mem_of_run {descend : Node → Option Nat → Bool → Run Unit} {config : Config}
    {steps : List Step} {walk last : Walk} {registry after : Registry}
    (h : (steps.foldlM (Walk.step descend config) walk).run registry = (.ok last, after)) :
    ∀ error, .fail error ∉ steps := by
  induction steps generalizing walk registry with
  | nil => simp
  | cons step steps ih =>
    intro error hmem
    rw [List.foldlM_cons, Run.run_bind_eq_ok_iff] at h
    obtain ⟨next, middle, hstep, hsteps⟩ := h
    rcases List.mem_cons.1 hmem with rfl | hmem
    · cases hstep
    · exact ih hsteps error hmem

theorem process_eq_forM {config : Config} {sql : String} {trees : List Node}
    (h : Node.statementsOfText sql config.stripComments = .ok trees) :
    process config sql = forM trees fun tree => interpret config tree none false := by
  rw [process, h]
  rfl

theorem run_process_of_single {config : Config} {sql : String} {tree : Node}
    (h : Node.statementsOfText sql config.stripComments = .ok [tree]) (registry : Registry) :
    (process config sql).run registry = (interpret config tree none false).run registry := by
  have hone : process config sql = interpret config tree none false >>= fun _ => pure () := by
    rw [process_eq_forM h]
    rfl
  rw [hone, Run.run_bind]
  rcases (interpret config tree none false).run registry with ⟨_ | _, _⟩ <;> rfl

theorem analyze_eq_ok_iff_run {config : Config} {sql : String} {registry : Registry} :
    analyze config sql = .ok registry ↔
      (process config sql).run .empty = (.ok (), registry) := by
  unfold analyze
  rcases (process config sql).run .empty with ⟨result, after⟩
  cases result with
  | error error => constructor <;> intro h <;> cases h
  | ok answer => constructor <;> intro h <;> cases h <;> rfl

/-- A text that is one statement has a graph if its tree is interpreted without a failure. -/
theorem exists_analyze_of_single {config : Config} {sql : String} {tree : Node}
    (htree : Node.statementsOfText sql config.stripComments = .ok [tree])
    (h : ((interpret config tree none false).run .empty).1.isOk = true) :
    ∃ registry, analyze config sql = .ok registry := by
  obtain ⟨answer, hanswer⟩ := exists_of_isOk h
  refine ⟨((interpret config tree none false).run .empty).2, analyze_eq_ok_iff_run.2 ?_⟩
  rw [run_process_of_single htree]
  exact Prod.ext hanswer rfl

/-- A statement is interpreted by carrying out its steps. -/
theorem run_interpretWithin_eq_ok_iff {config : Config} {n : Nat} {node : Node}
    {enclosing : Option Nat} {declared : Bool} {registry after : Registry} :
    (interpretWithin config (n + 1) node enclosing declared).run registry = (.ok (), after) ↔
      ∃ last, ((Step.ofNode node).foldlM (Walk.step (interpretWithin config n) config)
        (Walk.start enclosing declared)).run registry = (.ok last, after) := by
  rw [interpretWithin, Run.run_bind_eq_ok_iff]
  constructor
  · rintro ⟨last, middle, hsteps, hlast⟩
    cases hlast
    exact ⟨last, hsteps⟩
  · rintro ⟨last, hsteps⟩
    exact ⟨last, after, hsteps, rfl⟩

end QueryLineage
