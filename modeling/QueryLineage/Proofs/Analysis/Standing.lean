import QueryLineage.Proofs.Analysis.Acts
import QueryLineage.Proofs.Analysis.Triple
import QueryLineage.Proofs.Graph.Numbered

/-!
# Where a walk stands

A walk stands in one query from its first step to its last, and puts what it finds on one table until
another `SELECT` begins. So once a `SELECT` at the top has begun, there is a table of a `SELECT` for
whatever is read.
-/

namespace QueryLineage

/-- The run answers nothing but what `p` holds of. -/
abbrev Run.Answers {α : Type} (p : α → Prop) (x : Run α) : Prop :=
  Keeps (fun _ : Registry => True) (fun _ _ => True) p x

namespace Run.Answers

variable {α : Type} {p : α → Prop}

theorem any (x : Run α) : Answers (fun _ => True) x := by
  intro registry _
  rcases x.run registry with ⟨result, later⟩
  cases result with
  | error error => trivial
  | ok a => exact ⟨trivial, trivial⟩

theorem of_run {x : Run α} (h : Answers p x) {registry later : Registry} {a : α}
    (hrun : x.run registry = (.ok a, later)) : p a := by
  have hlater := h registry trivial
  rw [hrun] at hlater
  exact hlater.1

end Run.Answers

/-- The walk goes on from where the first one stood: in the same query, and if that had a table, for
this table. -/
structure Walk.Continues (walk next : Walk) : Prop where
  enclosing : next.enclosing = walk.enclosing
  table : ∀ own ∈ walk.table, next.table = some own

namespace Walk.Continues

open Run.Answers

variable {walk : Walk}

theorem refl (walk : Walk) : walk.Continues walk :=
  ⟨rfl, fun _ => id⟩

theorem trans {next last : Walk} (h : walk.Continues next) (hnext : next.Continues last) :
    walk.Continues last :=
  ⟨hnext.enclosing.trans h.enclosing, fun own hown => hnext.table own (h.table own hown)⟩

theorem ownTable (walk : Walk) :
    Run.Answers (fun own => walk.Continues own.2 ∧ own.2.table = some own.1) walk.ownTable := by
  unfold Walk.ownTable
  split
  · next htable => exact Keeps.pure ⟨refl walk, htable⟩
  · next htable =>
    exact (any _).bind fun table _ => Keeps.pure ⟨⟨rfl, by simp [htable]⟩, rfl⟩

theorem addColumns (walk : Walk) (attributes : List Attribute) :
    Run.Answers walk.Continues (walk.addColumns attributes) := by
  unfold Walk.addColumns
  refine (ownTable walk).bind ?_
  rintro ⟨table, next⟩ ⟨hnext, -⟩
  dsimp only
  split
  · exact (any _).bind fun _ _ => Keeps.pure ⟨hnext.enclosing, hnext.table⟩
  · split <;> exact (any _).bind fun _ _ => Keeps.pure ⟨hnext.enclosing, hnext.table⟩

theorem restrict (walk : Walk) (attributes : List Attribute) :
    Run.Answers walk.Continues (walk.restrict attributes) := by
  unfold Walk.restrict
  exact (ownTable walk).bind fun own hown => (any _).bind fun _ _ => Keeps.pure hown.1

theorem joinSource (walk : Walk) (anchor source : Nat) :
    Run.Answers walk.Continues (walk.joinSource anchor source) := by
  unfold Walk.joinSource
  exact (any _).bind fun join _ => (any _).bind fun _ _ => (any _).bind fun _ _ =>
    Keeps.pure ⟨rfl, fun _ => id⟩

theorem addSource (walk : Walk) (clause : Clause) (source : Nat) :
    Run.Answers walk.Continues (walk.addSource clause source) := by
  by_cases hclause : clause = .joinList
  · rw [hclause, Walk.addSource_joinList]
    cases walk.anchor with
    | some anchor => exact joinSource walk anchor source
    | none =>
      exact (ownTable walk).bind fun own hown =>
        (joinSource own.2 own.1 source).mono fun _ => hown.1.trans
  · rw [Walk.addSource_of_ne hclause]
    exact (ownTable walk).bind fun own hown => (any _).bind fun _ _ =>
      Keeps.pure ⟨hown.1.enclosing, hown.1.table⟩

theorem record (config : Config) (clause : Clause) (text : String) (walk : Walk)
    (finding : Finding) :
    Run.Answers walk.Continues (Walk.record config clause text walk finding) := by
  cases finding with
  | columns attributes => exact addColumns walk attributes
  | source name alias? => exact (any _).bind fun id _ => addSource walk clause id
  | derived id => exact addSource walk clause id
  | conditions attributes => exact (any _).bind fun _ _ => Keeps.pure (refl walk)
  | nothing => exact Keeps.pure (refl walk)

theorem recordAll (config : Config) (clause : Clause) (text : String) (walk : Walk)
    (findings : List Finding) :
    Run.Answers walk.Continues (findings.foldlM (Walk.record config clause text) walk) :=
  Keeps.foldlM findings
    (fun finding _ next hnext => (record config clause text next finding).mono fun _ => hnext.trans)
    (refl walk)

/-- Only where a `SELECT` begins does a walk turn to another table. -/
theorem step {descend : Node → Option Nat → Bool → Run Unit} (config : Config) (walk : Walk)
    {step : Step} (hstep : step ≠ .select) :
    Run.Answers walk.Continues (Walk.step descend config walk step) := by
  cases step with
  | select => exact absurd rfl hstep
  | read clause reading comment text =>
    exact (any _).bind fun findings _ => recordAll config clause text walk findings
  | restrict conditions => exact restrict walk conditions
  | fail error => exact Triple.throw fun _ _ => trivial
  | finish text => exact (any _).bind fun _ _ => Keeps.pure (refl walk)

end Walk.Continues

/-- The walk is that of a `SELECT` at the top, whose table is in the registry. -/
structure Walk.Selects (walk : Walk) (registry : Registry) : Prop where
  enclosing : walk.enclosing = none
  table : ∃ own table n, walk.table = some own ∧ registry.find? own = some table ∧
    table.name = Origin.select.numbered n

namespace Walk.Selects

variable {walk next : Walk} {registry later : Registry}

theorem continues (h : walk.Selects registry) (hnext : walk.Continues next)
    (hlater : later.Retains registry) : next.Selects later where
  enclosing := hnext.enclosing.trans h.enclosing
  table := by
    obtain ⟨own, table, n, hown, hfind, hname⟩ := h.table
    obtain ⟨last, hlast, hlastName, -⟩ := hlater own table hfind
    exact ⟨own, last, n, hnext.table own hown, hlast, hlastName.trans hname⟩

theorem of_select (henclosing : walk.enclosing = none)
    (hrun : walk.select.run registry = (.ok next, later)) : next.Selects later := by
  unfold Walk.select at hrun
  rw [henclosing] at hrun
  cases hrun
  obtain ⟨table, hfind, hname⟩ :=
    registry.exists_find?_create_size { name := .generated .select }
  exact ⟨rfl, registry.size, table, registry.selects + 1, rfl, hfind, hname⟩

/-- Once a `SELECT` has begun, whatever is read belongs to a `SELECT`. -/
theorem of_foldlM {descend : Node → Option Nat → Bool → Run Unit}
    (hdescend : ∀ node enclosing declared, Acts (descend node enclosing declared)) {config : Config}
    {steps : List Step} (henclosing : walk.enclosing = none)
    (hselect : .select ∈ steps ∨ walk.Selects registry)
    (hrun : (steps.foldlM (Walk.step descend config) walk).run registry = (.ok next, later)) :
    next.Selects later := by
  induction steps generalizing walk registry with
  | nil =>
    cases hrun
    exact hselect.resolve_left List.not_mem_nil
  | cons step steps ih =>
    rw [List.foldlM_cons, Run.run_bind_eq_ok_iff] at hrun
    obtain ⟨middle, registry', hstep, hsteps⟩ := hrun
    -- another `SELECT` only replaces the table by its own
    by_cases hbegins : step = .select
    · subst hbegins
      have hmiddle : middle.Selects registry' := of_select henclosing hstep
      exact ih hmiddle.enclosing (.inr hmiddle) hsteps
    · have hcontinues : walk.Continues middle := (Walk.Continues.step config walk hbegins).of_run hstep
      refine ih (hcontinues.enclosing.trans henclosing) ?_ hsteps
      rcases hselect with hmem | hselects
      · exact .inl ((List.mem_cons.1 hmem).resolve_left (Ne.symm hbegins))
      · exact .inr (hselects.continues hcontinues
          ((Acts.step hdescend config walk step).retains hstep))

end Walk.Selects

end QueryLineage
