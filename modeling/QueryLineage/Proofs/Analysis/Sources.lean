import QueryLineage.Proofs.Analysis.Acts
import QueryLineage.Proofs.Analysis.Leeway

/-!
# The texts of tables

Whether tables keep the text that they were read from changes nothing else: runs that keep the texts
and runs that do not give the same answers and meet the same failures.
-/

namespace QueryLineage

def Table.withoutSource (table : Table) : Table :=
  { table with source := "" }

def Registry.withoutSources (registry : Registry) : Registry :=
  { registry with tables := registry.tables.map Table.withoutSource }

namespace Leeway

/-- The sources of tables may differ in the given way, and nothing else may. -/
def ofSources (source : String → String → Prop) (hnone : source "" "") : Leeway where
  comment := Eq
  source := source
  failure := Eq
  comment_same _ := rfl
  source_none := hnone
  failure_same _ := rfl

def anySource : Leeway :=
  ofSources (fun _ _ => True) trivial

def noSource : Leeway :=
  ofSources (fun source _ => source = "") rfl

theorem anySource_admits (config other : Config) : anySource.Admits config other :=
  fun _ _ _ _ _ => trivial

theorem noSource_admits {config : Config} (h : config.captureSource = false) :
    noSource.Admits config config := by
  intro text? shown? source found hsource
  rw [h]
  exact hsource

end Leeway

section

variable {source : String → String → Prop} {hnone : source "" ""}

theorem Table.Within.withoutSource_eq {table other : Table}
    (h : table.Within (.ofSources source hnone) other) :
    table.withoutSource = other.withoutSource := by
  have hcomment : table.comment = other.comment := h.comment
  unfold withoutSource
  rw [h.id, h.name, h.aliases, h.attributes, h.links, hcomment]

theorem Registry.Within.withoutSources_eq {registry other : Registry}
    (h : registry.Within (.ofSources source hnone) other) :
    registry.withoutSources = other.withoutSources := by
  have htables : registry.tables.map Table.withoutSource =
      other.tables.map Table.withoutSource := by
    rw [← List.forall₂_eq_eq_eq, List.forall₂_map_left_iff, List.forall₂_map_right_iff]
    exact h.tables.imp fun _ _ htable => htable.withoutSource_eq
  unfold withoutSources
  rw [htables, h.selects, h.joins, h.others]

theorem Run.EndsWithin.answer_eq {α : Type} {first second : Except LineageError α × Registry}
    (h : EndsWithin (.ofSources source hnone) first second) : first.1 = second.1 := by
  cases h with
  | ok a _ => rfl
  | error hfailure _ => exact congrArg Except.error hfailure

end

namespace Call

variable {L : Leeway} {config other : Config} (hconfig : L.Admits config other)
  (hstrip : other.stripComments = config.stripComments)
include hconfig hstrip

theorem within_run (call : Call) : Run.Within L (call.run config) (call.run other) := by
  cases call with
  | process sql => exact Run.Within.process hconfig hstrip sql
  | interpret node enclosing declared =>
    exact Run.Within.interpretSame hconfig node enclosing declared
  | dispatch clause comment node =>
    exact (Run.Within.dispatch hconfig clause comment node).bind fun _ => Run.Within.pure ()
  | register comment node =>
    exact (Run.Within.register hconfig (Run.Within.interpretSame hconfig)
      (L.comment_same comment) node).bind fun _ => Run.Within.pure ()

/-- What the calls leave behind stays within the leeway, where they fail too. -/
theorem within_registryAfter {registry found : Registry} (h : registry.Within L found)
    (calls : List Call) :
    (registryAfter config registry calls).Within L (registryAfter other found calls) := by
  induction calls generalizing registry found with
  | nil => exact h
  | cons call calls ih => exact ih (within_run hconfig hstrip call registry found h).after

end Call

/-- From any registry, a run that keeps the texts of tables and one that does not give the same
answer and leave registries that differ in these texts only. Calls that keep no texts leave none,
not even where they fail. -/
theorem captureSource_fills_only_sources :
    (∀ (stripComments : Bool) (sql : String) (registry : Registry),
      let without := (process { stripComments, captureSource := false } sql).run registry
      let capturing := (process { stripComments, captureSource := true } sql).run registry
      without.1 = capturing.1 ∧ without.2.withoutSources = capturing.2.withoutSources) ∧
    ∀ (stripComments : Bool) (calls : List Call),
      ∀ table ∈ (Call.registryAfter { stripComments, captureSource := false } .empty calls).tables,
        table.source = "" := by
  refine ⟨fun stripComments sql registry => ?_, fun stripComments calls table htable => ?_⟩
  · have hconfig := Leeway.anySource_admits { stripComments, captureSource := false }
      { stripComments, captureSource := true }
    have hends := Run.Within.process hconfig rfl sql registry registry
      (.refl (fun _ => trivial) registry)
    exact ⟨hends.answer_eq, hends.after.withoutSources_eq⟩
  · have hconfig : Leeway.noSource.Admits { stripComments, captureSource := false }
        { stripComments, captureSource := false } := Leeway.noSource_admits rfl
    have hafter := Call.within_registryAfter hconfig rfl .empty calls
    exact (List.forall₂_same.1 hafter.tables table htable).source

end QueryLineage
