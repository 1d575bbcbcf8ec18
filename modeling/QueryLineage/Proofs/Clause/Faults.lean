import QueryLineage.Clause.Basic
import QueryLineage.Clause.CommonTable

/-!
# Failures of reading

A text that cannot be read at all is not read any further. Whatever fails once there are trees is
that a query is malformed in one of its clauses. That an `ON` has no condition is seen in what
follows it, so the reading of one part of a clause never fails over it.
-/

namespace QueryLineage

open Text

def LineageError.IsMalformed (error : LineageError) : Prop :=
  ∃ fault text, error = .malformed fault text

def LineageError.MissesCondition (error : LineageError) : Prop :=
  ∃ text, error = .malformed .joinWithoutCondition text

/-- If the reading fails, then because something in a part of a clause is malformed. -/
def FailsMalformed {α : Type} (result : Except LineageError α) : Prop :=
  ∀ error, result = .error error → error.IsMalformed ∧ ¬ error.MissesCondition

namespace FailsMalformed

variable {α β : Type}

theorem ok (a : α) : FailsMalformed (.ok a) := by
  intro error h
  cases h

theorem malformedAt {fault : ClauseFault} (h : fault ≠ .joinWithoutCondition) (node : Node) :
    FailsMalformed (.error (.malformedAt fault node) : Except LineageError α) := by
  rintro error ⟨⟩
  refine ⟨⟨fault, _, rfl⟩, ?_⟩
  rintro ⟨text, heq⟩
  injection heq with hfault
  exact h hfault

theorem bind {first : Except LineageError α} {next : α → Except LineageError β}
    (hfirst : FailsMalformed first) (hnext : ∀ a, FailsMalformed (next a)) :
    FailsMalformed (first >>= next) := by
  intro error h
  cases first with
  | error fault =>
    cases h
    exact hfirst error rfl
  | ok a => exact hnext a error h

theorem map {result : Except LineageError α} (h : FailsMalformed result) (f : α → β) :
    FailsMalformed (result.map f) := by
  intro error hmap
  cases result with
  | error fault =>
    cases hmap
    exact h error rfl
  | ok a => cases hmap

theorem mapM {f : α → Except LineageError β} (hf : ∀ a, FailsMalformed (f a)) (as : List α) :
    FailsMalformed (as.mapM f) := by
  induction as with
  | nil => exact ok []
  | cons a as ih =>
    rw [List.mapM_cons]
    exact (hf a).bind fun b => ih.bind fun bs => ok (b :: bs)

end FailsMalformed

namespace Node

theorem failsMalformed_comparison (node : Node) : FailsMalformed node.comparison := by
  unfold comparison
  dsimp only
  split
  · exact .malformedAt (by decide) node
  · split
    · exact .malformedAt (by decide) node
    · exact .ok _

mutual

theorem failsMalformed_innerConditions : ∀ node : Node, FailsMalformed node.innerConditions
  | leaf _ _ => by
    rw [innerConditions]
    exact .ok []
  | group _ children => by
    rw [innerConditions]
    exact failsMalformed_conditionsFrom 0 children

theorem failsMalformed_conditionsFrom :
    ∀ (taken : Nat) (siblings : List Node), FailsMalformed (conditionsFrom taken siblings)
  | _, [] => by
    rw [conditionsFrom]
    exact .ok []
  | taken + 1, node :: siblings => by
    rw [conditionsFrom]
    exact failsMalformed_conditionsFrom taken siblings
  | 0, node :: siblings => by
    have hrest (taken : Nat) : FailsMalformed (conditionsFrom taken siblings) :=
      failsMalformed_conditionsFrom taken siblings
    have hoperand : FailsMalformed (match keywordCondition node siblings with
        | (none, _) => conditionsFrom 0 siblings
        | (some condition, taken) => do return condition :: (← conditionsFrom taken siblings)) := by
      split
      · exact hrest 0
      · exact (hrest _).bind fun later => .ok _
    rw [conditionsFrom]
    split
    · exact (failsMalformed_comparison node).bind fun condition =>
        (hrest 0).bind fun later => .ok _
    · split
      · exact hrest 0
      · exact (failsMalformed_innerConditions node).bind fun inner =>
          (hrest 0).bind fun later => .ok _
    · exact hoperand
    · exact hoperand
    · exact hrest 0

end

theorem failsMalformed_conditions (node : Node) : FailsMalformed node.conditions := by
  unfold conditions
  split
  · exact (failsMalformed_comparison node).map _
  · exact failsMalformed_innerConditions node
  · split
    · exact .ok []
    · exact failsMalformed_innerConditions node
  · exact .ok []

theorem failsMalformed_read (clause : Clause) (node : Node) :
    FailsMalformed (node.read clause) := by
  cases clause with
  | outside => exact .ok _
  | selectList => exact .ok _
  | fromList => exact .ok _
  | joinList => exact .ok _
  | withList => exact .ok _
  | onCondition => exact (FailsMalformed.mapM failsMalformed_conditions node.items).map _

end Node

theorem CommonTable.failsMalformed_ofNode (node : Node) :
    FailsMalformed (CommonTable.ofNode node) := by
  unfold CommonTable.ofNode
  split
  · exact .malformedAt (by decide) node
  · dsimp only
    split
    · exact .malformedAt (by decide) node
    · exact .ok _

end QueryLineage
