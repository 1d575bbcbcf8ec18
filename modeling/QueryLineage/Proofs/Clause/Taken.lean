import QueryLineage.Proofs.Clause.Linked

/-!
# How far a condition of keywords reaches

A condition such as `IS NULL` takes every keyword and value behind its operand up to a connective, or
up to something that can be no part of it. The keyword of another clause is not told from its own.
-/

namespace QueryLineage.Node

/-- Whether a `BETWEEN` waits for its `AND` behind the siblings, if each of them is filler or a part
of a condition. -/
def waitingBehind? (waiting : Bool) : List Node → Option Bool
  | [] => some waiting
  | node :: siblings =>
    if node.isFiller .all then waitingBehind? waiting siblings
    else (conditionPart? waiting node).bind fun part => waitingBehind? part.2 siblings

/-- Whether a condition of keywords that begins with the siblings, or right behind them, does not end
among them. -/
def runsOn (siblings : List Node) : Bool :=
  (waitingBehind? false siblings).isSome &&
    (siblings.all (isFiller .all) || startsCondition siblings)

section

variable {node : Node} {waiting : Bool}

theorem isSome_conditionPart? (hkeyword : node.isKeyword = true)
    (hconnective : node.isConnective = false) (waiting : Bool) :
    (conditionPart? waiting node).isSome = true := by
  unfold conditionPart?
  rw [isKeyword] at hkeyword
  cases hkind : node.kind <;> simp_all [Kind.isKeyword]
  split <;> rfl

theorem not_filler_of_isKeyword (h : node.isKeyword = true) : node.isFiller .all = false := by
  rw [isKeyword] at h
  rw [isFiller_all, isWhitespace, isComment]
  cases hkind : node.kind <;> simp_all [Kind.isKeyword]

theorem conditionParts_length_le (waiting : Bool) (siblings : List Node) :
    (conditionParts waiting siblings).2 ≤ siblings.length := by
  induction siblings generalizing waiting with
  | nil => exact Nat.le_refl 0
  | cons node siblings ih =>
    rw [conditionParts]
    split
    · have hle := ih waiting
      rcases hparts : conditionParts waiting siblings with ⟨parts, n⟩
      rw [hparts] at hle
      cases n with
      | zero => exact Nat.zero_le _
      | succ n => exact Nat.succ_le_succ hle
    · split
      · exact Nat.zero_le _
      · next part later _ =>
        have hle := ih later
        exact Nat.succ_le_succ hle

theorem eq_zero_of_conditionParts {siblings : List Node} {n : Nat}
    (h : conditionParts waiting siblings = ([], n)) : n = 0 := by
  induction siblings generalizing n with
  | nil =>
    cases h
    rfl
  | cons node siblings ih =>
    rw [conditionParts] at h
    split at h
    · rcases hparts : conditionParts waiting siblings with ⟨parts, m⟩
      rw [hparts] at h
      cases m with
      | zero =>
        cases h
        rfl
      | succ m =>
        cases h
        cases ih hparts
    · split at h
      · cases h
        rfl
      · cases h

theorem snd_keywordCondition (operand : Node) (siblings : List Node) :
    (keywordCondition operand siblings).2 =
      if startsCondition siblings then (conditionParts false siblings).2 else 0 := by
  unfold keywordCondition
  split
  · split
    · next hparts => rw [hparts, eq_zero_of_conditionParts hparts]
    · next hparts => rw [hparts]
  · rfl

theorem keywordCondition_le (operand : Node) (siblings : List Node) :
    (keywordCondition operand siblings).2 ≤ siblings.length := by
  rw [snd_keywordCondition]
  split
  · exact conditionParts_length_le false siblings
  · exact Nat.zero_le _

/-- The parts go on to a node behind the siblings exactly if nothing among these stops them. -/
theorem lt_conditionParts_iff (hfiller : node.isFiller .all = false)
    (hpart : ∀ waiting, (conditionPart? waiting node).isSome = true) (before after : List Node) :
    before.length < (conditionParts waiting (before ++ node :: after)).2 ↔
      (waitingBehind? waiting before).isSome = true := by
  induction before generalizing waiting with
  | nil =>
    obtain ⟨part, hsome⟩ := Option.isSome_iff_exists.1 (hpart waiting)
    rw [List.nil_append, conditionParts, if_neg (by simp [hfiller]), hsome]
    simp [waitingBehind?]
  | cons other before ih =>
    rw [List.cons_append, conditionParts, waitingBehind?]
    split
    · rw [← ih]
      rcases conditionParts waiting (before ++ node :: after) with ⟨parts, n⟩
      cases n <;> simp
    · cases conditionPart? waiting other with
      | none => simp
      | some part =>
        rw [Option.bind_some, ← ih]
        simp

end

/-- A condition takes a keyword behind its operand exactly if nothing before it ends the condition. -/
theorem lt_keywordCondition_iff {keyword : Node} (hkeyword : keyword.isKeyword = true)
    (hconnective : keyword.isConnective = false) (operand : Node) (before after : List Node) :
    before.length < (keywordCondition operand (before ++ keyword :: after)).2 ↔
      runsOn before = true := by
  have hfiller := not_filler_of_isKeyword hkeyword
  have hstarts : startsCondition (before ++ keyword :: after) =
      (before.all (isFiller .all) || startsCondition before) := by
    rw [startsCondition, List.find?_append, startsCondition]
    cases hfirst : before.find? fun node => !node.isFiller .all with
    | none =>
      have hall : before.all (isFiller .all) = true :=
        List.all_eq_true.2 fun node hnode => by
          simpa only [Bool.not_eq_true', Bool.not_eq_false] using
            List.find?_eq_none.1 hfirst node hnode
      rw [hall, Option.none_or, List.find?_cons_of_pos (by simp [hfiller]), Option.any_some, hkeyword,
        hconnective]
      rfl
    | some first =>
      have hall : before.all (isFiller .all) = false := by
        rw [List.all_eq_false]
        exact ⟨first, List.mem_of_find?_eq_some hfirst, by simpa using List.find?_some hfirst⟩
      rw [hall, Option.some_or, Bool.false_or]
  rw [snd_keywordCondition, hstarts, runsOn, Bool.and_eq_true, ← lt_conditionParts_iff hfiller
    (isSome_conditionPart? hkeyword hconnective) before after]
  split
  · next h => simp [h]
  · next h => simp [h]

end QueryLineage.Node
