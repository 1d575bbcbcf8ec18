import QueryLineage.Tree.Extent

/-!
# Levels

How a run of siblings becomes a tree. What stands between parentheses is a level of its own and is
grouped first, from the inside to the outside; then the `WHERE` clauses of the run are grouped,
then the rest of it. Within one level `CASE` blocks come first, and one pass follows for each kind
of extent, since each of them takes the groups of those before it for its parts.
-/

namespace QueryLineage.Node

/-- All passes over one level except the first. -/
def groupExpressions (siblings : List Node) : List Node :=
  let siblings := joinOnce callExtent (enclose .function) siblings
  let siblings := joinOnce identifierExtent (enclose .identifier) siblings
  let siblings := joinRepeatedly operationExtent (enclose .operation) (groupSigns false siblings)
  let siblings := joinOnce comparisonExtent (enclose .comparison) siblings
  let siblings := joinRepeatedly asExtent (enclose .identifier) siblings
  let siblings := joinOnce aliasExtent (enclose .identifier) siblings
  let siblings := joinOnce directionExtent attach siblings
  let siblings := joinRepeatedly commentExtent attach siblings
  joinOnce listExtent (enclose .identifierList) siblings

/-- The number of siblings before the `END` of a block, where `depth` further blocks are open. -/
def blockLength? (depth : Nat) : List Node → Option Nat
  | [] => none
  | node :: siblings =>
    if node.isWord "CASE" then (blockLength? (depth + 1) siblings).map (· + 1)
    else if node.isWord "END" then
      if depth = 0 then some 0 else (blockLength? (depth - 1) siblings).map (· + 1)
    else (blockLength? depth siblings).map (· + 1)

theorem blockLength?_lt {depth n : Nat} {siblings : List Node}
    (h : blockLength? depth siblings = some n) : n < siblings.length := by
  induction siblings generalizing depth n with
  | nil => simp [blockLength?] at h
  | cons node siblings ih =>
    have step : ∀ d, (blockLength? d siblings).map (· + 1) = some n →
        n < (node :: siblings).length := by
      intro d hd
      obtain ⟨m, hm, rfl⟩ := Option.map_eq_some_iff.1 hd
      exact Nat.succ_lt_succ (ih hm)
    rw [blockLength?] at h
    split at h
    · exact step _ h
    · split at h
      · split at h
        · cases h
          simp
        · exact step _ h
      · exact step _ h

/-- Groups every `CASE` that has an `END` with what stands between them. -/
def groupCases : List Node → List Node
  | [] => []
  | node :: siblings =>
    if node.isWord "CASE" then
      match blockLength? 0 siblings with
      | some n =>
        group .caseBlock
            (node :: (groupExpressions (groupCases (siblings.take n)) ++
              (siblings.drop n).take 1)) ::
          groupCases (siblings.drop (n + 1))
      | none => node :: groupCases siblings
    else node :: groupCases siblings
termination_by siblings => siblings.length
decreasing_by
  all_goals
    simp only [List.length_take, List.length_drop, List.length_cons]
    omega

def groupLevel (siblings : List Node) : List Node :=
  groupExpressions (groupCases siblings)

def endsWhere (node : Node) : Bool :=
  node.isMark ";" || node.isWordIn Keyword.whereTerminators

/-- Groups every `WHERE` with the siblings up to the end of its clause. -/
def groupWheres : List Node → List Node
  | [] => []
  | node :: siblings =>
    if node.isWord "WHERE" then
      let clause := siblings.takeWhile fun sibling => !sibling.endsWhere
      group .whereClause (node :: groupLevel clause) :: groupWheres (siblings.drop clause.length)
    else node :: groupWheres siblings
termination_by siblings => siblings.length
decreasing_by
  all_goals
    simp only [List.length_drop, List.length_cons]
    omega

/-- Groups siblings whose parentheses have been grouped inside. -/
def groupRun (siblings : List Node) : List Node :=
  groupLevel (groupWheres siblings)

mutual

/-- Groups what stands inside a pair of parentheses, which keep their places. -/
def groupInside : Node → Node
  | group .parenthesis (opening :: siblings) =>
    group .parenthesis
      (opening :: (groupRun (groupInsideAll siblings).dropLast ++ siblings.getLast?.toList))
  | node => node

def groupInsideAll : List Node → List Node
  | [] => []
  | node :: siblings => node.groupInside :: groupInsideAll siblings

end

/-- Groups siblings, with everything inside them. -/
def groupAll (siblings : List Node) : List Node :=
  groupRun (groupInsideAll siblings)

end QueryLineage.Node
