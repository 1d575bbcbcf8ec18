import QueryLineage.Proofs.Clause.Advance

/-!
# Conditions between connectives

The conditions of a `WHERE` are read wherever they stand in the clause. Those of an `ON` are read one
behind the other, and behind each of them the reading waits for a connective. So both find the same
conditions where nothing but a connective stands between one part that is read and the next.
-/

namespace QueryLineage

open Text

namespace Node

/-- Whether a clause begins at the keyword. -/
def opensClause (keyword : Node) : Bool :=
  (Reader.clauseAfter? keyword).isSome || keyword.isWordIn ["GROUP BY", "ORDER BY"]

/-- How many of the siblings behind the node belong to a condition that begins with it. -/
def takenBehind (node : Node) (siblings : List Node) : Nat :=
  if node.kind = .identifier ∨ node.kind = .name then (keywordCondition node siblings).2 else 0

/-- Behind each part that is read stands a connective, if anything does. The first `taken` of the
siblings belong to the part before them; `reading` tells whether the next part is to be read. -/
def linked (reading : Bool) : Nat → List Node → Bool
  | _, [] => true
  | taken + 1, _ :: siblings => linked reading taken siblings
  | 0, node :: siblings =>
    if node.isFiller .all || node.isPunctuation then linked reading 0 siblings
    else if node.isKeyword then
      (if reading then !node.opensClause else node.isConnective) && linked true 0 siblings
    else
      reading && node.kind != .whereClause && node.kind != .identifierList &&
        linked false (node.takenBehind siblings) siblings

end Node

namespace Step

/-- The steps put conditions on the last join, and then the end is reached. -/
inductive Collects : List Step → List Attribute → Prop
  | finish (text : String) : Collects [.finish text] []
  | read {steps : List Step} {found : List Attribute} (attributes : List Attribute)
      (comment text : String) (h : Collects steps found) :
      Collects (.read .onCondition (.conditions attributes) comment text :: steps)
        (attributes ++ found)

end Step

namespace Node

theorem read_onCondition {node : Node} (h : node.kind ≠ .identifierList) :
    node.read .onCondition = node.conditions.map .conditions := by
  rw [read, items_of_kind_ne h, List.mapM_cons, List.mapM_nil]
  cases node.conditions <;> simp [bind, Except.bind, pure, Except.pure, Except.map]

theorem conditionsFrom_cons {node : Node} (h : ¬ (node.kind = .identifier ∨ node.kind = .name))
    (hclause : node.kind ≠ .whereClause) (siblings : List Node) :
    conditionsFrom 0 (node :: siblings) = do
      let conditions ← node.conditions
      return conditions ++ (← conditionsFrom 0 siblings) := by
  rw [conditionsFrom, conditions]
  cases hkind : node.kind <;> simp_all [bind, Except.bind, pure, Except.pure]
  case comparison => cases node.comparison <;> rfl
  case parenthesis =>
    split
    · cases conditionsFrom 0 siblings <;> rfl
    · rfl
  all_goals cases conditionsFrom 0 siblings <;> rfl

theorem conditionsFrom_cons_of_passed {node : Node}
    (h : (node.isFiller .all || node.isPunctuation || node.isKeyword) = true)
    (siblings : List Node) : conditionsFrom 0 (node :: siblings) = conditionsFrom 0 siblings := by
  rw [conditionsFrom]
  rw [isFiller_all, isWhitespace, isComment, isPunctuation, isKeyword] at h
  cases hkind : node.kind <;> simp_all [Kind.isKeyword]

theorem taken_eq_zero {operand : Node} {siblings : List Node} {taken : Nat}
    (h : keywordCondition operand siblings = (none, taken)) : taken = 0 := by
  unfold keywordCondition at h
  split at h
  · split at h <;> cases h
    rfl
  · cases h
    rfl

/-- Of an operand, the condition of keywords behind it is found, if there is one. -/
theorem conditionsFrom_cons_operand {operand : Node} {siblings : List Node}
    {condition? : Option Attribute} {taken : Nat}
    (hoperand : operand.kind = .identifier ∨ operand.kind = .name)
    (h : keywordCondition operand siblings = (condition?, taken)) :
    conditionsFrom 0 (operand :: siblings) =
      (conditionsFrom taken siblings).map (condition?.toList ++ ·) := by
  rw [conditionsFrom]
  cases condition? with
  | none =>
    obtain rfl := taken_eq_zero h
    rcases hoperand with hkind | hkind <;> simp only [hkind, h] <;>
      cases conditionsFrom 0 siblings <;> rfl
  | some condition =>
    rcases hoperand with hkind | hkind <;> simp only [hkind, h] <;>
      cases conditionsFrom taken siblings <;> rfl

end Node

theorem Node.opensClause_of_not_keyword {node : Node} (h : node.isKeyword = false) :
    node.opensClause = false := by
  have hcte : node.isCte = false := by
    rw [Node.isCte, beq_eq_false_iff_ne]
    intro hkind
    rw [Node.isKeyword, hkind] at h
    cases h
  simp [Node.opensClause, Reader.clauseAfter?, hcte, Node.isWord, Node.isWordIn, Node.isJoin, h]

theorem Node.not_keyword_of_filler {node : Node} (h : node.isFiller .all = true) :
    node.isKeyword = false := by
  rw [Node.isFiller_all, Bool.or_eq_true] at h
  rw [Node.isKeyword]
  rcases h with hkind | hkind <;> rw [beq_iff_eq.1 hkind] <;> rfl

/-- Where no condition has been read before, fillers, marks and keywords at which no clause begins
change only the comment and the text. -/
theorem Reader.exists_advance_passed {reader : Reader} (hconditioned : reader.conditioned = false)
    {node : Node} (hopens : node.opensClause = false)
    (hnode : (node.isFiller .all || node.isPunctuation || node.isKeyword) = true)
    (siblings : List Node) :
    ∃ comment text, reader.advance node siblings = ([], some ({ reader with comment, text }, 0)) := by
  rw [Bool.or_eq_true] at hnode
  rcases hnode with hfiller | hkeyword
  · exact exists_advance_filler hfiller
  · rw [Node.opensClause, Bool.or_eq_false_iff, Option.isSome_eq_false_iff,
      Option.isNone_iff_eq_none] at hopens
    rw [advance_of_keyword hkeyword hopens.2, hopens.1, hconditioned, Bool.false_and,
      if_neg Bool.false_ne_true, take_eq, ← hconditioned]
    exact ⟨_, _, rfl⟩

theorem Step.exists_passed (parent : Node) {row : List Node}
    (hrow : ∀ node ∈ row, node.opensClause = false ∧
      (node.isFiller .all || node.isPunctuation || node.isKeyword) = true)
    (clause : Clause) (comment text : String) (rest : List Node) :
    ∃ later shown, ofSiblings parent { clause, comment, text } (row ++ rest) =
      ofSiblings parent { clause, comment := later, text := shown } rest := by
  induction row generalizing comment text with
  | nil => exact ⟨comment, text, rfl⟩
  | cons node row ih =>
    obtain ⟨hopens, hnode⟩ := hrow node List.mem_cons_self
    obtain ⟨later, shown, hadvance⟩ := @Reader.exists_advance_passed
      { clause, comment, text } rfl node hopens hnode (row ++ rest)
    rw [List.cons_append, ofSiblings_cons, hadvance]
    exact ih (fun other hother => hrow other (List.mem_cons_of_mem _ hother)) later shown

namespace Reader

/-- Where the reading of an `ON` stands: `reading` tells whether a part of its condition is to be
read next, and `awaiting` whether that is the first one. -/
structure AtCondition (reader : Reader) (reading awaiting : Bool) : Prop where
  clause : reader.clause = if reading then .onCondition else .outside
  awaiting : reader.awaiting = awaiting
  conditioned : reading = false → reader.conditioned = true

variable {reader : Reader} {reading awaiting : Bool} {node : Node}

theorem AtCondition.take (h : reader.AtCondition reading awaiting) (node : Node) :
    (reader.take node).AtCondition reading awaiting := by
  unfold Reader.take
  split <;> exact ⟨h.clause, h.awaiting, h.conditioned⟩

theorem AtCondition.exists_advance_filler (h : reader.AtCondition reading awaiting)
    (hnode : (node.isFiller .all || node.isPunctuation) = true) (siblings : List Node) :
    ∃ next, reader.advance node siblings = ([], some (next, 0)) ∧
      next.AtCondition reading awaiting := by
  obtain ⟨comment, text, hadvance⟩ := @Reader.exists_advance_filler reader node siblings hnode
  exact ⟨_, hadvance, ⟨h.clause, h.awaiting, h.conditioned⟩⟩

theorem AtCondition.exists_advance_word (h : reader.AtCondition true awaiting)
    (hkeyword : node.isKeyword = true) (hnode : node.opensClause = false) (siblings : List Node) :
    ∃ next, reader.advance node siblings = ([], some (next, 0)) ∧
      next.AtCondition true awaiting := by
  have htake := h.take node
  rw [Node.opensClause, Bool.or_eq_false_iff, Option.isSome_eq_false_iff,
    Option.isNone_iff_eq_none] at hnode
  rw [advance_of_keyword hkeyword hnode.2, hnode.1]
  split
  · exact ⟨_, rfl, ⟨rfl, htake.awaiting, by simp⟩⟩
  · exact ⟨_, rfl, ⟨htake.clause, htake.awaiting, by simp⟩⟩

/-- Behind a part that has been read, a connective lets the next one be read. -/
theorem AtCondition.exists_advance_connective (h : reader.AtCondition false awaiting)
    (hkeyword : node.isKeyword = true) (hnode : node.isConnective = true) (siblings : List Node) :
    ∃ next, reader.advance node siblings = ([], some (next, 0)) ∧
      next.AtCondition true awaiting := by
  have htake := h.take node
  have horder : node.isWordIn ["GROUP BY", "ORDER BY"] = false := by
    simp only [Node.isConnective, Node.isWordIn, Bool.and_eq_true, List.contains_iff_mem,
      List.mem_cons, List.not_mem_nil, or_false] at hnode
    rcases hnode.2 with hword | hword <;> simp [Node.isWordIn, hword]
  rw [advance_of_keyword hkeyword horder, h.conditioned rfl, hnode, Bool.and_self, if_pos rfl]
  exact ⟨_, rfl, ⟨rfl, htake.awaiting, by simp⟩⟩

/-- A part of the condition is read, and then a connective is waited for. -/
theorem AtCondition.exists_advance_part (h : reader.AtCondition true awaiting)
    (hfiller : (node.isFiller .all || node.isPunctuation) = false)
    (hkeyword : node.isKeyword = false) (hwhere : node.kind ≠ .whereClause)
    (hlist : node.kind ≠ .identifierList) {siblings : List Node} {conditions : List Attribute}
    (hfound : Node.conditionsFrom 0 (node :: siblings) = .ok conditions) :
    ∃ next attributes comment text rest,
      reader.advance node siblings = ([.read .onCondition (.conditions attributes) comment text],
        some (next, node.takenBehind siblings)) ∧
      next.AtCondition false false ∧
      Node.conditionsFrom (node.takenBehind siblings) siblings = .ok rest ∧
      conditions = attributes ++ rest := by
  have hclause : reader.clause = .onCondition := h.clause
  have htake : (reader.take node).clause = .onCondition := (reader.clause_take node).trans hclause
  have hnode := Node.legible_of_not_passed (Bool.or_eq_false_iff.2 ⟨hfiller, hkeyword⟩) hwhere
  have hafter : ∀ other : Reader, other.clause = .onCondition →
      other.afterPart.AtCondition false false := fun other hother =>
    ⟨rfl, by simp [afterPart, hother], fun _ => by simp [afterPart, hother]⟩
  by_cases hoperand : node.kind = .identifier ∨ node.kind = .name
  · have htaken : node.takenBehind siblings = (Node.keywordCondition node siblings).2 :=
      if_pos hoperand
    rw [advance_of_operand hclause hoperand, htaken, Node.readOperand]
    rcases hcondition : Node.keywordCondition node siblings with ⟨condition?, taken⟩
    rw [Node.conditionsFrom_cons_operand hoperand hcondition] at hfound
    cases hrest : Node.conditionsFrom taken siblings with
    | error error =>
      rw [hrest] at hfound
      cases hfound
    | ok rest =>
      rw [hrest] at hfound
      cases hfound
      cases condition? <;> exact ⟨_, _, _, _, _, rfl, hafter _ htake, rfl, rfl⟩
  · rw [advance_of_legible hnode fun hboth => hoperand hboth.2, hclause, Node.read_onCondition hlist]
    rw [Node.conditionsFrom_cons hoperand hwhere] at hfound
    rw [Node.takenBehind, if_neg hoperand]
    cases hattributes : node.conditions with
    | error error =>
      rw [hattributes] at hfound
      cases hfound
    | ok attributes =>
      cases hrest : Node.conditionsFrom 0 siblings with
      | error error =>
        rw [hattributes, hrest] at hfound
        cases hfound
      | ok rest =>
        rw [hattributes, hrest] at hfound
        cases hfound
        exact ⟨_, _, _, _, _, rfl, hafter _ htake, rfl, rfl⟩

end Reader

/-- The conditions that an `ON` collects are those that a `WHERE` finds in the same siblings. The
induction goes through the siblings one by one, as the `WHERE` is read. -/
theorem Step.collects_ofSiblings {parent : Node} {reader : Reader} {reading awaiting : Bool}
    {siblings : List Node} {taken : Nat} {conditions : List Attribute}
    (hlinked : Node.linked reading taken siblings = true)
    (hreader : reader.AtCondition reading awaiting)
    (hfound : Node.conditionsFrom taken siblings = .ok conditions)
    (hawaiting : awaiting = true → conditions ≠ []) :
    Step.Collects (Step.ofSiblings parent reader (siblings.drop taken)) conditions := by
  induction siblings generalizing reading awaiting taken reader conditions with
  | nil =>
    obtain rfl : [] = conditions := by
      cases taken <;> exact Except.ok.inj hfound
    have hdone : reader.awaiting ≠ true := fun hwaits =>
      hawaiting (hreader.awaiting ▸ hwaits) rfl
    rw [List.drop_nil, Step.ofSiblings, if_neg hdone]
    exact .finish _
  | cons node siblings ih =>
    cases taken with
    | succ taken => exact ih hlinked hreader hfound hawaiting
    | zero =>
      rw [List.drop_zero, Step.ofSiblings_cons]
      rw [Node.linked] at hlinked
      split at hlinked
      · next hfiller =>
        obtain ⟨next, hadvance, hnext⟩ := hreader.exists_advance_filler hfiller siblings
        rw [Node.conditionsFrom_cons_of_passed (by rw [hfiller]; rfl)] at hfound
        rw [hadvance]
        exact ih hlinked hnext hfound hawaiting
      · next hfiller =>
        rw [Bool.not_eq_true] at hfiller
        split at hlinked
        · next hkeyword =>
          rw [Bool.and_eq_true] at hlinked
          rw [Node.conditionsFrom_cons_of_passed (by rw [hkeyword, Bool.or_true])] at hfound
          cases reading with
          | true =>
            obtain ⟨next, hadvance, hnext⟩ :=
              hreader.exists_advance_word hkeyword (by simpa using hlinked.1) siblings
            rw [hadvance]
            exact ih hlinked.2 hnext hfound hawaiting
          | false =>
            obtain ⟨next, hadvance, hnext⟩ :=
              hreader.exists_advance_connective hkeyword (by simpa using hlinked.1) siblings
            rw [hadvance]
            exact ih hlinked.2 hnext hfound hawaiting
        · next hkeyword =>
          simp only [Bool.and_eq_true, bne_iff_ne, Bool.not_eq_true] at hlinked hkeyword
          obtain ⟨⟨⟨rfl, hwhere⟩, hlist⟩, hlinked⟩ := hlinked
          obtain ⟨next, attributes, comment, text, rest, hadvance, hnext, hrest, rfl⟩ :=
            hreader.exists_advance_part hfiller hkeyword hwhere hlist hfound
          rw [hadvance]
          exact .read attributes comment text (ih hlinked hnext hrest (by simp))

end QueryLineage
