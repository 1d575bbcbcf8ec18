import QueryLineage.Proofs.Clause.Chain
import QueryLineage.Proofs.Clause.Closing
import QueryLineage.Proofs.Clause.Reports

/-!
# Conditions that are missing

An `ON` waits for its condition until a part of a clause is read, be it a condition or not. If the
next clause or the end of the query comes before that, the query is rejected. Which of the keywords
that follow an `ON` are looked at, and what is passed over, is the same in every query.
-/

namespace QueryLineage

open Text

namespace Node

/-- The node at which an `ON` before the siblings has waited in vain for its condition: where the
next clause begins, or `parent` if the end comes first. Blanks, comments, marks and other keywords
are passed over, and so is what a `GROUP BY` or `ORDER BY` takes; `ordered` tells that the siblings
are behind one. If a part of a clause is read before that, there is no such node. -/
def missedAt? (parent : Node) : Bool → List Node → Option Node
  | _, [] => some parent
  | true, node :: siblings => missedAt? parent node.isWhitespace siblings
  | false, node :: siblings =>
    if node.isWordIn ["GROUP BY", "ORDER BY"] then missedAt? parent true siblings
    else if node.kind == .whereClause || (Reader.clauseAfter? node).isSome then some node
    else if node.isFiller .all || node.isPunctuation || node.isKeyword then
      missedAt? parent false siblings
    else none

theorem missedAt?_true (parent : Node) (siblings : List Node) :
    missedAt? parent true siblings =
      missedAt? parent false (siblings.drop (Step.orderExtent siblings)) := by
  induction siblings with
  | nil => rfl
  | cons node siblings ih =>
    rw [missedAt?, Step.orderExtent]
    by_cases hblank : node.isWhitespace = true
    · rw [hblank, ih, List.takeWhile_cons_of_pos hblank]
      rfl
    · rw [List.takeWhile_cons_of_neg hblank, Bool.not_eq_true] at *
      rw [hblank]
      rfl

end Node

namespace Reader

/-- The reading of the siblings comes to `rest`, with `later` as what is remembered there. -/
inductive Reaches : Reader → List Node → Reader → List Node → Prop
  | refl (reader : Reader) (siblings : List Node) : Reaches reader siblings reader siblings
  | step {reader next later : Reader} {node : Node} {siblings rest : List Node} {n : Nat}
      (hnext : (reader.advance node siblings).2 = some (next, n))
      (h : Reaches next (siblings.drop n) later rest) :
      Reaches reader (node :: siblings) later rest

/-- The reading comes to an `ON` while no other waits, and that `ON` waits in vain up to `place`. -/
def Misses (parent : Node) (reader : Reader) (siblings : List Node) (place : Node) : Prop :=
  ∃ later on rest, reader.Reaches siblings later (on :: rest) ∧ later.awaiting = false ∧
    clauseAfter? on = some .onCondition ∧ Node.missedAt? parent false rest = some place

/-- An `ON` waits for its condition. -/
structure Waits (reader : Reader) : Prop where
  clause : reader.clause = .onCondition
  awaiting : reader.awaiting = true
  conditioned : reader.conditioned = false

end Reader

/-- An `ON` among the children of the query waits in vain up to `place`. -/
def Node.Misses (query place : Node) : Prop :=
  Reader.Misses query {} query.children place

namespace Reader

variable {reader : Reader} {node : Node}

theorem Waits.take (h : reader.Waits) (node : Node) : (reader.take node).Waits := by
  unfold Reader.take
  split <;> exact ⟨h.clause, h.awaiting, h.conditioned⟩

theorem exists_advance_on (h : reader.awaiting = false)
    (hon : clauseAfter? node = some .onCondition) (siblings : List Node) :
    ∃ next, reader.advance node siblings = ([], some (next, 0)) ∧ next.Waits := by
  rw [advance_of_clauseAfter? hon (by decide), h, if_neg Bool.false_ne_true,
    if_neg (by decide : Clause.onCondition ≠ .selectList)]
  exact ⟨_, rfl, rfl, rfl, rfl⟩

theorem Waits.exists_advance_passed (h : reader.Waits) (hopens : node.opensClause = false)
    (hnode : (node.isFiller .all || node.isPunctuation || node.isKeyword) = true)
    (siblings : List Node) :
    ∃ next, reader.advance node siblings = ([], some (next, 0)) ∧ next.Waits := by
  obtain ⟨comment, text, hadvance⟩ :=
    Reader.exists_advance_passed h.conditioned hopens hnode siblings
  exact ⟨_, hadvance, h.clause, h.awaiting, h.conditioned⟩

theorem Waits.exists_advance_order (h : reader.Waits)
    (horder : node.isWordIn ["GROUP BY", "ORDER BY"] = true) (siblings : List Node) :
    ∃ next, reader.advance node siblings = ([], some (next, Step.orderExtent siblings)) ∧
      next.Waits := by
  have htake := h.take node
  rw [advance_of_order horder]
  exact ⟨_, rfl, htake.clause, htake.awaiting, rfl⟩

theorem Waits.advance_of_clause (h : reader.Waits)
    (horder : node.isWordIn ["GROUP BY", "ORDER BY"] = false)
    (hclause : (node.kind == .whereClause || (clauseAfter? node).isSome) = true)
    (siblings : List Node) :
    reader.advance node siblings = ([.fail (.malformedAt .joinWithoutCondition node)], none) := by
  rw [Bool.or_eq_true, beq_iff_eq] at hclause
  rcases hclause with hwhere | hclause
  · rw [advance_of_restriction hwhere, if_pos h.awaiting]
  · obtain ⟨clause, hclause⟩ := Option.isSome_iff_exists.1 hclause
    rw [advance_of_keyword (isKeyword_of_clauseAfter? hclause) horder, h.conditioned, Bool.false_and,
      if_neg Bool.false_ne_true, hclause]
    exact if_pos h.awaiting

/-- Nothing but the next clause is rejected because an `ON` waits. -/
theorem awaiting_of_fail_mem_advance {siblings : List Node} {error : LineageError}
    (hmem : .fail error ∈ (reader.advance node siblings).1) (h : error.MissesCondition) :
    reader.awaiting = true ∧
      (node.kind == .whereClause || (clauseAfter? node).isSome) = true := by
  cases reader.meets node with
  | passed hnode => simp [advance_of_passed hnode] at hmem
  | comment hnode => simp [advance_of_comment hnode] at hmem
  | order hnode => simp [advance_of_order hnode] at hmem
  | restriction hwhere =>
    rw [advance_of_restriction hwhere] at hmem
    split at hmem
    · next hawaiting => exact ⟨hawaiting, by simp [hwhere]⟩
    split at hmem
    · next hconditions =>
      cases List.mem_singleton.1 hmem
      exact absurd h (node.failsMalformed_conditions _ hconditions).2
    · simp at hmem
    · simp at hmem
  | keyword hkeyword horder =>
    rw [advance_of_keyword hkeyword horder] at hmem
    split at hmem
    · simp at hmem
    split at hmem
    · simp at hmem
    next clause hclause =>
    split at hmem
    · next hawaiting => exact ⟨hawaiting, by simp [hclause]⟩
    · split at hmem <;> simp at hmem
  | operand hclause hkind => simp [advance_of_operand hclause hkind] at hmem
  | part hnode hoperand =>
    rw [advance_of_legible hnode hoperand] at hmem
    split at hmem
    · next hread =>
      cases List.mem_singleton.1 hmem
      exact absurd h (node.failsMalformed_read _ _ hread).2
    · simp at hmem

/-- Where no `ON` waits, one only waits behind the node if it begins there. -/
theorem next_of_not_awaiting (h : reader.awaiting = false) {siblings : List Node} {next : Reader}
    {n : Nat} (hnext : (reader.advance node siblings).2 = some (next, n)) :
    next.awaiting = false ∨ next.Waits ∧ n = 0 ∧ clauseAfter? node = some .onCondition := by
  have htake : (reader.take node).awaiting = false := (awaiting_take reader node).trans h
  by_cases hon : clauseAfter? node = some .onCondition
  · obtain ⟨other, hadvance, hwaits⟩ := exists_advance_on h hon siblings
    rw [hadvance] at hnext
    cases hnext
    exact Or.inr ⟨hwaits, rfl, hon⟩
  · left
    cases reader.meets node with
    | passed hnode =>
      rw [advance_of_passed hnode] at hnext
      cases hnext
      exact htake
    | comment hnode =>
      rw [advance_of_comment hnode] at hnext
      cases hnext
      exact htake
    | order hnode =>
      rw [advance_of_order hnode] at hnext
      cases hnext
      exact htake
    | restriction hwhere =>
      rw [advance_of_restriction hwhere] at hnext
      repeat' split at hnext
      all_goals cases hnext
      all_goals exact htake
    | keyword hkeyword horder =>
      rw [advance_of_keyword hkeyword horder] at hnext
      split at hnext
      · cases hnext
        exact htake
      split at hnext
      · cases hnext
        exact htake
      next clause hclause =>
      rw [h, if_neg Bool.false_ne_true] at hnext
      cases hnext
      rw [hclause, Option.some_inj] at hon
      exact beq_eq_false_iff_ne.2 hon
    | operand hclause hkind =>
      rw [advance_of_operand hclause hkind] at hnext
      cases hnext
      simp [afterPart, pass, htake]
    | part hnode hoperand =>
      rw [advance_of_legible hnode hoperand] at hnext
      split at hnext
      · cases hnext
      · cases hnext
        simp [afterPart, htake]

theorem Waits.next_of_part (h : reader.Waits)
    (hclause : (node.kind == .whereClause || (clauseAfter? node).isSome) = false)
    (hnode : (node.isFiller .all || node.isPunctuation || node.isKeyword) = false)
    {siblings : List Node} {next : Reader} {n : Nat}
    (hnext : (reader.advance node siblings).2 = some (next, n)) : next.awaiting = false := by
  have htake := h.take node
  rw [Bool.or_eq_false_iff, beq_eq_false_iff_ne] at hclause
  have hlegible := Node.legible_of_not_passed hnode hclause.1
  by_cases hoperand : reader.clause = .onCondition ∧ (node.kind = .identifier ∨ node.kind = .name)
  · rw [advance_of_operand hoperand.1 hoperand.2] at hnext
    cases hnext
    simp [afterPart, pass, htake.clause]
  · rw [advance_of_legible hlegible hoperand] at hnext
    split at hnext
    · cases hnext
    · cases hnext
      simp [afterPart, htake.clause]

/-- A waiting `ON` either is passed on behind the node and what this takes, or has waited in vain
there, or has a part of a clause read at the node, behind which it no longer waits. -/
theorem Waits.advance_cases (h : reader.Waits) (parent node : Node) (siblings : List Node) :
    (∃ next n, reader.advance node siblings = ([], some (next, n)) ∧ next.Waits ∧
      Node.missedAt? parent false (node :: siblings) =
        Node.missedAt? parent false (siblings.drop n)) ∨
    (reader.advance node siblings = ([.fail (.malformedAt .joinWithoutCondition node)], none) ∧
      Node.missedAt? parent false (node :: siblings) = some node) ∨
    ((∀ error : LineageError, error.MissesCondition →
        .fail error ∉ (reader.advance node siblings).1) ∧
      (∀ next n, (reader.advance node siblings).2 = some (next, n) → next.awaiting = false) ∧
      Node.missedAt? parent false (node :: siblings) = none) := by
  rw [Node.missedAt?]
  by_cases horder : node.isWordIn ["GROUP BY", "ORDER BY"] = true
  · obtain ⟨next, hadvance, hwaits⟩ := h.exists_advance_order horder siblings
    refine .inl ⟨next, _, hadvance, hwaits, ?_⟩
    rw [if_pos horder, Node.missedAt?_true]
  rw [if_neg horder]
  by_cases hclause : (node.kind == .whereClause || (clauseAfter? node).isSome) = true
  · refine .inr (.inl ⟨h.advance_of_clause (Bool.of_not_eq_true horder) hclause siblings, ?_⟩)
    rw [if_pos hclause]
  rw [if_neg hclause]
  by_cases hnode : (node.isFiller .all || node.isPunctuation || node.isKeyword) = true
  · have hopens : node.opensClause = false := by
      rw [Bool.not_eq_true, Bool.or_eq_false_iff] at hclause
      rw [Node.opensClause, hclause.2, Bool.of_not_eq_true horder, Bool.or_false]
    obtain ⟨next, hadvance, hwaits⟩ := h.exists_advance_passed hopens hnode siblings
    refine .inl ⟨next, 0, hadvance, hwaits, ?_⟩
    rw [if_pos hnode, List.drop_zero]
  · refine .inr (.inr ⟨fun error herror hfail => ?_, fun next n hnext => ?_, if_neg hnode⟩)
    · exact hclause (awaiting_of_fail_mem_advance hfail herror).2
    · exact h.next_of_part (Bool.of_not_eq_true hclause) (Bool.of_not_eq_true hnode) hnext

theorem Reaches.suffix {siblings rest : List Node} {later : Reader}
    (h : reader.Reaches siblings later rest) : rest <:+ siblings := by
  induction h with
  | refl => exact List.suffix_refl _
  | step hnext h ih => exact (ih.trans (List.drop_suffix _ _)).trans (List.suffix_cons _ _)

theorem Reaches.mem_ofSiblings {parent : Node} {siblings rest : List Node} {later : Reader}
    (h : reader.Reaches siblings later rest) {step : Step}
    (hmem : step ∈ Step.ofSiblings parent later rest) :
    step ∈ Step.ofSiblings parent reader siblings := by
  induction h with
  | refl => exact hmem
  | @step reader next later node siblings rest n hnext h ih =>
    rw [Step.ofSiblings_cons]
    rcases hresult : reader.advance node siblings with ⟨steps, next?⟩
    rw [hresult] at hnext
    rw [show next? = some (next, n) from hnext, Step.resume]
    exact List.mem_append_right _ (ih hmem)

theorem Misses.step {parent place : Node} {next : Reader} {siblings : List Node} {n : Nat}
    (hnext : (reader.advance node siblings).2 = some (next, n))
    (h : Misses parent next (siblings.drop n) place) :
    Misses parent reader (node :: siblings) place := by
  obtain ⟨later, on, rest, hreaches, hother⟩ := h
  exact ⟨later, on, rest, .step hnext hreaches, hother⟩

end Reader

namespace Step

variable {parent place : Node} {reader : Reader} {siblings : List Node} {error : LineageError}

theorem exists_of_fail_mem_resume {result : List Step × Option (Reader × Nat)}
    (h : .fail error ∈ resume parent siblings result) (hsteps : .fail error ∉ result.1) :
    ∃ next n, result.2 = some (next, n) ∧
      .fail error ∈ ofSiblings parent next (siblings.drop n) := by
  rcases result with ⟨steps, _ | ⟨next, n⟩⟩
  · exact absurd h hsteps
  · exact ⟨next, n, rfl, (List.mem_append.1 h).resolve_left hsteps⟩

/-- Of a query of which an `ON` waits in vain, this is all that is left to report. -/
theorem ofSiblings_of_waits (h : reader.Waits)
    (hplace : Node.missedAt? parent false siblings = some place) :
    ofSiblings parent reader siblings = [.fail (.malformedAt .joinWithoutCondition place)] := by
  induction siblings using forall_of_drop generalizing reader with
  | hnil =>
    rw [ofSiblings, if_pos h.awaiting]
    cases hplace
    rfl
  | hcons node siblings ih =>
    rw [ofSiblings_cons]
    rcases h.advance_cases parent node siblings with
      ⟨next, n, hadvance, hwaits, hmissed⟩ | ⟨hadvance, hmissed⟩ | ⟨-, -, hmissed⟩
    · rw [hadvance, resume, List.nil_append, ih n hwaits (hmissed ▸ hplace)]
    · cases hmissed.symm.trans hplace
      rw [hadvance, resume]
    · cases hmissed.symm.trans hplace

/-- That an `ON` has no condition is reported of an `ON` that waits in vain: the one that waits
already, or one that the reading comes to while no other waits. -/
theorem misses_of_fail_mem (hreader : reader.awaiting = false ∨ reader.Waits)
    (hmem : .fail error ∈ ofSiblings parent reader siblings) (herror : error.MissesCondition) :
    (reader.Waits ∧ ∃ place, Node.missedAt? parent false siblings = some place ∧
      error = .malformedAt .joinWithoutCondition place) ∨
    ∃ place, Reader.Misses parent reader siblings place ∧
      error = .malformedAt .joinWithoutCondition place := by
  induction siblings using forall_of_drop generalizing reader with
  | hnil =>
    rw [ofSiblings] at hmem
    split at hmem
    · next hawaiting =>
      cases List.mem_singleton.1 hmem
      exact Or.inl ⟨hreader.resolve_left (by simp [hawaiting]), parent, rfl, rfl⟩
    · simp at hmem
  | hcons node siblings ih =>
    rw [ofSiblings_cons] at hmem
    -- a node behind which none waits leaves the question to the rest
    have hfree : ∀ next n, (reader.advance node siblings).2 = some (next, n) →
        next.awaiting = false → .fail error ∈ ofSiblings parent next (siblings.drop n) →
        ∃ place, Reader.Misses parent reader (node :: siblings) place ∧
          error = .malformedAt .joinWithoutCondition place := by
      intro next n hnext hawaiting hrest
      rcases ih n (Or.inl hawaiting) hrest with ⟨hwaits, -⟩ | ⟨place, hmisses, heq⟩
      · rw [hwaits.awaiting] at hawaiting
        cases hawaiting
      · exact ⟨place, hmisses.step hnext, heq⟩
    rcases hreader with hawaiting | hwaits
    · right
      have hsteps : .fail error ∉ (reader.advance node siblings).1 := fun hfail => by
        rw [(Reader.awaiting_of_fail_mem_advance hfail herror).1] at hawaiting
        cases hawaiting
      obtain ⟨next, n, hnext, hrest⟩ := exists_of_fail_mem_resume hmem hsteps
      rcases Reader.next_of_not_awaiting hawaiting hnext with hlater | ⟨hlater, rfl, hon⟩
      · exact hfree next n hnext hlater hrest
      · rcases ih 0 (Or.inr hlater) hrest with ⟨-, place, hplace, heq⟩ | ⟨place, hmisses, heq⟩
        · exact ⟨place, ⟨reader, node, siblings, .refl _ _, hawaiting, hon, hplace⟩, heq⟩
        · exact ⟨place, hmisses.step hnext, heq⟩
    · rcases hwaits.advance_cases parent node siblings with
        ⟨next, n, hadvance, hlater, hmissed⟩ | ⟨hadvance, hmissed⟩ | ⟨hsteps, hlater, -⟩
      · rw [hadvance, resume, List.nil_append] at hmem
        rcases ih n (Or.inr hlater) hmem with ⟨-, place, hplace, heq⟩ | ⟨place, hmisses, heq⟩
        · exact Or.inl ⟨hwaits, place, hmissed.trans hplace, heq⟩
        · exact Or.inr ⟨place, hmisses.step (by rw [hadvance]), heq⟩
      · rw [hadvance] at hmem
        exact Or.inl ⟨hwaits, node, hmissed, Step.fail.inj (List.mem_singleton.1 hmem)⟩
      · obtain ⟨next, n, hnext, hrest⟩ := exists_of_fail_mem_resume hmem (hsteps error herror)
        exact Or.inr (hfree next n hnext (hlater next n hnext) hrest)

/-- A query has one failure at most, for it is read no further. -/
theorem eq_of_fail_mem {other : LineageError} (h : .fail error ∈ ofSiblings parent reader siblings)
    (hother : .fail other ∈ ofSiblings parent reader siblings) : other = error := by
  induction siblings using forall_of_drop generalizing reader with
  | hnil =>
    rw [ofSiblings] at h hother
    split at h
    · next hawaiting =>
      rw [if_pos hawaiting] at hother
      cases List.mem_singleton.1 h
      cases List.mem_singleton.1 hother
      rfl
    · simp at h
  | hcons node siblings ih =>
    obtain ⟨result, hyields, heq⟩ := exists_yields parent reader node siblings
    rw [heq] at h hother
    cases hyields with
    | fail fault _ =>
      cases List.mem_singleton.1 h
      cases List.mem_singleton.1 hother
      rfl
    | pass next n _ => exact ih n (by simpa [resume] using h) (by simpa [resume] using hother)
    | restrict conditions next _ =>
      exact ih 0 (by simpa [resume] using h) (by simpa [resume] using hother)
    | select next _ _ => exact ih 0 (by simpa [resume] using h) (by simpa [resume] using hother)
    | read clause reading comment next n _ _ _ =>
      exact ih n (by simpa [resume] using h) (by simpa [resume] using hother)

end Step

namespace Node

variable {query place : Node}

theorem Misses.fail_mem (h : query.Misses place) :
    .fail (.malformedAt .joinWithoutCondition place) ∈ Step.ofNode query := by
  obtain ⟨later, on, rest, hreaches, hawaiting, hon, hplace⟩ := h
  obtain ⟨next, hadvance, hwaits⟩ := Reader.exists_advance_on hawaiting hon rest
  refine hreaches.mem_ofSiblings ?_
  rw [Step.ofSiblings_cons, hadvance, Step.resume, List.nil_append, List.drop_zero,
    Step.ofSiblings_of_waits hwaits hplace]
  exact List.mem_singleton_self _

/-- A query is only rejected for a missing condition where an `ON` of its own waits in vain. -/
theorem exists_misses {error : LineageError} (h : .fail error ∈ Step.ofNode query)
    (herror : error.MissesCondition) :
    ∃ place, query.Misses place ∧ error = .malformedAt .joinWithoutCondition place := by
  rcases Step.misses_of_fail_mem (Or.inl rfl) h herror with ⟨hwaits, -⟩ | hmisses
  · cases hwaits.clause
  · exact hmisses

/-- Whether a clause ends before the node: at the keyword of the next one, at a `WHERE`, or at what
would close a `WHERE`. -/
def endsClause (node : Node) : Bool :=
  node.kind == .whereClause || (Reader.clauseAfter? node).isSome || node.endsWhere

/-- Whether a condition begins at the node: a comparison, a group of conditions in parentheses, or a
name that has a condition of keywords behind it. -/
def beginsCondition (node : Node) (siblings : List Node) : Bool :=
  (node.items.any fun item => match item.conditions with
    | .ok [] => false
    | _ => true) ||
  ((node.isKind .identifier || node.isKind .name) && (keywordCondition node siblings).1.isSome)

/-- No condition begins among the siblings before the clause that they are in ends. -/
def lacksCondition : List Node → Bool
  | [] => true
  | node :: siblings =>
    node.endsClause || (!node.beginsCondition siblings && lacksCondition siblings)

theorem not_beginsCondition {node : Node}
    (h : (node.isFiller .all || node.isPunctuation || node.isKeyword) = true)
    (siblings : List Node) : node.beginsCondition siblings = false := by
  have hkind : node.kind ≠ .identifierList ∧ node.conditions = .ok [] ∧
      node.isKind .identifier = false ∧ node.isKind .name = false := by
    rw [isFiller_all, isWhitespace, isComment, isPunctuation, isKeyword] at h
    unfold conditions isKind
    cases hkind : node.kind <;> simp_all [Kind.isKeyword]
  obtain ⟨hlist, hconditions, hidentifier, hname⟩ := hkind
  simp [beginsCondition, items_of_kind_ne hlist, hconditions, hidentifier, hname]

/-- Where an `ON` waits in vain, no condition follows it. -/
theorem lacksCondition_of_missedAt? {parent place : Node} {siblings : List Node}
    (h : missedAt? parent false siblings = some place) : lacksCondition siblings = true := by
  induction siblings with
  | nil => rfl
  | cons node siblings ih =>
    rw [missedAt?] at h
    rw [lacksCondition, endsClause]
    split at h
    · next horder =>
      have hends : node.endsWhere = true := by
        rw [isWordIn, Bool.and_eq_true, List.contains_iff_mem] at horder
        have hlisted : ∀ word ∈ ["GROUP BY", "ORDER BY"], word ∈ Keyword.whereTerminators := by
          decide
        simp [endsWhere, isWordIn, horder.1, hlisted _ horder.2]
      rw [hends, Bool.or_true, Bool.true_or]
    split at h
    · next hclause => rw [hclause, Bool.true_or, Bool.true_or]
    split at h
    · next hnode => rw [not_beginsCondition hnode, ih h, Bool.not_false, Bool.true_and, Bool.or_true]
    · cases h

/-- An `ON` that waits in vain is a child of the query and no condition follows it. -/
theorem Misses.exists_lacksCondition (h : query.Misses place) :
    ∃ before on rest, query.children = before ++ on :: rest ∧ on.isWord "ON" = true ∧
      lacksCondition rest = true := by
  obtain ⟨later, on, rest, hreaches, -, hon, hplace⟩ := h
  obtain ⟨before, hsplit⟩ := hreaches.suffix
  exact ⟨before, on, rest, hsplit.symm, Reader.begins_of_clauseAfter? hon,
    lacksCondition_of_missedAt? hplace⟩

end Node

end QueryLineage
