import QueryLineage.Clause.Step
import QueryLineage.Proofs.Clause.Faults

/-!
# One part at a time

The reading of siblings into steps goes on from one node to another. What one node yields depends on
what is remembered and on the siblings behind it, but not on what becomes of these; so whatever is to
be shown of a reading is shown of one node first.
-/

namespace QueryLineage

open Text

/-- What one node yields: its steps, and unless the reading ends there, what is remembered behind it
and how many of the siblings it takes. -/
def Reader.advance (reader : Reader) (node : Node) (siblings : List Node) :
    List Step × Option (Reader × Nat) :=
  let reader := reader.take node
  let rejected := ([.fail (.malformedAt .joinWithoutCondition node)], none)
  if node.isWhitespace || node.isPunctuation then ([], some (reader, 0))
  else if node.isComment then ([], some ({ reader with comment := trim node.text }, 0))
  else if node.isWordIn ["GROUP BY", "ORDER BY"] then
    let n := Step.orderExtent siblings
    ([], some ({ reader.pass (siblings.take n) with conditioned := false }, n))
  else if node.kind = .whereClause then
    if reader.awaiting then rejected
    else
      let reader := { reader with conditioned := false }
      match node.conditions with
      | .error error => ([.fail error], none)
      | .ok [] => ([], some (reader, 0))
      | .ok conditions => ([.restrict conditions], some (reader, 0))
  else if node.isKeyword then
    if reader.conditioned && node.isConnective then
      ([], some ({ reader with clause := .onCondition }, 0))
    else
      let reader := { reader with conditioned := false }
      match Reader.clauseAfter? node with
      | none => ([], some (reader, 0))
      | some clause =>
        if reader.awaiting then rejected
        else
          (if clause = .selectList then [.select] else [],
            some ({ reader with clause, awaiting := clause == .onCondition }, 0))
  else if reader.clause = .onCondition ∧ (node.kind = .identifier ∨ node.kind = .name) then
    let (reading, n) := node.readOperand siblings
    let reader := reader.pass (siblings.take n)
    ([.read .onCondition reading reader.comment reader.text], some (reader.afterPart, n))
  else
    match node.read reader.clause with
    | .error error => ([.fail error], none)
    | .ok reading =>
      ([.read reader.clause reading reader.comment reader.text], some (reader.afterPart, 0))

namespace Node

/-- A node that is read by itself: neither a filler nor a mark, nor a keyword, nor a `WHERE`. -/
structure Legible (node : Node) : Prop where
  whitespace : node.isWhitespace = false
  punctuation : node.isPunctuation = false
  comment : node.isComment = false
  keyword : node.isKeyword = false
  restriction : node.kind ≠ .whereClause

theorem Legible.isWordIn {node : Node} (h : node.Legible) (words : List String) :
    node.isWordIn words = false := by
  rw [Node.isWordIn, h.keyword, Bool.false_and]

theorem legible_of_not_passed {node : Node}
    (h : (node.isFiller .all || node.isPunctuation || node.isKeyword) = false)
    (hwhere : node.kind ≠ .whereClause) : node.Legible := by
  simp only [Node.isFiller_all, Bool.or_eq_false_iff] at h
  obtain ⟨⟨⟨hwhitespace, hcomment⟩, hpunctuation⟩, hkeyword⟩ := h
  exact ⟨hwhitespace, hpunctuation, hcomment, hkeyword, hwhere⟩

theorem legible_of_kind {node : Node} (h : node.kind ∈ [.identifier, .name, .function]) :
    node.Legible := by
  have hother : node.isWhitespace = false ∧ node.isPunctuation = false ∧ node.isComment = false ∧
      node.isKeyword = false ∧ node.kind ≠ .whereClause := by
    unfold Node.isWhitespace Node.isPunctuation Node.isComment Node.isKeyword
    generalize node.kind = kind at h
    revert kind
    decide
  obtain ⟨hblank, hpunctuation, hcomment, hkeyword, hwhere⟩ := hother
  exact ⟨hblank, hpunctuation, hcomment, hkeyword, hwhere⟩

theorem legible_of_operand {node : Node} (h : node.kind = .identifier ∨ node.kind = .name) :
    node.Legible := by
  refine legible_of_kind ?_
  rcases h with hkind | hkind <;> simp [hkind]

end Node

namespace Reader

/-- What a node is read as: the cases that the reading tells apart. -/
inductive Meets (reader : Reader) (node : Node) : Prop
  | passed (h : (node.isWhitespace || node.isPunctuation) = true)
  | comment (h : node.isComment = true)
  | order (h : node.isWordIn ["GROUP BY", "ORDER BY"] = true)
  | restriction (h : node.kind = .whereClause)
  | keyword (h : node.isKeyword = true)
      (horder : node.isWordIn ["GROUP BY", "ORDER BY"] = false)
  | operand (hclause : reader.clause = .onCondition)
      (hkind : node.kind = .identifier ∨ node.kind = .name)
  | part (h : node.Legible)
      (hoperand : ¬(reader.clause = .onCondition ∧ (node.kind = .identifier ∨ node.kind = .name)))

theorem meets (reader : Reader) (node : Node) : reader.Meets node := by
  by_cases hpassed : (node.isWhitespace || node.isPunctuation) = true
  · exact .passed hpassed
  by_cases hcomment : node.isComment = true
  · exact .comment hcomment
  by_cases hwhere : node.kind = .whereClause
  · exact .restriction hwhere
  by_cases horder : node.isWordIn ["GROUP BY", "ORDER BY"] = true
  · exact .order horder
  by_cases hkeyword : node.isKeyword = true
  · exact .keyword hkeyword (Bool.eq_false_iff.2 horder)
  by_cases hoperand : reader.clause = .onCondition ∧ (node.kind = .identifier ∨ node.kind = .name)
  · exact .operand hoperand.1 hoperand.2
  · rw [Bool.not_eq_true] at hcomment hkeyword
    rw [Bool.not_eq_true, Bool.or_eq_false_iff] at hpassed
    exact .part ⟨hpassed.1, hpassed.2, hcomment, hkeyword, hwhere⟩ hoperand

theorem not_passed_of_isKeyword {node : Node} (h : node.isKeyword = true) :
    (node.isWhitespace || node.isPunctuation) = false ∧ node.isComment = false ∧
      node.kind ≠ .whereClause := by
  rw [Node.isKeyword] at h
  cases hkind : node.kind <;>
    simp_all [Kind.isKeyword, Node.isWhitespace, Node.isPunctuation, Node.isComment]

theorem take_eq (reader : Reader) (node : Node) :
    reader.take node = { reader with text := (reader.take node).text } := by
  unfold take
  split <;> rfl

theorem take_of_not_keyword {node : Node} (h : node.isKeyword = false) (reader : Reader) :
    reader.take node = { reader with text := reader.text ++ node.text } := by
  rw [take, Node.isWord, Node.isJoin, h, Bool.false_and, Bool.false_and]
  rfl

theorem clause_take (reader : Reader) (node : Node) :
    (reader.take node).clause = reader.clause := by
  rw [take_eq]

theorem awaiting_take (reader : Reader) (node : Node) :
    (reader.take node).awaiting = reader.awaiting := by
  rw [take_eq]

theorem conditioned_take (reader : Reader) (node : Node) :
    (reader.take node).conditioned = reader.conditioned := by
  rw [take_eq]

variable {reader : Reader} {node : Node} {siblings : List Node}

theorem advance_of_passed (h : (node.isWhitespace || node.isPunctuation) = true) :
    reader.advance node siblings = ([], some (reader.take node, 0)) :=
  if_pos h

theorem advance_of_comment (h : node.isComment = true) :
    reader.advance node siblings =
      ([], some ({ reader.take node with comment := trim node.text }, 0)) := by
  have hpassed : (node.isWhitespace || node.isPunctuation) = false := by
    rw [Node.isWhitespace, Node.isPunctuation, beq_iff_eq.1 h]
    rfl
  unfold advance
  dsimp only
  rw [hpassed, if_neg Bool.false_ne_true, if_pos h]

theorem advance_of_order (h : node.isWordIn ["GROUP BY", "ORDER BY"] = true) :
    reader.advance node siblings =
      ([], some ({ (reader.take node).pass (siblings.take (Step.orderExtent siblings)) with
        conditioned := false }, Step.orderExtent siblings)) := by
  obtain ⟨hpassed, hcomment, -⟩ := not_passed_of_isKeyword (Bool.and_eq_true_iff.1 h).1
  unfold advance
  dsimp only
  rw [hpassed, hcomment, if_neg Bool.false_ne_true, if_neg Bool.false_ne_true, if_pos h]

/-- A `WHERE` is read as its conditions, unless an `ON` waits for one. -/
theorem advance_of_restriction (h : node.kind = .whereClause) :
    reader.advance node siblings =
      if reader.awaiting then ([.fail (.malformedAt .joinWithoutCondition node)], none)
      else match node.conditions with
      | .error error => ([.fail error], none)
      | .ok [] => ([], some ({ reader.take node with conditioned := false }, 0))
      | .ok conditions =>
        ([.restrict conditions], some ({ reader.take node with conditioned := false }, 0)) := by
  have hother : (node.isWhitespace || node.isPunctuation) = false ∧ node.isComment = false ∧
      node.isKeyword = false := by
    unfold Node.isWhitespace Node.isPunctuation Node.isComment Node.isKeyword
    rw [h]
    decide
  obtain ⟨hpassed, hcomment, hkeyword⟩ := hother
  unfold advance
  dsimp only
  rw [hpassed, hcomment, Node.isWordIn, hkeyword, Bool.false_and, if_neg Bool.false_ne_true,
    if_neg Bool.false_ne_true, if_neg Bool.false_ne_true, if_pos h, awaiting_take]

/-- A keyword goes on with the conditions that were read before it, or begins a clause, or says
nothing. -/
theorem advance_of_keyword (h : node.isKeyword = true)
    (horder : node.isWordIn ["GROUP BY", "ORDER BY"] = false) :
    reader.advance node siblings =
      if reader.conditioned && node.isConnective then
        ([], some ({ reader.take node with clause := .onCondition }, 0))
      else match clauseAfter? node with
      | none => ([], some ({ reader.take node with conditioned := false }, 0))
      | some clause =>
        if reader.awaiting then ([.fail (.malformedAt .joinWithoutCondition node)], none)
        else (if clause = .selectList then [.select] else [],
          some ({ reader.take node with
            clause, awaiting := clause == .onCondition, conditioned := false }, 0)) := by
  obtain ⟨hpassed, hcomment, hwhere⟩ := not_passed_of_isKeyword h
  unfold advance
  dsimp only
  rw [hpassed, hcomment, horder, if_neg Bool.false_ne_true, if_neg Bool.false_ne_true,
    if_neg Bool.false_ne_true, if_neg hwhere, if_pos h, conditioned_take, awaiting_take]

theorem advance_of_operand (hclause : reader.clause = .onCondition)
    (hkind : node.kind = .identifier ∨ node.kind = .name) :
    reader.advance node siblings =
      let taken := node.readOperand siblings
      let later := (reader.take node).pass (siblings.take taken.2)
      ([.read .onCondition taken.1 later.comment later.text], some (later.afterPart, taken.2)) := by
  have hnode := Node.legible_of_operand hkind
  have hboth := And.intro ((reader.clause_take node).trans hclause) hkind
  unfold advance
  dsimp only
  rw [hnode.whitespace, hnode.punctuation, hnode.comment, hnode.isWordIn, hnode.keyword, Bool.or_false,
    if_neg Bool.false_ne_true, if_neg Bool.false_ne_true, if_neg Bool.false_ne_true,
    if_neg hnode.restriction, if_neg Bool.false_ne_true, if_pos hboth]

theorem advance_of_legible (h : node.Legible)
    (hoperand : ¬(reader.clause = .onCondition ∧ (node.kind = .identifier ∨ node.kind = .name))) :
    reader.advance node siblings =
      match node.read reader.clause with
      | .error error => ([.fail error], none)
      | .ok reading =>
        ([.read reader.clause reading (reader.take node).comment (reader.take node).text],
          some ((reader.take node).afterPart, 0)) := by
  unfold advance
  dsimp only
  rw [h.whitespace, h.punctuation, h.comment, h.isWordIn, h.keyword, Bool.or_false,
    if_neg Bool.false_ne_true, if_neg Bool.false_ne_true, if_neg Bool.false_ne_true,
    if_neg h.restriction, if_neg Bool.false_ne_true, clause_take, if_neg hoperand]

/-- Fillers and marks change only the comment and the text. -/
theorem exists_advance_filler (h : (node.isFiller .all || node.isPunctuation) = true) :
    ∃ comment text, reader.advance node siblings = ([], some ({ reader with comment, text }, 0)) := by
  by_cases hpassed : (node.isWhitespace || node.isPunctuation) = true
  · rw [advance_of_passed hpassed, take_eq]
    exact ⟨_, _, rfl⟩
  · have hcomment : node.isComment = true := by
      rw [Bool.not_eq_true, Bool.or_eq_false_iff] at hpassed
      simpa [hpassed] using h
    rw [advance_of_comment hcomment, take_eq]
    exact ⟨_, _, rfl⟩

end Reader

namespace Step

/-- The steps for the rest of siblings of which the first has yielded something. -/
def resume (parent : Node) (siblings : List Node) : List Step × Option (Reader × Nat) → List Step
  | (steps, none) => steps
  | (steps, some (reader, n)) => steps ++ ofSiblings parent reader (siblings.drop n)

/-- The reading goes on with what the first node leaves. -/
theorem ofSiblings_cons (parent : Node) (reader : Reader) (node : Node) (siblings : List Node) :
    ofSiblings parent reader (node :: siblings) =
      resume parent siblings (reader.advance node siblings) := by
  rw [ofSiblings, Reader.advance]
  dsimp only
  by_cases hpassed : (node.isWhitespace || node.isPunctuation) = true
  · rw [if_pos hpassed, if_pos hpassed]
    rfl
  rw [if_neg hpassed, if_neg hpassed]
  by_cases hcomment : node.isComment = true
  · rw [if_pos hcomment, if_pos hcomment]
    rfl
  rw [if_neg hcomment, if_neg hcomment]
  by_cases horder : node.isWordIn ["GROUP BY", "ORDER BY"] = true
  · rw [if_pos horder, if_pos horder]
    rfl
  rw [if_neg horder, if_neg horder]
  by_cases hwhere : node.kind = .whereClause
  · rw [if_pos hwhere, if_pos hwhere]
    by_cases hawaiting : (reader.take node).awaiting = true
    · rw [if_pos hawaiting, if_pos hawaiting]
      rfl
    rw [if_neg hawaiting, if_neg hawaiting]
    cases node.conditions with
    | error error => rfl
    | ok conditions => cases conditions <;> rfl
  rw [if_neg hwhere, if_neg hwhere]
  by_cases hkeyword : node.isKeyword = true
  · rw [if_pos hkeyword, if_pos hkeyword]
    by_cases hconnective : ((reader.take node).conditioned && node.isConnective) = true
    · rw [if_pos hconnective, if_pos hconnective]
      rfl
    rw [if_neg hconnective, if_neg hconnective]
    cases Reader.clauseAfter? node with
    | none => rfl
    | some clause =>
      dsimp only
      by_cases hawaiting : (reader.take node).awaiting = true
      · rw [if_pos hawaiting, if_pos hawaiting]
        rfl
      rw [if_neg hawaiting, if_neg hawaiting]
      by_cases hselect : clause = .selectList
      · rw [if_pos hselect, if_pos hselect]
        rfl
      · rw [if_neg hselect, if_neg hselect]
        rfl
  rw [if_neg hkeyword, if_neg hkeyword]
  by_cases hoperand : (reader.take node).clause = .onCondition ∧
      (node.kind = .identifier ∨ node.kind = .name)
  · rw [if_pos hoperand, if_pos hoperand]
    rfl
  rw [if_neg hoperand, if_neg hoperand]
  cases node.read (reader.take node).clause <;> rfl

/-- What holds of the empty row, and of a row once it holds of every row that is left behind the
first node, holds of all rows. -/
theorem forall_of_drop {P : List Node → Prop} (hnil : P [])
    (hcons : ∀ node siblings, (∀ n, P (siblings.drop n)) → P (node :: siblings)) :
    ∀ siblings, P siblings := by
  have hlength : ∀ k siblings, siblings.length ≤ k → P siblings := by
    intro k
    induction k with
    | zero =>
      intro siblings hle
      rwa [List.length_eq_zero_iff.1 (Nat.le_zero.1 hle)]
    | succ k ih =>
      intro siblings hle
      cases siblings with
      | nil => exact hnil
      | cons node siblings =>
        refine hcons node siblings fun n => ih _ ?_
        rw [List.length_drop]
        rw [List.length_cons] at hle
        omega
  exact fun siblings => hlength _ siblings (Nat.le_refl _)

end Step

namespace Reader

/-- What one node can yield: a failure, or at most one step, before which the text of what was taken
up is remembered. -/
inductive Yields (reader : Reader) (node : Node) (siblings : List Node) :
    List Step × Option (Reader × Nat) → Prop
  | fail (error : LineageError) (hmalformed : error.IsMalformed) :
      Yields reader node siblings ([.fail error], none)
  | pass (next : Reader) (n : Nat)
      (htext : next.text = (reader.take node).text ++ Node.textAll (siblings.take n)) :
      Yields reader node siblings ([], some (next, n))
  | restrict (conditions : List Attribute) (next : Reader)
      (htext : next.text = (reader.take node).text) :
      Yields reader node siblings ([.restrict conditions], some (next, 0))
  | select (next : Reader) (hword : node.isWord "SELECT" = true)
      (htext : next.text = (reader.take node).text) :
      Yields reader node siblings ([.select], some (next, 0))
  | read (clause : Clause) (reading : Reading) (comment : String) (next : Reader) (n : Nat)
      (hblank : node.isWhitespace = false)
      (hread : node.read clause = .ok reading ∨ ∃ attributes, reading = .conditions attributes)
      (htext : next.text = (reader.take node).text ++ Node.textAll (siblings.take n)) :
      Yields reader node siblings ([.read clause reading comment next.text], some (next, n))

/-- Whether the node is the keyword that begins the clause. -/
def begins (keyword : Node) : Clause → Bool
  | .outside => false
  | .selectList => keyword.isWord "SELECT"
  | .fromList => keyword.isWord "FROM"
  | .joinList => keyword.isJoin
  | .withList => keyword.isCte
  | .onCondition => keyword.isWord "ON"

theorem begins_of_clauseAfter? {keyword : Node} {clause : Clause}
    (h : clauseAfter? keyword = some clause) : begins keyword clause = true := by
  unfold clauseAfter? at h
  repeat' split at h
  all_goals first | cases h; assumption | cases h

theorem keyword_of_clauseAfter? {keyword : Node} {clause : Clause}
    (hclause : clauseAfter? keyword = some clause) (hwith : clause ≠ .withList) :
    keyword.isKeyword = true ∧ keyword.isConnective = false ∧
      keyword.isWordIn ["GROUP BY", "ORDER BY"] = false := by
  have hword : keyword.isKeyword = true ∧ (keyword.normalized ∈ ["SELECT", "FROM", "ON"] ∨
      occursIn "JOIN".toList keyword.normalized.toList = true) := by
    have hbegins := begins_of_clauseAfter? hclause
    cases clause with
    | outside => cases hbegins
    | withList => exact absurd rfl hwith
    | selectList | fromList | onCondition =>
      rw [begins, Node.isWord, Bool.and_eq_true, beq_iff_eq] at hbegins
      simp [hbegins]
    | joinList =>
      rw [begins, Node.isJoin, Bool.and_eq_true] at hbegins
      exact hbegins.imp_right Or.inr
  have hnot : ∀ word ∈ ["AND", "OR", "GROUP BY", "ORDER BY"], keyword.normalized ≠ word := by
    rintro word hmem rfl
    have hother : ∀ word ∈ ["AND", "OR", "GROUP BY", "ORDER BY"],
        word ∉ ["SELECT", "FROM", "ON"] ∧ occursIn "JOIN".toList word.toList = false := by
      decide
    obtain ⟨hlist, hjoin⟩ := hother _ hmem
    rcases hword.2 with hmem | hoccurs
    · exact hlist hmem
    · rw [hjoin] at hoccurs
      cases hoccurs
  refine ⟨hword.1, ?_, ?_⟩ <;> simp [Node.isConnective, Node.isWordIn, hnot]

theorem isKeyword_of_clauseAfter? {keyword : Node} {clause : Clause}
    (h : clauseAfter? keyword = some clause) : keyword.isKeyword = true := by
  cases clause with
  | withList =>
    have hcte := begins_of_clauseAfter? h
    rw [begins, Node.isCte, beq_iff_eq] at hcte
    rw [Node.isKeyword, hcte]
    rfl
  | _ => exact (keyword_of_clauseAfter? h (by decide)).1

/-- A `SELECT` or `JOIN` begins the text anew; the keywords of the other clauses are added to it. -/
theorem take_of_clauseAfter? {keyword : Node} {clause : Clause}
    (hclause : clauseAfter? keyword = some clause) (hwith : clause ≠ .withList) (reader : Reader) :
    reader.take keyword = { reader with
      text := if clause = .selectList ∨ clause = .joinList then keyword.text
        else reader.text ++ keyword.text } := by
  have hbegins := begins_of_clauseAfter? hclause
  have hother : ∀ word ∈ ["FROM", "ON"], keyword.isWord word = true →
      (keyword.isWord "SELECT" || keyword.isJoin) = false := by
    intro word hmem hword
    have hdistinct : ∀ word ∈ ["FROM", "ON"],
        word ≠ "SELECT" ∧ occursIn "JOIN".toList word.toList = false := by
      decide
    obtain ⟨hselect, hjoin⟩ := hdistinct word hmem
    rw [Node.isWord, Bool.and_eq_true, beq_iff_eq] at hword
    rw [Node.isWord, Node.isJoin, hword.2, hjoin, beq_eq_false_iff_ne.2 hselect, Bool.and_false,
      Bool.or_false]
  unfold take
  cases clause with
  | outside => cases hbegins
  | withList => exact absurd rfl hwith
  | selectList => rw [show keyword.isWord "SELECT" = true from hbegins]; rfl
  | joinList => rw [show keyword.isJoin = true from hbegins, Bool.or_true]; rfl
  | fromList => rw [hother "FROM" (by simp) hbegins]; rfl
  | onCondition => rw [hother "ON" (by simp) hbegins]; rfl

/-- The keyword of a clause is rejected while an `ON` waits for its condition, and else the clause
begins. -/
theorem advance_of_clauseAfter? {keyword : Node} {clause : Clause}
    (hclause : clauseAfter? keyword = some clause) (hwith : clause ≠ .withList) (reader : Reader)
    (siblings : List Node) :
    reader.advance keyword siblings =
      if reader.awaiting then ([.fail (.malformedAt .joinWithoutCondition keyword)], none)
      else (if clause = .selectList then [.select] else [],
        some ({ reader.take keyword with
          clause, awaiting := clause == .onCondition, conditioned := false }, 0)) := by
  obtain ⟨hkeyword, hconnective, horder⟩ := keyword_of_clauseAfter? hclause hwith
  rw [advance_of_keyword hkeyword horder, hconnective, Bool.and_false, if_neg Bool.false_ne_true,
    hclause]

theorem yields_advance (reader : Reader) (node : Node) (siblings : List Node) :
    Yields reader node siblings (reader.advance node siblings) := by
  cases reader.meets node with
  | passed h =>
    rw [advance_of_passed h]
    exact .pass _ 0 (by simp)
  | comment h =>
    rw [advance_of_comment h]
    exact .pass _ 0 (by simp)
  | order h =>
    rw [advance_of_order h]
    exact .pass _ _ rfl
  | restriction h =>
    rw [advance_of_restriction h]
    split
    · exact .fail _ ⟨_, _, rfl⟩
    split
    · next hconditions => exact .fail _ (node.failsMalformed_conditions _ hconditions).1
    · exact .pass _ 0 (by simp)
    · exact .restrict _ _ rfl
  | keyword h horder =>
    rw [advance_of_keyword h horder]
    split
    · exact .pass _ 0 (by simp)
    split
    · exact .pass _ 0 (by simp)
    next clause hclause =>
    split
    · exact .fail _ ⟨_, _, rfl⟩
    split
    · next hselect =>
      rw [hselect] at hclause
      exact .select _ (begins_of_clauseAfter? hclause) rfl
    · exact .pass _ 0 (by simp)
  | operand hclause hkind =>
    rw [advance_of_operand hclause hkind]
    exact .read _ _ _
      ((reader.take node).pass (siblings.take (node.readOperand siblings).2)).afterPart _
      (Node.legible_of_operand hkind).whitespace (Or.inr ⟨_, rfl⟩) rfl
  | part h hoperand =>
    rw [advance_of_legible h hoperand]
    split
    · next hread => exact .fail _ (node.failsMalformed_read _ _ hread).1
    · next hread =>
      exact .read _ _ _ (reader.take node).afterPart 0 h.whitespace (Or.inl hread)
        (by simp [afterPart])

end Reader

namespace Step

theorem exists_yields (parent : Node) (reader : Reader) (node : Node) (siblings : List Node) :
    ∃ result, reader.Yields node siblings result ∧
      ofSiblings parent reader (node :: siblings) = resume parent siblings result :=
  ⟨_, reader.yields_advance node siblings, ofSiblings_cons parent reader node siblings⟩

theorem ofSiblings_clause {keyword : Node} {clause : Clause}
    (hclause : Reader.clauseAfter? keyword = some clause) (hwith : clause ≠ .withList)
    {reader : Reader} (hawaiting : reader.awaiting = false) (parent : Node) (siblings : List Node) :
    ofSiblings parent reader (keyword :: siblings) =
      (if clause = .selectList then [.select] else []) ++ ofSiblings parent
        { clause, awaiting := clause == .onCondition, comment := reader.comment,
          text := if clause = .selectList ∨ clause = .joinList then keyword.text
            else reader.text ++ keyword.text } siblings := by
  rw [ofSiblings_cons, Reader.advance_of_clauseAfter? hclause hwith, hawaiting,
    if_neg Bool.false_ne_true, Reader.take_of_clauseAfter? hclause hwith, resume, List.drop_zero]

variable {parent : Node} {reader : Reader} {siblings : List Node}

/-- Every text that a reading ends with is shown by the last of the nodes that have been read. -/
theorem exists_of_finish_mem {text : String} {row : List Node}
    (hrow : reader.text = Node.textAll row) (h : .finish text ∈ ofSiblings parent reader siblings) :
    ∃ before after, row ++ siblings = before ++ after ∧ text = Node.textAll after := by
  induction siblings using forall_of_drop generalizing reader row with
  | hnil =>
    rw [ofSiblings] at h
    split at h
    · simp at h
    · obtain rfl : text = reader.text := by simpa using h
      exact ⟨[], row, by simp, hrow⟩
  | hcons node siblings ih =>
    have htaken : ∃ before after, row ++ [node] = before ++ after ∧
        (reader.take node).text = Node.textAll after := by
      unfold Reader.take
      split
      · exact ⟨row, [node], rfl, by simp⟩
      · exact ⟨[], row ++ [node], rfl, by simp [hrow]⟩
    obtain ⟨before, after, hsplit, htext⟩ := htaken
    have hrest : ∀ (next : Reader) (n : Nat),
        next.text = (reader.take node).text ++ Node.textAll (siblings.take n) →
        .finish text ∈ ofSiblings parent next (siblings.drop n) →
        ∃ before after, row ++ node :: siblings = before ++ after ∧ text = Node.textAll after := by
      intro next n hnext hmem
      have hrow : next.text = Node.textAll (after ++ siblings.take n) := by
        rw [hnext, htext, Node.textAll_append]
      obtain ⟨first, last, heq, hlast⟩ := ih n hrow hmem
      refine ⟨before ++ first, last, ?_, hlast⟩
      rw [List.append_assoc, ← heq, List.append_assoc, List.take_append_drop, ← List.append_assoc,
        ← hsplit, List.append_assoc, List.singleton_append]
    obtain ⟨result, hyields, heq⟩ := exists_yields parent reader node siblings
    rw [heq] at h
    cases hyields with
    | fail error => simp [resume] at h
    | pass next n hnext => exact hrest next n hnext (by simpa [resume] using h)
    | restrict conditions next hnext =>
      exact hrest next 0 (by simp [hnext]) (by simpa [resume] using h)
    | select next hword hnext => exact hrest next 0 (by simp [hnext]) (by simpa [resume] using h)
    | read clause reading comment next n hblank hread hnext =>
      exact hrest next n hnext (by simpa [resume] using h)

/-- A step that fails does so because something in the query is malformed. -/
theorem isMalformed_of_fail_mem {error : LineageError}
    (h : .fail error ∈ ofSiblings parent reader siblings) : error.IsMalformed := by
  induction siblings using forall_of_drop generalizing reader with
  | hnil =>
    rw [ofSiblings] at h
    split at h
    · cases List.mem_singleton.1 h
      exact ⟨_, _, rfl⟩
    · simp at h
  | hcons node siblings ih =>
    obtain ⟨result, hyields, heq⟩ := exists_yields parent reader node siblings
    rw [heq] at h
    cases hyields with
    | fail fault hmalformed =>
      cases List.mem_singleton.1 h
      exact hmalformed
    | pass next n _ => exact ih n (by simpa [resume] using h)
    | restrict conditions next _ => exact ih 0 (by simpa [resume] using h)
    | select next _ _ => exact ih 0 (by simpa [resume] using h)
    | read clause reading comment next n _ _ _ => exact ih n (by simpa [resume] using h)

theorem exists_of_select_mem (h : .select ∈ ofSiblings parent reader siblings) :
    ∃ node ∈ siblings, node.isWord "SELECT" = true := by
  induction siblings using forall_of_drop generalizing reader with
  | hnil =>
    rw [ofSiblings] at h
    split at h <;> simp at h
  | hcons node siblings ih =>
    have hrest : ∀ (next : Reader) (n : Nat), .select ∈ ofSiblings parent next (siblings.drop n) →
        ∃ other ∈ node :: siblings, other.isWord "SELECT" = true := by
      intro next n hmem
      obtain ⟨other, hother, hword⟩ := ih n hmem
      exact ⟨other, List.mem_cons_of_mem _ (List.mem_of_mem_drop hother), hword⟩
    obtain ⟨result, hyields, heq⟩ := exists_yields parent reader node siblings
    rw [heq] at h
    cases hyields with
    | fail error => simp [resume] at h
    | pass next n hnext => exact hrest next n (by simpa [resume] using h)
    | restrict conditions next hnext => exact hrest next 0 (by simpa [resume] using h)
    | select next hword hnext => exact ⟨node, List.mem_cons_self, hword⟩
    | read clause reading comment next n hblank hread hnext =>
      exact hrest next n (by simpa [resume] using h)

end Step

namespace Reader

/-- Entries are read behind `WITH`: one node yields them only if that is what is remembered, and
only at the keyword is it remembered from then on. -/
structure FromWith (reader : Reader) (node : Node) (result : List Step × Option (Reader × Nat)) :
    Prop where
  entries : ∀ clause nodes comment text,
    .read clause (.entries nodes) comment text ∈ result.1 → reader.clause = .withList
  next : ∀ other n, result.2 = some (other, n) → other.clause = .withList →
    reader.clause = .withList ∨ node.isCte = true

theorem clause_of_read {node : Node} {clause : Clause} {nodes : List Node}
    (h : node.read clause = .ok (.entries nodes)) : clause = .withList := by
  cases clause with
  | withList => rfl
  | onCondition =>
    rw [Node.read] at h
    cases hfound : node.items.mapM Node.conditions <;> rw [hfound] at h <;> cases h
  | _ => cases h

section

variable {reader : Reader} {node : Node}

theorem FromWith.ended (error : LineageError) :
    reader.FromWith node ([.fail error], none) := by
  refine ⟨by simp, fun other n hother => ?_⟩
  cases hother

theorem FromWith.kept {steps : List Step} {next : Reader} {n : Nat}
    (hsteps : ∀ clause reading comment text, .read clause reading comment text ∉ steps)
    (hclause : next.clause = reader.clause) : reader.FromWith node (steps, some (next, n)) := by
  refine ⟨fun clause nodes comment text hmem => absurd hmem (hsteps _ _ _ _), ?_⟩
  intro other m hother hwith
  cases hother
  exact Or.inl (hclause.symm.trans hwith)

theorem FromWith.part {clause : Clause} {reading : Reading} {comment text : String}
    {next : Reader} {n : Nat}
    (hreading : ∀ nodes, reading = .entries nodes → reader.clause = .withList) :
    reader.FromWith node ([.read clause reading comment text], some (next.afterPart, n)) := by
  refine ⟨fun other nodes _ _ hmem => ?_, fun other m hother hwith => ?_⟩
  · cases List.mem_singleton.1 hmem
    exact hreading nodes rfl
  · cases hother
    cases hwith

end

theorem fromWith_advance (reader : Reader) (node : Node) (siblings : List Node) :
    reader.FromWith node (reader.advance node siblings) := by
  have htaken := reader.clause_take node
  cases reader.meets node with
  | passed h =>
    rw [advance_of_passed h]
    exact .kept (by simp) htaken
  | comment h =>
    rw [advance_of_comment h]
    exact .kept (by simp) htaken
  | order h =>
    rw [advance_of_order h]
    exact .kept (by simp) htaken
  | restriction h =>
    rw [advance_of_restriction h]
    split
    · exact .ended _
    split
    · exact .ended _
    · exact .kept (by simp) htaken
    · exact .kept (by simp) htaken
  | keyword h horder =>
    rw [advance_of_keyword h horder]
    split
    · refine ⟨by simp, fun other n hother hwith => ?_⟩
      cases hother
      cases hwith
    split
    · exact .kept (by simp) htaken
    next clause hclause =>
    split
    · exact .ended _
    · refine ⟨by split <;> simp, fun other n hother hwith => Or.inr ?_⟩
      cases hother
      exact begins_of_clauseAfter? (hclause.trans (congrArg some hwith))
  | operand hclause hkind =>
    rw [advance_of_operand hclause hkind]
    exact .part fun nodes hnodes => Reading.noConfusion hnodes
  | part h hoperand =>
    rw [advance_of_legible h hoperand]
    split
    · exact .ended _
    · next reading hread =>
      refine .part fun nodes hnodes => ?_
      rw [hnodes] at hread
      exact clause_of_read hread

end Reader

namespace Step

/-- Entries are read behind a `WITH` only. -/
theorem exists_isCte_of_entries_mem {parent : Node} {reader : Reader} {siblings : List Node}
    {clause : Clause} {nodes : List Node} {comment text : String}
    (h : .read clause (.entries nodes) comment text ∈ ofSiblings parent reader siblings) :
    reader.clause = .withList ∨ ∃ node ∈ siblings, node.isCte = true := by
  induction siblings using forall_of_drop generalizing reader with
  | hnil =>
    rw [ofSiblings] at h
    split at h <;> simp at h
  | hcons node siblings ih =>
    have hfrom := reader.fromWith_advance node siblings
    rw [ofSiblings_cons] at h
    generalize reader.advance node siblings = result at h hfrom
    obtain ⟨steps, next?⟩ := result
    cases next? with
    | none => exact Or.inl (hfrom.entries _ _ _ _ h)
    | some next =>
      obtain ⟨next, n⟩ := next
      rcases List.mem_append.1 h with h | h
      · exact Or.inl (hfrom.entries _ _ _ _ h)
      · rcases ih n h with hwith | ⟨other, hother, hcte⟩
        · exact (hfrom.next next n rfl hwith).imp_right fun hcte => ⟨node, List.mem_cons_self, hcte⟩
        · exact Or.inr ⟨other, List.mem_cons_of_mem _ (List.mem_of_mem_drop hother), hcte⟩

end Step

end QueryLineage
