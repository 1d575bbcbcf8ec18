import QueryLineage.Proofs.Clause.Joined
import QueryLineage.Proofs.Clause.Taken

/-!
# Chains of joins

A query joins one source after the other, each behind a `JOIN` and with its conditions behind an
`ON`. Each source is read once, in its place, if the conditions before the next `JOIN` end before it.
-/

namespace QueryLineage

open Text

namespace Node

/-- Every operand in the row has its condition within the row, when `rest` stands behind it. -/
def Contained (row rest : List Node) : Prop :=
  ∀ before operand siblings, row = before ++ operand :: siblings →
    operand.kind = .identifier ∨ operand.kind = .name →
    (keywordCondition operand (siblings ++ rest)).2 ≤ siblings.length

/-- No condition of keywords that begins in the row runs on behind it. -/
def endsWithin : List Node → Bool
  | [] => true
  | node :: siblings =>
    (!(node.isKind .identifier || node.isKind .name) || !runsOn siblings) && endsWithin siblings

theorem contained_nil (row : List Node) : Contained row [] := by
  intro before operand siblings _ _
  have hle := keywordCondition_le operand siblings
  rwa [List.append_nil]

theorem contained_of_endsWithin {row : List Node} (h : endsWithin row = true) {keyword : Node}
    (hkeyword : keyword.isKeyword = true) (hconnective : keyword.isConnective = false)
    (after : List Node) : Contained row (keyword :: after) := by
  intro before operand siblings hrow hoperand
  induction before generalizing row with
  | nil =>
    subst hrow
    rw [List.nil_append, endsWithin, Bool.and_eq_true] at h
    have hkind : (operand.isKind .identifier || operand.isKind .name) = true := by
      simpa [isKind] using hoperand
    rw [hkind] at h
    apply Nat.le_of_not_lt
    rw [lt_keywordCondition_iff hkeyword hconnective]
    simpa using h.1
  | cons other before ih =>
    subst hrow
    rw [List.cons_append, endsWithin, Bool.and_eq_true] at h
    exact ih h.2 rfl

theorem Contained.drop {node : Node} {siblings rest : List Node}
    (h : Contained (node :: siblings) rest) (n : Nat) : Contained (siblings.drop n) rest := by
  intro before operand others hrow
  refine h (node :: (siblings.take n ++ before)) operand others ?_
  rw [List.cons_append, List.append_assoc, ← hrow, List.take_append_drop]

end Node

namespace Step

/-- The step reads no source and no entry of a `WITH`, and it does not fail. -/
def isQuiet : Step → Bool
  | select | restrict _ | finish _ => true
  | read _ (.columns _) _ _ | read _ (.conditions _) _ _ | read _ .nothing _ _ => true
  | read _ (.sources _) _ _ | read _ (.entries _) _ _ | fail _ => false

/-- The steps read the sources `found`, each in its clause, and nothing else that registers a
table by its name. -/
inductive Sources : List Step → List (Clause × String) → Prop
  | nil : Sources [] []
  | quiet {step : Step} {steps : List Step} {found : List (Clause × String)}
      (hquiet : step.isQuiet = true) (h : Sources steps found) : Sources (step :: steps) found
  | source {steps : List Step} {found : List (Clause × String)} (clause : Clause) (name : String)
      (alias? : Option String) (comment text : String) (h : Sources steps found) :
      Sources (read clause (.sources [.named name alias?]) comment text :: steps)
        ((clause, name) :: found)

theorem Sources.append {first steps : List Step} {found : List (Clause × String)}
    (hfirst : ∀ step ∈ first, step.isQuiet = true) (h : Sources steps found) :
    Sources (first ++ steps) found := by
  induction first with
  | nil => exact h
  | cons step first ih =>
    exact .quiet (hfirst step List.mem_cons_self)
      (ih fun other hother => hfirst other (List.mem_cons_of_mem _ hother))

end Step

namespace Reader

/-- Where a reading stands among siblings that hold no source: in a select list, outside of all
clauses, or in the conditions of a join, which is possible only if `on`. -/
structure Apart (on : Bool) (reader : Reader) : Prop where
  clause : reader.clause = .outside ∨ reader.clause = .selectList ∨
    on = true ∧ reader.clause = .onCondition
  off : on = false → reader.awaiting = false ∧ reader.conditioned = false

/-- What a node yields that is neither a source nor the keyword of a clause. -/
inductive Passes (on : Bool) (node : Node) (siblings : List Node) :
    List Step × Option (Reader × Nat) → Prop
  | fail (error : LineageError) : Passes on node siblings ([.fail error], none)
  | pass (next : Reader) (hnext : next.Apart on) : Passes on node siblings ([], some (next, 0))
  | step (step : Step) (hquiet : step.isQuiet = true) (next : Reader) (hnext : next.Apart on)
      (n : Nat) (hn : n = 0 ∨ on = true ∧ (node.kind = .identifier ∨ node.kind = .name) ∧
        n = (Node.keywordCondition node siblings).2) :
      Passes on node siblings ([step], some (next, n))

variable {on : Bool} {reader : Reader} {node : Node}

theorem Apart.take (h : reader.Apart on) (node : Node) : (reader.take node).Apart on := by
  unfold Reader.take
  split <;> exact ⟨h.clause, h.off⟩

theorem Apart.afterPart (h : reader.Apart on) : reader.afterPart.Apart on := by
  refine ⟨Or.inl rfl, fun hon => ?_⟩
  obtain ⟨hawaiting, -⟩ := h.off hon
  rcases h.clause with hclause | hclause | ⟨hon', -⟩
  · simp [Reader.afterPart, hawaiting, hclause]
  · simp [Reader.afterPart, hawaiting, hclause]
  · rw [hon] at hon'
    cases hon'

/-- What is read there is no source. -/
theorem Apart.isQuiet_read (h : reader.Apart on) {reading : Reading}
    (hread : node.read reader.clause = .ok reading) (comment text : String) :
    (Step.read reader.clause reading comment text).isQuiet = true := by
  rcases h.clause with hclause | hclause | ⟨-, hclause⟩
  · rw [hclause] at hread
    cases hread
    rfl
  · rw [hclause] at hread
    cases hread
    rfl
  · rw [hclause, Node.read] at hread
    cases hfound : node.items.mapM Node.conditions with
    | error error =>
      rw [hfound] at hread
      cases hread
    | ok found =>
      rw [hfound] at hread
      cases hread
      rfl

theorem Apart.passes_advance (h : reader.Apart on) (hopens : node.opensClause = false)
    (siblings : List Node) : Passes on node siblings (reader.advance node siblings) := by
  have htake := h.take node
  rw [Node.opensClause, Bool.or_eq_false_iff, Option.isSome_eq_false_iff,
    Option.isNone_iff_eq_none] at hopens
  have hunconditioned : ({ reader.take node with conditioned := false } : Reader).Apart on :=
    ⟨htake.clause, fun hon => ⟨(htake.off hon).1, rfl⟩⟩
  cases reader.meets node with
  | passed hnode =>
    rw [advance_of_passed hnode]
    exact .pass _ htake
  | comment hnode =>
    rw [advance_of_comment hnode]
    exact .pass _ ⟨htake.clause, htake.off⟩
  | order horder =>
    rw [hopens.2] at horder
    cases horder
  | restriction hnode =>
    rw [advance_of_restriction hnode]
    split
    · exact .fail _
    split
    · exact .fail _
    · exact .pass _ hunconditioned
    · exact .step _ rfl _ hunconditioned 0 (Or.inl rfl)
  | keyword hnode horder =>
    rw [advance_of_keyword hnode horder, hopens.1]
    split
    · next hgoes =>
      rw [Bool.and_eq_true] at hgoes
      cases on with
      | false =>
        rw [(h.off rfl).2] at hgoes
        cases hgoes.1
      | true => exact .pass _ ⟨Or.inr (Or.inr ⟨rfl, rfl⟩), by simp⟩
    · exact .pass _ hunconditioned
  | operand hcondition hkind =>
    have hon : on = true := by
      rcases h.clause with hclause | hclause | ⟨hon, -⟩
      · rw [hcondition] at hclause
        cases hclause
      · rw [hcondition] at hclause
        cases hclause
      · exact hon
    rw [advance_of_operand hcondition hkind]
    refine .step _ rfl _ (Apart.afterPart ?_) _ (Or.inr ⟨hon, hkind, rfl⟩)
    exact ⟨htake.clause, htake.off⟩
  | part hnode hoperand =>
    rw [advance_of_legible hnode hoperand]
    split
    · exact .fail _
    · next reading hread =>
      exact .step _ (h.isQuiet_read hread _ _) _ htake.afterPart 0 (Or.inl rfl)

end Reader

namespace Step

variable {on : Bool} {parent : Node} {reader : Reader} {row rest : List Node}

/-- A row without the keyword of a clause, and with all of its conditions within, holds no source. -/
theorem exists_quiet (hopens : ∀ node ∈ row, node.opensClause = false)
    (hcontained : on = true → Node.Contained row rest) (hreader : reader.Apart on)
    (hfail : ∀ error, .fail error ∉ ofSiblings parent reader (row ++ rest)) :
    ∃ steps next, ofSiblings parent reader (row ++ rest) = steps ++ ofSiblings parent next rest ∧
      (∀ step ∈ steps, step.isQuiet = true) ∧ next.Apart on := by
  induction row using forall_of_drop generalizing reader with
  | hnil => exact ⟨[], reader, rfl, by simp, hreader⟩
  | hcons node siblings ih =>
    have hothers : ∀ n, ∀ other ∈ siblings.drop n, other.opensClause = false :=
      fun n other hother => hopens other (List.mem_cons_of_mem _ (List.mem_of_mem_drop hother))
    have hdropped : ∀ n, on = true → Node.Contained (siblings.drop n) rest :=
      fun n hon => (hcontained hon).drop n
    have hpasses := hreader.passes_advance (hopens node List.mem_cons_self) (siblings ++ rest)
    rw [List.cons_append, ofSiblings_cons] at hfail ⊢
    generalize reader.advance node (siblings ++ rest) = result at hpasses hfail
    cases hpasses with
    | fail error => exact absurd List.mem_cons_self (hfail error)
    | pass next hnext =>
      exact ih 0 (hothers 0) (hdropped 0) hnext hfail
    | step step hquiet next hnext n hn =>
      have hle : n ≤ siblings.length := by
        rcases hn with rfl | ⟨hon, hoperand, rfl⟩
        · exact Nat.zero_le _
        · exact hcontained hon [] node siblings rfl hoperand
      rw [resume, List.drop_append_of_le_length hle] at hfail ⊢
      obtain ⟨steps, last, heq, hsteps, hlast⟩ := ih n (hothers n) (hdropped n) hnext
        fun error hmem => hfail error (List.mem_append_right _ hmem)
      refine ⟨step :: steps, last, by rw [heq]; rfl, ?_, hlast⟩
      intro other hother
      rcases List.mem_cons.1 hother with rfl | hother
      · exact hquiet
      · exact hsteps other hother

theorem exists_fillers (parent : Node) (rest : List Node)
    (hrow : ∀ node ∈ row, node.isFiller .all = true) (clause : Clause) (comment text : String) :
    ∃ later shown, ofSiblings parent { clause, comment, text } (row ++ rest) =
      ofSiblings parent { clause, comment := later, text := shown } rest :=
  exists_passed parent (fun node hnode =>
    ⟨Node.opensClause_of_not_keyword (Node.not_keyword_of_filler (hrow node hnode)),
      by rw [hrow node hnode]; rfl⟩) clause comment text rest

theorem exists_clause {keyword : Node} {clause : Clause}
    (hclause : Reader.clauseAfter? keyword = some clause) (hwith : clause ≠ .withList)
    (hfail : ∀ error, .fail error ∉ ofSiblings parent reader (keyword :: rest)) :
    ∃ text, ofSiblings parent reader (keyword :: rest) =
      (if clause = .selectList then [.select] else []) ++ ofSiblings parent
        { clause, awaiting := clause == .onCondition, comment := reader.comment, text } rest := by
  have hawaiting : reader.awaiting = false := by
    rw [ofSiblings_cons, Reader.advance_of_clauseAfter? hclause hwith] at hfail
    cases hawaiting : reader.awaiting with
    | false => rfl
    | true =>
      rw [hawaiting, if_pos rfl] at hfail
      exact absurd List.mem_cons_self (hfail _)
  exact ⟨_, ofSiblings_clause hclause hwith hawaiting parent rest⟩

end Step

namespace Node

/-- The rows of sources that are joined one after the other. The conditions of each end before the
next one, if there is one. -/
inductive JoinChain : List Node → List String → Prop
  | nil : JoinChain [] []
  | join {keyword on : Node} {gap children space conditions rest : List Node} {name : String}
      {alias? : Option String} {names : List String}
      (hkeyword : Reader.clauseAfter? keyword = some .joinList)
      (hgap : ∀ node ∈ gap, node.isFiller .all = true)
      (hsource : (group .identifier children).source = .named name alias?)
      (hspace : ∀ node ∈ space, node.isFiller .all = true)
      (hon : Reader.clauseAfter? on = some .onCondition)
      (hopens : ∀ node ∈ conditions, node.opensClause = false)
      (hends : rest = [] ∨ endsWithin conditions = true)
      (hrest : JoinChain rest names) :
      JoinChain (keyword :: (gap ++ group .identifier children ::
        (space ++ on :: (conditions ++ rest)))) (name :: names)

/-- The row of a query that joins the sources `names` to a first one. -/
inductive JoinQuery : List Node → String → List String → Prop
  | mk {select source : Node} {filler items gap children space chain : List Node} {first : String}
      {alias? : Option String} {names : List String}
      (hfiller : ∀ node ∈ filler, node.isFiller .all = true)
      (hselect : Reader.clauseAfter? select = some .selectList)
      (hitems : ∀ node ∈ items, node.opensClause = false)
      (hfrom : Reader.clauseAfter? source = some .fromList)
      (hgap : ∀ node ∈ gap, node.isFiller .all = true)
      (hsource : (group .identifier children).source = .named first alias?)
      (hspace : ∀ node ∈ space, node.isFiller .all = true)
      (hchain : JoinChain chain names) :
      JoinQuery (filler ++ select :: (items ++ source :: (gap ++ group .identifier children ::
        (space ++ chain)))) first names

/-- What stands behind the conditions of a join lets them end where they end. -/
theorem JoinChain.contained {conditions rest : List Node} {names : List String}
    (h : JoinChain rest names) (hends : rest = [] ∨ endsWithin conditions = true) :
    Contained conditions rest := by
  cases h with
  | nil => exact contained_nil conditions
  | join hkeyword =>
    obtain ⟨hword, hconnective, -⟩ := Reader.keyword_of_clauseAfter? hkeyword (by decide)
    exact contained_of_endsWithin (hends.resolve_left (by simp)) hword hconnective _

end Node

namespace Step

variable {parent : Node} {row : List Node} {first : String} {names : List String}

/-- Behind a filler, a source is read in the clause that has begun. -/
theorem exists_source (parent : Node) (rest : List Node) {clause : Clause}
    (hclause : clause = .fromList ∨ clause = .joinList)
    {gap children space : List Node} {name : String} {alias? : Option String}
    (hgap : ∀ node ∈ gap, node.isFiller .all = true)
    (hsource : (Node.group .identifier children).source = .named name alias?)
    (hspace : ∀ node ∈ space, node.isFiller .all = true) (comment text : String) :
    ∃ before shown later last, ofSiblings parent { clause, comment, text }
        (gap ++ .group .identifier children :: (space ++ rest)) =
      .read clause (.sources [.named name alias?]) before shown ::
        ofSiblings parent { comment := later, text := last } rest := by
  obtain ⟨before, shown, hfillers⟩ := exists_fillers parent
    (.group .identifier children :: (space ++ rest)) hgap clause comment text
  obtain ⟨later, last, hlater⟩ := exists_fillers parent rest hspace .outside before
    (shown ++ (Node.group .identifier children).text)
  refine ⟨before, shown ++ (Node.group .identifier children).text, later, last, ?_⟩
  rw [hfillers, ofSiblings_source_cons parent before shown hclause, hsource, hlater]

/-- Each source of a chain is read once, in its place. -/
theorem sources_of_joinChain (h : Node.JoinChain row names) {on : Bool} {reader : Reader}
    (hreader : reader.Apart on) (hfail : ∀ error, .fail error ∉ ofSiblings parent reader row) :
    Sources (ofSiblings parent reader row) (names.map (.joinList, ·)) := by
  induction h generalizing reader on with
  | nil =>
    rw [ofSiblings] at hfail ⊢
    split at hfail
    · exact absurd List.mem_cons_self (hfail _)
    · next hawaiting =>
      rw [if_neg hawaiting]
      exact .quiet rfl .nil
  | @join keyword opener gap children space conditions rest name alias? names hkeyword hgap hsource
      hspace hopener hopens hends hrest ih =>
    obtain ⟨text, hjoin⟩ := exists_clause hkeyword (by decide) hfail
    rw [if_neg (by decide), List.nil_append] at hjoin
    obtain ⟨before, shown, later, last, hread⟩ := exists_source parent
      (opener :: (conditions ++ rest)) (Or.inr rfl) hgap hsource hspace reader.comment text
    have hawaiting : (Clause.joinList == Clause.onCondition) = false := by decide
    rw [hjoin, hawaiting, hread] at hfail ⊢
    have hbehind : ∀ error, .fail error ∉ ofSiblings parent { comment := later, text := last }
        (opener :: (conditions ++ rest)) :=
      fun error hmem => hfail error (List.mem_cons_of_mem _ hmem)
    obtain ⟨opened, hopened⟩ := exists_clause hopener (by decide) hbehind
    rw [if_neg (by decide), List.nil_append] at hopened
    rw [hopened] at hbehind ⊢
    have happart : Reader.Apart true
        { clause := .onCondition, awaiting := Clause.onCondition == .onCondition, comment := later,
          text := opened } :=
      ⟨Or.inr (Or.inr ⟨rfl, rfl⟩), by simp⟩
    obtain ⟨steps, next, hsteps, hquiet, hnext⟩ :=
      exists_quiet hopens (fun _ => hrest.contained hends) happart hbehind
    rw [hsteps] at hbehind ⊢
    exact .source .joinList name alias? before shown (.append hquiet
      (ih hnext fun error hmem => hbehind error (List.mem_append_right _ hmem)))

theorem sources_of_joinQuery (h : Node.JoinQuery row first names) {comment text : String}
    (hfail : ∀ error, .fail error ∉ ofSiblings parent { comment, text } row) :
    Sources (ofSiblings parent { comment, text } row)
      ((.fromList, first) :: names.map (.joinList, ·)) := by
  cases h with
  | @mk select source filler items gap children space chain first alias? names hfiller hselect hitems
      hfrom hgap hsource hspace hchain =>
    obtain ⟨later, shown, hlead⟩ := exists_fillers parent (select :: (items ++ source ::
      (gap ++ .group .identifier children :: (space ++ chain)))) hfiller .outside comment text
    rw [hlead] at hfail ⊢
    obtain ⟨begun, hbegun⟩ := exists_clause hselect (by decide) hfail
    rw [if_pos rfl, List.singleton_append] at hbegun
    rw [hbegun] at hfail ⊢
    have hlisted : ∀ error, .fail error ∉ ofSiblings parent
        { clause := .selectList, awaiting := Clause.selectList == .onCondition, comment := later,
          text := begun }
        (items ++ source :: (gap ++ .group .identifier children :: (space ++ chain))) :=
      fun error hmem => hfail error (List.mem_cons_of_mem _ hmem)
    have happart : Reader.Apart false
        { clause := .selectList, awaiting := Clause.selectList == .onCondition, comment := later,
          text := begun } :=
      ⟨Or.inr (Or.inl rfl), fun _ => ⟨rfl, rfl⟩⟩
    obtain ⟨steps, next, hsteps, hquiet, hnext⟩ := exists_quiet hitems (by simp) happart hlisted
    rw [hsteps] at hlisted ⊢
    have hbehind : ∀ error, .fail error ∉ ofSiblings parent next
        (source :: (gap ++ .group .identifier children :: (space ++ chain))) :=
      fun error hmem => hlisted error (List.mem_append_right _ hmem)
    obtain ⟨opened, hopened⟩ := exists_clause hfrom (by decide) hbehind
    rw [if_neg (by decide), List.nil_append] at hopened
    obtain ⟨before, taken, remark, last, hread⟩ := exists_source parent chain (Or.inl rfl) hgap
      hsource hspace next.comment opened
    have hawaiting : (Clause.fromList == Clause.onCondition) = false := by decide
    rw [hopened, hawaiting, hread] at hbehind ⊢
    refine .quiet rfl (.append hquiet (.source .fromList first alias? before taken ?_))
    have houtside : Reader.Apart false { comment := remark, text := last } :=
      ⟨Or.inl rfl, fun _ => ⟨rfl, rfl⟩⟩
    exact sources_of_joinChain hchain houtside
      fun error hmem => hbehind error (List.mem_cons_of_mem _ hmem)

end Step

end QueryLineage
