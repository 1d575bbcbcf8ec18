import QueryLineage.Proofs.Clause.Closing
import QueryLineage.Proofs.Clause.Named
import QueryLineage.Proofs.Clause.Reports

/-!
# The text of a query

A query with one `SELECT` and without a join is read into steps of which the last one shows all of
its text from the keyword on. The mark that ends the query is read along with it.
-/

namespace QueryLineage

open Text

namespace LexRule

theorem class?_of_wordKind {word rest : List Char} {keywordClass : KeywordClass}
    (h : wordKind word rest = .keyword keywordClass) :
    Keyword.class? (String.ofList word) = some keywordClass := by
  unfold wordKind at h
  dsimp only at h
  split at h
  · cases h
  · split at h
    · cases h
    · cases hclass : Keyword.class? (String.ofList word) with
      | none => rw [hclass] at h; cases h
      | some other => rw [hclass] at h; cases h; rfl

/-- Only a word begins a statement or a list of common tables. -/
theorem class?_of_first? {cs : List Char} {keywordClass : KeywordClass} {n : Nat}
    (h : first? cs = some (.keyword keywordClass, n)) (hclass : keywordClass ≠ .generic) :
    Keyword.class? (String.ofList (cs.take n)) = some keywordClass := by
  obtain ⟨rule, hrule, -, hkind⟩ := exists_rule_of_first? h
  simp only [all, List.mem_cons, List.not_mem_nil, or_false] at hrule
  rcases hrule with rfl | rfl | rfl | rfl | rfl | rfl | rfl | rfl | rfl | rfl | rfl | rfl | rfl |
    rfl | rfl
  case inr.inr.inr.inr.inr.inr.inr.inr.inr.inr.inr.inr.inr.inr => exact class?_of_wordKind hkind
  all_goals cases hkind
  exact absurd rfl hclass

end LexRule

theorem Lexeme.Sits.class?_eq {lexeme : Lexeme} {next? : Option Lexeme} (h : Sits lexeme next?)
    {keywordClass : KeywordClass} (hkind : lexeme.kind = .keyword keywordClass)
    (hclass : keywordClass ≠ .generic) : Keyword.class? lexeme.text = some keywordClass := by
  obtain ⟨rest, hfirst, -⟩ := h.read (by simp [hkind]) (by simp [hkind])
  rw [hkind] at hfirst
  have hword := LexRule.class?_of_first? hfirst hclass
  rwa [List.take_left' rfl, String.ofList_toList] at hword

/-- A text whose single characters in upper case make up a word of ASCII is that word in upper
case. -/
theorem upper_eq_of_map_toUpper {text word : String} (hword : ∀ c ∈ word.toList, c.toNat < 0x80)
    (h : text.toList.map Char.toUpper = word.toList) : upper text = word := by
  have hupper : ∀ c ∈ text.toList, upperChar c = [c.toUpper] := by
    intro c hc
    have hmem : c.toUpper ∈ word.toList := h ▸ List.mem_map_of_mem hc
    by_cases hlow : c.toNat < 0x80
    · exact upperChar_eq_toUpper hlow
    · rw [toUpper_eq_self hlow] at hmem
      exact absurd (hword c hmem) hlow
  rw [upper, upperChars, List.flatMap_def, List.map_congr_left hupper, ← List.flatMap_def,
    ← List.map_eq_flatMap, h, String.ofList_toList]

namespace Node

theorem clauseAfter?_of_spelled {lexemes : List Lexeme} (hseated : Lexeme.Seated lexemes)
    {keyword : Node} (hkeyword : keyword.Tidy lexemes) (hselect : keyword.isWord "SELECT" = true)
    (hspelled : keyword.text.toList.map Char.toUpper = "SELECT".toList) :
    Reader.clauseAfter? keyword = some .selectList := by
  have hcte : keyword.isCte = false := by
    rw [← Bool.not_eq_true]
    intro hcte
    have hkind : keyword.kind = .keyword .cte := beq_iff_eq.1 hcte
    cases keyword with
    | group kind children =>
      obtain rfl : kind = .keyword .cte := hkind
      cases hkeyword.shaped.here
    | leaf kind text =>
      obtain rfl : kind = .keyword .cte := hkind
      have hmem : ⟨.keyword .cte, text⟩ ∈ lexemes := hkeyword.fringe.subset (by simp)
      obtain ⟨next?, hsits⟩ := hseated.exists_sits hmem
      have hselected : Keyword.class? text = some .dml := by
        rw [text_leaf] at hspelled
        rw [Keyword.class?, upper_eq_of_map_toUpper (forall_mem_of_all (by decide)) hspelled]
        decide
      have hclass := hsits.class?_eq rfl KeywordClass.noConfusion
      exact KeywordClass.noConfusion (Option.some.inj (hclass.symm.trans hselected))
  rw [Reader.clauseAfter?, hcte, if_neg Bool.false_ne_true, if_pos hselect]

end Node

namespace Step

theorem exists_ofSiblings_passed {before : List Node}
    (h : ∀ node ∈ before, node.isFiller .all = true ∨ node.isPunctuation = true) (parent : Node)
    (reader : Reader) (siblings : List Node) :
    ∃ comment text, ofSiblings parent reader (before ++ siblings) =
      ofSiblings parent { reader with comment, text } siblings := by
  induction before generalizing reader with
  | nil => exact ⟨reader.comment, reader.text, rfl⟩
  | cons node before ih =>
    have hbefore := fun other hother => h other (List.mem_cons_of_mem node hother)
    obtain ⟨comment, text, hadvance⟩ := @Reader.exists_advance_filler reader node (before ++ siblings)
      (Bool.or_eq_true_iff.2 (h node List.mem_cons_self))
    obtain ⟨later, shown, hrest⟩ := ih hbefore { reader with comment, text }
    refine ⟨later, shown, ?_⟩
    rw [List.cons_append, ofSiblings_cons, hadvance]
    exact hrest

/-- Where no `SELECT` or join stands among the siblings, their text is added to what was read
before. -/
theorem exists_ofSiblings_eq_concat_finish {parent : Node} {reader : Reader} {siblings : List Node}
    (halone : ∀ node ∈ siblings, node.isWord "SELECT" = false ∧ node.isJoin = false)
    (hfail : ∀ error, .fail error ∉ ofSiblings parent reader siblings) :
    ∃ steps, ofSiblings parent reader siblings =
      steps ++ [.finish (reader.text ++ Node.textAll siblings)] := by
  induction siblings using forall_of_drop generalizing reader with
  | hnil =>
    obtain ⟨hend, -⟩ := ofSiblings_nil hfail parent reader.text
    exact ⟨[], by simp [hend]⟩
  | hcons node siblings ih =>
    have htaken : (reader.take node).text = reader.text ++ node.text := by
      obtain ⟨hselect, hjoin⟩ := halone node List.mem_cons_self
      simp [Reader.take, hselect, hjoin]
    obtain ⟨result, hyields, heq⟩ := exists_yields parent reader node siblings
    rw [heq] at hfail ⊢
    -- what one node takes, the siblings behind it included, is added to the text
    have hrest : ∀ (steps : List Step) (next : Reader) (n : Nat), result = (steps, some (next, n)) →
        next.text = (reader.take node).text ++ Node.textAll (siblings.take n) →
        ∃ first, resume parent siblings result =
          first ++ [.finish (reader.text ++ Node.textAll (node :: siblings))] := by
      rintro steps next n rfl hnext
      obtain ⟨later, hlater⟩ := ih n
        (fun other hother => halone other (List.mem_cons_of_mem _ (List.mem_of_mem_drop hother)))
        (fun error hmem => hfail error (List.mem_append_right steps hmem))
      refine ⟨steps ++ later, ?_⟩
      rw [resume, hlater, hnext, htaken, List.append_assoc, Node.textAll_cons]
      simp only [String.append_assoc, ← Node.textAll_append, List.take_append_drop]
    cases hyields with
    | fail error => exact absurd List.mem_cons_self (hfail error)
    | pass next n hnext => exact hrest [] next n rfl hnext
    | restrict conditions next hnext => exact hrest _ next 0 rfl (by simp [hnext])
    | select next hword hnext => exact hrest _ next 0 rfl (by simp [hnext])
    | read clause reading comment next n hblank hread hnext => exact hrest _ next n rfl hnext

end Step

namespace Node

/-- The first child that is neither filler nor the opening parenthesis is a `SELECT`. Beside it
there is no other one and no join. -/
structure OneSelect (node keyword : Node) (rest : List Node) : Prop where
  children : ∃ before, node.children = before ++ keyword :: rest ∧
    ∀ other ∈ before, other.isFiller .all = true ∨ other.isMark "(" = true
  select : keyword.isWord "SELECT" = true
  alone : ∀ other ∈ rest, other.isWord "SELECT" = false ∧ other.isJoin = false

/-- The steps of a query with one `SELECT` begin with it and end with its text. -/
theorem OneSelect.exists_ofNode_eq {node keyword : Node} {rest : List Node}
    (h : node.OneSelect keyword rest) (hclause : Reader.clauseAfter? keyword = some .selectList)
    (hfail : ∀ error, .fail error ∉ Step.ofNode node) :
    ∃ steps, Step.ofNode node = .select :: (steps ++ [.finish (textAll (keyword :: rest))]) ∧
      .select ∉ steps := by
  obtain ⟨before, hchildren, hbefore⟩ := h.children
  obtain ⟨comment, text, hopening⟩ := Step.exists_ofSiblings_passed
    (fun other hother =>
      (hbefore other hother).imp_right fun hmark => (Bool.and_eq_true _ _ ▸ hmark).1)
    node {} (keyword :: rest)
  have hsteps : Step.ofNode node = .select :: Step.ofSiblings node
      { clause := .selectList, comment, text := keyword.text } rest := by
    rw [Step.ofNode, hchildren, hopening, Step.ofSiblings_clause hclause (by decide) rfl]
    rfl
  rw [hsteps] at hfail ⊢
  obtain ⟨steps, hrest⟩ := Step.exists_ofSiblings_eq_concat_finish h.alone
    fun error hmem => hfail error (List.mem_cons_of_mem _ hmem)
  refine ⟨steps, by rw [hrest, textAll_cons], fun hmem => ?_⟩
  obtain ⟨other, hother, hword⟩ := Step.exists_of_select_mem
    (hrest ▸ List.mem_append_left _ hmem : Step.select ∈ Step.ofSiblings node
      { clause := .selectList, comment, text := keyword.text } rest)
  rw [(h.alone other hother).1] at hword
  cases hword

end Node

section

variable {name : String → Prop} {body : Node → Prop} {query : Node}

theorem Reading.Holds.of_mem_queries {reading : Reading} (h : reading.Holds name body)
    (hquery : query ∈ reading.queries) : body query := by
  cases reading with
  | sources found =>
    obtain ⟨source, hsource, heq⟩ := List.mem_filterMap.1 hquery
    have hholds := h source hsource
    cases source with
    | named text alias? => cases heq
    | derived alias? inner =>
      cases heq
      exact hholds.2
  | entries nodes =>
    obtain ⟨node, hnode, heq⟩ := List.mem_filterMap.1 hquery
    cases hentry : CommonTable.ofNode node with
    | error error => rw [hentry] at heq; cases heq
    | ok entry =>
      rw [hentry] at heq
      cases heq
      exact (h node hnode entry hentry).body
  | columns attributes => cases hquery
  | conditions attributes => cases hquery
  | nothing => cases hquery

/-- What holds of the queries in the steps of a query holds of the queries that are interpreted for
its parts. -/
theorem Node.of_mem_queries {node : Node} (h : ∀ step ∈ Step.ofNode node, step.Holds name body)
    (hquery : query ∈ node.queries) : body query := by
  obtain ⟨step, hstep, hmem⟩ := List.mem_flatMap.1 hquery
  have hholds := h step hstep
  cases step with
  | read clause reading comment text => exact Reading.Holds.of_mem_queries hholds hmem
  | select => cases hmem
  | restrict conditions => cases hmem
  | fail error => cases hmem
  | finish text => cases hmem

end

theorem CommonTable.kind_body {node : Node} {entry : CommonTable} (h : ofNode node = .ok entry) :
    entry.body.kind = .parenthesis := by
  unfold ofNode at h
  split at h
  · cases h
  · next head rest hchildren =>
    dsimp only at h
    have hfound : ∀ {siblings : List Node} {body : Node},
        siblings.find? (fun node => node.kind == .parenthesis) = some body →
          body.kind = .parenthesis := by
      intro siblings body hbody
      have hkind := List.find?_some hbody
      exact beq_iff_eq.1 hkind
    have hcalled : ∀ body ∈ (if head.kind = .function then ofCall head
        else (head.nameAndAlias.1, [], none)).2.2, body.kind = .parenthesis := by
      intro body hbody
      split at hbody
      · exact hfound (find?_eq_of_ofCall hbody)
      · cases hbody
    split at h
    · cases h
    · next body hbody =>
      cases h
      rcases Option.or_eq_some_iff.1 hbody with hbody | ⟨-, hbody⟩
      · exact hcalled body hbody
      · exact hfound hbody

namespace Node

theorem kind_of_subselect? {node body : Node} (h : node.subselect? = some body) :
    body.kind = .parenthesis := by
  have hkind : ∀ other : Node, other.isSubselect = true → other.kind = .parenthesis :=
    fun other hother => beq_iff_eq.1 (Bool.and_eq_true _ _ ▸ hother).1
  unfold subselect? at h
  split at h
  · next hself =>
    cases h
    exact hkind node hself
  · split at h
    · exact hkind body (Option.filter_eq_some_iff.1 h).2
    · cases h

theorem holds_read_parenthesis {node : Node} {clause : Clause} {reading : Reading}
    (h : node.read clause = .ok reading) :
    reading.Holds (fun _ => True) fun body => body.kind = .parenthesis := by
  have hsources : (Reading.sources (node.items.map source)).Holds (fun _ => True)
      fun body => body.kind = .parenthesis := by
    intro source hsource
    obtain ⟨item, -, rfl⟩ := List.mem_map.1 hsource
    unfold Node.source
    split
    · next body hbody => exact ⟨fun _ _ => trivial, kind_of_subselect? hbody⟩
    · exact ⟨trivial, fun _ _ => trivial⟩
  cases clause with
  | outside => cases h; trivial
  | selectList => cases h; trivial
  | fromList => cases h; exact hsources
  | joinList => cases h; exact hsources
  | withList =>
    cases h
    exact fun item _ entry hentry => ⟨trivial, CommonTable.kind_body hentry⟩
  | onCondition =>
    cases hfound : node.items.mapM conditions with
    | error error => rw [read, hfound] at h; cases h
    | ok found => rw [read, hfound] at h; cases h; trivial

theorem kind_of_mem_queries {node query : Node} (h : query ∈ node.queries) :
    query.kind = .parenthesis :=
  of_mem_queries (Step.holds_ofSiblings fun _ _ _ _ _ => holds_read_parenthesis) h

/-- A query inside a tidy one is tidy itself, and it stands in parentheses. -/
theorem IsInside.tidy {lexemes : List Lexeme} (hseated : Lexeme.Seated lexemes) {query outer : Node}
    (h : query.IsInside outer) (houter : ∀ child ∈ outer.children, child.Tidy lexemes) :
    query.Tidy lexemes ∧ query.kind = .parenthesis := by
  have htidy : ∀ {inner outer : Node}, inner ∈ outer.queries →
      (∀ child ∈ outer.children, child.Tidy lexemes) → inner.Tidy lexemes :=
    fun hinner hchildren =>
      (of_mem_queries (hseated.anyNaming.holds_ofNode_steps hchildren) hinner).1
  induction h with
  | part hquery => exact ⟨htidy hquery houter, kind_of_mem_queries hquery⟩
  | deeper hmiddle _ ih => exact ih fun _ => (htidy hmiddle houter).child

end Node

end QueryLineage
