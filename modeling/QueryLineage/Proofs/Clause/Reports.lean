import QueryLineage.Clause.CommonTable
import QueryLineage.Proofs.Clause.Advance

/-!
# What a query can report

The errors that interpreting a query can end with show in the steps that it is read into and in the
steps of the queries inside it, but for the number of columns that a common table declares.
-/

namespace QueryLineage

/-- The queries that are interpreted for a reading. -/
def Reading.queries : Reading → List Node
  | sources found => found.filterMap fun
    | .derived _ query => some query
    | .named _ _ => none
  | entries nodes => nodes.filterMap fun node =>
    match CommonTable.ofNode node with
    | .ok entry => some entry.body
    | .error _ => none
  | columns _ | conditions _ | nothing => []

def Step.queries : Step → List Node
  | read _ reading _ _ => reading.queries
  | select | restrict _ | fail _ | finish _ => []

theorem Reading.mem_queries_sources {found : List Source} {alias? : Option String} {query : Node}
    (h : .derived alias? query ∈ found) : query ∈ (sources found).queries :=
  List.mem_filterMap.2 ⟨_, h, rfl⟩

theorem Reading.mem_queries_entries {nodes : List Node} {node : Node} {entry : CommonTable}
    (h : node ∈ nodes) (hentry : CommonTable.ofNode node = .ok entry) :
    entry.body ∈ (entries nodes).queries :=
  List.mem_filterMap.2 ⟨node, h, by rw [hentry]⟩

namespace Node

/-- The queries that are interpreted for the parts of a query. -/
def queries (query : Node) : List Node :=
  (Step.ofNode query).flatMap Step.queries

theorem mem_queries {query inner : Node} {clause : Clause} {reading : Reading}
    {comment text : String} (hread : .read clause reading comment text ∈ Step.ofNode query)
    (h : inner ∈ reading.queries) : inner ∈ query.queries :=
  List.mem_flatMap.2 ⟨_, hread, h⟩

/-- The query is interpreted in the course of interpreting `outer`, however deep inside it. -/
inductive IsInside : Node → Node → Prop
  | part {query outer : Node} (h : query ∈ outer.queries) : IsInside query outer
  | deeper {query middle outer : Node} (h : middle ∈ outer.queries)
      (hquery : IsInside query middle) : IsInside query outer

/-- The errors that interpreting a query can end with. -/
inductive Reports : Node → LineageError → Prop
  | step {node : Node} {error : LineageError} (h : .fail error ∈ Step.ofNode node) :
      Reports node error
  | entry {node part : Node} {clause : Clause} {nodes : List Node} {comment text : String}
      {error : LineageError} (hread : .read clause (.entries nodes) comment text ∈ Step.ofNode node)
      (hpart : part ∈ nodes) (h : CommonTable.ofNode part = .error error) : Reports node error
  | mismatch (node : Node) (table : String) (declared produced : Nat) :
      Reports node (.aliasCountMismatch table declared produced)
  | inner {node query : Node} {error : LineageError} (hquery : query ∈ node.queries)
      (h : Reports query error) : Reports node error

theorem not_isInside_of_queries_eq_nil {outer : Node} (h : outer.queries = []) (query : Node) :
    ¬ query.IsInside outer := by
  rintro (hquery | ⟨hmiddle, -⟩)
  · simp [h] at hquery
  · simp [h] at hmiddle

/-- A query that can be read at all is never reported to be unreadable. -/
theorem Reports.ne_parse {node : Node} {error : LineageError} (h : node.Reports error)
    (fault : ParseError) : error ≠ .parse fault := by
  induction h with
  | step hfail =>
    obtain ⟨_, _, rfl⟩ := Step.isMalformed_of_fail_mem hfail
    simp
  | entry _ _ hentry =>
    obtain ⟨_, _, rfl⟩ := (CommonTable.failsMalformed_ofNode _ _ hentry).1
    simp
  | mismatch => simp
  | inner _ _ ih => exact ih

/-- That an `ON` has no condition shows in the steps of the query or of one inside it. -/
theorem Reports.exists_fail_mem {node : Node} {error : LineageError} (h : node.Reports error)
    (hmisses : error.MissesCondition) :
    .fail error ∈ Step.ofNode node ∨
      ∃ query, query.IsInside node ∧ .fail error ∈ Step.ofNode query := by
  induction h with
  | step hfail => exact Or.inl hfail
  | entry _ _ hentry =>
    exact absurd hmisses (CommonTable.failsMalformed_ofNode _ _ hentry).2
  | mismatch =>
    obtain ⟨text, heq⟩ := hmisses
    cases heq
  | inner hquery _ ih =>
    right
    rcases ih hmisses with hfail | ⟨query, hinside, hfail⟩
    · exact ⟨_, .part hquery, hfail⟩
    · exact ⟨query, .deeper hquery hinside, hfail⟩

end Node

end QueryLineage
