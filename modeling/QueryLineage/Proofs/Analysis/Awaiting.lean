import QueryLineage.Proofs.Analysis.Appends
import QueryLineage.Proofs.Clause.Awaiting
import QueryLineage.Proofs.Outcome

/-!
# Joins without a condition

A query that reports nothing else is rejected for want of a condition exactly if one of its `ON`s
waits in vain, and it names the place where the waiting ended. Every such `ON` is followed by no
condition. But not every `ON` that no condition follows waits in vain: it stops waiting once a part
of a clause is read, also of one whose keyword is passed over.
-/

namespace QueryLineage

open Text

/-- A query of which an `ON` waits in vain is not interpreted without an error. -/
theorem Node.Misses.exists_error {node place : Node} (h : node.Misses place) (config : Config)
    (enclosing : Option Nat) (declared : Bool) (registry : Registry) :
    ∃ error after, (interpret config node enclosing declared).run registry =
      (.error error, after) := by
  have hfail := h.fail_mem
  obtain ⟨n, hn⟩ : ∃ n, node.depth = n + 1 := by
    cases hdepth : node.depth with
    | zero =>
      rw [Step.ofNode_of_children_eq_nil (Node.children_eq_nil_of_depth hdepth)] at hfail
      simp at hfail
    | succ n => exact ⟨n, rfl⟩
  rcases hrun : (interpret config node enclosing declared).run registry with ⟨result, after⟩
  cases result with
  | error error => exact ⟨error, after, rfl⟩
  | ok answer =>
    rw [interpret, hn, run_interpretWithin_eq_ok_iff] at hrun
    obtain ⟨last, hsteps⟩ := hrun
    exact absurd hfail (fail_not_mem_of_run hsteps _)

/-- Where nothing inside the query is to be rejected for want of a condition, the query itself is
rejected so only if one of its own `ON`s waits in vain. -/
theorem exists_misses_of_run {config : Config} {node : Node} {enclosing : Option Nat}
    {declared : Bool} {registry after : Registry} {error : LineageError}
    (h : (interpret config node enclosing declared).run registry = (.error error, after))
    (herror : error.MissesCondition)
    (hinner : ∀ query place : Node, query.IsInside node → ¬ query.Misses place) :
    ∃ place, node.Misses place ∧ error = .malformedAt .joinWithoutCondition place := by
  rcases (reports_of_run_interpretWithin h).exists_fail_mem herror with hown | ⟨query, hquery, hfail⟩
  · exact Node.exists_misses hown herror
  · obtain ⟨place, hmisses, -⟩ := Node.exists_misses hfail herror
    exact absurd hmisses (hinner query place hquery)

/-- If interpreting a query reports nothing but a missing condition, and no query inside it misses
one, then it reports this exactly if one of its own `ON`s waits in vain, with the text of the place
where the waiting ended. Whenever it does, one of its `ON`s is followed by no condition. -/
theorem run_interpret_misses (config : Config) (node : Node) (enclosing : Option Nat)
    (declared : Bool) (registry : Registry)
    (hother : ∀ error after, (interpret config node enclosing declared).run registry =
      (.error error, after) → error.MissesCondition)
    (hinner : ∀ query place : Node, query.IsInside node → ¬ query.Misses place) :
    (∀ text, (∃ after, (interpret config node enclosing declared).run registry =
        (.error (.malformed .joinWithoutCondition text), after)) ↔
      ∃ place, node.Misses place ∧ trim place.text = text) ∧
    ((∃ error after, (interpret config node enclosing declared).run registry =
        (.error error, after)) →
      ∃ before on rest, node.children = before ++ on :: rest ∧ on.isWord "ON" = true ∧
        Node.lacksCondition rest = true) := by
  constructor
  · intro text
    constructor
    · rintro ⟨after, hrun⟩
      obtain ⟨place, hmisses, heq⟩ := exists_misses_of_run hrun ⟨text, rfl⟩ hinner
      injection heq with _ htext
      exact ⟨place, hmisses, htext.symm⟩
    · rintro ⟨place, hmisses, rfl⟩
      obtain ⟨error, after, hrun⟩ := hmisses.exists_error config enclosing declared registry
      obtain ⟨other, hother, rfl⟩ := exists_misses_of_run hrun (hother error after hrun) hinner
      rw [Step.eq_of_fail_mem hmisses.fail_mem hother.fail_mem] at hrun
      exact ⟨after, hrun⟩
  · rintro ⟨error, after, hrun⟩
    obtain ⟨place, hmisses, -⟩ := exists_misses_of_run hrun (hother error after hrun) hinner
    exact hmisses.exists_lacksCondition

theorem run_interpret_misses_atEnd :
    (∃ after, (interpret {} (.group .statement Node.sourcesOn) none false).run .empty =
      (.error (.malformed .joinWithoutCondition "SELECT * FROM a JOIN b ON"), after)) ∧
    ∃ place, (Node.group .statement Node.sourcesOn).Misses place ∧
      trim place.text = "SELECT * FROM a JOIN b ON" := by
  have hrun : ((interpret {} (.group .statement Node.sourcesOn) none false).run .empty).1 =
      .error (.malformed .joinWithoutCondition "SELECT * FROM a JOIN b ON") := by
    decide +kernel
  have hreports : ∃ after, (interpret {} (.group .statement Node.sourcesOn) none false).run .empty =
      (.error (.malformed .joinWithoutCondition "SELECT * FROM a JOIN b ON"), after) :=
    ⟨_, Prod.ext hrun rfl⟩
  have hqueries : (Node.group .statement Node.sourcesOn).queries = [] := by decide +kernel
  have hmisses := run_interpret_misses {} (.group .statement Node.sourcesOn) none false .empty
    (fun error after h => by
      rw [h] at hrun
      cases hrun
      exact ⟨_, rfl⟩)
    (fun query _ hquery => absurd hquery (Node.not_isInside_of_queries_eq_nil hqueries query))
  exact ⟨hreports, (hmisses.1 _).1 hreports⟩

/-- An `ON` before a `LIMIT` is followed by no condition, and yet it is not rejected: the keyword is
passed over, and the number behind it is read as the part that the `ON` waits for. -/
theorem not_run_interpret_misses_limit : ¬ ∀ (config : Config) (sql : String) (tree : Node),
    Node.statementsOfText sql config.stripComments = .ok [tree] →
    (∀ error, analyze config sql = .error error → error.MissesCondition) →
    (∃ before on rest, tree.children = before ++ on :: rest ∧ on.isWord "ON" = true ∧
      Node.lacksCondition rest = true) →
    ∃ error, analyze config sql = .error error := by
  intro hall
  have htree : Node.statementsOfText "SELECT * FROM a JOIN b ON LIMIT 10" false =
      .ok [.group .statement (Node.sourcesOn ++ [Node.spaceNode, .leaf (.keyword .generic) "LIMIT",
        Node.spaceNode, .leaf .literal "10"])] := by
    decide +kernel
  obtain ⟨registry, hok⟩ : ∃ registry, analyze {} "SELECT * FROM a JOIN b ON LIMIT 10" =
      .ok registry :=
    exists_of_isOk (by decide +kernel)
  obtain ⟨error, herror⟩ := hall {} _ _ htree (by rw [hok]; simp)
    ⟨Node.sourcesOn.take 12, Node.onNode, _, rfl, by decide +kernel, by decide +kernel⟩
  rw [hok] at herror
  cases herror

end QueryLineage
