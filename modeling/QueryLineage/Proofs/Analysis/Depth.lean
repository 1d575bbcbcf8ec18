import QueryLineage.Proofs.Analysis.Run
import QueryLineage.Proofs.Clause.Named

/-!
# The depth of a query

A query is interpreted to its own depth. As the queries in its steps are less deep, more would change
nothing, and these queries may be interpreted to their own depth as well.
-/

namespace QueryLineage

section

variable {descend other : Node → Option Nat → Bool → Run Unit} (config : Config)
  {name : String → Prop} {body : Node → Prop}
  (h : ∀ node, body node → descend node = other node)
include h

theorem Source.resolve_congr {source : Source} (hsource : source.Holds name body) :
    source.resolve descend = source.resolve other := by
  cases source with
  | named text alias? => rfl
  | derived alias? query => rw [resolve, resolve, h query hsource.2]

theorem CommonTable.register_congr {node : Node}
    (hnode : ∀ entry, ofNode node = .ok entry → entry.Holds name body) (comment : String) :
    register descend config comment node = register other config comment node := by
  rw [register, register]
  cases hentry : ofNode node with
  | error error => rfl
  | ok entry =>
    have hread : (liftM (Except.ok entry : Except LineageError CommonTable) : Run CommonTable) =
        pure entry := rfl
    rw [hread, pure_bind, pure_bind, h entry.body (hnode entry hentry).body]

theorem Reading.resolve_congr {reading : Reading} (hreading : reading.Holds name body)
    (comment : String) :
    reading.resolve descend config comment = reading.resolve other config comment := by
  cases reading with
  | columns attributes => rfl
  | conditions attributes => rfl
  | nothing => rfl
  | sources found =>
    change found.mapM (Source.resolve descend) = found.mapM (Source.resolve other)
    induction found with
    | nil => rfl
    | cons source found ih =>
      rw [List.mapM_cons, List.mapM_cons, Source.resolve_congr h (hreading source List.mem_cons_self),
        ih fun source hsource => hreading source (List.mem_cons_of_mem _ hsource)]
  | entries nodes =>
    have hnodes : nodes.mapM (CommonTable.register descend config comment) =
        nodes.mapM (CommonTable.register other config comment) := by
      induction nodes with
      | nil => rfl
      | cons node nodes ih =>
        rw [List.mapM_cons, List.mapM_cons,
          CommonTable.register_congr config h (hreading node List.mem_cons_self),
          ih fun node hnode => hreading node (List.mem_cons_of_mem _ hnode)]
    rw [resolve, resolve, hnodes]

theorem Walk.step_congr {step : Step} (hstep : step.Holds name body) (walk : Walk) :
    Walk.step descend config walk step = Walk.step other config walk step := by
  cases step with
  | select => rfl
  | read clause reading comment text =>
    rw [Walk.step, Walk.step, Reading.resolve_congr config h hstep]
  | restrict conditions => rfl
  | fail error => rfl
  | finish text => rfl

theorem Walk.foldlM_step_congr {steps : List Step} (hsteps : ∀ step ∈ steps, step.Holds name body)
    (walk : Walk) :
    steps.foldlM (Walk.step descend config) walk = steps.foldlM (Walk.step other config) walk := by
  induction steps generalizing walk with
  | nil => rfl
  | cons step steps ih =>
    rw [List.foldlM_cons, List.foldlM_cons, Walk.step_congr config h (hsteps step List.mem_cons_self)]
    congr 1
    funext next
    exact ih (fun other hother => hsteps other (List.mem_cons_of_mem _ hother)) next

end

theorem Walk.foldlM_step_leaf (descend : Node → Option Nat → Bool → Run Unit) (config : Config)
    {node : Node} (hnode : node.depth = 0) (enclosing : Option Nat) (declared : Bool) :
    (do let _ ← (Step.ofNode node).foldlM (Walk.step descend config) (Walk.start enclosing declared)) =
      (pure () : Run Unit) := by
  have hsteps : Step.ofNode node = [.finish ""] := by
    cases node with
    | leaf kind text => rw [Step.ofNode, Node.children_leaf, Step.ofSiblings, if_neg Bool.false_ne_true]
    | group kind children => cases hnode
  have htext : Walk.selectText? "" = none := by decide
  rw [hsteps, List.foldlM_cons, Walk.step, Walk.finish, htext]
  cases enclosing <;> rfl

section

variable (config : Config) {lexemes : List Lexeme} (h : Lexeme.Seated lexemes)
include h

/-- A query is interpreted to its own depth wherever it is interpreted deep enough. -/
theorem interpretWithin_eq_interpret {n : Nat} {node : Node}
    (hchildren : ∀ child ∈ node.children, child.Tidy lexemes) (hdepth : node.depth ≤ n) :
    interpretWithin config n node = interpret config node := by
  induction n using Nat.strongRecOn generalizing node with
  | ind n ih =>
    funext enclosing declared
    rw [interpret]
    cases hnode : node.depth with
    | zero =>
      cases n with
      | zero => rfl
      | succ n => exact Walk.foldlM_step_leaf _ config hnode enclosing declared
    | succ k =>
      obtain ⟨m, rfl⟩ : ∃ m, n = m + 1 := ⟨n - 1, by omega⟩
      rw [interpretWithin, interpretWithin, Walk.foldlM_step_congr config (fun query hquery => ?_)
        (h.anyNaming.holds_ofNode_steps hchildren)]
      have hinner : ∀ depth, k ≤ depth → depth < m + 1 →
          interpretWithin config depth query = interpret config query := fun depth hle hlt =>
        ih depth hlt (fun _ => hquery.1.child) (by omega)
      rw [hinner m (by omega) (by omega), hinner k (by omega) (by omega)]

/-- The steps of a query are carried out with the interpretation of the queries in them. -/
theorem interpret_eq {node : Node} (hchildren : ∀ child ∈ node.children, child.Tidy lexemes)
    (enclosing : Option Nat) (declared : Bool) :
    interpret config node enclosing declared = (do
      let _ ← (Step.ofNode node).foldlM (Walk.step (interpret config) config)
        (Walk.start enclosing declared)) := by
  rw [interpret]
  cases hnode : node.depth with
  | zero => exact (Walk.foldlM_step_leaf _ config hnode enclosing declared).symm
  | succ n =>
    rw [interpretWithin, Walk.foldlM_step_congr config (fun query hquery => ?_)
      (h.anyNaming.holds_ofNode_steps hchildren)]
    exact interpretWithin_eq_interpret config h (fun _ => hquery.1.child) (by omega)

end

end QueryLineage
