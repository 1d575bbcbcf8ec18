import QueryLineage.Proofs.Tree.Pass

/-!
# The fringe of a tree

The parts of a tree that have no children, from left to right. A group without children is such a
part as well, with no text of its own, so that nothing in a tree goes unseen. Grouping keeps the
fringe of every row of siblings in which each node of the kind of a group has children: every pass
does, and so does what happens inside parentheses.
-/

namespace QueryLineage.Node

mutual

/-- The parts of the node without children, from left to right. -/
def fringe : Node → List Lexeme
  | leaf kind text => [⟨kind, text⟩]
  | group kind [] => [⟨kind, ""⟩]
  | group _ (child :: children) => child.fringe ++ fringeAll children

def fringeAll : List Node → List Lexeme
  | [] => []
  | node :: siblings => node.fringe ++ fringeAll siblings

end

@[simp] theorem fringe_leaf (k : Kind) (s : String) : (leaf k s).fringe = [⟨k, s⟩] := by
  simp [fringe]

@[simp] theorem fringeAll_nil : fringeAll [] = [] := by simp [fringeAll]

@[simp] theorem fringeAll_cons (n : Node) (ns : List Node) :
    fringeAll (n :: ns) = n.fringe ++ fringeAll ns := by simp [fringeAll]

@[simp] theorem fringeAll_append (ns ms : List Node) :
    fringeAll (ns ++ ms) = fringeAll ns ++ fringeAll ms := by
  induction ns with
  | nil => simp
  | cons n ns ih => simp [ih]

theorem mem_fringeAll_of_mem {node : Node} {siblings : List Node} {lexeme : Lexeme}
    (hnode : node ∈ siblings) (hlexeme : lexeme ∈ node.fringe) : lexeme ∈ fringeAll siblings := by
  induction siblings with
  | nil => cases hnode
  | cons other siblings ih =>
    rw [fringeAll_cons, List.mem_append]
    rcases List.mem_cons.1 hnode with rfl | hnode
    · exact Or.inl hlexeme
    · exact Or.inr (ih hnode)

theorem fringe_group {children : List Node} (kind : Kind) (h : children ≠ []) :
    (group kind children).fringe = fringeAll children := by
  obtain ⟨child, rest, rfl⟩ := List.exists_cons_of_ne_nil h
  simp [fringe]

@[simp] theorem fringe_group_cons (kind : Kind) (child : Node) (children : List Node) :
    (group kind (child :: children)).fringe = child.fringe ++ fringeAll children := by
  simp [fringe]

@[simp] theorem fringe_enclose (kind : Kind) (node : Node) (siblings : List Node) :
    (enclose kind node siblings).fringe = node.fringe ++ fringeAll siblings := by
  simp [enclose]

@[simp] theorem fringe_toNode (lexeme : Lexeme) : lexeme.toNode.fringe = [lexeme] := by
  simp [Lexeme.toNode]

mutual

theorem text_eq_textAll_fringe : ∀ node : Node, node.text = Lexeme.textAll node.fringe
  | leaf kind text => by simp
  | group kind [] => by simp [fringe]
  | group kind (child :: children) => by
    rw [text_group, textAll_cons, fringe_group_cons, Lexeme.textAll_append,
      text_eq_textAll_fringe child, textAll_eq_textAll_fringeAll children]

/-- A tree shows the text of its fringe. -/
theorem textAll_eq_textAll_fringeAll :
    ∀ nodes : List Node, textAll nodes = Lexeme.textAll (fringeAll nodes)
  | [] => by simp
  | node :: siblings => by
    simp [text_eq_textAll_fringe node, textAll_eq_textAll_fringeAll siblings]

end

/-- A node of the kind of a group has children. -/
def Filled (node : Node) : Prop :=
  node.kind.isGroup = true → node.children ≠ []

/-- Every node of the kind of a group, at any depth, has been made from at least one child. -/
inductive Built : Node → Prop
  | leaf {kind : Kind} {text : String} (h : kind.isGroup = false) : Built (leaf kind text)
  | group {kind : Kind} {children : List Node} (h : kind.isGroup = true → children ≠ [])
      (hc : ∀ child ∈ children, Built child) : Built (group kind children)

theorem Built.filled {node : Node} (h : Built node) : node.Filled := by
  cases h with
  | leaf h => intro hk; simp [h] at hk
  | group h _ => exact h

theorem filled_group_cons (kind : Kind) (child : Node) (children : List Node) :
    (group kind (child :: children)).Filled := by
  intro _
  simp

theorem filled_enclose (kind : Kind) (node : Node) (siblings : List Node) :
    (enclose kind node siblings).Filled :=
  filled_group_cons kind node siblings

/-- Attaching never loses a text, since an identifier is never a bare leaf. -/
theorem fringe_attach {node : Node} (h : node.Filled) (siblings : List Node) :
    (attach node siblings).fringe = node.fringe ++ fringeAll siblings := by
  unfold attach
  split
  · next children =>
    have hne : children ≠ [] := h rfl
    rw [fringe_group _ hne, fringe_group _ (List.append_ne_nil_of_left_ne_nil hne siblings),
      fringeAll_append]
  · exact absurd rfl (h rfl)
  · simp

theorem filled_attach {node : Node} (h : node.Filled) (siblings : List Node) :
    (attach node siblings).Filled := by
  unfold attach
  split
  · next children =>
    intro _
    exact List.append_ne_nil_of_left_ne_nil (h rfl) siblings
  · exact absurd rfl (h rfl)
  · exact filled_group_cons _ _ _

section

variable {extent : Node → List Node → Option Nat} {join : Node → List Node → Node}

theorem fringeAll_joinOnce
    (hjoin : ∀ node siblings, node.Filled →
      (join node siblings).fringe = node.fringe ++ fringeAll siblings)
    (siblings : List Node) (h : ∀ node ∈ siblings, node.Filled) :
    fringeAll (joinOnce extent join siblings) = fringeAll siblings := by
  fun_induction joinOnce extent join siblings with
  | case1 => rfl
  | case2 node siblings n _ ih =>
    rw [fringeAll_cons, ih (fun s hs => h s (List.mem_cons_of_mem _ (List.mem_of_mem_drop hs))),
      hjoin node _ (h node List.mem_cons_self), List.append_assoc, ← fringeAll_append,
      List.take_append_drop, fringeAll_cons]
  | case3 node siblings _ ih =>
    rw [fringeAll_cons, ih (fun s hs => h s (List.mem_cons_of_mem _ hs)), fringeAll_cons]

theorem fringeAll_joinRepeatedly
    (hjoin : ∀ node siblings, node.Filled →
      (join node siblings).fringe = node.fringe ++ fringeAll siblings)
    (hfilled : ∀ node siblings, node.Filled → (join node siblings).Filled)
    (siblings : List Node) (h : ∀ node ∈ siblings, node.Filled) :
    fringeAll (joinRepeatedly extent join siblings) = fringeAll siblings := by
  fun_induction joinRepeatedly extent join siblings with
  | case1 => rfl
  | case2 => rfl
  | case3 node next siblings n _ ih =>
    have hnode : node.Filled := h node List.mem_cons_self
    have hjoined : ∀ other ∈ join node (next :: siblings.take n) :: siblings.drop n,
        other.Filled := by
      intro other hother
      rcases List.mem_cons.1 hother with rfl | hother
      · exact hfilled node _ hnode
      · exact h other
          (List.mem_cons_of_mem _ (List.mem_cons_of_mem _ (List.mem_of_mem_drop hother)))
    rw [ih hjoined, fringeAll_cons, hjoin node _ hnode, List.append_assoc, ← fringeAll_append,
      List.cons_append, List.take_append_drop, ← fringeAll_cons]
  | case4 node next siblings _ ih =>
    rw [fringeAll_cons, ih (fun s hs => h s (List.mem_cons_of_mem _ hs)), ← fringeAll_cons]

end

theorem fringeAll_groupSigns (preceded : Bool) (siblings : List Node) :
    fringeAll (groupSigns preceded siblings) = fringeAll siblings := by
  fun_induction groupSigns preceded siblings with
  | case1 preceded sign operand siblings _ ih => simp [ih]
  | case2 preceded sign operand siblings _ ih => rw [fringeAll_cons, ih, ← fringeAll_cons]
  | case3 => rfl

theorem closed_filled : Closed Filled where
  call node _ _ _ _ _ := filled_enclose .function node _
  identifier node _ _ _ _ _ := filled_enclose .identifier node _
  sign sign operand _ _ _ _ := filled_enclose .operation sign [operand]
  operation node _ _ _ _ _ := filled_enclose .operation node _
  comparison node _ _ _ _ _ := filled_enclose .comparison node _
  named node _ _ _ _ _ := filled_enclose .identifier node _
  aliased node _ _ _ _ _ := filled_enclose .identifier node _
  directed _ _ _ _ hnode _ := filled_attach hnode _
  commented _ _ _ _ hnode _ := filled_attach hnode _
  listed node _ _ _ _ _ := filled_enclose .identifierList node _
  caseBlock node _ _ _ _ _ _ _ := filled_group_cons .caseBlock node _
  clause node _ _ _ _ _ := filled_group_cons .whereClause node _

/-- What the fringe needs of a transformation of siblings: it keeps the fringe, and it keeps nodes
filled, so that another one can follow. -/
structure KeepsFringe (pass : List Node → List Node) : Prop where
  filled : ∀ siblings, (∀ node ∈ siblings, node.Filled) → ∀ node ∈ pass siblings, node.Filled
  fringe : ∀ siblings, (∀ node ∈ siblings, node.Filled) →
    fringeAll (pass siblings) = fringeAll siblings

namespace KeepsFringe

variable {pass other : List Node → List Node} {extent : Node → List Node → Option Nat}

theorem comp (hother : KeepsFringe other) (hpass : KeepsFringe pass) :
    KeepsFringe fun siblings => other (pass siblings) where
  filled siblings h := hother.filled _ (hpass.filled siblings h)
  fringe siblings h := by
    rw [hother.fringe _ (hpass.filled siblings h), hpass.fringe siblings h]

theorem joinOnce_enclose (kind : Kind) : KeepsFringe (joinOnce extent (enclose kind)) where
  filled := forall_mem_joinOnce fun node _ _ _ _ _ => filled_enclose kind node _
  fringe := fringeAll_joinOnce fun node siblings _ => fringe_enclose kind node siblings

theorem joinRepeatedly_enclose (kind : Kind) :
    KeepsFringe (joinRepeatedly extent (enclose kind)) where
  filled := forall_mem_joinRepeatedly fun node _ _ _ _ _ => filled_enclose kind node _
  fringe := fringeAll_joinRepeatedly (fun node siblings _ => fringe_enclose kind node siblings)
    fun node siblings _ => filled_enclose kind node siblings

theorem joinOnce_attach : KeepsFringe (joinOnce extent attach) where
  filled := forall_mem_joinOnce fun _ _ _ _ hnode _ => filled_attach hnode _
  fringe := fringeAll_joinOnce fun _ siblings hnode => fringe_attach hnode siblings

theorem joinRepeatedly_attach : KeepsFringe (joinRepeatedly extent attach) where
  filled := forall_mem_joinRepeatedly fun _ _ _ _ hnode _ => filled_attach hnode _
  fringe := fringeAll_joinRepeatedly (fun _ siblings hnode => fringe_attach hnode siblings)
    fun _ siblings hnode => filled_attach hnode siblings

theorem groupSigns (preceded : Bool) : KeepsFringe (groupSigns preceded) where
  filled := forall_mem_groupSigns closed_filled.sign preceded
  fringe siblings _ := fringeAll_groupSigns preceded siblings

theorem groupExpressions : KeepsFringe groupExpressions :=
  (joinOnce_enclose .identifierList).comp <|
    joinRepeatedly_attach.comp <|
    joinOnce_attach.comp <|
    (joinOnce_enclose .identifier).comp <|
    (joinRepeatedly_enclose .identifier).comp <|
    (joinOnce_enclose .comparison).comp <|
    ((joinRepeatedly_enclose .operation).comp (groupSigns false)).comp <|
    (joinOnce_enclose .identifier).comp <|
    joinOnce_enclose .function

theorem groupCases : KeepsFringe groupCases where
  filled := closed_filled.groupCases
  fringe siblings h := by
    fun_induction Node.groupCases siblings with
    | case1 => rfl
    | case2 node siblings _ n _ ihinner ihrest =>
      have hinner : ∀ sibling ∈ siblings.take n, sibling.Filled :=
        fun s hs => h s (List.mem_cons_of_mem _ (List.mem_of_mem_take hs))
      have hrest : ∀ sibling ∈ siblings.drop (n + 1), sibling.Filled :=
        fun s hs => h s (List.mem_cons_of_mem _ (List.mem_of_mem_drop hs))
      have hgrouped := groupExpressions.fringe _ (closed_filled.groupCases _ hinner)
      have hsplit : siblings.take n ++ ((siblings.drop n).take 1 ++ siblings.drop (n + 1)) =
          siblings := by
        rw [← List.drop_drop, List.take_append_drop, List.take_append_drop]
      rw [fringeAll_cons, fringe_group_cons, fringeAll_append, hgrouped, ihinner hinner,
        ihrest hrest, List.append_assoc, List.append_assoc, ← fringeAll_append,
        ← fringeAll_append, hsplit, fringeAll_cons]
    | case3 node siblings _ _ ih =>
      rw [fringeAll_cons, ih fun s hs => h s (List.mem_cons_of_mem _ hs), fringeAll_cons]
    | case4 node siblings _ ih =>
      rw [fringeAll_cons, ih fun s hs => h s (List.mem_cons_of_mem _ hs), fringeAll_cons]

theorem groupLevel : KeepsFringe groupLevel :=
  groupExpressions.comp groupCases

theorem groupWheres : KeepsFringe groupWheres where
  filled := closed_filled.groupWheres
  fringe siblings h := by
    fun_induction Node.groupWheres siblings with
    | case1 => rfl
    | case2 node siblings _ clause ih =>
      have hclause : ∀ sibling ∈ clause, sibling.Filled :=
        fun s hs => h s (List.mem_cons_of_mem _ ((List.takeWhile_sublist _).subset hs))
      have hrest : ∀ sibling ∈ siblings.drop clause.length, sibling.Filled :=
        fun s hs => h s (List.mem_cons_of_mem _ (List.mem_of_mem_drop hs))
      have hsplit : clause ++ siblings.drop clause.length = siblings := by
        have hbegins : clause <+: siblings := List.takeWhile_prefix _
        obtain ⟨rest, hrest⟩ := hbegins
        rw [← hrest, List.drop_left]
      rw [fringeAll_cons, fringe_group_cons, groupLevel.fringe _ hclause, ih hrest,
        List.append_assoc, ← fringeAll_append, hsplit, fringeAll_cons]
    | case3 node siblings _ ih =>
      rw [fringeAll_cons, ih fun s hs => h s (List.mem_cons_of_mem _ hs), fringeAll_cons]

theorem groupRun : KeepsFringe groupRun :=
  groupLevel.comp groupWheres

end KeepsFringe

theorem groupInsideAll_eq_map (siblings : List Node) :
    groupInsideAll siblings = siblings.map groupInside := by
  induction siblings with
  | nil => simp [groupInsideAll]
  | cons node siblings ih => simp [groupInsideAll, ih]

theorem groupInsideAll_append (siblings others : List Node) :
    groupInsideAll (siblings ++ others) = groupInsideAll siblings ++ groupInsideAll others := by
  rw [groupInsideAll_eq_map, List.map_append, ← groupInsideAll_eq_map, ← groupInsideAll_eq_map]

theorem filled_groupInside {node : Node} (h : node.Filled) : node.groupInside.Filled := by
  unfold groupInside
  split
  · exact filled_group_cons _ _ _
  · exact h

theorem fringeAll_map {f : Node → Node} {g : Lexeme → Lexeme} {siblings : List Node}
    (h : ∀ node ∈ siblings, (f node).fringe = node.fringe.map g) :
    fringeAll (siblings.map f) = (fringeAll siblings).map g := by
  induction siblings with
  | nil => rfl
  | cons node siblings ih =>
    rw [List.map_cons, fringeAll_cons, fringeAll_cons, h node List.mem_cons_self,
      ih fun s hs => h s (List.mem_cons_of_mem _ hs), List.map_append]

theorem fringeAll_map_eq {f : Node → Node} {siblings : List Node}
    (h : ∀ node ∈ siblings, (f node).fringe = node.fringe) :
    fringeAll (siblings.map f) = fringeAll siblings := by
  have hid : ∀ node ∈ siblings, (f node).fringe = node.fringe.map id := by simpa using h
  rw [fringeAll_map hid, List.map_id]

theorem dropLast_append_toList_getLast? (siblings : List Node) :
    siblings.dropLast ++ siblings.getLast?.toList = siblings := by
  by_cases h : siblings = []
  · simp [h]
  · rw [List.getLast?_eq_some_getLast h]
    exact List.dropLast_concat_getLast h

/-- The induction is on how the node was built, so that what stands inside the parentheses has
kept its fringe already when it is grouped as a level of its own. -/
theorem Built.fringe_groupInside {node : Node} (h : node.Built) :
    node.groupInside.fringe = node.fringe := by
  induction h with
  | leaf _ => simp [groupInside]
  | @group kind children _ hc ih =>
    unfold groupInside
    split
    · next opening siblings heq =>
      obtain ⟨-, rfl⟩ := Node.group.inj heq
      have hinside : ∀ node ∈ siblings.dropLast.map groupInside, node.Filled := by
        intro node hnode
        obtain ⟨child, hchild, rfl⟩ := List.mem_map.1 hnode
        have hmem := List.mem_cons_of_mem opening ((List.dropLast_sublist _).subset hchild)
        exact filled_groupInside (hc child hmem).filled
      have hkept : fringeAll (siblings.dropLast.map groupInside) = fringeAll siblings.dropLast :=
        fringeAll_map_eq fun child hchild =>
          ih child (List.mem_cons_of_mem _ ((List.dropLast_sublist _).subset hchild))
      rw [groupInsideAll_eq_map, ← List.map_dropLast, fringe_group_cons, fringeAll_append,
        KeepsFringe.groupRun.fringe _ hinside, hkept, ← fringeAll_append,
        dropLast_append_toList_getLast?, fringe_group_cons]
    · rfl

/-- Grouping keeps the fringe of everything that has been built from parts. -/
theorem fringeAll_groupAll {siblings : List Node} (h : ∀ node ∈ siblings, node.Built) :
    fringeAll (groupAll siblings) = fringeAll siblings := by
  have hfilled : ∀ node ∈ siblings.map groupInside, node.Filled := by
    intro node hnode
    obtain ⟨child, hchild, rfl⟩ := List.mem_map.1 hnode
    exact filled_groupInside (h child hchild).filled
  rw [groupAll, groupInsideAll_eq_map, KeepsFringe.groupRun.fringe _ hfilled,
    fringeAll_map_eq fun child hchild => (h child hchild).fringe_groupInside]

end QueryLineage.Node
