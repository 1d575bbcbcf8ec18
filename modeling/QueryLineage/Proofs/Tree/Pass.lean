import QueryLineage.Tree.Level

/-!
# What passes keep

A pass over siblings yields nodes of two sorts: those that it leaves alone, and those that it
joins. A property of nodes that every join keeps therefore holds of everything that the pass
yields. The extents are at hand where a join only keeps the property because of what was found
behind the node.
-/

namespace QueryLineage.Node

variable {P : Node → Prop} {extent : Node → List Node → Option Nat}
  {join : Node → List Node → Node}

theorem forall_mem_joinOnce
    (hjoin : ∀ node siblings n, extent node siblings = some n → P node →
      (∀ sibling ∈ siblings, P sibling) → P (join node (siblings.take n)))
    (siblings : List Node) (h : ∀ node ∈ siblings, P node) :
    ∀ node ∈ joinOnce extent join siblings, P node := by
  fun_induction joinOnce extent join siblings with
  | case1 => exact h
  | case2 node siblings n hn ih =>
    have hrest : ∀ sibling ∈ siblings, P sibling := fun s hs => h s (List.mem_cons_of_mem _ hs)
    intro other hother
    rcases List.mem_cons.1 hother with rfl | hother
    · exact hjoin node siblings n hn (h node List.mem_cons_self) hrest
    · exact ih (fun s hs => hrest s (List.mem_of_mem_drop hs)) other hother
  | case3 node siblings _ ih =>
    intro other hother
    rcases List.mem_cons.1 hother with rfl | hother
    · exact h _ List.mem_cons_self
    · exact ih (fun s hs => h s (List.mem_cons_of_mem _ hs)) other hother

theorem forall_mem_joinRepeatedly
    (hjoin : ∀ node siblings n, extent node siblings = some n → P node →
      (∀ sibling ∈ siblings, P sibling) → P (join node (siblings.take n)))
    (siblings : List Node) (h : ∀ node ∈ siblings, P node) :
    ∀ node ∈ joinRepeatedly extent join siblings, P node := by
  fun_induction joinRepeatedly extent join siblings with
  | case1 => exact h
  | case2 => exact h
  | case3 node next siblings n hn ih =>
    have hrest : ∀ sibling ∈ next :: siblings, P sibling :=
      fun s hs => h s (List.mem_cons_of_mem _ hs)
    apply ih
    intro other hother
    rcases List.mem_cons.1 hother with rfl | hother
    · exact hjoin node (next :: siblings) (n + 1) hn (h node List.mem_cons_self) hrest
    · exact hrest other (List.mem_cons_of_mem _ (List.mem_of_mem_drop hother))
  | case4 node next siblings _ ih =>
    intro other hother
    rcases List.mem_cons.1 hother with rfl | hother
    · exact h _ List.mem_cons_self
    · exact ih (fun s hs => h s (List.mem_cons_of_mem _ hs)) other hother

theorem forall_mem_groupSigns
    (hjoin : ∀ sign operand, sign.isSign = true → operand.isOperand = true → P sign → P operand →
      P (enclose .operation sign [operand]))
    (preceded : Bool) (siblings : List Node) (h : ∀ node ∈ siblings, P node) :
    ∀ node ∈ groupSigns preceded siblings, P node := by
  fun_induction groupSigns preceded siblings with
  | case1 preceded sign operand siblings hsign ih =>
    simp only [Bool.and_eq_true] at hsign
    have hboth := hjoin sign operand hsign.1.1 hsign.1.2 (h _ List.mem_cons_self)
      (h _ (List.mem_cons_of_mem _ List.mem_cons_self))
    intro other hother
    rcases List.mem_cons.1 hother with rfl | hother
    · exact hboth
    · exact ih (fun s hs => h s (List.mem_cons_of_mem _ (List.mem_cons_of_mem _ hs))) other hother
  | case2 preceded sign operand siblings _ ih =>
    intro other hother
    rcases List.mem_cons.1 hother with rfl | hother
    · exact h _ List.mem_cons_self
    · exact ih (fun s hs => h s (List.mem_cons_of_mem _ hs)) other hother
  | case3 => exact h

/-- The property `P` passes from the nodes that a group is made of to the group, for every group
that grouping makes. -/
structure Closed (P : Node → Prop) : Prop where
  call : ∀ node siblings n, callExtent node siblings = some n → P node →
    (∀ sibling ∈ siblings, P sibling) → P (enclose .function node (siblings.take n))
  identifier : ∀ node siblings n, identifierExtent node siblings = some n → P node →
    (∀ sibling ∈ siblings, P sibling) → P (enclose .identifier node (siblings.take n))
  sign : ∀ sign operand, sign.isSign = true → operand.isOperand = true → P sign → P operand →
    P (enclose .operation sign [operand])
  operation : ∀ node siblings n, operationExtent node siblings = some n → P node →
    (∀ sibling ∈ siblings, P sibling) → P (enclose .operation node (siblings.take n))
  comparison : ∀ node siblings n, comparisonExtent node siblings = some n → P node →
    (∀ sibling ∈ siblings, P sibling) → P (enclose .comparison node (siblings.take n))
  named : ∀ node siblings n, asExtent node siblings = some n → P node →
    (∀ sibling ∈ siblings, P sibling) → P (enclose .identifier node (siblings.take n))
  aliased : ∀ node siblings n, aliasExtent node siblings = some n → P node →
    (∀ sibling ∈ siblings, P sibling) → P (enclose .identifier node (siblings.take n))
  directed : ∀ node siblings n, directionExtent node siblings = some n → P node →
    (∀ sibling ∈ siblings, P sibling) → P (attach node (siblings.take n))
  commented : ∀ node siblings n, commentExtent node siblings = some n → P node →
    (∀ sibling ∈ siblings, P sibling) → P (attach node (siblings.take n))
  listed : ∀ node siblings n, listExtent node siblings = some n → P node →
    (∀ sibling ∈ siblings, P sibling) → P (enclose .identifierList node (siblings.take n))
  caseBlock : ∀ node inner ending, node.isWord "CASE" = true → ending.isWord "END" = true →
    P node → (∀ sibling ∈ inner, P sibling) → P ending →
    P (group .caseBlock (node :: (inner ++ [ending])))
  clause : ∀ node inner, node.isWord "WHERE" = true →
    (∀ sibling ∈ inner, sibling.endsWhere = false) → P node → (∀ sibling ∈ inner, P sibling) →
    P (group .whereClause (node :: inner))

/-- What holds of all groups, whatever they are made of, passes to them. -/
theorem closed_of_groups (h : ∀ kind children, kind.isGroup = true → P (group kind children)) :
    Closed P where
  call _ _ _ _ _ _ := h _ _ rfl
  identifier _ _ _ _ _ _ := h _ _ rfl
  sign _ _ _ _ _ _ := h _ _ rfl
  operation _ _ _ _ _ _ := h _ _ rfl
  comparison _ _ _ _ _ _ := h _ _ rfl
  named _ _ _ _ _ _ := h _ _ rfl
  aliased _ _ _ _ _ _ := h _ _ rfl
  directed node siblings n _ _ _ := by
    unfold attach
    split <;> exact h _ _ rfl
  commented node siblings n _ _ _ := by
    unfold attach
    split <;> exact h _ _ rfl
  listed _ _ _ _ _ _ := h _ _ rfl
  caseBlock _ _ _ _ _ _ _ _ := h _ _ rfl
  clause _ _ _ _ _ _ := h _ _ rfl

theorem isMark_of_kind_ne {node : Node} {mark : String} (h : node.kind ≠ .punctuation) :
    node.isMark mark = false := by
  simp [isMark, isPunctuation, h]

section

variable {kind : Kind} (h : kind.isGroup = true) (children : List Node)
include h

theorem isKeyword_group : (group kind children).isKeyword = false := by
  rw [isKeyword, kind_group]
  cases kind <;> simp_all [Kind.isGroup, Kind.isKeyword]

theorem isMark_group (mark : String) : (group kind children).isMark mark = false := by
  apply isMark_of_kind_ne
  rintro rfl
  cases h

theorem isWord_group (word : String) : (group kind children).isWord word = false := by
  rw [isWord, isKeyword_group h, Bool.false_and]

theorem isWordIn_group (words : List String) : (group kind children).isWordIn words = false := by
  rw [isWordIn, isKeyword_group h, Bool.false_and]

theorem endsWhere_group : (group kind children).endsWhere = false := by
  rw [endsWhere, isMark_group h, isWordIn_group h, Bool.or_false]

end

theorem exists_of_blockLength? {depth n : Nat} {siblings : List Node}
    (h : blockLength? depth siblings = some n) :
    ∃ ending, siblings[n]? = some ending ∧ ending.isWord "END" = true := by
  induction siblings generalizing depth n with
  | nil => cases h
  | cons node siblings ih =>
    have step : ∀ d, (blockLength? d siblings).map (· + 1) = some n →
        ∃ ending, (node :: siblings)[n]? = some ending ∧ ending.isWord "END" = true := by
      intro d hd
      obtain ⟨m, hm, rfl⟩ := Option.map_eq_some_iff.1 hd
      exact ih hm
    rw [blockLength?] at h
    split at h
    · exact step _ h
    · split at h
      · next hending =>
        split at h
        · cases h
          exact ⟨node, rfl, hending⟩
        · exact step _ h
      · exact step _ h

/-- All passes over one level between the first and the last. -/
def groupItems (siblings : List Node) : List Node :=
  let siblings := joinOnce callExtent (enclose .function) siblings
  let siblings := joinOnce identifierExtent (enclose .identifier) siblings
  let siblings := joinRepeatedly operationExtent (enclose .operation) (groupSigns false siblings)
  let siblings := joinOnce comparisonExtent (enclose .comparison) siblings
  let siblings := joinRepeatedly asExtent (enclose .identifier) siblings
  let siblings := joinOnce aliasExtent (enclose .identifier) siblings
  let siblings := joinOnce directionExtent attach siblings
  joinRepeatedly commentExtent attach siblings

theorem groupExpressions_eq (siblings : List Node) : groupExpressions siblings =
    joinOnce listExtent (enclose .identifierList) (groupItems siblings) := rfl

namespace Closed

variable (hP : Closed P)
include hP

theorem groupItems (siblings : List Node) (h : ∀ node ∈ siblings, P node) :
    ∀ node ∈ groupItems siblings, P node := by
  unfold Node.groupItems
  apply forall_mem_joinRepeatedly hP.commented
  apply forall_mem_joinOnce hP.directed
  apply forall_mem_joinOnce hP.aliased
  apply forall_mem_joinRepeatedly hP.named
  apply forall_mem_joinOnce hP.comparison
  apply forall_mem_joinRepeatedly hP.operation
  apply forall_mem_groupSigns hP.sign
  apply forall_mem_joinOnce hP.identifier
  exact forall_mem_joinOnce hP.call siblings h

theorem groupExpressions (siblings : List Node) (h : ∀ node ∈ siblings, P node) :
    ∀ node ∈ groupExpressions siblings, P node :=
  forall_mem_joinOnce hP.listed _ (hP.groupItems siblings h)

theorem groupCases (siblings : List Node) (h : ∀ node ∈ siblings, P node) :
    ∀ node ∈ groupCases siblings, P node := by
  fun_induction Node.groupCases siblings with
  | case1 => exact h
  | case2 node siblings hword n hn ihinner ihrest =>
    have hrest : ∀ sibling ∈ siblings, P sibling := fun s hs => h s (List.mem_cons_of_mem _ hs)
    obtain ⟨ending, hget, hending⟩ := exists_of_blockLength? hn
    have hclosing : (siblings.drop n).take 1 = [ending] := by
      rw [List.take_one, List.head?_drop, hget]
      rfl
    intro other hother
    rcases List.mem_cons.1 hother with rfl | hother
    · rw [hclosing]
      apply hP.caseBlock node _ _ hword hending (h node List.mem_cons_self)
      · exact hP.groupExpressions _ (ihinner fun s hs => hrest s (List.mem_of_mem_take hs))
      · exact hrest ending (List.mem_of_getElem? hget)
    · exact ihrest (fun s hs => hrest s (List.mem_of_mem_drop hs)) other hother
  | case3 node siblings _ _ ih =>
    intro other hother
    rcases List.mem_cons.1 hother with rfl | hother
    · exact h _ List.mem_cons_self
    · exact ih (fun s hs => h s (List.mem_cons_of_mem _ hs)) other hother
  | case4 node siblings _ ih =>
    intro other hother
    rcases List.mem_cons.1 hother with rfl | hother
    · exact h _ List.mem_cons_self
    · exact ih (fun s hs => h s (List.mem_cons_of_mem _ hs)) other hother

theorem groupLevel (siblings : List Node) (h : ∀ node ∈ siblings, P node) :
    ∀ node ∈ groupLevel siblings, P node :=
  hP.groupExpressions _ (hP.groupCases siblings h)

theorem groupWheres (siblings : List Node) (h : ∀ node ∈ siblings, P node) :
    ∀ node ∈ groupWheres siblings, P node := by
  fun_induction Node.groupWheres siblings with
  | case1 => exact h
  | case2 node siblings hword clause ih =>
    have hrest : ∀ sibling ∈ siblings, P sibling := fun s hs => h s (List.mem_cons_of_mem _ hs)
    have hends : ∀ sibling ∈ Node.groupLevel clause, sibling.endsWhere = false :=
      (closed_of_groups fun _ children hkind => endsWhere_group hkind children).groupLevel clause
        fun s hs => by simpa using List.all_eq_true.1 List.all_takeWhile s hs
    intro other hother
    rcases List.mem_cons.1 hother with rfl | hother
    · apply hP.clause node _ hword hends (h node List.mem_cons_self)
      exact hP.groupLevel _ fun s hs => hrest s ((List.takeWhile_sublist _).subset hs)
    · exact ih (fun s hs => hrest s (List.mem_of_mem_drop hs)) other hother
  | case3 node siblings _ ih =>
    intro other hother
    rcases List.mem_cons.1 hother with rfl | hother
    · exact h _ List.mem_cons_self
    · exact ih (fun s hs => h s (List.mem_cons_of_mem _ hs)) other hother

theorem groupRun (siblings : List Node) (h : ∀ node ∈ siblings, P node) :
    ∀ node ∈ groupRun siblings, P node :=
  hP.groupLevel _ (hP.groupWheres siblings h)

end Closed

end QueryLineage.Node
