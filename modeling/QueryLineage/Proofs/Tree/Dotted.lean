import QueryLineage.Proofs.Tree.Shape

/-!
# A place in an identifier

Where a name, a dot and a keyword stand among the parts of an identifier, given by what is before
and behind them in the fringe. No pass takes an identifier apart, so a place in one remains where it
is, however the identifier is enclosed.
-/

namespace QueryLineage

def Lexeme.dot : Lexeme := ⟨.punctuation, "."⟩

namespace Node

/-- The row holds an identifier in which the name stands before a dot and the keyword behind it. The
parts before the name are `before`, and those behind the keyword are `after`. -/
inductive HoldsDotted (name keyword : Lexeme) : List Lexeme → List Lexeme → List Node → Prop
  | here {left right parts others : List Node} {before : List Lexeme}
      (hname : fringeAll parts = before ++ [name]) :
      HoldsDotted name keyword (fringeAll left ++ before) (fringeAll others ++ fringeAll right)
        (left ++ group .identifier (parts ++ Lexeme.dot.toNode :: keyword.toNode :: others) :: right)
  | inside {left right children : List Node} {kind : Kind} {before after : List Lexeme}
      (h : HoldsDotted name keyword before after children) :
      HoldsDotted name keyword (fringeAll left ++ before) (after ++ fringeAll right)
        (left ++ group kind children :: right)

namespace HoldsDotted

variable {name keyword : Lexeme} {before after : List Lexeme} {row others : List Node}

theorem first {parts others right : List Node} (hname : fringeAll parts = before ++ [name]) :
    HoldsDotted name keyword before (fringeAll others ++ fringeAll right)
      (group .identifier (parts ++ Lexeme.dot.toNode :: keyword.toNode :: others) :: right) :=
  @here name keyword [] right parts others before hname

theorem inside_first {kind : Kind} {children right : List Node}
    (h : HoldsDotted name keyword before after children) :
    HoldsDotted name keyword before (after ++ fringeAll right) (group kind children :: right) :=
  @inside name keyword [] right children kind before after h

theorem append_left (h : HoldsDotted name keyword before after row) (others : List Node) :
    HoldsDotted name keyword (fringeAll others ++ before) after (others ++ row) := by
  cases h with
  | here hname =>
    rw [← List.append_assoc, ← fringeAll_append, ← List.append_assoc]
    exact .here hname
  | inside h =>
    rw [← List.append_assoc, ← fringeAll_append, ← List.append_assoc]
    exact .inside h

theorem append_right (h : HoldsDotted name keyword before after row) (others : List Node) :
    HoldsDotted name keyword before (after ++ fringeAll others) (row ++ others) := by
  cases h with
  | here hname =>
    rw [List.append_assoc, List.append_assoc, ← fringeAll_append, List.cons_append]
    exact .here hname
  | inside h =>
    rw [List.append_assoc, List.append_assoc, ← fringeAll_append, List.cons_append]
    exact .inside h

/-- What two rows hold together, one of them holds. -/
theorem of_append (h : HoldsDotted name keyword before after (row ++ others)) :
    (∃ rest, after = rest ++ fringeAll others ∧ HoldsDotted name keyword before rest row) ∨
    ∃ rest, before = fringeAll row ++ rest ∧ HoldsDotted name keyword rest after others := by
  generalize hrow : row ++ others = both at h
  cases h with
  | @here left right parts more first hname =>
    rcases List.append_eq_append_iff.1 hrow with ⟨middle, rfl, rfl⟩ | ⟨middle, rfl, hmiddle⟩
    · refine Or.inr ⟨fringeAll middle ++ first, by simp, ?_⟩
      exact .here hname
    · cases middle with
      | nil =>
        obtain rfl : others = _ := by simpa using hmiddle.symm
        exact Or.inr ⟨first, by simp, .first hname⟩
      | cons node middle =>
        obtain ⟨rfl, rfl⟩ := List.cons.inj hmiddle
        exact Or.inl ⟨fringeAll more ++ fringeAll middle, by simp, .here hname⟩
  | @inside left right children kind first last h =>
    rcases List.append_eq_append_iff.1 hrow with ⟨middle, rfl, rfl⟩ | ⟨middle, rfl, hmiddle⟩
    · refine Or.inr ⟨fringeAll middle ++ first, by simp, ?_⟩
      exact .inside h
    · cases middle with
      | nil =>
        obtain rfl : others = _ := by simpa using hmiddle.symm
        exact Or.inr ⟨first, by simp, .inside_first h⟩
      | cons node middle =>
        obtain ⟨rfl, rfl⟩ := List.cons.inj hmiddle
        exact Or.inl ⟨last ++ fringeAll middle, by simp, .inside h⟩

theorem of_group (h : HoldsDotted name keyword before after row) (kind : Kind) :
    HoldsDotted name keyword before after [group kind row] := by
  simpa using @inside_first name keyword before after kind row [] h

/-- The place is where the name, the dot and the keyword stand in the fringe. -/
theorem fringeAll_eq (h : HoldsDotted name keyword before after row) :
    fringeAll row = before ++ name :: .dot :: keyword :: after := by
  induction h with
  | @here left right parts others before hname =>
    have hne : parts ++ Lexeme.dot.toNode :: keyword.toNode :: others ≠ [] := by simp
    simp [fringe_group .identifier hne, hname]
  | @inside left right children kind before after _ ih =>
    have hne : children ≠ [] := by
      rintro rfl
      simp at ih
    simp [fringe_group kind hne, ih]

/-- What a single group holds, its children hold, unless the keyword is one of them. -/
theorem of_singleton {kind : Kind} {children : List Node}
    (h : HoldsDotted name keyword before after [group kind children]) :
    HoldsDotted name keyword before after children ∨
      kind = .identifier ∧ ∃ parts others,
        children = parts ++ Lexeme.dot.toNode :: keyword.toNode :: others ∧
        fringeAll parts = before ++ [name] ∧ after = fringeAll others := by
  generalize hrow : [group kind children] = row at h
  cases h with
  | @here left right parts others first hname =>
    rcases List.append_eq_singleton_iff.1 hrow.symm with ⟨rfl, hgroup⟩ | ⟨-, hnil⟩
    · obtain ⟨hnode, rfl⟩ := List.cons.inj hgroup
      obtain ⟨rfl, rfl⟩ := Node.group.inj hnode
      exact Or.inr ⟨rfl, parts, others, rfl, by simpa using hname, by simp⟩
    · cases hnil
  | @inside left right inner kind first last hinner =>
    rcases List.append_eq_singleton_iff.1 hrow.symm with ⟨rfl, hgroup⟩ | ⟨-, hnil⟩
    · obtain ⟨hnode, rfl⟩ := List.cons.inj hgroup
      obtain ⟨rfl, rfl⟩ := Node.group.inj hnode
      exact Or.inl (by simpa using hinner)
    · cases hnil

theorem of_attach {node : Node} {siblings : List Node} (hnode : node.Filled)
    (h : HoldsDotted name keyword before after (node :: siblings)) :
    HoldsDotted name keyword before after [attach node siblings] := by
  unfold attach
  split
  · next children =>
    have hne : children ≠ [] := hnode rfl
    have hfringe : fringeAll [group .identifier children] = fringeAll children := by
      simp [fringe_group .identifier hne]
    rw [← List.singleton_append] at h
    rcases h.of_append with ⟨rest, rfl, hrow⟩ | ⟨rest, rfl, hrow⟩
    · rcases hrow.of_singleton with hchildren | ⟨-, parts, others, rfl, hname, rfl⟩
      · exact (hchildren.append_right siblings).of_group _
      · rw [List.append_assoc, List.cons_append, List.cons_append, ← fringeAll_append]
        have hheld := @first name keyword before parts (others ++ siblings) [] hname
        simpa using hheld
    · rw [hfringe]
      exact (hrow.append_left children).of_group _
  · exact absurd rfl (hnode rfl)
  · exact h.of_group _

end HoldsDotted

section

variable {name keyword : Lexeme}

/-- A row has been regrouped, and what it held stays where it was. -/
structure Retains (name keyword : Lexeme) (row regrouped : List Node) : Prop where
  fringe : fringeAll regrouped = fringeAll row
  dotted : ∀ before after, HoldsDotted name keyword before after row →
    HoldsDotted name keyword before after regrouped

namespace Retains

variable {row regrouped others further : List Node}

theorem refl (row : List Node) : Retains name keyword row row :=
  ⟨rfl, fun _ _ h => h⟩

theorem trans (h : Retains name keyword row regrouped)
    (hmore : Retains name keyword regrouped others) : Retains name keyword row others :=
  ⟨hmore.fringe.trans h.fringe, fun before after hrow =>
    hmore.dotted before after (h.dotted before after hrow)⟩

theorem append (h : Retains name keyword row regrouped)
    (hothers : Retains name keyword others further) :
    Retains name keyword (row ++ others) (regrouped ++ further) := by
  refine ⟨by rw [fringeAll_append, fringeAll_append, h.fringe, hothers.fringe], ?_⟩
  intro before after hrow
  rcases hrow.of_append with ⟨rest, rfl, hheld⟩ | ⟨rest, rfl, hheld⟩
  · rw [← hothers.fringe]
    exact (h.dotted _ _ hheld).append_right further
  · rw [← h.fringe]
    exact (hothers.dotted _ _ hheld).append_left regrouped

theorem cons (node : Node) (h : Retains name keyword row regrouped) :
    Retains name keyword (node :: row) (node :: regrouped) :=
  (refl [node]).append h

theorem joined {node : Node} (h : Retains name keyword row [node])
    (hothers : Retains name keyword others further) :
    Retains name keyword (row ++ others) (node :: further) :=
  h.append hothers

theorem enclose (kind : Kind) (node : Node) (siblings : List Node) :
    Retains name keyword (node :: siblings) [enclose kind node siblings] :=
  ⟨by simp, fun _ _ h => h.of_group _⟩

theorem attach {node : Node} (h : node.Filled) (siblings : List Node) :
    Retains name keyword (node :: siblings) [attach node siblings] :=
  ⟨by simp [fringe_attach h], fun _ _ hrow => hrow.of_attach h⟩

end Retains

/-- A transformation of siblings leaves the keyword in its identifier, and nodes filled. -/
structure KeepsDotted (name keyword : Lexeme) (pass : List Node → List Node) : Prop where
  filled : ∀ siblings, (∀ node ∈ siblings, node.Filled) → ∀ node ∈ pass siblings, node.Filled
  retains : ∀ siblings, (∀ node ∈ siblings, node.Filled) →
    Retains name keyword siblings (pass siblings)

namespace KeepsDotted

variable {pass other : List Node → List Node} {extent : Node → List Node → Option Nat}
  {join : Node → List Node → Node}

theorem comp (hother : KeepsDotted name keyword other) (hpass : KeepsDotted name keyword pass) :
    KeepsDotted name keyword fun siblings => other (pass siblings) where
  filled siblings h := hother.filled _ (hpass.filled siblings h)
  retains siblings h := (hpass.retains siblings h).trans (hother.retains _ (hpass.filled siblings h))

theorem joinOnce (hfilled : ∀ node siblings, node.Filled → (join node siblings).Filled)
    (hjoin : ∀ node siblings, node.Filled →
      Retains name keyword (node :: siblings) [join node siblings]) :
    KeepsDotted name keyword (joinOnce extent join) where
  filled := forall_mem_joinOnce fun node _ _ _ hnode _ => hfilled node _ hnode
  retains siblings h := by
    fun_induction Node.joinOnce extent join siblings with
    | case1 => exact .refl _
    | case2 node siblings n _ ih =>
      have hrest := ih fun other hother =>
        h other (List.mem_cons_of_mem _ (List.mem_of_mem_drop hother))
      simpa using (hjoin node (siblings.take n) (h node List.mem_cons_self)).joined hrest
    | case3 node siblings _ ih =>
      exact (ih fun other hother => h other (List.mem_cons_of_mem _ hother)).cons node

theorem joinRepeatedly (hfilled : ∀ node siblings, node.Filled → (join node siblings).Filled)
    (hjoin : ∀ node siblings, node.Filled →
      Retains name keyword (node :: siblings) [join node siblings]) :
    KeepsDotted name keyword (joinRepeatedly extent join) where
  filled := forall_mem_joinRepeatedly fun node _ _ _ hnode _ => hfilled node _ hnode
  retains siblings h := by
    fun_induction Node.joinRepeatedly extent join siblings with
    | case1 => exact .refl _
    | case2 => exact .refl _
    | case3 node next siblings n _ ih =>
      have hnode : node.Filled := h node List.mem_cons_self
      have hrest : ∀ other ∈ join node (next :: siblings.take n) :: siblings.drop n,
          other.Filled := by
        intro other hother
        rcases List.mem_cons.1 hother with rfl | hother
        · exact hfilled _ _ hnode
        · exact h other
            (List.mem_cons_of_mem _ (List.mem_cons_of_mem _ (List.mem_of_mem_drop hother)))
      have hjoined := (hjoin node (next :: siblings.take n) hnode).joined
        (.refl (siblings.drop n))
      exact .trans (by simpa using hjoined) (ih hrest)
    | case4 node next siblings _ ih =>
      exact (ih fun other hother => h other (List.mem_cons_of_mem _ hother)).cons node

theorem joinOnce_enclose (kind : Kind) :
    KeepsDotted name keyword (Node.joinOnce extent (enclose kind)) :=
  joinOnce (fun node siblings _ => filled_enclose kind node siblings)
    fun node siblings _ => .enclose kind node siblings

theorem joinRepeatedly_enclose (kind : Kind) :
    KeepsDotted name keyword (Node.joinRepeatedly extent (enclose kind)) :=
  joinRepeatedly (fun node siblings _ => filled_enclose kind node siblings)
    fun node siblings _ => .enclose kind node siblings

theorem joinOnce_attach : KeepsDotted name keyword (Node.joinOnce extent attach) :=
  joinOnce (fun _ siblings hnode => filled_attach hnode siblings)
    fun _ siblings hnode => .attach hnode siblings

theorem joinRepeatedly_attach : KeepsDotted name keyword (Node.joinRepeatedly extent attach) :=
  joinRepeatedly (fun _ siblings hnode => filled_attach hnode siblings)
    fun _ siblings hnode => .attach hnode siblings

theorem groupSigns (preceded : Bool) : KeepsDotted name keyword (groupSigns preceded) where
  filled := forall_mem_groupSigns closed_filled.sign preceded
  retains siblings h := by
    clear h
    fun_induction Node.groupSigns preceded siblings with
    | case1 preceded sign operand siblings _ ih =>
      exact (Retains.enclose .operation sign [operand]).joined ih
    | case2 preceded sign operand siblings _ ih => exact ih.cons sign
    | case3 => exact .refl _

/-- All passes over one level behind the one for names. -/
theorem laterPasses : KeepsDotted name keyword fun siblings =>
    Node.joinOnce listExtent (enclose .identifierList) <|
    Node.joinRepeatedly commentExtent attach <|
    Node.joinOnce directionExtent attach <|
    Node.joinOnce aliasExtent (enclose .identifier) <|
    Node.joinRepeatedly asExtent (enclose .identifier) <|
    Node.joinOnce comparisonExtent (enclose .comparison) <|
    Node.joinRepeatedly operationExtent (enclose .operation) <|
    Node.groupSigns false siblings :=
  (joinOnce_enclose .identifierList).comp <|
    joinRepeatedly_attach.comp <|
    joinOnce_attach.comp <|
    (joinOnce_enclose .identifier).comp <|
    (joinRepeatedly_enclose .identifier).comp <|
    (joinOnce_enclose .comparison).comp <|
    (joinRepeatedly_enclose .operation).comp (groupSigns false)

theorem groupExpressions : KeepsDotted name keyword groupExpressions :=
  laterPasses.comp ((joinOnce_enclose .identifier).comp (joinOnce_enclose .function))

end KeepsDotted

end

end Node

end QueryLineage
