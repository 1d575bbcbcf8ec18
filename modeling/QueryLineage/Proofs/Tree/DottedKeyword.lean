import QueryLineage.Proofs.Outcome
import QueryLineage.Proofs.Tree.DottedName

/-!
# Keywords behind dots

A keyword behind the dot of a name is a part of the name, together with the name in one identifier,
if it can neither open nor close a `WHERE` clause or a `CASE` block. A keyword that can does so
behind a dot as well.
-/

namespace QueryLineage.Node

variable {name keyword : Lexeme}

section

variable {before after : List Lexeme}

theorem exists_of_fringeAll_cons {nodes : List Node} (hnodes : ∀ node ∈ nodes, Bracketed node)
    {lexeme : Lexeme} {rest : List Lexeme} (hopening : lexeme.isMark "(" = false)
    (h : fringeAll nodes = lexeme :: rest) :
    ∃ siblings, nodes = lexeme.toNode :: siblings ∧ fringeAll siblings = rest := by
  cases nodes with
  | nil => cases h
  | cons node siblings =>
    cases hnodes node List.mem_cons_self with
    | @lexeme first _ =>
      obtain ⟨rfl, rfl⟩ := List.cons.inj h
      exact ⟨siblings, rfl, rfl⟩
    | parentheses _ _ _ =>
      obtain ⟨rfl, -⟩ := List.cons.inj h
      cases hopening

theorem eq_toNode_of_fringe {node : Node} (hnode : Bracketed node) {last : Lexeme}
    (hclosing : last.isMark ")" = false) (h : node.fringe = before ++ [last]) :
    node = last.toNode ∧ before = [] := by
  cases hnode with
  | lexeme _ =>
    rw [fringe_toNode, eq_comm, List.append_eq_singleton_iff] at h
    rcases h with ⟨rfl, hlast⟩ | ⟨-, hnil⟩
    · rw [(List.cons.inj hlast).1]
      exact ⟨rfl, rfl⟩
    · cases hnil
  | parentheses _ _ _ =>
    have hends := congrArg List.getLast? h
    rw [fringe_group_cons, fringeAll_append, ← List.append_assoc] at hends
    obtain rfl : Lexeme.closing = last := by
      simpa [closingMark, Lexeme.closing] using hends
    cases hclosing

variable (hname : name.kind = .name) (hkeyword : keyword.toNode.isKeyword = true)
  (hbounds : keyword.bounds = false)
include hname hkeyword

/-- The name, the dot and the keyword are all inside a pair of parentheses or all outside of it. -/
theorem awaits_map_groupInside {nodes : List Node} (hnodes : ∀ node ∈ nodes, Bracketed node)
    (hinside : ∀ node ∈ nodes, ∀ {before after : List Lexeme},
      node.fringe = before ++ name :: .dot :: keyword :: after →
        HoldsDotted name keyword before after [node.groupInside])
    (h : fringeAll nodes = before ++ name :: .dot :: keyword :: after) :
    Awaits name keyword before after (nodes.map groupInside) := by
  induction nodes generalizing before with
  | nil => simp at h
  | cons node nodes ih =>
    have hnode := hnodes node List.mem_cons_self
    have hrest : ∀ other ∈ nodes, Bracketed other :=
      fun other hother => hnodes other (List.mem_cons_of_mem _ hother)
    have hkept : ∀ row : List Node, (∀ other ∈ row, Bracketed other) →
        fringeAll (row.map groupInside) = fringeAll row := fun row hrow =>
      fringeAll_map_eq fun other hother => (hrow other hother).built.fringe_groupInside
    have hdot : Lexeme.dot.isMark "(" = false := by decide
    have hmark : keyword.isMark "(" = false :=
      Lexeme.isMark_of_kind_ne (kind_ne_of_isKeyword hkeyword rfl)
    have hlater : ∀ {before}, fringeAll nodes = before ++ name :: .dot :: keyword :: after →
        Awaits name keyword (node.fringe ++ before) after ((node :: nodes).map groupInside) := by
      intro before hbefore
      have hawaits := ih hrest (fun other hother => hinside other (List.mem_cons_of_mem _ hother))
        hbefore
      have hcons := hawaits.append_left [node.groupInside]
      rwa [fringeAll_cons, fringeAll_nil, List.append_nil, hnode.built.fringe_groupInside] at hcons
    rw [fringeAll_cons] at h
    rcases List.append_eq_append_iff.1 h with ⟨middle, rfl, hmiddle⟩ | ⟨middle, hfringe, hmiddle⟩
    · exact hlater hmiddle
    rcases middle with _ | ⟨first, _ | ⟨second, _ | ⟨third, middle⟩⟩⟩
    · rw [List.append_nil] at hfringe
      rw [← hfringe, ← List.append_nil node.fringe]
      exact hlater hmiddle.symm
    · simp only [List.cons_append, List.nil_append, List.cons.injEq] at hmiddle
      obtain ⟨rfl, hafter⟩ := hmiddle
      obtain ⟨siblings, rfl, hsiblings⟩ := exists_of_fringeAll_cons hrest hdot hafter.symm
      obtain ⟨others, rfl, rfl⟩ := exists_of_fringeAll_cons
        (fun other hother => hrest other (List.mem_cons_of_mem _ hother)) hmark hsiblings
      obtain ⟨rfl, rfl⟩ := eq_toNode_of_fringe hnode
        (Lexeme.isMark_of_kind_ne (by simp [hname])) hfringe
      have hothers := hkept others fun other hother => hrest other (by simp [hother])
      have hleaf : ∀ lexeme : Lexeme, lexeme.toNode.groupInside = lexeme.toNode :=
        fun lexeme => by simp [Lexeme.toNode, groupInside]
      rw [← hothers, List.map_cons, List.map_cons, List.map_cons, hleaf, hleaf, hleaf]
      exact .first
    · simp only [List.cons_append, List.nil_append, List.cons.injEq] at hmiddle
      obtain ⟨rfl, rfl, -⟩ := hmiddle
      have hlast : node.fringe = (before ++ [name]) ++ [Lexeme.dot] := by rw [hfringe]; simp
      have hnil := (eq_toNode_of_fringe hnode (by decide) hlast).2
      simp at hnil
    · simp only [List.cons_append, List.cons.injEq] at hmiddle
      obtain ⟨rfl, rfl, rfl, rfl⟩ := hmiddle
      rw [← hkept nodes hrest]
      exact .held ((hinside node List.mem_cons_self hfringe).append_right (nodes.map groupInside))

include hbounds

theorem holdsDotted_groupAll_of_inside {nodes : List Node} (hnodes : ∀ node ∈ nodes, Bracketed node)
    (hinside : ∀ node ∈ nodes, ∀ {before after : List Lexeme},
      node.fringe = before ++ name :: .dot :: keyword :: after →
        HoldsDotted name keyword before after [node.groupInside])
    (h : fringeAll nodes = before ++ name :: .dot :: keyword :: after) :
    HoldsDotted name keyword before after (groupAll nodes) := by
  have hfilled : ∀ node ∈ nodes.map groupInside, node.Filled := by
    intro node hnode
    obtain ⟨child, hchild, rfl⟩ := List.mem_map.1 hnode
    exact filled_groupInside (hnodes child hchild).built.filled
  rw [groupAll, groupInsideAll_eq_map]
  exact (awaits_map_groupInside hname hkeyword hnodes hinside h).groupRun hname hkeyword hbounds
    hfilled

theorem holdsDotted_groupInside {node : Node} (hnode : Bracketed node)
    (h : node.fringe = before ++ name :: .dot :: keyword :: after) :
    HoldsDotted name keyword before after [node.groupInside] := by
  induction hnode generalizing before after with
  | @lexeme lexeme _ =>
    have hlength := congrArg List.length h
    simp at hlength
    omega
  | @parentheses inner hinner _ _ ih =>
    rw [groupInside_parentheses, enclosed]
    rw [fringe_group_cons, fringeAll_append] at h
    have hfirst : openingMark.fringe = [Lexeme.opening] := rfl
    have hlast : fringeAll [closingMark] = [Lexeme.closing] := rfl
    rw [hfirst, hlast, List.singleton_append] at h
    cases before with
    | nil =>
      rw [← (List.cons.inj h).1] at hname
      cases hname
    | cons first before =>
      obtain ⟨rfl, hinside⟩ := List.cons.inj h
      rcases List.eq_nil_or_concat after with rfl | ⟨rest, last, rfl⟩
      · have hends : fringeAll inner ++ [Lexeme.closing] =
            (before ++ [name, .dot]) ++ [keyword] := by rw [hinside]; simp
        obtain ⟨-, hkeywordClosing⟩ := List.append_inj' hends rfl
        rw [← (List.cons.inj hkeywordClosing).1] at hkeyword
        cases hkeyword
      · have hends : fringeAll inner ++ [Lexeme.closing] =
            (before ++ name :: .dot :: keyword :: rest) ++ [last] := by rw [hinside]; simp
        obtain ⟨hfringe, hclosing⟩ := List.append_inj' hends rfl
        have hheld := holdsDotted_groupAll_of_inside hname hkeyword hbounds hinner
          (fun node hnode => ih node hnode) hfringe
        have hparentheses := ((hheld.append_right [closingMark]).append_left
          [openingMark]).of_group .parenthesis
        rw [hlast, hclosing, ← List.concat_eq_append] at hparentheses
        exact hparentheses

/-- In a grouped row every keyword behind the dot of a name is in an identifier with the name. -/
theorem holdsDotted_groupAll {nodes : List Node} (hnodes : ∀ node ∈ nodes, Bracketed node)
    (h : fringeAll nodes = before ++ name :: .dot :: keyword :: after) :
    HoldsDotted name keyword before after (groupAll nodes) :=
  holdsDotted_groupAll_of_inside hname hkeyword hbounds hnodes
    (fun node hnode => holdsDotted_groupInside hname hkeyword hbounds (hnodes node hnode)) h

end

section

variable (before after : List Lexeme) (hname : name.isMark ";" = false)
  (hkeyword : keyword.isMark ";" = false)
include hname hkeyword

/-- No semicolon cuts the name, the dot and the keyword apart. -/
theorem exists_chunk (depth : Nat) : ∃ front first last rest,
    Lexeme.chunks depth (before ++ name :: .dot :: keyword :: after) =
      front ++ (first ++ name :: .dot :: keyword :: last) :: rest ∧
    before = front.flatten ++ first ∧ after = last ++ rest.flatten := by
  have hdot : Lexeme.dot.isMark ";" = false := by decide
  induction before generalizing depth with
  | nil =>
    obtain ⟨piece, pieces, heq⟩ := List.exists_cons_of_ne_nil (Lexeme.chunks_ne_nil
      (Lexeme.depthAfter (Lexeme.depthAfter (Lexeme.depthAfter depth name) .dot) keyword) after)
    have hafter := Lexeme.flatten_chunks
      (Lexeme.depthAfter (Lexeme.depthAfter (Lexeme.depthAfter depth name) .dot) keyword) after
    rw [heq, List.flatten_cons] at hafter
    refine ⟨[], [], piece, pieces, ?_, rfl, hafter.symm⟩
    rw [List.nil_append, Lexeme.chunks_cons, Lexeme.chunks_cons, Lexeme.chunks_cons, heq]
    simp [hname, hdot, hkeyword]
  | cons lexeme before ih =>
    obtain ⟨front, first, last, rest, heq, rfl, rfl⟩ := ih (Lexeme.depthAfter depth lexeme)
    rw [List.cons_append, Lexeme.chunks_cons, heq]
    split
    · exact ⟨[lexeme] :: front, first, last, rest, by cases front <;> simp, by simp, rfl⟩
    · cases front with
      | nil => exact ⟨[], lexeme :: first, last, rest, by simp, rfl, rfl⟩
      | cons piece front =>
        exact ⟨(lexeme :: piece) :: front, first, last, rest, by simp, by simp, rfl⟩

end

/-- A keyword behind the dot of a name is a part of it, unless it opens or closes a group: the tree
of its statement has an identifier that holds both. -/
theorem holdsDotted_of_ofText {sql : String} {before after : List Lexeme}
    (hread : Lexeme.ofText sql = .ok (before ++ name :: .dot :: keyword :: after))
    (hname : name.kind = .name) (hkeyword : keyword.kind.isKeyword = true)
    (hbounds : keyword.bounds = false) {stripComments : Bool} {trees : List Node}
    (h : statementsOfText sql stripComments = .ok trees) :
    ∃ first last tree, first <:+ before ∧ last <+: after ∧ tree ∈ trees ∧
      HoldsDotted name keyword (Lexeme.stripped stripComments first)
        (Lexeme.stripped stripComments last) [tree] := by
  obtain ⟨lexemes, nodes, hlexemes, hnodes, rfl⟩ := statementsOfText_eq_ok_iff.1 h
  obtain rfl := Except.ok.inj (hread.symm.trans hlexemes)
  have hkinds := (Lexeme.ofText_eq_ok_iff.1 hread).isGroup
  have hbracketed := fun node hnode => (bracketed_groupParentheses hkinds hnodes node hnode).1
  have hword : keyword.toNode.isKeyword = true := hkeyword
  have hkeywordKind : keyword.kind ≠ .punctuation ∧ keyword.kind ≠ .comment :=
    ⟨kind_ne_of_isKeyword hword rfl, kind_ne_of_isKeyword hword rfl⟩
  have hnameKind : name.kind ≠ .punctuation := by simp [hname]
  obtain ⟨front, first, last, rest, heq, rfl, rfl⟩ := exists_chunk before after
    (Lexeme.isMark_of_kind_ne hnameKind) (Lexeme.isMark_of_kind_ne hkeywordKind.1) 0
  have hpiece : first ++ name :: .dot :: keyword :: last ∈ Lexeme.statements
      (front.flatten ++ first ++ name :: .dot :: keyword :: (last ++ rest.flatten)) := by
    rw [Lexeme.statements, heq]
    refine List.mem_filter.2 ⟨by simp, List.any_eq_true.2 ⟨name, by simp, ?_⟩⟩
    simp [Lexeme.isSubstantial, hname, Lexeme.isMark]
  have hpieces : (splitStatements (stripped stripComments nodes)).map fringeAll =
      (Lexeme.statements (front.flatten ++ first ++ name :: .dot :: keyword ::
        (last ++ rest.flatten))).map (Lexeme.stripped stripComments) := by
    rw [← map_splitStatements_groupParentheses hkinds hnodes]
    cases stripComments with
    | false => simp [stripped, Lexeme.stripped]
    | true => exact map_splitStatements_withoutComments hbracketed
  obtain ⟨row, hrow, hfringe⟩ := List.mem_map.1 (hpieces ▸ List.mem_map_of_mem hpiece)
  have hrowBracketed : ∀ node ∈ row, Bracketed node := fun node hnode =>
    (bracketed_stripped hbracketed stripComments).1 node
      (mem_of_mem_cutAtSemicolons (List.mem_filter.1 hrow).1 hnode)
  have hstripped : Lexeme.stripped stripComments (first ++ name :: .dot :: keyword :: last) =
      Lexeme.stripped stripComments first ++ name :: .dot :: keyword ::
        Lexeme.stripped stripComments last := by
    cases stripComments <;>
      simp [Lexeme.stripped, Lexeme.withoutComment, hname, hkeywordKind.2, Lexeme.dot]
  refine ⟨first, last, statement row, List.suffix_append _ _, List.prefix_append _ _,
    List.mem_map_of_mem hrow, ?_⟩
  exact (holdsDotted_groupAll hname hkeyword hbounds hrowBracketed
    (hfringe.trans hstripped)).of_group _

/-- A clause keyword behind a dot is a part of the name before it. -/
theorem holdsDotted_of_ofText_from :
    ∃ (before after : List Lexeme) (name keyword : Lexeme) (trees : List Node),
      Lexeme.ofText "SELECT t.from FROM t" = .ok (before ++ name :: .dot :: keyword :: after) ∧
      name.kind = .name ∧ keyword.kind.isKeyword = true ∧ keyword.bounds = false ∧
      statementsOfText "SELECT t.from FROM t" true = .ok trees ∧
      ∃ first last tree, first <:+ before ∧ last <+: after ∧ tree ∈ trees ∧
        HoldsDotted name keyword (Lexeme.stripped true first) (Lexeme.stripped true last)
          [tree] := by
  have hlexemes : Lexeme.ofText "SELECT t.from FROM t" =
      .ok ([⟨.keyword .dml, "SELECT"⟩, ⟨.whitespace, " "⟩] ++ ⟨.name, "t"⟩ :: .dot ::
        ⟨.keyword .generic, "from"⟩ :: [⟨.whitespace, " "⟩, ⟨.keyword .generic, "FROM"⟩,
          ⟨.whitespace, " "⟩, ⟨.name, "t"⟩]) := eq_ok_of_toOption (by decide +kernel)
  have hbounds : Lexeme.bounds ⟨.keyword .generic, "from"⟩ = false := by decide +kernel
  obtain ⟨trees, htrees⟩ : ∃ trees, statementsOfText "SELECT t.from FROM t" true = .ok trees :=
    exists_of_isOk (by decide +kernel)
  exact ⟨_, _, ⟨.name, "t"⟩, ⟨.keyword .generic, "from"⟩, trees, hlexemes, rfl, rfl, hbounds, htrees,
    holdsDotted_of_ofText hlexemes rfl rfl hbounds htrees⟩

theorem mem_placesIn_append {place : Place} {depth : Nat} {first second : List Node}
    (h : place ∈ placesIn depth second) : place ∈ placesIn depth (first ++ second) := by
  induction first with
  | nil => exact h
  | cons node first ih =>
    rw [List.cons_append, placesIn]
    exact List.mem_cons_of_mem _ (List.mem_append_right _ ih)

/-- Somewhere in the row there is an identifier with the keyword among its parts. -/
theorem HoldsDotted.exists_place {before after : List Lexeme} {row : List Node}
    (h : HoldsDotted name keyword before after row) (depth : Nat) :
    ∃ place ∈ placesIn depth row, place.node.kind = .identifier ∧
      keyword.toNode ∈ place.node.children := by
  induction h generalizing depth with
  | @here left right parts others before hname =>
    refine ⟨⟨depth, group .identifier (parts ++ Lexeme.dot.toNode :: keyword.toNode :: others),
      right⟩, mem_placesIn_append ?_, rfl, by simp⟩
    rw [placesIn]
    exact List.mem_cons_self
  | @inside left right children kind before after _ ih =>
    obtain ⟨place, hplace, hkind, hmem⟩ := ih (depth + 1)
    refine ⟨place, mem_placesIn_append ?_, hkind, hmem⟩
    rw [placesIn, placesBelow]
    exact List.mem_cons_of_mem _ (List.mem_append_left _ hplace)

/-- The keyword of another clause closes a `WHERE`, even where it stands behind the dot of a
name. -/
theorem not_holdsDotted_limit : ¬ ∀ (sql : String) (before after : List Lexeme)
    (name keyword : Lexeme) (stripComments : Bool) (trees : List Node),
    Lexeme.ofText sql = .ok (before ++ name :: .dot :: keyword :: after) → name.kind = .name →
    keyword.kind.isKeyword = true → statementsOfText sql stripComments = .ok trees →
      ∃ first last tree, first <:+ before ∧ last <+: after ∧ tree ∈ trees ∧
        HoldsDotted name keyword (Lexeme.stripped stripComments first)
          (Lexeme.stripped stripComments last) [tree] := by
  intro hall
  have hlexemes : Lexeme.ofText "SELECT a FROM t WHERE t.limit = 1" =
      .ok ([⟨.keyword .dml, "SELECT"⟩, ⟨.whitespace, " "⟩, ⟨.name, "a"⟩, ⟨.whitespace, " "⟩,
          ⟨.keyword .generic, "FROM"⟩, ⟨.whitespace, " "⟩, ⟨.name, "t"⟩, ⟨.whitespace, " "⟩,
          ⟨.keyword .generic, "WHERE"⟩, ⟨.whitespace, " "⟩] ++
        ⟨.name, "t"⟩ :: .dot :: ⟨.keyword .generic, "limit"⟩ ::
          [⟨.whitespace, " "⟩, ⟨.comparisonOperator, "="⟩, ⟨.whitespace, " "⟩, ⟨.literal, "1"⟩]) :=
    eq_ok_of_toOption (by decide +kernel)
  have hparts : ((statementsOfText "SELECT a FROM t WHERE t.limit = 1" true).toOption.any fun trees =>
      trees.all fun tree => (placesIn 0 [tree]).all fun place => !place.node.isKind .identifier ||
        place.node.children.all (!·.isWord "LIMIT")) = true := by decide +kernel
  have hword : (Lexeme.toNode ⟨.keyword .generic, "limit"⟩).isWord "LIMIT" = true := by decide +kernel
  obtain ⟨trees, htrees, hparts⟩ := exists_of_any hparts
  obtain ⟨first, last, tree, -, -, htree, hheld⟩ :=
    hall _ _ _ ⟨.name, "t"⟩ ⟨.keyword .generic, "limit"⟩ true trees hlexemes rfl rfl htrees
  obtain ⟨place, hplace, hkind, hmem⟩ := hheld.exists_place 0
  have hnone := List.all_eq_true.1 (List.all_eq_true.1 hparts tree htree) place hplace
  rw [isKind, hkind] at hnone
  have hlimit := List.all_eq_true.1 hnone _ hmem
  rw [hword] at hlimit
  cases hlimit

end QueryLineage.Node