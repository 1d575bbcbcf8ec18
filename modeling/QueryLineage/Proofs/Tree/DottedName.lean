import QueryLineage.Proofs.Tree.Dotted

/-!
# Keywords behind dots, level by level

The pass that joins the parts of names takes a keyword behind a dot for one of them. The passes for
`CASE` blocks and `WHERE` clauses come first and look for keywords wherever they stand, but a keyword
that neither opens nor closes such a group passes them together with its dot and its name.
-/

namespace QueryLineage

/-- Whether the keyword can open or close a `WHERE` clause or a `CASE` block. -/
def Lexeme.bounds (keyword : Lexeme) : Bool :=
  keyword.toNode.isWordIn (["WHERE", "CASE", "END"] ++ Keyword.whereTerminators)

namespace Node

variable {name keyword : Lexeme}

/-- A row in two parts is grouped part by part, or one group reaches from the first part into the
second. The induction takes a node with all that is grouped with it at a time. -/
theorem joinOnce_append (extent : Node → List Node → Option Nat) (kind : Kind)
    (left right : List Node) :
    (∃ first, joinOnce extent (enclose kind) (left ++ right) =
        first ++ joinOnce extent (enclose kind) right ∧ fringeAll left = fringeAll first) ∨
    ∃ first node siblings n,
      extent node (siblings ++ right) = some (siblings.length + (n + 1)) ∧
      joinOnce extent (enclose kind) (left ++ right) =
        first ++ enclose kind node (siblings ++ right.take (n + 1)) ::
          joinOnce extent (enclose kind) (right.drop (n + 1)) ∧
      fringeAll left = fringeAll first ++ fringeAll (node :: siblings) := by
  generalize hrow : left ++ right = row
  fun_induction joinOnce extent (enclose kind) row generalizing left with
  | case1 =>
    obtain ⟨rfl, rfl⟩ := List.append_eq_nil_iff.1 hrow
    exact Or.inl ⟨[], by rw [joinOnce_nil]; rfl, rfl⟩
  | case2 node siblings n hn ih =>
    cases left with
    | nil =>
      obtain rfl : right = node :: siblings := hrow
      exact Or.inl ⟨[], by rw [joinOnce_cons_of_some hn]; rfl, rfl⟩
    | cons node left =>
      rw [List.cons_append] at hrow
      obtain ⟨rfl, rfl⟩ := List.cons.inj hrow
      rcases Nat.lt_or_ge left.length n with hlong | hshort
      · obtain ⟨m, rfl⟩ : ∃ m, n = left.length + (m + 1) := ⟨n - left.length - 1, by omega⟩
        refine Or.inr ⟨[], node, left, m, hn, ?_, by simp⟩
        rw [List.take_length_add_append, List.drop_length_add_append]
        rfl
      · have hjoined : fringeAll (node :: left) =
            (enclose kind node (left.take n)).fringe ++ fringeAll (left.drop n) := by
          rw [fringe_enclose, List.append_assoc, ← fringeAll_append, List.take_append_drop,
            fringeAll_cons]
        rw [List.take_append_of_le_length hshort, hjoined]
        rcases ih (left.drop n) (List.drop_append_of_le_length hshort).symm with
          ⟨first, heq, hfirst⟩ | ⟨first, other, others, m, hm, heq, hfirst⟩
        · exact Or.inl ⟨enclose kind node (left.take n) :: first, by rw [heq]; rfl,
            by rw [hfirst, fringeAll_cons]⟩
        · exact Or.inr ⟨enclose kind node (left.take n) :: first, other, others, m, hm,
            by rw [heq]; rfl, by rw [hfirst, ← List.append_assoc, ← fringeAll_cons]⟩
  | case3 node siblings hn ih =>
    cases left with
    | nil =>
      obtain rfl : right = node :: siblings := hrow
      exact Or.inl ⟨[], by rw [joinOnce_cons_of_none hn]; rfl, rfl⟩
    | cons node left =>
      rw [List.cons_append] at hrow
      obtain ⟨rfl, rfl⟩ := List.cons.inj hrow
      rcases ih left rfl with ⟨first, heq, hfirst⟩ | ⟨first, other, others, m, hm, heq, hfirst⟩
      · exact Or.inl ⟨node :: first, by rw [heq]; rfl, by rw [fringeAll_cons, hfirst, fringeAll_cons]⟩
      · exact Or.inr ⟨node :: first, other, others, m, hm, by rw [heq]; rfl,
          by rw [fringeAll_cons, hfirst, ← List.append_assoc, ← fringeAll_cons]⟩

theorem kind_ne_of_spaced {filler : Filler} {ps : List (Node → Bool)} {row : List Node}
    (hps : ∀ p ∈ ps, ∀ node, p node = true → node.kind ≠ .punctuation) (h : Spaced filler ps row) :
    ∀ node ∈ row, node.kind ≠ .punctuation := by
  induction ps generalizing row with
  | nil =>
    obtain rfl : row = [] := h
    simp
  | cons p ps ih =>
    obtain ⟨skipped, found, rest, rfl, hskipped, hfound, hrest⟩ := h
    intro node hnode
    rcases List.mem_append.1 hnode with hnode | hnode
    · intro hkind
      have hfiller := hskipped node hnode
      simp [isFiller, isWhitespace, isComment, hkind] at hfiller
    · rcases List.mem_cons.1 hnode with rfl | hnode
      · exact hps p List.mem_cons_self _ hfound
      · exact ih (fun q hq => hps q (List.mem_cons_of_mem _ hq)) hrest node hnode

theorem kind_ne_of_callExtent {node : Node} {siblings : List Node} {n : Nat}
    (h : callExtent node siblings = some n) :
    ∀ other ∈ siblings.take n, other.kind ≠ .punctuation := by
  unfold callExtent at h
  split at h
  case isFalse => cases h
  obtain ⟨m, hm, rfl⟩ := Option.map_eq_some_iff.1 h
  rw [List.take_add]
  intro other hother
  rcases List.mem_append.1 hother with hother | hother
  · refine kind_ne_of_spaced ?_ (spaced_take_of_reach hm) other hother
    intro p hp found hfound
    obtain rfl := List.mem_singleton.1 hp
    rw [beq_iff_eq.1 hfound]
    simp
  · cases hwindow : windowExtent (siblings.drop m) with
    | none => simp [hwindow] at hother
    | some k =>
      rw [hwindow] at hother
      refine kind_ne_of_spaced ?_ (spaced_take_of_reaches hwindow) other hother
      intro p hp found hfound hkind
      simp only [List.mem_cons, List.not_mem_nil, or_false] at hp
      rcases hp with rfl | rfl
      · simp [isWord, isKeyword, hkind, Kind.isKeyword] at hfound
      · simp [isKind, hkind] at hfound

theorem isKind_dot (kind : Kind) (h : kind ≠ .punctuation) :
    Lexeme.dot.toNode.isKind kind = false := by
  simp [isKind, Lexeme.dot, Lexeme.toNode, h.symm]

theorem kind_ne_of_isKeyword {node : Node} (h : node.isKeyword = true) {kind : Kind}
    (hkind : kind.isKeyword = false) : node.kind ≠ kind := by
  rintro rfl
  rw [isKeyword, hkind] at h
  cases h

theorem le_of_callExtent {node last : Node} {left right : List Node} {n : Nat}
    (h : callExtent node (left ++ last :: Lexeme.dot.toNode :: right) = some n) :
    n ≤ left.length + 1 := by
  refine Nat.le_of_not_lt fun hmore => kind_ne_of_callExtent h Lexeme.dot.toNode ?_ rfl
  obtain ⟨m, rfl⟩ : ∃ m, n = left.length + (m + 2) := ⟨n - left.length - 2, by omega⟩
  rw [List.take_length_add_append]
  simp

/-- The dot and the keyword are in no call, unless it ends with the name before them. -/
theorem exists_joinOnce_callExtent (hname : name.kind = .name)
    (hkeyword : keyword.toNode.isKeyword = true) (left : List Node) {right : List Node}
    (hfilled : ∀ node ∈ right, node.Filled) :
    ∃ first node second ending, joinOnce callExtent (enclose .function)
        (left ++ name.toNode :: Lexeme.dot.toNode :: keyword.toNode :: right) =
          first ++ node :: Lexeme.dot.toNode :: keyword.toNode :: second ∧
      (node.kind = .name ∨ node.kind = .function) ∧ node.fringe = ending ++ [name] ∧
      fringeAll left = fringeAll first ++ ending ∧ fringeAll right = fringeAll second := by
  have hdot : ∀ siblings, callExtent Lexeme.dot.toNode siblings = none := fun siblings => by
    simp [callExtent, isKind_dot]
  have hkind : keyword.toNode.kind ≠ .name := kind_ne_of_isKeyword hkeyword rfl
  have hword : ∀ siblings, callExtent keyword.toNode siblings = none := fun siblings => by
    simp [callExtent, isKind, hkind]
  have hbare : ∀ siblings, callExtent name.toNode (Lexeme.dot.toNode :: siblings) = none := by
    intro siblings
    have hfiller : Lexeme.dot.toNode.isFiller .blanks = false := rfl
    simp [callExtent, reach, hfiller, isKind_dot]
  have hbehind : joinOnce callExtent (enclose .function)
      (Lexeme.dot.toNode :: keyword.toNode :: right) =
        Lexeme.dot.toNode :: keyword.toNode :: joinOnce callExtent (enclose .function) right := by
    rw [joinOnce_cons_of_none (hdot _), joinOnce_cons_of_none (hword _)]
  have hright : fringeAll (joinOnce callExtent (enclose .function) right) = fringeAll right :=
    (KeepsFringe.joinOnce_enclose .function).fringe right hfilled
  rcases joinOnce_append callExtent .function left
      (name.toNode :: Lexeme.dot.toNode :: keyword.toNode :: right) with
    ⟨first, heq, hfirst⟩ | ⟨first, node, siblings, n, hn, heq, hfirst⟩
  · refine ⟨first, name.toNode, joinOnce callExtent (enclose .function) right, [], ?_, Or.inl hname,
      by simp, by simp [hfirst], hright.symm⟩
    rw [heq, joinOnce_cons_of_none (hbare _), hbehind]
  · obtain rfl : n = 0 := by
      have hle := le_of_callExtent hn
      omega
    refine ⟨first, enclose .function node (siblings ++ [name.toNode]),
      joinOnce callExtent (enclose .function) right, fringeAll (node :: siblings), ?_, Or.inr rfl,
      by simp, hfirst, hright.symm⟩
    rw [heq, ← hbehind]
    rfl

theorem dottedExtent_dot (hkeyword : keyword.toNode.isKeyword = true) (right : List Node) :
    dottedExtent (Lexeme.dot.toNode :: keyword.toNode :: right) = dottedExtent right + 2 := by
  have hpart : keyword.toNode.isNamePart = true := by
    unfold isKeyword at hkeyword
    unfold isNamePart
    cases hkind : keyword.toNode.kind <;> simp_all [Kind.isKeyword]
  rw [dottedExtent, hpart]
  rfl

/-- A row of dots and parts that reaches the name goes on behind it. The induction takes a dot and a
part at a time. -/
theorem dottedExtent_append {node : Node} (hnode : node.isMark "." = false)
    (hkeyword : keyword.toNode.isKeyword = true) (right : List Node) : ∀ left : List Node,
    dottedExtent (left ++ node :: Lexeme.dot.toNode :: keyword.toNode :: right) ≤ left.length ∨
    ∃ more, dottedExtent (left ++ node :: Lexeme.dot.toNode :: keyword.toNode :: right) =
      left.length + (more + 3)
  | [] => by
    refine Or.inl ?_
    rw [List.nil_append, dottedExtent, hnode]
    simp
  | [dot] => by
    rw [List.singleton_append, dottedExtent, dottedExtent_dot hkeyword]
    split
    · exact Or.inr ⟨dottedExtent right, by simp; omega⟩
    · exact Or.inl (Nat.zero_le _)
  | dot :: part :: left => by
    rw [List.cons_append, List.cons_append, dottedExtent]
    split
    · rcases dottedExtent_append hnode hkeyword right left with hle | ⟨more, heq⟩
      · exact Or.inl (by simpa using hle)
      · exact Or.inr ⟨more, by rw [heq]; simp; omega⟩
    · exact Or.inl (Nat.zero_le _)

/-- Behind a name or a call that ends with one, the dot and the keyword become parts of it. -/
theorem holdsDotted_joinOnce_identifierExtent {node : Node}
    (hnode : node.kind = .name ∨ node.kind = .function) {ending : List Lexeme}
    (hending : node.fringe = ending ++ [name]) (hkeyword : keyword.toNode.isKeyword = true)
    (left : List Node) {right : List Node} (hfilled : ∀ node ∈ right, node.Filled) :
    HoldsDotted name keyword (fringeAll left ++ ending) (fringeAll right)
      (joinOnce identifierExtent (enclose .identifier)
        (left ++ node :: Lexeme.dot.toNode :: keyword.toNode :: right)) := by
  have hright : ∀ m, fringeAll right = fringeAll (right.take m) ++
      fringeAll (joinOnce identifierExtent (enclose .identifier) (right.drop m)) := by
    intro m
    have hrest : fringeAll (joinOnce identifierExtent (enclose .identifier) (right.drop m)) =
        fringeAll (right.drop m) := (KeepsFringe.joinOnce_enclose .identifier).fringe _
      fun other hother => hfilled other (List.mem_of_mem_drop hother)
    rw [hrest, ← fringeAll_append, List.take_append_drop]
  rcases joinOnce_append identifierExtent .identifier left
      (node :: Lexeme.dot.toNode :: keyword.toNode :: right) with
    ⟨first, heq, hfirst⟩ | ⟨first, head, siblings, n, hn, heq, hfirst⟩
  · have hextent : identifierExtent node (Lexeme.dot.toNode :: keyword.toNode :: right) =
        some (dottedExtent right + 2) := by
      rcases hnode with hnode | hnode <;>
        simp [identifierExtent, isKind, hnode, dottedExtent_dot hkeyword]
    have hparts : fringeAll [node] = (fringeAll [] ++ ending) ++ [name] := by simp [hending]
    rw [heq, hfirst, joinOnce_cons_of_some hextent, hright (dottedExtent right)]
    exact (HoldsDotted.first hparts).append_left first
  · have hextent : dottedExtent (siblings ++ node :: Lexeme.dot.toNode :: keyword.toNode :: right) =
        siblings.length + (n + 1) := by
      unfold identifierExtent at hn
      dsimp only at hn
      split at hn
      · exact Option.some.inj hn
      · cases hn
    have hmark : node.isMark "." = false := by
      apply isMark_of_kind_ne
      rcases hnode with hnode | hnode <;> simp [hnode]
    obtain ⟨m, rfl⟩ : ∃ m, n = m + 2 := by
      rcases dottedExtent_append hmark hkeyword right siblings with hle | ⟨m, hm⟩
      · omega
      · exact ⟨m, by omega⟩
    have hparts : fringeAll (head :: (siblings ++ [node])) =
        (fringeAll (head :: siblings) ++ ending) ++ [name] := by
      simp [hending]
    rw [heq, hfirst, hright m]
    simpa [enclose] using (HoldsDotted.first hparts).append_left first

/-- The name, the dot and the keyword stand in the row by themselves, or in an identifier
already. -/
inductive Awaits (name keyword : Lexeme) : List Lexeme → List Lexeme → List Node → Prop
  | apart {left right : List Node} : Awaits name keyword (fringeAll left) (fringeAll right)
      (left ++ name.toNode :: Lexeme.dot.toNode :: keyword.toNode :: right)
  | held {before after : List Lexeme} {row : List Node}
      (h : HoldsDotted name keyword before after row) : Awaits name keyword before after row

namespace Awaits

variable {before after : List Lexeme} {row others : List Node}

theorem first {right : List Node} : Awaits name keyword [] (fringeAll right)
    (name.toNode :: Lexeme.dot.toNode :: keyword.toNode :: right) :=
  @apart name keyword [] right

theorem append_left (h : Awaits name keyword before after row) (others : List Node) :
    Awaits name keyword (fringeAll others ++ before) after (others ++ row) := by
  cases h with
  | apart =>
    rw [← fringeAll_append, ← List.append_assoc]
    exact .apart
  | held h => exact .held (h.append_left others)

/-- A row can be cut where neither the dot nor the keyword follows. -/
theorem of_append (hdot : others.head? ≠ some Lexeme.dot.toNode)
    (hkeyword : others.head? ≠ some keyword.toNode)
    (h : Awaits name keyword before after (row ++ others)) :
    (∃ rest, after = rest ++ fringeAll others ∧ Awaits name keyword before rest row) ∨
    ∃ rest, before = fringeAll row ++ rest ∧ Awaits name keyword rest after others := by
  generalize hrow : row ++ others = both at h
  cases h with
  | @apart left right =>
    rcases List.append_eq_append_iff.1 hrow with ⟨middle, rfl, rfl⟩ | ⟨middle, rfl, hmiddle⟩
    · exact Or.inr ⟨fringeAll middle, by simp, .apart⟩
    · match middle with
      | [] =>
        obtain rfl : others = _ := by simpa using hmiddle.symm
        exact Or.inr ⟨[], by simp, .first⟩
      | [_] =>
        simp only [List.cons_append, List.nil_append, List.cons.injEq] at hmiddle
        exact absurd (by rw [← hmiddle.2]; rfl) hdot
      | [_, _] =>
        simp only [List.cons_append, List.nil_append, List.cons.injEq] at hmiddle
        exact absurd (by rw [← hmiddle.2.2]; rfl) hkeyword
      | _ :: _ :: _ :: middle =>
        simp only [List.cons_append, List.cons.injEq] at hmiddle
        obtain ⟨rfl, rfl, rfl, rfl⟩ := hmiddle
        exact Or.inl ⟨fringeAll middle, by simp, .apart⟩
  | held h =>
    rw [← hrow] at h
    rcases h.of_append with ⟨rest, rfl, hheld⟩ | ⟨rest, rfl, hheld⟩
    · exact Or.inl ⟨rest, rfl, .held hheld⟩
    · exact Or.inr ⟨rest, rfl, .held hheld⟩

theorem of_cons {node : Node} (hname : node ≠ name.toNode)
    (h : Awaits name keyword before after (node :: row)) :
    (∃ rest, after = rest ++ fringeAll row ∧ HoldsDotted name keyword before rest [node]) ∨
    ∃ rest, before = node.fringe ++ rest ∧ Awaits name keyword rest after row := by
  generalize hrow : node :: row = both at h
  cases h with
  | @apart left right =>
    cases left with
    | nil => exact absurd (List.cons.inj hrow).1 hname
    | cons first left =>
      obtain ⟨rfl, rfl⟩ := List.cons.inj hrow
      exact Or.inr ⟨fringeAll left, by simp, .apart⟩
  | held h =>
    rw [← hrow, ← List.singleton_append] at h
    rcases h.of_append with ⟨rest, rfl, hheld⟩ | ⟨rest, rfl, hheld⟩
    · exact Or.inl ⟨rest, rfl, hheld⟩
    · exact Or.inr ⟨rest, by simp, .held hheld⟩

theorem groupExpressions (hname : name.kind = .name) (hkeyword : keyword.toNode.isKeyword = true)
    (hfilled : ∀ node ∈ row, node.Filled) (h : Awaits name keyword before after row) :
    HoldsDotted name keyword before after (groupExpressions row) := by
  cases h with
  | held h => exact (KeepsDotted.groupExpressions.retains row hfilled).dotted _ _ h
  | @apart left right =>
    have hcalls : ∀ node ∈ joinOnce callExtent (enclose .function)
        (left ++ name.toNode :: Lexeme.dot.toNode :: keyword.toNode :: right), node.Filled :=
      (KeepsFringe.joinOnce_enclose .function).filled _ hfilled
    have hright : ∀ node ∈ right, node.Filled := fun node hnode => hfilled node (by simp [hnode])
    obtain ⟨first, node, second, ending, heq, hnode, hending, hleft, hsecond⟩ :=
      exists_joinOnce_callExtent hname hkeyword left hright
    have hlater : ∀ node ∈ second, node.Filled :=
      fun other hother => hcalls other (by rw [heq]; simp [hother])
    have hheld := holdsDotted_joinOnce_identifierExtent hnode hending hkeyword first hlater
    rw [← hleft, ← hsecond, ← heq] at hheld
    have hnames : ∀ node ∈ joinOnce identifierExtent (enclose .identifier)
        (joinOnce callExtent (enclose .function)
          (left ++ name.toNode :: Lexeme.dot.toNode :: keyword.toNode :: right)), node.Filled :=
      (KeepsFringe.joinOnce_enclose .identifier).filled _ hcalls
    exact (KeepsDotted.laterPasses.retains _ hnames).dotted _ _ hheld

/-- A row that is regrouped behind its first node, where a dot and a keyword stay. -/
theorem cons_of_regrouped {node : Node} {regrouped : List Node}
    (hfringe : fringeAll regrouped = fringeAll row)
    (hapart : ∀ right, row = Lexeme.dot.toNode :: keyword.toNode :: right →
      ∃ others, regrouped = Lexeme.dot.toNode :: keyword.toNode :: others)
    (hrow : ∀ {before}, Awaits name keyword before after row →
      Awaits name keyword before after regrouped)
    (h : Awaits name keyword before after (node :: row)) :
    Awaits name keyword before after (node :: regrouped) := by
  generalize hboth : node :: row = both at h
  cases h with
  | @apart left right =>
    cases left with
    | nil =>
      obtain ⟨rfl, rfl⟩ := List.cons.inj hboth
      obtain ⟨others, rfl⟩ := hapart right rfl
      obtain hothers : fringeAll others = fringeAll right := by simpa using hfringe
      rw [← hothers]
      exact .first
    | cons first left =>
      rw [List.cons_append] at hboth
      obtain ⟨rfl, rfl⟩ := List.cons.inj hboth
      simpa using (hrow .apart).append_left [node]
  | held h =>
    rw [← hboth, ← List.singleton_append] at h
    rcases h.of_append with ⟨rest, rfl, hheld⟩ | ⟨rest, rfl, hheld⟩
    · rw [← hfringe]
      exact .held (hheld.append_right regrouped)
    · exact (hrow (.held hheld)).append_left [node]

end Awaits

section

variable {before after : List Lexeme} {row : List Node} (hname : name.kind = .name)
  (hkeyword : keyword.toNode.isKeyword = true) (hbounds : keyword.bounds = false)

include hname in
theorem ne_name_of_isKeyword {node : Node} (h : node.isKeyword = true) : node ≠ name.toNode := by
  rintro rfl
  exact kind_ne_of_isKeyword h rfl hname

theorem ne_dot_of_isKeyword {node : Node} (h : node.isKeyword = true) :
    node ≠ Lexeme.dot.toNode := by
  rintro rfl
  cases h

include hbounds in
theorem isWordIn_eq_false_of_bounds {words : List String}
    (hwords : words ⊆ ["WHERE", "CASE", "END"] ++ Keyword.whereTerminators) :
    keyword.toNode.isWordIn words = false := by
  rw [← Bool.not_eq_true] at hbounds ⊢
  intro hword
  simp only [isWordIn, Bool.and_eq_true, List.contains_iff_mem] at hword
  refine hbounds ?_
  simp only [Lexeme.bounds, isWordIn, Bool.and_eq_true, List.contains_iff_mem]
  exact ⟨hword.1, hwords hword.2⟩

include hbounds in
theorem isWord_eq_false_of_bounds {word : String}
    (hword : word ∈ ["WHERE", "CASE", "END"]) : keyword.toNode.isWord word = false := by
  have hnone : keyword.toNode.isWordIn [word] = false :=
    isWordIn_eq_false_of_bounds hbounds fun other hother => by
      obtain rfl := List.mem_singleton.1 hother
      exact List.mem_append_left _ hword
  simpa [isWordIn, isWord, Bool.beq_eq_decide_eq] using hnone

section

variable {node : Node} {first second inner regrouped : List Node} {kind : Kind}
  (hnode : node.isKeyword = true) (hinner : fringeAll inner = fringeAll first)
  (hgrouped : ∀ {before after}, Awaits name keyword before after first →
    HoldsDotted name keyword before after inner)
  (hrest : fringeAll regrouped = fringeAll second)
  (hregrouped : ∀ {before}, Awaits name keyword before after second →
    Awaits name keyword before after regrouped)
include hname hnode hinner hgrouped hrest hregrouped

/-- A clause that is grouped up to a node that is neither the dot nor the keyword. -/
theorem Awaits.of_clause (hdot : second.head? ≠ some Lexeme.dot.toNode)
    (hend : second.head? ≠ some keyword.toNode)
    (h : Awaits name keyword before after (node :: (first ++ second))) :
    Awaits name keyword before after (group kind (node :: inner) :: regrouped) := by
  rw [← List.singleton_append (x := group kind (node :: inner))]
  rcases h.of_cons (ne_name_of_isKeyword hname hnode) with ⟨rest, rfl, hheld⟩ | ⟨rest, rfl, hafter⟩
  · rw [fringeAll_append, ← hinner, ← hrest, ← List.append_assoc]
    exact .held (((hheld.append_right inner).of_group kind).append_right regrouped)
  · rcases hafter.of_append hdot hend with ⟨later, rfl, hheld⟩ | ⟨later, rfl, hlater⟩
    · rw [← hrest]
      have hgroup := ((hgrouped hheld).append_left [node]).of_group kind
      exact .held (by simpa using hgroup.append_right regrouped)
    · rw [← hinner]
      simpa using (hregrouped hlater).append_left [group kind (node :: inner)]

/-- A block is a clause with its last keyword in the group. -/
theorem Awaits.of_block {ending : Node} (hending : ending.isKeyword = true)
    (hend : ending ≠ keyword.toNode)
    (h : Awaits name keyword before after (node :: (first ++ ending :: second))) :
    Awaits name keyword before after (group kind (node :: (inner ++ [ending])) :: regrouped) := by
  rw [← List.singleton_append (x := group kind (node :: (inner ++ [ending])))]
  rcases h.of_cons (ne_name_of_isKeyword hname hnode) with ⟨rest, rfl, hheld⟩ | ⟨rest, rfl, hafter⟩
  · rw [fringeAll_append, fringeAll_cons, ← hinner, ← hrest]
    have hgroup := (hheld.append_right (inner ++ [ending])).of_group kind
    exact .held (by simpa using hgroup.append_right regrouped)
  · rcases hafter.of_append (by simpa using ne_dot_of_isKeyword hending) (by simpa using hend) with
      ⟨later, rfl, hheld⟩ | ⟨later, rfl, hlater⟩
    · rw [fringeAll_cons, ← hrest]
      have hgroup := (((hgrouped hheld).append_right [ending]).append_left [node]).of_group kind
      exact .held (by simpa using hgroup.append_right regrouped)
    · rcases hlater.of_cons (ne_name_of_isKeyword hname hending) with
        ⟨last, rfl, hheld⟩ | ⟨last, rfl, hawaits⟩
      · rw [← hinner, ← hrest]
        have hgroup := (hheld.append_left (node :: inner)).of_group kind
        exact .held (by simpa using hgroup.append_right regrouped)
      · rw [← hinner]
        simpa using (hregrouped hawaits).append_left [group kind (node :: (inner ++ [ending]))]

end

include hname hkeyword hbounds

/-- Neither the beginning nor the end of a block cuts the name, the dot and the keyword apart. -/
theorem Awaits.groupCases (hfilled : ∀ node ∈ row, node.Filled)
    (h : Awaits name keyword before after row) :
    Awaits name keyword before after (groupCases row) := by
  have hcase : keyword.toNode.isWord "CASE" = false := isWord_eq_false_of_bounds hbounds (by simp)
  have hend : keyword.toNode.isWord "END" = false := isWord_eq_false_of_bounds hbounds (by simp)
  have happart : ∀ siblings right, siblings = Lexeme.dot.toNode :: keyword.toNode :: right →
      ∃ others, Node.groupCases siblings = Lexeme.dot.toNode :: keyword.toNode :: others := by
    rintro siblings right rfl
    exact ⟨_, by rw [groupCases_cons rfl, groupCases_cons hcase]⟩
  fun_induction Node.groupCases row generalizing before after with
  | case1 => exact h
  | case2 node siblings hword n hn ihinner ihrest =>
    obtain ⟨ending, hget, hending⟩ := exists_of_blockLength? hn
    have hclosing : (siblings.drop n).take 1 = [ending] := by
      rw [List.take_one, List.head?_drop, hget]
      rfl
    have hsplit : siblings = siblings.take n ++ ending :: siblings.drop (n + 1) := by
      have hdrop := List.take_append_drop 1 (siblings.drop n)
      rw [hclosing, List.drop_drop, List.singleton_append] at hdrop
      rw [hdrop, List.take_append_drop]
    have hinner : ∀ sibling ∈ siblings.take n, sibling.Filled := fun sibling hsibling =>
      hfilled sibling (List.mem_cons_of_mem _ (List.mem_of_mem_take hsibling))
    have hrest : ∀ sibling ∈ siblings.drop (n + 1), sibling.Filled := fun sibling hsibling =>
      hfilled sibling (List.mem_cons_of_mem _ (List.mem_of_mem_drop hsibling))
    rw [hclosing]
    rw [hsplit] at h
    refine h.of_block hname (Bool.and_eq_true _ _ ▸ hword).1 (KeepsFringe.groupLevel.fringe _ hinner)
      (fun hawaits => (ihinner hinner hawaits).groupExpressions hname hkeyword
        (KeepsFringe.groupCases.filled _ hinner))
      (KeepsFringe.groupCases.fringe _ hrest) (fun hawaits => ihrest hrest hawaits)
      (Bool.and_eq_true _ _ ▸ hending).1 ?_
    rintro rfl
    rw [hend] at hending
    cases hending
  | case3 node siblings _ _ ih =>
    have hrest : ∀ sibling ∈ siblings, sibling.Filled :=
      fun sibling hsibling => hfilled sibling (List.mem_cons_of_mem _ hsibling)
    exact h.cons_of_regrouped (KeepsFringe.groupCases.fringe _ hrest) (happart siblings)
      fun hrow => ih hrest hrow
  | case4 node siblings _ ih =>
    have hrest : ∀ sibling ∈ siblings, sibling.Filled :=
      fun sibling hsibling => hfilled sibling (List.mem_cons_of_mem _ hsibling)
    exact h.cons_of_regrouped (KeepsFringe.groupCases.fringe _ hrest) (happart siblings)
      fun hrow => ih hrest hrow

theorem Awaits.groupLevel (hfilled : ∀ node ∈ row, node.Filled)
    (h : Awaits name keyword before after row) :
    HoldsDotted name keyword before after (groupLevel row) :=
  (h.groupCases hname hkeyword hbounds hfilled).groupExpressions hname hkeyword
    (KeepsFringe.groupCases.filled _ hfilled)

/-- Neither a `WHERE` nor the end of its clause cuts the name, the dot and the keyword apart. -/
theorem Awaits.groupWheres (hfilled : ∀ node ∈ row, node.Filled)
    (h : Awaits name keyword before after row) :
    Awaits name keyword before after (groupWheres row) := by
  have hwhere : keyword.toNode.isWord "WHERE" = false := isWord_eq_false_of_bounds hbounds (by simp)
  have hends : keyword.toNode.endsWhere = false := by
    rw [endsWhere, isMark_of_kind_ne (kind_ne_of_isKeyword hkeyword rfl),
      isWordIn_eq_false_of_bounds hbounds (List.subset_append_right _ _)]
    rfl
  have happart : ∀ siblings right, siblings = Lexeme.dot.toNode :: keyword.toNode :: right →
      ∃ others, Node.groupWheres siblings = Lexeme.dot.toNode :: keyword.toNode :: others := by
    rintro siblings right rfl
    exact ⟨_, by rw [groupWheres_cons rfl, groupWheres_cons hwhere]⟩
  fun_induction Node.groupWheres row generalizing before after with
  | case1 => exact h
  | case2 node siblings hword clause =>
    rename_i ih
    have hsplit : clause ++ siblings.drop clause.length = siblings := by
      have hbegins : clause <+: siblings := List.takeWhile_prefix _
      obtain ⟨rest, hrest⟩ := hbegins
      rw [← hrest, List.drop_left]
    have hclause : ∀ sibling ∈ clause, sibling.Filled := fun sibling hsibling =>
      hfilled sibling (List.mem_cons_of_mem _ ((List.takeWhile_sublist _).subset hsibling))
    have hrest : ∀ sibling ∈ siblings.drop clause.length, sibling.Filled := fun sibling hsibling =>
      hfilled sibling (List.mem_cons_of_mem _ (List.mem_of_mem_drop hsibling))
    have hstops : ∀ sibling, (siblings.drop clause.length).head? = some sibling →
        sibling.endsWhere = true := by
      intro sibling hhead
      have hdrop : siblings.drop clause.length =
          siblings.dropWhile fun sibling => !sibling.endsWhere :=
        List.append_cancel_left (hsplit.trans List.takeWhile_append_dropWhile.symm)
      have hnot := List.head?_dropWhile_not (fun sibling => !endsWhere sibling) siblings
      rw [← hdrop, hhead] at hnot
      simpa using hnot
    rw [← hsplit] at h
    refine h.of_clause hname (Bool.and_eq_true _ _ ▸ hword).1
      (KeepsFringe.groupLevel.fringe _ hclause)
      (fun hawaits => hawaits.groupLevel hname hkeyword hbounds hclause)
      (KeepsFringe.groupWheres.fringe _ hrest) (fun hawaits => ih hrest hawaits) ?_ ?_
    · intro hhead
      cases hstops _ hhead
    · intro hhead
      rw [hstops _ hhead] at hends
      cases hends
  | case3 node siblings _ ih =>
    have hrest : ∀ sibling ∈ siblings, sibling.Filled :=
      fun sibling hsibling => hfilled sibling (List.mem_cons_of_mem _ hsibling)
    exact h.cons_of_regrouped (KeepsFringe.groupWheres.fringe _ hrest) (happart siblings)
      fun hrow => ih hrest hrow

theorem Awaits.groupRun (hfilled : ∀ node ∈ row, node.Filled)
    (h : Awaits name keyword before after row) :
    HoldsDotted name keyword before after (groupRun row) :=
  (h.groupWheres hname hkeyword hbounds hfilled).groupLevel hname hkeyword hbounds
    (KeepsFringe.groupWheres.filled _ hfilled)

end

end Node

end QueryLineage
