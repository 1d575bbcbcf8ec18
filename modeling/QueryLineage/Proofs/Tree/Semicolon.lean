import QueryLineage.Proofs.Tree.Brackets
import QueryLineage.Proofs.Tree.Inert

/-!
# The semicolon behind a statement

Grouping leaves the semicolon behind a statement where it is, and groups what stands before it as
if there were none: no group begins with a semicolon, none needs one, and the last clause ends
before it. Blanks and comments there are left alone likewise, except by the pass that gives an
identifier the comment behind it. Of two rows with a semicolon between them, each is cut into statements by itself.
-/

namespace QueryLineage.Node

section Reaching

variable {filler : Filler} {p : Node → Bool} {last : Node}

theorem reach_concat (hp : p last = false) (siblings : List Node) :
    reach filler p (siblings ++ [last]) = reach filler p siblings := by
  induction siblings with
  | nil => simp [reach, hp]
  | cons node siblings ih => rw [List.cons_append, reach, reach, ih]

theorem reach_le_length {siblings : List Node} {n : Nat} (h : reach filler p siblings = some n) :
    n ≤ siblings.length := by
  induction siblings generalizing n with
  | nil => cases h
  | cons node siblings ih =>
    rw [reach] at h
    split at h
    · obtain ⟨m, hm, rfl⟩ := Option.map_eq_some_iff.1 h
      exact Nat.succ_le_succ (ih hm)
    · split at h
      · cases h
        simp
      · cases h

theorem reaches_le_length {ps : List (Node → Bool)} {siblings : List Node} {n : Nat}
    (h : reaches filler ps siblings = some n) : n ≤ siblings.length := by
  induction ps generalizing siblings n with
  | nil =>
    cases h
    exact Nat.zero_le _
  | cons p ps ih =>
    obtain ⟨m, hm, h⟩ := Option.bind_eq_some_iff.1 h
    obtain ⟨k, hk, h⟩ := Option.bind_eq_some_iff.1 h
    cases h
    have hfirst := reach_le_length hm
    have hrest := ih hk
    rw [List.length_drop] at hrest
    omega

theorem reaches_concat {ps : List (Node → Bool)} (hps : ∀ p ∈ ps, p last = false)
    (siblings : List Node) :
    reaches filler ps (siblings ++ [last]) = reaches filler ps siblings := by
  induction ps generalizing siblings with
  | nil => rfl
  | cons p ps ih =>
    rw [reaches, reaches, reach_concat (hps p List.mem_cons_self)]
    cases hreach : reach filler p siblings with
    | none => rfl
    | some n =>
      simp only [Option.bind_eq_bind, Option.bind_some]
      rw [List.drop_append_of_le_length (reach_le_length hreach),
        ih fun q hq => hps q (List.mem_cons_of_mem _ hq)]

end Reaching

/-- No group of a pass takes in the node at the end of a row, begins with it or depends on it. -/
structure Spares (extent : Node → List Node → Option Nat) (last : Node) : Prop where
  concat : ∀ node siblings, extent node (siblings ++ [last]) = extent node siblings
  le_length : ∀ node siblings n, extent node siblings = some n → n ≤ siblings.length
  alone : extent last [] = none

/-- Most extents depend on the node only in whether they apply. -/
theorem Spares.of_tail {extent : Node → List Node → Option Nat} {last : Node}
    {applies : Node → Bool} {tail : List Node → Option Nat}
    (h : ∀ node siblings, extent node siblings = if applies node then tail siblings else none)
    (hconcat : ∀ siblings, tail (siblings ++ [last]) = tail siblings)
    (hle : ∀ siblings n, tail siblings = some n → n ≤ siblings.length)
    (hlast : applies last = false) : Spares extent last where
  concat node siblings := by rw [h, h, hconcat]
  le_length node siblings n hn := by
    rw [h] at hn
    split at hn
    · exact hle siblings n hn
    · cases hn
  alone := by
    rw [h, hlast]
    rfl

/-- A node that no group ends with, except where a list goes on behind a comma or a name takes a
comment. -/
def Trails (last : Node) : Prop :=
  last.kind = .punctuation ∨ last.kind = .whitespace ∨ last.kind = .comment

namespace Trails

variable {last : Node} (h : last.Trails)
include h

theorem isKind {kind : Kind} (hkind : ¬ kind ∈ [.punctuation, .whitespace, .comment]) :
    last.isKind kind = false := by
  simp only [List.mem_cons, List.not_mem_nil, or_false, not_or] at hkind
  rw [Node.isKind, beq_eq_false_iff_ne]
  rcases h with h | h | h
  all_goals
    rw [h]
    rintro rfl
    simp_all

theorem isOperand : last.isOperand = false := by
  rw [Node.isOperand]
  rcases h with h | h | h <;> rw [h] <;> rfl

theorem isKeyword : last.isKeyword = false := by
  rw [Node.isKeyword]
  rcases h with h | h | h <;> rw [h] <;> rfl

theorem isWord (word : String) : last.isWord word = false := by
  rw [Node.isWord, h.isKeyword, Bool.false_and]

theorem isAliasOrBody : last.isAliasOrBody = false := by
  rw [Node.isAliasOrBody]
  rcases h with h | h | h <;> rw [h]

theorem isNamePart : last.isNamePart = false := by
  rw [Node.isNamePart]
  rcases h with h | h | h <;> rw [h]

theorem spares_operation : Spares operationExtent last := by
  refine .of_tail (fun _ _ => rfl) (reaches_concat ?_) (fun _ _ => reaches_le_length) h.isOperand
  simp [h.isOperand, h.isKind]

theorem spares_comparison : Spares comparisonExtent last := by
  refine .of_tail (fun _ _ => rfl) (reaches_concat ?_) (fun _ _ => reaches_le_length) h.isOperand
  simp [h.isOperand, h.isKind]

theorem spares_as : Spares asExtent last := by
  refine .of_tail (fun _ _ => rfl) (reaches_concat ?_) (fun _ _ => reaches_le_length) ?_
  · simp [h.isWord, h.isAliasOrBody]
  · simp [h.isOperand, h.isKind]

theorem spares_direction : Spares directionExtent last := by
  refine .of_tail (fun _ _ => rfl) (reach_concat ?_) (fun _ _ => reach_le_length) h.isOperand
  rw [isWordIn, h.isKeyword, Bool.false_and]

theorem spares_comment (hcomment : last.isComment = false) : Spares commentExtent last :=
  .of_tail (fun _ _ => rfl) (reach_concat hcomment) (fun _ _ => reach_le_length)
    (h.isKind (by decide))

theorem spares_alias : Spares aliasExtent last := by
  refine .of_tail (fun _ _ => rfl) (fun siblings => ?_) (fun siblings n hn => ?_) ?_
  · rw [reach_concat (by rw [isSingleName, h.isKind (by decide), Bool.false_and])]
  · exact reach_le_length (Option.filter_eq_some_iff.1 hn).1
  · rw [takesAlias]
    rcases h with h | h | h <;> rw [h]

theorem spares_call : Spares callExtent last := by
  refine .of_tail (fun _ _ => rfl) (fun siblings => ?_) (fun siblings n hn => ?_)
    (h.isKind (by decide))
  · rw [reach_concat (h.isKind (by decide))]
    cases hreach : reach .blanks (Node.isKind .parenthesis) siblings with
    | none => rfl
    | some n =>
      have hwindow : windowExtent ((siblings ++ [last]).drop n) = windowExtent (siblings.drop n) := by
        rw [List.drop_append_of_le_length (reach_le_length hreach)]
        exact reaches_concat (by simp [h.isKind, h.isWord]) _
      rw [Option.map_some, Option.map_some, hwindow]
  · obtain ⟨m, hm, rfl⟩ := Option.map_eq_some_iff.1 hn
    have hcalled := reach_le_length hm
    cases hwindow : windowExtent (siblings.drop m) with
    | none => simpa using hcalled
    | some k =>
      have hle := reaches_le_length hwindow
      rw [List.length_drop] at hle
      rw [Option.getD_some]
      omega

theorem dottedExtent_concat (siblings : List Node) :
    dottedExtent (siblings ++ [last]) = dottedExtent siblings ∧
      dottedExtent siblings ≤ siblings.length := by
  fun_induction dottedExtent siblings with
  | case1 dot part siblings hpart ih =>
    rw [List.cons_append, List.cons_append, dottedExtent, if_pos hpart, ih.1]
    exact ⟨rfl, Nat.succ_le_succ (Nat.succ_le_succ ih.2)⟩
  | case2 dot part siblings hpart =>
    rw [List.cons_append, List.cons_append, dottedExtent, if_neg hpart]
    exact ⟨rfl, Nat.zero_le _⟩
  | case3 siblings hshort =>
    refine ⟨?_, Nat.zero_le _⟩
    rcases siblings with _ | ⟨dot, _ | ⟨part, rest⟩⟩
    · rfl
    · simp [dottedExtent, h.isNamePart]
    · exact absurd rfl (hshort dot part rest)

theorem spares_identifier : Spares identifierExtent last where
  concat node siblings := by
    rw [identifierExtent, identifierExtent, (h.dottedExtent_concat siblings).1]
  le_length node siblings n hn := by
    unfold identifierExtent at hn
    dsimp only at hn
    split at hn
    · cases hn
      exact (h.dottedExtent_concat siblings).2
    · cases hn
  alone := by
    rw [identifierExtent, h.isKind (by decide), h.isKind (by decide)]
    rfl

theorem isItem : last.isItem = false := by
  rw [Node.isItem, h.isOperand, h.isKind (by decide), h.isKind (by decide)]
  rfl

theorem listTail_concat (hcomma : last.isMark "," = false) (siblings : List Node) :
    listTail (siblings ++ [last]) = listTail siblings ∧ listTail siblings ≤ siblings.length := by
  have hps : ∀ p ∈ [(isMark · ","), Node.isItem], p last = false := by
    simp [hcomma, h.isItem]
  fun_induction listTail siblings with
  | case1 =>
    have hnone : reaches .all [(isMark · ","), Node.isItem] [last] = none :=
      reaches_concat hps []
    rw [List.nil_append, listTail, hnone]
    exact ⟨rfl, Nat.le_refl _⟩
  | case2 node siblings n hn ih =>
    have hle := reaches_le_length hn
    have hle' : n ≤ siblings.length := Nat.le_of_succ_le_succ hle
    rw [List.cons_append, listTail, ← List.cons_append, reaches_concat hps, hn]
    dsimp only
    rw [List.drop_append_of_le_length hle', ih.1]
    have hrest := ih.2
    rw [List.length_drop] at hrest
    refine ⟨rfl, ?_⟩
    rw [List.length_cons]
    omega
  | case3 node siblings hnone =>
    refine ⟨?_, Nat.zero_le _⟩
    rw [List.cons_append, listTail, ← List.cons_append, reaches_concat hps]
    split
    · next n hn => exact absurd hn (hnone n)
    · rfl

theorem spares_list (hcomma : last.isMark "," = false) : Spares listExtent last where
  concat node siblings := by
    rw [listExtent, listExtent, (h.listTail_concat hcomma siblings).1]
  le_length node siblings n hn := by
    rw [listExtent] at hn
    split at hn
    · cases hn
      exact (h.listTail_concat hcomma siblings).2
    · cases hn
  alone := listExtent_of_not_item h.isItem []

end Trails

theorem trails_semicolon : (mark ";").Trails := Or.inl rfl

section Passes

variable {extent : Node → List Node → Option Nat} {join : Node → List Node → Node} {last : Node}

theorem joinOnce_concat (h : Spares extent last) (siblings : List Node) :
    joinOnce extent join (siblings ++ [last]) = joinOnce extent join siblings ++ [last] := by
  fun_induction joinOnce extent join siblings with
  | case1 => rw [List.nil_append, joinOnce_cons_of_none h.alone, joinOnce_nil]
  | case2 node siblings n hn ih =>
    have hle := h.le_length node siblings n hn
    rw [List.cons_append, joinOnce_cons_of_some ((h.concat node siblings).trans hn),
      List.take_append_of_le_length hle, List.drop_append_of_le_length hle, ih, List.cons_append]
  | case3 node siblings hnone ih =>
    rw [List.cons_append, joinOnce_cons_of_none ((h.concat node siblings).trans hnone), ih,
      List.cons_append]

theorem joinRepeatedly_concat (h : Spares extent last) (siblings : List Node) :
    joinRepeatedly extent join (siblings ++ [last]) =
      joinRepeatedly extent join siblings ++ [last] := by
  fun_induction joinRepeatedly extent join siblings with
  | case1 => simp [joinRepeatedly]
  | case2 node =>
    have hshort : ∀ n, extent node [last] ≠ some (n + 1) := by
      intro n hn
      rw [← List.nil_append [last], h.concat] at hn
      exact absurd (h.le_length node [] _ hn) (by simp)
    rw [List.singleton_append, joinRepeatedly]
    split
    · next n hn => exact absurd hn (hshort n)
    · simp [joinRepeatedly]
  | case3 node next siblings n hn ih =>
    have hle : n ≤ siblings.length := Nat.le_of_succ_le_succ (h.le_length node _ _ hn)
    rw [List.cons_append, List.cons_append, joinRepeatedly, ← List.cons_append, h.concat, hn]
    dsimp only
    rw [List.take_append_of_le_length hle, List.drop_append_of_le_length hle, ← ih]
    rfl
  | case4 node next siblings hnone ih =>
    rw [List.cons_append, List.cons_append, joinRepeatedly, ← List.cons_append, h.concat]
    split
    · next n hn => exact absurd hn (hnone n)
    · rw [ih, List.cons_append]

end Passes

theorem Trails.groupSigns_concat {last : Node} (h : last.Trails) (preceded : Bool)
    (siblings : List Node) :
    groupSigns preceded (siblings ++ [last]) = groupSigns preceded siblings ++ [last] := by
  fun_induction groupSigns preceded siblings with
  | case1 preceded sign operand siblings hsign ih =>
    rw [List.cons_append, List.cons_append, groupSigns, if_pos hsign, ih, List.cons_append]
  | case2 preceded sign operand siblings hsign ih =>
    rw [List.cons_append, List.cons_append, groupSigns, if_neg hsign, ← List.cons_append, ih,
      List.cons_append]
  | case3 siblings preceded hshort =>
    rcases siblings with _ | ⟨sign, _ | ⟨operand, rest⟩⟩
    · rfl
    · simp [groupSigns, h.isOperand]
    · exact absurd rfl (hshort sign operand rest)

theorem groupExpressions_concat (siblings : List Node) :
    groupExpressions (siblings ++ [mark ";"]) = groupExpressions siblings ++ [mark ";"] := by
  have h := trails_semicolon
  unfold groupExpressions
  simp only [joinOnce_concat h.spares_call, joinOnce_concat h.spares_identifier, h.groupSigns_concat,
    joinRepeatedly_concat h.spares_operation, joinOnce_concat h.spares_comparison,
    joinRepeatedly_concat h.spares_as, joinOnce_concat h.spares_alias,
    joinOnce_concat h.spares_direction, joinRepeatedly_concat (h.spares_comment rfl),
    joinOnce_concat (h.spares_list rfl)]

theorem blockLength?_concat (depth : Nat) (siblings : List Node) :
    blockLength? depth (siblings ++ [mark ";"]) = blockLength? depth siblings := by
  induction siblings generalizing depth with
  | nil => rfl
  | cons node siblings ih => simp only [List.cons_append, blockLength?, ih]

theorem groupCases_concat (siblings : List Node) :
    groupCases (siblings ++ [mark ";"]) = groupCases siblings ++ [mark ";"] := by
  fun_induction groupCases siblings with
  | case1 => simp [groupCases, isWord, isKeyword, mark, Kind.isKeyword]
  | case2 node siblings hcase n hn _ ih =>
    have hlt := blockLength?_lt hn
    have hone : 1 ≤ (siblings.drop n).length := by
      rw [List.length_drop]
      omega
    rw [List.cons_append, groupCases, if_pos hcase, blockLength?_concat, hn]
    dsimp only
    rw [List.take_append_of_le_length (Nat.le_of_lt hlt),
      List.drop_append_of_le_length (Nat.le_of_lt hlt),
      List.take_append_of_le_length hone, List.drop_append_of_le_length hlt, ih, List.cons_append]
  | case3 node siblings hcase hnone ih =>
    rw [List.cons_append, groupCases, if_pos hcase, blockLength?_concat, hnone]
    dsimp only
    rw [ih, List.cons_append]
  | case4 node siblings hcase ih =>
    rw [List.cons_append, groupCases, if_neg hcase, ih, List.cons_append]

theorem groupLevel_concat (siblings : List Node) :
    groupLevel (siblings ++ [mark ";"]) = groupLevel siblings ++ [mark ";"] := by
  rw [groupLevel, groupCases_concat, groupExpressions_concat, groupLevel]

/-- A clause ends before a semicolon and at the end of a row alike. -/
theorem groupWheres_concat (siblings : List Node) :
    groupWheres (siblings ++ [mark ";"]) = groupWheres siblings ++ [mark ";"] := by
  fun_induction groupWheres siblings with
  | case1 => simp [groupWheres, isWord, isKeyword, mark, Kind.isKeyword]
  | case2 node siblings hwhere clause ih =>
    have hclause :
        (siblings ++ [mark ";"]).takeWhile (fun sibling => !sibling.endsWhere) = clause := by
      have hends : (!(mark ";").endsWhere) = false := rfl
      rw [List.takeWhile_append, List.takeWhile_cons, hends]
      split
      · next hlength =>
        have hall := (List.takeWhile_prefix fun sibling : Node => !sibling.endsWhere).eq_of_length
          hlength
        simpa using hall.symm
      · rfl
    have hle : clause.length ≤ siblings.length := (List.takeWhile_sublist _).length_le
    rw [List.cons_append, groupWheres, if_pos hwhere]
    dsimp only
    rw [hclause, List.drop_append_of_le_length hle, ih, List.cons_append]
  | case3 node siblings hwhere ih =>
    rw [List.cons_append, groupWheres, if_neg hwhere, ih, List.cons_append]

/-- The semicolon behind a statement stays behind it. -/
theorem groupAll_concat (siblings : List Node) :
    groupAll (siblings ++ [mark ";"]) = groupAll siblings ++ [mark ";"] := by
  rw [groupAll, groupAll, groupInsideAll_eq_map, groupInsideAll_eq_map, List.map_append, groupRun,
    groupRun]
  change groupLevel (groupWheres (siblings.map groupInside ++ [mark ";"])) = _
  rw [groupWheres_concat, groupLevel_concat]

theorem exists_lastPiece (siblings : List Node) :
    ∃ pieces piece, cutAtSemicolons siblings = pieces ++ [piece] ∧
      ∀ node ∈ piece, node.isMark ";" = false := by
  induction siblings with
  | nil => exact ⟨[], [], rfl, by simp⟩
  | cons node siblings ih =>
    obtain ⟨pieces, piece, hcut, hpiece⟩ := ih
    rw [cutAtSemicolons_cons, hcut]
    by_cases hmark : node.isMark ";" = true
    · rw [if_pos hmark]
      refine ⟨[node] :: pieces, piece, ?_, hpiece⟩
      cases pieces <;> rfl
    · rw [if_neg hmark]
      cases pieces with
      | nil =>
        refine ⟨[], node :: piece, rfl, fun other hother => ?_⟩
        rcases List.mem_cons.1 hother with rfl | hother
        · simpa using hmark
        · exact hpiece other hother
      | cons first pieces => exact ⟨(node :: first) :: pieces, piece, rfl, hpiece⟩

theorem cutAtSemicolons_append_mark {siblings piece : List Node} {pieces : List (List Node)}
    (h : cutAtSemicolons siblings = pieces ++ [piece]) (others : List Node) :
    cutAtSemicolons (siblings ++ mark ";" :: others) =
      pieces ++ (piece ++ [mark ";"]) :: cutAtSemicolons others := by
  obtain ⟨first, rest, hothers⟩ := List.exists_cons_of_ne_nil (cutAtSemicolons_ne_nil others)
  have hmark : (mark ";").isMark ";" = true := rfl
  rw [cutAtSemicolons_append, cutAtSemicolons_cons, if_pos hmark, h, hothers]
  clear h
  induction pieces with
  | nil => rfl
  | cons next pieces ih =>
    cases pieces with
    | nil => rfl
    | cons second pieces => exact congrArg (next :: ·) ih

/-- The statements of a row with a semicolon behind it are those of the row, the last piece having
that semicolon. -/
theorem splitStatements_append_mark {siblings piece : List Node} {pieces : List (List Node)}
    (h : cutAtSemicolons siblings = pieces ++ [piece]) (others : List Node) :
    ∃ before, splitStatements siblings =
        before ++ (if piece.any isSubstantial then [piece] else []) ∧
      splitStatements (siblings ++ mark ";" :: others) =
        before ++ (if piece.any isSubstantial then [piece ++ [mark ";"]] else []) ++
          splitStatements others := by
  have hmark : (mark ";").isSubstantial = false := rfl
  refine ⟨pieces.filter (·.any isSubstantial), ?_, ?_⟩
  · rw [splitStatements, h, List.filter_append, List.filter_cons, List.filter_nil]
  · rw [splitStatements, splitStatements, cutAtSemicolons_append_mark h, List.filter_append,
      List.filter_cons, List.any_append, List.append_assoc]
    simp only [List.any_cons, List.any_nil, hmark, Bool.or_false]
    split <;> rfl

end QueryLineage.Node
