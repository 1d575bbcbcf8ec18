import QueryLineage.Proofs.Lexeme.Seat

/-!
# Where a text ends

The last visible character of a text is that of its last lexeme that is not blank. Apart from
comments to the end of a line, no lexeme ends with a semicolon unless it is one: nothing reaches
across a semicolon but comments and quoted text, and these end with marks of their own.
-/

namespace QueryLineage

open Text

namespace Pattern

theorem getLast?_cons_of_some {α : Type} {xs : List α} {x : α} (h : xs.getLast? = some x) (y : α) :
    (y :: xs).getLast? = some x := by
  rw [List.getLast?_cons, h]
  rfl

theorem Quoting.getLast?_end (quoting : Quoting) {cs : List Char} {n : Nat}
    (h : quoting.end? cs = some n) : (cs.take n).getLast? = some quoting.mark := by
  fun_induction Quoting.end? quoting cs generalizing n with
  | case1 => cases h
  | case2 =>
    cases h
    rfl
  | case3 d ds _ ih =>
    rcases Option.or_eq_some_iff.1 h with h | ⟨_, h⟩
    · obtain ⟨m, hm, rfl⟩ := Option.map_eq_some_iff.1 h
      exact getLast?_cons_of_some (getLast?_cons_of_some (ih hm) d) _
    · cases h
      rfl
  | case4 =>
    cases h
    rfl
  | case5 => cases h
  | case6 c _ _ d ds ih =>
    obtain ⟨m, hm, rfl⟩ := Option.map_eq_some_iff.1 h
    exact getLast?_cons_of_some (getLast?_cons_of_some (ih hm) d) c
  | case7 c cs _ _ ih =>
    obtain ⟨m, hm, rfl⟩ := Option.map_eq_some_iff.1 h
    exact getLast?_cons_of_some (ih hm) c

theorem getLast?_commentEnd {cs : List Char} {n : Nat} (h : commentEnd? cs = some n) :
    (cs.take n).getLast? = some '/' := by
  induction cs generalizing n with
  | nil => cases h
  | cons c cs ih =>
    rw [commentEnd?] at h
    split at h
    · next hend =>
      cases h
      simp only [Bool.and_eq_true, beq_iff_eq] at hend
      obtain ⟨ds, rfl⟩ := List.head?_eq_some_iff.1 hend.2
      rfl
    · obtain ⟨m, hm, rfl⟩ := Option.map_eq_some_iff.1 h
      exact getLast?_cons_of_some (ih hm) c

theorem getLast?_blockComment {cs : List Char} {n : Nat} (h : blockComment? cs = some n) :
    (cs.take n).getLast? = some '/' := by
  unfold blockComment? at h
  split at h
  · obtain ⟨m, hm, rfl⟩ := Option.map_eq_some_iff.1 h
    exact getLast?_cons_of_some (getLast?_cons_of_some (getLast?_commentEnd hm) _) _
  · cases h

end Pattern

open Pattern

namespace LexRule

theorem no_comment_of_first? {cs : List Char} {kind : Kind} {n : Nat}
    (h : first? cs = some (kind, n)) (hkind : kind ≠ .comment) :
    lineComment? cs = none ∧ blockComment? cs = none := by
  have hline : lineComment? cs = none := by
    cases hline : lineComment? cs with
    | none => rfl
    | some m =>
      simp only [first?, all, uniform, List.findSome?_cons, hline, Option.map_some,
        Option.some.injEq, Prod.mk.injEq] at h
      exact absurd h.1.symm hkind
  refine ⟨hline, ?_⟩
  cases hblock : blockComment? cs with
  | none => rfl
  | some m =>
    simp only [first?, all, uniform, List.findSome?_cons, hline, hblock, Option.map_none,
      Option.map_some, Option.some.injEq, Prod.mk.injEq] at h
    exact absurd h.1.symm hkind

/-- What is neither a comment nor quoted ends before a character that stops lexemes. -/
theorem le_length_of_stops {b : Char} (hb : Stops b) {before rest : List Char} {kind : Kind}
    {n : Nat} (hbefore : before ≠ [])
    (hcomment : opensComment (before ++ b :: rest) = true →
      blockComment? (before ++ b :: rest) ≠ none)
    (hfirst : first? (before ++ b :: rest) = some (kind, n)) (hkind : kind ≠ .comment)
    (hquoted : ∀ quoting ∈ quotings, ∀ ds, before ≠ quoting.mark :: ds) : n ≤ before.length := by
  obtain ⟨hline, hblock⟩ := no_comment_of_first? hfirst hkind
  rw [first?_append hb hbefore] at hfirst
  · exact le_length_of_first? hfirst
  · intro quoting hquoting ds heq
    exact absurd heq (hquoted quoting hquoting ds)
  · intro m hm
    exfalso
    unfold lineComment? at hm
    split at hm
    · cases hline
    · cases hline
    · cases hm
  · intro hopens
    have hopens' := (opensComment_append hbefore (hb.other '*' (by decide)) rest).trans hopens
    exact absurd hblock (hcomment hopens')

theorem mark_of_mem_quotings : ∀ quoting ∈ quotings,
    isBlank quoting.mark = false ∧ quoting.mark ≠ ';' := by
  decide

end LexRule

namespace Lexeme

/-- Whether the lexeme is a comment to the end of a line. -/
def isLineComment (lexeme : Lexeme) : Bool :=
  lexeme.kind == .comment && !opensComment lexeme.text.toList

/-- The last lexeme that is more than blanks. -/
def lastShown? (lexemes : List Lexeme) : Option Lexeme :=
  (lexemes.filter fun lexeme => lexeme.kind != .whitespace).getLast?

/-- Only a comment to the end of a line ends with a semicolon without being one. -/
theorem lastVisible?_of_first? {c : Char} {cs : List Char} {kind : Kind} {n : Nat}
    (hcomment : opensComment (c :: cs) = true → blockComment? (c :: cs) ≠ none)
    (hfirst : LexRule.first? (c :: cs) = some (kind, n + 1))
    (hline : isLineComment ⟨kind, String.ofList (c :: cs.take n)⟩ = false)
    (hmark : (⟨kind, String.ofList (c :: cs.take n)⟩ : Lexeme) ≠ semicolon) :
    lastVisible? (c :: cs.take n) ≠ some ';' := by
  have hle : n ≤ cs.length := Nat.le_of_succ_le_succ (LexRule.le_length_of_first? hfirst)
  by_cases hkind : kind = .comment
  · rcases (LexRule.filler_of_first? hfirst).2 hkind with h | h
    · simp [isLineComment, hkind, opensComment_of_lineComment? h] at hline
    · have hlast := getLast?_blockComment h
      rw [List.take_succ_cons] at hlast
      rw [lastVisible?_of_getLast? hlast (by decide)]
      decide
  intro hsemicolon
  obtain ⟨before, blanks, hsplit, hblanks⟩ := exists_of_lastVisible? hsemicolon
  have hcs : c :: cs = before ++ ';' :: (blanks ++ cs.drop n) := by
    rw [← List.take_append_drop n cs, ← List.cons_append, hsplit]
    simp [List.take_append_drop]
  cases before with
  | nil =>
    obtain ⟨rfl, -⟩ := List.cons.inj hcs
    have hread : LexRule.first? (';' :: cs) = some (.punctuation, 1) := rfl
    rw [hread] at hfirst
    cases hfirst
    exact hmark rfl
  | cons first before =>
    obtain ⟨rfl, -⟩ := List.cons.inj hcs
    by_cases hquoted : ∃ quoting ∈ LexRule.quotings, c = quoting.mark
    · obtain ⟨quoting, hquoting, rfl⟩ := hquoted
      have hend := LexRule.first?_mark hquoting cs
      rw [hfirst] at hend
      obtain ⟨m, hm, hmn⟩ := Option.map_eq_some_iff.1 hend.symm
      obtain rfl : m = n := Nat.succ.inj hmn
      obtain ⟨hvisible, hother⟩ := LexRule.mark_of_mem_quotings quoting hquoting
      have hlast := getLast?_cons_of_some (quoting.getLast?_end hm) quoting.mark
      rw [lastVisible?_of_getLast? hlast hvisible] at hsemicolon
      exact hother (Option.some.inj hsemicolon)
    · rw [hcs] at hcomment hfirst
      have hshort := LexRule.le_length_of_stops LexRule.stops_semicolon (by simp) hcomment hfirst
        hkind fun quoting hquoting ds heq => hquoted ⟨quoting, hquoting, (List.cons.inj heq).1⟩
      have hlength := congrArg List.length hsplit
      simp only [List.length_cons, List.length_append, List.length_take] at hshort hlength
      omega

theorem Reads.lastVisible?_ne {cs : List Char} {lexemes : List Lexeme} (h : Reads cs lexemes) :
    ∀ lexeme ∈ lexemes, lexeme.isLineComment = false → lexeme ≠ .semicolon →
      lastVisible? lexeme.text.toList ≠ some ';' := by
  induction h with
  | nil => simp
  | cons hcomment hfirst _ ih =>
    intro lexeme hlexeme hline hmark
    rcases List.mem_cons.1 hlexeme with rfl | hlexeme
    · rw [String.toList_ofList]
      exact lastVisible?_of_first? hcomment hfirst hline hmark
    · exact ih lexeme hlexeme hline hmark

theorem lastShown?_cons (lexeme : Lexeme) (lexemes : List Lexeme) :
    lastShown? (lexeme :: lexemes) =
      (lastShown? lexemes).or (if lexeme.kind = .whitespace then none else some lexeme) := by
  unfold lastShown?
  by_cases hkind : lexeme.kind = .whitespace
  · rw [List.filter_cons_of_neg (by simp [hkind]), if_pos hkind, Option.or_none]
  · rw [List.filter_cons_of_pos (by simp [hkind]), if_neg hkind, List.getLast?_cons]
    cases (lexemes.filter fun lexeme => lexeme.kind != .whitespace).getLast? <;> rfl

theorem lastShown?_append (first second : List Lexeme) :
    lastShown? (first ++ second) = (lastShown? second).or (lastShown? first) := by
  simp [lastShown?, List.getLast?_append]

theorem mem_of_lastShown? {lexemes : List Lexeme} {last : Lexeme}
    (h : lastShown? lexemes = some last) : last ∈ lexemes ∧ last.kind ≠ .whitespace := by
  have hmem := List.mem_filter.1 (List.mem_of_getLast? h)
  exact ⟨hmem.1, by simpa using hmem.2⟩

/-- A comment at the very end is the last lexeme that is shown. -/
theorem ended_of_lastShown? {lexemes : List Lexeme}
    (h : ∀ last ∈ lastShown? lexemes, last.isLineComment = false) :
    ∀ last ∈ lexemes.getLast?, last.isUnendedComment = false := by
  intro last hlast
  obtain ⟨before, rfl⟩ := List.getLast?_eq_some_iff.1 hlast
  by_cases hkind : last.kind = .comment
  · have hline := h last (by simp [lastShown?, hkind])
    simp only [isLineComment, hkind, beq_self_eq_true, Bool.true_and] at hline
    simp [isUnendedComment, hline]
  · simp [isUnendedComment, hkind]

/-- The lexemes of two texts with a semicolon between them. -/
theorem ofText_append_semicolon {first second : String} {lexemes others : List Lexeme}
    (hfirst : ofText first = .ok lexemes) (hsecond : ofText second = .ok others)
    (hlast : ∀ last ∈ lastShown? lexemes, last.isLineComment = false) :
    ofText (first ++ ";" ++ second) = .ok (lexemes ++ .semicolon :: others) := by
  have hmark : ";".toList = [';'] := by decide
  rw [ofText_eq_ok_iff] at hfirst hsecond ⊢
  rw [String.toList_append, String.toList_append, hmark, List.append_assoc, List.singleton_append]
  exact hfirst.append LexRule.stops_semicolon hsecond.semicolon (ended_of_lastShown? hlast)

/-- The text of a row ends with the last lexeme that is shown. -/
theorem Seated.lastVisible?_textAll {row : List Lexeme} (h : Seated row) :
    lastVisible? (textAll row).toList =
      (lastShown? row).bind fun lexeme => lastVisible? lexeme.text.toList := by
  induction h with
  | nil => rfl
  | @cons lexeme lexemes hhead htail ih =>
    rw [textAll_cons, String.toList_append, lastVisible?_append, ih, lastShown?_cons]
    have hvisible : ∀ {other : Lexeme} {next? : Option Lexeme}, Sits other next? →
        other.kind ≠ .whitespace → lastVisible? other.text.toList ≠ none := by
      intro other next? hsits hkind
      obtain ⟨c, cs, hcs⟩ := List.exists_cons_of_ne_nil hsits.nonempty
      exact lastVisible?_ne_none (by rw [hcs]; exact List.mem_cons_self)
        (hsits.visible hkind c (by simp [hcs]))
    cases hlast : lastShown? lexemes with
    | none =>
      by_cases hkind : lexeme.kind = .whitespace
      · rw [if_pos hkind, lastVisible?_eq_none (hhead.blank hkind)]
        rfl
      · rw [if_neg hkind]
        rfl
    | some last =>
      obtain ⟨hmem, hkind⟩ := mem_of_lastShown? hlast
      obtain ⟨next?, hsits⟩ := htail.exists_sits hmem
      have hne := hvisible hsits hkind
      rw [Option.some_or, Option.bind_some]
      cases hshown : lastVisible? last.text.toList with
      | none => exact absurd hshown hne
      | some c => rfl

end Lexeme

end QueryLineage
