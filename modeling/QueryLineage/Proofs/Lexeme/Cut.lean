import QueryLineage.Proofs.Lexeme.Ends

/-!
# Lexemes of a text that is cut off

What is read at the beginning of a text is also read there once the text has been cut off somewhere
behind it. All forms of lexeme look past their ends: most reach as far as they can, an exponent is
given up where its digits are missing, a mark that closes quoted text may be doubled, and no
character of a word may follow a phrase. Only the last could make a difference, where the text is
cut between a phrase and such a character; but no lexeme ends there.
-/

namespace QueryLineage

open Text

namespace Pattern

variable {cs t : List Char}

/-- A form of lexeme reaches as far at the beginning of the characters as in front of what followed
them, unless it reaches beyond them. -/
structure Withstands (measure? : List Char → Option Nat) (cs t : List Char) : Prop where
  reaches : ∀ {n : Nat}, measure? (cs ++ t) = some n → n ≤ cs.length → measure? cs = some n
  fails : measure? (cs ++ t) = none → measure? cs = none

/-- What the characters begin with, whatever follows them, is within them if it is not longer. -/
theorem exists_of_append_eq {us ds : List Char} (h : cs ++ t = us ++ ds)
    (hlength : us.length ≤ cs.length) : ∃ es, cs = us ++ es ∧ ds = es ++ t := by
  rcases List.append_eq_append_iff.1 h with ⟨es, rfl, rfl⟩ | ⟨es, rfl, rfl⟩
  · obtain rfl : es = [] := by
      rw [List.length_append] at hlength
      exact List.length_eq_zero_iff.1 (by omega)
    exact ⟨[], by simp⟩
  · exact ⟨es, rfl, rfl⟩

/-- A form that applies to what has been cut off applies, if not as far, in front of more text. -/
theorem withstands_of_append {measure? : List Char → Option Nat}
    (hreaches : ∀ {n : Nat}, measure? (cs ++ t) = some n → n ≤ cs.length → measure? cs = some n)
    (happend : ∀ {n : Nat}, measure? cs = some n → measure? (cs ++ t) ≠ none) :
    Withstands measure? cs t where
  reaches := hreaches
  fails h := Option.eq_none_iff_forall_ne_some.2 fun _ hn => happend hn h

theorem Withstands.findSome? {forms : List (List Char → Option Nat)}
    (h : ∀ form ∈ forms, Withstands form cs t) :
    Withstands (fun ds => forms.findSome? fun form => form ds) cs t where
  fails hfull := List.findSome?_eq_none_iff.2 fun form hform =>
    (h form hform).fails (List.findSome?_eq_none_iff.1 hfull form hform)
  reaches := by
    intro n hfull hn
    induction forms with
    | nil => cases hfull
    | cons form forms ih =>
      have hform := h form List.mem_cons_self
      rw [List.findSome?_cons] at hfull ⊢
      cases hfirst : form (cs ++ t) with
      | some m =>
        rw [hfirst] at hfull
        obtain rfl : m = n := Option.some.inj hfull
        rw [hform.reaches hfirst hn]
      | none =>
        rw [hfirst] at hfull
        rw [hform.fails hfirst]
        exact ih (fun other hother => h other (List.mem_cons_of_mem _ hother)) hfull

theorem positive?_eq_none {n : Nat} : positive? n = none ↔ n = 0 := by
  cases n <;> simp

theorem ne_zero_of_positive? {n m : Nat} (h : positive? n = some m) : n ≠ 0 :=
  fun hzero => by simp [positive?_eq_none.2 hzero] at h

section

variable (p : Char → Bool)

theorem run_le_append (cs t : List Char) : run p cs ≤ run p (cs ++ t) := by
  induction cs with
  | nil => exact Nat.zero_le _
  | cons c cs ih =>
    rw [List.cons_append, run_cons, run_cons]
    split
    · exact Nat.succ_le_succ ih
    · exact Nat.le_refl _

theorem run_of_le (h : run p (cs ++ t) ≤ cs.length) : run p cs = run p (cs ++ t) := by
  induction cs with
  | nil => exact (Nat.le_zero.1 h).symm
  | cons c cs ih =>
    rw [List.cons_append, run_cons] at h ⊢
    rw [run_cons]
    split
    · next hc =>
      rw [if_pos hc] at h
      rw [ih (Nat.le_of_succ_le_succ h)]
    · rfl

theorem run_append_of_lt (h : run p cs < cs.length) (t : List Char) :
    run p (cs ++ t) = run p cs := by
  induction cs with
  | nil => cases h
  | cons c cs ih =>
    rw [run_cons] at h
    rw [List.cons_append, run_cons, run_cons]
    split
    · next hc =>
      rw [if_pos hc] at h
      rw [ih (Nat.lt_of_succ_lt_succ h)]
    · rfl

theorem head?_drop_run (cs : List Char) : (cs.drop (run p cs)).head?.any p = false := by
  induction cs with
  | nil => rfl
  | cons c cs ih =>
    rw [run_cons]
    split
    · exact ih
    · next hc => simpa using hc

theorem getLast?_take_run {c : Char} (h : (cs.take (run p cs)).getLast? = some c) : p c = true := by
  have hmem := List.mem_of_getLast? h
  rw [run, ← List.prefix_iff_eq_take.1 (List.takeWhile_prefix p)] at hmem
  exact List.all_eq_true.1 List.all_takeWhile c hmem

end

theorem blanks?_withstands (cs t : List Char) : Withstands blanks? cs t where
  reaches := by
    intro n h hn
    obtain rfl := positive?_eq_some h
    rwa [blanks?, run_of_le _ hn]
  fails h := by
    have hle := run_le_append isBlank cs t
    rw [blanks?, positive?_eq_none] at h ⊢
    omega

theorem restOfLine_cons (c : Char) (cs : List Char) :
    restOfLine (c :: cs) =
      if isLineBreak c = true then lineBreak (c :: cs) else restOfLine cs + 1 := by
  by_cases hc : isLineBreak c = true
  · have hstop : (c != '\r' && c != '\n') = false := by
      rw [not_isLineBreak, hc]
      rfl
    simp [restOfLine, run_cons, hstop, hc]
  · have hgo : (c != '\r' && c != '\n') = true := by
      rw [not_isLineBreak]
      simpa using hc
    simp only [restOfLine, run_cons, hgo, if_true, List.drop_succ_cons, if_neg hc]
    omega

theorem restOfLine_of_le (h : restOfLine (cs ++ t) ≤ cs.length) :
    restOfLine cs = restOfLine (cs ++ t) := by
  induction cs with
  | nil => exact (Nat.le_zero.1 h).symm
  | cons c cs ih =>
    rw [List.cons_append, restOfLine_cons] at h ⊢
    rw [restOfLine_cons]
    split
    · next hc =>
      rw [if_pos hc] at h
      simp only [isLineBreak, Bool.or_eq_true, beq_iff_eq] at hc
      rcases hc with rfl | rfl
      · cases cs with
        | cons d ds => by_cases hd : d = '\n' <;> simp [lineBreak, hd]
        | nil =>
          cases t with
          | nil => rfl
          | cons d ds =>
            by_cases hd : d = '\n'
            · subst hd
              simp [lineBreak] at h
            · simp [lineBreak, hd]
      · rfl
    · next hc =>
      rw [if_neg hc] at h
      rw [ih (Nat.le_of_succ_le_succ h)]

theorem lineComment?_eq_some_iff {n : Nat} : lineComment? cs = some n ↔
    ∃ opening ∈ [['-', '-'], ['#']], ∃ ds, cs = opening ++ ds ∧
      n = restOfLine ds + opening.length := by
  constructor
  · intro h
    unfold lineComment? at h
    split at h
    · next ds => exact ⟨['-', '-'], by simp, ds, rfl, (Option.some.inj h).symm⟩
    · next ds => exact ⟨['#'], by simp, ds, rfl, (Option.some.inj h).symm⟩
    · cases h
  · rintro ⟨opening, hopening, ds, rfl, rfl⟩
    simp only [List.mem_cons, List.not_mem_nil, or_false] at hopening
    rcases hopening with rfl | rfl <;> rfl

theorem lineComment?_withstands (cs t : List Char) : Withstands lineComment? cs t := by
  refine withstands_of_append (fun h hn => ?_) fun h => ?_
  · obtain ⟨opening, hopening, ds, heq, rfl⟩ := lineComment?_eq_some_iff.1 h
    obtain ⟨es, rfl, rfl⟩ := exists_of_append_eq heq (by omega)
    rw [List.length_append] at hn
    rw [← restOfLine_of_le (by omega : restOfLine (es ++ t) ≤ es.length)]
    exact lineComment?_eq_some_iff.2 ⟨opening, hopening, es, rfl, rfl⟩
  · obtain ⟨opening, hopening, ds, rfl, -⟩ := lineComment?_eq_some_iff.1 h
    have hmore := lineComment?_eq_some_iff.2 ⟨opening, hopening, ds ++ t, rfl, rfl⟩
    rw [List.append_assoc, hmore]
    exact Option.some_ne_none _

theorem commentEnd?_pos {n : Nat} (h : commentEnd? cs = some n) : 2 ≤ n := by
  induction cs generalizing n with
  | nil => cases h
  | cons c cs ih =>
    rw [commentEnd?] at h
    split at h
    · cases h
      exact Nat.le_refl 2
    · obtain ⟨m, hm, rfl⟩ := Option.map_eq_some_iff.1 h
      exact Nat.le_succ_of_le (ih hm)

theorem commentEnd?_of_le {n : Nat} (h : commentEnd? (cs ++ t) = some n) (hn : n ≤ cs.length) :
    commentEnd? cs = some n := by
  induction cs generalizing n with
  | nil =>
    have hpos := commentEnd?_pos h
    rw [List.length_nil] at hn
    omega
  | cons c cs ih =>
    have hpos := commentEnd?_pos h
    rw [List.length_cons] at hn
    have hhead : (cs ++ t).head? = cs.head? := by
      cases cs with
      | nil =>
        rw [List.length_nil] at hn
        omega
      | cons d ds => rfl
    rw [List.cons_append, commentEnd?, hhead] at h
    rw [commentEnd?]
    split at h
    · next hend => rwa [if_pos hend]
    · next hend =>
      obtain ⟨m, hm, rfl⟩ := Option.map_eq_some_iff.1 h
      rw [if_neg hend, ih hm (Nat.le_of_succ_le_succ hn)]
      rfl

theorem blockComment?_eq_some_iff {n : Nat} : blockComment? cs = some n ↔
    ∃ ds m, cs = ['/', '*'] ++ ds ∧ commentEnd? ds = some m ∧ n = m + 2 := by
  constructor
  · intro h
    unfold blockComment? at h
    split at h
    · next ds =>
      obtain ⟨m, hm, rfl⟩ := Option.map_eq_some_iff.1 h
      exact ⟨ds, m, rfl, hm, rfl⟩
    · cases h
  · rintro ⟨ds, m, rfl, hm, rfl⟩
    exact Option.map_eq_some_iff.2 ⟨m, hm, rfl⟩

theorem blockComment?_withstands (cs t : List Char) : Withstands blockComment? cs t := by
  refine withstands_of_append (fun h hn => ?_) fun h => ?_
  · obtain ⟨ds, m, heq, hm, rfl⟩ := blockComment?_eq_some_iff.1 h
    obtain ⟨es, rfl, rfl⟩ := exists_of_append_eq heq (by simp; omega)
    have hm' : m ≤ es.length := by
      simp only [List.length_append, List.length_cons, List.length_nil] at hn
      omega
    exact blockComment?_eq_some_iff.2 ⟨es, m, rfl, commentEnd?_of_le hm hm', rfl⟩
  · obtain ⟨ds, m, rfl, hm, rfl⟩ := blockComment?_eq_some_iff.1 h
    have hmore := blockComment?_eq_some_iff.2 ⟨ds ++ t, m, rfl, commentEnd?_append hm t, rfl⟩
    rw [List.append_assoc, hmore]
    exact Option.some_ne_none _

section

variable (quoting : Quoting)

theorem Quoting.end?_pos {n : Nat} (h : quoting.end? cs = some n) : 0 < n := by
  have hlast := quoting.getLast?_end h
  cases n with
  | zero => simp at hlast
  | succ n => exact Nat.succ_pos n

theorem Quoting.end?_mark_ne_none (cs : List Char) : quoting.end? (quoting.mark :: cs) ≠ none := by
  rw [end?.eq_def]
  dsimp only
  rw [if_pos rfl]
  split
  · simp
  · split <;> simp

/-- Quoted text that has an end has one, if not the same, in front of more text. -/
theorem Quoting.end?_append_ne_none (h : quoting.end? cs ≠ none) (t : List Char) :
    quoting.end? (cs ++ t) ≠ none := by
  fun_induction Quoting.end? quoting cs with
  | case1 => exact absurd rfl h
  | case2 => exact quoting.end?_mark_ne_none t
  | case3 d ds _ _ => exact quoting.end?_mark_ne_none (d :: ds ++ t)
  | case4 d ds _ => exact quoting.end?_mark_ne_none (d :: ds ++ t)
  | case5 => exact absurd rfl h
  | case6 c hmark hescape d ds ih =>
    rw [List.cons_append, List.cons_append, end?, if_neg hmark, if_pos hescape]
    rw [ne_eq, Option.map_eq_none_iff] at h ⊢
    exact ih h
  | case7 c cs hmark hescape ih =>
    rw [List.cons_append, end?.eq_def]
    dsimp only
    rw [if_neg hmark, if_neg hescape]
    rw [ne_eq, Option.map_eq_none_iff] at h ⊢
    exact ih h

theorem Quoting.end?_of_le {n : Nat} (h : quoting.end? (cs ++ t) = some n) (hn : n ≤ cs.length) :
    quoting.end? cs = some n := by
  have hpos := quoting.end?_pos h
  fun_induction Quoting.end? quoting cs generalizing n with
  | case1 => exact absurd hn (Nat.not_le_of_gt hpos)
  | case2 =>
    obtain rfl : n = 1 := Nat.le_antisymm hn hpos
    rfl
  | case3 d ds hdoubled ih =>
    rw [List.cons_append, List.cons_append, end?, if_pos rfl, if_pos hdoubled] at h
    cases hfull : quoting.end? (ds ++ t) with
    | none =>
      have hnone : quoting.end? ds = none :=
        Classical.not_not.1 fun hsome => quoting.end?_append_ne_none hsome t hfull
      rw [hfull] at h
      rw [hnone]
      exact h
    | some m =>
      rw [hfull] at h
      obtain rfl : m + 2 = n := Option.some.inj h
      rw [ih hfull (by simpa using hn) (quoting.end?_pos hfull)]
      rfl
  | case4 d ds hdoubled =>
    rwa [List.cons_append, List.cons_append, end?, if_pos rfl, if_neg hdoubled] at h
  | case5 c hmark hescape =>
    cases t with
    | nil =>
      rw [List.append_nil, end?, if_neg hmark, if_pos hescape] at h
      cases h
    | cons d ds =>
      rw [List.cons_append, List.nil_append, end?, if_neg hmark, if_pos hescape] at h
      obtain ⟨m, -, rfl⟩ := Option.map_eq_some_iff.1 h
      simp at hn
  | case6 c hmark hescape d ds ih =>
    rw [List.cons_append, List.cons_append, end?, if_neg hmark, if_pos hescape] at h
    obtain ⟨m, hm, rfl⟩ := Option.map_eq_some_iff.1 h
    rw [ih hm (by simpa using hn) (quoting.end?_pos hm)]
    rfl
  | case7 c cs hmark hescape ih =>
    rw [List.cons_append, end?.eq_def] at h
    dsimp only at h
    rw [if_neg hmark, if_neg hescape] at h
    obtain ⟨m, hm, rfl⟩ := Option.map_eq_some_iff.1 h
    rw [ih hm (by simpa using hn) (quoting.end?_pos hm)]
    rfl

theorem Quoting.measure?_withstands (cs t : List Char) : Withstands quoting.measure? cs t where
  reaches := by
    intro n h hn
    cases cs with
    | nil =>
      obtain rfl := Nat.le_zero.1 hn
      unfold measure? at h
      split at h
      · cases h
      · split at h <;> simp at h
    | cons c cs =>
      rw [List.cons_append, measure?] at h
      rw [measure?]
      split at h
      · next hc =>
        obtain ⟨m, hm, rfl⟩ := Option.map_eq_some_iff.1 h
        rw [if_pos hc, quoting.end?_of_le hm (Nat.le_of_succ_le_succ hn)]
        rfl
      · cases h
  fails h := by
    cases cs with
    | nil => rfl
    | cons c cs =>
      rw [List.cons_append, measure?] at h
      rw [measure?]
      split at h
      · next hc =>
        rw [Option.map_eq_none_iff] at h
        rw [if_pos hc, Option.map_eq_none_iff]
        exact Classical.not_not.1 fun hsome => quoting.end?_append_ne_none hsome t h
      · next hc => rw [if_neg hc]

end

theorem run_le_of_mantissa? {n : Nat} (h : mantissa? cs = some n) : run isDecimal cs ≤ n := by
  unfold mantissa? at h
  split at h
  · next hrun =>
    rw [hrun]
    exact Nat.zero_le n
  · cases h
  · split at h <;> cases h <;> omega

def fraction : List Char → Nat
  | '.' :: cs => 1 + run isDecimal cs
  | _ => 0

theorem fraction_cons (c : Char) (cs : List Char) :
    fraction (c :: cs) = if c = '.' then 1 + run isDecimal cs else 0 := by
  by_cases hc : c = '.'
  · subst hc
    rfl
  · simp [fraction, hc]

theorem fraction_of_le (h : fraction (cs ++ t) ≤ cs.length) : fraction cs = fraction (cs ++ t) := by
  cases cs with
  | nil => exact (Nat.le_zero.1 h).symm
  | cons c cs =>
    rw [List.cons_append, fraction_cons] at h ⊢
    rw [fraction_cons]
    split
    · next hc =>
      rw [if_pos hc, List.length_cons] at h
      have hle : run isDecimal (cs ++ t) ≤ cs.length := by omega
      rw [run_of_le _ hle]
    · rfl

/-- Where digits come first, a fraction may follow. -/
theorem mantissa?_of_pos {r : Nat} (h : run isDecimal cs = r + 1) :
    mantissa? cs = some (r + 1 + fraction (cs.drop (r + 1))) := by
  unfold mantissa?
  rw [h]
  split
  · next heq => cases heq
  · next heq _ => cases heq
  · split
    · next heq =>
      rw [heq, Nat.add_assoc]
      rfl
    · next hnot =>
      unfold fraction
      split
      · next heq => exact absurd heq (hnot _)
      · rfl

/-- Without digits at the beginning, a point must come first. -/
theorem mantissa?_of_zero {c : Char} (h : run isDecimal (c :: cs) = 0) :
    mantissa? (c :: cs) =
      if c = '.' then (positive? (run isDecimal cs)).map (· + 1) else none := by
  unfold mantissa?
  rw [h]
  by_cases hc : c = '.'
  · subst hc
    rfl
  · simp [hc]

theorem mantissa?_pos {n : Nat} (h : mantissa? cs = some n) : 0 < n := by
  cases hr : run isDecimal cs with
  | succ r =>
    have hle := run_le_of_mantissa? h
    omega
  | zero =>
    cases cs with
    | nil => cases h
    | cons c cs =>
      rw [mantissa?_of_zero hr] at h
      split at h
      · obtain ⟨m, -, rfl⟩ := Option.map_eq_some_iff.1 h
        exact Nat.succ_pos m
      · cases h

theorem mantissa?_of_le {n : Nat} (h : mantissa? (cs ++ t) = some n) (hn : n ≤ cs.length) :
    mantissa? cs = some n := by
  have hpos := mantissa?_pos h
  have hrun : run isDecimal cs = run isDecimal (cs ++ t) :=
    run_of_le _ (Nat.le_trans (run_le_of_mantissa? h) hn)
  cases hr : run isDecimal (cs ++ t) with
  | zero =>
    rw [hr] at hrun
    cases cs with
    | nil => exact absurd hn (Nat.not_le_of_gt hpos)
    | cons c cs =>
      rw [List.cons_append] at hr h
      rw [mantissa?_of_zero hr] at h
      rw [mantissa?_of_zero hrun]
      split at h
      · next hc =>
        obtain ⟨m, hm, rfl⟩ := Option.map_eq_some_iff.1 h
        obtain rfl := positive?_eq_some hm
        rw [if_pos hc, run_of_le _ (Nat.le_of_succ_le_succ hn), hm]
        rfl
      · cases h
  | succ r =>
    rw [hr] at hrun
    have hle := run_le_length isDecimal cs
    rw [mantissa?_of_pos hr, List.drop_append_of_le_length (by omega)] at h
    have hn' := Option.some.inj h
    have hfraction : fraction (cs.drop (r + 1) ++ t) ≤ (cs.drop (r + 1)).length := by
      rw [List.length_drop]
      omega
    rw [mantissa?_of_pos hrun, fraction_of_le hfraction, hn']

theorem mantissa?_append_ne_none (h : mantissa? cs ≠ none) (t : List Char) :
    mantissa? (cs ++ t) ≠ none := by
  have hle := run_le_append isDecimal cs t
  cases hr : run isDecimal (cs ++ t) with
  | succ r => simp [mantissa?_of_pos hr]
  | zero =>
    have hrun : run isDecimal cs = 0 := by omega
    cases cs with
    | nil => exact absurd rfl h
    | cons c cs =>
      rw [List.cons_append] at hr ⊢
      rw [mantissa?_of_zero hrun] at h
      rw [mantissa?_of_zero hr]
      split
      · next hc =>
        have hmore := run_le_append isDecimal cs t
        rw [if_pos hc, ne_eq, Option.map_eq_none_iff, positive?_eq_none] at h
        rw [ne_eq, Option.map_eq_none_iff, positive?_eq_none]
        omega
      · next hc => rwa [if_neg hc] at h

theorem sign_append_of_ne_nil (hcs : cs ≠ []) (t : List Char) : sign (cs ++ t) = sign cs := by
  obtain ⟨c, cs, rfl⟩ := List.exists_cons_of_ne_nil hcs
  rw [List.cons_append]
  unfold sign
  split <;> simp_all

theorem exponent_cons (c : Char) (cs : List Char) :
    exponent (c :: cs) =
      if (c = 'e' || c = 'E') && run isDecimal (cs.drop (sign cs)) != 0 then
        1 + sign cs + run isDecimal (cs.drop (sign cs))
      else 0 := by
  rw [exponent]
  by_cases hc : (c = 'e' || c = 'E') = true
  · rw [if_pos hc, hc]
    cases run isDecimal (cs.drop (sign cs)) <;> rfl
  · rw [if_neg hc, if_neg (by simp_all)]

theorem exponent_of_le (h : exponent (cs ++ t) ≤ cs.length) : exponent cs = exponent (cs ++ t) := by
  cases cs with
  | nil => exact (Nat.le_zero.1 h).symm
  | cons c cs =>
    have hsign := sign_le_length cs
    have hdigits := run_le_append isDecimal (cs.drop (sign cs)) t
    rw [List.cons_append, exponent_cons, List.length_cons] at h
    rw [List.cons_append, exponent_cons, exponent_cons]
    by_cases hcs : cs = []
    · -- the letter is the last of the characters, so that an exponent would reach beyond them
      subst hcs
      rw [List.nil_append, List.length_nil] at h
      rw [List.nil_append, if_neg (by simp), if_neg]
      intro hexponent
      rw [if_pos hexponent] at h
      simp only [Bool.and_eq_true, bne_iff_ne] at hexponent
      omega
    · rw [sign_append_of_ne_nil hcs, List.drop_append_of_le_length hsign] at h ⊢
      by_cases hexponent : (c = 'e' || c = 'E') && run isDecimal (cs.drop (sign cs) ++ t) != 0
      · rw [if_pos hexponent] at h
        have hle : run isDecimal (cs.drop (sign cs) ++ t) ≤ (cs.drop (sign cs)).length := by
          rw [List.length_drop]
          omega
        rw [run_of_le _ hle]
      · rw [if_neg hexponent, if_neg]
        intro hshort
        simp only [Bool.and_eq_true, bne_iff_ne] at hshort hexponent
        exact hexponent ⟨hshort.1, by omega⟩

theorem number?_withstands (cs t : List Char) : Withstands number? cs t := by
  refine withstands_of_append (fun h hn => ?_) fun h => ?_
  · obtain ⟨m, hm, rfl⟩ := Option.map_eq_some_iff.1 h
    have hle : m ≤ cs.length := by omega
    rw [number?, mantissa?_of_le hm hle, Option.map_some]
    rw [List.drop_append_of_le_length hle] at hn ⊢
    rw [exponent_of_le]
    rw [List.length_drop]
    omega
  · obtain ⟨m, hm, -⟩ := Option.map_eq_some_iff.1 h
    rw [number?, ne_eq, Option.map_eq_none_iff]
    exact mantissa?_append_ne_none (Option.ne_none_iff_exists'.2 ⟨m, hm⟩) t

theorem spelling?_of_le {us : List Char} {n : Nat} (h : spelling? us (cs ++ t) = some n)
    (hn : n ≤ cs.length) : spelling? us cs = some n := by
  induction us generalizing cs n with
  | nil => cases cs <;> exact h
  | cons u us ih =>
    cases cs with
    | nil =>
      have hlength := (spelling?_eq h).1
      simp only [List.length_cons, List.length_nil] at hlength hn
      omega
    | cons c cs =>
      rw [List.cons_append, spelling?] at h
      rw [spelling?]
      split at h
      · next hc =>
        obtain ⟨m, hm, rfl⟩ := Option.map_eq_some_iff.1 h
        rw [if_pos hc, ih hm (Nat.le_of_succ_le_succ hn)]
        rfl
      · cases h

theorem spelling?_append_of_some {us : List Char} {n : Nat} (h : spelling? us cs = some n)
    (t : List Char) : spelling? us (cs ++ t) = some n := by
  induction us generalizing cs n with
  | nil =>
    cases cs with
    | nil => cases t <;> exact h
    | cons c cs => exact h
  | cons u us ih =>
    cases cs with
    | nil => cases h
    | cons c cs =>
      rw [spelling?] at h
      rw [List.cons_append, spelling?]
      split at h
      · next hc =>
        obtain ⟨m, hm, rfl⟩ := Option.map_eq_some_iff.1 h
        rw [if_pos hc, ih hm]
        rfl
      · cases h

theorem phraseOfWords?_of_le {words : List String} {n : Nat}
    (h : phraseOfWords? words (cs ++ t) = some n) (hn : n ≤ cs.length) :
    phraseOfWords? words cs = some n := by
  induction words generalizing cs n with
  | nil => exact h
  | cons word words ih =>
    cases words with
    | nil => exact spelling?_of_le h hn
    | cons next words =>
      rw [phraseOfWords?_cons (by simp)] at h
      obtain ⟨first, hfirst, h⟩ := Option.bind_eq_some_iff.1 h
      obtain ⟨blanks, hblanks, h⟩ := Option.bind_eq_some_iff.1 h
      obtain ⟨rest, hrest, rfl⟩ := Option.map_eq_some_iff.1 h
      rw [List.drop_append_of_le_length (by omega)] at hblanks hrest
      have hblanks' := (blanks?_withstands (cs.drop first) t).reaches hblanks (by
        rw [List.length_drop]
        omega)
      have hrest' := ih hrest (by
        rw [List.length_drop]
        omega)
      rw [phraseOfWords?_cons (by simp), spelling?_of_le hfirst (by omega), Option.bind_some,
        hblanks', Option.bind_some, hrest']
      rfl

/-- What has been found of a phrase is found in front of more text, since the blanks inside it end
where its next word begins. -/
theorem phraseOfWords?_append_of_some {words : List String} {n : Nat}
    (hwords : ∀ word ∈ words, word.toList ≠ []) (h : phraseOfWords? words cs = some n)
    (t : List Char) : phraseOfWords? words (cs ++ t) = some n := by
  induction words generalizing cs n with
  | nil => exact h
  | cons word words ih =>
    cases words with
    | nil => exact spelling?_append_of_some h t
    | cons next words =>
      rw [phraseOfWords?_cons (by simp)] at h
      obtain ⟨first, hfirst, h⟩ := Option.bind_eq_some_iff.1 h
      obtain ⟨blanks, hblanks, h⟩ := Option.bind_eq_some_iff.1 h
      obtain ⟨rest, hrest, rfl⟩ := Option.map_eq_some_iff.1 h
      have hwords' : ∀ word ∈ next :: words, word.toList ≠ [] :=
        fun w hw => hwords w (List.mem_cons_of_mem _ hw)
      obtain ⟨m, -, rfl, -, -⟩ := phraseOfWords?_last (p := fun _ => false) (fun _ _ => rfl)
        (fun w hw => ⟨hwords' w hw, fun _ _ => rfl⟩) hrest
      have hle := phraseOfWords?_le_length hrest
      have hfirst' := (spelling?_eq hfirst).2
      have hrun := positive?_eq_some hblanks
      have hstop : run isBlank (cs.drop first) < (cs.drop first).length := by
        rw [List.length_drop] at hle ⊢
        omega
      rw [phraseOfWords?_cons (by simp), spelling?_append_of_some hfirst, Option.bind_some,
        List.drop_append_of_le_length hfirst', blanks?, run_append_of_lt _ hstop, ← blanks?,
        hblanks, Option.bind_some, List.drop_append_of_le_length, ih hwords' hrest]
      · rfl
      · rw [List.length_drop] at hle
        omega

theorem phrase?_eq_some_iff {words : List String} {n : Nat} : phrase? words cs = some n ↔
    phraseOfWords? words cs = some n ∧ (cs.drop n).head?.any isWordChar = false ∧ n ≠ 0 := by
  unfold phrase?
  constructor
  · intro h
    obtain ⟨m, hm, h⟩ := Option.bind_eq_some_iff.1 h
    split at h
    · cases h
    · next hend =>
      obtain rfl := positive?_eq_some h
      refine ⟨hm, by simpa using hend, ?_⟩
      rintro rfl
      cases h
  · rintro ⟨hwords, hend, hn⟩
    rw [hwords]
    simp only [bind, Option.bind_some, hend, Bool.false_eq_true, if_false, positive?, hn]

/-- The last characters of the lexemes that are neither words nor phrases. -/
def isEnd (c : Char) : Bool :=
  isBlank c || isDecimal c || "/'\"`.?<>=|:+-%*(),;".toList.contains c

theorem isEnd_of_isLetterVariant {u c : Char} (hu : isEnd u = false)
    (h : isLetterVariant u c = true) : isEnd c = false :=
  eq_false_of_isLetterVariant (by decide +kernel) (by decide) (by decide) hu h

/-- No word goes on from the characters to what follows them. -/
def Severed (cs t : List Char) : Prop :=
  (∃ c, cs.getLast? = some c ∧ isEnd c = true) ∨ t.head?.any isWordChar = false

/-- Every word of the phrase has a letter, and has nothing but letters. -/
def IsPhrase (words : List String) : Prop :=
  ∀ word ∈ words, word.toList ≠ [] ∧ ∀ u ∈ word.toList, isEnd u = false

theorem phrase?_withstands {words : List String} (hwords : IsPhrase words) (h : Severed cs t) :
    Withstands (phrase? words) cs t := by
  refine withstands_of_append (fun {n} hfull hn => ?_) fun {n} hcut => ?_
  · obtain ⟨hphrase, hend, hpos⟩ := phrase?_eq_some_iff.1 hfull
    refine phrase?_eq_some_iff.2 ⟨phraseOfWords?_of_le hphrase hn, ?_, hpos⟩
    rw [List.drop_append_of_le_length hn] at hend
    cases hrest : cs.drop n with
    | nil => rfl
    | cons c ds =>
      rw [hrest] at hend
      exact hend
  · obtain ⟨hphrase, hend, hpos⟩ := phrase?_eq_some_iff.1 hcut
    have hle := phraseOfWords?_le_length hphrase
    have hmore : ((cs ++ t).drop n).head?.any isWordChar = false := by
      rw [List.drop_append_of_le_length hle]
      cases hrest : cs.drop n with
      | cons c ds =>
        rw [hrest] at hend
        exact hend
      | nil =>
        -- the phrase takes all characters, and it ends with a letter
        obtain ⟨m, c, rfl, hc, hletter⟩ :=
          phraseOfWords?_last isEnd_of_isLetterVariant hwords hphrase
        have hlength : cs.length = m + 1 := Nat.le_antisymm (List.drop_eq_nil_iff.1 hrest) hle
        rcases h with ⟨d, hd, hlast⟩ | h
        · rw [List.getLast?_eq_getElem?, hlength, Nat.add_sub_cancel, hc] at hd
          obtain rfl := Option.some.inj hd
          rw [hletter] at hlast
          cases hlast
        · exact h
    rw [phrase?_eq_some_iff.2 ⟨phraseOfWords?_append_of_some
      (fun word hword => (hwords word hword).1) hphrase t, hmore, hpos⟩]
    exact Option.some_ne_none n

theorem phraseIn?_withstands {phrases : List (List String)}
    (hphrases : ∀ words ∈ phrases, IsPhrase words) (h : Severed cs t) :
    Withstands (phraseIn? phrases) cs t := by
  have hform : phraseIn? phrases =
      fun ds => (phrases.map phrase?).findSome? fun form => form ds := by
    funext ds
    rw [List.findSome?_map]
    rfl
  rw [hform]
  apply Withstands.findSome?
  intro form hform
  obtain ⟨words, hwords, rfl⟩ := List.mem_map.1 hform
  exact phrase?_withstands (hphrases words hwords) h

def mark? (mark : String) (cs : List Char) : Option Nat :=
  if mark.toList.isPrefixOf cs then some mark.length else none

theorem markIn?_eq {marks : List String} (h : ∀ mark ∈ marks, mark.length ≠ 0) (cs : List Char) :
    markIn? marks cs = marks.findSome? fun mark => mark? mark cs := by
  induction marks with
  | nil => rfl
  | cons mark marks ih =>
    unfold markIn? at ih ⊢
    rw [List.find?_cons, List.findSome?_cons, mark?]
    split
    · next hmark =>
      rw [if_pos hmark, Option.bind_some, positive?, if_neg (h mark List.mem_cons_self)]
    · next hmark =>
      rw [hmark]
      exact ih fun other hother => h other (List.mem_cons_of_mem _ hother)

theorem mark?_withstands (mark : String) (cs t : List Char) : Withstands (mark? mark) cs t where
  reaches := by
    intro n h hn
    unfold mark? at h ⊢
    split at h
    · next hmark =>
      obtain rfl := Option.some.inj h
      have hbegins := List.prefix_of_prefix_length_le (List.isPrefixOf_iff_prefix.1 hmark)
        (List.prefix_append cs t) (by rwa [String.length_toList])
      rw [if_pos (List.isPrefixOf_iff_prefix.2 hbegins)]
    · cases h
  fails h := by
    unfold mark? at h ⊢
    split at h
    · cases h
    · next hmark =>
      rw [if_neg]
      intro hbegins
      exact hmark (List.isPrefixOf_iff_prefix.2
        ((List.isPrefixOf_iff_prefix.1 hbegins).trans (List.prefix_append cs t)))

theorem markIn?_withstands {marks : List String} (h : ∀ mark ∈ marks, mark.length ≠ 0)
    (cs t : List Char) : Withstands (markIn? marks) cs t := by
  have hform : markIn? marks = fun ds => (marks.map mark?).findSome? fun form => form ds := by
    funext ds
    rw [markIn?_eq h, List.findSome?_map]
    rfl
  rw [hform]
  apply Withstands.findSome?
  intro form hform
  obtain ⟨mark, -, rfl⟩ := List.mem_map.1 hform
  exact mark?_withstands mark cs t

theorem parameter?_dollar (cs : List Char) :
    parameter? ('$' :: cs) = (positive? (run isDecimal cs)).map (· + 1) := rfl

theorem parameter?_colon (c : Char) (cs : List Char) :
    parameter? (':' :: c :: cs) =
      if c.isAlpha || c = '_' then some (run isWordChar cs + 2) else none := rfl

theorem parameter?_eq_none {c : Char} (hquestion : c ≠ '?') (hdollar : c ≠ '$') (hcolon : c ≠ ':')
    (cs : List Char) : parameter? (c :: cs) = none := by
  simp [parameter?, hquestion, hdollar, hcolon]

theorem parameter?_withstands (cs t : List Char) : Withstands parameter? cs t := by
  cases cs with
  | nil =>
    refine ⟨fun h hn => ?_, fun _ => rfl⟩
    obtain rfl := Nat.le_zero.1 hn
    unfold parameter? at h
    split at h
    · cases h
    · simp at h
    · split at h <;> cases h
    · cases h
  | cons c cs =>
    by_cases hquestion : c = '?'
    · subst hquestion
      exact ⟨fun h _ => h, fun h => by cases h⟩
    by_cases hdollar : c = '$'
    · subst hdollar
      refine ⟨fun h hn => ?_, fun h => ?_⟩
      · rw [List.cons_append, parameter?_dollar] at h
        obtain ⟨m, hm, rfl⟩ := Option.map_eq_some_iff.1 h
        obtain rfl := positive?_eq_some hm
        rw [parameter?_dollar, run_of_le _ (Nat.le_of_succ_le_succ hn), hm]
        rfl
      · have hle := run_le_append isDecimal cs t
        rw [List.cons_append, parameter?_dollar, Option.map_eq_none_iff, positive?_eq_none] at h
        rw [parameter?_dollar, Option.map_eq_none_iff, positive?_eq_none]
        omega
    by_cases hcolon : c = ':'
    · subst hcolon
      cases cs with
      | nil =>
        refine ⟨fun h hn => ?_, fun _ => rfl⟩
        cases t with
        | nil => cases h
        | cons d ds =>
          rw [List.cons_append, List.nil_append, parameter?_colon] at h
          split at h
          · obtain rfl := Option.some.inj h
            simp at hn
          · cases h
      | cons d ds =>
        refine ⟨fun h hn => ?_, fun h => ?_⟩
        · rw [List.cons_append, List.cons_append, parameter?_colon] at h
          rw [parameter?_colon]
          split at h
          · next hd =>
            obtain rfl := Option.some.inj h
            have hle : run isWordChar (ds ++ t) ≤ ds.length := by simpa using hn
            rw [if_pos hd, run_of_le _ hle]
          · cases h
        · rw [List.cons_append, List.cons_append, parameter?_colon] at h
          rw [parameter?_colon]
          split at h
          · cases h
          · next hd => rw [if_neg hd]
    · refine ⟨fun h _ => ?_, fun _ => parameter?_eq_none hquestion hdollar hcolon cs⟩
      rw [List.cons_append, parameter?_eq_none hquestion hdollar hcolon] at h
      cases h

theorem word?_withstands (cs t : List Char) : Withstands word? cs t where
  reaches := by
    intro n h hn
    cases cs with
    | nil =>
      obtain rfl := Nat.le_zero.1 hn
      unfold word? at h
      split at h
      · cases h
      · split at h <;> simp at h
    | cons c cs =>
      rw [List.cons_append, word?] at h
      rw [word?]
      split at h
      · next hc =>
        obtain rfl := Option.some.inj h
        rw [if_pos hc, run_of_le _ (Nat.le_of_succ_le_succ hn)]
      · cases h
  fails h := by
    cases cs with
    | nil => rfl
    | cons c cs =>
      rw [List.cons_append, word?] at h
      rw [word?]
      split at h
      · cases h
      · next hc => rw [if_neg hc]

theorem severed_of_getLast? {c : Char} (h : cs.getLast? = some c) (hc : isEnd c = true) :
    Severed cs t :=
  Or.inl ⟨c, h, hc⟩

theorem isEnd_of_isBlank {c : Char} (h : isBlank c = true) : isEnd c = true := by
  simp [isEnd, h]

theorem isEnd_of_isDecimal {c : Char} (h : isDecimal c = true) : isEnd c = true := by
  simp [isEnd, h]

theorem exists_getLast?_take_run {p : Char → Bool} (h : run p cs ≠ 0) :
    ∃ c, (cs.take (run p cs)).getLast? = some c ∧ p c = true := by
  have hne : cs.take (run p cs) ≠ [] := by
    intro hnil
    have hlength := congrArg List.length hnil
    have hle := run_le_length p cs
    rw [List.length_take, List.length_nil] at hlength
    omega
  exact ⟨_, List.getLast?_eq_some_getLast hne,
    getLast?_take_run p (List.getLast?_eq_some_getLast hne)⟩

theorem getLast?_append_of_some {α : Type} {ys : List α} {y : α} (h : ys.getLast? = some y)
    (xs : List α) : (xs ++ ys).getLast? = some y := by
  rw [List.getLast?_append, h]
  rfl

theorem severed_blanks? {n : Nat} (h : blanks? cs = some n) : Severed (cs.take n) (cs.drop n) := by
  obtain rfl := positive?_eq_some h
  obtain ⟨c, hlast, hc⟩ := exists_getLast?_take_run (ne_zero_of_positive? h)
  exact severed_of_getLast? hlast (isEnd_of_isBlank hc)

/-- A line ends with its line break or where the text does. -/
theorem exists_getLast?_restOfLine (cs : List Char) : cs.drop (restOfLine cs) = [] ∨
    ∃ c, (cs.take (restOfLine cs)).getLast? = some c ∧ isBlank c = true := by
  induction cs with
  | nil => exact Or.inl rfl
  | cons c cs ih =>
    rw [restOfLine_cons]
    split
    · next hc =>
      right
      simp only [isLineBreak, Bool.or_eq_true, beq_iff_eq] at hc
      rcases hc with rfl | rfl
      · cases cs with
        | nil => exact ⟨'\r', rfl, by decide⟩
        | cons d ds =>
          by_cases hd : d = '\n'
          · subst hd
            exact ⟨'\n', rfl, by decide⟩
          · exact ⟨'\r', by simp [lineBreak, hd], by decide⟩
      · exact ⟨'\n', rfl, by decide⟩
    · rcases ih with hnil | ⟨d, hd, hblank⟩
      · exact Or.inl hnil
      · exact Or.inr ⟨d, getLast?_cons_of_some hd c, hblank⟩

theorem severed_lineComment? {n : Nat} (h : lineComment? cs = some n) :
    Severed (cs.take n) (cs.drop n) := by
  obtain ⟨opening, -, ds, rfl, rfl⟩ := lineComment?_eq_some_iff.1 h
  rw [Nat.add_comm, List.take_length_add_append, List.drop_length_add_append]
  rcases exists_getLast?_restOfLine ds with hnil | ⟨c, hc, hblank⟩
  · right
    rw [hnil]
    rfl
  · exact severed_of_getLast? (getLast?_append_of_some hc opening) (isEnd_of_isBlank hblank)

theorem severed_blockComment? {n : Nat} (h : blockComment? cs = some n) :
    Severed (cs.take n) (cs.drop n) :=
  severed_of_getLast? (getLast?_blockComment h) (by decide)

theorem severed_quoted {quoting : Quoting} (hmark : isEnd quoting.mark = true) {n : Nat}
    (h : quoting.measure? cs = some n) : Severed (cs.take n) (cs.drop n) := by
  cases cs with
  | nil => cases h
  | cons c cs =>
    rw [Quoting.measure?] at h
    split at h
    · obtain ⟨m, hm, rfl⟩ := Option.map_eq_some_iff.1 h
      exact severed_of_getLast? (getLast?_cons_of_some (quoting.getLast?_end hm) c) hmark
    · cases h

theorem exists_getLast?_digits (h : run isDecimal cs ≠ 0) :
    ∃ c, (cs.take (run isDecimal cs)).getLast? = some c ∧ isEnd c = true := by
  obtain ⟨c, hc, hdigit⟩ := exists_getLast?_take_run h
  exact ⟨c, hc, isEnd_of_isDecimal hdigit⟩

theorem exists_getLast?_fraction (h : fraction cs ≠ 0) :
    ∃ c, (cs.take (fraction cs)).getLast? = some c ∧ isEnd c = true := by
  cases cs with
  | nil => exact absurd rfl h
  | cons c cs =>
    rw [fraction_cons] at h ⊢
    split
    · next hc =>
      subst hc
      rw [Nat.add_comm, List.take_succ_cons]
      by_cases hrun : run isDecimal cs = 0
      · exact ⟨'.', by rw [hrun]; rfl, by decide⟩
      · obtain ⟨d, hd, hend⟩ := exists_getLast?_digits hrun
        exact ⟨d, getLast?_cons_of_some hd _, hend⟩
    · next hc => exact absurd (if_neg hc) h

theorem exists_getLast?_mantissa? {n : Nat} (h : mantissa? cs = some n) :
    ∃ c, (cs.take n).getLast? = some c ∧ isEnd c = true := by
  cases hr : run isDecimal cs with
  | zero =>
    cases cs with
    | nil => cases h
    | cons c cs =>
      rw [mantissa?_of_zero hr] at h
      split at h
      · obtain ⟨m, hm, rfl⟩ := Option.map_eq_some_iff.1 h
        obtain rfl := positive?_eq_some hm
        obtain ⟨d, hd, hend⟩ := exists_getLast?_digits (ne_zero_of_positive? hm)
        exact ⟨d, getLast?_cons_of_some hd c, hend⟩
      · cases h
  | succ r =>
    rw [mantissa?_of_pos hr] at h
    obtain rfl := Option.some.inj h
    rw [List.take_add]
    by_cases hfraction : fraction (cs.drop (r + 1)) = 0
    · rw [hfraction, List.take_zero, List.append_nil, ← hr]
      exact exists_getLast?_digits (by omega)
    · obtain ⟨c, hc, hend⟩ := exists_getLast?_fraction hfraction
      exact ⟨c, getLast?_append_of_some hc _, hend⟩

theorem exists_getLast?_exponent (h : exponent cs ≠ 0) :
    ∃ c, (cs.take (exponent cs)).getLast? = some c ∧ isEnd c = true := by
  cases cs with
  | nil => exact absurd rfl h
  | cons c cs =>
    rw [exponent_cons] at h ⊢
    split
    · next hexponent =>
      simp only [Bool.and_eq_true, bne_iff_ne] at hexponent
      obtain ⟨d, hd, hend⟩ := exists_getLast?_digits hexponent.2
      rw [Nat.add_assoc, Nat.add_comm 1, List.take_succ_cons, List.take_add]
      exact ⟨d, getLast?_cons_of_some (getLast?_append_of_some hd _) c, hend⟩
    · next hexponent => exact absurd (if_neg hexponent) h

theorem severed_number? {n : Nat} (h : number? cs = some n) : Severed (cs.take n) (cs.drop n) := by
  obtain ⟨m, hm, rfl⟩ := Option.map_eq_some_iff.1 h
  rw [List.take_add]
  by_cases hexponent : exponent (cs.drop m) = 0
  · obtain ⟨c, hc, hend⟩ := exists_getLast?_mantissa? hm
    rw [hexponent, List.take_zero, List.append_nil]
    exact severed_of_getLast? hc hend
  · obtain ⟨c, hc, hend⟩ := exists_getLast?_exponent hexponent
    exact severed_of_getLast? (getLast?_append_of_some hc _) hend

theorem severed_phraseIn? {phrases : List (List String)} {n : Nat}
    (h : phraseIn? phrases cs = some n) : Severed (cs.take n) (cs.drop n) := by
  obtain ⟨words, -, hwords⟩ := List.exists_of_findSome?_eq_some h
  exact Or.inr (phrase?_eq_some_iff.1 hwords).2.1

theorem severed_markIn? {marks : List String}
    (hmarks : ∀ mark ∈ marks, mark.length ≠ 0 ∧ mark.toList.getLast?.any isEnd = true) {n : Nat}
    (h : markIn? marks cs = some n) : Severed (cs.take n) (cs.drop n) := by
  rw [markIn?_eq fun mark hmark => (hmarks mark hmark).1] at h
  obtain ⟨mark, hmark, h⟩ := List.exists_of_findSome?_eq_some h
  unfold mark? at h
  split at h
  · next hbegins =>
    obtain rfl := Option.some.inj h
    obtain ⟨ds, rfl⟩ := List.isPrefixOf_iff_prefix.1 hbegins
    obtain ⟨c, hc, hend⟩ := (Option.any_eq_true _ _).1 (hmarks mark hmark).2
    rw [← String.length_toList, List.take_left]
    exact severed_of_getLast? hc hend
  · cases h

theorem severed_parameter? {n : Nat} (h : parameter? cs = some n) :
    Severed (cs.take n) (cs.drop n) := by
  unfold parameter? at h
  split at h
  · obtain rfl := Option.some.inj h
    exact severed_of_getLast? (c := '?') rfl (by decide)
  · next ds =>
    obtain ⟨m, hm, rfl⟩ := Option.map_eq_some_iff.1 h
    obtain rfl := positive?_eq_some hm
    obtain ⟨c, hc, hend⟩ := exists_getLast?_digits (ne_zero_of_positive? hm)
    exact severed_of_getLast? (getLast?_cons_of_some hc _) hend
  · next ds =>
    split at h
    · obtain rfl := Option.some.inj h
      exact Or.inr (head?_drop_run isWordChar ds)
    · cases h
  · cases h

theorem severed_word? {n : Nat} (h : word? cs = some n) : Severed (cs.take n) (cs.drop n) := by
  cases cs with
  | nil => cases h
  | cons c cs =>
    rw [word?] at h
    split at h
    · obtain rfl := Option.some.inj h
      right
      have hstop := head?_drop_run (fun d => isWordChar d || d == '$') cs
      rw [List.drop_succ_cons]
      cases hrest : (cs.drop (run (fun d => isWordChar d || d == '$') cs)).head? with
      | none => rfl
      | some d =>
        rw [hrest] at hstop
        simp_all
    · cases h

end Pattern

open Pattern

namespace LexRule

variable {cs t : List Char}

theorem isPhrase_of_mem : ∀ words ∈ keywordPhrases ++ matchPhrases, IsPhrase words := by
  have hall : ((keywordPhrases ++ matchPhrases).all fun words => words.all fun word =>
      !word.toList.isEmpty && word.toList.all fun u => !isEnd u) = true := by
    decide +kernel
  intro words hwords word hword
  have hletters := List.all_eq_true.1 (List.all_eq_true.1 hall words hwords) word hword
  simpa using hletters

/-- Every rule finds the same at the beginning of what has been cut off. -/
theorem measure?_withstands (h : Severed cs t) :
    ∀ rule ∈ all, Withstands rule.measure? cs t := by
  simp only [all, List.forall_mem_cons, List.not_mem_nil, false_implies, implies_true, and_true]
  exact ⟨lineComment?_withstands cs t, blockComment?_withstands cs t, blanks?_withstands cs t,
    singleQuotes.measure?_withstands cs t, doubleQuotes.measure?_withstands cs t,
    backQuotes.measure?_withstands cs t, number?_withstands cs t,
    phraseIn?_withstands (fun _ hwords => isPhrase_of_mem _ (List.mem_append_left _ hwords)) h,
    phraseIn?_withstands (fun _ hwords => isPhrase_of_mem _ (List.mem_append_right _ hwords)) h,
    markIn?_withstands (by decide) cs t, markIn?_withstands (by decide) cs t,
    parameter?_withstands cs t, markIn?_withstands (by decide) cs t,
    markIn?_withstands (by decide) cs t, word?_withstands cs t⟩

/-- No word goes on where a lexeme ends. -/
theorem severed_of_measure? : ∀ rule ∈ all, ∀ {cs : List Char} {n : Nat},
    rule.measure? cs = some n → Severed (cs.take n) (cs.drop n) := by
  simp only [all, List.forall_mem_cons, List.not_mem_nil, false_implies, implies_true, and_true]
  exact ⟨severed_lineComment?, severed_blockComment?, severed_blanks?, severed_quoted (by decide),
    severed_quoted (by decide), severed_quoted (by decide), severed_number?, severed_phraseIn?,
    severed_phraseIn?, severed_markIn? (by decide), severed_markIn? (by decide), severed_parameter?,
    severed_markIn? (by decide), severed_markIn? (by decide), severed_word?⟩

theorem map_snd_first? (cs : List Char) :
    (first? cs).map Prod.snd = (all.map measure?).findSome? fun form => form cs := by
  rw [first?, List.map_findSome?, List.findSome?_map]
  congr 1
  funext rule
  simp [Function.comp_def]

theorem exists_first?_of_append (h : Severed cs t) {kind : Kind} {n : Nat}
    (hfirst : first? (cs ++ t) = some (kind, n)) (hn : n ≤ cs.length) :
    ∃ kind', first? cs = some (kind', n) := by
  have hforms : Withstands (fun ds => (all.map measure?).findSome? fun form => form ds) cs t := by
    refine .findSome? fun form hform => ?_
    obtain ⟨rule, hrule, rfl⟩ := List.mem_map.1 hform
    exact measure?_withstands h rule hrule
  have hlength := congrArg (Option.map Prod.snd) hfirst
  rw [map_snd_first?, Option.map_some] at hlength
  have hcut := hforms.reaches hlength hn
  rw [← map_snd_first?] at hcut
  obtain ⟨⟨kind', m⟩, hkind, rfl⟩ := Option.map_eq_some_iff.1 hcut
  exact ⟨kind', hkind⟩

end LexRule

end QueryLineage
