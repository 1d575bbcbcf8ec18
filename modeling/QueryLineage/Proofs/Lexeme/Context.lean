import QueryLineage.Proofs.Lexeme.Reads
import QueryLineage.Proofs.Text.Classes

/-!
# Lexemes in context

The lexemes of a text stay what they are when a closing parenthesis or a semicolon and more text
follow it: no form of lexeme reaches across such a character, except a comment whose line has not
ended. Quoted text could, since a mark that is not doubled closes it, and a doubled one only if
another mark follows; but where that is so, the text could not be read by itself.
-/

namespace QueryLineage

open Text

namespace Pattern

variable {b : Char} {cs t : List Char}

theorem run_append {p : Char → Bool} (hb : p b = false) (cs t : List Char) :
    run p (cs ++ b :: t) = run p cs := by
  induction cs with
  | nil => simp [run_cons, hb]
  | cons c cs ih => rw [List.cons_append, run_cons, run_cons, ih]

theorem drop_append_cons {n : Nat} (h : n ≤ cs.length) (b : Char) (t : List Char) :
    (cs ++ b :: t).drop n = cs.drop n ++ b :: t := by
  rw [List.drop_append, Nat.sub_eq_zero_of_le h, List.drop_zero]

theorem commentEnd?_append {n : Nat} (h : commentEnd? cs = some n) (t : List Char) :
    commentEnd? (cs ++ t) = some n := by
  induction cs generalizing n with
  | nil => cases h
  | cons c cs ih =>
    rw [List.cons_append, commentEnd?]
    rw [commentEnd?] at h
    cases cs with
    | nil => simp [commentEnd?] at h
    | cons d ds =>
      rw [List.cons_append, List.head?_cons]
      rw [List.head?_cons] at h
      split
      · next hend => rwa [if_pos hend] at h
      · next hend =>
        rw [if_neg hend] at h
        obtain ⟨m, hm, rfl⟩ := Option.map_eq_some_iff.1 h
        rw [← List.cons_append, ih hm]
        rfl

/-- Quoted text ends where it ended before, unless the rest begins with a mark that opens what has no
end: behind such a mark, a mark that comes later could end the text. -/
theorem Quoting.end?_append (quoting : Quoting) {n : Nat} (h : quoting.end? cs = some n)
    (hb : b ≠ quoting.mark) (hrest : ∀ ds, cs.drop n = quoting.mark :: ds → quoting.end? ds ≠ none)
    (t : List Char) : quoting.end? (cs ++ b :: t) = some n := by
  fun_induction Quoting.end? quoting cs generalizing n with
  | case1 => cases h
  | case2 =>
    cases h
    simp [end?, hb]
  | case3 d ds hdoubled ih =>
    rw [List.cons_append, List.cons_append, end?, if_pos rfl]
    rw [if_pos hdoubled]
    cases hds : quoting.end? ds with
    | none =>
      rw [hds] at h
      cases h
      have hd : d = quoting.mark := of_decide_eq_true (Bool.and_eq_true _ _ ▸ hdoubled).2
      exact absurd hds (hrest ds (by rw [hd]; rfl))
    | some m =>
      rw [hds] at h
      cases h
      rw [ih hds fun es hes => hrest es (by simpa using hes)]
      rfl
  | case4 d ds hdoubled =>
    rw [List.cons_append, List.cons_append, end?, if_pos rfl]
    rw [if_neg hdoubled]
    exact h
  | case5 => cases h
  | case6 c hmark hescape d ds ih =>
    obtain ⟨m, hm, rfl⟩ := Option.map_eq_some_iff.1 h
    rw [List.cons_append, List.cons_append, end?, if_neg hmark, if_pos hescape]
    rw [ih hm fun es hes => hrest es (by simpa using hes)]
    rfl
  | case7 c cs hmark hescape ih =>
    obtain ⟨m, hm, rfl⟩ := Option.map_eq_some_iff.1 h
    rw [List.cons_append, end?.eq_def]
    dsimp only
    rw [if_neg hmark, if_neg hescape, ih hm fun es hes => hrest es (by simpa using hes)]
    rfl

/-- Where the text begins with the mark, the mark opens what has an end, and so does another mark
right behind that. -/
def Quoting.Closes (quoting : Quoting) (cs : List Char) : Prop :=
  ∀ ds, cs = quoting.mark :: ds → ∃ n, quoting.end? ds = some n ∧
    ∀ es, ds.drop n = quoting.mark :: es → quoting.end? es ≠ none

theorem Quoting.measure?_append (quoting : Quoting) (hcs : cs ≠ []) (hb : b ≠ quoting.mark)
    (h : quoting.Closes cs) : quoting.measure? (cs ++ b :: t) = quoting.measure? cs := by
  obtain ⟨c, cs, rfl⟩ := List.exists_cons_of_ne_nil hcs
  rw [List.cons_append, measure?, measure?]
  by_cases hc : c = quoting.mark
  · obtain ⟨n, hn, hrest⟩ := h cs (by rw [hc])
    rw [if_pos hc, if_pos hc, hn, quoting.end?_append hn hb hrest]
  · rw [if_neg hc, if_neg hc]

theorem mantissa?_append (hcs : cs ≠ []) (hdigit : isDecimal b = false) (hdot : b ≠ '.') :
    mantissa? (cs ++ b :: t) = mantissa? cs := by
  obtain ⟨c, cs, rfl⟩ := List.exists_cons_of_ne_nil hcs
  have hle := run_le_length isDecimal (c :: cs)
  unfold mantissa?
  rw [run_append hdigit, List.cons_append]
  cases hrun : run isDecimal (c :: cs) with
  | zero =>
    by_cases hc : c = '.'
    · subst hc
      simp [run_append hdigit]
    · simp [hc]
  | succ n =>
    simp only
    rw [← List.cons_append, drop_append_cons (by omega)]
    cases hrest : (c :: cs).drop (n + 1) with
    | nil => simp [hdot]
    | cons d ds =>
      by_cases hd : d = '.'
      · subst hd
        simp [run_append hdigit]
      · simp [hd]

theorem sign_append (hplus : b ≠ '+') (hminus : b ≠ '-') (cs t : List Char) :
    sign (cs ++ b :: t) = sign cs := by
  cases cs with
  | nil => simp [sign, hplus, hminus]
  | cons c cs =>
    by_cases hc : c = '+'
    · subst hc
      rfl
    · by_cases hc' : c = '-'
      · subst hc'
        rfl
      · simp [sign, hc, hc']

theorem sign_le_length (cs : List Char) : sign cs ≤ cs.length := by
  unfold sign
  split <;> simp

theorem exponent_append (hdigit : isDecimal b = false) (hplus : b ≠ '+') (hminus : b ≠ '-')
    (hlower : b ≠ 'e') (hupper : b ≠ 'E') (cs t : List Char) :
    exponent (cs ++ b :: t) = exponent cs := by
  cases cs with
  | nil => simp [exponent, hlower, hupper]
  | cons c cs =>
    rw [List.cons_append, exponent, exponent, sign_append hplus hminus,
      drop_append_cons (sign_le_length cs), run_append hdigit]

theorem mantissa?_le_length {n : Nat} (h : mantissa? cs = some n) : n ≤ cs.length := by
  have hle := run_le_length isDecimal cs
  unfold mantissa? at h
  split at h
  · next ds _ =>
    obtain ⟨m, hm, rfl⟩ := Option.map_eq_some_iff.1 h
    have hds := run_le_length isDecimal ds
    unfold positive? at hm
    split at hm
    · cases hm
    · cases hm
      simpa using hds
  · cases h
  · split at h
    · next ds hds =>
      cases h
      have hlength := congrArg List.length hds
      have hrun := run_le_length isDecimal ds
      simp only [List.length_drop, List.length_cons] at hlength
      omega
    · cases h
      exact hle

theorem number?_append (hcs : cs ≠ []) (hdigit : isDecimal b = false) (hdot : b ≠ '.')
    (hplus : b ≠ '+') (hminus : b ≠ '-') (hlower : b ≠ 'e') (hupper : b ≠ 'E') :
    number? (cs ++ b :: t) = number? cs := by
  rw [number?, number?, mantissa?_append hcs hdigit hdot]
  cases h : mantissa? cs with
  | none => rfl
  | some n =>
    rw [Option.map_some, Option.map_some, drop_append_cons (mantissa?_le_length h),
      exponent_append hdigit hplus hminus hlower hupper]

def isLineBreak (c : Char) : Bool :=
  c == '\r' || c == '\n'

theorem not_isLineBreak (c : Char) : (c != '\r' && c != '\n') = !isLineBreak c := by
  simp [isLineBreak, bne]

theorem restOfLine_append (h : ∃ c ∈ cs, isLineBreak c = true) (hb : b ≠ '\n') (t : List Char) :
    restOfLine (cs ++ b :: t) = restOfLine cs := by
  induction cs with
  | nil => simp at h
  | cons c cs ih =>
    by_cases hc : isLineBreak c = true
    · have hstop : (c != '\r' && c != '\n') = false := by
        rw [not_isLineBreak]
        simpa using hc
      simp only [List.cons_append, restOfLine, run_cons, hstop, Bool.false_eq_true, if_false,
        List.drop_zero]
      congr 1
      simp only [isLineBreak, Bool.or_eq_true, beq_iff_eq] at hc
      rcases hc with rfl | rfl
      · cases cs with
        | nil => simp [lineBreak, hb]
        | cons d ds =>
          by_cases hd : d = '\n'
          · subst hd
            rfl
          · simp [lineBreak, hd]
      · rfl
    · have hgo : (c != '\r' && c != '\n') = true := by
        rw [not_isLineBreak]
        simpa using hc
      have hrest : ∃ d ∈ cs, isLineBreak d = true := by
        obtain ⟨d, hd, hbreak⟩ := h
        rcases List.mem_cons.1 hd with rfl | hd
        · exact absurd hbreak hc
        · exact ⟨d, hd, hbreak⟩
      have heq := ih hrest
      simp only [restOfLine, List.cons_append, run_cons, hgo, if_true, List.drop_succ_cons] at heq ⊢
      omega

theorem exists_isLineBreak (h : restOfLine cs < cs.length) : ∃ c ∈ cs, isLineBreak c = true := by
  induction cs with
  | nil => simp at h
  | cons c cs ih =>
    by_cases hc : isLineBreak c = true
    · exact ⟨c, List.mem_cons_self, hc⟩
    · have hgo : (c != '\r' && c != '\n') = true := by
        rw [not_isLineBreak]
        simpa using hc
      simp only [restOfLine, run_cons, hgo, if_true, List.drop_succ_cons, List.length_cons] at h ih
      obtain ⟨d, hd, hbreak⟩ := ih (by omega)
      exact ⟨d, List.mem_cons_of_mem _ hd, hbreak⟩

/-- A comment to the end of the line stays as it is if the line ends. -/
theorem lineComment?_append (hcs : cs ≠ []) (hdash : b ≠ '-') (hb : b ≠ '\n')
    (hbreak : ∀ n, lineComment? cs = some n → ∃ c ∈ cs, isLineBreak c = true) (t : List Char) :
    lineComment? (cs ++ b :: t) = lineComment? cs := by
  obtain ⟨c, cs, rfl⟩ := List.exists_cons_of_ne_nil hcs
  by_cases hhash : c = '#'
  · subst hhash
    obtain ⟨d, hd, hline⟩ := hbreak _ rfl
    have hmem : d ∈ cs := by
      rcases List.mem_cons.1 hd with rfl | hd
      · exact absurd hline (by decide)
      · exact hd
    simp [lineComment?, restOfLine_append ⟨d, hmem, hline⟩ hb]
  by_cases hc : c = '-'
  · subst hc
    cases cs with
    | nil => simp [lineComment?, hdash]
    | cons d ds =>
      by_cases hd : d = '-'
      · subst hd
        obtain ⟨e, he, hline⟩ := hbreak _ rfl
        have hmem : e ∈ ds := by
          rcases List.mem_cons.1 he with rfl | he
          · exact absurd hline (by decide)
          · rcases List.mem_cons.1 he with rfl | he
            · exact absurd hline (by decide)
            · exact he
        simp [lineComment?, restOfLine_append ⟨e, hmem, hline⟩ hb]
      · simp [lineComment?, hd]
  · simp [lineComment?, hc, hhash]

/-- A comment to the end of a line opens no other comment. -/
theorem opensComment_of_lineComment? {c : Char} {n : Nat} (h : lineComment? (c :: cs) = some n)
    (other : List Char) : opensComment (c :: other) = false := by
  unfold lineComment? at h
  split at h
  · next heq =>
    rw [(List.cons.inj heq).1]
    rfl
  · next heq =>
    rw [(List.cons.inj heq).1]
    rfl
  · cases h

theorem opensComment_append (hcs : cs ≠ []) (hstar : b ≠ '*') (t : List Char) :
    opensComment (cs ++ b :: t) = opensComment cs := by
  obtain ⟨c, cs, rfl⟩ := List.exists_cons_of_ne_nil hcs
  cases cs with
  | nil => simp [opensComment, hstar]
  | cons d ds =>
    by_cases h : c = '/' ∧ d = '*'
    · obtain ⟨rfl, rfl⟩ := h
      rfl
    · simp_all [opensComment]

theorem blockComment?_append (hcs : cs ≠ []) (hstar : b ≠ '*')
    (hend : opensComment cs = true → blockComment? cs ≠ none) (t : List Char) :
    blockComment? (cs ++ b :: t) = blockComment? cs := by
  by_cases hopens : opensComment cs = true
  · unfold opensComment at hopens
    split at hopens
    · next ds =>
      obtain ⟨n, hn⟩ := Option.ne_none_iff_exists'.1 (hend rfl)
      obtain ⟨m, hm, rfl⟩ := Option.map_eq_some_iff.1 hn
      rw [hn, List.cons_append, List.cons_append, blockComment?, commentEnd?_append hm]
      rfl
    · cases hopens
  · have hnone : ∀ {ds : List Char}, opensComment ds = false → blockComment? ds = none := by
      intro ds hds
      unfold blockComment?
      split
      · cases hds
      · rfl
    have hfalse : opensComment cs = false := by simpa using hopens
    rw [hnone hfalse, hnone (by rw [opensComment_append hcs hstar, hfalse])]

/-- A character is no letter of any phrase, looked at letter by letter. -/
theorem noLetterVariant_of_all {phrases : List (List String)} {c : Char}
    (h : (phrases.all fun words => words.all fun word =>
      word.toList.all fun u => !isLetterVariant u c) = true) :
    ∀ words ∈ phrases, ∀ word ∈ words, ∀ u ∈ word.toList, isLetterVariant u c = false := by
  intro words hwords word hword u hu
  have hletter := List.all_eq_true.1
    (List.all_eq_true.1 (List.all_eq_true.1 h words hwords) word hword) u hu
  simpa using hletter

theorem spelling?_append {us : List Char} (h : ∀ u ∈ us, isLetterVariant u b = false)
    (cs t : List Char) : spelling? us (cs ++ b :: t) = spelling? us cs := by
  induction us generalizing cs with
  | nil => cases cs <;> rfl
  | cons u us ih =>
    cases cs with
    | nil => simp [spelling?, h u List.mem_cons_self]
    | cons c cs =>
      rw [List.cons_append, spelling?, spelling?,
        ih (fun v hv => h v (List.mem_cons_of_mem _ hv)) cs]

theorem spelling?_eq {us : List Char} {n : Nat} (h : spelling? us cs = some n) :
    n = us.length ∧ n ≤ cs.length := by
  induction us generalizing cs n with
  | nil =>
    cases cs <;> cases h <;> simp
  | cons u us ih =>
    cases cs with
    | nil => cases h
    | cons c cs =>
      rw [spelling?] at h
      split at h
      · obtain ⟨m, hm, rfl⟩ := Option.map_eq_some_iff.1 h
        obtain ⟨hlength, hle⟩ := ih hm
        simp [hlength]
        omega
      · cases h

theorem blanks?_append (hblank : isBlank b = false) (cs t : List Char) :
    blanks? (cs ++ b :: t) = blanks? cs := by
  rw [blanks?, blanks?, run_append hblank]

theorem blanks?_le_length {n : Nat} (h : blanks? cs = some n) : n ≤ cs.length := by
  have hle := run_le_length isBlank cs
  unfold blanks? positive? at h
  split at h
  · cases h
  · cases h
    exact hle

theorem phraseOfWords?_cons {words : List String} (hwords : words ≠ []) (word : String)
    (cs : List Char) :
    phraseOfWords? (word :: words) cs = (spelling? word.toList cs).bind fun n =>
      (blanks? (cs.drop n)).bind fun blanks =>
        (phraseOfWords? words (cs.drop (n + blanks))).map (n + blanks + ·) := by
  rw [phraseOfWords?]
  · simp only [bind, Option.map_eq_bind]
    rfl
  · exact hwords

theorem phraseOfWords?_le_length {words : List String} {n : Nat}
    (h : phraseOfWords? words cs = some n) : n ≤ cs.length := by
  fun_induction phraseOfWords? words cs generalizing n with
  | case1 => cases h
  | case2 word cs => exact (spelling?_eq h).2
  | case3 word words cs hwords ih =>
    obtain ⟨first, hfirst, h⟩ := Option.bind_eq_some_iff.1 h
    obtain ⟨blanks, hblanks, h⟩ := Option.bind_eq_some_iff.1 h
    obtain ⟨rest, hrest, h⟩ := Option.bind_eq_some_iff.1 h
    obtain rfl : first + blanks + rest = n := Option.some.inj h
    have hfirst' := (spelling?_eq hfirst).2
    have hblanks' := blanks?_le_length hblanks
    have hle := ih first blanks hrest
    rw [List.length_drop] at hblanks' hle
    omega

theorem phraseOfWords?_append {words : List String}
    (hwords : ∀ word ∈ words, ∀ u ∈ word.toList, isLetterVariant u b = false)
    (hblank : isBlank b = false) (cs t : List Char) :
    phraseOfWords? words (cs ++ b :: t) = phraseOfWords? words cs := by
  induction words generalizing cs with
  | nil => simp [phraseOfWords?]
  | cons word words ih =>
    have hword := spelling?_append (hwords word List.mem_cons_self) cs t
    cases words with
    | nil => exact hword
    | cons next words =>
      rw [phraseOfWords?_cons (by simp), phraseOfWords?_cons (by simp), hword]
      cases hspelling : spelling? word.toList cs with
      | none => rfl
      | some n =>
        have hn := (spelling?_eq hspelling).2
        rw [Option.bind_some, Option.bind_some, drop_append_cons hn, blanks?_append hblank]
        cases hblanks : blanks? (cs.drop n) with
        | none => rfl
        | some blanks =>
          have hle := blanks?_le_length hblanks
          rw [List.length_drop] at hle
          rw [Option.bind_some, Option.bind_some, drop_append_cons (by omega),
            ih fun w hw => hwords w (List.mem_cons_of_mem _ hw)]

theorem phrase?_append_of_eq {words : List String}
    (h : phraseOfWords? words (cs ++ b :: t) = phraseOfWords? words cs)
    (hword : isWordChar b = false) : phrase? words (cs ++ b :: t) = phrase? words cs := by
  unfold phrase?
  rw [h]
  cases hwords : phraseOfWords? words cs with
  | none => rfl
  | some n =>
    have hhead : ((cs ++ b :: t).drop n).head?.any isWordChar =
        (cs.drop n).head?.any isWordChar := by
      rw [drop_append_cons (phraseOfWords?_le_length hwords)]
      cases cs.drop n <;> simp [hword]
    simp only [bind, Option.bind_some, hhead]

theorem phrase?_append {words : List String}
    (hwords : ∀ word ∈ words, ∀ u ∈ word.toList, isLetterVariant u b = false)
    (hblank : isBlank b = false) (hword : isWordChar b = false) (cs t : List Char) :
    phrase? words (cs ++ b :: t) = phrase? words cs :=
  phrase?_append_of_eq (phraseOfWords?_append hwords hblank cs t) hword

theorem phraseIn?_append {phrases : List (List String)}
    (hphrases : ∀ words ∈ phrases, ∀ word ∈ words, ∀ u ∈ word.toList, isLetterVariant u b = false)
    (hblank : isBlank b = false) (hword : isWordChar b = false) (cs t : List Char) :
    phraseIn? phrases (cs ++ b :: t) = phraseIn? phrases cs := by
  induction phrases with
  | nil => rfl
  | cons words phrases ih =>
    unfold phraseIn? at ih ⊢
    rw [List.findSome?_cons, List.findSome?_cons,
      phrase?_append (hphrases words List.mem_cons_self) hblank hword,
      ih fun other hother => hphrases other (List.mem_cons_of_mem _ hother)]

theorem isPrefixOf_append {us : List Char} (h : b ∉ us) (cs t : List Char) :
    us.isPrefixOf (cs ++ b :: t) = us.isPrefixOf cs := by
  induction us generalizing cs with
  | nil => simp
  | cons u us ih =>
    have hu : u ≠ b := fun heq => h (heq ▸ List.mem_cons_self)
    have hus : b ∉ us := fun hmem => h (List.mem_cons_of_mem _ hmem)
    cases cs with
    | nil => simp [List.isPrefixOf, hu]
    | cons c cs => simp [List.isPrefixOf, ih hus]

theorem markIn?_append {marks : List String} (hcs : cs ≠ [])
    (h : ∀ mark ∈ marks, b ∉ mark.toList.tail) :
    markIn? marks (cs ++ b :: t) = markIn? marks cs := by
  obtain ⟨c, cs, rfl⟩ := List.exists_cons_of_ne_nil hcs
  have hbegins : ∀ mark ∈ marks,
      mark.toList.isPrefixOf (c :: cs ++ b :: t) = mark.toList.isPrefixOf (c :: cs) := by
    intro mark hmark
    cases hlist : mark.toList with
    | nil => simp
    | cons u us =>
      have hus := h mark hmark
      rw [hlist, List.tail_cons] at hus
      rw [List.cons_append, List.isPrefixOf, List.isPrefixOf, isPrefixOf_append hus]
  unfold markIn?
  congr 1
  induction marks with
  | nil => rfl
  | cons mark marks ih =>
    rw [List.find?_cons, List.find?_cons, hbegins mark List.mem_cons_self,
      ih (fun m hm => h m (List.mem_cons_of_mem _ hm))
        fun m hm => hbegins m (List.mem_cons_of_mem _ hm)]

theorem parameter?_append (hcs : cs ≠ []) (hdigit : isDecimal b = false)
    (hword : isWordChar b = false) (halpha : b.isAlpha = false) (hunderscore : b ≠ '_') :
    parameter? (cs ++ b :: t) = parameter? cs := by
  obtain ⟨c, cs, rfl⟩ := List.exists_cons_of_ne_nil hcs
  by_cases hquestion : c = '?'
  · subst hquestion
    rfl
  by_cases hdollar : c = '$'
  · subst hdollar
    simp [parameter?, run_append hdigit]
  by_cases hcolon : c = ':'
  · subst hcolon
    cases cs with
    | nil => simp [parameter?, halpha, hunderscore]
    | cons d ds => simp [parameter?, run_append hword]
  · simp [parameter?, hquestion, hdollar, hcolon]

theorem word?_append (hcs : cs ≠ []) (hword : isWordChar b = false) (hdollar : b ≠ '$') :
    word? (cs ++ b :: t) = word? cs := by
  obtain ⟨c, cs, rfl⟩ := List.exists_cons_of_ne_nil hcs
  rw [List.cons_append, word?, word?, run_append (by simp [hword, hdollar])]

theorem word?_le_length {n : Nat} (h : word? cs = some n) : n ≤ cs.length := by
  cases cs with
  | nil => cases h
  | cons c cs =>
    rw [word?] at h
    split at h
    · cases h
      exact Nat.succ_le_succ (run_le_length _ cs)
    · cases h

theorem positive?_eq_some {m n : Nat} (h : positive? m = some n) : n = m := by
  unfold positive? at h
  split at h
  · cases h
  · exact (Option.some.inj h).symm

theorem restOfLine_le_length (cs : List Char) : restOfLine cs ≤ cs.length := by
  have hbreak : ∀ ds, lineBreak ds ≤ ds.length := by
    intro ds
    unfold lineBreak
    split <;> simp
  have hrun := run_le_length (fun c => c != '\r' && c != '\n') cs
  have hdrop := hbreak (cs.drop (run (fun c => c != '\r' && c != '\n') cs))
  rw [List.length_drop] at hdrop
  simp only [restOfLine]
  omega

theorem commentEnd?_le_length {n : Nat} (h : commentEnd? cs = some n) : n ≤ cs.length := by
  induction cs generalizing n with
  | nil => cases h
  | cons c cs ih =>
    rw [commentEnd?] at h
    split at h
    · next hend =>
      cases h
      cases cs with
      | nil => simp at hend
      | cons d ds => simp
    · obtain ⟨m, hm, rfl⟩ := Option.map_eq_some_iff.1 h
      exact Nat.succ_le_succ (ih hm)

theorem lineComment?_le_length {n : Nat} (h : lineComment? cs = some n) : n ≤ cs.length := by
  unfold lineComment? at h
  split at h
  · next ds =>
    cases h
    exact Nat.succ_le_succ (Nat.succ_le_succ (restOfLine_le_length ds))
  · next ds =>
    cases h
    exact Nat.succ_le_succ (restOfLine_le_length ds)
  · cases h

theorem blockComment?_le_length {n : Nat} (h : blockComment? cs = some n) : n ≤ cs.length := by
  unfold blockComment? at h
  split at h
  · obtain ⟨m, hm, rfl⟩ := Option.map_eq_some_iff.1 h
    exact Nat.succ_le_succ (Nat.succ_le_succ (commentEnd?_le_length hm))
  · cases h

theorem Quoting.end?_le_length (quoting : Quoting) {n : Nat} (h : quoting.end? cs = some n) :
    n ≤ cs.length := by
  fun_induction Quoting.end? quoting cs generalizing n with
  | case1 => cases h
  | case2 =>
    cases h
    simp
  | case3 d ds _ ih =>
    rcases Option.or_eq_some_iff.1 h with h | ⟨_, h⟩
    · obtain ⟨m, hm, rfl⟩ := Option.map_eq_some_iff.1 h
      have hle := ih hm
      simp only [List.length_cons]
      omega
    · cases h
      simp
  | case4 =>
    cases h
    simp
  | case5 => cases h
  | case6 c _ _ d ds ih =>
    obtain ⟨m, hm, rfl⟩ := Option.map_eq_some_iff.1 h
    have hle := ih hm
    simp only [List.length_cons]
    omega
  | case7 c cs _ _ ih =>
    obtain ⟨m, hm, rfl⟩ := Option.map_eq_some_iff.1 h
    exact Nat.succ_le_succ (ih hm)

theorem Quoting.measure?_le_length (quoting : Quoting) {n : Nat}
    (h : quoting.measure? cs = some n) : n ≤ cs.length := by
  cases cs with
  | nil => cases h
  | cons c cs =>
    rw [measure?] at h
    split at h
    · obtain ⟨m, hm, rfl⟩ := Option.map_eq_some_iff.1 h
      exact Nat.succ_le_succ (quoting.end?_le_length hm)
    · cases h

theorem exponent_le_length (cs : List Char) : exponent cs ≤ cs.length := by
  cases cs with
  | nil => simp [exponent]
  | cons c cs =>
    have hsign := sign_le_length cs
    have hrun := run_le_length isDecimal (cs.drop (sign cs))
    rw [List.length_drop] at hrun
    rw [exponent, List.length_cons]
    split
    · split
      · exact Nat.zero_le _
      · omega
    · exact Nat.zero_le _

theorem number?_le_length {n : Nat} (h : number? cs = some n) : n ≤ cs.length := by
  obtain ⟨m, hm, rfl⟩ := Option.map_eq_some_iff.1 h
  have hmantissa := mantissa?_le_length hm
  have hexponent := exponent_le_length (cs.drop m)
  rw [List.length_drop] at hexponent
  omega

theorem phraseIn?_le_length {phrases : List (List String)} {n : Nat}
    (h : phraseIn? phrases cs = some n) : n ≤ cs.length := by
  obtain ⟨words, -, hwords⟩ := List.exists_of_findSome?_eq_some h
  obtain ⟨m, hm, h⟩ := Option.bind_eq_some_iff.1 hwords
  split at h
  · cases h
  · rw [positive?_eq_some h]
    exact phraseOfWords?_le_length hm

theorem markIn?_le_length {marks : List String} {n : Nat} (h : markIn? marks cs = some n) :
    n ≤ cs.length := by
  obtain ⟨mark, hmark, h⟩ := Option.bind_eq_some_iff.1 h
  have hbegins := List.find?_some hmark
  rw [positive?_eq_some h]
  exact (List.isPrefixOf_iff_prefix.1 hbegins).length_le

theorem parameter?_le_length {n : Nat} (h : parameter? cs = some n) : n ≤ cs.length := by
  unfold parameter? at h
  split at h
  · cases h
    simp
  · next ds =>
    obtain ⟨m, hm, rfl⟩ := Option.map_eq_some_iff.1 h
    rw [positive?_eq_some hm]
    exact Nat.succ_le_succ (run_le_length _ ds)
  · next ds =>
    split at h
    · cases h
      have hrun := run_le_length isWordChar ds
      simp only [List.length_cons]
      omega
    · cases h
  · cases h

end Pattern

open Pattern

namespace LexRule

theorem wordKind_append (word rest : List Char) {b : Char} (hdot : b ≠ '.') (t : List Char) :
    wordKind word (rest ++ b :: t) = wordKind word rest := by
  cases rest <;> simp [wordKind, hdot]

theorem measure?_le_length : ∀ rule ∈ all, ∀ {cs : List Char} {n : Nat},
    rule.measure? cs = some n → n ≤ cs.length := by
  simp only [all, List.forall_mem_cons, List.not_mem_nil, false_implies, implies_true, and_true]
  exact ⟨lineComment?_le_length, blockComment?_le_length, blanks?_le_length,
    singleQuotes.measure?_le_length, doubleQuotes.measure?_le_length,
    backQuotes.measure?_le_length, number?_le_length, phraseIn?_le_length, phraseIn?_le_length,
    markIn?_le_length, markIn?_le_length, parameter?_le_length, markIn?_le_length,
    markIn?_le_length, word?_le_length⟩

theorem le_length_of_first? {cs : List Char} {kind : Kind} {n : Nat}
    (h : first? cs = some (kind, n)) : n ≤ cs.length := by
  obtain ⟨rule, hrule, hmeasure⟩ := List.exists_of_findSome?_eq_some h
  obtain ⟨m, hm, heq⟩ := Option.map_eq_some_iff.1 hmeasure
  obtain ⟨-, rfl⟩ := Prod.mk.inj heq
  exact measure?_le_length rule hrule hm

/-- What makes a character one that no form of lexeme reaches across. -/
structure Stops (b : Char) : Prop where
  digit : isDecimal b = false
  word : isWordChar b = false
  blank : isBlank b = false
  alpha : b.isAlpha = false
  keyword : ∀ words ∈ keywordPhrases, ∀ word ∈ words, ∀ u ∈ word.toList, isLetterVariant u b = false
  comparison : ∀ words ∈ matchPhrases, ∀ word ∈ words, ∀ u ∈ word.toList,
    isLetterVariant u b = false
  mark : ∀ mark ∈ comparisonMarks ++ operatorMarks ++ ["*"] ++ punctuationMarks,
    b ∉ mark.toList.tail
  other : ∀ c ∈ ['.', '+', '-', 'e', 'E', '\n', '*', '_', '$', '\'', '"', '`'], b ≠ c

theorem stops_closing : Stops ')' where
  digit := by decide
  word := by decide
  blank := by decide
  alpha := by decide
  keyword := noLetterVariant_of_all (by decide)
  comparison := noLetterVariant_of_all (by decide)
  mark := by decide
  other := forall_mem_of_all (by decide)

theorem stops_semicolon : Stops ';' where
  digit := by decide
  word := by decide
  blank := by decide
  alpha := by decide
  keyword := noLetterVariant_of_all (by decide)
  comparison := noLetterVariant_of_all (by decide)
  mark := by decide
  other := forall_mem_of_all (by decide)

def quotings : List Quoting := [singleQuotes, doubleQuotes, backQuotes]

/-- The first lexeme of a text does not reach across a character that stops it. -/
theorem first?_append {b : Char} {cs : List Char} (hb : Stops b) (hcs : cs ≠ [])
    (hquotes : ∀ quoting ∈ quotings, quoting.Closes cs)
    (hbreak : ∀ n, lineComment? cs = some n → ∃ c ∈ cs, isLineBreak c = true)
    (hend : opensComment cs = true → blockComment? cs ≠ none) (t : List Char) :
    first? (cs ++ b :: t) = first? cs := by
  have hword : ((word? (cs ++ b :: t)).map fun n =>
      (wordKind ((cs ++ b :: t).take n) ((cs ++ b :: t).drop n), n)) =
        (word? cs).map fun n => (wordKind (cs.take n) (cs.drop n), n) := by
    rw [word?_append hcs hb.word (hb.other '$' (by decide))]
    cases h : word? cs with
    | none => rfl
    | some n =>
      have hle := word?_le_length h
      rw [Option.map_some, Option.map_some, drop_append_cons hle, List.take_append_of_le_length hle,
        wordKind_append _ _ (hb.other '.' (by decide))]
  have hmark {marks : List String} (hmarks : marks ⊆ comparisonMarks ++ operatorMarks ++ ["*"] ++
      punctuationMarks) : markIn? marks (cs ++ b :: t) = markIn? marks cs :=
    markIn?_append hcs fun mark hmem => hb.mark mark (hmarks hmem)
  simp only [first?, all, uniform, List.findSome?_cons, List.findSome?_nil, hword]
  rw [lineComment?_append hcs (hb.other '-' (by decide)) (hb.other '\n' (by decide)) hbreak,
    blockComment?_append hcs (hb.other '*' (by decide)) hend, blanks?_append hb.blank,
    singleQuotes.measure?_append hcs (hb.other '\'' (by decide)) (hquotes _ (by simp [quotings])),
    doubleQuotes.measure?_append hcs (hb.other '"' (by decide)) (hquotes _ (by simp [quotings])),
    backQuotes.measure?_append hcs (hb.other '`' (by decide)) (hquotes _ (by simp [quotings])),
    number?_append hcs hb.digit (hb.other '.' (by decide)) (hb.other '+' (by decide))
      (hb.other '-' (by decide)) (hb.other 'e' (by decide)) (hb.other 'E' (by decide)),
    phraseIn?_append hb.keyword hb.blank hb.word, phraseIn?_append hb.comparison hb.blank hb.word,
    hmark (by decide), hmark (by decide), hmark (by decide), hmark (by decide),
    parameter?_append hcs hb.digit hb.word hb.alpha (hb.other '_' (by decide))]

/-- A mark begins a lexeme only if what it opens has an end, and the lexeme ends there. -/
theorem first?_mark {quoting : Quoting} (h : quoting ∈ quotings) (cs : List Char) :
    (first? (quoting.mark :: cs)).map Prod.snd = (quoting.end? cs).map (· + 1) := by
  have hmeasure : quoting.measure? (quoting.mark :: cs) = (quoting.end? cs).map (· + 1) :=
    if_pos rfl
  simp only [quotings, List.mem_cons, List.not_mem_nil, or_false] at h
  rcases h with rfl | rfl | rfl
  all_goals
    rw [← hmeasure]
    simp only [first?, all, uniform, List.findSome?_cons, List.findSome?_nil]
  · cases hend : singleQuotes.measure? (singleQuotes.mark :: cs) <;> rfl
  · cases hend : doubleQuotes.measure? (doubleQuotes.mark :: cs) <;> rfl
  · cases hend : backQuotes.measure? (backQuotes.mark :: cs) <;> rfl

end LexRule

namespace Lexeme

/-- Whether the lexeme is a comment to the end of a line that does not end. -/
def isUnendedComment (lexeme : Lexeme) : Bool :=
  lexeme.kind == .comment && !opensComment lexeme.text.toList &&
    !lexeme.text.toList.any isLineBreak

/-- What a line that ends asks of the lexeme at the beginning of a text. -/
theorem exists_isLineBreak_of_first? {c : Char} {cs : List Char} {kind : Kind} {n : Nat}
    (hfirst : LexRule.first? (c :: cs) = some (kind, n + 1))
    (hended : n = cs.length →
      isUnendedComment ⟨kind, String.ofList (c :: cs.take n)⟩ = false) :
    ∀ m, lineComment? (c :: cs) = some m → ∃ d ∈ c :: cs, isLineBreak d = true := by
  intro m hm
  have hle := LexRule.le_length_of_first? hfirst
  simp only [LexRule.first?, LexRule.all, LexRule.uniform, List.findSome?_cons, hm,
    Option.map_some, Option.some.injEq, Prod.mk.injEq] at hfirst
  obtain ⟨rfl, rfl⟩ := hfirst
  by_cases hlast : n = cs.length
  · have hopens := opensComment_of_lineComment? hm (cs.take n)
    have hany := hended hlast
    simp only [isUnendedComment, beq_self_eq_true, String.toList_ofList, hopens, Bool.not_false,
      Bool.true_and, Bool.not_eq_false', List.any_eq_true] at hany
    obtain ⟨d, hd, hbreak⟩ := hany
    rw [hlast, List.take_length] at hd
    exact ⟨d, hd, hbreak⟩
  · rw [List.length_cons] at hle
    unfold lineComment? at hm
    split at hm
    · next ds heq =>
      obtain ⟨-, rfl⟩ := List.cons.inj heq
      have hlength : restOfLine ds < ds.length := by
        have hn := Option.some.inj hm
        simp only [List.length_cons] at hlast hle
        omega
      obtain ⟨d, hd, hbreak⟩ := exists_isLineBreak hlength
      exact ⟨d, List.mem_cons_of_mem _ (List.mem_cons_of_mem _ hd), hbreak⟩
    · next ds heq =>
      obtain ⟨-, rfl⟩ := List.cons.inj heq
      have hlength : restOfLine cs < cs.length := by
        have hn := Option.some.inj hm
        omega
      obtain ⟨d, hd, hbreak⟩ := exists_isLineBreak hlength
      exact ⟨d, List.mem_cons_of_mem _ hd, hbreak⟩
    · cases hm

theorem Reads.first?_ne_none {c : Char} {cs : List Char} {lexemes : List Lexeme}
    (h : Reads (c :: cs) lexemes) : LexRule.first? (c :: cs) ≠ none := by
  cases h with
  | cons _ hfirst _ => simp [hfirst]

theorem closes_of_first? {c : Char} {cs : List Char} {kind : Kind} {n : Nat} {lexemes : List Lexeme}
    (hfirst : LexRule.first? (c :: cs) = some (kind, n + 1)) (hrest : Reads (cs.drop n) lexemes) :
    ∀ quoting ∈ LexRule.quotings, quoting.Closes (c :: cs) := by
  intro quoting hquoting ds heq
  obtain ⟨rfl, rfl⟩ := List.cons.inj heq
  have hmark := LexRule.first?_mark hquoting cs
  rw [hfirst] at hmark
  obtain ⟨m, hm, hmn⟩ := Option.map_eq_some_iff.1 hmark.symm
  obtain rfl : m = n := Nat.succ.inj hmn
  refine ⟨m, hm, fun es hes hnone => ?_⟩
  rw [hes] at hrest
  have hnext := LexRule.first?_mark hquoting es
  rw [hnone, Option.map_none, Option.map_eq_none_iff] at hnext
  exact hrest.first?_ne_none hnext

/-- The lexemes of a text stay what they are before a character that stops them. -/
theorem Reads.append {b : Char} {cs t : List Char} {lexemes others : List Lexeme}
    (h : Reads cs lexemes) (hb : LexRule.Stops b) (ht : Reads (b :: t) others)
    (hended : ∀ last ∈ lexemes.getLast?, last.isUnendedComment = false) :
    Reads (cs ++ b :: t) (lexemes ++ others) := by
  induction h with
  | nil => exact ht
  | @cons c cs kind n lexemes hcomment hfirst hrest ih =>
    have hle : n ≤ cs.length := Nat.le_of_succ_le_succ (LexRule.le_length_of_first? hfirst)
    have hbreak := exists_isLineBreak_of_first? hfirst fun hn => by
      rw [hn, List.drop_length] at hrest
      cases hrest
      exact hended _ rfl
    have hfirst' : LexRule.first? (c :: (cs ++ b :: t)) = some (kind, n + 1) := by
      rw [← hfirst, ← List.cons_append]
      exact LexRule.first?_append hb (by simp) (closes_of_first? hfirst hrest) hbreak hcomment t
    have hrest' : Reads ((cs ++ b :: t).drop n) (lexemes ++ others) := by
      rw [drop_append_cons hle]
      apply ih
      intro last hlast
      apply hended last
      cases lexemes with
      | nil => cases hlast
      | cons lexeme lexemes => exact hlast
    have hcomment' : opensComment (c :: (cs ++ b :: t)) = true →
        blockComment? (c :: (cs ++ b :: t)) ≠ none := by
      have hstar := hb.other '*' (by decide)
      rw [← List.cons_append, opensComment_append (by simp) hstar,
        blockComment?_append (by simp) hstar hcomment]
      exact hcomment
    have hread := Reads.cons hcomment' hfirst' hrest'
    rwa [List.take_append_of_le_length hle] at hread

theorem Reads.lexeme {kind : Kind} {text : List Char} {rest : List Char} {lexemes : List Lexeme}
    (hne : text ≠ []) (hopens : opensComment (text ++ rest) = false)
    (hfirst : LexRule.first? (text ++ rest) = some (kind, text.length))
    (hrest : Reads rest lexemes) : Reads (text ++ rest) (⟨kind, String.ofList text⟩ :: lexemes) := by
  obtain ⟨c, cs, rfl⟩ := List.exists_cons_of_ne_nil hne
  have hread := @Reads.cons c (cs ++ rest) kind cs.length lexemes (by
    rw [← List.cons_append, hopens]
    simp) hfirst (by rwa [List.drop_left])
  rwa [List.take_left] at hread

end Lexeme

end QueryLineage
