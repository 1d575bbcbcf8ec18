import QueryLineage.Proofs.Lexeme.Context

/-!
# Words

A word is read as one lexeme wherever it stands, as long as no phrase begins with it and no further
character of a word follows.
-/

namespace QueryLineage

open Text

namespace Pattern

theorem markIn?_eq_none {marks : List String} {c : Char} (cs : List Char)
    (h : ∀ mark ∈ marks, mark.toList.head?.any (· != c) = true) :
    markIn? marks (c :: cs) = none := by
  unfold markIn?
  rw [List.find?_eq_none.2, Option.bind_none]
  intro mark hmark
  have hhead := h mark hmark
  cases hlist : mark.toList with
  | nil => simp [hlist] at hhead
  | cons u us =>
    have hne : u ≠ c := by simpa [hlist] using hhead
    simp [List.isPrefixOf, hne]

/-- The variants of a letter are as little of a class as the letter is, if the class holds no letter of
ASCII and none of the two variants outside of it. -/
theorem eq_false_of_isLetterVariant {p : Char → Bool}
    (hascii : (List.range 128).all
      (fun n => !p (Char.ofNat n) || (Char.ofNat n).toUpper == Char.ofNat n) = true)
    (hlong : p '\u017F' = false) (hkelvin : p '\u212A' = false) {u c : Char} (hu : p u = false)
    (h : isLetterVariant u c = true) : p c = false := by
  rw [← Bool.not_eq_true]
  intro hc
  have hupper : c.toUpper = c := by
    by_cases hlow : c.toNat < 0x80
    · have hp := of_ascii (p := fun c => !p c || c.toUpper == c) hascii hlow
      simpa [hc] using hp
    · exact toUpper_eq_self hlow
  simp only [isLetterVariant, hupper, Bool.or_eq_true, Bool.and_eq_true, beq_iff_eq] at h
  rcases h with (rfl | ⟨_, rfl⟩) | ⟨_, rfl⟩
  · rw [hc] at hu
    cases hu
  · rw [hc] at hlong
    cases hlong
  · rw [hc] at hkelvin
    cases hkelvin

/-- The first letters of phrases are no blanks. -/
theorem isBlank_of_isLetterVariant {u c : Char} (hu : isBlank u = false)
    (h : isLetterVariant u c = true) : isBlank c = false :=
  eq_false_of_isLetterVariant (by decide +kernel) (by decide) (by decide) hu h

theorem spelling?_congr {us u x : List Char} (y : List Char)
    (h : spelling? us (u ++ x) = some u.length) : spelling? us (u ++ y) = some u.length := by
  induction us generalizing u with
  | nil =>
    cases u with
    | nil => cases y <;> rfl
    | cons c cs => simp [spelling?] at h
  | cons v us ih =>
    cases u with
    | nil =>
      have hlength := (spelling?_eq h).1
      simp at hlength
    | cons c cs =>
      rw [List.cons_append, spelling?] at h ⊢
      split at h
      · next hc =>
        obtain ⟨n, hn, hlength⟩ := Option.map_eq_some_iff.1 h
        obtain rfl : n = cs.length := by simpa using hlength
        rw [if_pos hc, ih hn]
        rfl
      · cases h

section

variable {p : Char → Bool}

theorem spelling?_last (hp : ∀ {u c : Char}, p u = false → isLetterVariant u c = true → p c = false)
    {us cs : List Char} {n : Nat} (hus : us ≠ []) (hletters : ∀ u ∈ us, p u = false)
    (h : spelling? us cs = some n) : ∃ m c, n = m + 1 ∧ cs[m]? = some c ∧ p c = false := by
  induction us generalizing cs n with
  | nil => exact absurd rfl hus
  | cons u us ih =>
    cases cs with
    | nil => cases h
    | cons c cs =>
      rw [spelling?] at h
      split at h
      · next hc =>
        obtain ⟨k, hk, rfl⟩ := Option.map_eq_some_iff.1 h
        cases us with
        | nil =>
          obtain rfl : k = 0 := (spelling?_eq hk).1
          exact ⟨0, c, rfl, rfl, hp (hletters u List.mem_cons_self) hc⟩
        | cons v us =>
          obtain ⟨m, d, rfl, hd, hlast⟩ :=
            ih (by simp) (fun w hw => hletters w (List.mem_cons_of_mem _ hw)) hk
          exact ⟨m + 1, d, rfl, hd, hlast⟩
      · cases h

theorem phraseOfWords?_last
    (hp : ∀ {u c : Char}, p u = false → isLetterVariant u c = true → p c = false)
    {words : List String} {cs : List Char} {n : Nat}
    (hwords : ∀ word ∈ words, word.toList ≠ [] ∧ ∀ u ∈ word.toList, p u = false)
    (h : phraseOfWords? words cs = some n) :
    ∃ m c, n = m + 1 ∧ cs[m]? = some c ∧ p c = false := by
  induction words generalizing cs n with
  | nil => cases h
  | cons word words ih =>
    cases words with
    | nil =>
      obtain ⟨hne, hletters⟩ := hwords word List.mem_cons_self
      exact spelling?_last hp hne hletters h
    | cons next words =>
      rw [phraseOfWords?_cons (by simp)] at h
      obtain ⟨first, _, h⟩ := Option.bind_eq_some_iff.1 h
      obtain ⟨blanks, _, h⟩ := Option.bind_eq_some_iff.1 h
      obtain ⟨rest, hrest, rfl⟩ := Option.map_eq_some_iff.1 h
      obtain ⟨m, c, rfl, hc, hlast⟩ := ih (fun w hw => hwords w (List.mem_cons_of_mem _ hw)) hrest
      rw [List.getElem?_drop] at hc
      exact ⟨first + blanks + m, c, by omega, hc, hlast⟩

end

theorem blanks?_eq_some {cs : List Char} {n : Nat} (h : blanks? cs = some n) :
    ∃ c ds, cs = c :: ds ∧ isBlank c = true ∧ 0 < n := by
  cases cs with
  | nil => cases h
  | cons c cs =>
    rw [blanks?, run_cons] at h
    split at h
    · next hc =>
      rw [positive?_succ] at h
      exact ⟨c, cs, rfl, hc, by cases h; omega⟩
    · cases h

/-- Where a phrase without blanks inside applies, only the next character decides further. -/
theorem phrase?_congr {words : List String} {u rest : List Char} {d : Char} (other : List Char)
    (hu : ∀ c ∈ u, isBlank c = false) (h : phrase? words (u ++ d :: rest) = some u.length) :
    phrase? words (u ++ d :: other) = some u.length := by
  obtain ⟨n, hn, h⟩ := Option.bind_eq_some_iff.1 h
  split at h
  · cases h
  · next hend =>
    obtain rfl := positive?_eq_some h
    have hspelling : phraseOfWords? words (u ++ d :: other) = some u.length := by
      cases words with
      | nil => cases hn
      | cons word words =>
        cases words with
        | nil => exact spelling?_congr (d :: other) hn
        | cons next words =>
          rw [phraseOfWords?_cons (by simp)] at hn
          obtain ⟨first, hfirst, hn⟩ := Option.bind_eq_some_iff.1 hn
          obtain ⟨blanks, hblanks, hn⟩ := Option.bind_eq_some_iff.1 hn
          obtain ⟨rest', _, hlength⟩ := Option.map_eq_some_iff.1 hn
          obtain ⟨c, ds, hdrop, hc, hpos⟩ := blanks?_eq_some hblanks
          have hlt : first < u.length := by omega
          have hhead := congrArg List.head? hdrop
          rw [List.head?_drop, List.getElem?_append_left hlt, List.head?_cons] at hhead
          rw [hu c (List.mem_of_getElem? hhead)] at hc
          cases hc
    rw [List.drop_left] at hend
    unfold phrase?
    rw [hspelling]
    simp only [bind, Option.bind_some, List.drop_left]
    rw [if_neg (by simpa using hend), h]

theorem phrase?_eq_none {word : String} {cs : List Char} (h : spelling? word.toList cs = none)
    (words : List String) : phrase? (word :: words) cs = none := by
  have hnone : phraseOfWords? (word :: words) cs = none := by
    cases words with
    | nil => exact h
    | cons next words =>
      rw [phraseOfWords?_cons (by simp), h]
      rfl
  rw [phrase?, hnone]
  rfl

theorem phraseOfWords?_eq_none {cs : List Char} (h : ∀ c ∈ cs, isBlank c = false)
    (word next : String) (words : List String) :
    phraseOfWords? (word :: next :: words) cs = none := by
  rw [phraseOfWords?_cons (by simp), Option.eq_none_iff_forall_ne_some]
  intro n hn
  obtain ⟨first, -, hn⟩ := Option.bind_eq_some_iff.1 hn
  obtain ⟨blanks, hblanks, -⟩ := Option.bind_eq_some_iff.1 hn
  obtain ⟨c, ds, hdrop, hc, -⟩ := blanks?_eq_some hblanks
  rw [h c (List.mem_of_mem_drop (hdrop ▸ List.mem_cons_self))] at hc
  cases hc

theorem number?_eq_none {c : Char} (hc : isWordStart c = true) (hdigit : isDecimal c = false)
    (cs : List Char) : number? (c :: cs) = none := by
  have hdot : c ≠ '.' := by
    rintro rfl
    revert hc
    decide
  simp [number?, mantissa?, run_cons, hdigit, hdot]

theorem exists_of_word? {w : List Char} (h : word? w = some w.length) :
    ∃ c cs, w = c :: cs ∧ isWordStart c = true ∧ ∀ d ∈ c :: cs, continuesWord d = true := by
  cases w with
  | nil => cases h
  | cons c cs =>
    rw [word?] at h
    split at h
    · next hc =>
      have hlength : (cs.takeWhile continuesWord).length = cs.length :=
        Nat.succ.inj (Option.some.inj h)
      have heq := (List.takeWhile_prefix continuesWord).eq_of_length hlength
      refine ⟨c, cs, rfl, hc, fun d hd => ?_⟩
      rcases List.mem_cons.1 hd with rfl | hd
      · exact continuesWord_of_isWordStart hc
      · rw [← heq] at hd
        exact List.all_eq_true.1 List.all_takeWhile d hd
    · cases h

theorem run_append_of_forall {p : Char → Bool} {cs : List Char}
    (h : ∀ c ∈ cs, p c = true) (rest : List Char) : run p (cs ++ rest) = cs.length + run p rest := by
  induction cs with
  | nil => simp
  | cons c cs ih =>
    rw [List.cons_append, run_cons, if_pos (h c List.mem_cons_self),
      ih fun d hd => h d (List.mem_cons_of_mem _ hd), List.length_cons]
    omega

end Pattern

open Pattern

namespace LexRule

/-- Where a word begins, only a number, a phrase or the word can be the first lexeme. -/
theorem first?_of_isWordStart {c : Char} (hc : isWordStart c = true) (cs : List Char) :
    first? (c :: cs) =
      ((number? (c :: cs)).map (.literal, ·)).or
        (((phraseIn? keywordPhrases (c :: cs)).map (.keyword .generic, ·)).or
          (((phraseIn? matchPhrases (c :: cs)).map (.comparisonOperator, ·)).or
            (some (wordKind (c :: cs.take (run continuesWord cs)) (cs.drop (run continuesWord cs)),
              run continuesWord cs + 1)))) := by
  have hne : ∀ {d : Char}, isWordStart d = false → c ≠ d := by
    rintro d hd rfl
    rw [hc] at hd
    cases hd
  have hmarks : ∀ marks : List String,
      (∀ mark ∈ marks, mark.toList.head?.any (!isWordStart ·) = true) →
      markIn? marks (c :: cs) = none := by
    intro marks hmarks
    apply markIn?_eq_none
    intro mark hmark
    obtain ⟨u, hu, hstart⟩ := (Option.any_eq_true _ _).1 (hmarks mark hmark)
    exact (Option.any_eq_true _ _).2 ⟨u, hu, bne_iff_ne.2 (hne (by simpa using hstart)).symm⟩
  have hblank := isBlank_of_continuesWord (continuesWord_of_isWordStart hc)
  have hline : lineComment? (c :: cs) = none := by
    have hdash : c ≠ '-' := hne (by decide)
    have hhash : c ≠ '#' := hne (by decide)
    simp [lineComment?, hdash, hhash]
  have hblock : blockComment? (c :: cs) = none := by
    have hslash : c ≠ '/' := hne (by decide)
    simp [blockComment?, hslash]
  have hparameter : parameter? (c :: cs) = none := by
    have hquestion : c ≠ '?' := hne (by decide)
    have hdollar : c ≠ '$' := hne (by decide)
    have hcolon : c ≠ ':' := hne (by decide)
    simp [parameter?, hquestion, hdollar, hcolon]
  have hsingle : singleQuotes.measure? (c :: cs) = none := if_neg (hne (by decide))
  have hdouble : doubleQuotes.measure? (c :: cs) = none := if_neg (hne (by decide))
  have hback : backQuotes.measure? (c :: cs) = none := if_neg (hne (by decide))
  have hblanks : blanks? (c :: cs) = none := by simp [blanks?, run_cons, hblank]
  have hword : word? (c :: cs) = some (run continuesWord cs + 1) := if_pos hc
  simp only [first?, all, uniform, List.findSome?_cons, hline, hblock, hblanks, hsingle, hdouble,
    hback, hparameter, hword, Option.map_none, Option.map_some,
    hmarks comparisonMarks (by decide +kernel), hmarks operatorMarks (by decide +kernel),
    hmarks ["*"] (by decide +kernel), hmarks punctuationMarks (by decide +kernel)]
  cases number? (c :: cs) <;> cases phraseIn? keywordPhrases (c :: cs) <;>
    cases phraseIn? matchPhrases (c :: cs) <;> rfl

theorem first?_cases {c : Char} {cs : List Char} {kind : Kind} {n : Nat}
    (hc : isWordStart c = true) (hdigit : isDecimal c = false)
    (h : first? (c :: cs) = some (kind, n)) :
    phraseIn? keywordPhrases (c :: cs) = some n ∨ phraseIn? matchPhrases (c :: cs) = some n ∨
      n = run continuesWord cs + 1 := by
  rw [first?_of_isWordStart hc, number?_eq_none hc hdigit] at h
  cases hkeyword : phraseIn? keywordPhrases (c :: cs) with
  | some m =>
    rw [hkeyword] at h
    exact Or.inl (congrArg some (Prod.mk.inj (Option.some.inj h)).2)
  | none =>
    cases hcomparison : phraseIn? matchPhrases (c :: cs) with
    | some m =>
      rw [hkeyword, hcomparison] at h
      exact Or.inr (Or.inl (congrArg some (Prod.mk.inj (Option.some.inj h)).2))
    | none =>
      rw [hkeyword, hcomparison] at h
      exact Or.inr (Or.inr (Prod.mk.inj (Option.some.inj h)).2.symm)

end LexRule

/-- The characters of a word. Where a phrase applies to it, it is the phrase. -/
structure Unbroken (w : List Char) : Prop where
  start : ∃ c cs, w = c :: cs ∧ isWordStart c = true ∧ isDecimal c = false
  continues : ∀ c ∈ w, continuesWord c = true
  phrase : ∀ words ∈ keywordPhrases ++ matchPhrases, ∀ n, phrase? words w = some n → n = w.length

theorem unbroken_of_decide {c : Char} {cs : List Char}
    (h : isWordStart c = true ∧ isDecimal c = false ∧ (c :: cs).all continuesWord = true ∧
      (keywordPhrases ++ matchPhrases).all
        (fun words => (phrase? words (c :: cs)).all (· == (c :: cs).length)) = true) :
    Unbroken (c :: cs) where
  start := ⟨c, cs, rfl, h.1, h.2.1⟩
  continues := List.all_eq_true.1 h.2.2.1
  phrase words hwords n hn := by
    have hall := List.all_eq_true.1 h.2.2.2 words hwords
    rw [hn] at hall
    exact beq_iff_eq.1 hall

/-- No lexeme ends inside a word at whose beginning it begins. -/
theorem Unbroken.first?_ne_of_prefix {w : List Char} (h : Unbroken w) {u : List Char} {d : Char}
    (hu : u ≠ []) (hbegins : u ++ [d] <+: w) (rest : List Char) (kind : Kind) :
    LexRule.first? (u ++ d :: rest) ≠ some (kind, u.length) := by
  obtain ⟨other, rfl⟩ := hbegins
  rw [List.append_assoc, List.singleton_append] at h
  obtain ⟨c, us, rfl⟩ := List.exists_cons_of_ne_nil hu
  obtain ⟨c', cs, heq, hc, hdigit⟩ := h.start
  obtain ⟨rfl, rfl⟩ := List.cons.inj heq
  have hlonger : ∀ phrases, phrases ⊆ keywordPhrases ++ matchPhrases →
      ∀ n, phraseIn? phrases (c :: us ++ d :: rest) = some n → n ≠ (c :: us).length := by
    rintro phrases hphrases n hn rfl
    obtain ⟨words, hwords, hphrase⟩ := List.exists_of_findSome?_eq_some hn
    have hcongr := phrase?_congr other
      (fun e he => isBlank_of_continuesWord (h.continues e (List.mem_append_left _ he))) hphrase
    have hlength := h.phrase words (hphrases hwords) _ hcongr
    simp at hlength
  have hrun : us.length < run continuesWord (us ++ d :: rest) := by
    have hcontinues := h.continues
    rw [run_append_of_forall (fun e he =>
        hcontinues e (List.mem_append_left _ (List.mem_cons_of_mem _ he))), run_cons,
      if_pos (hcontinues d (by simp))]
    omega
  intro hfirst
  rw [List.cons_append] at hfirst
  rcases LexRule.first?_cases hc hdigit hfirst with hphrase | hphrase | hlength
  · exact hlonger _ (List.subset_append_left _ _) _ hphrase rfl
  · exact hlonger _ (List.subset_append_right _ _) _ hphrase rfl
  · rw [List.length_cons] at hlength
    omega

/-- The characters of a word, which is read as one lexeme by itself and is no phrase. -/
structure Word (w : List Char) : Prop where
  start : ∃ c cs, w = c :: cs ∧ isWordStart c = true ∧ isDecimal c = false
  continues : ∀ c ∈ w, continuesWord c = true
  keyword : phraseIn? keywordPhrases w = none
  comparison : phraseIn? matchPhrases w = none

namespace Word

variable {w : List Char}

theorem isBlank (h : Word w) : ∀ c ∈ w, isBlank c = false :=
  fun c hc => isBlank_of_continuesWord (h.continues c hc)

theorem of_name (hword : word? w = some w.length)
    (hname : LexRule.first? w = some (.name, w.length)) : Word w := by
  obtain ⟨c, cs, rfl, hc, hcontinues⟩ := exists_of_word? hword
  have hdigit := isDecimal_of_isWordStart hc
  rw [LexRule.first?_of_isWordStart hc, number?_eq_none hc hdigit] at hname
  have hkeyword : phraseIn? keywordPhrases (c :: cs) = none := by
    cases h : phraseIn? keywordPhrases (c :: cs) with
    | none => rfl
    | some n => simp [h] at hname
  have hcomparison : phraseIn? matchPhrases (c :: cs) = none := by
    cases h : phraseIn? matchPhrases (c :: cs) with
    | none => rfl
    | some n => simp [hkeyword, h] at hname
  exact ⟨⟨c, cs, rfl, hc, hdigit⟩, hcontinues, hkeyword, hcomparison⟩

/-- A word before something else is read as before, unless a phrase begins with it. -/
theorem first?_append (h : Word w) {b : Char} (hb : continuesWord b = false) {rest : List Char}
    (hkeyword : phraseIn? keywordPhrases (w ++ b :: rest) = none)
    (hcomparison : phraseIn? matchPhrases (w ++ b :: rest) = none) :
    LexRule.first? (w ++ b :: rest) = some (LexRule.wordKind w (b :: rest), w.length) := by
  obtain ⟨c, cs, rfl, hc, hdigit⟩ := h.start
  have hdot : c ≠ '.' := by
    rintro rfl
    revert hc
    decide
  have hrun : run continuesWord (cs ++ b :: rest) = cs.length := by
    rw [run_append_of_forall fun d hd => h.continues d (List.mem_cons_of_mem _ hd), run_cons,
      if_neg (by simp [hb])]
    rfl
  rw [List.cons_append] at hkeyword hcomparison ⊢
  rw [LexRule.first?_of_isWordStart hc, number?_eq_none hc hdigit, hkeyword, hcomparison, hrun,
    List.take_left, List.drop_left]
  rfl

theorem unbroken (h : Word w) : Unbroken w where
  start := h.start
  continues := h.continues
  phrase words hwords n hn := by
    rcases List.mem_append.1 hwords with hwords | hwords
    · rw [List.findSome?_eq_none_iff.1 h.keyword words hwords] at hn
      cases hn
    · rw [List.findSome?_eq_none_iff.1 h.comparison words hwords] at hn
      cases hn

/-- No lexeme holds a word at its beginning and ends with a blank behind it. -/
theorem first?_ne_of_blank (h : Word w) {v : List Char} (hv : v ≠ [])
    (hblank : ∀ c ∈ v, Text.isBlank c = true) (rest : List Char) (kind : Kind) :
    LexRule.first? (w ++ v ++ rest) ≠ some (kind, (w ++ v).length) := by
  obtain ⟨c, cs, rfl, hc, hdigit⟩ := h.start
  obtain ⟨b, bs, rfl⟩ := List.exists_cons_of_ne_nil hv
  have hnone : ∀ phrases, (phrases.all fun words => words.all fun word : String =>
        !word.toList.isEmpty && word.toList.all fun u => !Text.isBlank u) = true →
      ∀ n, phraseIn? phrases (c :: cs ++ b :: bs ++ rest) = some n →
        n ≠ (c :: cs ++ b :: bs).length := by
    rintro phrases hphrases n hn rfl
    obtain ⟨words, hwords, hphrase⟩ := List.exists_of_findSome?_eq_some hn
    obtain ⟨n, hspelling, hn⟩ := Option.bind_eq_some_iff.1 hphrase
    split at hn
    · cases hn
    · obtain rfl := positive?_eq_some hn
      have hletters : ∀ word ∈ words,
          word.toList ≠ [] ∧ ∀ u ∈ word.toList, Text.isBlank u = false := by
        intro word hword
        have hvisible := List.all_eq_true.1 (List.all_eq_true.1 hphrases words hwords) word hword
        simpa using hvisible
      obtain ⟨m, d, hlength, hd, hdblank⟩ :=
        phraseOfWords?_last isBlank_of_isLetterVariant hletters hspelling
      rw [List.getElem?_append_left (by omega), List.getElem?_append_right (by simp at hlength ⊢; omega)] at hd
      rw [hblank d (List.mem_of_getElem? hd)] at hdblank
      cases hdblank
  have hrun : run continuesWord (cs ++ b :: bs ++ rest) = cs.length := by
    have hb : continuesWord b = false := by
      rw [← Bool.not_eq_true]
      intro hcontinues
      have hnot := isBlank_of_continuesWord hcontinues
      rw [hblank b List.mem_cons_self] at hnot
      cases hnot
    rw [List.append_assoc,
      run_append_of_forall fun d hd => h.continues d (List.mem_cons_of_mem _ hd),
      List.cons_append, run_cons, if_neg (by simp [hb])]
    rfl
  intro hfirst
  rw [List.cons_append, List.cons_append] at hfirst
  rcases LexRule.first?_cases hc hdigit hfirst with hphrase | hphrase | hlength
  · exact hnone _ (by decide +kernel) _ hphrase rfl
  · exact hnone _ (by decide +kernel) _ hphrase rfl
  · rw [hrun] at hlength
    simp at hlength

end Word

namespace Pattern

variable {phrases : List (List String)} {w : List Char} {b : Char}

/-- No phrase applies where none begins with the word. -/
theorem phraseIn?_eq_none_of_spelling
    (hletters : ∀ words ∈ phrases, ∀ word ∈ words, ∀ u ∈ word.toList, isLetterVariant u b = false)
    (h : ∀ words ∈ phrases, words.head?.any (fun word => (spelling? word.toList w).isNone) = true)
    (rest : List Char) : phraseIn? phrases (w ++ b :: rest) = none := by
  apply List.findSome?_eq_none_iff.2
  intro words hwords
  have hhead := h words hwords
  cases words with
  | nil => simp at hhead
  | cons word words =>
    apply phrase?_eq_none
    rw [spelling?_append (hletters _ hwords word List.mem_cons_self)]
    simpa using hhead

/-- No phrase applies where one word stands before another that no phrase goes on with. -/
theorem phraseIn?_eq_none_of_next {v : List Char} (hw : Word w) (hv : v.head?.any continuesWord = true)
    (hletters : ∀ words ∈ phrases, ∀ word ∈ words, ∀ u ∈ word.toList, isLetterVariant u ' ' = false)
    (halone : phraseIn? phrases w = none)
    (h : ∀ words ∈ phrases,
      words.tail.head?.all (fun next => (spelling? next.toList v).isNone) = true)
    (rest : List Char) : phraseIn? phrases (w ++ ' ' :: (v ++ ' ' :: rest)) = none := by
  apply List.findSome?_eq_none_iff.2
  intro words hwords
  have hnone := List.findSome?_eq_none_iff.1 halone words hwords
  have hnext := h words hwords
  cases words with
  | nil => rfl
  | cons word words =>
    have hspelling := spelling?_append (hletters _ hwords word List.mem_cons_self) w
      (v ++ ' ' :: rest)
    cases words with
    | nil =>
      have hphrase : phraseOfWords? [word] (w ++ ' ' :: (v ++ ' ' :: rest)) =
          phraseOfWords? [word] w := hspelling
      rw [phrase?_append_of_eq hphrase (by decide), hnone]
    | cons next words =>
      have hfail : phraseOfWords? (next :: words) (v ++ ' ' :: rest) = none := by
        have hnone' : spelling? next.toList v = none := by simpa using hnext
        have hnext' : spelling? next.toList (v ++ ' ' :: rest) = none := by
          rw [spelling?_append (hletters _ hwords next (by simp)), hnone']
        cases words with
        | nil => exact hnext'
        | cons third words =>
          rw [phraseOfWords?_cons (by simp), hnext']
          rfl
      obtain ⟨e, es, rfl, he⟩ : ∃ e es, v = e :: es ∧ continuesWord e = true := by
        cases v with
        | nil => simp at hv
        | cons e es => exact ⟨e, es, rfl, by simpa using hv⟩
      rw [phrase?, phraseOfWords?_cons (by simp), hspelling]
      cases hn : spelling? word.toList w with
      | none => rfl
      | some n =>
        have hle := (spelling?_eq hn).2
        rw [Option.bind_some, drop_append_cons hle]
        cases hdrop : w.drop n with
        | cons d ds =>
          -- the phrase stops inside the word, where no blank can follow
          have hd : isBlank d = false := hw.isBlank d (List.mem_of_mem_drop (hdrop ▸ List.mem_cons_self))
          rw [List.cons_append, blanks?, run_cons, if_neg (by simp [hd])]
          rfl
        | nil =>
          have hblank := isBlank_of_continuesWord he
          have hone : blanks? ([] ++ ' ' :: (e :: es ++ ' ' :: rest)) = some 1 := by
            rw [List.nil_append, blanks?, run_cons, if_pos (by decide), List.cons_append, run_cons,
              if_neg (by simp [hblank])]
            rfl
          have hlast : w.length = n := by
            have hlength := congrArg List.length hdrop
            rw [List.length_drop, List.length_nil] at hlength
            omega
          rw [hone, Option.bind_some, ← hlast]
          have hskip : (w ++ ' ' :: (e :: es ++ ' ' :: rest)).drop (w.length + 1) =
              e :: es ++ ' ' :: rest := by
            rw [← List.drop_drop, List.drop_left]
            rfl
          rw [hskip, hfail]
          rfl

end Pattern

end QueryLineage
