import QueryLineage.Proofs.Lexeme.Conditions
import QueryLineage.Proofs.Lexeme.Ends

/-!
# Written lexemes

A query that is written out has delimiters between its parts. Most lexemes are read as such before
every delimiter: a word, unless it could begin a keyword of several words with what follows; a
number, a string, an operator, and a keyword of several words as a whole.
-/

namespace QueryLineage

open Text Pattern

namespace Pattern

variable {cs : List Char} {b : Char}

/-- Blanks before something visible do not go on behind it. -/
theorem blanks?_append_of_last (hne : cs ≠ []) (hlast : ∀ c ∈ cs.getLast?, isBlank c = false)
    (rest : List Char) : blanks? (cs ++ rest) = blanks? cs := by
  have hall : (cs.takeWhile isBlank).length ≠ cs.length := by
    intro hlength
    have heq := (List.takeWhile_prefix isBlank).eq_of_length hlength
    have hblank := List.all_eq_true.1 (heq ▸ List.all_takeWhile) (cs.getLast hne) (List.getLast_mem hne)
    rw [hlast _ (List.getLast?_eq_some_getLast hne)] at hblank
    cases hblank
  rw [blanks?, run, List.takeWhile_append, if_neg hall, blanks?, run]

/-- No phrase has words left at the end of the characters. -/
def Apart (phrases : List (List String)) (cs : List Char) : Prop :=
  ∀ words ∈ phrases, ∀ n < words.length, phraseOfWords? (words.take n) cs ≠ some cs.length

instance (phrases : List (List String)) (cs : List Char) : Decidable (Apart phrases cs) :=
  inferInstanceAs (Decidable (∀ words ∈ phrases, ∀ n < words.length,
    phraseOfWords? (words.take n) cs ≠ some cs.length))

/-- A phrase that has no words left at the end of the characters does not go on behind it. -/
theorem phraseOfWords?_append_of_apart {words : List String}
    (hletters : ∀ word ∈ words, ∀ u ∈ word.toList, isLetterVariant u b = false)
    (hlast : ∀ c ∈ cs.getLast?, isBlank c = false)
    (hapart : ∀ n < words.length, phraseOfWords? (words.take n) cs ≠ some cs.length)
    (t : List Char) : phraseOfWords? words (cs ++ b :: t) = phraseOfWords? words cs := by
  induction words generalizing cs with
  | nil => rfl
  | cons word words ih =>
    have hspelling := spelling?_append (hletters word List.mem_cons_self) cs t
    by_cases hwords : words = []
    · rw [hwords]
      exact hspelling
    have hpos := List.length_pos_iff.2 hwords
    rw [phraseOfWords?_cons hwords, phraseOfWords?_cons hwords, hspelling]
    cases hn : spelling? word.toList cs with
    | none => rfl
    | some n =>
      have hle := (spelling?_eq hn).2
      have hlt : n < cs.length := by
        apply Nat.lt_of_le_of_ne hle
        rintro rfl
        exact hapart 1 (by simpa using hpos) hn
      have hlast' : ∀ m, ∀ c ∈ (cs.drop m).getLast?, isBlank c = false := by
        intro m c hc
        rw [List.getLast?_drop] at hc
        split at hc
        · cases hc
        · exact hlast c hc
      have hne : cs.drop n ≠ [] := by simpa using hlt
      rw [Option.bind_some, Option.bind_some, drop_append_cons hle,
        blanks?_append_of_last hne (hlast' n)]
      cases hblanks : blanks? (cs.drop n) with
      | none => rfl
      | some blanks =>
        have hle' := blanks?_le_length hblanks
        rw [List.length_drop] at hle'
        rw [Option.bind_some, Option.bind_some, drop_append_cons (by omega)]
        -- words that end with the characters would do so behind the first word and its blanks
        rw [ih (fun other hother => hletters other (List.mem_cons_of_mem _ hother)) (hlast' _)]
        intro m hm hrest
        cases m with
        | zero => cases hrest
        | succ m =>
          apply hapart (m + 2) (Nat.succ_lt_succ hm)
          rw [List.take_succ_cons, phraseOfWords?_cons (by simpa using hwords), hn, Option.bind_some,
            hblanks, Option.bind_some, hrest, Option.map_some, List.length_drop]
          congr 1
          omega

end Pattern

theorem Word.first? {w : List Char} (hword : Word w) :
    LexRule.first? w = some (LexRule.wordKind w [], w.length) := by
  obtain ⟨c, cs, rfl, hc, hdigit⟩ := hword.start
  have hrun : run continuesWord cs = cs.length := by
    have happend :=
      run_append_of_forall (fun d hd => hword.continues d (List.mem_cons_of_mem _ hd)) []
    simpa using happend
  rw [LexRule.first?_of_isWordStart hc, number?_eq_none hc hdigit, hword.keyword,
    hword.comparison, hrun, List.take_length, List.drop_length]
  rfl

namespace Lexeme

/-- The characters that may stand behind a part of a written query. -/
def delimiters : List Char := [' ', ',', '(', ')']

/-- The characters are none, or the first of them is a delimiter. -/
def Delimits (rest : List Char) : Prop :=
  ∀ b ∈ rest.head?, b ∈ delimiters

theorem delimits_nil : Delimits [] := by
  simp [Delimits]

theorem delimits_cons {b : Char} (hb : b ∈ delimiters) (t : List Char) : Delimits (b :: t) := by
  simpa [Delimits] using hb

/-- Neither a delimiter nor a dot goes on with a word. -/
theorem continuesWord_of_mem : ∀ b ∈ '.' :: delimiters, continuesWord b = false :=
  forall_mem_of_all (by decide)

theorem isLetterVariant_of_mem {phrases : List (List String)}
    (h : phrases ⊆ keywordPhrases ++ matchPhrases) {b : Char} (hb : b ∈ '.' :: delimiters) :
    ∀ words ∈ phrases, ∀ word ∈ words, ∀ u ∈ word.toList, isLetterVariant u b = false := by
  have hall : ∀ b ∈ '.' :: delimiters, ((keywordPhrases ++ matchPhrases).all fun words =>
      words.all fun word => word.toList.all fun u => !isLetterVariant u b) = true :=
    forall_mem_of_all (by decide +kernel)
  exact fun words hwords => noLetterVariant_of_all (hall b hb) words (h hwords)

section

variable {cs rest : List Char} {phrases : List (List String)}
  (hphrases : phrases ⊆ keywordPhrases ++ matchPhrases)
  (hlast : ∀ c ∈ cs.getLast?, isBlank c = false)
  (hapart : Apart (keywordPhrases ++ matchPhrases) cs)
include hphrases hlast hapart

/-- No phrase goes on behind characters where none has words left. -/
theorem phraseIn?_append_of_apart {b : Char} (hb : b ∈ '.' :: delimiters) (t : List Char) :
    phraseIn? phrases (cs ++ b :: t) = phraseIn? phrases cs := by
  induction phrases with
  | nil => rfl
  | cons words phrases ih =>
    obtain ⟨hwords, hothers⟩ := List.cons_subset.1 hphrases
    have hletters := isLetterVariant_of_mem hphrases hb words List.mem_cons_self
    have hend := (Bool.or_eq_false_iff.1 (continuesWord_of_mem b hb)).1
    have hphrase := phrase?_append_of_eq
      (phraseOfWords?_append_of_apart hletters hlast (hapart words hwords) t) hend
    unfold phraseIn? at ih ⊢
    rw [List.findSome?_cons, List.findSome?_cons, hphrase, ih hothers]

theorem phraseIn?_append_of_delimits (hrest : Delimits rest) :
    phraseIn? phrases (cs ++ rest) = phraseIn? phrases cs := by
  cases rest with
  | nil => rw [List.append_nil]
  | cons b t =>
    exact phraseIn?_append_of_apart hphrases hlast hapart (List.mem_cons_of_mem _ (hrest b rfl)) t

end

/-- The lexeme is what is read of its text before every delimiter. -/
structure Stands (lexeme : Lexeme) : Prop where
  visible : ∃ c cs, lexeme.text.toList = c :: cs ∧ isBlank c = false ∧ c ≠ '/'
  first? : ∀ rest, Delimits rest → LexRule.first? (lexeme.text.toList ++ rest) =
    some (lexeme.kind, lexeme.text.toList.length)

theorem Stands.reads {lexeme : Lexeme} (h : Stands lexeme) {rest : List Char}
    {lexemes : List Lexeme} (hrest : Delimits rest) (hread : Reads rest lexemes) :
    Reads (lexeme.text.toList ++ rest) (lexeme :: lexemes) := by
  obtain ⟨c, cs, hlist, -, hslash⟩ := h.visible
  have hopens : opensComment (lexeme.text.toList ++ rest) = false := by
    rw [hlist]
    simp [opensComment, hslash]
  have hlexeme := Reads.lexeme (by rw [hlist]; simp) hopens (h.first? rest hrest) hread
  rwa [String.ofList_toList] at hlexeme

/-- The beginning of a word. -/
def BeginsWord (cs : List Char) : Prop :=
  ∃ c ds, cs = c :: ds ∧ isWordStart c = true ∧ isDecimal c = false

theorem beginsWord_of_all {cs : List Char}
    (h : cs.head?.any (fun c => isWordStart c && !isDecimal c) = true) : BeginsWord cs := by
  cases cs with
  | nil => cases h
  | cons c cs => exact ⟨c, cs, rfl, by simpa using h⟩

theorem BeginsWord.visible {cs : List Char} (h : BeginsWord cs) :
    ∃ c ds, cs = c :: ds ∧ isBlank c = false ∧ c ≠ '/' := by
  obtain ⟨c, ds, rfl, hc, -⟩ := h
  refine ⟨c, ds, rfl, isBlank_of_continuesWord (continuesWord_of_isWordStart hc), ?_⟩
  rintro rfl
  revert hc
  decide

section

variable {text : String} (hbegins : BeginsWord text.toList)
  (hlast : ∀ c ∈ text.toList.getLast?, isBlank c = false)
  (hapart : Apart (keywordPhrases ++ matchPhrases) text.toList)
include hbegins hlast hapart

theorem stands_keywordPhrase
    (h : phraseIn? keywordPhrases text.toList = some text.toList.length) :
    Stands ⟨.keyword .generic, text⟩ where
  visible := hbegins.visible
  first? rest hrest := by
    have hphrase := phraseIn?_append_of_delimits (List.subset_append_left _ _) hlast hapart hrest
    rw [h] at hphrase
    obtain ⟨c, cs, hlist, hc, hdigit⟩ := hbegins
    dsimp only
    rw [hlist, List.cons_append] at hphrase ⊢
    rw [LexRule.first?_of_isWordStart hc, number?_eq_none hc hdigit, hphrase]
    rfl

theorem stands_matchPhrase (hkeyword : phraseIn? keywordPhrases text.toList = none)
    (h : phraseIn? matchPhrases text.toList = some text.toList.length) :
    Stands ⟨.comparisonOperator, text⟩ where
  visible := hbegins.visible
  first? rest hrest := by
    have hnone := phraseIn?_append_of_delimits (List.subset_append_left _ _) hlast hapart hrest
    have hphrase := phraseIn?_append_of_delimits (List.subset_append_right _ _) hlast hapart hrest
    rw [hkeyword] at hnone
    rw [h] at hphrase
    obtain ⟨c, cs, hlist, hc, hdigit⟩ := hbegins
    dsimp only
    rw [hlist, List.cons_append] at hnone hphrase ⊢
    rw [LexRule.first?_of_isWordStart hc, number?_eq_none hc hdigit, hnone, hphrase]
    rfl

end

section

variable {w : List Char} (hword : Word w) (hapart : Apart (keywordPhrases ++ matchPhrases) w)
include hword hapart

/-- A word that is no part of a phrase is read as such before a dot as well. -/
theorem first?_of_apart {b : Char} (hb : b ∈ '.' :: delimiters) (t : List Char) :
    LexRule.first? (w ++ b :: t) = some (LexRule.wordKind w (b :: t), w.length) := by
  have hlast : ∀ c ∈ w.getLast?, isBlank c = false :=
    fun c hc => hword.isBlank c (List.mem_of_getLast? hc)
  apply hword.first?_append (continuesWord_of_mem b hb)
  · rw [phraseIn?_append_of_apart (List.subset_append_left _ _) hlast hapart hb, hword.keyword]
  · rw [phraseIn?_append_of_apart (List.subset_append_right _ _) hlast hapart hb, hword.comparison]

end

theorem stands_word {text : String} {kind : Kind} (hword : Word text.toList)
    (hapart : Apart (keywordPhrases ++ matchPhrases) text.toList)
    (hkind : LexRule.wordKind text.toList [] = kind) : Stands ⟨kind, text⟩ where
  visible := BeginsWord.visible hword.start
  first? rest hrest := by
    rw [← hkind]
    cases rest with
    | nil => rw [List.append_nil, hword.first?]
    | cons b t =>
      have hb := hrest b rfl
      have hdot : b ≠ '.' := by
        rintro rfl
        revert hb
        decide
      rw [first?_of_apart hword hapart (List.mem_cons_of_mem _ hb)]
      have hwordKind := LexRule.wordKind_append text.toList [] hdot t
      rw [List.nil_append] at hwordKind
      rw [hwordKind]

theorem exists_of_number? {cs : List Char} {n : Nat} (h : number? cs = some n) :
    ∃ c ds, cs = c :: ds ∧ (isDecimal c = true ∨ c = '.') := by
  obtain ⟨m, hm, -⟩ := Option.map_eq_some_iff.1 h
  cases cs with
  | nil => cases hm
  | cons c ds =>
    refine ⟨c, ds, rfl, ?_⟩
    by_cases hc : isDecimal c = true
    · exact Or.inl hc
    · unfold mantissa? at hm
      rw [run_cons, if_neg hc] at hm
      split at hm
      · next heq => exact Or.inr (List.cons.inj heq).1
      · cases hm
      · next hnot _ => exact absurd rfl hnot

theorem isBlank_of_isDecimal {c : Char} (h : isDecimal c = true) : isBlank c = false := by
  by_cases hc : c.toNat < 0x80
  · have hascii := of_ascii (p := fun c => !isDecimal c || !isBlank c) (by decide +kernel) hc
    simpa [h] using hascii
  · simp only [isDecimal, hc, if_false] at h
    exact inRanges_eq_false (by decide +kernel) h

theorem first?_of_number {cs : List Char} {n : Nat} (h : number? cs = some n) :
    LexRule.first? cs = some (.literal, n) := by
  obtain ⟨c, ds, rfl, hc⟩ := exists_of_number? h
  have hne : ∀ {d : Char}, isDecimal d = false → d ≠ '.' → c ≠ d := by
    rintro d hdigit hdot rfl
    rcases hc with hc | rfl
    · rw [hc] at hdigit
      cases hdigit
    · exact hdot rfl
  have hblank : isBlank c = false := by
    rcases hc with hc | rfl
    · exact isBlank_of_isDecimal hc
    · decide
  have hdash : c ≠ '-' := hne (by decide) (by decide)
  have hhash : c ≠ '#' := hne (by decide) (by decide)
  have hslash : c ≠ '/' := hne (by decide) (by decide)
  have hline : lineComment? (c :: ds) = none := by simp [lineComment?, hdash, hhash]
  have hblock : blockComment? (c :: ds) = none := by simp [blockComment?, hslash]
  have hblanks : blanks? (c :: ds) = none := by simp [blanks?, run_cons, hblank]
  have hsingle : singleQuotes.measure? (c :: ds) = none := if_neg (hne (by decide) (by decide))
  have hdouble : doubleQuotes.measure? (c :: ds) = none := if_neg (hne (by decide) (by decide))
  have hback : backQuotes.measure? (c :: ds) = none := if_neg (hne (by decide) (by decide))
  simp only [LexRule.first?, LexRule.all, LexRule.uniform, List.findSome?_cons, hline, hblock,
    hblanks, hsingle, hdouble, hback, h, Option.map_none, Option.map_some]

theorem eq_of_measure? {quoting : Quoting} {c : Char} {cs : List Char} {n : Nat}
    (h : quoting.measure? (c :: cs) = some n) :
    c = quoting.mark ∧ ∃ m, quoting.end? cs = some m ∧ m + 1 = n := by
  rw [Quoting.measure?] at h
  split at h
  · next hc => exact ⟨hc, Option.map_eq_some_iff.1 h⟩
  · cases h

theorem first?_of_string {cs : List Char} {n : Nat} (h : singleQuotes.measure? cs = some n) :
    LexRule.first? cs = some (.literal, n) := by
  cases cs with
  | nil => cases h
  | cons c ds =>
    obtain ⟨rfl, -⟩ := eq_of_measure? h
    have hline : lineComment? (singleQuotes.mark :: ds) = none := rfl
    have hblock : blockComment? (singleQuotes.mark :: ds) = none := rfl
    have hblanks : blanks? (singleQuotes.mark :: ds) = none := rfl
    simp only [LexRule.first?, LexRule.all, LexRule.uniform, List.findSome?_cons, hline, hblock,
      hblanks, h, Option.map_none, Option.map_some]

/-- A number or a string. -/
def IsValue (text : String) : Prop :=
  number? text.toList = some text.toList.length ∨
    singleQuotes.measure? text.toList = some text.toList.length

instance (text : String) : Decidable (IsValue text) :=
  inferInstanceAs (Decidable (_ ∨ _))

theorem exists_of_isValue {text : String} (h : IsValue text) :
    ∃ c cs, text.toList = c :: cs ∧ (isDecimal c = true ∨ c ∈ ['.', '\'']) := by
  rcases h with h | h
  · obtain ⟨c, cs, hlist, hc⟩ := exists_of_number? h
    exact ⟨c, cs, hlist, hc.imp_right (by rintro rfl; simp)⟩
  · cases hlist : text.toList with
    | nil =>
      rw [hlist] at h
      cases h
    | cons c cs =>
      rw [hlist] at h
      obtain ⟨rfl, -⟩ := eq_of_measure? h
      exact ⟨_, cs, rfl, Or.inr (by simp [singleQuotes])⟩

theorem closes_of_measure? {cs : List Char} (h : singleQuotes.measure? cs = some cs.length) :
    singleQuotes.Closes cs := by
  rintro ds rfl
  obtain ⟨-, n, hn, hlength⟩ := eq_of_measure? h
  obtain rfl : n = ds.length := Nat.succ.inj hlength
  refine ⟨ds.length, hn, fun es hes => ?_⟩
  rw [List.drop_length] at hes
  cases hes

theorem stands_value {text : String} (h : IsValue text) : Stands ⟨.literal, text⟩ where
  visible := by
    obtain ⟨c, cs, hlist, hc⟩ := exists_of_isValue h
    refine ⟨c, cs, hlist, ?_⟩
    rcases hc with hc | hc
    · refine ⟨isBlank_of_isDecimal hc, ?_⟩
      rintro rfl
      revert hc
      decide
    · have hall : ∀ c ∈ ['.', '\''], isBlank c = false ∧ c ≠ '/' := forall_mem_of_all (by decide)
      exact hall c hc
  first? rest hrest := by
    cases rest with
    | nil =>
      rw [List.append_nil]
      exact h.elim first?_of_number first?_of_string
    | cons b t =>
      have hb : isDecimal b = false ∧ ∀ c ∈ ['.', '+', '-', 'e', 'E', '\''], b ≠ c := by
        have hall : ∀ b ∈ delimiters, isDecimal b = false ∧
            b ∉ ['.', '+', '-', 'e', 'E', '\''] := forall_mem_of_all (by decide)
        obtain ⟨hdigit, hmarks⟩ := hall b (hrest b rfl)
        exact ⟨hdigit, fun c hc heq => hmarks (heq ▸ hc)⟩
      have hne : text.toList ≠ [] := by
        obtain ⟨c, cs, hlist, -⟩ := exists_of_isValue h
        rw [hlist]
        simp
      rcases h with h | h
      · apply first?_of_number
        rw [number?_append hne hb.1 (hb.2 _ (by simp)) (hb.2 _ (by simp)) (hb.2 _ (by simp))
          (hb.2 _ (by simp)) (hb.2 _ (by simp)), h]
      · apply first?_of_string
        rw [singleQuotes.measure?_append hne (hb.2 _ (by simp [singleQuotes])) (closes_of_measure? h), h]

theorem trim_of_isValue {text : String} (h : IsValue text) : trim text = text := by
  obtain ⟨c, cs, hlist, hfirst, -⟩ := (stands_value h).visible
  apply trim_eq_self_of_visible
  · rw [hlist]
    rintro d ⟨⟩
    exact hfirst
  intro d hd
  obtain ⟨before, hbefore⟩ := List.getLast?_eq_some_iff.1 hd
  rcases h with h | h
  · -- the number would be one without a blank at its end
    rw [← Bool.not_eq_true]
    intro hblank
    have hdigit : isDecimal d = false := by
      rw [← Bool.not_eq_true]
      intro hdigit
      rw [isBlank_of_isDecimal hdigit] at hblank
      cases hblank
    have hne : ∀ b ∈ ['.', '+', '-', 'e', 'E'], d ≠ b := by
      have hall : ∀ b ∈ ['.', '+', '-', 'e', 'E'], isBlank b = false :=
        forall_mem_of_all (by decide)
      rintro b hb rfl
      rw [hall d hb] at hblank
      cases hblank
    have hnonempty : before ≠ [] := by
      rintro rfl
      rw [hlist] at hbefore
      obtain ⟨rfl, -⟩ := List.cons.inj hbefore
      rw [hfirst] at hblank
      cases hblank
    have hnumber : number? (before ++ [d]) = number? before :=
      number?_append hnonempty hdigit (hne _ (by simp)) (hne _ (by simp)) (hne _ (by simp))
        (hne _ (by simp)) (hne _ (by simp))
    rw [hbefore, hnumber] at h
    have hle := number?_le_length h
    rw [List.length_append, List.length_singleton] at hle
    omega
  · rw [hlist] at h hd
    obtain ⟨rfl, n, hn, hlength⟩ := eq_of_measure? h
    have hend := singleQuotes.getLast?_end hn
    obtain rfl : n = cs.length := Nat.succ.inj hlength
    rw [List.take_length] at hend
    rw [getLast?_cons_of_some hend] at hd
    cases hd
    decide

theorem stands_comparisonMark {mark : String} (h : mark ∈ comparisonMarks) :
    Stands ⟨.comparisonOperator, mark⟩ where
  visible := by
    have hvisible : ∀ mark ∈ comparisonMarks,
        mark.toList.head?.any (fun c => !isBlank c && c != '/') = true := by decide
    have hhead := hvisible mark h
    cases hlist : mark.toList with
    | nil => simp [hlist] at hhead
    | cons c cs => exact ⟨c, cs, rfl, by simpa [hlist] using hhead⟩
  first? rest hrest := by
    have hfirst : ∀ mark ∈ comparisonMarks, ∀ b ∈ delimiters, ∀ t : List Char,
        LexRule.first? (mark.toList ++ b :: t) =
          some (.comparisonOperator, mark.toList.length) := by
      simp only [comparisonMarks, delimiters, List.forall_mem_cons, List.not_mem_nil, false_implies,
        implies_true, and_true]
      refine ⟨?_, ?_, ?_, ?_, ?_, ?_, ?_, ?_⟩
      all_goals exact ⟨fun _ => rfl, fun _ => rfl, fun _ => rfl, fun _ => rfl⟩
    have hend : ∀ mark ∈ comparisonMarks, LexRule.first? mark.toList =
          some (.comparisonOperator, mark.toList.length) := by
      decide +kernel
    cases rest with
    | nil => rw [List.append_nil, hend mark h]
    | cons b t => exact hfirst mark h b (hrest b rfl) t

def keywords : List Lexeme :=
  [⟨.keyword .dml, "SELECT"⟩, ⟨.keyword .cte, "WITH"⟩, ⟨.literal, "NULL"⟩] ++
    ["FROM", "WHERE", "AS", "ON", "AND", "OR", "IS", "IN", "BETWEEN", "INTERSECT", "EXCEPT"].map
      (⟨.keyword .generic, ·⟩)

theorem stands_of_mem_keywords : ∀ lexeme ∈ keywords, Stands lexeme := by
  have hwords : ∀ lexeme ∈ keywords,
      Apart (keywordPhrases ++ matchPhrases) lexeme.text.toList ∧
        LexRule.wordKind lexeme.text.toList [] = lexeme.kind := by decide +kernel
  intro lexeme hlexeme
  refine stands_word ?_ (hwords lexeme hlexeme).1 (hwords lexeme hlexeme).2
  revert lexeme
  simp only [keywords, List.cons_append, List.nil_append, List.map_cons, List.map_nil,
    List.forall_mem_cons, List.not_mem_nil, false_implies, implies_true, and_true]
  repeat' apply And.intro
  all_goals exact word_of_decide (by decide +kernel)

theorem visible_of_all {cs : List Char} (h : cs.getLast?.all (fun c => !isBlank c) = true) :
    ∀ c ∈ cs.getLast?, isBlank c = false := by
  intro c hc
  rw [Option.mem_def.1 hc] at h
  simpa using h

theorem stands_phrase : ∀ words ∈ keywordPhrases,
    Stands ⟨.keyword .generic, " ".intercalate words⟩ := by
  have hforms : ∀ words ∈ keywordPhrases,
      (" ".intercalate words).toList.head?.any (fun c => isWordStart c && !isDecimal c) = true ∧
      (" ".intercalate words).toList.getLast?.all (fun c => !isBlank c) = true ∧
      Apart (keywordPhrases ++ matchPhrases) (" ".intercalate words).toList ∧
      phraseIn? keywordPhrases (" ".intercalate words).toList =
        some (" ".intercalate words).toList.length := by decide +kernel
  intro words hwords
  obtain ⟨hhead, hlast, hapart, hphrase⟩ := hforms words hwords
  exact stands_keywordPhrase (beginsWord_of_all hhead) (visible_of_all hlast) hapart hphrase

theorem stands_likeForm : ∀ words ∈ matchPhrases,
    Stands ⟨.comparisonOperator, " ".intercalate words⟩ := by
  have hforms : ∀ words ∈ matchPhrases,
      (" ".intercalate words).toList.head?.any (fun c => isWordStart c && !isDecimal c) = true ∧
      (" ".intercalate words).toList.getLast?.all (fun c => !isBlank c) = true ∧
      Apart (keywordPhrases ++ matchPhrases) (" ".intercalate words).toList ∧
      phraseIn? keywordPhrases (" ".intercalate words).toList = none ∧
      phraseIn? matchPhrases (" ".intercalate words).toList =
        some (" ".intercalate words).toList.length := by decide +kernel
  intro words hwords
  obtain ⟨hhead, hlast, hapart, hkeyword, hphrase⟩ := hforms words hwords
  exact stands_matchPhrase (beginsWord_of_all hhead) (visible_of_all hlast) hapart hkeyword hphrase

theorem isBlank_head_of_comment {text : String} (hread : ofText text = .ok [⟨.comment, text⟩])
    (rest : List Char) : ∀ c ∈ (text.toList ++ rest).head?, isBlank c = false := by
  rw [ofText_eq_ok_iff] at hread
  generalize hrow : [(⟨.comment, text⟩ : Lexeme)] = row at hread
  generalize text.toList = cs at hread
  cases hread with
  | nil => cases hrow
  | @cons c cs kind n others hopens hfirst hothers =>
    obtain ⟨rfl, -⟩ := Lexeme.mk.inj (List.cons.inj hrow).1
    rintro d ⟨⟩
    rw [← Bool.not_eq_true]
    intro hblank
    exact Kind.noConfusion (LexRule.kind_of_isBlank hblank hfirst)

/-- A comment that ends stays one lexeme before a blank. -/
theorem Reads.comment {text : String} (hread : ofText text = .ok [⟨.comment, text⟩])
    (hended : isUnendedComment ⟨.comment, text⟩ = false) {rest : List Char} {lexemes : List Lexeme}
    (h : Reads (' ' :: rest) lexemes) :
    Reads (text.toList ++ ' ' :: rest) (⟨.comment, text⟩ :: lexemes) := by
  rw [ofText_eq_ok_iff] at hread
  generalize hrow : [(⟨.comment, text⟩ : Lexeme)] = row at hread
  generalize hlist : text.toList = cs at hread
  cases hread with
  | nil => cases hrow
  | @cons c cs kind n others hopens hfirst hothers =>
    obtain ⟨hlexeme, rfl⟩ := List.cons.inj hrow
    obtain ⟨rfl, htext⟩ := Lexeme.mk.inj hlexeme
    obtain rfl : cs.length = n := by
      have hdrop : cs.drop n = [] := by
        generalize cs.drop n = ds at hothers
        cases hothers
        rfl
      have hle := LexRule.le_length_of_first? hfirst
      rw [List.length_cons] at hle
      exact Nat.le_antisymm (List.drop_eq_nil_iff.1 hdrop) (Nat.le_of_succ_le_succ hle)
    have hline := lineComment?_append (List.cons_ne_nil c cs) (by decide : ' ' ≠ '-') (by decide)
      (exists_isLineBreak_of_first? hfirst fun _ => htext ▸ hended) rest
    have hblock := blockComment?_append (List.cons_ne_nil c cs) (by decide : ' ' ≠ '*') hopens rest
    -- the rules for comments come first, and they find the same with the blank behind
    have hsame : LexRule.first? (c :: cs ++ ' ' :: rest) = LexRule.first? (c :: cs) := by
      simp only [LexRule.first?, LexRule.all, LexRule.uniform, List.findSome?_cons, hline, hblock]
      rcases (LexRule.filler_of_first? hfirst).2 rfl with hcomment | hcomment
      · rw [hcomment]
        rfl
      · rw [hcomment]
        cases lineComment? (c :: cs) <;> rfl
    have hopens' : opensComment (c :: cs ++ ' ' :: rest) = true →
        blockComment? (c :: cs ++ ' ' :: rest) ≠ none := by
      rw [opensComment_append (List.cons_ne_nil c cs) (by decide), hblock]
      exact hopens
    rw [List.cons_append] at hsame hopens'
    have hcomment := Reads.cons hopens' (hsame.trans hfirst) (by rwa [List.drop_left])
    rwa [List.take_left, ← hlist, String.ofList_toList, ← List.cons_append] at hcomment

/-- A name that no keyword of several words has among its words. -/
structure IsPlain (name : String) : Prop extends IsName name where
  apart : ∀ words ∈ keywordPhrases, 1 < words.length → ∀ word ∈ words,
    spelling? word.toList name.toList ≠ some name.toList.length

theorem IsPlain.apart_phrases {name : String} (h : IsPlain name) :
    Apart (keywordPhrases ++ matchPhrases) name.toList := by
  have hparts : ∀ words ∈ keywordPhrases ++ matchPhrases, 1 < words.length →
      ∀ word ∈ words.head?, ∃ others ∈ keywordPhrases, 1 < others.length ∧ word ∈ others := by
    decide +kernel
  intro words hwords n hn
  match words, n, hn with
  | _, 0, _ => simp [phraseOfWords?]
  | word :: next :: words, 1, _ =>
    obtain ⟨others, hothers, hlength, hword⟩ := hparts _ hwords (by simp) word rfl
    exact h.apart others hothers hlength word hword
  | word :: next :: words, n + 2, _ =>
    -- a name has no blanks, so a second word cannot begin in it
    rw [List.take_succ_cons, List.take_succ_cons, phraseOfWords?_eq_none h.isWord.isBlank]
    exact (Option.some_ne_none _).symm

theorem IsPlain.stands {name : String} (h : IsPlain name) : Stands ⟨.name, name⟩ :=
  stands_word h.isWord h.apart_phrases h.wordKind

theorem IsPlain.reads_dot {name : String} (h : IsPlain name) {rest : List Char}
    {lexemes : List Lexeme} (hread : Reads ('.' :: rest) lexemes) :
    Reads (name.toList ++ '.' :: rest) (⟨.name, name⟩ :: lexemes) := by
  obtain ⟨c, cs, hlist, -, hslash⟩ := h.stands.visible
  have hopens : opensComment (name.toList ++ '.' :: rest) = false := by
    rw [hlist]
    simp [opensComment, hslash]
  have hfirst := first?_of_apart h.isWord h.apart_phrases List.mem_cons_self rest
  rw [LexRule.wordKind_dot] at hfirst
  have hlexeme := Reads.lexeme (by rw [hlist]; simp) hopens hfirst hread
  rwa [String.ofList_toList] at hlexeme

theorem Reads.dot {c : Char} {cs : List Char} (hc : isDecimal c = false) {lexemes : List Lexeme}
    (h : Reads (c :: cs) lexemes) :
    Reads ('.' :: c :: cs) (⟨.punctuation, "."⟩ :: lexemes) := by
  have hnumber : number? ('.' :: c :: cs) = none := by
    have hmantissa : mantissa? ('.' :: c :: cs) = none := by
      have hdot : isDecimal '.' = false := by decide
      simp [mantissa?, run_cons, hc, hdot]
    rw [number?, hmantissa, Option.map_none]
  have hfirst : LexRule.first? ('.' :: c :: cs) = some (.punctuation, 1) := by
    simp only [LexRule.first?, LexRule.all, LexRule.uniform, List.findSome?_cons, hnumber]
    rfl
  exact Reads.cons (n := 0) (by simp [opensComment]) hfirst h

end Lexeme

end QueryLineage
