import QueryLineage.Proofs.Lexeme.Word

/-!
# Texts inside queries

How a text is read between parentheses, in the place of a source and as the query of a common
table: the lexemes around it are always the same, and its own are those that it has by itself.
-/

namespace QueryLineage

open Text Pattern

/-- A query as the only source of another one, under a name. -/
def asSource (query name : String) : String :=
  "SELECT * FROM (" ++ query ++ ") " ++ name

/-- A query as the only common table of another one, which reads nothing else. -/
def asCommonTable (query name : String) : String :=
  "WITH " ++ name ++ " AS (" ++ query ++ ") SELECT * FROM " ++ name

theorem toList_asSource (query name : String) : (asSource query name).toList =
    "SELECT".toList ++ ' ' :: '*' :: ' ' ::
      ("FROM".toList ++ ' ' :: '(' :: (query.toList ++ ')' :: ' ' :: name.toList)) := by
  have hbefore : "SELECT * FROM (".toList =
      "SELECT".toList ++ ' ' :: '*' :: ' ' :: ("FROM".toList ++ [' ', '(']) := by decide
  have hbehind : ") ".toList = [')', ' '] := by decide
  change ("SELECT * FROM (" ++ query ++ ") " ++ name).toList = _
  rw [String.toList_append, String.toList_append, String.toList_append, hbefore, hbehind]
  simp only [List.append_assoc, List.cons_append, List.nil_append]

theorem toList_asCommonTable (query name : String) : (asCommonTable query name).toList =
    "WITH".toList ++ ' ' :: (name.toList ++ ' ' :: ("AS".toList ++ ' ' :: '(' ::
      (query.toList ++ ')' :: ' ' :: ("SELECT".toList ++ ' ' :: '*' :: ' ' ::
        ("FROM".toList ++ ' ' :: name.toList))))) := by
  have hbefore : "WITH ".toList = "WITH".toList ++ [' '] := by decide
  have hbetween : " AS (".toList = ' ' :: ("AS".toList ++ [' ', '(']) := by decide
  have hbehind : ") SELECT * FROM ".toList =
      ')' :: ' ' :: ("SELECT".toList ++ ' ' :: '*' :: ' ' :: ("FROM".toList ++ [' '])) := by decide
  change ("WITH " ++ name ++ " AS (" ++ query ++ ") SELECT * FROM " ++ name).toList = _
  rw [String.toList_append, String.toList_append, String.toList_append, String.toList_append,
    String.toList_append, hbefore, hbetween, hbehind]
  simp only [List.append_assoc, List.cons_append, List.nil_append]

namespace Lexeme

def space : Lexeme := ⟨.whitespace, " "⟩

def opening : Lexeme := ⟨.punctuation, "("⟩

def closing : Lexeme := ⟨.punctuation, ")"⟩

def semicolon : Lexeme := ⟨.punctuation, ";"⟩

theorem Reads.space {cs : List Char} {lexemes : List Lexeme}
    (hcs : ∀ c ∈ cs.head?, isBlank c = false) (h : Reads cs lexemes) :
    Reads (' ' :: cs) (Lexeme.space :: lexemes) := by
  have hstop : run isBlank cs = 0 := by
    cases cs with
    | nil => rfl
    | cons c cs => rw [run_cons, if_neg (by simp [hcs c rfl])]
  have hblanks : blanks? (' ' :: cs) = some 1 := by
    rw [blanks?, run_cons, if_pos (by decide), hstop]
    rfl
  have hfirst : LexRule.first? (' ' :: cs) = some (.whitespace, 1) := by
    have hline : lineComment? (' ' :: cs) = none := rfl
    have hblock : blockComment? (' ' :: cs) = none := rfl
    simp only [LexRule.first?, LexRule.all, LexRule.uniform, List.findSome?_cons, hline, hblock,
      hblanks, Option.map_none, Option.map_some]
  exact Reads.cons (n := 0) (by simp [opensComment]) hfirst h

theorem Reads.opening {cs : List Char} {lexemes : List Lexeme} (h : Reads cs lexemes) :
    Reads ('(' :: cs) (Lexeme.opening :: lexemes) :=
  Reads.cons (n := 0) (by simp [opensComment]) rfl h

theorem Reads.closing {cs : List Char} {lexemes : List Lexeme} (h : Reads cs lexemes) :
    Reads (')' :: cs) (Lexeme.closing :: lexemes) :=
  Reads.cons (n := 0) (by simp [opensComment]) rfl h

theorem Reads.semicolon {cs : List Char} {lexemes : List Lexeme} (h : Reads cs lexemes) :
    Reads (';' :: cs) (Lexeme.semicolon :: lexemes) :=
  Reads.cons (n := 0) (by simp [opensComment]) rfl h

theorem Reads.star {cs : List Char} {lexemes : List Lexeme} (h : Reads (' ' :: cs) lexemes) :
    Reads ('*' :: ' ' :: cs) (⟨.wildcard, "*"⟩ :: lexemes) :=
  Reads.cons (n := 0) (by simp [opensComment]) rfl h

theorem Reads.word {w rest : List Char} {lexemes : List Lexeme} (hw : Word w)
    (hkeyword : phraseIn? keywordPhrases (w ++ ' ' :: rest) = none)
    (hcomparison : phraseIn? matchPhrases (w ++ ' ' :: rest) = none)
    (h : Reads (' ' :: rest) lexemes) :
    Reads (w ++ ' ' :: rest) (⟨LexRule.wordKind w [], String.ofList w⟩ :: lexemes) := by
  have hfirst := hw.first?_append (by decide) hkeyword hcomparison
  obtain ⟨c, cs, rfl, hc, -⟩ := hw.start
  have hslash : c ≠ '/' := by
    rintro rfl
    revert hc
    decide
  have hkind : LexRule.wordKind (c :: cs) (' ' :: rest) = LexRule.wordKind (c :: cs) [] :=
    LexRule.wordKind_append (c :: cs) [] (by decide) rest
  rw [hkind] at hfirst
  exact Reads.lexeme (by simp) (by simp [opensComment, hslash]) hfirst h

theorem Reads.wordOfKind {w : List Char} {kind : Kind} {rest : List Char}
    {lexemes : List Lexeme} (hw : Word w) (hkind : LexRule.wordKind w [] = kind)
    (hspelling : ∀ words ∈ keywordPhrases ++ matchPhrases,
      words.head?.any (fun word => (spelling? word.toList w).isNone) = true)
    (h : Reads (' ' :: rest) lexemes) :
    Reads (w ++ ' ' :: rest) (⟨kind, String.ofList w⟩ :: lexemes) := by
  rw [← hkind]
  apply Reads.word hw _ _ h
  · exact phraseIn?_eq_none_of_spelling (noLetterVariant_of_all (by decide +kernel))
      (fun words hwords => hspelling words (List.mem_append_left _ hwords)) rest
  · exact phraseIn?_eq_none_of_spelling (noLetterVariant_of_all (by decide +kernel))
      (fun words hwords => hspelling words (List.mem_append_right _ hwords)) rest

theorem word_of_decide {c : Char} {cs : List Char}
    (h : isWordStart c = true ∧ isDecimal c = false ∧ (c :: cs).all continuesWord = true ∧
      phraseIn? keywordPhrases (c :: cs) = none ∧ phraseIn? matchPhrases (c :: cs) = none) :
    Word (c :: cs) where
  start := ⟨c, cs, rfl, h.1, h.2.1⟩
  continues := List.all_eq_true.1 h.2.2.1
  keyword := h.2.2.2.1
  comparison := h.2.2.2.2

theorem Reads.selectKeyword {rest : List Char} {lexemes : List Lexeme}
    (h : Reads (' ' :: rest) lexemes) :
    Reads ("SELECT".toList ++ ' ' :: rest) (⟨.keyword .dml, "SELECT"⟩ :: lexemes) :=
  Reads.wordOfKind (word_of_decide (by decide +kernel)) (by decide +kernel) (by decide +kernel) h

theorem Reads.fromKeyword {rest : List Char} {lexemes : List Lexeme}
    (h : Reads (' ' :: rest) lexemes) :
    Reads ("FROM".toList ++ ' ' :: rest) (⟨.keyword .generic, "FROM"⟩ :: lexemes) :=
  Reads.wordOfKind (word_of_decide (by decide +kernel)) (by decide +kernel) (by decide +kernel) h

theorem Reads.withKeyword {rest : List Char} {lexemes : List Lexeme}
    (h : Reads (' ' :: rest) lexemes) :
    Reads ("WITH".toList ++ ' ' :: rest) (⟨.keyword .cte, "WITH"⟩ :: lexemes) :=
  Reads.wordOfKind (word_of_decide (by decide +kernel)) (by decide +kernel) (by decide +kernel) h

theorem Reads.asKeyword {rest : List Char} {lexemes : List Lexeme}
    (h : Reads (' ' :: rest) lexemes) :
    Reads ("AS".toList ++ ' ' :: rest) (⟨.keyword .generic, "AS"⟩ :: lexemes) :=
  Reads.wordOfKind (word_of_decide (by decide +kernel)) (by decide +kernel) (by decide +kernel) h

/-- A text that is read as one lexeme, which is a name in the form of a word. -/
structure IsName (name : String) : Prop where
  word : word? name.toList = some name.toList.length
  read : ofText name = .ok [⟨.name, name⟩]

namespace IsName

variable {name : String}

theorem first? (h : IsName name) :
    LexRule.first? name.toList = some (.name, name.toList.length) := by
  have hread := ofText_eq_ok_iff.1 h.read
  cases hlist : name.toList with
  | nil =>
    have hword := h.word
    rw [hlist] at hword
    cases hword
  | cons c cs =>
    rw [hlist] at hread
    generalize hlexemes : [(⟨.name, name⟩ : Lexeme)] = lexemes at hread
    cases hread with
    | @cons _ _ kind n rest _ hfirst hrest =>
      obtain ⟨hlexeme, rfl⟩ := List.cons.inj hlexemes
      obtain ⟨rfl, -⟩ := Lexeme.mk.inj hlexeme
      have hle := LexRule.le_length_of_first? hfirst
      have hdrop : cs.drop n = [] := by
        generalize cs.drop n = ds at hrest
        cases hrest
        rfl
      have hlength := List.drop_eq_nil_iff.1 hdrop
      rw [hfirst, List.length_cons] at *
      congr 2
      omega

theorem isWord (h : IsName name) : Word name.toList :=
  Word.of_name h.word h.first?

theorem ne_empty (h : IsName name) : name ≠ "" := by
  rintro rfl
  obtain ⟨c, cs, hlist, -⟩ := h.isWord.start
  cases hlist

theorem wordKind (h : IsName name) : LexRule.wordKind name.toList [] = .name := by
  obtain ⟨c, cs, hlist, hc, hdigit⟩ := h.isWord.start
  have hfirst := h.first?
  have hkeyword := h.isWord.keyword
  have hcomparison := h.isWord.comparison
  have hcontinues := h.isWord.continues
  rw [hlist] at hfirst hkeyword hcomparison hcontinues ⊢
  have hrun : run continuesWord cs = cs.length := by
    have happend := run_append_of_forall (fun d hd => hcontinues d (List.mem_cons_of_mem _ hd)) []
    simpa using happend
  rw [LexRule.first?_of_isWordStart hc, number?_eq_none hc hdigit, hkeyword, hcomparison, hrun,
    List.take_length, List.drop_length] at hfirst
  exact (Prod.mk.inj (Option.some.inj hfirst)).1

end IsName

theorem Reads.name {name : String} (h : IsName name) :
    Reads name.toList [⟨.name, name⟩] :=
  ofText_eq_ok_iff.1 h.read

theorem Reads.nameAs {name : String} (hname : IsName name) {rest : List Char}
    {lexemes : List Lexeme} (h : Reads (' ' :: ("AS".toList ++ ' ' :: rest)) lexemes) :
    Reads (name.toList ++ ' ' :: ("AS".toList ++ ' ' :: rest)) (⟨.name, name⟩ :: lexemes) := by
  have hread := Reads.word hname.isWord
    (phraseIn?_eq_none_of_next hname.isWord (by decide) (noLetterVariant_of_all (by decide +kernel))
      hname.isWord.keyword (by decide +kernel) rest)
    (phraseIn?_eq_none_of_next hname.isWord (by decide) (noLetterVariant_of_all (by decide +kernel))
      hname.isWord.comparison (by decide +kernel) rest) h
  rwa [hname.wordKind, String.ofList_toList] at hread

def selectStarFrom : List Lexeme :=
  [⟨.keyword .dml, "SELECT"⟩, space, ⟨.wildcard, "*"⟩, space, ⟨.keyword .generic, "FROM"⟩, space]

def withAs (name : String) : List Lexeme :=
  [⟨.keyword .cte, "WITH"⟩, space, ⟨.name, name⟩, space, ⟨.keyword .generic, "AS"⟩, space]

theorem Reads.selectStarFrom {cs : List Char} {lexemes : List Lexeme}
    (hcs : ∀ c ∈ cs.head?, isBlank c = false) (h : Reads cs lexemes) :
    Reads ("SELECT".toList ++ ' ' :: '*' :: ' ' :: ("FROM".toList ++ ' ' :: cs))
      (Lexeme.selectStarFrom ++ lexemes) := by
  apply Reads.selectKeyword
  apply Reads.space (by simp; decide)
  apply Reads.star
  apply Reads.space (by simp; decide)
  apply Reads.fromKeyword
  exact h.space hcs

section

variable {query name : String} {lexemes : List Lexeme}

theorem IsName.isBlank_head (h : IsName name) (rest : List Char) :
    ∀ c ∈ (name.toList ++ rest).head?, isBlank c = false := by
  obtain ⟨d, ds, hlist, hd, -⟩ := h.isWord.start
  rw [hlist]
  rintro c ⟨⟩
  exact isBlank_of_continuesWord (continuesWord_of_isWordStart hd)

theorem ofText_asSource (hquery : ofText query = .ok lexemes)
    (hended : ∀ last ∈ lexemes.getLast?, last.isUnendedComment = false) (hname : IsName name) :
    ofText (asSource query name) =
      .ok (selectStarFrom ++ opening :: (lexemes ++ closing :: [space, ⟨.name, name⟩])) := by
  have hread := ofText_eq_ok_iff.1 hquery
  have hafter : Reads (' ' :: name.toList) [space, ⟨.name, name⟩] :=
    (Reads.name hname).space (by simpa using hname.isBlank_head [])
  rw [ofText_eq_ok_iff, toList_asSource]
  have hinner := (hread.append LexRule.stops_closing hafter.closing hended).opening
  exact Reads.selectStarFrom (by simp; decide) hinner

theorem ofText_asCommonTable (hquery : ofText query = .ok lexemes)
    (hended : ∀ last ∈ lexemes.getLast?, last.isUnendedComment = false) (hname : IsName name) :
    ofText (asCommonTable query name) =
      .ok (withAs name ++ opening :: (lexemes ++ closing :: space ::
        (selectStarFrom ++ [⟨.name, name⟩]))) := by
  have hread := ofText_eq_ok_iff.1 hquery
  have hselect := Reads.selectStarFrom (by simpa using hname.isBlank_head []) (Reads.name hname)
  have hafter := (hselect.space (by simp; decide)).closing
  have hinner := (hread.append LexRule.stops_closing hafter hended).opening
  rw [ofText_eq_ok_iff, toList_asCommonTable]
  apply Reads.withKeyword
  apply Reads.space (hname.isBlank_head _)
  apply Reads.nameAs hname
  apply Reads.space (by simp; decide)
  apply Reads.asKeyword
  exact hinner.space (by simp; decide)

end

end Lexeme

end QueryLineage
