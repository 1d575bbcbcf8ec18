import QueryLineage.Proofs.Lexeme.Context
import QueryLineage.Proofs.Text.Lower

/-!
# Lexemes in lower case

No form of lexeme tells a capital of ASCII from its small letter: where one reaches, it reaches as
far when the text is in lower case, and the kinds of words are told by their upper case. So a text in
lower case is cut at the same places into lexemes of the same kinds, or refused at the same place
for the same reason.
-/

namespace QueryLineage

open Text

namespace Pattern

theorem run_lowerChars {p : Char → Bool} (hp : ∀ c, p c.toLower = p c) (cs : List Char) :
    run p (lowerChars cs) = run p cs := by
  induction cs with
  | nil => rfl
  | cons c cs ih => rw [lowerChars_cons, run_cons, run_cons, hp, ih]

theorem beq_toLower {mark : Char} (h : mark.isAlpha = false) (c : Char) :
    (c.toLower == mark) = (c == mark) := by
  rw [Bool.eq_iff_iff, beq_iff_eq, beq_iff_eq, toLower_eq_iff h]

theorem lineBreak_lowerChars (cs : List Char) : lineBreak (lowerChars cs) = lineBreak cs := by
  have hreturn : ∀ c : Char, c.toLower = '\r' ↔ c = '\r' := toLower_eq_iff rfl
  have hfeed : ∀ c : Char, c.toLower = '\n' ↔ c = '\n' := toLower_eq_iff rfl
  cases cs with
  | nil => rfl
  | cons c cs =>
    by_cases hc : c = '\r'
    · subst hc
      cases cs with
      | nil => rfl
      | cons d ds =>
        by_cases hd : d = '\n'
        · subst hd
          rfl
        · have hlower : '\r'.toLower = '\r' := by decide
          simp [lineBreak, hlower, hfeed, hd]
    · by_cases hc' : c = '\n'
      · subst hc'
        rfl
      · simp [lineBreak, hreturn, hfeed, hc, hc']

theorem restOfLine_lowerChars (cs : List Char) :
    restOfLine (lowerChars cs) = restOfLine cs := by
  have hrun := run_lowerChars (p := fun c => c != '\r' && c != '\n')
    (fun c => by rw [bne, bne, beq_toLower rfl, beq_toLower rfl, bne, bne]) cs
  unfold restOfLine
  simp only [hrun, drop_lowerChars, lineBreak_lowerChars]

theorem lineComment?_lowerChars (cs : List Char) :
    lineComment? (lowerChars cs) = lineComment? cs := by
  have hdash : ∀ c : Char, c.toLower = '-' ↔ c = '-' := toLower_eq_iff rfl
  have hhash : ∀ c : Char, c.toLower = '#' ↔ c = '#' := toLower_eq_iff rfl
  cases cs with
  | nil => rfl
  | cons c cs =>
    by_cases hc : c = '#'
    · subst hc
      exact congrArg (fun n => some (n + 1)) (restOfLine_lowerChars cs)
    · by_cases hc' : c = '-'
      · subst hc'
        cases cs with
        | nil => rfl
        | cons d ds =>
          by_cases hd : d = '-'
          · subst hd
            exact congrArg (fun n => some (n + 2)) (restOfLine_lowerChars ds)
          · have hlower : '-'.toLower = '-' := by decide
            simp [lineComment?, hlower, hdash, hd]
      · simp [lineComment?, hdash, hhash, hc, hc']

theorem head?_beq_lowerChars {mark : Char} (h : mark.isAlpha = false) (cs : List Char) :
    ((lowerChars cs).head? == some mark) = (cs.head? == some mark) := by
  cases cs with
  | nil => rfl
  | cons c cs => exact beq_toLower h c

theorem commentEnd?_lowerChars (cs : List Char) :
    commentEnd? (lowerChars cs) = commentEnd? cs := by
  induction cs with
  | nil => rfl
  | cons c cs ih =>
    have hstar : c.toLower = '*' ↔ c = '*' := toLower_eq_iff rfl c
    rw [lowerChars_cons, commentEnd?, commentEnd?, head?_beq_lowerChars rfl, ih]
    simp only [hstar]

theorem opensComment_lowerChars (cs : List Char) :
    opensComment (lowerChars cs) = opensComment cs := by
  have hslash : ∀ c : Char, c.toLower = '/' ↔ c = '/' := toLower_eq_iff rfl
  have hstar : ∀ c : Char, c.toLower = '*' ↔ c = '*' := toLower_eq_iff rfl
  match cs with
  | [] => rfl
  | [c] => simp [opensComment]
  | c :: d :: cs =>
    rw [Bool.eq_iff_iff]
    constructor <;> intro h <;> unfold opensComment at h ⊢ <;> split at h <;> simp_all

theorem blockComment?_lowerChars (cs : List Char) :
    blockComment? (lowerChars cs) = blockComment? cs := by
  have hslash : ∀ c : Char, c.toLower = '/' ↔ c = '/' := toLower_eq_iff rfl
  have hstar : ∀ c : Char, c.toLower = '*' ↔ c = '*' := toLower_eq_iff rfl
  match cs with
  | [] => rfl
  | [c] => simp [blockComment?]
  | c :: d :: cs =>
    by_cases h : c = '/' ∧ d = '*'
    · obtain ⟨rfl, rfl⟩ := h
      exact congrArg (Option.map (· + 2)) (commentEnd?_lowerChars cs)
    · have hlower : ¬ (c.toLower = '/' ∧ d.toLower = '*') := by rwa [hslash, hstar]
      unfold blockComment?
      split <;> split <;> simp_all

theorem blanks?_lowerChars (cs : List Char) : blanks? (lowerChars cs) = blanks? cs := by
  rw [blanks?, run_lowerChars isBlank_toLower, blanks?]

theorem Quoting.end?_lowerChars {quoting : Quoting} (hmark : quoting.mark.isAlpha = false)
    (cs : List Char) : quoting.end? (lowerChars cs) = quoting.end? cs := by
  have hiff : ∀ c : Char, c.toLower = quoting.mark ↔ c = quoting.mark := toLower_eq_iff hmark
  have hescape : ∀ c : Char, c.toLower = '\\' ↔ c = '\\' := toLower_eq_iff rfl
  fun_induction Quoting.end? quoting cs with
  | case1 => rfl
  | case2 => simp [end?, hiff]
  | case3 d ds hdoubled ih =>
    simp only [lowerChars_cons, end?, hiff, if_true, ih, hdoubled]
  | case4 d ds hdoubled =>
    simp only [lowerChars_cons, end?, hiff, if_true, hdoubled]
    rfl
  | case5 c hc hescaped => simp_all [end?]
  | case6 c hc hescaped d ds ih => simp_all [end?]
  | case7 c cs hc hescaped ih =>
    rw [lowerChars_cons, end?.eq_def]
    simp_all

theorem Quoting.measure?_lowerChars {quoting : Quoting} (hmark : quoting.mark.isAlpha = false)
    (cs : List Char) : quoting.measure? (lowerChars cs) = quoting.measure? cs := by
  cases cs with
  | nil => rfl
  | cons c cs =>
    rw [lowerChars_cons, measure?, measure?, end?_lowerChars hmark]
    simp only [toLower_eq_iff hmark]

theorem mantissa?_lowerChars (cs : List Char) : mantissa? (lowerChars cs) = mantissa? cs := by
  have hdot : ∀ c : Char, c.toLower = '.' ↔ c = '.' := toLower_eq_iff rfl
  unfold mantissa?
  rw [run_lowerChars isDecimal_toLower]
  cases hrun : run isDecimal cs with
  | zero =>
    cases cs with
    | nil => rfl
    | cons c cs =>
      by_cases hc : c = '.'
      · subst hc
        exact congrArg (fun n => (positive? n).map (· + 1)) (run_lowerChars isDecimal_toLower cs)
      · simp [hdot, hc]
  | succ n =>
    simp only [drop_lowerChars]
    cases hrest : cs.drop (n + 1) with
    | nil => rfl
    | cons d ds =>
      by_cases hd : d = '.'
      · subst hd
        exact congrArg (fun m => some (n + 1 + 1 + m)) (run_lowerChars isDecimal_toLower ds)
      · simp [hdot, hd]

theorem sign_lowerChars (cs : List Char) : sign (lowerChars cs) = sign cs := by
  have hplus : ∀ c : Char, c.toLower = '+' ↔ c = '+' := toLower_eq_iff rfl
  have hminus : ∀ c : Char, c.toLower = '-' ↔ c = '-' := toLower_eq_iff rfl
  cases cs with
  | nil => rfl
  | cons c cs =>
    by_cases hc : c = '+'
    · subst hc
      rfl
    · by_cases hc' : c = '-'
      · subst hc'
        rfl
      · simp [sign, hplus, hminus, hc, hc']

theorem exponent_lowerChars (cs : List Char) : exponent (lowerChars cs) = exponent cs := by
  cases cs with
  | nil => rfl
  | cons c cs =>
    have hletter : (c.toLower = 'e' || c.toLower = 'E' : Bool) = (c = 'e' || c = 'E' : Bool) :=
      apply_toLower (f := fun c => (c = 'e' || c = 'E' : Bool)) (by decide +kernel) c
    rw [lowerChars_cons, exponent, exponent, hletter, sign_lowerChars, drop_lowerChars,
      run_lowerChars isDecimal_toLower]

theorem number?_lowerChars (cs : List Char) : number? (lowerChars cs) = number? cs := by
  simp only [number?, mantissa?_lowerChars, drop_lowerChars, exponent_lowerChars]

theorem parameter?_lowerChars (cs : List Char) : parameter? (lowerChars cs) = parameter? cs := by
  have hquestion : ∀ c : Char, c.toLower = '?' ↔ c = '?' := toLower_eq_iff rfl
  have hdollar : ∀ c : Char, c.toLower = '$' ↔ c = '$' := toLower_eq_iff rfl
  have hcolon : ∀ c : Char, c.toLower = ':' ↔ c = ':' := toLower_eq_iff rfl
  cases cs with
  | nil => rfl
  | cons c cs =>
    by_cases hc : c = '?'
    · subst hc
      rfl
    by_cases hc' : c = '$'
    · subst hc'
      exact congrArg (fun n => (positive? n).map (· + 1)) (run_lowerChars isDecimal_toLower cs)
    by_cases hc'' : c = ':'
    · subst hc''
      cases cs with
      | nil => rfl
      | cons d ds =>
        have hmark : d.toLower = '_' ↔ d = '_' := toLower_eq_iff rfl d
        have hstart : (d.toLower.isAlpha || d.toLower = '_' : Bool) =
            (d.isAlpha || d = '_' : Bool) := by
          simp only [isAlpha_toLower, hmark]
        have hlower : ':'.toLower = ':' := by decide
        simp only [lowerChars_cons, hlower, parameter?, hstart, run_lowerChars isWordChar_toLower]
    · simp [parameter?, hquestion, hdollar, hcolon, hc, hc', hc'']

theorem isLetterVariant_toLower (upper c : Char) :
    isLetterVariant upper c.toLower = isLetterVariant upper c := by
  rw [isLetterVariant, isLetterVariant, toUpper_toLower, beq_toLower rfl, beq_toLower rfl]

theorem spelling?_lowerChars (word cs : List Char) :
    spelling? word (lowerChars cs) = spelling? word cs := by
  induction word generalizing cs with
  | nil => simp [spelling?]
  | cons u us ih =>
    cases cs with
    | nil => rfl
    | cons c cs => rw [lowerChars_cons, spelling?, spelling?, isLetterVariant_toLower, ih]

theorem phraseOfWords?_lowerChars (words : List String) (cs : List Char) :
    phraseOfWords? words (lowerChars cs) = phraseOfWords? words cs := by
  induction words generalizing cs with
  | nil => rfl
  | cons word words ih =>
    cases words with
    | nil => exact spelling?_lowerChars word.toList cs
    | cons next words =>
      rw [phraseOfWords?_cons (by simp), phraseOfWords?_cons (by simp), spelling?_lowerChars]
      simp only [drop_lowerChars, blanks?_lowerChars, ih]

theorem phrase?_lowerChars (words : List String) (cs : List Char) :
    phrase? words (lowerChars cs) = phrase? words cs := by
  have hnext : ∀ ds : List Char, (lowerChars ds).head?.any isWordChar = ds.head?.any isWordChar := by
    intro ds
    cases ds with
    | nil => rfl
    | cons d ds => exact isWordChar_toLower d
  simp only [phrase?, phraseOfWords?_lowerChars, drop_lowerChars, hnext]

theorem phraseIn?_lowerChars (phrases : List (List String)) (cs : List Char) :
    phraseIn? phrases (lowerChars cs) = phraseIn? phrases cs := by
  simp only [phraseIn?, phrase?_lowerChars]

theorem word?_lowerChars (cs : List Char) : word? (lowerChars cs) = word? cs := by
  cases cs with
  | nil => rfl
  | cons c cs =>
    have hrun := run_lowerChars (p := fun d => isWordChar d || d == '$')
      (fun d => by rw [isWordChar_toLower, beq_toLower rfl]) cs
    rw [lowerChars_cons, word?, word?, isLetter_toLower, beq_toLower rfl, hrun]

theorem isPrefixOf_lowerChars {mark : List Char} (h : mark.any Char.isAlpha = false)
    (cs : List Char) : mark.isPrefixOf (lowerChars cs) = mark.isPrefixOf cs := by
  induction mark generalizing cs with
  | nil => simp
  | cons m mark ih =>
    rw [List.any_cons, Bool.or_eq_false_iff] at h
    cases cs with
    | nil => rfl
    | cons c cs =>
      have hmark : (m == c.toLower) = (m == c) := by
        rw [BEq.comm, beq_toLower h.1, BEq.comm]
      rw [lowerChars_cons, List.isPrefixOf, List.isPrefixOf, hmark, ih h.2]

theorem markIn?_lowerChars {marks : List String}
    (h : (marks.all fun mark => !mark.toList.any Char.isAlpha) = true) (cs : List Char) :
    markIn? marks (lowerChars cs) = markIn? marks cs := by
  have hfind : (marks.find? fun mark => mark.toList.isPrefixOf (lowerChars cs)) =
      marks.find? fun mark => mark.toList.isPrefixOf cs := by
    induction marks with
    | nil => rfl
    | cons mark marks ih =>
      rw [List.all_cons, Bool.and_eq_true, Bool.not_eq_true'] at h
      rw [List.find?_cons, List.find?_cons, isPrefixOf_lowerChars h.1, ih h.2]
  rw [markIn?, hfind, markIn?]

end Pattern

namespace LexRule

open Pattern

theorem wordKind_lowerChars (word rest : List Char) :
    wordKind (lowerChars word) (lowerChars rest) = wordKind word rest := by
  have hupper : upper (String.ofList (lowerChars word)) = upper (String.ofList word) := by
    rw [← toLower_ofList, upper_toLower]
  have hdot : ((lowerChars rest).head? == some '.') = (rest.head? == some '.') :=
    head?_beq_lowerChars rfl rest
  unfold wordKind
  simp only [hdot, Keyword.isLiteral_congr hupper, Keyword.class?_congr hupper]

/-- Every rule reaches as far in a text in lower case, and yields the same kind. -/
theorem first?_lowerChars (cs : List Char) : first? (lowerChars cs) = first? cs := by
  have hrule : ∀ rule ∈ all, rule.measure? (lowerChars cs) = rule.measure? cs ∧
      ∀ word rest, rule.kind (lowerChars word) (lowerChars rest) = rule.kind word rest := by
    intro rule hrule
    simp only [all, List.mem_cons, List.not_mem_nil, or_false] at hrule
    rcases hrule with rfl | rfl | rfl | rfl | rfl | rfl | rfl | rfl | rfl | rfl | rfl | rfl | rfl |
      rfl | rfl
    · exact ⟨lineComment?_lowerChars cs, fun _ _ => rfl⟩
    · exact ⟨blockComment?_lowerChars cs, fun _ _ => rfl⟩
    · exact ⟨blanks?_lowerChars cs, fun _ _ => rfl⟩
    · exact ⟨Quoting.measure?_lowerChars rfl cs, fun _ _ => rfl⟩
    · exact ⟨Quoting.measure?_lowerChars rfl cs, fun _ _ => rfl⟩
    · exact ⟨Quoting.measure?_lowerChars rfl cs, fun _ _ => rfl⟩
    · exact ⟨number?_lowerChars cs, fun _ _ => rfl⟩
    · exact ⟨phraseIn?_lowerChars _ cs, fun _ _ => rfl⟩
    · exact ⟨phraseIn?_lowerChars _ cs, fun _ _ => rfl⟩
    · exact ⟨markIn?_lowerChars (by decide) cs, fun _ _ => rfl⟩
    · exact ⟨markIn?_lowerChars (by decide) cs, fun _ _ => rfl⟩
    · exact ⟨parameter?_lowerChars cs, fun _ _ => rfl⟩
    · exact ⟨markIn?_lowerChars (by decide) cs, fun _ _ => rfl⟩
    · exact ⟨markIn?_lowerChars (by decide) cs, fun _ _ => rfl⟩
    · exact ⟨word?_lowerChars cs, wordKind_lowerChars⟩
  have hfind : ∀ rules : List LexRule, (∀ rule ∈ rules, rule ∈ all) →
      (rules.findSome? fun rule => (rule.measure? (lowerChars cs)).map fun n =>
        (rule.kind ((lowerChars cs).take n) ((lowerChars cs).drop n), n)) =
      rules.findSome? fun rule => (rule.measure? cs).map fun n =>
        (rule.kind (cs.take n) (cs.drop n), n) := by
    intro rules hrules
    induction rules with
    | nil => rfl
    | cons rule rules ih =>
      obtain ⟨hmeasure, hkind⟩ := hrule rule (hrules rule List.mem_cons_self)
      rw [List.findSome?_cons, List.findSome?_cons, hmeasure,
        ih fun other hother => hrules other (List.mem_cons_of_mem _ hother)]
      simp only [take_lowerChars, drop_lowerChars, hkind]
  exact hfind all fun _ h => h

end LexRule

section

variable {α β γ : Type}

theorem mapError_ok (f : α → β) (c : γ) : (Except.ok c : Except α γ).mapError f = .ok c := rfl

theorem mapError_error (f : α → β) (a : α) :
    (Except.error a : Except α γ).mapError f = .error (f a) := rfl

end

/-- What is wrong and where, without the text that stands there. -/
def ParseError.place (error : ParseError) : ParseFault × Nat × Nat :=
  (error.fault, error.start, error.stop)

/-- The place of an error depends on the length of the text only. -/
theorem ParseError.place_locate_congr {first second : String}
    (h : byteLength first.toList = byteLength second.toList) (fault : ParseFault)
    (start stop : Nat) :
    (locate fault start stop first).place = (locate fault start stop second).place := by
  simp only [place, locate, h]

namespace Lexeme

open Pattern

def lower (lexeme : Lexeme) : Lexeme :=
  ⟨lexeme.kind, lexeme.text.toLower⟩

theorem faultAt_toLower (c : Char) : faultAt c.toLower = faultAt c := by
  cases hupper : c.isUpper with
  | false => rw [toLower_eq_self hupper]
  | true =>
    have hnone : ∀ d : Char, d.isAlpha = true → faultAt d = .unexpectedCharacter := by
      intro d hd
      unfold faultAt
      split <;> first | rfl | cases hd
    have halpha := isAlpha_of_isUpper hupper
    rw [hnone c halpha, hnone c.toLower (by rw [isAlpha_toLower, halpha])]

/-- The rest of a text in lower case is cut into the lexemes of the rest in lower case, or refused
at the same place. -/
theorem ofRest_lowerChars {first second : String}
    (h : byteLength first.toList = byteLength second.toList) (start : Nat) (cs : List Char) :
    (ofRest first start (lowerChars cs)).mapError ParseError.place =
      ((ofRest second start cs).map (·.map lower)).mapError ParseError.place := by
  fun_induction ofRest second start cs with
  | case1 => rw [lowerChars_nil, ofRest]; rfl
  | case2 start c cs hcomment =>
    rw [lowerChars_cons, ofRest, ← lowerChars_cons, opensComment_lowerChars,
      blockComment?_lowerChars, if_pos hcomment, h]
    exact congrArg Except.error (ParseError.place_locate_congr h _ _ _)
  | case3 start c cs hcomment kind n hfirst ih =>
    rw [lowerChars_cons, ofRest, ← lowerChars_cons, opensComment_lowerChars,
      blockComment?_lowerChars, if_neg hcomment, LexRule.first?_lowerChars, hfirst]
    simp only [take_lowerChars, drop_lowerChars]
    rw [← lowerChars_cons, byteLength_lowerChars, ← toLower_ofList]
    generalize ofRest second (start + byteLength (c :: cs.take n)) (cs.drop n) = kept at ih ⊢
    generalize ofRest first (start + byteLength (c :: cs.take n)) (lowerChars (cs.drop n)) =
      lowered at ih ⊢
    cases kept <;> cases lowered <;> simp_all [mapError_ok, mapError_error, Except.map, lower]
  | case4 start c cs hcomment hfirst =>
    rw [lowerChars_cons, ofRest, ← lowerChars_cons, opensComment_lowerChars,
      blockComment?_lowerChars, if_neg hcomment, LexRule.first?_lowerChars]
    split
    · next kind n hsome => exact absurd hsome (hfirst kind n)
    · rw [faultAt_toLower, utf8Size_toLower]
      exact congrArg Except.error (ParseError.place_locate_congr h _ _ _)

/-- A text in lower case is cut into the lexemes of the text in lower case. -/
theorem ofText_toLower (sql : String) :
    (ofText sql.toLower).mapError ParseError.place =
      ((ofText sql).map (·.map lower)).mapError ParseError.place := by
  rw [ofText, toList_toLower]
  exact ofRest_lowerChars (by rw [toList_toLower, byteLength_lowerChars]) 0 sql.toList

end Lexeme

end QueryLineage
