import QueryLineage.Proofs.Lexeme.Word

/-!
# Whole words

A text that is one word is one lexeme, and a word before a dot is a name, unless the word is led by
`JOIN`, `LIKE` or `ILIKE`: by these letters in any case, with a dollar sign or nothing behind them.
They are phrases, phrases are looked for before words, and a dollar sign ends a phrase though it
does not end a word.
-/

namespace QueryLineage

open Text

namespace Pattern

theorem phraseIn?_eq_filter {cs : List Char} (h : ∀ c ∈ cs, isBlank c = false)
    (phrases : List (List String)) :
    phraseIn? phrases cs = phraseIn? (phrases.filter (·.length == 1)) cs := by
  induction phrases with
  | nil => rfl
  | cons words phrases ih =>
    unfold phraseIn? at ih ⊢
    match words with
    | [] => exact ih
    | [word] => rw [List.filter_cons_of_pos rfl, List.findSome?_cons, List.findSome?_cons, ih]
    | word :: next :: words =>
      have hnone : phrase? (word :: next :: words) cs = none := by
        rw [phrase?, phraseOfWords?_eq_none h]
        rfl
      rw [List.filter_cons_of_neg (by simp), List.findSome?_cons, hnone, ih]

/-- The phrases of one word, with the kinds of lexemes that they are. -/
def loneWords : List (String × Kind) :=
  [("JOIN", .keyword .generic), ("LIKE", .comparisonOperator), ("ILIKE", .comparisonOperator)]

/-- The length of the word that begins a longer one, if a dollar sign or nothing follows it there. -/
def leadLength? (word : String) (w : List Char) : Option Nat :=
  (spelling? word.toList w).filter fun n => (w.drop n).head?.all (· == '$')

/-- The phrase that leads a word, with its length. -/
def lead? (w : List Char) : Option (Kind × Nat) :=
  loneWords.findSome? fun lone => (leadLength? lone.1 w).map (lone.2, ·)

section

variable {w : List Char} (hw : ∀ c ∈ w, continuesWord c = true)
include hw

/-- Inside a word, a phrase ends with the word or before a dollar sign. -/
theorem phrase?_of_continuesWord {word : String} (hword : word.toList ≠ []) :
    phrase? [word] w = leadLength? word w := by
  have hends : ∀ n, (w.drop n).head?.any isWordChar = !(w.drop n).head?.all (· == '$') := by
    intro n
    cases hdrop : w.drop n with
    | nil => rfl
    | cons c cs =>
      have hc := hw c (List.mem_of_mem_drop (hdrop ▸ List.mem_cons_self))
      rw [List.head?_cons, Option.any_some, Option.all_some]
      by_cases hdollar : c = '$'
      · rw [hdollar]
        decide
      · have hword : isWordChar c = true := by simpa [continuesWord, hdollar] using hc
        simp [hword, hdollar]
  unfold phrase? leadLength?
  rw [phraseOfWords?]
  cases hn : spelling? word.toList w with
  | none => rfl
  | some n =>
    have hpos : n ≠ 0 := by
      rw [(spelling?_eq hn).1]
      exact fun hzero => hword (List.eq_nil_of_length_eq_zero hzero)
    simp only [bind, Option.bind_some, hends, positive?, hpos, if_false, Option.filter_some]
    cases (w.drop n).head?.all (· == '$') <;> rfl

theorem lead?_eq : lead? w = ((phraseIn? keywordPhrases w).map (Kind.keyword .generic, ·)).or
    ((phraseIn? matchPhrases w).map (Kind.comparisonOperator, ·)) := by
  have hvisible : ∀ c ∈ w, isBlank c = false := fun c hc => isBlank_of_continuesWord (hw c hc)
  have hkeywords : keywordPhrases.filter (·.length == 1) = [["JOIN"]] := by decide
  have hmatches : matchPhrases.filter (·.length == 1) = [["LIKE"], ["ILIKE"]] := by decide
  rw [phraseIn?_eq_filter hvisible keywordPhrases, phraseIn?_eq_filter hvisible matchPhrases,
    hkeywords, hmatches]
  simp only [lead?, loneWords, phraseIn?, List.findSome?_cons, List.findSome?_nil]
  rw [phrase?_of_continuesWord hw (by decide), phrase?_of_continuesWord hw (by decide),
    phrase?_of_continuesWord hw (by decide)]
  cases leadLength? "JOIN" w <;> cases leadLength? "LIKE" w <;> cases leadLength? "ILIKE" w <;> rfl

end

theorem of_lead? {w : List Char} {kind : Kind} {n : Nat} (h : lead? w = some (kind, n)) :
    n ≤ w.length ∧ kind ≠ .name := by
  obtain ⟨lone, hmem, hlone⟩ := List.exists_of_findSome?_eq_some h
  obtain ⟨m, hm, heq⟩ := Option.map_eq_some_iff.1 hlone
  obtain ⟨rfl, rfl⟩ := Prod.mk.inj heq
  have hkinds : ∀ lone ∈ loneWords, lone.2 ≠ .name := by decide
  exact ⟨(spelling?_eq (Option.filter_eq_some_iff.1 hm).1).2, hkinds lone hmem⟩

end Pattern

open Pattern

/-- What the rules read at the beginning of a word that ends with the text or before a dot. -/
theorem LexRule.first?_of_word {w t : List Char} (hw : word? w = some w.length)
    (ht : t.head?.all (· == '.') = true) :
    first? (w ++ t) = some ((lead? w).getD (wordKind w t, w.length)) := by
  obtain ⟨c, cs, rfl, hc, hcontinues⟩ := exists_of_word? hw
  have hphrases : ∀ phrases : List (List String), (phrases.all fun words =>
      words.all fun word => word.toList.all fun u => !isLetterVariant u '.') = true →
      phraseIn? phrases (c :: cs ++ t) = phraseIn? phrases (c :: cs) := by
    intro phrases hletters
    cases t with
    | nil => rw [List.append_nil]
    | cons b t =>
      obtain rfl : b = '.' := by simpa using ht
      exact phraseIn?_append (noLetterVariant_of_all hletters) (by decide) (by decide) _ t
  have hrun : run continuesWord (cs ++ t) = cs.length := by
    rw [run_append_of_forall fun d hd => hcontinues d (List.mem_cons_of_mem _ hd)]
    cases t with
    | nil => rfl
    | cons b t =>
      obtain rfl : b = '.' := by simpa using ht
      rw [run_cons, if_neg (by decide)]
      rfl
  rw [List.cons_append, first?_of_isWordStart hc, number?_eq_none hc (isDecimal_of_isWordStart hc),
    ← List.cons_append, hphrases _ (by decide +kernel), hphrases _ (by decide +kernel), hrun,
    List.take_left, List.drop_left, Option.map_none, Option.none_or, ← Option.or_assoc,
    ← lead?_eq hcontinues]
  cases lead? (c :: cs) <;> rfl

namespace Lexeme

theorem opensComment_of_isWordStart {c : Char} (hc : isWordStart c = true) (cs : List Char) :
    opensComment (c :: cs) = false := by
  have hslash : c ≠ '/' := by
    rintro rfl
    revert hc
    decide
  simp [opensComment, hslash]

/-- A word by itself is one lexeme exactly if what leads it, if anything does, is the whole word.
Before a dot it is a name exactly if nothing leads it. Where something leads it, that is the first
lexeme in both places. -/
theorem ofText_of_word {w : String} (hw : word? w.toList = some w.toList.length) :
    ((∃ kind, ofText w = .ok [⟨kind, w⟩]) ↔
      ∀ kind n, lead? w.toList = some (kind, n) → n = w.toList.length) ∧
    (∀ v lexemes, ofText (w ++ "." ++ v) = .ok lexemes →
      (lexemes.head? = some ⟨.name, w⟩ ↔ lead? w.toList = none)) ∧
    ∀ kind n, lead? w.toList = some (kind, n) → ∀ lexemes,
      (ofText w = .ok lexemes ∨ ∃ v, ofText (w ++ "." ++ v) = .ok lexemes) →
      lexemes.head? = some ⟨kind, String.ofList (w.toList.take n)⟩ := by
  have hlist : ∀ v : String, (w ++ "." ++ v).toList = w.toList ++ '.' :: v.toList := by simp
  have halone := LexRule.first?_of_word hw (t := []) rfl
  rw [List.append_nil] at halone
  have hdotted : ∀ v : String, LexRule.first? (w ++ "." ++ v).toList =
      some ((lead? w.toList).getD (.name, w.toList.length)) := by
    intro v
    rw [hlist, LexRule.first?_of_word hw rfl, LexRule.wordKind_dot]
  have hleads : ∀ kind n, lead? w.toList = some (kind, n) → ∀ lexemes,
      (ofText w = .ok lexemes ∨ ∃ v, ofText (w ++ "." ++ v) = .ok lexemes) →
      lexemes.head? = some ⟨kind, String.ofList (w.toList.take n)⟩ := by
    rintro kind n hlead lexemes (hread | ⟨v, hread⟩)
    · exact (ofText_eq_ok_iff.1 hread).head?_of_first? (by rw [halone, hlead]; rfl)
    · have hhead := (ofText_eq_ok_iff.1 hread).head?_of_first?
        ((hdotted v).trans (by rw [hlead, Option.getD_some]))
      rwa [hlist, List.take_append_of_le_length (of_lead? hlead).1] at hhead
  refine ⟨⟨?whole, ?single⟩, fun v lexemes hread => ⟨?unled, ?named⟩, hleads⟩
  case whole =>
    rintro ⟨kind, hread⟩ leading n hlead
    have hhead := hleads leading n hlead _ (Or.inl hread)
    have htext : w = String.ofList (w.toList.take n) := congrArg Lexeme.text (Option.some.inj hhead)
    have hlength := congrArg (fun text : String => text.toList.length) htext
    rw [String.toList_ofList, List.length_take] at hlength
    have hle := (of_lead? hlead).1
    omega
  case single =>
    intro hwhole
    obtain ⟨kind, hfirst⟩ : ∃ kind, LexRule.first? (w.toList ++ []) =
        some (kind, w.toList.length) := by
      rw [List.append_nil]
      cases hlead : lead? w.toList with
      | none => exact ⟨_, by rw [halone, hlead]; rfl⟩
      | some phrase =>
        obtain ⟨kind, n⟩ := phrase
        exact ⟨kind, by rw [halone, hlead, ← hwhole kind n hlead]; rfl⟩
    obtain ⟨c, cs, hcs, hc, -⟩ := exists_of_word? hw
    have hopens : opensComment (w.toList ++ []) = false := by
      rw [List.append_nil, hcs]
      exact opensComment_of_isWordStart hc cs
    have hread := Reads.lexeme (by rw [hcs]; exact List.cons_ne_nil _ _) hopens hfirst Reads.nil
    rw [List.append_nil, String.ofList_toList] at hread
    exact ⟨kind, ofText_eq_ok_iff.2 hread⟩
  case unled =>
    intro hname
    cases hlead : lead? w.toList with
    | none => rfl
    | some phrase =>
      obtain ⟨kind, n⟩ := phrase
      rw [hleads kind n hlead lexemes (Or.inr ⟨v, hread⟩)] at hname
      exact absurd (congrArg Lexeme.kind (Option.some.inj hname)) (of_lead? hlead).2
  case named =>
    intro hnone
    have hhead := (ofText_eq_ok_iff.1 hread).head?_of_first?
      ((hdotted v).trans (by rw [hnone, Option.getD_none]))
    rwa [hlist, List.take_left, String.ofList_toList] at hhead

/-- A name that begins like `JOIN` and holds a dollar sign before `LIKE` is led by neither. -/
theorem ofText_of_word_joinedLike : word? "joined$like".toList = some "joined$like".toList.length ∧
    (∃ kind, ofText "joined$like" = .ok [⟨kind, "joined$like"⟩]) ∧
    ∀ v lexemes, ofText ("joined$like" ++ "." ++ v) = .ok lexemes →
      lexemes.head? = some ⟨.name, "joined$like"⟩ := by
  have hword : word? "joined$like".toList = some "joined$like".toList.length := by decide +kernel
  have hlead : lead? "joined$like".toList = none := by decide +kernel
  obtain ⟨hwhole, hnamed, -⟩ := ofText_of_word hword
  refine ⟨hword, hwhole.2 ?_, fun v lexemes hread => (hnamed v lexemes hread).2 hlead⟩
  intro kind n h
  rw [hlead] at h
  cases h

/-- Words are split before a dollar sign, and are no names before a dot, where `JOIN` leads them. -/
theorem not_ofText_of_word_join :
    (¬ ∀ w : String, word? w.toList = some w.toList.length →
      ∃ kind, ofText w = .ok [⟨kind, w⟩]) ∧
    ¬ ∀ (w v : String) (lexemes : List Lexeme), word? w.toList = some w.toList.length →
      ofText (w ++ "." ++ v) = .ok lexemes → lexemes.head? = some ⟨.name, w⟩ := by
  constructor
  · intro hall
    obtain ⟨kind, hread⟩ := hall "JOIN$1" (by decide +kernel)
    have hsplit : (ofText "JOIN$1").toOption =
        some [⟨.keyword .generic, "JOIN"⟩, ⟨.literal, "$1"⟩] := by
      decide +kernel
    rw [hread] at hsplit
    have hlength : some 1 = some 2 := congrArg (Option.map List.length) hsplit
    exact absurd hlength (by decide)
  · intro hall
    have hread : (ofText ("join" ++ "." ++ "x")).toOption =
        some [⟨.keyword .generic, "join"⟩, ⟨.punctuation, "."⟩, ⟨.name, "x"⟩] := by
      decide +kernel
    cases h : ofText ("join" ++ "." ++ "x") with
    | error error =>
      rw [h] at hread
      cases hread
    | ok lexemes =>
      have hhead := hall "join" "x" lexemes (by decide +kernel) h
      obtain rfl := Option.some.inj (h ▸ hread)
      exact absurd (congrArg (Option.map Lexeme.kind) hhead) (by decide)

end Lexeme

end QueryLineage
