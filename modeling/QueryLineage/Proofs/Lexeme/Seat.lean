import QueryLineage.Proofs.Graph.Numbered
import QueryLineage.Proofs.Lexeme.Enclosed
import QueryLineage.Proofs.Text.Trim

/-!
# Lexemes in their places

A row of lexemes that were read from one text shows a word only where one of its lexemes is that
word, since no lexeme ends inside a word. The row may be any part of all the lexemes.
-/

namespace QueryLineage

open Text Pattern

namespace LexRule

theorem exists_rule_of_first? {cs : List Char} {kind : Kind} {n : Nat}
    (h : first? cs = some (kind, n)) :
    ∃ rule ∈ all, rule.measure? cs = some n ∧ rule.kind (cs.take n) (cs.drop n) = kind := by
  obtain ⟨rule, hrule, hmeasure⟩ := List.exists_of_findSome?_eq_some h
  obtain ⟨m, hm, heq⟩ := Option.map_eq_some_iff.1 hmeasure
  obtain ⟨hkind, rfl⟩ := Prod.mk.inj heq
  exact ⟨rule, hrule, hm, hkind⟩

theorem wordKind_cases (word rest : List Char) :
    wordKind word rest = .name ∨ wordKind word rest = .literal ∨
      ∃ keywordClass, wordKind word rest = .keyword keywordClass := by
  unfold wordKind
  dsimp only
  split
  · exact Or.inl rfl
  · split
    · exact Or.inr (Or.inl rfl)
    · cases Keyword.class? (String.ofList word) with
      | none => exact Or.inl rfl
      | some keywordClass => exact Or.inr (Or.inr ⟨keywordClass, rfl⟩)

theorem filler_of_first? {cs : List Char} {kind : Kind} {n : Nat}
    (h : first? cs = some (kind, n)) :
    (kind = .whitespace → blanks? cs = some n) ∧
      (kind = .comment → lineComment? cs = some n ∨ blockComment? cs = some n) := by
  obtain ⟨rule, hrule, hmeasure, rfl⟩ := exists_rule_of_first? h
  simp only [all, List.mem_cons, List.not_mem_nil, or_false] at hrule
  rcases hrule with rfl | rfl | rfl | hrule
  · exact ⟨fun hkind => Kind.noConfusion hkind, fun _ => Or.inl hmeasure⟩
  · exact ⟨fun hkind => Kind.noConfusion hkind, fun _ => Or.inr hmeasure⟩
  · exact ⟨fun _ => hmeasure, fun hkind => Kind.noConfusion hkind⟩
  · have hother : ∀ word rest, rule.kind word rest ≠ .whitespace ∧ rule.kind word rest ≠ .comment := by
      intro word rest
      rcases hrule with rfl | rfl | rfl | rfl | rfl | rfl | rfl | rfl | rfl | rfl | rfl | rfl
      case inr.inr.inr.inr.inr.inr.inr.inr.inr.inr.inr =>
        rcases wordKind_cases word rest with hword | hword | ⟨keywordClass, hword⟩ <;>
          simp [hword]
      all_goals exact ⟨Kind.noConfusion, Kind.noConfusion⟩
    exact ⟨fun hkind => absurd hkind (hother _ _).1, fun hkind => absurd hkind (hother _ _).2⟩

theorem kind_of_isBlank {c : Char} {cs : List Char} {kind : Kind} {n : Nat}
    (hc : isBlank c = true) (h : first? (c :: cs) = some (kind, n)) : kind = .whitespace := by
  have hdash : c ≠ '-' := by
    rintro rfl
    revert hc
    decide
  have hhash : c ≠ '#' := by
    rintro rfl
    revert hc
    decide
  have hslash : c ≠ '/' := by
    rintro rfl
    revert hc
    decide
  have hline : lineComment? (c :: cs) = none := by simp [lineComment?, hdash, hhash]
  have hblock : blockComment? (c :: cs) = none := by simp [blockComment?, hslash]
  have hblanks : blanks? (c :: cs) = some (run isBlank cs + 1) := by
    simp [blanks?, run_cons, hc]
  simp only [first?, all, uniform, List.findSome?_cons, hline, hblock, hblanks, Option.map_none,
    Option.map_some, Option.some.injEq, Prod.mk.injEq] at h
  exact h.1.symm

end LexRule

namespace Lexeme

/-- What is known of a lexeme where it stands before another one, if it stands before one: what was
read there, up to the next character at least. -/
structure Sits (lexeme : Lexeme) (next? : Option Lexeme) : Prop where
  nonempty : lexeme.text.toList ≠ []
  blank : lexeme.kind = .whitespace → ∀ c ∈ lexeme.text.toList, isBlank c = true
  visible : lexeme.kind ≠ .whitespace → ∀ c ∈ lexeme.text.toList.head?, isBlank c = false
  comment : lexeme.kind = .comment → ∀ c ∈ lexeme.text.toList.head?, isWordStart c = false
  read : lexeme.kind ≠ .whitespace → lexeme.kind ≠ .comment → ∃ rest,
    LexRule.first? (lexeme.text.toList ++ rest) =
      some (lexeme.kind, lexeme.text.toList.length) ∧
    ∀ next ∈ next?, next.kind ≠ .whitespace → rest.head? = next.text.toList.head?

/-- Every lexeme of the row stands where it was read. -/
inductive Seated : List Lexeme → Prop
  | nil : Seated []
  | cons {lexeme : Lexeme} {lexemes : List Lexeme} (hhead : Sits lexeme lexemes.head?)
      (htail : Seated lexemes) : Seated (lexeme :: lexemes)

theorem Sits.none {lexeme : Lexeme} {next? : Option Lexeme} (h : Sits lexeme next?) :
    Sits lexeme none where
  nonempty := h.nonempty
  blank := h.blank
  visible := h.visible
  comment := h.comment
  read hblank hcomment := by
    obtain ⟨rest, hfirst, -⟩ := h.read hblank hcomment
    exact ⟨rest, hfirst, by simp⟩

theorem Seated.of_append_left {before after : List Lexeme} (h : Seated (before ++ after)) :
    Seated before := by
  induction before with
  | nil => exact .nil
  | cons lexeme before ih =>
    cases h with
    | cons hhead htail =>
      refine .cons ?_ (ih htail)
      cases before with
      | nil => exact hhead.none
      | cons next before => exact hhead

theorem Seated.of_append_right {before after : List Lexeme} (h : Seated (before ++ after)) :
    Seated after := by
  induction before with
  | nil => exact h
  | cons lexeme before ih =>
    cases h with
    | cons _ htail => exact ih htail

theorem Seated.of_part {row lexemes : List Lexeme} (h : Seated lexemes) (hrow : row <:+: lexemes) :
    Seated row := by
  obtain ⟨before, after, rfl⟩ := hrow
  exact h.of_append_left.of_append_right

theorem Seated.exists_sits {row : List Lexeme} (h : Seated row) {lexeme : Lexeme}
    (hlexeme : lexeme ∈ row) : ∃ next?, Sits lexeme next? := by
  induction h with
  | nil => cases hlexeme
  | cons hhead _ ih =>
    rcases List.mem_cons.1 hlexeme with rfl | hlexeme
    · exact ⟨_, hhead⟩
    · exact ih hlexeme

/-- The lexemes of a text stand where they were read. -/
theorem Reads.seated {cs : List Char} {lexemes : List Lexeme} (h : Reads cs lexemes) :
    Seated lexemes := by
  induction h with
  | nil => exact .nil
  | @cons c cs kind n lexemes hcomment hfirst hrest ih =>
    have hle : n ≤ cs.length := Nat.le_of_succ_le_succ (LexRule.le_length_of_first? hfirst)
    have htext : (String.ofList (c :: cs.take n)).toList = c :: cs.take n := String.toList_ofList
    have hfiller := LexRule.filler_of_first? hfirst
    refine .cons ⟨by simp, ?_, ?_, ?_, ?_⟩ ih
    · intro hkind d hd
      have hrun := positive?_eq_some (hfiller.1 hkind)
      have hbegins := List.prefix_iff_eq_take.1 (List.takeWhile_prefix (l := c :: cs) isBlank)
      rw [htext, ← List.take_succ_cons, hrun] at hd
      rw [run, ← hbegins] at hd
      exact List.all_eq_true.1 List.all_takeWhile d hd
    · intro hkind d hd
      rw [htext] at hd
      obtain rfl : c = d := Option.some.inj hd
      rw [← Bool.not_eq_true]
      exact fun hblank => hkind (LexRule.kind_of_isBlank hblank hfirst)
    · intro hkind d hd
      rw [htext] at hd
      obtain rfl : c = d := Option.some.inj hd
      rcases hfiller.2 hkind with h | h
      · unfold lineComment? at h
        split at h
        · next heq =>
          rw [(List.cons.inj heq).1]
          decide
        · next heq =>
          rw [(List.cons.inj heq).1]
          decide
        · cases h
      · unfold blockComment? at h
        split at h
        · next heq =>
          rw [(List.cons.inj heq).1]
          decide
        · cases h
    · intro _ _
      refine ⟨cs.drop n, ?_, ?_⟩
      · dsimp only
        rw [htext, List.cons_append, List.take_append_drop, hfirst, List.length_cons,
          List.length_take, Nat.min_eq_left hle]
      · intro next hnext _
        generalize cs.drop n = ds at hrest
        cases hrest with
        | nil => cases hnext
        | cons _ _ _ =>
          obtain rfl := Option.some.inj hnext
          simp

section

variable {row : List Lexeme}

/-- A row that shows something has a first lexeme that is not blank. -/
theorem Seated.exists_head (h : Seated row) {w : List Char} (hw : w ≠ [])
    (htext : trimChars (textAll row).toList = w) :
    ∃ before lexeme after v, row = before ++ lexeme :: after ∧
      (∀ other ∈ before, other.kind = .whitespace) ∧ lexeme.kind ≠ .whitespace ∧
      Sits lexeme after.head? ∧ Seated after ∧
      lexeme.text.toList ++ (textAll after).toList = w ++ v ∧ ∀ c ∈ v, isBlank c = true := by
  induction h with
  | nil =>
    rw [← htext] at hw
    exact absurd rfl hw
  | @cons lexeme lexemes hhead htail ih =>
    rw [textAll_cons, String.toList_append] at htext
    by_cases hkind : lexeme.kind = .whitespace
    · rw [trimChars, List.dropWhile_append_of_pos (hhead.blank hkind)] at htext
      obtain ⟨before, other, after, v, rfl, hbefore, hother⟩ := ih htext
      refine ⟨lexeme :: before, other, after, v, rfl, ?_, hother⟩
      intro first hfirst
      rcases List.mem_cons.1 hfirst with rfl | hfirst
      · exact hkind
      · exact hbefore first hfirst
    · obtain ⟨c, cs, hcs⟩ := List.exists_cons_of_ne_nil hhead.nonempty
      have hvisible : isBlank c = false := hhead.visible hkind c (by simp [hcs])
      have hdrop : (lexeme.text.toList ++ (textAll lexemes).toList).dropWhile isBlank =
          lexeme.text.toList ++ (textAll lexemes).toList := by
        rw [hcs, List.cons_append, List.dropWhile_cons_of_neg (by simp [hvisible])]
      rw [trimChars, hdrop] at htext
      obtain ⟨v, hv, hblank⟩ :=
        trimEndChars_append (lexeme.text.toList ++ (textAll lexemes).toList)
      rw [htext] at hv
      exact ⟨[], lexeme, lexemes, v, rfl, by simp, hkind, hhead, htail, hv, hblank⟩

/-- Where the row shows a word, one of its lexemes is that word, if none can reach beyond it. -/
theorem Sits.text_eq {lexeme : Lexeme} {after : List Lexeme} {u z : List Char}
    (h : Sits lexeme after.head?) (hafter : Seated after) (hkind : lexeme.kind ≠ .whitespace)
    (hu : Unbroken u) (htext : lexeme.text.toList ++ (textAll after).toList = u ++ z)
    (hstop : ∀ e es rest kind, e :: es <+: z →
      LexRule.first? (u ++ e :: es ++ rest) ≠ some (kind, (u ++ e :: es).length)) :
    lexeme.text.toList = u ∧ lexeme.kind ≠ .comment := by
  obtain ⟨c, cs, hcs⟩ := List.exists_cons_of_ne_nil h.nonempty
  obtain ⟨c', us, rfl, hc', -⟩ := hu.start
  have hcomment : lexeme.kind ≠ .comment := by
    intro hcomment
    have hstart := h.comment hcomment c (by simp [hcs])
    rw [hcs] at htext
    obtain ⟨rfl, -⟩ := List.cons.inj htext
    rw [hc'] at hstart
    cases hstart
  refine ⟨?_, hcomment⟩
  obtain ⟨rest, hfirst, hnext⟩ := h.read hkind hcomment
  rcases List.append_eq_append_iff.1 htext with ⟨as, has, hrest⟩ | ⟨bs, hbs, hrest⟩
  · cases as with
    | nil => simpa using has.symm
    | cons d as =>
      -- the lexeme ends inside the word, whose next character another lexeme begins with
      have hd : continuesWord d = true := hu.continues d (by rw [has]; simp)
      cases hafter with
      | nil => simp at hrest
      | @cons next lexemes hnextSits _ =>
        obtain ⟨e, es, hes⟩ := List.exists_cons_of_ne_nil hnextSits.nonempty
        rw [textAll_cons, String.toList_append, hes] at hrest
        obtain ⟨rfl, -⟩ := List.cons.inj hrest
        have hnot : next.kind ≠ .whitespace := by
          intro hblank
          have hisBlank := hnextSits.blank hblank e (by simp [hes])
          rw [isBlank_of_continuesWord hd] at hisBlank
          cases hisBlank
        have hrestHead := hnext next rfl hnot
        rw [hes, List.head?_cons] at hrestHead
        obtain ⟨rest, rfl⟩ := List.head?_eq_some_iff.1 hrestHead
        have hbegins : lexeme.text.toList ++ [e] <+: c' :: us := ⟨as, by rw [has]; simp⟩
        exact absurd hfirst (hu.first?_ne_of_prefix h.nonempty hbegins rest lexeme.kind)
  · cases bs with
    | nil => simpa using hbs
    | cons e es =>
      rw [hbs] at hfirst
      exact absurd hfirst (hstop e es rest lexeme.kind ⟨_, hrest.symm⟩)

/-- A row that shows a word has that word among its lexemes. -/
theorem Seated.exists_text_eq (h : Seated row) {w : String} (hw : Word w.toList)
    (htext : trim (textAll row) = w) : ∃ lexeme ∈ row, lexeme.text = w := by
  have hne : w.toList ≠ [] := by
    obtain ⟨c, cs, hlist, -⟩ := hw.start
    simp [hlist]
  obtain ⟨before, lexeme, after, v, rfl, -, hkind, hsits, hafter, hshown, hblank⟩ :=
    h.exists_head hne (by rw [← toList_trim, htext])
  have heq := hsits.text_eq hafter hkind hw.unbroken hshown fun e es rest kind hbegins =>
    hw.first?_ne_of_blank (by simp) (fun d hd => hblank d (hbegins.subset hd)) rest kind
  exact ⟨lexeme, by simp, String.toList_inj.1 heq.1⟩

end

theorem unbroken_word (origin : Origin) : Unbroken origin.word.toList := by
  cases origin with
  | select => exact unbroken_of_decide (by decide +kernel)
  | join => exact unbroken_of_decide (by decide +kernel)
  | table => exact unbroken_of_decide (by decide +kernel)

/-- Before a dash, the word of an origin is a keyword. -/
theorem exists_first?_word (origin : Origin) : ∃ keywordClass, ∀ cs : List Char,
    LexRule.first? (origin.word.toList ++ '-' :: cs) =
      some (.keyword keywordClass, origin.word.toList.length) := by
  have hphrases (phrases : List (List String)) (hletters : (phrases.all fun words =>
      words.all fun word => word.toList.all fun u => !isLetterVariant u '-') = true)
      (w cs : List Char) : phraseIn? phrases (w ++ '-' :: cs) = phraseIn? phrases w :=
    phraseIn?_append (noLetterVariant_of_all hletters) (by decide) (by decide) w cs
  have hword (c : Char) (w cs : List Char) (hw : Word (c :: w)) {keywordClass : KeywordClass}
      (hkind : LexRule.wordKind (c :: w) [] = .keyword keywordClass) :
      LexRule.first? (c :: w ++ '-' :: cs) = some (.keyword keywordClass, (c :: w).length) := by
    have hdash := LexRule.wordKind_append (c :: w) [] (b := '-') (by decide) cs
    rw [List.nil_append] at hdash
    rw [hw.first?_append (by decide), hdash, hkind]
    · rw [hphrases _ (by decide +kernel), hw.keyword]
    · rw [hphrases _ (by decide +kernel), hw.comparison]
  cases origin with
  | select =>
    exact ⟨.dml, fun cs =>
      hword _ _ cs (word_of_decide (by decide +kernel)) (by decide +kernel)⟩
  | join =>
    refine ⟨.generic, fun cs => ?_⟩
    have hphrase : phraseIn? keywordPhrases (Origin.join.word.toList ++ '-' :: cs) = some 4 := by
      rw [hphrases _ (by decide +kernel)]
      decide +kernel
    obtain ⟨c, w, hlist, hc, hdigit⟩ := (unbroken_word .join).start
    rw [hlist, List.cons_append] at hphrase ⊢
    rw [LexRule.first?_of_isWordStart hc, number?_eq_none hc hdigit, hphrase, ← hlist]
    rfl
  | table =>
    exact ⟨.generic, fun cs =>
      hword _ _ cs (word_of_decide (by decide +kernel)) (by decide +kernel)⟩

/-- A row that shows a generated name begins with the keyword of its origin. -/
theorem Seated.exists_head_of_numbered {row : List Lexeme} (h : Seated row) {origin : Origin}
    {n : Nat} (htext : trim (textAll row) = origin.numbered n) :
    ∃ keywordClass before after, row = before ++ ⟨.keyword keywordClass, origin.word⟩ :: after ∧
      ∀ other ∈ before, other.kind = .whitespace := by
  obtain ⟨before, lexeme, after, v, rfl, hbefore, hkind, hsits, hafter, hshown, -⟩ :=
    h.exists_head (w := origin.word.toList ++ '-' :: (toString n).toList) (by simp)
      (by rw [← toList_trim, htext, origin.toList_numbered])
  obtain ⟨keywordClass, hword⟩ := exists_first?_word origin
  rw [List.append_assoc, List.cons_append] at hshown
  obtain ⟨heq, hcomment⟩ := hsits.text_eq hafter hkind (unbroken_word origin) hshown
    fun e es rest kind hbegins => by
      obtain ⟨other, hother⟩ := hbegins
      obtain ⟨rfl, -⟩ := List.cons.inj hother
      rw [List.append_assoc, List.cons_append, hword]
      simp
  rw [heq, List.append_cancel_left_eq] at hshown
  obtain ⟨rest, hfirst, hnext⟩ := hsits.read hkind hcomment
  have hdash : rest.head? = some '-' := by
    cases hafter with
    | nil => cases hshown
    | @cons next lexemes hnextSits _ =>
      obtain ⟨d, ds, hds⟩ := List.exists_cons_of_ne_nil hnextSits.nonempty
      rw [textAll_cons, String.toList_append, hds] at hshown
      obtain ⟨rfl, -⟩ := List.cons.inj hshown
      have hnot : next.kind ≠ .whitespace := by
        intro hblank
        have hisBlank := hnextSits.blank hblank '-' (by simp [hds])
        revert hisBlank
        decide
      rw [hnext next rfl hnot, hds, List.head?_cons]
  obtain ⟨cs, rfl⟩ := List.head?_eq_some_iff.1 hdash
  rw [heq, hword] at hfirst
  refine ⟨keywordClass, before, after, ?_, hbefore⟩
  have hlexeme : lexeme = ⟨.keyword keywordClass, origin.word⟩ := by
    obtain ⟨kind, text⟩ := lexeme
    obtain rfl : text = origin.word := String.toList_inj.1 heq
    obtain ⟨rfl, -⟩ := Prod.mk.inj (Option.some.inj hfirst)
    rfl
  rw [hlexeme]

end Lexeme

end QueryLineage
