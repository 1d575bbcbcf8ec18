import QueryLineage.Analysis.Walk
import QueryLineage.Proofs.Text.Classes
import QueryLineage.Proofs.Text.Trim

/-!
# The text of a query

A table shows the text of its query without what ends it. Where the parentheses of the text itself
have partners, the parenthesis behind it is taken away again; so is the semicolon behind a text that
does not end with one.
-/

namespace QueryLineage.Walk

open Text

/-- Neither a blank nor a mark that ends a query is a letter of the keyword. -/
theorem toUpper_not_mem {c : Char} (h : isBlank c = true ∨ c = ')' ∨ c = ';') :
    c.toUpper ∉ ['S', 'E', 'L', 'E', 'C', 'T'] := by
  by_cases hc : c.toNat < 0x80
  · have hascii := of_ascii (p := fun c => !(isBlank c || c == ')' || c == ';') ||
      !(['S', 'E', 'L', 'E', 'C', 'T'].contains c.toUpper)) (by decide +kernel) hc
    have hany : (isBlank c || c == ')' || c == ';') = true := by simpa [or_assoc] using h
    simpa [hany] using hascii
  · rw [toUpper_eq_self hc]
    intro hmem
    apply hc
    simp only [List.mem_cons, List.not_mem_nil, or_false] at hmem
    rcases hmem with rfl | rfl | rfl | rfl | rfl | rfl <;> decide

theorem take_six_append (cs : List Char) {blanks : List Char}
    (hblanks : ∀ c ∈ blanks, isBlank c = true)
    {mark : Char} (hmark : mark = ')' ∨ mark = ';') :
    ((cs ++ (blanks ++ [mark])).take 6).map Char.toUpper = ['S', 'E', 'L', 'E', 'C', 'T'] ↔
      (cs.take 6).map Char.toUpper = ['S', 'E', 'L', 'E', 'C', 'T'] := by
  by_cases hlength : 6 ≤ cs.length
  · rw [List.take_append_of_le_length hlength]
  · constructor
    · intro heq
      obtain ⟨c, rest, hrest⟩ := List.exists_cons_of_ne_nil
        (List.append_ne_nil_of_right_ne_nil blanks (List.cons_ne_nil mark []))
      have hc : isBlank c = true ∨ c = ')' ∨ c = ';' := by
        have hmem : c ∈ blanks ++ [mark] := by simp [hrest]
        rcases List.mem_append.1 hmem with hmem | hmem
        · exact Or.inl (hblanks c hmem)
        · exact Or.inr (List.mem_singleton.1 hmem ▸ hmark)
      have hmem : c ∈ (cs ++ (blanks ++ [mark])).take 6 := by
        rw [hrest, List.take_append, List.mem_append]
        right
        obtain ⟨k, hk⟩ :=
          Nat.exists_eq_succ_of_ne_zero (Nat.sub_ne_zero_of_lt (Nat.lt_of_not_le hlength))
        rw [hk]
        simp
      have hupper : c.toUpper ∈ ((cs ++ (blanks ++ [mark])).take 6).map Char.toUpper :=
        List.mem_map_of_mem hmem
      rw [heq] at hupper
      exact absurd hupper (toUpper_not_mem hc)
    · intro heq
      have hsix := congrArg List.length heq
      rw [List.length_map, List.length_take] at hsix
      simp only [List.length_cons, List.length_nil] at hsix
      omega

theorem count_eq_zero {blanks : List Char} (hblanks : ∀ c ∈ blanks, isBlank c = true) {c : Char}
    (hc : isBlank c = false) : blanks.count c = 0 := by
  rw [List.count_eq_zero]
  intro hmem
  rw [hblanks c hmem] at hc
  cases hc

theorem count_trimEndChars {c : Char} (hc : isBlank c = false) (cs : List Char) :
    (trimEndChars cs).count c = cs.count c := by
  obtain ⟨blanks, hcs, hblanks⟩ := trimEndChars_append cs
  conv => rhs; rw [hcs, List.count_append, count_eq_zero hblanks hc, Nat.add_zero]

theorem trimChars_concat {mark : Char} (hmark : isBlank mark = false) (cs : List Char) :
    trimChars (cs ++ [mark]) = cs.dropWhile isBlank ++ [mark] := by
  have hdrop : (cs ++ [mark]).dropWhile isBlank = cs.dropWhile isBlank ++ [mark] := by
    rw [List.dropWhile_append]
    split
    · next hempty => rw [List.isEmpty_iff.1 hempty, dropWhile_isBlank_of_head hmark, List.nil_append]
    · rfl
  rw [trimChars, hdrop, trimEndChars_concat hmark]

theorem isSelect_concat (us : List Char) {mark : Char} (hmark : mark = ')' ∨ mark = ';') :
    ((us ++ [mark]).take 6).map Char.toUpper = ['S', 'E', 'L', 'E', 'C', 'T'] ↔
      ((trimEndChars us).take 6).map Char.toUpper = ['S', 'E', 'L', 'E', 'C', 'T'] := by
  obtain ⟨blanks, hus, hblanks⟩ := trimEndChars_append us
  have hshown := take_six_append (trimEndChars us) hblanks hmark
  rwa [← List.append_assoc, ← hus] at hshown

theorem getLast?_trimChars_ne {cs : List Char} {mark : Char} (hlast : lastVisible? cs ≠ some mark) :
    (trimEndChars (cs.dropWhile isBlank)).getLast? ≠ some mark := by
  intro hmark
  rw [getLast?_trimEndChars] at hmark
  apply hlast
  rw [← List.takeWhile_append_dropWhile (p := isBlank) (l := cs), lastVisible?_append, hmark]
  rfl

/-- The text of a query that is closed by a parenthesis is that of the query by itself. -/
theorem selectText?_append_closing {text : String}
    (hcount : text.toList.count '(' = text.toList.count ')')
    (hlast : lastVisible? text.toList ≠ some ';') :
    selectText? (text ++ ")") = selectText? text := by
  have hmark : ")".toList = [')'] := by decide
  have hselect : "SELECT".toList = ['S', 'E', 'L', 'E', 'C', 'T'] := by decide
  have hvisible : isBlank ')' = false := by decide
  unfold selectText?
  rw [String.toList_append, hmark, hselect]
  generalize text.toList = cs at hcount hlast ⊢
  dsimp only
  rw [trimChars_concat hvisible, trimChars]
  have hend := getLast?_trimChars_ne hlast
  have hfront : ∀ c ∈ cs.takeWhile isBlank, isBlank c = true :=
    fun c hc => List.all_eq_true.1 List.all_takeWhile c hc
  rw [← List.takeWhile_append_dropWhile (p := isBlank) (l := cs), List.count_append,
    List.count_append, count_eq_zero hfront (by decide), count_eq_zero hfront (by decide),
    Nat.zero_add, Nat.zero_add] at hcount
  generalize cs.dropWhile isBlank = us at hcount hend ⊢
  have hkeyword := isSelect_concat us (Or.inl rfl : ')' = ')' ∨ ')' = ';')
  by_cases hselected : ((trimEndChars us).take 6).map Char.toUpper = ['S', 'E', 'L', 'E', 'C', 'T']
  · have hclosed : (us ++ [')']).count '(' < (us ++ [')']).count ')' := by
      rw [List.count_append, List.count_append, hcount]
      simp
    have hopen : ¬ (trimEndChars us).count '(' < (trimEndChars us).count ')' := by
      rw [count_trimEndChars (by decide), count_trimEndChars (by decide), hcount]
      exact Nat.lt_irrefl _
    have hmarks : ¬ some ')' = some ';' := by decide
    rw [if_pos (hkeyword.2 hselected), if_pos hselected, if_neg hend, trimEndChars_idem,
      if_neg hopen, List.getLast?_concat, if_neg hmarks, trimEndChars_concat hvisible,
      if_pos hclosed, List.getLast?_concat, if_pos rfl, List.dropLast_concat]
  · rw [if_neg fun h => hselected (hkeyword.1 h), if_neg hselected]

/-- The text of a statement does not show the semicolon behind it, unless it ends with one of its
own. -/
theorem selectText?_append_semicolon {text : String}
    (hlast : lastVisible? text.toList ≠ some ';') :
    selectText? (text ++ ";") = selectText? text := by
  have hmark : ";".toList = [';'] := by decide
  have hselect : "SELECT".toList = ['S', 'E', 'L', 'E', 'C', 'T'] := by decide
  unfold selectText?
  rw [String.toList_append, hmark, hselect]
  generalize text.toList = cs at hlast ⊢
  dsimp only
  rw [trimChars_concat (by decide), trimChars]
  have hend := getLast?_trimChars_ne hlast
  have hkeyword := isSelect_concat (cs.dropWhile isBlank) (Or.inr rfl : ';' = ')' ∨ ';' = ';')
  by_cases hselected : ((trimEndChars (cs.dropWhile isBlank)).take 6).map Char.toUpper =
      ['S', 'E', 'L', 'E', 'C', 'T']
  · rw [if_pos (hkeyword.2 hselected), if_pos hselected, List.getLast?_concat, if_pos rfl,
      List.dropLast_concat, if_neg hend, trimEndChars_idem]
  · rw [if_neg fun h => hselected (hkeyword.1 h), if_neg hselected]

/-! ## Which texts are shown as they are

The mark behind a text is told from the text itself by its last character and by counting
parentheses, wherever these stand. So some texts lose their end, and others keep the mark. -/

/-- The text ends with a parenthesis that is taken for the one behind it. -/
def LosesClosing (cs : List Char) : Prop :=
  cs.count '(' < cs.count ')' ∧ lastVisible? cs = some ')'

instance (cs : List Char) : Decidable (LosesClosing cs) :=
  inferInstanceAs (Decidable (_ ∧ _))

/-- What is left without a parenthesis at the end for which there is no other one. -/
def withoutClosing (cs : List Char) : List Char :=
  if cs.count '(' < cs.count ')' then
    trimEndChars (if cs.getLast? = some ')' then cs.dropLast else cs)
  else cs

theorem length_trimEndChars_le (cs : List Char) : (trimEndChars cs).length ≤ cs.length := by
  obtain ⟨blanks, hcs, -⟩ := trimEndChars_append cs
  conv => rhs; rw [hcs, List.length_append]
  exact Nat.le_add_right _ _

theorem length_trimEndChars_dropLast_lt {cs : List Char} (hne : cs ≠ []) :
    (trimEndChars cs.dropLast).length < cs.length := by
  have hle := length_trimEndChars_le cs.dropLast
  rw [List.length_dropLast] at hle
  have hpos := List.length_pos_iff.2 hne
  omega

theorem length_withoutClosing_le (cs : List Char) : (withoutClosing cs).length ≤ cs.length := by
  unfold withoutClosing
  split
  · refine Nat.le_trans (length_trimEndChars_le _) ?_
    split
    · simp
    · exact Nat.le_refl _
  · exact Nat.le_refl _

theorem trimEndChars_ne_nil {cs : List Char} {c : Char} (h : lastVisible? cs = some c) :
    trimEndChars cs ≠ [] := by
  rw [← List.getLast?_isSome, getLast?_trimEndChars, h]
  rfl

theorem withoutClosing_trimEndChars_eq_iff (cs : List Char) :
    withoutClosing (trimEndChars cs) = trimEndChars cs ↔ ¬ LosesClosing cs := by
  have hopening : (trimEndChars cs).count '(' = cs.count '(' := count_trimEndChars (by decide) cs
  have hclosing : (trimEndChars cs).count ')' = cs.count ')' := count_trimEndChars (by decide) cs
  rw [withoutClosing, hopening, hclosing, getLast?_trimEndChars, LosesClosing]
  by_cases hcount : cs.count '(' < cs.count ')'
  · rw [if_pos hcount]
    by_cases hlast : lastVisible? cs = some ')'
    · rw [if_pos hlast]
      refine iff_of_false (fun heq => ?_) fun h => h ⟨hcount, hlast⟩
      have hlt := length_trimEndChars_dropLast_lt (trimEndChars_ne_nil hlast)
      rw [heq] at hlt
      exact Nat.lt_irrefl _ hlt
    · rw [if_neg hlast, trimEndChars_idem]
      exact iff_of_true rfl fun h => hlast h.2
  · rw [if_neg hcount]
    exact iff_of_true rfl fun h => hcount h.1

theorem withoutClosing_concat_eq_iff (cs : List Char) :
    withoutClosing (cs ++ [')']) = trimEndChars cs ↔ cs.count '(' ≤ cs.count ')' := by
  have hopening : (cs ++ [')']).count '(' = cs.count '(' := by simp
  have hclosing : (cs ++ [')']).count ')' = cs.count ')' + 1 := by simp
  rw [withoutClosing, hopening, hclosing, List.getLast?_concat, if_pos rfl, List.dropLast_concat]
  by_cases hcount : cs.count '(' ≤ cs.count ')'
  · rw [if_pos (Nat.lt_succ_of_le hcount)]
    exact iff_of_true rfl hcount
  · rw [if_neg fun h => hcount (Nat.le_of_lt_succ h)]
    refine iff_of_false (fun heq => ?_) hcount
    have hle := length_trimEndChars_le cs
    rw [← heq, List.length_append, List.length_singleton] at hle
    omega

section

variable {cs : List Char} (h : (cs.take 6).map Char.toUpper = "SELECT".toList)
include h

theorem six_le_length : 6 ≤ cs.length := by
  have hlength := congrArg List.length h
  rw [List.length_map, List.length_take] at hlength
  have hsix : "SELECT".toList.length = 6 := by decide
  omega

theorem trimChars_of_select : trimChars cs = trimEndChars cs := by
  have hlength := six_le_length h
  cases cs with
  | nil => simp at hlength
  | cons c cs =>
    have hc : isBlank c = false := by
      rw [← Bool.not_eq_true]
      intro hblank
      refine toUpper_not_mem (Or.inl hblank) ?_
      have hmem : c.toUpper ∈ ((c :: cs).take 6).map Char.toUpper := by simp
      rw [h] at hmem
      exact hmem
    rw [trimChars, dropWhile_isBlank_of_head hc]

theorem take_six_trimEndChars : ((trimEndChars cs).take 6).map Char.toUpper = "SELECT".toList := by
  refine (isSelect_concat cs (Or.inl rfl : ')' = ')' ∨ ')' = ';')).1 ?_
  rw [List.take_append_of_le_length (six_le_length h)]
  exact h

end

section

variable {text : String} (h : (text.toList.take 6).map Char.toUpper = "SELECT".toList)
include h

theorem selectText?_of_select :
    selectText? text =
      let cs := trimEndChars text.toList
      some (String.ofList (withoutClosing
        (trimEndChars (if cs.getLast? = some ';' then cs.dropLast else cs)))) := by
  unfold selectText?
  rw [trimChars_of_select h]
  exact if_pos (take_six_trimEndChars h)

theorem trim_of_select : trim text = String.ofList (trimEndChars text.toList) := by
  rw [trim, trimChars_of_select h]

/-- A text behind which no mark stands is shown as it is, unless it ends with a semicolon or seems
to end with the parenthesis behind it. -/
theorem selectText?_eq_trim_iff :
    selectText? text = some (trim text) ↔
      lastVisible? text.toList ≠ some ';' ∧ ¬ LosesClosing text.toList := by
  rw [selectText?_of_select h, trim_of_select h]
  dsimp only
  rw [getLast?_trimEndChars, Option.some.injEq, String.ofList_inj]
  by_cases hlast : lastVisible? text.toList = some ';'
  · rw [if_pos hlast]
    refine iff_of_false (fun heq => ?_) fun hnot => hnot.1 hlast
    have hle := length_withoutClosing_le (trimEndChars (trimEndChars text.toList).dropLast)
    have hlt := length_trimEndChars_dropLast_lt (trimEndChars_ne_nil hlast)
    rw [heq] at hle
    exact Nat.lt_irrefl _ (Nat.lt_of_le_of_lt hle hlt)
  · rw [if_neg hlast, trimEndChars_idem, withoutClosing_trimEndChars_eq_iff]
    exact ⟨fun hcloses => ⟨hlast, hcloses⟩, And.right⟩

theorem select_append (mark : String) :
    ((text ++ mark).toList.take 6).map Char.toUpper = "SELECT".toList := by
  rw [String.toList_append, List.take_append_of_le_length (six_le_length h)]
  exact h

/-- The semicolon behind a text is not shown, whatever the text ends with. -/
theorem selectText?_append_semicolon_eq_trim_iff :
    selectText? (text ++ ";") = some (trim text) ↔ ¬ LosesClosing text.toList := by
  have hmark : (text ++ ";").toList = text.toList ++ [';'] := String.toList_append
  rw [selectText?_of_select (select_append h ";"), trim_of_select h, hmark]
  dsimp only
  rw [trimEndChars_concat (by decide), List.getLast?_concat, if_pos rfl, List.dropLast_concat,
    Option.some.injEq, String.ofList_inj, withoutClosing_trimEndChars_eq_iff]

/-- The parenthesis behind a text is not shown exactly if the text does not have more opening
parentheses than closing ones. -/
theorem selectText?_append_closing_eq_trim_iff :
    selectText? (text ++ ")") = some (trim text) ↔
      text.toList.count '(' ≤ text.toList.count ')' := by
  have hmark : (text ++ ")").toList = text.toList ++ [')'] := String.toList_append
  have hmarks : ¬ some ')' = some ';' := by decide
  rw [selectText?_of_select (select_append h ")"), trim_of_select h, hmark]
  dsimp only
  rw [trimEndChars_concat (by decide), List.getLast?_concat, if_neg hmarks,
    trimEndChars_concat (by decide), Option.some.injEq, String.ofList_inj,
    withoutClosing_concat_eq_iff]

end

end QueryLineage.Walk
