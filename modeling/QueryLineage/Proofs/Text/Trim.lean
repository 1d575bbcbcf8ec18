import QueryLineage.Text.Blank

/-!
# Trimming

What is left of a text without the blanks at its ends, and its last character that is not a blank.
-/

namespace QueryLineage.Text

theorem dropWhile_isBlank_of_head {c : Char} (h : isBlank c = false) (cs : List Char) :
    (c :: cs).dropWhile isBlank = c :: cs :=
  List.dropWhile_cons_of_neg (by simp [h])

theorem dropWhile_isBlank_eq_self {cs : List Char} (h : ∀ c ∈ cs, isBlank c = false) :
    cs.dropWhile isBlank = cs := by
  cases cs with
  | nil => rfl
  | cons c cs => exact dropWhile_isBlank_of_head (h c List.mem_cons_self) cs

theorem trimEndChars_append (cs : List Char) :
    ∃ v, cs = trimEndChars cs ++ v ∧ ∀ c ∈ v, isBlank c = true := by
  refine ⟨(cs.reverse.takeWhile isBlank).reverse, ?_, ?_⟩
  · rw [trimEndChars, ← List.reverse_append, List.takeWhile_append_dropWhile, List.reverse_reverse]
  · intro c hc
    exact List.all_eq_true.1 List.all_takeWhile c (List.mem_reverse.1 hc)

theorem trimEndChars_concat {c : Char} (h : isBlank c = false) (cs : List Char) :
    trimEndChars (cs ++ [c]) = cs ++ [c] := by
  rw [trimEndChars, List.reverse_append, List.reverse_singleton, List.singleton_append,
    dropWhile_isBlank_of_head h, List.reverse_cons, List.reverse_reverse]

theorem trimEndChars_idem (cs : List Char) : trimEndChars (trimEndChars cs) = trimEndChars cs := by
  have hdrop : ∀ ds : List Char, (ds.dropWhile isBlank).dropWhile isBlank = ds.dropWhile isBlank := by
    intro ds
    induction ds with
    | nil => rfl
    | cons d ds ih =>
      by_cases hd : isBlank d = true
      · rw [List.dropWhile_cons_of_pos hd, ih]
      · rw [List.dropWhile_cons_of_neg hd, List.dropWhile_cons_of_neg hd]
  rw [trimEndChars, trimEndChars, List.reverse_reverse, hdrop]

theorem trimChars_eq_self {cs : List Char} (h : ∀ c ∈ cs, isBlank c = false) : trimChars cs = cs := by
  rw [trimChars, dropWhile_isBlank_eq_self h, trimEndChars,
    dropWhile_isBlank_eq_self fun c hc => h c (List.mem_reverse.1 hc), List.reverse_reverse]

theorem trim_eq_self {text : String} (h : ∀ c ∈ text.toList, isBlank c = false) :
    trim text = text := by
  rw [trim, trimChars_eq_self h, String.ofList_toList]

/-- Nothing is trimmed where there are no blanks at either end. -/
theorem trim_eq_self_of_visible {text : String}
    (hhead : ∀ c ∈ text.toList.head?, isBlank c = false)
    (hlast : ∀ c ∈ text.toList.getLast?, isBlank c = false) : trim text = text := by
  have hdrop : ∀ {cs : List Char}, (∀ c ∈ cs.head?, isBlank c = false) →
      cs.dropWhile isBlank = cs := by
    intro cs hcs
    cases cs with
    | nil => rfl
    | cons c cs => exact dropWhile_isBlank_of_head (hcs c rfl) cs
  have hreverse : ∀ c ∈ text.toList.reverse.head?, isBlank c = false := by
    rwa [List.head?_reverse]
  rw [trim, trimChars, hdrop hhead, trimEndChars, hdrop hreverse, List.reverse_reverse,
    String.ofList_toList]

/-- Nothing is trimmed between two characters that are no blanks. -/
theorem trim_eq_self_of_ends {text : String} {c d : Char} {cs : List Char}
    (htext : text.toList = c :: (cs ++ [d])) (hc : isBlank c = false) (hd : isBlank d = false) :
    trim text = text := by
  apply trim_eq_self_of_visible
  · rw [htext]
    rintro b ⟨⟩
    exact hc
  · rw [htext, ← List.cons_append, List.getLast?_concat]
    rintro b ⟨⟩
    exact hd

theorem trim_space_append (text : String) : trim (" " ++ text) = trim text := by
  have hlist : (" " ++ text).toList = ' ' :: text.toList := by simp
  rw [trim, hlist, trimChars, List.dropWhile_cons_of_pos (by decide), trim, trimChars]

theorem trim_append_space (text : String) : trim (text ++ " ") = trim text := by
  have hlist : (text ++ " ").toList = text.toList ++ [' '] := by simp
  have hspace : [' '].dropWhile isBlank = [] := by decide
  have hend : ∀ cs : List Char, trimEndChars (cs ++ [' ']) = trimEndChars cs := by
    intro cs
    rw [trimEndChars, List.reverse_append, List.reverse_singleton, List.singleton_append,
      List.dropWhile_cons_of_pos (by decide), trimEndChars]
  rw [trim, hlist, trimChars, List.dropWhile_append, hspace, trim, trimChars]
  split
  · next hnone => rw [List.isEmpty_iff.1 hnone]
  · rw [hend]

/-- The last character that is not a blank. -/
def lastVisible? (cs : List Char) : Option Char :=
  cs.reverse.find? fun c => !isBlank c

theorem getLast?_trimEndChars (cs : List Char) : (trimEndChars cs).getLast? = lastVisible? cs := by
  rw [trimEndChars, List.getLast?_reverse, lastVisible?]
  induction cs.reverse with
  | nil => rfl
  | cons c cs ih =>
    by_cases hc : isBlank c = true
    · rw [List.dropWhile_cons_of_pos hc, List.find?_cons_of_neg (by simp [hc]), ih]
    · rw [List.dropWhile_cons_of_neg hc, List.find?_cons_of_pos (by simpa using hc)]
      rfl

theorem lastVisible?_append (first second : List Char) :
    lastVisible? (first ++ second) = (lastVisible? second).or (lastVisible? first) := by
  rw [lastVisible?, List.reverse_append, List.find?_append]
  rfl

theorem mem_of_lastVisible? {cs : List Char} {c : Char} (h : lastVisible? cs = some c) : c ∈ cs :=
  List.mem_reverse.1 (List.mem_of_find?_eq_some h)

theorem lastVisible?_of_getLast? {cs : List Char} {c : Char} (h : cs.getLast? = some c)
    (hc : isBlank c = false) : lastVisible? cs = some c := by
  obtain ⟨before, rfl⟩ := List.getLast?_eq_some_iff.1 h
  rw [lastVisible?, List.reverse_append]
  exact List.find?_cons_of_pos (by simp [hc])

theorem exists_of_lastVisible? {cs : List Char} {c : Char} (h : lastVisible? cs = some c) :
    ∃ before blanks, cs = before ++ c :: blanks ∧ ∀ d ∈ blanks, isBlank d = true := by
  obtain ⟨-, blanks, before, hsplit, hblanks⟩ := List.find?_eq_some_iff_append.1 h
  refine ⟨before.reverse, blanks.reverse, ?_, fun d hd => ?_⟩
  · rw [← List.reverse_reverse cs, hsplit]
    simp
  · simpa using hblanks d (List.mem_reverse.1 hd)

theorem lastVisible?_eq_none {cs : List Char} (h : ∀ c ∈ cs, isBlank c = true) :
    lastVisible? cs = none := by
  rw [lastVisible?, List.find?_eq_none]
  intro c hc
  simp [h c (List.mem_reverse.1 hc)]

theorem lastVisible?_ne_none {cs : List Char} {c : Char} (h : c ∈ cs) (hc : isBlank c = false) :
    lastVisible? cs ≠ none := by
  intro hnone
  have hblank := List.find?_eq_none.1 hnone c (List.mem_reverse.2 h)
  simp [hc] at hblank

end QueryLineage.Text
