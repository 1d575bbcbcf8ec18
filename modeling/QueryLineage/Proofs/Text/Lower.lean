import QueryLineage.Text.Blank
import QueryLineage.Text.Bytes
import QueryLineage.Text.Digit
import QueryLineage.Text.Search
import QueryLineage.Text.Upper
import QueryLineage.Text.WordChar

/-!
# Lower case

The letters of ASCII in lower case. No class of characters tells a capital of ASCII from its small
letter, and a text has the same upper case before and after; so whatever is asked of a text through
these has the same answer for the text in lower case.
-/

namespace QueryLineage.Text

theorem toLower_eq_self {c : Char} (h : c.isUpper = false) : c.toLower = c :=
  dif_neg (of_decide_eq_false h)

theorem isAlpha_of_isUpper {c : Char} (h : c.isUpper = true) : c.isAlpha = true :=
  Bool.or_eq_true_iff.2 (Or.inl h)

/-- What is the same of every capital and its small letter is the same of every character and its
lower case. -/
theorem apply_toLower {α : Type} [DecidableEq α] {f : Char → α}
    (h : ((List.range 91).all fun n => f (Char.ofNat n).toLower = f (Char.ofNat n)) = true)
    (c : Char) : f c.toLower = f c := by
  cases hc : c.isUpper with
  | false => rw [toLower_eq_self hc]
  | true =>
    have hle : c.toNat ≤ 90 := (of_decide_eq_true hc).2
    have heq := List.all_eq_true.1 h c.toNat (List.mem_range.2 (Nat.lt_succ_of_le hle))
    rw [Char.ofNat_toNat] at heq
    exact of_decide_eq_true heq

/-- What is asked of one character is the same of its lower case. All questions are put to the
capitals at once. -/
theorem classes_toLower (c : Char) :
    isBlank c.toLower = isBlank c ∧ isDecimal c.toLower = isDecimal c ∧
      isLetter c.toLower = isLetter c ∧ isWordChar c.toLower = isWordChar c ∧
      c.toLower.utf8Size = c.utf8Size ∧ c.toLower.isAlpha = c.isAlpha ∧
      upperChar c.toLower = upperChar c ∧ c.toLower.toUpper = c.toUpper := by
  have h := apply_toLower (f := fun c => ((isBlank c, isDecimal c, isLetter c, isWordChar c),
    c.utf8Size, c.isAlpha, upperChar c, c.toUpper)) (by decide +kernel) c
  simpa only [Prod.mk.injEq, and_assoc] using h

@[simp] theorem isBlank_toLower (c : Char) : isBlank c.toLower = isBlank c :=
  (classes_toLower c).1

@[simp] theorem isDecimal_toLower (c : Char) : isDecimal c.toLower = isDecimal c :=
  (classes_toLower c).2.1

@[simp] theorem isLetter_toLower (c : Char) : isLetter c.toLower = isLetter c :=
  (classes_toLower c).2.2.1

@[simp] theorem isWordChar_toLower (c : Char) : isWordChar c.toLower = isWordChar c :=
  (classes_toLower c).2.2.2.1

@[simp] theorem utf8Size_toLower (c : Char) : c.toLower.utf8Size = c.utf8Size :=
  (classes_toLower c).2.2.2.2.1

theorem isAlpha_toLower (c : Char) : c.toLower.isAlpha = c.isAlpha :=
  (classes_toLower c).2.2.2.2.2.1

@[simp] theorem upperChar_toLower (c : Char) : upperChar c.toLower = upperChar c :=
  (classes_toLower c).2.2.2.2.2.2.1

theorem toUpper_toLower (c : Char) : c.toLower.toUpper = c.toUpper :=
  (classes_toLower c).2.2.2.2.2.2.2

/-- A character that is no letter of ASCII is the lower case of itself only. -/
theorem toLower_eq_iff {mark : Char} (h : mark.isAlpha = false) (c : Char) :
    c.toLower = mark ↔ c = mark := by
  cases hupper : c.isUpper with
  | false => rw [toLower_eq_self hupper]
  | true =>
    have halpha := isAlpha_of_isUpper hupper
    have hne : ∀ d : Char, d.isAlpha = true → d ≠ mark := by
      rintro d hd rfl
      rw [h] at hd
      cases hd
    exact iff_of_false (hne _ (by rw [isAlpha_toLower, halpha])) (hne _ halpha)

def lowerChars (cs : List Char) : List Char :=
  cs.map Char.toLower

@[simp] theorem lowerChars_nil : lowerChars [] = [] := rfl

@[simp] theorem lowerChars_cons (c : Char) (cs : List Char) :
    lowerChars (c :: cs) = c.toLower :: lowerChars cs := rfl

@[simp] theorem lowerChars_append (cs ds : List Char) :
    lowerChars (cs ++ ds) = lowerChars cs ++ lowerChars ds :=
  List.map_append

@[simp] theorem drop_lowerChars (n : Nat) (cs : List Char) :
    (lowerChars cs).drop n = lowerChars (cs.drop n) :=
  List.map_drop.symm

@[simp] theorem take_lowerChars (n : Nat) (cs : List Char) :
    (lowerChars cs).take n = lowerChars (cs.take n) :=
  List.map_take.symm

@[simp] theorem toList_toLower (s : String) : s.toLower.toList = lowerChars s.toList :=
  String.toList_map

@[simp] theorem toLower_ofList (cs : List Char) :
    (String.ofList cs).toLower = String.ofList (lowerChars cs) := by
  rw [← String.toList_inj]
  simp

@[simp] theorem toLower_empty : "".toLower = "" := by
  rw [← String.toList_inj]
  simp

@[simp] theorem toLower_append (s t : String) : (s ++ t).toLower = s.toLower ++ t.toLower := by
  rw [← String.toList_inj]
  simp

theorem toLower_eq_mark_iff {mark : String} (h : mark.toList.any Char.isAlpha = false) (s : String) :
    s.toLower = mark ↔ s = mark := by
  have hchars : ∀ cs ms : List Char, ms.any Char.isAlpha = false →
      (lowerChars cs = ms ↔ cs = ms) := by
    intro cs
    induction cs with
    | nil => simp
    | cons c cs ih =>
      intro ms hms
      cases ms with
      | nil => simp
      | cons m ms =>
        rw [List.any_cons, Bool.or_eq_false_iff] at hms
        rw [lowerChars_cons, List.cons.injEq, List.cons.injEq, toLower_eq_iff hms.1, ih ms hms.2]
  rw [← String.toList_inj, toList_toLower, hchars s.toList mark.toList h, String.toList_inj]

@[simp] theorem byteLength_lowerChars (cs : List Char) :
    byteLength (lowerChars cs) = byteLength cs := by
  induction cs with
  | nil => rfl
  | cons c cs ih => simp [ih]

@[simp] theorem upperChars_lowerChars (cs : List Char) :
    upperChars (lowerChars cs) = upperChars cs := by
  simp [upperChars, lowerChars, List.flatMap_map]

@[simp] theorem upper_toLower (s : String) : upper s.toLower = upper s := by
  rw [upper, toList_toLower, upperChars_lowerChars, upper]

/-- Which characters stand in a text that are no letters of ASCII. -/
theorem contains_lowerChars {mark : Char} (h : mark.isAlpha = false) (cs : List Char) :
    (lowerChars cs).contains mark = cs.contains mark := by
  induction cs with
  | nil => rfl
  | cons c cs ih =>
    have hmark : (mark == c.toLower) = (mark == c) := by
      rw [Bool.eq_iff_iff, beq_iff_eq, beq_iff_eq, eq_comm, toLower_eq_iff h, eq_comm]
    rw [lowerChars_cons, List.contains_cons, List.contains_cons, ih, hmark]

theorem pieces_lowerChars (cs : List Char) :
    pieces (lowerChars cs) = (pieces cs).map lowerChars := by
  induction cs with
  | nil => rfl
  | cons c cs ih =>
    rw [lowerChars_cons, pieces, pieces, isBlank_toLower, ih]
    split
    · rfl
    · cases pieces cs <;> rfl

theorem wordsOfChars_lowerChars (cs : List Char) :
    wordsOfChars (lowerChars cs) = (wordsOfChars cs).map lowerChars := by
  have hempty : (fun word : List Char => !word.isEmpty) ∘ lowerChars =
      fun word : List Char => !word.isEmpty := by
    funext word
    cases word <;> rfl
  rw [wordsOfChars, pieces_lowerChars, List.filter_map, hempty, wordsOfChars]

/-- Keywords are known by their upper case, whatever the case of their letters. -/
@[simp] theorem upper_collapse_toLower (s : String) :
    upper (collapse s.toLower) = upper (collapse s) := by
  have hspace : " ".toLower = " " := (toLower_ofList [' ']).trans (by decide)
  have hjoin : ∀ words : List (List Char),
      " ".intercalate ((words.map lowerChars).map String.ofList) =
        (" ".intercalate (words.map String.ofList)).toLower := by
    intro words
    induction words with
    | nil => simp
    | cons word words ih =>
      cases words with
      | nil => simp
      | cons next words =>
        simp only [List.map_cons] at ih ⊢
        rw [String.intercalate_cons_cons, String.intercalate_cons_cons, ih, toLower_append,
          toLower_append, toLower_ofList, hspace]
  rw [collapse, toList_toLower, wordsOfChars_lowerChars, hjoin, upper_toLower, collapse]

end QueryLineage.Text
