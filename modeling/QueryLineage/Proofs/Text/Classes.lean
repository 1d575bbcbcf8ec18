import QueryLineage.Text.Blank
import QueryLineage.Text.Digit
import QueryLineage.Text.WordChar

/-!
# Classes of characters

No blank stands inside a word, and no digit begins one. Outside ASCII this is so because the ranges of
the classes do not meet.
-/

namespace QueryLineage.Text

/-- Whether no range of one list meets a range of the other. -/
def disjointRanges (first second : List (Nat × Nat)) : Bool :=
  first.all fun range => second.all fun other => Nat.blt range.2 other.1 || Nat.blt other.2 range.1

theorem inRanges_eq_false {first second : List (Nat × Nat)} {c : Char}
    (h : disjointRanges first second = true) (hc : inRanges first c = true) :
    inRanges second c = false := by
  rw [← Bool.not_eq_true]
  intro hboth
  obtain ⟨range, hrange, hlow, hhigh⟩ := inRanges_iff.1 hc
  obtain ⟨other, hother, hlow', hhigh'⟩ := inRanges_iff.1 hboth
  have happart := List.all_eq_true.1 (List.all_eq_true.1 h range hrange) other hother
  simp only [Bool.or_eq_true, Nat.blt_eq] at happart
  omega

/-- What holds of the characters of ASCII, one after the other. -/
theorem of_ascii {p : Char → Bool} (h : (List.range 128).all (fun n => p (Char.ofNat n)) = true)
    {c : Char} (hc : c.toNat < 0x80) : p c = true := by
  have hp := List.all_eq_true.1 h c.toNat (List.mem_range.2 hc)
  rwa [Char.ofNat_toNat] at hp

/-- Outside ASCII the upper case of a single character is the character itself. -/
theorem toUpper_eq_self {c : Char} (hc : ¬ c.toNat < 0x80) : c.toUpper = c := by
  unfold Char.toUpper
  rw [dif_neg]
  rintro ⟨-, hle⟩
  exact hc (Nat.lt_of_le_of_lt (by exact hle) (by decide))

theorem forall_mem_of_all {cs : List Char} {p : Char → Prop} [DecidablePred p]
    (h : (cs.all fun c => decide (p c)) = true) : ∀ c ∈ cs, p c :=
  fun c hc => of_decide_eq_true (List.all_eq_true.1 h c hc)

def isWordStart (c : Char) : Bool :=
  isLetter c || c == '_'

def continuesWord (c : Char) : Bool :=
  isWordChar c || c == '$'

theorem continuesWord_of_isWordStart {c : Char} (h : isWordStart c = true) :
    continuesWord c = true := by
  rcases Bool.or_eq_true_iff.1 h with h | h
  · simp [continuesWord, isWordChar_of_isLetter h]
  · rw [beq_iff_eq.1 h]
    decide

theorem isDecimal_of_isWordStart {c : Char} (h : isWordStart c = true) : isDecimal c = false := by
  by_cases hc : c.toNat < 0x80
  · have hascii := of_ascii (p := fun c => !isWordStart c || !isDecimal c) (by decide +kernel) hc
    simpa [h] using hascii
  · have hline : c ≠ '_' := fun heq => hc (heq ▸ by decide)
    simp only [isWordStart, isLetter, hc, if_false, hline, beq_iff_eq, Bool.or_eq_true,
      or_false] at h
    rw [isDecimal, if_neg hc]
    exact inRanges_eq_false (by decide +kernel) h

theorem isBlank_of_continuesWord {c : Char} (h : continuesWord c = true) : isBlank c = false := by
  by_cases hc : c.toNat < 0x80
  · have hascii := of_ascii (p := fun c => !continuesWord c || !isBlank c) (by decide +kernel) hc
    simpa [h] using hascii
  · have hdollar : c ≠ '$' := fun heq => hc (heq ▸ by decide)
    simp only [continuesWord, isWordChar, isLetter, hc, if_false, hdollar, beq_iff_eq,
      Bool.or_eq_true, or_false] at h
    rcases h with h | h
    · exact inRanges_eq_false (by decide +kernel) h
    · exact inRanges_eq_false (by decide +kernel) h

end QueryLineage.Text
