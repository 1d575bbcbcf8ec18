/-!
# Searching in text
-/

namespace QueryLineage.Text

/-- Whether the characters of `word` stand one after the other somewhere in the text. -/
def occursIn (word : List Char) : List Char → Bool
  | [] => word.isEmpty
  | c :: cs => word.isPrefixOf (c :: cs) || occursIn word cs

theorem occursIn_iff {word cs : List Char} : occursIn word cs = true ↔ word <:+: cs := by
  induction cs with
  | nil => simp [occursIn]
  | cons c cs ih => simp [occursIn, ih, List.infix_cons_iff]

end QueryLineage.Text
