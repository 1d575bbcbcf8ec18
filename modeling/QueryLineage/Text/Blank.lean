import QueryLineage.Text.Ranges

/-!
# White space

The characters of the Unicode property `White_Space`, and the operations that look at text
through them: trimming, and reading a text as the list of its words.
-/

namespace QueryLineage.Text

/-- The ranges of `White_Space`. -/
def blankRanges : List (Nat × Nat) :=
  [(0x0009, 0x000D), (0x0020, 0x0020), (0x0085, 0x0085), (0x00A0, 0x00A0), (0x1680, 0x1680),
    (0x2000, 0x200A), (0x2028, 0x2029), (0x202F, 0x202F), (0x205F, 0x205F), (0x3000, 0x3000)]

def isBlank (c : Char) : Bool :=
  inRanges blankRanges c

theorem isBlank_of_isWhitespace {c : Char} (h : c.isWhitespace = true) : isBlank c = true := by
  simp only [Char.isWhitespace, Bool.or_eq_true, decide_eq_true_eq, or_assoc] at h
  rcases h with rfl | rfl | rfl | rfl <;> decide

def trimEndChars (cs : List Char) : List Char :=
  (cs.reverse.dropWhile isBlank).reverse

/-- The characters without the blanks at either end. -/
def trimChars (cs : List Char) : List Char :=
  trimEndChars (cs.dropWhile isBlank)

/-- The pieces between blanks, empty ones included. -/
def pieces : List Char → List (List Char)
  | [] => [[]]
  | c :: cs =>
    if isBlank c then [] :: pieces cs
    else match pieces cs with
      | [] => [[c]]
      | piece :: rest => (c :: piece) :: rest

/-- The words of a text: its maximal runs without blanks. -/
def wordsOfChars (cs : List Char) : List (List Char) :=
  (pieces cs).filter (! ·.isEmpty)

def trim (s : String) : String :=
  String.ofList (trimChars s.toList)

@[simp] theorem toList_trim (s : String) : (trim s).toList = trimChars s.toList := by
  simp [trim]

/-- The words of the text, with one space between each two. -/
def collapse (s : String) : String :=
  " ".intercalate ((wordsOfChars s.toList).map String.ofList)

end QueryLineage.Text
