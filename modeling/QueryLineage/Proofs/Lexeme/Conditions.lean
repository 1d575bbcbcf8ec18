import QueryLineage.Proofs.Lexeme.Enclosed

/-!
# Conditions inside queries

How the text of conditions is read behind an `ON` and behind a `WHERE`: the lexemes before it are
always the same, and its own are those that it has behind a blank.
-/

namespace QueryLineage

open Text

/-- A query with the conditions behind the `ON` of its join. -/
def joinedOn (conditions : String) : String :=
  "SELECT * FROM a JOIN b ON " ++ conditions

/-- A query with the conditions in its `WHERE`. -/
def restrictedBy (conditions : String) : String :=
  "SELECT * FROM a WHERE " ++ conditions

theorem toList_joinedOn (conditions : String) : (joinedOn conditions).toList =
    "SELECT".toList ++ ' ' :: '*' :: ' ' :: ("FROM".toList ++ ' ' :: ("a".toList ++
      ' ' :: ("JOIN".toList ++ ' ' :: ("b".toList ++ ' ' :: ("ON".toList ++
        ' ' :: conditions.toList))))) := by
  have hbefore : "SELECT * FROM a JOIN b ON ".toList =
      "SELECT".toList ++ ' ' :: '*' :: ' ' :: ("FROM".toList ++ ' ' :: ("a".toList ++
        ' ' :: ("JOIN".toList ++ ' ' :: ("b".toList ++ ' ' :: ("ON".toList ++ [' ']))))) := by decide
  change ("SELECT * FROM a JOIN b ON " ++ conditions).toList = _
  rw [String.toList_append, hbefore]
  simp only [List.append_assoc, List.cons_append, List.nil_append]

theorem toList_restrictedBy (conditions : String) : (restrictedBy conditions).toList =
    "SELECT".toList ++ ' ' :: '*' :: ' ' :: ("FROM".toList ++ ' ' :: ("a".toList ++
      ' ' :: ("WHERE".toList ++ ' ' :: conditions.toList))) := by
  have hbefore : "SELECT * FROM a WHERE ".toList =
      "SELECT".toList ++ ' ' :: '*' :: ' ' :: ("FROM".toList ++ ' ' :: ("a".toList ++
        ' ' :: ("WHERE".toList ++ [' ']))) := by decide
  change ("SELECT * FROM a WHERE " ++ conditions).toList = _
  rw [String.toList_append, hbefore]
  simp only [List.append_assoc, List.cons_append, List.nil_append]

namespace Lexeme

def selectStarOn : List Lexeme :=
  selectStarFrom ++ [⟨.name, "a"⟩, space, ⟨.keyword .generic, "JOIN"⟩, space, ⟨.name, "b"⟩, space,
    ⟨.keyword .generic, "ON"⟩]

def selectStarWhere : List Lexeme :=
  selectStarFrom ++ [⟨.name, "a"⟩, space, ⟨.keyword .generic, "WHERE"⟩]

section

variable {rest : List Char} {lexemes : List Lexeme} (h : Reads (' ' :: rest) lexemes)
include h

theorem Reads.firstSource :
    Reads ("a".toList ++ ' ' :: rest) (⟨.name, "a"⟩ :: lexemes) :=
  Reads.wordOfKind (word_of_decide (by decide +kernel)) (by decide +kernel) (by decide +kernel) h

theorem Reads.secondSource :
    Reads ("b".toList ++ ' ' :: rest) (⟨.name, "b"⟩ :: lexemes) :=
  Reads.wordOfKind (word_of_decide (by decide +kernel)) (by decide +kernel) (by decide +kernel) h

theorem Reads.joinKeyword :
    Reads ("JOIN".toList ++ ' ' :: rest) (⟨.keyword .generic, "JOIN"⟩ :: lexemes) := by
  have hword : "JOIN".toList = ['J', 'O', 'I', 'N'] := by decide
  rw [hword]
  exact Reads.lexeme (by simp) rfl rfl h

theorem Reads.onKeyword :
    Reads ("ON".toList ++ ' ' :: rest) (⟨.keyword .generic, "ON"⟩ :: lexemes) :=
  Reads.wordOfKind (word_of_decide (by decide +kernel)) (by decide +kernel) (by decide +kernel) h

theorem Reads.whereKeyword :
    Reads ("WHERE".toList ++ ' ' :: rest) (⟨.keyword .generic, "WHERE"⟩ :: lexemes) :=
  Reads.wordOfKind (word_of_decide (by decide +kernel)) (by decide +kernel) (by decide +kernel) h

end

section

variable {conditions : String} {lexemes : List Lexeme}
  (h : ofText (" " ++ conditions) = .ok lexemes)
include h

theorem reads_behind_blank : Reads (' ' :: conditions.toList) lexemes := by
  have hread := ofText_eq_ok_iff.1 h
  rwa [String.toList_append] at hread

theorem ofText_joinedOn : ofText (joinedOn conditions) = .ok (selectStarOn ++ lexemes) := by
  rw [ofText_eq_ok_iff, toList_joinedOn]
  apply Reads.selectStarFrom (by simp; decide)
  apply Reads.firstSource
  apply Reads.space (by simp; decide)
  apply Reads.joinKeyword
  apply Reads.space (by simp; decide)
  apply Reads.secondSource
  apply Reads.space (by simp; decide)
  exact Reads.onKeyword (reads_behind_blank h)

theorem ofText_restrictedBy :
    ofText (restrictedBy conditions) = .ok (selectStarWhere ++ lexemes) := by
  rw [ofText_eq_ok_iff, toList_restrictedBy]
  apply Reads.selectStarFrom (by simp; decide)
  apply Reads.firstSource
  apply Reads.space (by simp; decide)
  exact Reads.whereKeyword (reads_behind_blank h)

end

end Lexeme

end QueryLineage
