import QueryLineage.Lexeme.Kind

/-!
# Lexemes

The smallest parts of a query: a kind and the text it was read from. Nothing is dropped when a
query is cut into lexemes, so the texts of all of them together are the query.
-/

namespace QueryLineage

structure Lexeme where
  kind : Kind
  text : String
  deriving DecidableEq, Repr

namespace Lexeme

/-- The text that the lexemes were read from. -/
def textAll (lexemes : List Lexeme) : String :=
  String.join (lexemes.map Lexeme.text)

@[simp] theorem textAll_nil : textAll [] = "" := rfl

@[simp] theorem textAll_cons (lexeme : Lexeme) (lexemes : List Lexeme) :
    textAll (lexeme :: lexemes) = lexeme.text ++ textAll lexemes := by
  simp [textAll]

@[simp] theorem textAll_append (first second : List Lexeme) :
    textAll (first ++ second) = textAll first ++ textAll second := by
  induction first with
  | nil => simp
  | cons lexeme first ih => simp [ih, String.append_assoc]

end Lexeme

end QueryLineage
