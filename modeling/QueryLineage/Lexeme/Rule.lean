import QueryLineage.Lexeme.Keyword
import QueryLineage.Lexeme.Basic
import QueryLineage.Lexeme.Fault
import QueryLineage.Lexeme.Pattern

/-!
# Cutting a query into lexemes

At every place the first rule that applies says how far the next lexeme reaches and of which kind
it is. Comments therefore come before the operators they begin with, and keywords of several words
before single words. Where no rule applies, the query is refused at that place.
-/

namespace QueryLineage

open Text Pattern

/-- A form of lexeme, and the kind that the characters of a lexeme have in front of the rest. -/
structure LexRule where
  measure? : List Char → Option Nat
  kind : List Char → List Char → Kind

namespace LexRule

def uniform (kind : Kind) (measure? : List Char → Option Nat) : LexRule :=
  ⟨measure?, fun _ _ => kind⟩

/-- The kind of a word. Right before a dot every word is a name. -/
def wordKind (word rest : List Char) : Kind :=
  let text := String.ofList word
  if rest.head? == some '.' then .name
  else if Keyword.isLiteral text then .literal
  else (Keyword.class? text).elim .name .keyword

/-- The rules, the first that applies being the one that counts. -/
def all : List LexRule :=
  [uniform .comment lineComment?,
    uniform .comment blockComment?,
    uniform .whitespace blanks?,
    uniform .literal singleQuotes.measure?,
    uniform .name doubleQuotes.measure?,
    uniform .name backQuotes.measure?,
    uniform .literal number?,
    uniform (.keyword .generic) (phraseIn? keywordPhrases),
    uniform .comparisonOperator (phraseIn? matchPhrases),
    uniform .comparisonOperator (markIn? comparisonMarks),
    uniform .operator (markIn? operatorMarks),
    uniform .literal parameter?,
    uniform .wildcard (markIn? ["*"]),
    uniform .punctuation (markIn? punctuationMarks),
    ⟨word?, wordKind⟩]

/-- The kind and the length of the lexeme at the beginning of the text. -/
def first? (cs : List Char) : Option (Kind × Nat) :=
  all.findSome? fun rule =>
    (rule.measure? cs).map fun n => (rule.kind (cs.take n) (cs.drop n), n)

@[simp] theorem wordKind_dot (word rest : List Char) : wordKind word ('.' :: rest) = .name := by
  simp [wordKind]

end LexRule

namespace Lexeme

/-- What is wrong with a text that no rule applies to, judged by its first character. -/
def faultAt : Char → ParseFault
  | '\'' => .unterminatedString
  | '"' => .unterminatedName
  | '`' => .unterminatedName
  | _ => .unexpectedCharacter

/-- The lexemes of the rest `cs` of the query `sql`, which begins at byte `start`. -/
def ofRest (sql : String) (start : Nat) : List Char → Except ParseError (List Lexeme)
  | [] => .ok []
  | c :: cs =>
    if opensComment (c :: cs) && (blockComment? (c :: cs)).isNone then
      .error (.locate .unterminatedComment start (byteLength sql.toList) sql)
    else
      match LexRule.first? (c :: cs) with
      | some (kind, n + 1) =>
        (ofRest sql (start + byteLength (c :: cs.take n)) (cs.drop n)).map
          (⟨kind, String.ofList (c :: cs.take n)⟩ :: ·)
      | _ => .error (.locate (faultAt c) start (start + c.utf8Size) sql)
termination_by cs => cs.length

def ofText (sql : String) : Except ParseError (List Lexeme) :=
  ofRest sql 0 sql.toList

theorem textAll_of_ofRest {sql : String} {start : Nat} {cs : List Char} {lexemes : List Lexeme}
    (h : ofRest sql start cs = .ok lexemes) : textAll lexemes = String.ofList cs := by
  fun_induction ofRest sql start cs generalizing lexemes with
  | case1 => cases h; simp
  | case2 => cases h
  | case3 start c cs _ kind n _ ih =>
    cases hrest : ofRest sql (start + byteLength (c :: cs.take n)) (cs.drop n) with
    | error e =>
      rw [hrest] at h
      cases h
    | ok rest =>
      rw [hrest] at h
      cases h
      rw [textAll_cons, ih hrest, ← String.ofList_append, List.cons_append, List.take_append_drop]
  | case4 => cases h

/-- No character of a query is lost. -/
theorem textAll_of_ofText {sql : String} {lexemes : List Lexeme}
    (h : ofText sql = .ok lexemes) : textAll lexemes = sql := by
  simpa using textAll_of_ofRest h

end Lexeme

end QueryLineage
