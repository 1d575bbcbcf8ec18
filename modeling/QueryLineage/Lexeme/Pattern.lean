import QueryLineage.Text.Blank
import QueryLineage.Text.Digit
import QueryLineage.Text.WordChar

/-!
# The forms of lexemes

How far each form of lexeme reaches at the beginning of a text. A form answers with the number of
characters that it takes, which is positive, or with `none` where it does not apply.
-/

namespace QueryLineage.Pattern

open Text

def positive? (n : Nat) : Option Nat :=
  if n = 0 then none else some n

@[simp] theorem positive?_zero : positive? 0 = none := rfl

@[simp] theorem positive?_succ (n : Nat) : positive? (n + 1) = some (n + 1) := rfl

def run (p : Char → Bool) (cs : List Char) : Nat :=
  (cs.takeWhile p).length

@[simp] theorem run_nil (p : Char → Bool) : run p [] = 0 := rfl

theorem run_cons (p : Char → Bool) (c : Char) (cs : List Char) :
    run p (c :: cs) = if p c then run p cs + 1 else 0 := by
  by_cases h : p c <;> simp [run, h]

theorem run_le_length (p : Char → Bool) (cs : List Char) : run p cs ≤ cs.length :=
  (List.takeWhile_sublist p).length_le

/-- A carriage return, a line feed, or the first followed by the second. -/
def lineBreak : List Char → Nat
  | '\r' :: '\n' :: _ => 2
  | '\r' :: _ => 1
  | '\n' :: _ => 1
  | _ => 0

/-- The rest of the line with its line break. -/
def restOfLine (cs : List Char) : Nat :=
  let n := run (fun c => c != '\r' && c != '\n') cs
  n + lineBreak (cs.drop n)

/-- A comment to the end of the line, opened by `--` or `#`. -/
def lineComment? : List Char → Option Nat
  | '-' :: '-' :: cs => some (restOfLine cs + 2)
  | '#' :: cs => some (restOfLine cs + 1)
  | _ => none

/-- As far as the first `*/`. -/
def commentEnd? : List Char → Option Nat
  | [] => none
  | c :: cs =>
    if c = '*' && cs.head? == some '/' then some 2 else (commentEnd? cs).map (· + 1)

def opensComment : List Char → Bool
  | '/' :: '*' :: _ => true
  | _ => false

/-- A comment from `/*` to the next `*/`. -/
def blockComment? : List Char → Option Nat
  | '/' :: '*' :: cs => (commentEnd? cs).map (· + 2)
  | _ => none

def blanks? (cs : List Char) : Option Nat :=
  positive? (run isBlank cs)

/-- A way to quote text: the mark on both ends, whether a doubled mark stands for one mark of the
text, and whether a backslash hides the character after it. -/
structure Quoting where
  mark : Char
  doubled : Bool
  escapes : Bool

/-- As far as the closing mark. Of two marks in a row both belong to the text, unless the text then
has no end; in that case the first of them closes it. -/
def Quoting.end? (quoting : Quoting) : List Char → Option Nat
  | [] => none
  | c :: cs =>
    if c = quoting.mark then
      match cs with
      | [] => some 1
      | d :: ds =>
        if quoting.doubled && d = quoting.mark then
          ((quoting.end? ds).map (· + 2)).or (some 1)
        else some 1
    else if quoting.escapes && c = '\\' then
      match cs with
      | [] => none
      | _ :: ds => (quoting.end? ds).map (· + 2)
    else (quoting.end? cs).map (· + 1)

def Quoting.measure? (quoting : Quoting) : List Char → Option Nat
  | [] => none
  | c :: cs => if c = quoting.mark then (quoting.end? cs).map (· + 1) else none

def singleQuotes : Quoting := ⟨'\'', true, true⟩

def doubleQuotes : Quoting := ⟨'"', true, false⟩

/-- Quoted names whose mark cannot be written inside them. -/
def backQuotes : Quoting := ⟨'`', false, false⟩

/-- Digits with at most one point among, before or after them. -/
def mantissa? (cs : List Char) : Option Nat :=
  match run isDecimal cs, cs with
  | 0, '.' :: ds => (positive? (run isDecimal ds)).map (· + 1)
  | 0, _ => none
  | n, _ =>
    match cs.drop n with
    | '.' :: ds => some (n + 1 + run isDecimal ds)
    | _ => some n

def sign : List Char → Nat
  | '+' :: _ => 1
  | '-' :: _ => 1
  | _ => 0

/-- The letter `e`, a sign or none, and digits; without digits there is no exponent. -/
def exponent : List Char → Nat
  | [] => 0
  | c :: cs =>
    if c = 'e' || c = 'E' then
      match run isDecimal (cs.drop (sign cs)) with
      | 0 => 0
      | n => 1 + sign cs + n
    else 0

def number? (cs : List Char) : Option Nat :=
  (mantissa? cs).map fun n => n + exponent (cs.drop n)

/-- A place for a value: `?`, `$1` or `:name`. -/
def parameter? : List Char → Option Nat
  | '?' :: _ => some 1
  | '$' :: cs => (positive? (run isDecimal cs)).map (· + 1)
  | ':' :: c :: cs => if c.isAlpha || c = '_' then some (run isWordChar cs + 2) else none
  | _ => none

/-- Whether `c` is the letter `upper` of ASCII regardless of case. The long `s` and the Kelvin sign
are variants of the letters that they look like. -/
def isLetterVariant (upper c : Char) : Bool :=
  c.toUpper == upper || (upper == 'S' && c == '\u017F') || (upper == 'K' && c == '\u212A')

/-- The length of the word, which is given in upper case, if the text begins with it. -/
def spelling? : List Char → List Char → Option Nat
  | [], _ => some 0
  | _ :: _, [] => none
  | u :: us, c :: cs => if isLetterVariant u c then (spelling? us cs).map (· + 1) else none

/-- The words of a phrase in order, with blanks between them. -/
def phraseOfWords? : List String → List Char → Option Nat
  | [], _ => none
  | [word], cs => spelling? word.toList cs
  | word :: words, cs => do
    let n ← spelling? word.toList cs
    let blanks ← blanks? (cs.drop n)
    let rest ← phraseOfWords? words (cs.drop (n + blanks))
    pure (n + blanks + rest)

/-- A phrase that does not end inside a longer word. -/
def phrase? (words : List String) (cs : List Char) : Option Nat := do
  let n ← phraseOfWords? words cs
  if (cs.drop n).head?.any isWordChar then none else positive? n

def phraseIn? (phrases : List (List String)) (cs : List Char) : Option Nat :=
  phrases.findSome? fun words => phrase? words cs

/-- What may precede `JOIN`, apart from `NATURAL`. -/
def joinSides : List (List String) :=
  [[], ["LEFT"], ["LEFT", "OUTER"], ["RIGHT"], ["RIGHT", "OUTER"], ["FULL"], ["FULL", "OUTER"],
    ["INNER"], ["CROSS"]]

def joinPhrases : List (List String) :=
  joinSides.flatMap fun side => [side ++ ["JOIN"], "NATURAL" :: side ++ ["JOIN"]]

/-- The keywords that consist of several words, and `JOIN` by itself. -/
def keywordPhrases : List (List String) :=
  [["GROUP", "BY"], ["ORDER", "BY"], ["PARTITION", "BY"], ["UNION", "ALL"], ["NOT", "NULL"]] ++
    joinPhrases

/-- The comparison operators that are words. -/
def matchPhrases : List (List String) :=
  [["NOT", "LIKE"], ["NOT", "ILIKE"], ["LIKE"], ["ILIKE"]]

/-- A letter or an underscore, and what follows of word characters and dollar signs. -/
def word? : List Char → Option Nat
  | [] => none
  | c :: cs =>
    if isLetter c || c == '_' then some (run (fun d => isWordChar d || d == '$') cs + 1) else none

/-- The first of several marks that the text begins with. -/
def markIn? (marks : List String) (cs : List Char) : Option Nat :=
  (marks.find? fun mark => mark.toList.isPrefixOf cs).bind fun mark => positive? mark.length

def comparisonMarks : List String :=
  ["<>", "!=", "<=", ">=", "==", "=", "<", ">"]

def operatorMarks : List String :=
  ["||", "::", "+", "-", "/", "%"]

def punctuationMarks : List String :=
  ["(", ")", ",", ";", "."]

end QueryLineage.Pattern
