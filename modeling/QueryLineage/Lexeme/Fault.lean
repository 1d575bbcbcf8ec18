import QueryLineage.Text.Bytes

/-!
# Errors of reading

What can be wrong with a query text, and where. The place is a range of bytes together with the
text that stands there.
-/

namespace QueryLineage

open Text

inductive ParseFault where
  | unterminatedComment
  | unterminatedString
  | unterminatedName
  | unexpectedCharacter
  | unclosedParenthesis
  | other (message : String)
  deriving DecidableEq, Repr

def ParseFault.message : ParseFault → String
  | unterminatedComment => "Unterminated comment"
  | unterminatedString => "Unterminated string literal"
  | unterminatedName => "Unterminated quoted identifier"
  | unexpectedCharacter => "Unexpected character"
  | unclosedParenthesis => "Unclosed parenthesis"
  | other message => message

structure ParseError where
  fault : ParseFault
  text : String
  start : Nat
  stop : Nat
  deriving DecidableEq, Repr

namespace ParseError

/-- The error at a range of bytes of `sql`. The range is cut to fit the text, and where it does not
fall between characters there is no text to show. -/
def locate (fault : ParseFault) (start stop : Nat) (sql : String) : ParseError :=
  let stop := min stop (byteLength sql.toList)
  let start := min start stop
  { fault
    text := String.ofList ((byteSlice? start stop sql.toList).getD [])
    start
    stop }

/-- An error at a range of characters shows these characters. -/
theorem locate_append {sql : String} {before shown after : List Char}
    (h : sql.toList = before ++ (shown ++ after)) (fault : ParseFault) :
    locate fault (byteLength before) (byteLength (before ++ shown)) sql =
      ⟨fault, String.ofList shown, byteLength before, byteLength (before ++ shown)⟩ := by
  have hstop : min (byteLength (before ++ shown)) (byteLength sql.toList) =
      byteLength (before ++ shown) := by
    rw [h, byteLength_append, byteLength_append, byteLength_append]
    omega
  have hstart : min (byteLength before) (byteLength (before ++ shown)) = byteLength before := by
    rw [byteLength_append]
    omega
  have hslice : byteSlice? (byteLength before) (byteLength (before ++ shown)) sql.toList =
      some shown := by
    rw [h, byteSlice?, splitBytes_append, byteLength_append, Nat.add_sub_cancel_left]
    simp only [bind, Option.bind_some, splitBytes_append]
    rfl
  rw [locate, hstop, hstart, hslice]
  rfl

def render (error : ParseError) : String :=
  s!"ParseError: {error.fault.message}\n  at [{error.start}:{error.stop}] -> '{error.text}'"

end ParseError

end QueryLineage
