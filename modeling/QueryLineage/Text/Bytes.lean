/-!
# Positions counted in bytes

Positions in a text are counted in the bytes of its UTF-8 form. Such a position may fall inside a
character; a slice that would start or end there does not exist.
-/

namespace QueryLineage.Text

def byteLength : List Char → Nat
  | [] => 0
  | c :: cs => c.utf8Size + byteLength cs

@[simp] theorem byteLength_nil : byteLength [] = 0 := rfl

@[simp] theorem byteLength_cons (c : Char) (cs : List Char) :
    byteLength (c :: cs) = c.utf8Size + byteLength cs := rfl

@[simp] theorem byteLength_append (cs ds : List Char) :
    byteLength (cs ++ ds) = byteLength cs + byteLength ds := by
  induction cs with
  | nil => simp
  | cons c cs ih => simp [ih, Nat.add_assoc]

/-- Splits the characters after exactly `n` bytes, if a character ends there. -/
def splitBytes : Nat → List Char → Option (List Char × List Char)
  | 0, cs => some ([], cs)
  | _ + 1, [] => none
  | n + 1, c :: cs =>
    if c.utf8Size ≤ n + 1 then
      (splitBytes (n + 1 - c.utf8Size) cs).map fun parts => (c :: parts.1, parts.2)
    else none
termination_by _ cs => cs.length

/-- The characters from byte `start` up to byte `stop`. -/
def byteSlice? (start stop : Nat) (cs : List Char) : Option (List Char) := do
  let (_, rest) ← splitBytes start cs
  let (slice, _) ← splitBytes (stop - start) rest
  pure slice

theorem splitBytes_append (cs ds : List Char) :
    splitBytes (byteLength cs) (cs ++ ds) = some (cs, ds) := by
  induction cs with
  | nil => simp [splitBytes]
  | cons c cs ih =>
    obtain ⟨n, hn⟩ : ∃ n, c.utf8Size = n + 1 :=
      ⟨c.utf8Size - 1, by have := c.utf8Size_pos; omega⟩
    rw [byteLength_cons, hn, List.cons_append, Nat.add_right_comm, splitBytes, hn]
    simp [Nat.add_right_comm n, ih]

end QueryLineage.Text
