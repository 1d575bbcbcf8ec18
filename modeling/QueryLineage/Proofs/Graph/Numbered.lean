import QueryLineage.Graph.Registry

/-!
# Numbered names

Tables without a name of their own are numbered by their origin. Where a `SELECT` has another
number in another registry, its name changes with the number, and no other name does.
-/

namespace QueryLineage

/-- The name of the `n`-th `SELECT`. -/
def selectName (n : Nat) : String :=
  "select-" ++ toString n

/-- The name of the `n`-th table of the origin. -/
def Origin.numbered (origin : Origin) (n : Nat) : String :=
  origin.word ++ "-" ++ toString n

theorem Origin.toList_numbered (origin : Origin) (n : Nat) :
    (origin.numbered n).toList = origin.word.toList ++ '-' :: (toString n).toList := by
  have hdash : "-".toList = ['-'] := by decide
  rw [numbered, String.toList_append, String.toList_append, hdash, List.append_assoc,
    List.singleton_append]

/-- Names of different origins begin with different letters. -/
theorem Origin.numbered_ne {origin other : Origin} (h : origin ≠ other) (m n : Nat) :
    origin.numbered m ≠ other.numbered n := by
  intro heq
  have hlist := congrArg String.toList heq
  rw [toList_numbered, toList_numbered] at hlist
  have hhead := congrArg List.head? hlist
  cases origin <;> cases other <;> simp_all [Origin.word]

theorem Origin.numbered_inj {origin : Origin} {m n : Nat}
    (h : origin.numbered m = origin.numbered n) : m = n := by
  have hdigits := congrArg String.toList ((String.append_right_inj _).1 h)
  rw [Nat.toString_eq_repr, Nat.toString_eq_repr, Nat.toList_repr, Nat.toList_repr] at hdigits
  have hread (k : Nat) : Nat.ofDigitChars 10 (Nat.toDigits 10 k) 0 = k :=
    Nat.ofDigitChars_toDigits (by decide) (by decide)
  rw [← hread m, hdigits, hread]

theorem numbered_select (n : Nat) : Origin.select.numbered n = selectName n := by
  have hword : Origin.select.word ++ "-" = "select-" := by decide
  rw [Origin.numbered, hword, selectName]

namespace Registry

theorem generatedName_eq (registry : Registry) (origin : Origin) :
    registry.generatedName origin = origin.numbered (registry.count origin + 1) := rfl

theorem generatedName_select (registry : Registry) :
    registry.generatedName .select = selectName (registry.selects + 1) :=
  numbered_select _

theorem create_select (registry : Registry) {new : NewTable} (h : new.name = .generated .select) :
    registry.create new =
      (registry.counted .select).push (selectName (registry.selects + 1)) new := by
  rw [create, h, ← generatedName_select]

/-- Only a `SELECT` is given the name of one. -/
theorem generatedName_ne_selectName {origin : Origin} (h : origin ≠ .select) (registry : Registry)
    (n : Nat) : registry.generatedName origin ≠ selectName n := by
  rw [generatedName_eq, ← numbered_select]
  exact Origin.numbered_ne h _ _

end Registry

/-- The first name becomes the second where the numbers of `SELECT`s, which count from `down + 1`
in one registry, count from `up + 1` in the other. -/
inductive Renumbered (down up : Nat) : String → String → Prop
  | same {name : String} (h : ∀ n, name ≠ selectName n) : Renumbered down up name name
  | select (n : Nat) : Renumbered down up (selectName (n + 1 + down)) (selectName (n + 1 + up))

/-- A text that is not the name of a `SELECT` is either both of the names or none. -/
theorem Renumbered.beq_eq {down up : Nat} {name other text : String}
    (h : Renumbered down up name other) (htext : ∀ n, text ≠ selectName n) :
    (other == text) = (name == text) := by
  cases h with
  | same _ => rfl
  | select n =>
    rw [beq_false_of_ne (htext _).symm, beq_false_of_ne (htext _).symm]

end QueryLineage
