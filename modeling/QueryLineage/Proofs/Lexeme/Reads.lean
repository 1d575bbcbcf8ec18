import QueryLineage.Lexeme.Rule

/-!
# Reading lexemes

Whether a text can be cut into lexemes, and into which, does not depend on where the text stands
in a query: position and query only serve to report errors. What is read is therefore a relation
between characters and lexemes, built one lexeme at a time.
-/

namespace QueryLineage

open Text Pattern

namespace LexRule

theorem isGroup_wordKind (word rest : List Char) : (wordKind word rest).isGroup = false := by
  unfold wordKind
  dsimp only
  split
  · rfl
  · split
    · rfl
    · cases Keyword.class? (String.ofList word) <;> rfl

theorem isGroup_of_first? {cs : List Char} {kind : Kind} {n : Nat}
    (h : first? cs = some (kind, n)) : kind.isGroup = false := by
  obtain ⟨rule, hrule, hmeasure⟩ := List.exists_of_findSome?_eq_some h
  obtain ⟨m, -, hm⟩ := Option.map_eq_some_iff.1 hmeasure
  obtain ⟨rfl, -⟩ := Prod.mk.inj hm
  simp only [all, List.mem_cons, List.not_mem_nil, or_false] at hrule
  rcases hrule with rfl | rfl | rfl | rfl | rfl | rfl | rfl | rfl | rfl | rfl | rfl | rfl | rfl |
    rfl | rfl
  all_goals first | rfl | exact isGroup_wordKind _ _

end LexRule

namespace Lexeme

/-- The characters can be cut into the lexemes. -/
inductive Reads : List Char → List Lexeme → Prop
  | nil : Reads [] []
  | cons {c : Char} {cs : List Char} {kind : Kind} {n : Nat} {lexemes : List Lexeme}
      (hcomment : opensComment (c :: cs) = true → blockComment? (c :: cs) ≠ none)
      (hfirst : LexRule.first? (c :: cs) = some (kind, n + 1))
      (hrest : Reads (cs.drop n) lexemes) :
      Reads (c :: cs) (⟨kind, String.ofList (c :: cs.take n)⟩ :: lexemes)

theorem ofRest_eq_ok_iff {sql : String} {start : Nat} {cs : List Char} {lexemes : List Lexeme} :
    ofRest sql start cs = .ok lexemes ↔ Reads cs lexemes := by
  constructor
  · intro h
    fun_induction ofRest sql start cs generalizing lexemes with
    | case1 => cases h; exact .nil
    | case2 => cases h
    | case3 start c cs hcomment kind n hfirst ih =>
      cases hrest : ofRest sql (start + byteLength (c :: cs.take n)) (cs.drop n) with
      | error e =>
        rw [hrest] at h
        cases h
      | ok rest =>
        rw [hrest] at h
        cases h
        refine Reads.cons ?_ hfirst (ih hrest)
        simpa using hcomment
    | case4 => cases h
  · intro h
    induction h generalizing start with
    | nil => rw [ofRest]
    | @cons c cs kind n lexemes hcomment hfirst _ ih =>
      rw [ofRest, if_neg, hfirst]
      · simp only [ih]
        rfl
      · simpa using hcomment

theorem ofText_eq_ok_iff {sql : String} {lexemes : List Lexeme} :
    ofText sql = .ok lexemes ↔ Reads sql.toList lexemes :=
  ofRest_eq_ok_iff

/-- What is read first is what the rules find at the beginning. -/
theorem Reads.head?_of_first? {cs : List Char} {lexemes : List Lexeme} (h : Reads cs lexemes)
    {kind : Kind} {n : Nat} (hfirst : LexRule.first? cs = some (kind, n)) :
    lexemes.head? = some ⟨kind, String.ofList (cs.take n)⟩ := by
  cases h with
  | nil => cases hfirst
  | cons _ hread _ =>
    rw [hread] at hfirst
    obtain ⟨rfl, rfl⟩ := Prod.mk.inj (Option.some.inj hfirst)
    rfl

theorem Reads.isGroup {cs : List Char} {lexemes : List Lexeme} (h : Reads cs lexemes) :
    ∀ lexeme ∈ lexemes, lexeme.kind.isGroup = false := by
  induction h with
  | nil => simp
  | cons _ hfirst _ ih =>
    intro lexeme hlexeme
    rcases List.mem_cons.1 hlexeme with rfl | hlexeme
    · exact LexRule.isGroup_of_first? hfirst
    · exact ih lexeme hlexeme

end Lexeme

end QueryLineage
