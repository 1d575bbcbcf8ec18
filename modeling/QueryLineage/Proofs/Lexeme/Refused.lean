import QueryLineage.Proofs.Lexeme.Cut

/-!
# Texts that are refused

A text is either read as a whole or refused at the place where the first lexeme cannot be read. What
stands before that place can be read by itself.
-/

namespace QueryLineage

open Text

namespace Pattern

variable {cs t : List Char}

theorem commentEnd?_eq_none (h : commentEnd? cs = none) : ¬ ['*', '/'] <:+: cs := by
  induction cs with
  | nil => simp
  | cons c cs ih =>
    rw [commentEnd?] at h
    split at h
    · cases h
    · next hend =>
      rw [List.infix_cons_iff, not_or]
      refine ⟨fun hbegins => hend ?_, ih (Option.map_eq_none_iff.1 h)⟩
      obtain ⟨ds, hds⟩ := hbegins
      obtain ⟨rfl, rfl⟩ := List.cons.inj hds
      rfl

theorem exists_of_opensComment (h : opensComment cs = true) : ∃ ds, cs = '/' :: '*' :: ds := by
  unfold opensComment at h
  split at h
  · exact ⟨_, rfl⟩
  · cases h

theorem Severed.of_drop {n : Nat} (h : Severed (cs.drop n) t) : Severed cs t := by
  rcases h with ⟨c, hc, hend⟩ | h
  · rw [List.getLast?_drop] at hc
    split at hc
    · cases hc
    · exact Or.inl ⟨c, hc, hend⟩
  · exact Or.inr h

end Pattern

open Pattern

namespace LexRule

variable {cs : List Char} {kind : Kind} {n : Nat}

theorem measure?_nil : ∀ rule ∈ all, rule.measure? [] = none := by
  simp only [all, List.forall_mem_cons, List.not_mem_nil, false_implies, implies_true, and_true]
  decide +kernel

/-- No rule takes an empty lexeme, since none applies to the empty text. -/
theorem pos_of_measure? : ∀ rule ∈ all, rule.measure? cs = some n → 0 < n := by
  intro rule hrule h
  refine Nat.pos_of_ne_zero ?_
  rintro rfl
  have hsevered : Severed [] cs := severed_of_measure? rule hrule h
  have hcut := (measure?_withstands hsevered rule hrule).reaches h (Nat.le_refl 0)
  rw [measure?_nil rule hrule] at hcut
  cases hcut

theorem pos_of_first? (h : first? cs = some (kind, n)) : 0 < n := by
  obtain ⟨rule, hrule, hmeasure, -⟩ := exists_rule_of_first? h
  exact pos_of_measure? rule hrule hmeasure

theorem measure?_of_first?_eq_none (h : first? cs = none) :
    ∀ rule ∈ all, rule.measure? cs = none :=
  fun rule hrule => Option.map_eq_none_iff.1 (List.findSome?_eq_none_iff.1 h rule hrule)

theorem severed_of_first? (h : first? cs = some (kind, n)) : Severed (cs.take n) (cs.drop n) := by
  obtain ⟨rule, hrule, hmeasure, -⟩ := exists_rule_of_first? h
  exact severed_of_measure? rule hrule hmeasure

/-- A comment that ends is the first lexeme where it begins. -/
theorem first?_of_blockComment? (h : blockComment? cs = some n) :
    first? cs = some (.comment, n) := by
  have hline : lineComment? cs = none := by
    obtain ⟨ds, m, rfl, -, -⟩ := blockComment?_eq_some_iff.1 h
    rfl
  simp only [first?, all, uniform, List.findSome?_cons, hline, h, Option.map_none, Option.map_some]

end LexRule

namespace Lexeme

/-- The characters are cut into lexemes in front of the rest. -/
inductive Cuts (rest : List Char) : List Char → Prop
  | nil : Cuts rest []
  | cons {c : Char} {cs : List Char} {kind : Kind} {n : Nat}
      (hcomment : opensComment (c :: cs ++ rest) = true → blockComment? (c :: cs ++ rest) ≠ none)
      (hfirst : LexRule.first? (c :: cs ++ rest) = some (kind, n + 1)) (hn : n ≤ cs.length)
      (hcuts : Cuts rest (cs.drop n)) : Cuts rest (c :: cs)

theorem Cuts.severed {rest before : List Char} (h : Cuts rest before) (hne : before ≠ []) :
    Severed before rest := by
  induction h with
  | nil => exact absurd rfl hne
  | @cons c cs kind n _ hfirst hn _ ih =>
    by_cases hlast : cs.drop n = []
    · have hlength : n + 1 = (c :: cs).length :=
        congrArg (· + 1) (Nat.le_antisymm hn (List.drop_eq_nil_iff.1 hlast))
      have hsevered := LexRule.severed_of_first? hfirst
      rwa [hlength, List.take_left, List.drop_left] at hsevered
    · exact Severed.of_drop (n := n + 1) (ih hlast)

theorem Cuts.exists_reads {rest before : List Char} (h : Cuts rest before) :
    ∃ lexemes, Reads before lexemes := by
  induction h with
  | nil => exact ⟨[], .nil⟩
  | @cons c cs kind n hcomment hfirst hn hcuts ih =>
    obtain ⟨lexemes, hreads⟩ := ih
    have hsevered : Severed (c :: cs) rest := (Cuts.cons hcomment hfirst hn hcuts).severed (by simp)
    have hn' : n + 1 ≤ (c :: cs).length := Nat.succ_le_succ hn
    obtain ⟨kind', hfirst'⟩ := LexRule.exists_first?_of_append hsevered hfirst hn'
    refine ⟨_, .cons (fun hopens => ?_) hfirst' hreads⟩
    obtain ⟨ds, hds⟩ := exists_of_opensComment hopens
    obtain ⟨m, hm⟩ := Option.ne_none_iff_exists'.1 (hcomment (by rw [hds]; rfl))
    have hlength := LexRule.first?_of_blockComment? hm
    rw [hfirst] at hlength
    obtain ⟨-, rfl⟩ := Prod.mk.inj (Option.some.inj hlength)
    rw [(blockComment?_withstands _ _).reaches hm hn']
    simp

/-- Where reading stops, with what has been read before. -/
theorem exists_of_ofRest_eq_error {sql : String} {start : Nat} {cs : List Char} {error : ParseError}
    (h : ofRest sql start cs = .error error) :
    ∃ before rest, cs = before ++ rest ∧ Cuts rest before ∧
      ((∃ inside, rest = '/' :: '*' :: inside ∧ commentEnd? inside = none ∧
          error = .locate .unterminatedComment (start + byteLength before)
            (byteLength sql.toList) sql) ∨
        ∃ c ds, rest = c :: ds ∧ LexRule.first? rest = none ∧
          error = .locate (faultAt c) (start + byteLength before)
            (start + byteLength before + c.utf8Size) sql) := by
  fun_induction ofRest sql start cs with
  | case1 => cases h
  | case2 start c cs hunended =>
    cases h
    refine ⟨[], c :: cs, rfl, .nil, Or.inl ?_⟩
    rw [Bool.and_eq_true, Option.isNone_iff_eq_none] at hunended
    obtain ⟨inside, hinside⟩ := exists_of_opensComment hunended.1
    refine ⟨inside, hinside, ?_, rfl⟩
    rw [hinside] at hunended
    exact Option.map_eq_none_iff.1 hunended.2
  | case3 start c cs hcomment kind n hfirst ih =>
    have hn : n ≤ cs.length := Nat.le_of_succ_le_succ (LexRule.le_length_of_first? hfirst)
    cases hrest : ofRest sql (start + byteLength (c :: cs.take n)) (cs.drop n) with
    | ok lexemes =>
      rw [hrest] at h
      cases h
    | error later =>
      rw [hrest] at h
      cases h
      obtain ⟨before, rest, hsplit, hcuts, hwhy⟩ := ih hrest
      have htake : (cs.take n).length = n := List.length_take_of_le hn
      have hcs : cs = cs.take n ++ before ++ rest := by
        rw [List.append_assoc, ← hsplit, List.take_append_drop]
      refine ⟨c :: (cs.take n ++ before), rest, congrArg (c :: ·) hcs, ?_, ?_⟩
      · have hread : LexRule.first? (c :: (cs.take n ++ before) ++ rest) = some (kind, n + 1) := by
          rw [List.cons_append, ← hcs]
          exact hfirst
        refine .cons ?_ hread ?_ ?_
        · rw [List.cons_append, ← hcs]
          simpa using hcomment
        · rw [List.length_append, htake]
          exact Nat.le_add_right n _
        · rw [List.drop_left' htake]
          exact hcuts
      · rwa [← List.cons_append, byteLength_append, ← Nat.add_assoc]
  | case4 start c cs hcomment hfirst =>
    cases h
    refine ⟨[], c :: cs, rfl, .nil, Or.inr ⟨c, cs, rfl, ?_, rfl⟩⟩
    cases hnone : LexRule.first? (c :: cs) with
    | none => rfl
    | some read =>
      obtain ⟨kind, m⟩ := read
      have hpos := LexRule.pos_of_first? hnone
      obtain ⟨n, rfl⟩ := Nat.exists_eq_succ_of_ne_zero (Nat.ne_of_gt hpos)
      exact absurd hnone (hfirst kind n)

/-- What an error says about the text: the text reads up to the place of the error, and what is
shown is what stands there. A comment that is never closed is shown to the end of the text; in all
other cases no rule applies. -/
structure Refused (sql : String) (error : ParseError) (before shown after : List Char) : Prop where
  split : sql.toList = before ++ (shown ++ after)
  start : error.start = byteLength before
  stop : error.stop = byteLength (before ++ shown)
  text : error.text = String.ofList shown
  start_lt_stop : error.start < error.stop
  stop_le : error.stop ≤ byteLength sql.toList
  read : ∃ lexemes, ofText (String.ofList before) = .ok lexemes
  comment : error.fault = .unterminatedComment →
    after = [] ∧ ∃ inside, shown = '/' :: '*' :: inside ∧ ¬ ['*', '/'] <:+: inside
  rules : error.fault ≠ .unterminatedComment →
    ∀ rule ∈ LexRule.all, rule.measure? (shown ++ after) = none

theorem Refused.of_locate {sql : String} {fault : ParseFault} {before shown after : List Char}
    (hsplit : sql.toList = before ++ (shown ++ after)) (hshown : shown ≠ [])
    (hcuts : Cuts (shown ++ after) before)
    (hcomment : fault = .unterminatedComment →
      after = [] ∧ ∃ inside, shown = '/' :: '*' :: inside ∧ ¬ ['*', '/'] <:+: inside)
    (hrules : fault ≠ .unterminatedComment →
      ∀ rule ∈ LexRule.all, rule.measure? (shown ++ after) = none) :
    Refused sql (.locate fault (byteLength before) (byteLength (before ++ shown)) sql)
      before shown after := by
  rw [ParseError.locate_append hsplit]
  have hpos : 0 < byteLength shown := by
    obtain ⟨c, cs, rfl⟩ := List.exists_cons_of_ne_nil hshown
    exact Nat.add_pos_left c.utf8Size_pos _
  obtain ⟨lexemes, hreads⟩ := hcuts.exists_reads
  refine ⟨hsplit, rfl, rfl, rfl, ?_, ?_, ⟨lexemes, ?_⟩, hcomment, hrules⟩
  · rw [byteLength_append]
    exact Nat.lt_add_of_pos_right hpos
  · rw [hsplit, ← List.append_assoc, byteLength_append (before ++ shown)]
    exact Nat.le_add_right _ _
  · rw [ofText_eq_ok_iff, String.toList_ofList]
    exact hreads

theorem Reads.text_ne_empty {cs : List Char} {lexemes : List Lexeme} (h : Reads cs lexemes) :
    ∀ lexeme ∈ lexemes, lexeme.text ≠ "" := by
  induction h with
  | nil => simp
  | cons _ _ _ ih =>
    intro lexeme hlexeme
    rcases List.mem_cons.1 hlexeme with rfl | hlexeme
    · simp [String.ext_iff]
    · exact ih lexeme hlexeme

theorem faultAt_ne (c : Char) : faultAt c ≠ .unterminatedComment := by
  unfold faultAt
  split <;> simp

/-- Cutting a text into lexemes is exact. Either the lexemes make up the text, none of them empty or
a group; or the text is refused at a place up to which it can be read, because of a comment that is
never closed there or because no rule applies. -/
theorem ofText_exact (sql : String) :
    (∃ lexemes, ofText sql = .ok lexemes ∧ textAll lexemes = sql ∧
      ∀ lexeme ∈ lexemes, lexeme.text ≠ "" ∧ lexeme.kind.isGroup = false) ∨
    ∃ error before shown after, ofText sql = .error error ∧
      Refused sql error before shown after := by
  cases hread : ofText sql with
  | ok lexemes =>
    have hreads := ofText_eq_ok_iff.1 hread
    exact Or.inl ⟨lexemes, rfl, textAll_of_ofText hread,
      fun lexeme hlexeme => ⟨hreads.text_ne_empty lexeme hlexeme, hreads.isGroup lexeme hlexeme⟩⟩
  | error error =>
    right
    obtain ⟨before, rest, hsplit, hcuts, hwhy⟩ := exists_of_ofRest_eq_error hread
    rw [Nat.zero_add] at hwhy
    rcases hwhy with ⟨inside, rfl, hinside, rfl⟩ | ⟨c, ds, rfl, hfirst, rfl⟩
    · rw [hsplit]
      refine ⟨_, before, '/' :: '*' :: inside, [], rfl, ?_⟩
      refine Refused.of_locate (by rw [hsplit, List.append_nil]) (by simp)
        (by rwa [List.append_nil]) (fun _ => ⟨rfl, inside, rfl, commentEnd?_eq_none hinside⟩) ?_
      exact fun hfault => absurd rfl hfault
    · have hstop : byteLength before + c.utf8Size = byteLength (before ++ [c]) := by simp
      rw [hstop]
      refine ⟨_, before, [c], ds, rfl, Refused.of_locate hsplit (by simp) hcuts ?_ ?_⟩
      · exact fun hfault => absurd hfault (faultAt_ne c)
      · exact fun _ => LexRule.measure?_of_first?_eq_none hfirst

end Lexeme

end QueryLineage
