import Mathlib.Data.List.Forall2
import QueryLineage.Proofs.Tree.Lossless
import QueryLineage.Proofs.Tree.Lower

/-!
# Regardless of case

Parsing does not tell texts apart that differ in the case of the letters of ASCII only. Both are cut
at the same places, so the statements are made of rows that are the same in lower case, and grouping
gives these the same shape; or both are refused at the same place.
-/

namespace QueryLineage

open Text

namespace Node

def OpenParenthesis.lower (parenthesis : OpenParenthesis) : OpenParenthesis :=
  ⟨parenthesis.before.map Node.lower, parenthesis.start⟩

theorem closeParentheses_map_lower {first second : String}
    (h : byteLength first.toList = byteLength second.toList) (offset : Nat)
    (opened : List OpenParenthesis) (current nodes : List Node) :
    (closeParentheses first offset (opened.map OpenParenthesis.lower) (current.map lower)
        (nodes.map lower)).mapError ParseError.place =
      ((closeParentheses second offset opened current nodes).map (·.map lower)).mapError
        ParseError.place := by
  induction nodes generalizing offset opened current with
  | nil =>
    cases opened with
    | nil => rfl
    | cons innermost outer => exact congrArg Except.error (ParseError.place_locate_congr h _ _ _)
  | cons node nodes ih =>
    have hopening : node.lower.isMark "(" = node.isMark "(" := isMark_lower node (by decide)
    have hclosing : node.lower.isMark ")" = node.isMark ")" := isMark_lower node (by decide)
    have hlength : byteLength node.lower.text.toList = byteLength node.text.toList := by
      rw [text_lower, toList_toLower, byteLength_lowerChars]
    rw [List.map_cons]
    by_cases hopens : node.isMark "(" = true
    · rw [closeParentheses_opening (hopening.trans hopens), closeParentheses_opening hopens, hlength]
      exact ih _ (⟨current, offset⟩ :: opened) [node]
    rw [Bool.not_eq_true] at hopens
    by_cases hcloses : opened ≠ [] ∧ node.isMark ")" = true
    · obtain ⟨innermost, outer, rfl⟩ := List.exists_cons_of_ne_nil hcloses.1
      rw [List.map_cons, closeParentheses_closing (hclosing.trans hcloses.2) (hopening.trans hopens),
        closeParentheses_closing hcloses.2 hopens, hlength]
      simpa [OpenParenthesis.lower] using
        ih _ outer (innermost.before ++ [group .parenthesis (current ++ [node])])
    · have hother : opened ≠ [] → node.isMark ")" = false := by simpa using hcloses
      rw [closeParentheses_other (hopening.trans hopens) (by simpa [hclosing] using hother),
        closeParentheses_other hopens hother, hlength]
      simpa using ih _ opened (current ++ [node])

theorem commentFiller_toLower (text : String) :
    commentFiller text.toLower = (commentFiller text).lower := by
  have hbreak : text.toLower.toList.contains '\n' = text.toList.contains '\n' := by
    rw [toList_toLower, contains_lowerChars rfl]
  have hmark : ∀ mark : String, mark.toList.any Char.isAlpha = false → mark.toLower = mark :=
    fun mark hmark => (toLower_eq_mark_iff hmark mark).2 rfl
  rw [commentFiller, hbreak, commentFiller, lower_leaf]
  split
  · rw [hmark "\n" (by decide)]
  · rw [hmark " " (by decide)]

mutual

theorem withoutComments_lower : ∀ node : Node,
    node.lower.withoutComments = node.withoutComments.lower
  | leaf kind text => by
    cases kind <;> simp [withoutComments, commentFiller_toLower]
  | group kind children => by
    cases kind <;>
      simp [withoutComments, commentFiller_toLower, textAll_map_lower,
        withoutCommentsAll_map_lower children]

theorem withoutCommentsAll_map_lower : ∀ nodes : List Node,
    withoutCommentsAll (nodes.map lower) = (withoutCommentsAll nodes).map lower
  | [] => by simp
  | node :: nodes => by
    simp [withoutComments_lower node, withoutCommentsAll_map_lower nodes]

end

theorem splitStatements_map_lower (nodes : List Node) :
    splitStatements (nodes.map lower) = (splitStatements nodes).map (·.map lower) := by
  have hsubstantial : ∀ node : Node, node.lower.isSubstantial = node.isSubstantial := by
    intro node
    rw [isSubstantial, isFiller_lower, isMark_lower node (by decide), isSubstantial]
  rw [splitStatements, cutAtSemicolons_map fun node _ => isMark_lower node (by decide),
    List.filter_map, splitStatements]
  simp [Function.comp_def, List.any_map, hsubstantial]

theorem statement_map_lower (siblings : List Node) :
    statement (siblings.map lower) = (statement siblings).lower := by
  rw [statement, groupAll_map_lower, statement, lower_group]

/-- The statements of a text in lower case are those of the text, in lower case. -/
theorem statementsOfText_toLower (sql : String) (stripComments : Bool) :
    (statementsOfText sql.toLower stripComments).mapError ParseError.place =
      ((statementsOfText sql stripComments).map (·.map lower)).mapError ParseError.place := by
  have hlength : byteLength sql.toLower.toList = byteLength sql.toList := by
    rw [toList_toLower, byteLength_lowerChars]
  have hnodes : ∀ lexemes : List Lexeme, (lexemes.map Lexeme.lower).map Lexeme.toNode =
      (lexemes.map Lexeme.toNode).map lower := by
    intro lexemes
    simp [Lexeme.lower, Lexeme.toNode, Function.comp_def]
  have hlexemes := Lexeme.ofText_toLower sql
  unfold statementsOfText
  cases hsecond : Lexeme.ofText sql with
  | error error =>
    cases hfirst : Lexeme.ofText sql.toLower <;>
      simp_all [mapError_ok, mapError_error, Except.map, bind, Except.bind]
  | ok lexemes =>
    cases hfirst : Lexeme.ofText sql.toLower with
    | error error => simp_all [mapError_ok, mapError_error, Except.map]
    | ok others =>
      obtain rfl : others = lexemes.map Lexeme.lower := by
        simpa [hfirst, hsecond, mapError_ok, mapError_error, Except.map] using hlexemes
      have hclosed := closeParentheses_map_lower hlength 0 [] [] (lexemes.map Lexeme.toNode)
      simp only [bind, Except.bind, groupParentheses, hnodes]
      cases hclose : closeParentheses sql 0 [] [] (lexemes.map Lexeme.toNode) with
      | error error =>
        cases hlower : closeParentheses sql.toLower 0 [] []
            ((lexemes.map Lexeme.toNode).map lower) <;>
          simp_all [mapError_ok, mapError_error, Except.map]
      | ok nodes =>
        cases hlower : closeParentheses sql.toLower 0 [] []
            ((lexemes.map Lexeme.toNode).map lower) with
        | error error => simp_all [mapError_ok, mapError_error, Except.map]
        | ok lowered =>
          obtain rfl : lowered = nodes.map lower := by
            rw [List.map_nil, List.map_nil, hclose, hlower] at hclosed
            exact Except.ok.inj hclosed
          simp only [pure, Except.pure, Except.map, mapError_ok]
          cases stripComments <;>
            simp [withoutCommentsAll_map_lower, splitStatements_map_lower, statement_map_lower]

/-- The nodes of a tree, each before those below it, with their depths and kinds, and with their
texts but for the case of the letters of ASCII. -/
def listing (tree : Node) : List (Nat × Kind × String) :=
  (placesIn 0 [tree]).map fun place => (place.depth, place.node.kind, place.node.text.toLower)

/-- A place in a tree, in lower case. -/
def Place.lower (place : Place) : Place :=
  ⟨place.depth, place.node.lower, place.following.map Node.lower⟩

mutual

theorem placesBelow_lower : ∀ (node : Node) (depth : Nat),
    node.lower.placesBelow depth = (node.placesBelow depth).map Place.lower
  | leaf kind text, depth => by simp [placesBelow]
  | group kind children, depth => by
    rw [lower_group, placesBelow, placesIn_map_lower children, placesBelow]

theorem placesIn_map_lower : ∀ (nodes : List Node) (depth : Nat),
    placesIn depth (nodes.map lower) = (placesIn depth nodes).map Place.lower
  | [], depth => by simp [placesIn]
  | node :: nodes, depth => by
    rw [List.map_cons, placesIn, placesBelow_lower node, placesIn_map_lower nodes, placesIn,
      List.map_cons, List.map_append]
    rfl

end

theorem listing_congr {tree other : Node} (h : tree.lower = other.lower) :
    tree.listing = other.listing := by
  have hshown : ∀ node : Node, node.listing =
      (placesIn 0 [node.lower]).map fun place => (place.depth, place.node.kind, place.node.text) := by
    intro node
    rw [← List.map_singleton, placesIn_map_lower, List.map_map]
    simp [listing, Function.comp_def, Place.lower]
  rw [hshown, hshown, h]

/-- Parsing does not tell capitals of ASCII from small letters: texts that differ in nothing else
are both refused, for the same reason and at the same place, or have as many statements, and the
trees of these have the same shape. -/
theorem statementsOfText_of_toLower_eq {first second : String} (h : first.toLower = second.toLower)
    (stripComments : Bool) :
    (∃ error other, statementsOfText first stripComments = .error error ∧
      statementsOfText second stripComments = .error other ∧
      error.fault.message = other.fault.message ∧ error.start = other.start ∧
      error.stop = other.stop) ∨
    ∃ trees others, statementsOfText first stripComments = .ok trees ∧
      statementsOfText second stripComments = .ok others ∧
      List.Forall₂ (fun tree other => tree.listing = other.listing) trees others := by
  have hplaces : ((statementsOfText first stripComments).map (·.map lower)).mapError
        ParseError.place =
      ((statementsOfText second stripComments).map (·.map lower)).mapError ParseError.place := by
    rw [← statementsOfText_toLower, ← statementsOfText_toLower, h]
  cases hfirst : statementsOfText first stripComments with
  | error error =>
    cases hsecond : statementsOfText second stripComments with
    | error other =>
      rw [hfirst, hsecond] at hplaces
      obtain ⟨hfault, hstart, hstop⟩ : error.fault = other.fault ∧ error.start = other.start ∧
          error.stop = other.stop := by
        simpa [Except.map, mapError_ok, mapError_error, ParseError.place] using hplaces
      exact Or.inl ⟨error, other, rfl, rfl, by rw [hfault], hstart, hstop⟩
    | ok others => simp [hfirst, hsecond, Except.map, mapError_ok, mapError_error] at hplaces
  | ok trees =>
    cases hsecond : statementsOfText second stripComments with
    | error other => simp [hfirst, hsecond, Except.map, mapError_ok, mapError_error] at hplaces
    | ok others =>
      have hlower : trees.map lower = others.map lower := by
        simpa [hfirst, hsecond, Except.map, mapError_ok, mapError_error] using hplaces
      refine Or.inr ⟨trees, others, rfl, rfl, ?_⟩
      have heq : List.Forall₂ (· = ·) (trees.map lower) (others.map lower) := by
        rw [hlower, List.forall₂_eq_eq_eq]
      exact (List.forall₂_map_left_iff.1 (List.forall₂_map_right_iff.1 heq)).imp
        fun _ _ => listing_congr

/-- Keywords, names and literals may all be written in another case. -/
theorem statementsOfText_of_toLower_eq_selectLiteral :
    "Select x, 'a' from T Where y".toLower = "SELECT X, 'A' FROM t where Y".toLower ∧
      ∃ trees others, statementsOfText "Select x, 'a' from T Where y" true = .ok trees ∧
        statementsOfText "SELECT X, 'A' FROM t where Y" true = .ok others ∧
        List.Forall₂ (fun tree other => tree.listing = other.listing) trees others := by
  have hlower : "Select x, 'a' from T Where y".toLower = "SELECT X, 'A' FROM t where Y".toLower := by
    rw [← String.toList_inj, toList_toLower, toList_toLower]
    decide
  have hok : (statementsOfText "Select x, 'a' from T Where y" true).isOk = true := by
    decide +kernel
  refine ⟨hlower, ?_⟩
  rcases statementsOfText_of_toLower_eq hlower true with ⟨error, -, herror, -⟩ | hread
  · rw [herror] at hok
    cases hok
  · exact hread

end Node

end QueryLineage
