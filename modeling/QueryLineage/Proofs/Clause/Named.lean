import QueryLineage.Proofs.Clause.Contents
import QueryLineage.Proofs.Lexeme.Seat
import QueryLineage.Proofs.Tree.Shape

/-!
# Which names a query can use

A name that a query gives to a table is shown by nodes that stand side by side. So it is never a
word that the query does not contain, and it is never a generated name, since those begin with a
keyword and no name does.
-/

namespace QueryLineage

open Text

namespace Node

theorem infix_fringeAll {row siblings : List Node} (h : row <:+: siblings) :
    fringeAll row <:+: fringeAll siblings := by
  obtain ⟨before, after, rfl⟩ := h
  exact ⟨fringeAll before, fringeAll after, by simp⟩

theorem infix_fringeAll_children (node : Node) : fringeAll node.children <:+: node.fringe := by
  cases node with
  | leaf kind text => exact List.nil_infix
  | group kind children =>
    cases children with
    | nil => exact List.nil_infix
    | cons child children =>
      exact ⟨[], [], by simp [fringe_group_cons]⟩

theorem fringe_infix_of_mem {node : Node} {siblings : List Node} (h : node ∈ siblings) :
    node.fringe <:+: fringeAll siblings := by
  obtain ⟨before, after, rfl⟩ := List.append_of_mem h
  exact ⟨fringeAll before, fringeAll after, by simp⟩

/-- The node and all nodes below it are formed and have the shapes of their kinds, and their lexemes
are some of the row. -/
structure Tidy (lexemes : List Lexeme) (node : Node) : Prop where
  formed : Everywhere Formed node
  shaped : Everywhere Shaped node
  fringe : node.fringe <:+: lexemes

theorem Tidy.child {lexemes : List Lexeme} {node child : Node} (h : node.Tidy lexemes)
    (hchild : child ∈ node.children) : child.Tidy lexemes where
  formed := h.formed.child child hchild
  shaped := h.shaped.child child hchild
  fringe := (fringe_infix_of_mem hchild).trans ((infix_fringeAll_children node).trans h.fringe)

theorem Tidy.items {lexemes : List Lexeme} {node : Node} (h : node.Tidy lexemes)
    (hblank : node.isWhitespace = false) : ∀ item ∈ node.items,
      item.Tidy lexemes ∧ item.isWhitespace = false ∧ item.depth ≤ node.depth := by
  intro item hitem
  unfold Node.items at hitem
  split at hitem
  · obtain ⟨hmem, hnot⟩ := List.mem_filter.1 hitem
    have hfiller : item.isWhitespace = false := by
      simp only [isFiller_all, Bool.and_eq_true, Bool.not_eq_true', Bool.or_eq_false_iff] at hnot
      exact hnot.1.1
    exact ⟨h.child hmem, hfiller, Nat.le_of_lt (Node.depth_lt_of_mem_children hmem)⟩
  · obtain rfl := List.mem_singleton.1 hitem
    exact ⟨h, hblank, Nat.le_refl _⟩

/-- A `WITH` below the node is one of the lexemes of the row. -/
theorem Tidy.exists_cte {lexemes : List Lexeme} {node : Node} (h : node.Tidy lexemes)
    (hcte : node.isCte = true) : ∃ lexeme ∈ lexemes, lexeme.kind = .keyword .cte := by
  have hkind : node.kind = .keyword .cte := beq_iff_eq.1 hcte
  cases node with
  | leaf kind text => exact ⟨⟨kind, text⟩, h.fringe.subset (by simp), hkind⟩
  | group kind children =>
    obtain rfl : kind = .keyword .cte := hkind
    cases h.shaped.here

end Node

/-- The text is not a generated name. -/
def Unnumbered (text : String) : Prop :=
  ∀ (origin : Origin) n, text ≠ origin.numbered n

/-- The text is neither the word nor the generated name of a `SELECT`. -/
structure Foreign (word text : String) : Prop where
  word : text ≠ word
  select : ∀ n, text ≠ selectName n

theorem trim_numbered (origin : Origin) (n : Nat) :
    trim (origin.numbered n) = origin.numbered n := by
  apply trim_eq_self
  intro c hc
  have hword : ∀ d ∈ origin.word.toList, isBlank d = false := by
    cases origin <;> exact forall_mem_of_all (p := fun c => isBlank c = false) (by decide)
  rw [origin.toList_numbered, List.mem_append, List.mem_cons] at hc
  rcases hc with hc | rfl | hc
  · exact hword c hc
  · decide
  · have hdigit : c.isDigit = true := by
      apply Nat.isDigit_of_mem_toDigits (b := 10) (n := n) (by decide) (by decide)
      simpa using hc
    have hc : c.toNat < 0x80 := by
      simp only [Char.isDigit, Bool.and_eq_true, decide_eq_true_eq, ge_iff_le] at hdigit
      have hle : c.toNat ≤ 57 := hdigit.2
      omega
    have hascii := of_ascii (p := fun c => !c.isDigit || !isBlank c) (by decide +kernel) hc
    simpa [hdigit] using hascii

theorem trim_of_shown {text shown : String} (h : trim text = text)
    (htext : text = shown ∨ text = trim shown) : trim shown = text := by
  rcases htext with rfl | rfl
  · exact h
  · rfl

namespace Lexeme

theorem withoutComment_of_kind {lexeme : Lexeme} (h : lexeme.kind = .comment) :
    lexeme.withoutComment = ⟨.whitespace, " "⟩ ∨ lexeme.withoutComment = ⟨.whitespace, "\n"⟩ := by
  rw [withoutComment, if_pos h]
  split
  · exact Or.inr rfl
  · exact Or.inl rfl

theorem withoutComment_of_kind_ne {lexeme : Lexeme} (h : lexeme.kind ≠ .comment) :
    lexeme.withoutComment = lexeme := by
  rw [withoutComment, if_neg h]

theorem Sits.withoutComment {lexeme : Lexeme} {next? : Option Lexeme} (h : Sits lexeme next?) :
    Sits lexeme.withoutComment (next?.map Lexeme.withoutComment) := by
  by_cases hcomment : lexeme.kind = .comment
  · have hblank : ∀ text, text = " " ∨ text = "\n" →
        Sits ⟨.whitespace, text⟩ (next?.map Lexeme.withoutComment) := by
      rintro text (rfl | rfl)
      all_goals exact ⟨by decide, fun _ => forall_mem_of_all (by decide), fun hkind => absurd rfl hkind,
        fun hkind => Kind.noConfusion hkind, fun hkind => absurd rfl hkind⟩
    rcases withoutComment_of_kind hcomment with heq | heq
    · rw [heq]
      exact hblank _ (Or.inl rfl)
    · rw [heq]
      exact hblank _ (Or.inr rfl)
  · rw [withoutComment_of_kind_ne hcomment]
    refine ⟨h.nonempty, h.blank, h.visible, h.comment, fun hblank hcomment => ?_⟩
    obtain ⟨rest, hfirst, hnext⟩ := h.read hblank hcomment
    refine ⟨rest, hfirst, fun next hmem hkind => ?_⟩
    obtain ⟨other, hother, rfl⟩ := Option.map_eq_some_iff.1 hmem
    by_cases hfiller : other.kind = .comment
    · rcases withoutComment_of_kind hfiller with heq | heq
      · exact absurd (congrArg Lexeme.kind heq) hkind
      · exact absurd (congrArg Lexeme.kind heq) hkind
    · rw [withoutComment_of_kind_ne hfiller] at hkind ⊢
      exact hnext other hother hkind

theorem Seated.withoutComments {row : List Lexeme} (h : Seated row) :
    Seated (row.map Lexeme.withoutComment) := by
  induction h with
  | nil => exact .nil
  | cons hhead _ ih =>
    refine .cons ?_ ih
    rw [List.head?_map]
    exact hhead.withoutComment

end Lexeme

section

variable {lexemes : List Lexeme} {word : String}

/-- The lexemes stand where they were read, and the word is none of them. -/
structure Avoids (lexemes : List Lexeme) (word : String) : Prop where
  seated : Lexeme.Seated lexemes
  isWord : Word word.toList
  fresh : ∀ lexeme ∈ lexemes, lexeme.text ≠ word

variable (h : Avoids lexemes word)
include h

theorem Avoids.withoutComments : Avoids (lexemes.map Lexeme.withoutComment) word where
  seated := h.seated.withoutComments
  isWord := h.isWord
  fresh lexeme hlexeme := by
    obtain ⟨other, hother, rfl⟩ := List.mem_map.1 hlexeme
    by_cases hcomment : other.kind = .comment
    · have hblank : ∀ text : String, text = " " ∨ text = "\n" → text ≠ word := by
        rintro _ htext rfl
        obtain ⟨c, cs, hlist, hstart, -⟩ := h.isWord.start
        rcases htext with rfl | rfl
        · obtain rfl : ' ' = c := (List.cons.inj hlist).1
          revert hstart
          decide
        · obtain rfl : '\n' = c := (List.cons.inj hlist).1
          revert hstart
          decide
      rcases Lexeme.withoutComment_of_kind hcomment with heq | heq
      · rw [heq]
        exact hblank _ (Or.inl rfl)
      · rw [heq]
        exact hblank _ (Or.inr rfl)
    · rw [Lexeme.withoutComment_of_kind_ne hcomment]
      exact h.fresh other hother

omit h in
/-- The lexemes stand where they were read, and `name` holds of what nodes side by side show, if
they do not begin with a blank or a keyword. -/
structure Naming (lexemes : List Lexeme) (name : String → Prop) : Prop where
  seated : Lexeme.Seated lexemes
  shown : ∀ first rest, Node.fringeAll (first :: rest) <:+: lexemes → first.Formed →
    first.isWhitespace = false → first.isKeyword = false ∨ rest = [] → ∀ {text : String},
      text = Node.textAll (first :: rest) ∨ text = trim (Node.textAll (first :: rest)) → name text

end

/-- Whatever the lexemes show may be a name. -/
theorem Lexeme.Seated.anyNaming {lexemes : List Lexeme} (h : Seated lexemes) :
    Naming lexemes fun _ => True where
  seated := h
  shown _ _ _ _ _ _ _ _ := trivial

/-- No name is a generated one. -/
theorem Lexeme.Seated.naming {lexemes : List Lexeme} (h : Seated lexemes) :
    Naming lexemes Unnumbered where
  seated := h
  shown first rest hrow hformed hblank hkeyword text htext := by
    rintro origin n rfl
    have hnumbered := trim_of_shown (trim_numbered origin n) htext
    rw [Node.textAll_eq_textAll_fringeAll] at hnumbered
    obtain ⟨lexeme, others, hfringe, hkind, hhead⟩ := hformed.headed hblank
    rw [Node.fringeAll_cons, hfringe] at hrow hnumbered
    obtain ⟨keywordClass, before, after, heq, hbefore⟩ :=
      (h.of_part hrow).exists_head_of_numbered hnumbered
    cases before with
    | cons other before =>
      obtain ⟨rfl, -⟩ := List.cons.inj heq
      exact hkind (hbefore lexeme List.mem_cons_self)
    | nil =>
      obtain ⟨rfl, -⟩ := List.cons.inj heq
      have hother : (Lexeme.toNode ⟨.keyword keywordClass, origin.word⟩).isWordIn ["CASE", "WHERE"] =
          false := by
        cases keywordClass <;> cases origin <;> decide +kernel
      obtain rfl := (hhead rfl).resolve_right (Bool.eq_false_iff.1 hother)
      rcases hkeyword with hkeyword | rfl
      · cases hkeyword
      · -- the node is nothing but the keyword
        rw [Node.fringe_toNode] at hfringe
        obtain ⟨-, rfl⟩ := List.cons.inj hfringe
        have hshown : trim (Lexeme.textAll [⟨.keyword keywordClass, origin.word⟩]) = origin.word := by
          have hword : trim origin.word = origin.word := by cases origin <;> decide
          rw [Lexeme.textAll_cons, Lexeme.textAll_nil, String.append_empty]
          exact hword
        have hlength := congrArg (fun text => text.toList.length) (hnumbered.symm.trans hshown)
        simp only [origin.toList_numbered, List.length_append, List.length_cons] at hlength
        omega

/-- No name is the word, nor the generated name of a `SELECT`. -/
theorem Avoids.naming {lexemes : List Lexeme} {word : String} (h : Avoids lexemes word) :
    Naming lexemes (Foreign word) where
  seated := h.seated
  shown first rest hrow hformed hblank hkeyword text htext := by
    refine ⟨?_, fun n => ?_⟩
    · rintro rfl
      have hnoblank : ∀ c ∈ text.toList, isBlank c = false :=
        fun c hc => isBlank_of_continuesWord (h.isWord.continues c hc)
      have hshown := trim_of_shown (trim_eq_self hnoblank) htext
      rw [Node.textAll_eq_textAll_fringeAll] at hshown
      obtain ⟨lexeme, hlexeme, heq⟩ := (h.seated.of_part hrow).exists_text_eq h.isWord hshown
      exact h.fresh lexeme (hrow.subset hlexeme) heq
    · rw [← numbered_select]
      exact h.seated.naming.shown first rest hrow hformed hblank hkeyword htext .select n

namespace Node

/-- A name that has begun reaches as far as no blank and no comment stands. -/
theorem exists_of_nameFrom {name : String} (hname : name ≠ "") (siblings : List Node) :
    ∃ run after, siblings = run ++ after ∧ nameFrom name siblings = (name ++ textAll run, after) := by
  induction siblings generalizing name with
  | nil => exact ⟨[], [], rfl, by simp [nameFrom]⟩
  | cons node siblings ih =>
    have hnonempty : name.isEmpty = false := by simpa using hname
    rw [nameFrom]
    by_cases hstop : (node.isWhitespace || (node.isComment && !name.isEmpty)) = true
    · rw [if_pos hstop]
      exact ⟨[], node :: siblings, rfl, by simp⟩
    · rw [if_neg hstop]
      have hcomment : ¬ node.isComment = true := by
        intro hcomment
        exact hstop (by simp [hcomment, hnonempty])
      rw [if_neg hcomment]
      have hlonger : name ++ node.text ≠ "" := by
        intro heq
        exact hname (String.append_eq_empty_iff.1 heq).1
      obtain ⟨run, after, rfl, hrun⟩ := ih hlonger
      exact ⟨node :: run, after, rfl, by rw [hrun, textAll_cons, String.append_assoc]⟩

theorem exists_of_afterAs (siblings : List Node) :
    ∃ before, siblings = before ++ afterAs siblings := by
  have hdrop : ∀ row : List Node, ∃ before, row = before ++ row.dropWhile (isFiller .all) :=
    fun row => ⟨row.takeWhile (isFiller .all), List.takeWhile_append_dropWhile.symm⟩
  obtain ⟨before, hbefore⟩ := hdrop siblings
  unfold afterAs
  split
  · exact ⟨siblings, by simp⟩
  · next node rest heq =>
    rw [heq] at hbefore
    split
    · obtain ⟨more, hmore⟩ := hdrop rest
      refine ⟨before ++ node :: more, ?_⟩
      rw [List.append_assoc, List.cons_append, ← hmore, ← hbefore]
    · exact ⟨before, hbefore⟩

theorem exists_of_aliasFrom? {siblings : List Node} {text : String}
    (h : aliasFrom? siblings = some text) :
    ∃ first run after, siblings = first :: (run ++ after) ∧ first.isWhitespace = false ∧
      first.isKeyword = false ∧ text = textAll (first :: run) := by
  unfold aliasFrom? at h
  dsimp only at h
  split at h
  · cases h
  · next hempty =>
    obtain rfl := (Option.some.inj h).symm
    cases hrow : siblings.takeWhile fun node => !node.isFiller .all && !node.isKeyword with
    | nil =>
      rw [hrow] at hempty
      exact absurd rfl hempty
    | cons first run =>
      have hfirst : (!first.isFiller .all && !first.isKeyword) = true := by
        have hall := List.all_takeWhile (l := siblings)
          (p := fun node => !node.isFiller .all && !node.isKeyword)
        rw [hrow, List.all_cons, Bool.and_eq_true] at hall
        exact hall.1
      simp only [isFiller_all, Bool.and_eq_true, Bool.not_eq_true', Bool.or_eq_false_iff] at hfirst
      refine ⟨first, run, siblings.dropWhile fun node => !node.isFiller .all && !node.isKeyword, ?_,
        hfirst.1.1, hfirst.2, rfl⟩
      rw [← List.cons_append, ← hrow, List.takeWhile_append_dropWhile]

end Node

section

variable {lexemes : List Lexeme} {name : String → Prop} (h : Naming lexemes name) {node : Node}
  (hnode : node.Tidy lexemes)
include h hnode

theorem Naming.text_ne_empty (hblank : node.isWhitespace = false) : node.text ≠ "" := by
  obtain ⟨lexeme, others, hfringe, -⟩ := hnode.formed.here.headed hblank
  have hseated := h.seated.of_part hnode.fringe
  rw [hfringe] at hseated
  cases hseated with
  | cons hhead _ =>
    intro hempty
    rw [Node.text_eq_textAll_fringe, hfringe, Lexeme.textAll_cons] at hempty
    have htext := (String.append_eq_empty_iff.1 hempty).1
    exact hhead.nonempty (by simp [htext])

theorem Naming.trim (hblank : node.isWhitespace = false) : name (trim node.text) := by
  refine h.shown node [] ?_ hnode.formed.here hblank (Or.inr rfl) ?_
  · simpa using hnode.fringe
  · simp

theorem Naming.nameAndAlias (hblank : node.isWhitespace = false) :
    name node.nameAndAlias.1 ∧ ∀ other ∈ node.nameAndAlias.2, name other := by
  unfold Node.nameAndAlias
  by_cases hkind : node.kind = .identifier
  · rw [if_pos hkind]
    obtain ⟨first, rest, hchildren, hfiller, hkeyword⟩ := hnode.formed.here.identifier hkind
    rw [Node.isFiller_all, Bool.or_eq_false_iff] at hfiller
    have hfringe : Node.fringeAll (first :: rest) <:+: lexemes := by
      rw [← hchildren]
      exact (Node.infix_fringeAll_children node).trans hnode.fringe
    have hformed : ∀ child ∈ first :: rest, child.Formed := by
      rw [← hchildren]
      exact fun child hchild => (hnode.formed.child child hchild).here
    have hfirst : "" ++ first.text ≠ "" := by
      rw [String.empty_append]
      exact h.text_ne_empty (hnode.child (by simp [hchildren])) hfiller.1
    obtain ⟨run, after, rfl, hname⟩ := Node.exists_of_nameFrom hfirst rest
    have hnameFrom : Node.nameFrom "" node.children = (Node.textAll (first :: run), after) := by
      rw [hchildren, Node.nameFrom, if_neg (by simp [hfiller]), if_neg (by simp [hfiller]), hname]
      simp
    rw [hnameFrom]
    refine ⟨h.shown first run ?_ (hformed first List.mem_cons_self) hfiller.1
      (Or.inl hkeyword) (Or.inl rfl), fun other hother => ?_⟩
    · exact (Node.infix_fringeAll ⟨[], after, by simp⟩).trans hfringe
    · obtain ⟨before, hbefore⟩ := Node.exists_of_afterAs after
      obtain ⟨start, more, behind, hrow, hblank, hword, rfl⟩ := Node.exists_of_aliasFrom? hother
      refine h.shown start more ?_ (hformed start ?_) hblank (Or.inl hword) (Or.inl rfl)
      · refine (Node.infix_fringeAll ⟨first :: (run ++ before), behind, ?_⟩).trans hfringe
        rw [hbefore, hrow]
        simp
      · rw [hbefore, hrow]
        simp
  · rw [if_neg hkind]
    exact ⟨h.trim hnode hblank, by simp⟩

omit h hnode in
theorem CommonTable.find?_eq_of_ofCall {call body : Node} (h : body ∈ (ofCall call).2.2) :
    call.children.find? (fun node => node.kind == .parenthesis) = some body := by
  unfold ofCall at h
  dsimp only at h
  split at h
  · cases h
  · next parentheses hparentheses =>
    split at h
    · obtain rfl := Option.some.inj h
      exact hparentheses
    · cases h

theorem Naming.holds_source (hblank : node.isWhitespace = false) :
    node.source.Holds name fun body => body.Tidy lexemes ∧ body.depth ≤ node.depth := by
  have hnames := h.nameAndAlias hnode hblank
  unfold Node.source Node.subselect?
  by_cases hself : node.isSubselect = true
  · rw [if_pos hself]
    exact ⟨hnames.2, hnode, Nat.le_refl _⟩
  rw [if_neg hself]
  by_cases hkind : node.kind = .identifier
  · rw [if_pos hkind]
    cases hbody : (node.children.find? fun child => !child.isFiller .all).filter Node.isSubselect with
    | none => exact hnames
    | some body =>
      have hmem := List.mem_of_find?_eq_some (Option.filter_eq_some_iff.1 hbody).1
      exact ⟨hnames.2, hnode.child hmem, Nat.le_of_lt (Node.depth_lt_of_mem_children hmem)⟩
  · rw [if_neg hkind]
    exact hnames

/-- The name of a call is that of the function, which stands alone before its parentheses. -/
theorem Naming.ofCall (hkind : node.kind = .function) :
    name (CommonTable.ofCall node).1 := by
  obtain ⟨called, blanks, parentheses, rest, hchildren, hcalled, hblanks, hparentheses⟩ :=
    hnode.formed.here.call hkind
  have hmem : called ∈ node.children := by simp [hchildren]
  have hparts : node.children.takeWhile (fun child => !child.kind == .parenthesis) =
      called :: blanks := by
    have hbefore : ∀ child ∈ called :: blanks, (!child.kind == .parenthesis) = true := by
      intro child hchild
      rcases List.mem_cons.1 hchild with rfl | hchild
      · simp [hcalled]
      · rw [beq_iff_eq.1 (hblanks child hchild)]
        rfl
    have hstop : ¬ (!parentheses.kind == .parenthesis) = true := by simp [hparentheses]
    rw [hchildren, ← List.cons_append, List.takeWhile_append_of_pos hbefore,
      List.takeWhile_cons, if_neg hstop, List.append_nil]
  have hname : (CommonTable.ofCall node).1 = called.text := by
    have hfilter : (called :: blanks).filter (fun part => !part.isFiller .all) = [called] := by
      have hnone : blanks.filter (fun part => !part.isFiller .all) = [] := by
        rw [List.filter_eq_nil_iff]
        intro blank hblank
        simp [hblanks blank hblank]
      have hnot : (!called.isFiller .all) = true := by
        simp [Node.isWhitespace, Node.isComment, hcalled]
      rw [List.filter_cons, if_pos hnot, hnone]
    have hshown : (CommonTable.ofCall node).1 = Node.textAll
        ((node.children.takeWhile fun child => !child.kind == .parenthesis).filter
          fun part => !part.isFiller .all) := by
      unfold CommonTable.ofCall
      dsimp only
      split
      · rfl
      · split <;> rfl
    rw [hshown, hparts, hfilter]
    simp
  rw [hname]
  refine h.shown called [] ?_ (hnode.formed.child called hmem).here ?_ (Or.inr rfl) (Or.inl ?_)
  · simpa using (hnode.child hmem).fringe
  · rw [Node.isWhitespace, hcalled]
    rfl
  · simp

theorem Naming.holds_ofNode {entry : CommonTable} (hentry : CommonTable.ofNode node = .ok entry) :
    entry.Holds name fun body => body.Tidy lexemes ∧ body.depth < node.depth := by
  unfold CommonTable.ofNode at hentry
  split at hentry
  · cases hentry
  · next head rest hchildren =>
    have hsuffix : head :: rest <:+ node.children := by
      rw [← hchildren]
      exact List.dropWhile_suffix _
    have hhead : head ∈ node.children := hsuffix.subset List.mem_cons_self
    have hfiller : head.isWhitespace = false := by
      have hnot : head.isFiller .all = false := by
        have hhead := List.head?_dropWhile_not (Node.isFiller .all) node.children
        rw [hchildren] at hhead
        exact hhead
      rw [Node.isFiller_all, Bool.or_eq_false_iff] at hnot
      exact hnot.1
    have hname : name
        (if head.kind = .function then CommonTable.ofCall head
          else (head.nameAndAlias.1, [], none)).1 := by
      split
      · next hkind => exact h.ofCall (hnode.child hhead) hkind
      · exact (h.nameAndAlias (hnode.child hhead) hfiller).1
    have hcalled : ∀ body ∈ (if head.kind = .function then CommonTable.ofCall head
        else (head.nameAndAlias.1, [], none)).2.2, body ∈ head.children := by
      intro body hbody
      split at hbody
      · exact List.mem_of_find?_eq_some (CommonTable.find?_eq_of_ofCall hbody)
      · cases hbody
    generalize (if head.kind = .function then CommonTable.ofCall head
      else (head.nameAndAlias.1, [], none)) = found at hentry hname hcalled
    obtain ⟨name, columns, body?⟩ := found
    dsimp only at hentry hname hcalled
    split at hentry
    · cases hentry
    · next body hbody =>
      cases hentry
      refine ⟨hname, ?_⟩
      cases body? with
      | some called =>
        obtain rfl := Option.some.inj hbody
        have hmem := hcalled called rfl
        have hless := Node.depth_lt_of_mem_children hmem
        exact ⟨(hnode.child hhead).child hmem, 
          Nat.lt_trans hless (Node.depth_lt_of_mem_children hhead)⟩
      | none =>
        have hmem := hsuffix.subset (List.mem_cons_of_mem _ (List.mem_of_find?_eq_some hbody))
        exact ⟨hnode.child hmem, Node.depth_lt_of_mem_children hmem⟩

theorem Naming.holds_read (hblank : node.isWhitespace = false) {clause : Clause} {reading : Reading}
    (hread : node.read clause = .ok reading) :
    reading.Holds name fun body => body.Tidy lexemes ∧ body.depth ≤ node.depth := by
  have hsources : (Reading.sources (node.items.map Node.source)).Holds name
      fun body => body.Tidy lexemes ∧ body.depth ≤ node.depth := by
    intro source hsource
    obtain ⟨item, hitem, rfl⟩ := List.mem_map.1 hsource
    obtain ⟨htidy, hfiller, hdepth⟩ := hnode.items hblank item hitem
    exact (h.holds_source htidy hfiller).mono (fun _ hname => hname) fun body hbody =>
      ⟨hbody.1, Nat.le_trans hbody.2 hdepth⟩
  cases clause with
  | outside => cases hread; trivial
  | selectList => cases hread; trivial
  | fromList => cases hread; exact hsources
  | joinList => cases hread; exact hsources
  | withList =>
    cases hread
    intro item hitem entry hentry
    obtain ⟨htidy, hfiller, hdepth⟩ := hnode.items hblank item hitem
    obtain ⟨hname, hbody⟩ := h.holds_ofNode htidy hentry
    exact ⟨hname, hbody.1, Nat.le_trans (Nat.le_of_lt hbody.2) hdepth⟩
  | onCondition =>
    cases hfound : node.items.mapM Node.conditions with
    | error error =>
      rw [Node.read, hfound] at hread
      cases hread
    | ok found =>
      rw [Node.read, hfound] at hread
      cases hread
      trivial

omit hnode in
/-- All names in the steps of a query are names, and the queries in it are less deep. -/
theorem Naming.holds_ofNode_steps (hchildren : ∀ child ∈ node.children, child.Tidy lexemes) :
    ∀ step ∈ Step.ofNode node,
      step.Holds name fun body => body.Tidy lexemes ∧ body.depth < node.depth := by
  apply Step.holds_ofSiblings
  intro child hchild hblank clause reading hread
  exact (h.holds_read (hchildren child hchild) hblank hread).mono (fun _ hname => hname)
    fun body hbody =>
    ⟨hbody.1, Nat.lt_of_le_of_lt hbody.2 (Node.depth_lt_of_mem_children hchild)⟩

end

theorem Lexeme.Seated.stripped {lexemes : List Lexeme} (h : Seated lexemes) (stripComments : Bool) :
    Seated (stripped stripComments lexemes) := by
  cases stripComments with
  | false => exact h
  | true => exact h.withoutComments

/-- All nodes of the statements of a text are tidy. -/
theorem Node.tidy_of_mem_statementsOfText {sql : String} {stripComments : Bool}
    {statements : List Node} (h : statementsOfText sql stripComments = .ok statements) :
    ∃ lexemes, Lexeme.ofText sql = .ok lexemes ∧
      Lexeme.Seated (Lexeme.stripped stripComments lexemes) ∧
      ∀ statement ∈ statements, ∀ child ∈ statement.children,
        child.Tidy (Lexeme.stripped stripComments lexemes) := by
  obtain ⟨lexemes, nodes, hlexemes, hnodes, rfl⟩ := statementsOfText_eq_ok_iff.1 h
  have hreads := Lexeme.ofText_eq_ok_iff.1 hlexemes
  have hbracketed := fun node hnode =>
    (bracketed_groupParentheses hreads.isGroup hnodes node hnode).1
  refine ⟨lexemes, hlexemes, hreads.seated.stripped stripComments, ?_⟩
  change ∀ statement ∈ (splitStatements (stripped stripComments nodes)).map Node.statement, _
  have hstripped := bracketed_stripped hbracketed stripComments
  rw [fringeAll_groupParentheses hnodes] at hstripped
  intro statement hstatement child hchild
  obtain ⟨piece, hpiece, rfl⟩ := List.mem_map.1 hstatement
  have hcut := (List.mem_filter.1 hpiece).1
  have hpieces : ∀ node ∈ piece, Bracketed node := fun node hnode =>
    hstripped.1 node (mem_of_mem_cutAtSemicolons hcut hnode)
  refine ⟨formed_groupAll hpieces child hchild, shaped_groupAll hpieces child hchild, ?_⟩
  have hinfix : piece <:+: stripped stripComments nodes := by
    obtain ⟨before, after, heq⟩ := List.append_of_mem hcut
    rw [← flatten_cutAtSemicolons (stripped stripComments nodes), heq]
    exact ⟨before.flatten, after.flatten, by simp⟩
  have hchild : child ∈ groupAll piece := hchild
  rw [← hstripped.2]
  refine (fringe_infix_of_mem hchild).trans ?_
  rw [fringeAll_groupAll fun node hnode => (hpieces node hnode).built]
  exact infix_fringeAll hinfix

end QueryLineage
