import QueryLineage.Proofs.Tree.Listed
import QueryLineage.Proofs.Tree.Shape

/-!
# Select lists of any rows

Between the commas of a select list any nodes may stand. Where blocks end in the row in which they
begin, every row is grouped as it is alone; a list is made of what the rows come to as far as each
row comes to a single item.
-/

namespace QueryLineage.Node

/-- How many blocks are open behind siblings before which `depth` are open. There is no number if one
ends that has not begun. -/
def blocksBehind? (depth : Nat) : List Node → Option Nat
  | [] => some depth
  | node :: siblings =>
    if node.isWord "CASE" then blocksBehind? (depth + 1) siblings
    else if node.isWord "END" then
      if depth = 0 then none else blocksBehind? (depth - 1) siblings
    else blocksBehind? depth siblings

/-- If no block is open in the end, then each that is open has its `END`. -/
theorem exists_blockLength? {depth : Nat} {siblings : List Node}
    (h : blocksBehind? (depth + 1) siblings = some 0) :
    ∃ n, blockLength? depth siblings = some n ∧ blocksBehind? 0 (siblings.drop (n + 1)) = some 0 := by
  induction siblings generalizing depth with
  | nil => cases h
  | cons node siblings ih =>
    rw [blocksBehind?] at h
    rw [blockLength?]
    split at h
    · next hcase =>
      obtain ⟨n, hn, hrest⟩ := ih h
      rw [if_pos hcase, hn]
      exact ⟨n + 1, rfl, hrest⟩
    · next hcase =>
      rw [if_neg hcase]
      split at h
      · next hend =>
        rw [if_neg (Nat.succ_ne_zero depth), Nat.add_sub_cancel] at h
        rw [if_pos hend]
        cases depth with
        | zero => exact ⟨0, rfl, h⟩
        | succ depth =>
          obtain ⟨n, hn, hrest⟩ := ih h
          rw [if_neg (Nat.succ_ne_zero depth), Nat.add_sub_cancel, hn]
          exact ⟨n + 1, rfl, hrest⟩
      · next hend =>
        obtain ⟨n, hn, hrest⟩ := ih h
        rw [if_neg hend, hn]
        exact ⟨n + 1, rfl, hrest⟩

theorem blockLength?_append {depth n : Nat} {siblings : List Node}
    (h : blockLength? depth siblings = some n) (others : List Node) :
    blockLength? depth (siblings ++ others) = some n := by
  induction siblings generalizing depth n with
  | nil => cases h
  | cons node siblings ih =>
    have hrest : ∀ depth, (blockLength? depth siblings).map (· + 1) = some n →
        (blockLength? depth (siblings ++ others)).map (· + 1) = some n := by
      intro depth hdepth
      obtain ⟨m, hm, rfl⟩ := Option.map_eq_some_iff.1 hdepth
      rw [ih hm]
      rfl
    rw [List.cons_append, blockLength?]
    rw [blockLength?] at h
    split at h
    · next hcase =>
      rw [if_pos hcase]
      exact hrest _ h
    · next hcase =>
      rw [if_neg hcase]
      split at h
      · next hend =>
        rw [if_pos hend]
        split at h
        · next hdepth =>
          rw [if_pos hdepth]
          exact h
        · next hdepth =>
          rw [if_neg hdepth]
          exact hrest _ h
      · next hend =>
        rw [if_neg hend]
        exact hrest _ h

/-- Where all blocks end, the blocks behind are grouped by themselves. -/
theorem groupCases_append_of_blocks {siblings : List Node} (h : blocksBehind? 0 siblings = some 0)
    (others : List Node) : groupCases (siblings ++ others) = groupCases siblings ++ groupCases others := by
  fun_induction groupCases siblings with
  | case1 => rfl
  | case2 node siblings hcase n hn _ ih =>
    rw [blocksBehind?, if_pos hcase] at h
    obtain ⟨m, hm, hrest⟩ := exists_blockLength? h
    obtain rfl := Option.some.inj (hn.symm.trans hm)
    have hlt := blockLength?_lt hn
    rw [List.cons_append, groupCases, if_pos hcase, blockLength?_append hn]
    dsimp only
    rw [List.take_append_of_le_length (Nat.le_of_lt hlt),
      List.drop_append_of_le_length (Nat.le_of_lt hlt), List.drop_append_of_le_length hlt, ih hrest,
      List.take_append_of_le_length (by rw [List.length_drop]; omega)]
    rfl
  | case3 node siblings hcase hnone _ =>
    rw [blocksBehind?, if_pos hcase] at h
    obtain ⟨n, hn, -⟩ := exists_blockLength? h
    rw [hnone] at hn
    cases hn
  | case4 node siblings hcase ih =>
    rw [blocksBehind?, if_neg hcase] at h
    have hrest : blocksBehind? 0 siblings = some 0 := by
      split at h
      · cases h
      · exact h
    rw [List.cons_append, groupCases, if_neg hcase, ih hrest]
    rfl

/-- Blocks are counted by their keywords. -/
theorem blocksBehind?_map {f : Node → Node} (hf : ∀ node word, (f node).isWord word = node.isWord word)
    (depth : Nat) (siblings : List Node) :
    blocksBehind? depth (siblings.map f) = blocksBehind? depth siblings := by
  induction siblings generalizing depth with
  | nil => rfl
  | cons node siblings ih => rw [List.map_cons, blocksBehind?, blocksBehind?, hf, hf, ih, ih, ih]

/-- Rows with a comma between any two of them. -/
def commaSeparated : List (List Node) → List Node
  | [] => []
  | row :: rows => row ++ rows.flatMap (commaNode :: ·)

theorem commaSeparated_map (f : Node → Node) (hcomma : f commaNode = commaNode)
    (rows : List (List Node)) :
    (commaSeparated rows).map f = commaSeparated (rows.map (·.map f)) := by
  cases rows with
  | nil => rfl
  | cons row rows =>
    rw [commaSeparated, List.map_append, List.map_flatMap, List.map_cons, commaSeparated,
      List.flatMap_map]
    simp only [List.map_cons, hcomma]

theorem forall_mem_commaSeparated (P : Node → Prop) (hcomma : P commaNode) {rows : List (List Node)}
    (h : ∀ row ∈ rows, ∀ node ∈ row, P node) : ∀ node ∈ commaSeparated rows, P node := by
  cases rows with
  | nil => simp [commaSeparated]
  | cons row rows =>
    intro node hnode
    rcases List.mem_append.1 hnode with hnode | hnode
    · exact h row List.mem_cons_self node hnode
    · obtain ⟨other, hother, hnode⟩ := List.mem_flatMap.1 hnode
      rcases List.mem_cons.1 hnode with rfl | hnode
      · exact hcomma
      · exact h other (List.mem_cons_of_mem _ hother) node hnode

theorem mem_commaSeparated {rows : List (List Node)} {row : List Node} (hrow : row ∈ rows)
    {node : Node} (hnode : node ∈ row) : node ∈ commaSeparated rows := by
  cases rows with
  | nil => cases hrow
  | cons first rows =>
    rcases List.mem_cons.1 hrow with rfl | hrow
    · exact List.mem_append_left _ hnode
    · exact List.mem_append_right _ (List.mem_flatMap.2 ⟨row, hrow, List.mem_cons_of_mem _ hnode⟩)

/-- Rows in which all blocks end are grouped one by one, apart from lists. -/
theorem groupItems_commaSeparated {rows : List (List Node)}
    (hblocks : ∀ row ∈ rows, blocksBehind? 0 row = some 0) {tail : List Node}
    (htail : Bounded (groupCases tail)) (hne : rows ≠ []) :
    groupItems (groupCases (commaSeparated rows ++ tail)) =
      commaSeparated (rows.map fun row => groupItems (groupCases row)) ++
        groupItems (groupCases tail) := by
  have hbehind : ∀ others : List (List Node), (∀ row ∈ others, blocksBehind? 0 row = some 0) →
      Bounded (groupCases (others.flatMap (commaNode :: ·) ++ tail)) ∧
        groupItems (groupCases (others.flatMap (commaNode :: ·) ++ tail)) =
          (others.map fun row => groupItems (groupCases row)).flatMap (commaNode :: ·) ++
            groupItems (groupCases tail) := by
    intro others hothers
    induction others with
    | nil => exact ⟨htail, rfl⟩
    | cons row others ih =>
      obtain ⟨hbounded, hgrouped⟩ := ih fun other hother => hothers other (List.mem_cons_of_mem _ hother)
      rw [List.flatMap_cons, List.cons_append, List.cons_append, List.append_assoc,
        groupCases_cons barrier_commaNode.noCase,
        groupCases_append_of_blocks (hothers row List.mem_cons_self)]
      refine ⟨.mark barrier_commaNode.toDivider rfl rfl _, ?_⟩
      rw [barrier_commaNode.toInert.groupItems_cons, hbounded.groupItems_append, hgrouped]
      simp
  obtain ⟨row, rows, rfl⟩ := List.exists_cons_of_ne_nil hne
  obtain ⟨hbounded, hgrouped⟩ := hbehind rows fun other hother =>
    hblocks other (List.mem_cons_of_mem _ hother)
  rw [commaSeparated, List.append_assoc, groupCases_append_of_blocks (hblocks row List.mem_cons_self),
    hbounded.groupItems_append, hgrouped, List.map_cons, commaSeparated, List.append_assoc]

theorem row_cases (row : List Node) : (∀ node ∈ row, node.isFiller .all = true) ∨
    ∃ before node after, row = before ++ node :: after ∧
      (∀ other ∈ before, other.isFiller .all = true) ∧ node.isFiller .all = false := by
  induction row with
  | nil => exact Or.inl (by simp)
  | cons first row ih =>
    cases hfirst : first.isFiller .all with
    | false => exact Or.inr ⟨[], first, row, rfl, by simp, hfirst⟩
    | true =>
      rcases ih with hrow | ⟨before, node, after, rfl, hbefore, hnode⟩
      · exact Or.inl (List.forall_mem_cons.2 ⟨hfirst, hrow⟩)
      · exact Or.inr ⟨first :: before, node, after, rfl, List.forall_mem_cons.2 ⟨hfirst, hbefore⟩, hnode⟩

/-- The items that a list takes of grouped rows. It ends before a row that does not begin with an
item, and in a row that goes on behind its item. -/
def listedItems : List (List Node) → List Node
  | [] => []
  | row :: rows =>
    match row.dropWhile (·.isFiller .all) with
    | [] => []
    | item :: after =>
      if item.isItem then item :: (if after.all (·.isFiller .all) then listedItems rows else [])
      else []

/-- A row that is one item and nothing else, apart from filler. -/
def IsSingle (row : List Node) : Prop :=
  ∃ before item after, row = before ++ item :: after ∧ (∀ node ∈ before, node.isFiller .all = true) ∧
    item.isItem = true ∧ ∀ node ∈ after, node.isFiller .all = true

theorem not_filler_of_item {item : Node} (h : item.isItem = true) : item.isFiller .all = false := by
  have hpart : item.IsPart := Or.inl h
  rw [isFiller_all, hpart.isWhitespace, hpart.isComment]
  rfl

theorem listedItems_of_filler {row : List Node} (h : ∀ node ∈ row, node.isFiller .all = true)
    (rows : List (List Node)) : listedItems (row :: rows) = [] := by
  rw [listedItems, List.dropWhile_eq_nil_iff.2 h]

theorem listedItems_cons {before : List Node} (h : ∀ node ∈ before, node.isFiller .all = true)
    {item : Node} (hitem : item.isFiller .all = false) (after : List Node) (rows : List (List Node)) :
    listedItems ((before ++ item :: after) :: rows) =
      if item.isItem then item :: (if after.all (·.isFiller .all) then listedItems rows else [])
      else [] := by
  rw [listedItems, List.dropWhile_append_of_pos h, List.dropWhile_cons_of_neg (by simp [hitem])]

/-- If each row is one item, the list takes all of them. -/
theorem length_listedItems {rows : List (List Node)} (h : ∀ row ∈ rows, IsSingle row) :
    (listedItems rows).length = rows.length := by
  induction rows with
  | nil => rfl
  | cons row rows ih =>
    obtain ⟨before, item, after, rfl, hbefore, hitem, hafter⟩ := h row List.mem_cons_self
    rw [listedItems_cons hbefore (not_filler_of_item hitem), if_pos hitem,
      if_pos (List.all_eq_true.2 hafter), List.length_cons, List.length_cons,
      ih fun other hother => h other (List.mem_cons_of_mem _ hother)]

/-- What is left of a row without filler and punctuation marks. -/
def significant (siblings : List Node) : List Node :=
  siblings.filter fun node => !node.isFiller .all && !node.isPunctuation

theorem significant_append (siblings others : List Node) :
    significant (siblings ++ others) = significant siblings ++ significant others :=
  List.filter_append _ _

theorem significant_filler {filler : List Node} (h : ∀ node ∈ filler, node.isFiller .all = true) :
    significant filler = [] := by
  rw [significant, List.filter_eq_nil_iff]
  intro node hnode
  simp [h node hnode]

theorem significant_comma (siblings : List Node) :
    significant (commaNode :: siblings) = significant siblings := rfl

theorem significant_item {item : Node} (h : item.isItem = true) (siblings : List Node) :
    significant (item :: siblings) = item :: significant siblings := by
  have hpart : item.IsPart := Or.inl h
  rw [significant, List.filter_cons, if_pos hpart.significant]
  rfl

section

variable {filler : List Node} (h : ∀ node ∈ filler, node.isFiller .all = true)
include h

theorem reach_filler_append (p : Node → Bool) (siblings : List Node) :
    reach .all p (filler ++ siblings) = (reach .all p siblings).map (· + filler.length) := by
  induction filler with
  | nil => simp
  | cons node filler ih =>
    rw [List.cons_append, reach, if_pos (h node List.mem_cons_self),
      ih fun other hother => h other (List.mem_cons_of_mem _ hother), Option.map_map]
    rfl

theorem reach_filler_eq_none (p : Node → Bool) : reach .all p filler = none := by
  have happend := reach_filler_append h p []
  rwa [List.append_nil] at happend

/-- A search ends at the first node that is not filler. -/
theorem reach_eq_none_of_stop {p : Node → Bool} {stop : Node} (hstop : stop.isFiller .all = false)
    (hp : p stop = false) (siblings : List Node) : reach .all p (filler ++ stop :: siblings) = none := by
  rw [reach_filler_append h, reach, if_neg (by simp [hstop]), if_neg (by simp [hp]), Option.map_none]

theorem joinOnce_filler_append (siblings : List Node) :
    joinOnce listExtent (enclose .identifierList) (filler ++ siblings) =
      filler ++ joinOnce listExtent (enclose .identifierList) siblings := by
  induction filler with
  | nil => rfl
  | cons node filler ih =>
    have hitem : node.isItem = false := by
      rw [← Bool.not_eq_true]
      intro hitem
      exact absurd (h node List.mem_cons_self) (by simp only [not_filler_of_item hitem]; decide)
    rw [List.cons_append, joinOnce_cons_of_none (listExtent_of_not_item hitem _),
      ih fun other hother => h other (List.mem_cons_of_mem _ hother), List.cons_append]

theorem reaches_comma (siblings : List Node) :
    reaches .all [(·.isMark ","), isItem] (filler ++ commaNode :: siblings) =
      (reach .all isItem siblings).map (filler.length + 1 + ·) := by
  have hcomma : reach .all (isMark · ",") (commaNode :: siblings) = some 1 := rfl
  have hdrop : (filler ++ commaNode :: siblings).drop (1 + filler.length) = siblings := by
    rw [Nat.add_comm, ← List.drop_drop, List.drop_left]
    rfl
  rw [reaches, reach_filler_append h, hcomma]
  simp only [Option.map_some, bind, Option.bind_some, hdrop, reaches]
  cases reach .all isItem siblings with
  | none => rfl
  | some n =>
    change some (1 + filler.length + (n + 0)) = some (filler.length + 1 + n)
    congr 1
    omega

end

theorem listTail_of_reaches_eq_none {siblings : List Node}
    (h : reaches .all [(·.isMark ","), isItem] siblings = none) : listTail siblings = 0 := by
  cases siblings with
  | nil => rw [listTail]
  | cons node siblings => rw [listTail, h]

theorem listTail_of_reach_eq_none {siblings : List Node}
    (h : reach .all (·.isMark ",") siblings = none) : listTail siblings = 0 := by
  refine listTail_of_reaches_eq_none ?_
  rw [reaches, h]
  rfl

theorem joinOnce_listExtent_of_forall {siblings : List Node}
    (h : ∀ node ∈ siblings, node.isMark "," = false) :
    joinOnce listExtent (enclose .identifierList) siblings = siblings := by
  induction siblings with
  | nil => rw [joinOnce_nil]
  | cons node siblings ih =>
    have hrest : ∀ other ∈ siblings, other.isMark "," = false :=
      fun other hother => h other (List.mem_cons_of_mem _ hother)
    have hreach : reach .all (·.isMark ",") siblings = none := by
      rcases row_cases siblings with hfiller | ⟨before, stop, after, rfl, hbefore, hstop⟩
      · exact reach_filler_eq_none hfiller _
      · exact reach_eq_none_of_stop hbefore hstop (hrest stop (by simp)) _
    have hnone : listExtent node siblings = none := by
      rw [listExtent, listTail_of_reach_eq_none hreach, bne_self_eq_false, Bool.and_false,
        if_neg Bool.false_ne_true]
    rw [joinOnce_cons_of_none hnone, ih hrest]

theorem listTail_comma {first second : List Node} {item : Node}
    (hfirst : ∀ node ∈ first, node.isFiller .all = true)
    (hsecond : ∀ node ∈ second, node.isFiller .all = true) (hitem : item.isItem = true)
    (siblings : List Node) :
    listTail (first ++ commaNode :: (second ++ item :: siblings)) =
      (first ++ commaNode :: (second ++ [item])).length + listTail siblings := by
  have hsplit : first ++ commaNode :: (second ++ item :: siblings) =
      (first ++ commaNode :: (second ++ [item])) ++ siblings := by simp
  have hlength : (first ++ commaNode :: (second ++ [item])).length =
      first.length + second.length + 1 + 1 := by
    simp only [List.length_append, List.length_cons, List.length_nil]
    omega
  have hreaches : reaches .all [(·.isMark ","), isItem]
      (first ++ commaNode :: (second ++ item :: siblings)) =
        some (first.length + second.length + 1 + 1) := by
    rw [reaches_comma hfirst, reach_filler_append hsecond, reach,
      if_neg (by simp only [not_filler_of_item hitem]; decide), if_pos hitem]
    simp only [Option.map_some]
    congr 1
    omega
  have hrest : (first ++ commaNode :: (second ++ item :: siblings)).drop
      (first.length + second.length + 1 + 1) = siblings := by
    rw [hsplit, List.drop_left' hlength]
  obtain ⟨node, rest, hlist⟩ : ∃ node rest,
      first ++ commaNode :: (second ++ item :: siblings) = node :: rest := by
    cases first with
    | nil => exact ⟨_, _, rfl⟩
    | cons node first => exact ⟨_, _, rfl⟩
  rw [hlength]
  rw [hlist] at hreaches hrest ⊢
  rw [listTail, hreaches]
  dsimp only
  rw [List.drop_succ_cons] at hrest
  rw [hrest]

/-- Behind an item with `after` in its row, a list goes on with the rows that `listedItems` takes. -/
theorem exists_listTail {rows : List (List Node)}
    (hrows : ∀ row ∈ rows, ∀ node ∈ row, node.isMark "," = false) {after : List Node}
    (hafter : ∀ node ∈ after, node.isMark "," = false) :
    ∃ taken rest, after ++ rows.flatMap (commaNode :: ·) = taken ++ rest ∧
      listTail (after ++ rows.flatMap (commaNode :: ·)) = taken.length ∧
      significant taken = if after.all (·.isFiller .all) then listedItems rows else [] := by
  induction rows generalizing after with
  | nil =>
    have hreach : reach .all (·.isMark ",") after = none := by
      rcases row_cases after with hfiller | ⟨before, stop, rest, rfl, hbefore, hstop⟩
      · exact reach_filler_eq_none hfiller _
      · exact reach_eq_none_of_stop hbefore hstop (hafter stop (by simp)) _
    rw [List.flatMap_nil, List.append_nil]
    exact ⟨[], after, rfl, listTail_of_reach_eq_none hreach, by rw [listedItems, ite_self]; rfl⟩
  | cons row rows ih =>
    have hothers : ∀ other ∈ rows, ∀ node ∈ other, node.isMark "," = false :=
      fun other hother => hrows other (List.mem_cons_of_mem _ hother)
    rw [List.flatMap_cons, List.cons_append]
    rcases row_cases after with hfiller | ⟨before, stop, rest, rfl, hbefore, hstop⟩
    · have hnothing : reach .all isItem (row ++ rows.flatMap (commaNode :: ·)) = none →
          listTail (after ++ commaNode :: (row ++ rows.flatMap (commaNode :: ·))) = 0 := by
        intro hnone
        apply listTail_of_reaches_eq_none
        rw [reaches_comma hfiller, hnone, Option.map_none]
      rw [if_pos (List.all_eq_true.2 hfiller)]
      rcases row_cases row with hrow | ⟨before, item, behind, rfl, hbefore, hitem⟩
      · have hnone : reach .all isItem (row ++ rows.flatMap (commaNode :: ·)) = none := by
          cases rows with
          | nil =>
            rw [List.flatMap_nil, List.append_nil]
            exact reach_filler_eq_none hrow _
          | cons next rows =>
            exact reach_eq_none_of_stop hrow barrier_commaNode.filler barrier_commaNode.item _
        exact ⟨[], _, rfl, hnothing hnone, (listedItems_of_filler hrow rows).symm⟩
      · rw [listedItems_cons hbefore hitem, List.append_assoc, List.cons_append]
        rw [List.append_assoc, List.cons_append] at hnothing
        cases hkind : item.isItem with
        | false =>
          rw [if_neg Bool.false_ne_true]
          exact ⟨[], _, rfl, hnothing (reach_eq_none_of_stop hbefore hitem hkind _), rfl⟩
        | true =>
          have hbehind : ∀ node ∈ behind, node.isMark "," = false :=
            fun node hnode => hrows _ List.mem_cons_self node (by simp [hnode])
          obtain ⟨taken, rest, hsplit, hlength, hitems⟩ := ih hothers hbehind
          refine ⟨(after ++ commaNode :: (before ++ [item])) ++ taken, rest, ?_, ?_, ?_⟩
          · rw [hsplit]
            simp
          · rw [listTail_comma hfiller hbefore hkind, hlength, ← List.length_append]
          · rw [significant_append, significant_append, significant_filler hfiller, significant_comma,
              significant_append, significant_filler hbefore, significant_item hkind, hitems]
            rfl
    · have hall : (before ++ stop :: rest).all (·.isFiller .all) = false := by
        rw [List.all_eq_false]
        exact ⟨stop, by simp, by simp [hstop]⟩
      have hreach : reach .all (·.isMark ",") ((before ++ stop :: rest) ++
          commaNode :: (row ++ rows.flatMap (commaNode :: ·))) = none := by
        rw [List.append_assoc, List.cons_append]
        exact reach_eq_none_of_stop hbefore hstop (hafter stop (by simp)) _
      rw [hall, if_neg Bool.false_ne_true]
      exact ⟨[], _, rfl, listTail_of_reach_eq_none hreach, rfl⟩

/-- The first part of grouped rows is the list of their items. The rest is rows that the list does
not take, in which there may be further lists. -/
theorem exists_joinOnce_commaSeparated {rows : List (List Node)}
    (hrows : ∀ row ∈ rows, ∀ node ∈ row, node.isMark "," = false) (hitems : listedItems rows ≠ []) :
    ∃ before list rest, joinOnce listExtent (enclose .identifierList) (commaSeparated rows) =
        before ++ list :: joinOnce listExtent (enclose .identifierList) rest ∧
      (∀ node ∈ before, node.isFiller .all = true) ∧
      (listedItems rows = [list] ∧ list.isItem = true ∨
        ∃ children, list = group .identifierList children ∧ significant children = listedItems rows) ∧
      ∀ node ∈ rest, node ∈ commaSeparated rows := by
  cases rows with
  | nil => exact absurd rfl hitems
  | cons row rows =>
    rcases row_cases row with hfiller | ⟨before, item, after, rfl, hbefore, hitem⟩
    · exact absurd (listedItems_of_filler hfiller rows) hitems
    rw [listedItems_cons hbefore hitem] at hitems ⊢
    have hkind : item.isItem = true := by
      by_contra hkind
      rw [if_neg hkind] at hitems
      exact hitems rfl
    rw [if_pos hkind]
    have hafter : ∀ node ∈ after, node.isMark "," = false :=
      fun node hnode => hrows _ List.mem_cons_self node (by simp [hnode])
    obtain ⟨taken, rest, hsplit, hlength, htaken⟩ :=
      exists_listTail (fun other hother => hrows other (List.mem_cons_of_mem _ hother)) hafter
    have hmem : ∀ node ∈ rest, node ∈ before ++ item :: (taken ++ rest) := by
      intro node hnode
      simp [hnode]
    rw [commaSeparated, List.append_assoc, List.cons_append, joinOnce_filler_append hbefore, hsplit,
      ← htaken]
    rw [hsplit] at hlength
    by_cases hnone : taken = []
    · subst hnone
      have hextent : listExtent item ([] ++ rest) = none := by
        rw [listExtent, hlength, List.length_nil, bne_self_eq_false, Bool.and_false,
          if_neg Bool.false_ne_true]
      refine ⟨before, item, rest, ?_, hbefore, Or.inl ⟨rfl, hkind⟩, hmem⟩
      rw [joinOnce_cons_of_none hextent, List.nil_append]
    · have hextent : listExtent item (taken ++ rest) = some taken.length := by
        rw [listExtent, hlength, hkind, Bool.true_and,
          if_pos (bne_iff_ne.2 (List.length_pos_iff.2 hnone).ne')]
      refine ⟨before, group .identifierList (item :: taken), rest, ?_, hbefore,
        Or.inr ⟨_, rfl, significant_item hkind taken⟩, hmem⟩
      rw [joinOnce_cons_of_some hextent, List.take_left, List.drop_left]
      rfl

end QueryLineage.Node
