import QueryLineage.Tree.Cursor

/-!
# Ways to the next sibling

The next sibling that is not filler is found in three ways: a cursor moves behind it, a cursor looks
ahead without moving, and the group of the siblings is asked for its next child. All three stop at
the same place, and a cursor that moves on and on reads what is not filler one after the other.
-/

namespace QueryLineage

theorem drop_zipIdx {α : Type} (items : List α) (first n : Nat) :
    (items.zipIdx first).drop n = (items.drop n).zipIdx (first + n) := by
  induction n generalizing items first with
  | zero => rfl
  | succ n ih =>
    cases items with
    | nil => rfl
    | cons item items =>
      rw [List.zipIdx_cons, List.drop_succ_cons, List.drop_succ_cons, ih, Nat.add_right_comm]
      rfl

namespace Cursor

/-- The index of the sibling that the cursor stands behind. -/
def behind? (cursor : Cursor) : Option Nat :=
  if cursor.position = 0 then none else some (cursor.position - 1)

/-- The siblings from the current one on, each with its index. -/
def places (cursor : Cursor) : List (Node × Nat) :=
  cursor.remaining.zipIdx cursor.position

/-- Whether a sibling with its index is not to be stepped over. -/
def keeps (filler : Filler) (place : Node × Nat) : Bool :=
  !place.1.isFiller filler

/-- The next sibling that is not filler, with its index. -/
def found? (cursor : Cursor) (filler : Filler) : Option (Node × Nat) :=
  cursor.places.find? (keeps filler)

variable {cursor : Cursor} {filler : Filler}

theorem remaining_skip (cursor : Cursor) (filler : Filler) :
    (cursor.skip filler).remaining = cursor.remaining.dropWhile (Node.isFiller filler) := by
  have hsplit : cursor.remaining.takeWhile (Node.isFiller filler) ++
      cursor.remaining.dropWhile (Node.isFiller filler) = cursor.remaining :=
    List.takeWhile_append_dropWhile
  calc (cursor.skip filler).remaining
      = cursor.remaining.drop (cursor.remaining.takeWhile (Node.isFiller filler)).length := by
        simp [skip, remaining]
    _ = cursor.remaining.dropWhile (Node.isFiller filler) :=
        (congrArg (List.drop _) hsplit.symm).trans List.drop_left

/-- What a cursor steps over is filler, and stands before what it stops at. -/
theorem exists_skipped (cursor : Cursor) (filler : Filler) :
    ∃ skipped, cursor.places = skipped ++ (cursor.skip filler).places ∧
      ∀ place ∈ skipped, keeps filler place = false := by
  refine ⟨(cursor.remaining.takeWhile (Node.isFiller filler)).zipIdx cursor.position, ?_, ?_⟩
  · calc cursor.places
        = (cursor.remaining.takeWhile (Node.isFiller filler) ++
            cursor.remaining.dropWhile (Node.isFiller filler)).zipIdx cursor.position := by
          rw [List.takeWhile_append_dropWhile, places]
      _ = _ := by rw [List.zipIdx_append, places, remaining_skip, skip]
  · intro place hplace
    have hmem := List.fst_mem_of_mem_zipIdx hplace
    have hfiller := List.all_eq_true.1 List.all_takeWhile place.1 hmem
    simp [keeps, hfiller]

theorem remaining_skip_cases (cursor : Cursor) (filler : Filler) :
    (cursor.skip filler).remaining = [] ∨
      ∃ node rest, (cursor.skip filler).remaining = node :: rest ∧ node.isFiller filler = false := by
  have hhead := List.head?_dropWhile_not (Node.isFiller filler) cursor.remaining
  rw [← remaining_skip] at hhead
  cases hrest : (cursor.skip filler).remaining with
  | nil => exact Or.inl rfl
  | cons node rest =>
    rw [hrest] at hhead
    exact Or.inr ⟨node, rest, rfl, hhead⟩

theorem remaining_seek_succ {node : Node} {rest : List Node} (h : cursor.remaining = node :: rest) :
    (cursor.seek (cursor.position + 1)).remaining = rest := by
  have htail : cursor.siblings.drop (cursor.position + 1) =
      (cursor.siblings.drop cursor.position).tail :=
    List.tail_drop.symm
  rw [remaining] at h
  rw [seek, remaining, htail, h, List.tail_cons]

theorem next_of_cons {node : Node} {rest : List Node} (h : cursor.remaining = node :: rest) :
    cursor.next = (some node, cursor.seek (cursor.position + 1)) := by
  rw [next, current?_eq_head?, h]
  rfl

theorem next_of_nil (h : cursor.remaining = []) : cursor.next = (none, cursor) := by
  rw [next, current?_eq_head?, h]
  rfl

/-- Where a sibling is found, the cursor moves behind it, and has stepped over filler only. -/
theorem advance_of_found {node : Node} {index : Nat}
    (h : cursor.found? filler = some (node, index)) :
    cursor.advance filler = (some node, cursor.seek (index + 1)) ∧
      ∃ skipped, cursor.places = skipped ++ (node, index) :: (cursor.seek (index + 1)).places ∧
        ∀ place ∈ skipped, keeps filler place = false := by
  obtain ⟨skipped, hplaces, hskipped⟩ := cursor.exists_skipped filler
  have hnone : skipped.find? (keeps filler) = none :=
    List.find?_eq_none.2 fun place hplace => by simp [hskipped place hplace]
  rw [found?, hplaces, List.find?_append, hnone, Option.none_or, places] at h
  rcases cursor.remaining_skip_cases filler with hrest | ⟨other, rest, hrest, hkept⟩
  · rw [hrest] at h
    cases h
  · have hkeeps : keeps filler (other, (cursor.skip filler).position) = true := by
      simp [keeps, hkept]
    rw [hrest, List.zipIdx_cons, List.find?_cons_of_pos hkeeps] at h
    obtain ⟨rfl, rfl⟩ := Prod.mk.inj (Option.some.inj h)
    refine ⟨next_of_cons hrest, skipped, ?_, hskipped⟩
    have htail : (cursor.seek ((cursor.skip filler).position + 1)).remaining = rest :=
      remaining_seek_succ hrest
    rw [hplaces, places, hrest, List.zipIdx_cons, places, htail]
    rfl

/-- Where none is found, the cursor moves behind all siblings, if it does not stand there. -/
theorem advance_of_not_found (h : cursor.found? filler = none) :
    cursor.advance filler =
      (none, cursor.seek (max cursor.position cursor.siblings.length)) := by
  rcases cursor.remaining_skip_cases filler with hrest | ⟨node, rest, hrest, hkept⟩
  · have hall : cursor.remaining.takeWhile (Node.isFiller filler) = cursor.remaining := by
      have hsplit :=
        List.takeWhile_append_dropWhile (p := Node.isFiller filler) (l := cursor.remaining)
      rwa [← remaining_skip, hrest, List.append_nil] at hsplit
    have hposition : cursor.skip filler =
        cursor.seek (max cursor.position cursor.siblings.length) := by
      rw [skip, hall, remaining, List.length_drop, seek]
      congr 1
      omega
    rw [advance, next_of_nil hrest, hposition]
  · obtain ⟨skipped, hplaces, -⟩ := cursor.exists_skipped filler
    have hmem : (node, (cursor.skip filler).position) ∈ cursor.places := by
      rw [hplaces, places, hrest, List.zipIdx_cons]
      simp
    have hfiller := List.find?_eq_none.1 h _ hmem
    simp [keeps, hkept] at hfiller

theorem advance_eq_none_iff : (cursor.advance filler).1 = none ↔ cursor.found? filler = none := by
  cases hfound : cursor.found? filler with
  | none => simp [advance_of_not_found hfound]
  | some place => simp [(advance_of_found hfound).1]

theorem mem_places {node : Node} {index : Nat} : (node, index) ∈ cursor.places ↔
    cursor.position ≤ index ∧ cursor.siblings[index]? = some node := by
  rw [places, List.mk_mem_zipIdx_iff_le_and_getElem?_sub, remaining, List.getElem?_drop]
  constructor <;> rintro ⟨hle, h⟩ <;> refine ⟨hle, ?_⟩
  · rwa [Nat.add_sub_cancel' hle] at h
  · rwa [Nat.add_sub_cancel' hle]

/-- What a cursor has moved past is filler, or it is what the cursor has read. -/
theorem filler_of_lt_advance {place : Node × Nat} (h : place ∈ cursor.places)
    (hlt : place.2 < (cursor.advance filler).2.position) : keeps filler place = false ∨
      (cursor.advance filler).1 = some place.1 ∧
        (cursor.advance filler).2.position = place.2 + 1 := by
  cases hfound : cursor.found? filler with
  | none => exact Or.inl (by simpa using List.find?_eq_none.1 hfound place h)
  | some first =>
    obtain ⟨hadvance, skipped, hplaces, hskipped⟩ := advance_of_found hfound
    rw [hadvance] at hlt ⊢
    rw [hplaces, List.mem_append, List.mem_cons] at h
    rcases h with h | rfl | h
    · exact Or.inl (hskipped place h)
    · exact Or.inr ⟨rfl, rfl⟩
    · exact absurd hlt (Nat.not_lt.2 (List.mem_zipIdx h).1)

theorem peekPast_eq_found? (cursor : Cursor) (filler : Filler) :
    cursor.peekPast filler = (cursor.found? filler).map Prod.fst := by
  unfold peekPast found? places
  generalize cursor.position = first
  induction cursor.remaining generalizing first with
  | nil => rfl
  | cons node siblings ih =>
    rw [List.zipIdx_cons, List.find?_cons, List.find?_cons, keeps]
    cases node.isFiller filler with
    | true => exact ih (first + 1)
    | false => rfl

/-- The group of the siblings, asked for the child behind the one that the cursor stands behind. -/
theorem nextChild_eq_found? (kind : Kind) (cursor : Cursor) (filler : Filler) :
    (Node.group kind cursor.siblings).nextChild cursor.behind? filler =
      (cursor.found? filler).map Prod.swap := by
  have hstart : cursor.behind?.elim 0 (· + 1) = cursor.position := by
    unfold behind?
    split
    · next h => exact h.symm
    · next h => exact Nat.succ_pred h
  unfold Node.nextChild found? places
  simp only [hstart, Node.children_group, drop_zipIdx, Nat.zero_add]
  rfl

/-- What successive calls of `advance` read, each sibling with its index. Every call may step over
something else. -/
def visits (cursor : Cursor) : List Filler → List (Node × Nat)
  | [] => []
  | filler :: fillers =>
    match cursor.advance filler with
    | (some node, moved) => (node, moved.position - 1) :: moved.visits fillers
    | (none, moved) => moved.visits fillers

/-- Where successive calls of `advance` leave the cursor. -/
def movedBy (cursor : Cursor) : List Filler → Cursor
  | [] => cursor
  | filler :: fillers => (cursor.advance filler).2.movedBy fillers

theorem visits_cons_of_found {node : Node} {index : Nat}
    (h : cursor.found? filler = some (node, index)) (fillers : List Filler) :
    cursor.visits (filler :: fillers) =
      (node, index) :: (cursor.seek (index + 1)).visits fillers := by
  rw [visits, (advance_of_found h).1]
  rfl

theorem visits_cons_of_not_found (h : cursor.found? filler = none) (fillers : List Filler) :
    cursor.visits (filler :: fillers) =
      (cursor.seek (max cursor.position cursor.siblings.length)).visits fillers := by
  rw [visits, advance_of_not_found h]

theorem places_seek_end (cursor : Cursor) :
    (cursor.seek (max cursor.position cursor.siblings.length)).places = [] := by
  have hnil : (cursor.seek (max cursor.position cursor.siblings.length)).remaining = [] :=
    List.drop_eq_nil_of_le (Nat.le_max_right _ _)
  rw [places, hnil, List.zipIdx_nil]

/-- Calls that all step over the same read what is left of the siblings without it. -/
theorem visits_replicate (cursor : Cursor) (filler : Filler) (n : Nat) :
    cursor.visits (List.replicate n filler) = (cursor.places.filter (keeps filler)).take n := by
  induction n generalizing cursor with
  | zero => rfl
  | succ n ih =>
    rw [List.replicate_succ]
    cases hfound : cursor.found? filler with
    | none =>
      have hnone : cursor.places.filter (keeps filler) = [] :=
        List.filter_eq_nil_iff.2 (List.find?_eq_none.1 hfound)
      rw [visits_cons_of_not_found hfound, ih, places_seek_end, hnone, List.filter_nil,
        List.take_nil, List.take_nil]
    | some place =>
      obtain ⟨node, index⟩ := place
      obtain ⟨-, skipped, hplaces, hskipped⟩ := advance_of_found hfound
      have hkeeps : keeps filler (node, index) = true := List.find?_some hfound
      have hnone : skipped.filter (keeps filler) = [] :=
        List.filter_eq_nil_iff.2 fun other hother => by simp [hskipped other hother]
      rw [visits_cons_of_found hfound, ih, hplaces, List.filter_append, hnone, List.nil_append,
        List.filter_cons_of_pos hkeeps, List.take_succ_cons]

theorem visits_append (cursor : Cursor) (fillers others : List Filler) :
    cursor.visits (fillers ++ others) =
      cursor.visits fillers ++ (cursor.movedBy fillers).visits others := by
  induction fillers generalizing cursor with
  | nil => rfl
  | cons filler fillers ih =>
    rw [List.cons_append, movedBy]
    cases hfound : cursor.found? filler with
    | none =>
      rw [visits_cons_of_not_found hfound, visits_cons_of_not_found hfound, ih,
        advance_of_not_found hfound]
    | some place =>
      rw [visits_cons_of_found hfound, visits_cons_of_found hfound, ih, (advance_of_found hfound).1,
        List.cons_append]

theorem length_visits_singleton (cursor : Cursor) (filler : Filler) :
    (cursor.visits [filler]).length = if (cursor.advance filler).1 = none then 0 else 1 := by
  cases hfound : cursor.found? filler with
  | none => rw [visits_cons_of_not_found hfound, advance_of_not_found hfound, if_pos rfl]; rfl
  | some place =>
    rw [visits_cons_of_found hfound, (advance_of_found hfound).1, if_neg (Option.some_ne_none _)]
    rfl

/-- Calls that all step over the same go on reading as long as something else is left. -/
theorem advance_movedBy_replicate (cursor : Cursor) (filler : Filler) (n : Nat) :
    ((cursor.movedBy (List.replicate n filler)).advance filler).1 = none ↔
      (cursor.places.filter (keeps filler)).length ≤ n := by
  have hnext := cursor.visits_append (List.replicate n filler) [filler]
  rw [← List.replicate_succ', visits_replicate, visits_replicate] at hnext
  have hlength := congrArg List.length hnext
  rw [List.length_append, List.length_take, List.length_take, length_visits_singleton] at hlength
  split at hlength
  · next hnone =>
    simp only [hnone, true_iff]
    omega
  · next hsome =>
    simp only [hsome, false_iff]
    omega

/-- Nothing is read twice or out of order. -/
theorem visits_sublist (cursor : Cursor) (fillers : List Filler) :
    (cursor.visits fillers).Sublist cursor.places := by
  induction fillers generalizing cursor with
  | nil => exact List.nil_sublist _
  | cons filler fillers ih =>
    cases hfound : cursor.found? filler with
    | none =>
      rw [visits_cons_of_not_found hfound]
      have hrest := ih (cursor.seek (max cursor.position cursor.siblings.length))
      rw [places_seek_end] at hrest
      exact hrest.trans (List.nil_sublist _)
    | some place =>
      obtain ⟨node, index⟩ := place
      obtain ⟨-, skipped, hplaces, -⟩ := advance_of_found hfound
      rw [visits_cons_of_found hfound, hplaces]
      exact ((ih (cursor.seek (index + 1))).cons_cons _).trans (List.sublist_append_right _ _)

/-- What no call steps over is read, once a cursor has moved past it. -/
theorem mem_visits (cursor : Cursor) (fillers : List Filler) {place : Node × Nat}
    (hplace : place ∈ cursor.places) (hbefore : place.2 < (cursor.movedBy fillers).position)
    (hkeeps : ∀ filler ∈ fillers, keeps filler place = true) : place ∈ cursor.visits fillers := by
  induction fillers generalizing cursor with
  | nil =>
    have hle : cursor.position ≤ place.2 := (List.mem_zipIdx hplace).1
    exact absurd hbefore (Nat.not_lt.2 hle)
  | cons filler fillers ih =>
    have hkept := hkeeps filler List.mem_cons_self
    cases hfound : cursor.found? filler with
    | none => exact absurd hkept (List.find?_eq_none.1 hfound place hplace)
    | some first =>
      obtain ⟨node, index⟩ := first
      obtain ⟨hadvance, skipped, hplaces, hskipped⟩ := advance_of_found hfound
      rw [visits_cons_of_found hfound]
      rw [hplaces] at hplace
      rcases List.mem_append.1 hplace with hmem | hmem
      · rw [hskipped place hmem] at hkept
        cases hkept
      · rcases List.mem_cons.1 hmem with rfl | hmem
        · exact List.mem_cons_self
        · rw [movedBy, hadvance] at hbefore
          have hothers : ∀ other ∈ fillers, keeps other place = true :=
            fun other hother => hkeeps other (List.mem_cons_of_mem _ hother)
          exact List.mem_cons_of_mem _ (ih (cursor.seek (index + 1)) hmem hbefore hothers)

/-- Looking ahead, moving on and asking for the next child agree at every position, also behind the
last sibling. A cursor steps over nothing but filler; where nothing else is left it stops behind all
siblings, if it did not stand further on. Calls of `advance` from the first sibling on read what is
not filler, each once and in order, until nothing else is left; if they differ in what they step
over, this holds of what none of them steps over. -/
theorem advance_eq_nextChild (kind : Kind) (cursor : Cursor) (filler : Filler) :
    cursor.peekPast filler = (cursor.advance filler).1 ∧
    cursor.advance filler =
      (match (Node.group kind cursor.siblings).nextChild cursor.behind? filler with
        | some (index, node) => (some node, cursor.seek (index + 1))
        | none => (none, cursor.seek (max cursor.position cursor.siblings.length))) ∧
    (∀ index node, cursor.position ≤ index → index < (cursor.advance filler).2.position →
      cursor.siblings[index]? = some node → node.isFiller filler = true ∨
        (cursor.advance filler).1 = some node ∧ (cursor.advance filler).2.position = index + 1) ∧
    ((cursor.advance filler).1 = none → (cursor.advance filler).2.remaining = []) ∧
    (∀ n, (cursor.seek 0).visits (List.replicate n filler) =
        (cursor.siblings.zipIdx.filter (keeps filler)).take n ∧
      ((((cursor.seek 0).movedBy (List.replicate n filler)).advance filler).1 = none ↔
        (cursor.siblings.zipIdx.filter (keeps filler)).length ≤ n)) ∧
    ∀ fillers, ((cursor.seek 0).visits fillers).Sublist cursor.siblings.zipIdx ∧
      ∀ place ∈ cursor.siblings.zipIdx, place.2 < ((cursor.seek 0).movedBy fillers).position →
        (∀ filler ∈ fillers, keeps filler place = true) → place ∈ (cursor.seek 0).visits fillers := by
  refine ⟨?peek, ?child, ?skipped, ?spent, ?loop, ?calls⟩
  case peek =>
    rw [peekPast_eq_found?]
    cases hfound : cursor.found? filler with
    | none => rw [advance_of_not_found hfound]; rfl
    | some place => rw [(advance_of_found hfound).1]; rfl
  case child =>
    rw [nextChild_eq_found?]
    cases hfound : cursor.found? filler with
    | none => rw [advance_of_not_found hfound]; rfl
    | some place => rw [(advance_of_found hfound).1]; rfl
  case skipped =>
    intro index node hle hlt hnode
    have hpassed := filler_of_lt_advance (mem_places.2 ⟨hle, hnode⟩) hlt
    exact hpassed.imp_left fun hkeeps => by simpa [keeps] using hkeeps
  case spent =>
    intro hnone
    rw [advance_of_not_found (advance_eq_none_iff.1 hnone)]
    exact List.drop_eq_nil_of_le (Nat.le_max_right _ _)
  case loop => exact fun n => ⟨visits_replicate _ filler n, advance_movedBy_replicate _ filler n⟩
  case calls =>
    exact fun fillers => ⟨visits_sublist _ fillers, fun place hplace hbefore hkeeps =>
      mem_visits (cursor.seek 0) fillers hplace hbefore hkeeps⟩

end Cursor

end QueryLineage
