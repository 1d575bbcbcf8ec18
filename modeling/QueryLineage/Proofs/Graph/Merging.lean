import QueryLineage.Graph.Table

/-!
# Merging attributes

Attributes that come to a table are taken in one after the other: each puts its condition on the
first attribute of the same column, or comes last. Who is of the same column is decided by names and
aliases alone, which never change; so every attribute finds the place again that it came to, and
taking in the same attributes once more changes nothing.
-/

namespace QueryLineage

namespace Attribute

/-- What an attribute is known by. -/
def label (column : Attribute) : String × Option String :=
  (column.name, column.alias?)

/-- Where an attribute comes to: the first one of the same column or, if there is none, behind the
last. -/
def seat (attributes : List Attribute) (column : Attribute) : Nat :=
  attributes.findIdx (·.isSameAs column)

/-- The incoming attributes, each with the attributes that it finds at its turn. -/
def turns (attributes : List Attribute) : List Attribute → List (List Attribute × Attribute)
  | [] => []
  | column :: incoming => (attributes, column) :: turns (update attributes column) incoming

/-- The incoming attributes that at their turn find none of the same column. -/
def newcomers (attributes incoming : List Attribute) : List Attribute :=
  ((turns attributes incoming).filter fun turn => !turn.1.any (·.isSameAs turn.2)).map Prod.snd

/-- The last of the incoming attributes that comes to the place. -/
def lastAt (attributes incoming : List Attribute) (index : Nat) : Option Attribute :=
  ((turns attributes incoming).filter fun turn => seat turn.1 turn.2 == index).getLast?.map Prod.snd

variable {attributes incoming others : List Attribute} {column : Attribute}

@[simp] theorem updateAll_cons (attributes : List Attribute) (column : Attribute)
    (incoming : List Attribute) :
    updateAll attributes (column :: incoming) = updateAll (update attributes column) incoming := rfl

@[simp] theorem newcomers_nil (attributes : List Attribute) : newcomers attributes [] = [] := rfl

theorem newcomers_cons_of_any (h : attributes.any (·.isSameAs column) = true) :
    newcomers attributes (column :: incoming) = newcomers (update attributes column) incoming := by
  simp [newcomers, turns, h]

theorem newcomers_cons_of_not_any (h : attributes.any (·.isSameAs column) = false) :
    newcomers attributes (column :: incoming) =
      column :: newcomers (update attributes column) incoming := by
  simp [newcomers, turns, h]

@[simp] theorem lastAt_nil (attributes : List Attribute) (index : Nat) :
    lastAt attributes [] index = none := rfl

theorem lastAt_cons (attributes : List Attribute) (column : Attribute)
    (incoming : List Attribute) (index : Nat) : lastAt attributes (column :: incoming) index =
      (lastAt (update attributes column) incoming index).or
        (if seat attributes column = index then some column else none) := by
  unfold lastAt
  rw [turns, List.filter_cons]
  by_cases h : seat attributes column = index
  · simp only [h, beq_self_eq_true, if_true, List.getLast?_cons]
    cases ((turns (update attributes column) incoming).filter
      fun turn => seat turn.1 turn.2 == index).getLast? <;> rfl
  · simp [h]

theorem update_of_not_any (h : attributes.any (·.isSameAs column) = false) :
    update attributes column = attributes ++ [column] := by
  induction attributes with
  | nil => rfl
  | cons existing rest ih =>
    rw [List.any_cons, Bool.or_eq_false_iff] at h
    rw [update, if_neg (by simp [h.1]), ih h.2, List.cons_append]

theorem label_update_of_any (h : attributes.any (·.isSameAs column) = true) :
    (update attributes column).map label = attributes.map label := by
  induction attributes with
  | nil => simp at h
  | cons existing rest ih =>
    rw [update]
    by_cases hsame : existing.isSameAs column = true
    · rw [if_pos hsame]
      rfl
    · rw [if_neg hsame, List.map_cons, List.map_cons, ih (by simpa [hsame] using h)]

/-- The place that an attribute comes to, with its condition. All other places stay as they are. -/
theorem getElem?_update (attributes : List Attribute) (column : Attribute) (index : Nat) :
    (update attributes column)[index]? =
      if seat attributes column = index then
        some { (attributes[index]?.getD column) with condition? := column.condition? }
      else attributes[index]? := by
  induction attributes generalizing index with
  | nil => cases index <;> simp [update, seat]
  | cons existing rest ih =>
    rw [update, seat, List.findIdx_cons]
    cases hsame : existing.isSameAs column with
    | true => cases index <;> simp
    | false =>
      cases index with
      | zero => simp
      | succ index =>
        have hrest := ih index
        rw [seat] at hrest
        by_cases hseat : rest.findIdx (·.isSameAs column) = index
        · rw [if_pos hseat] at hrest
          simp [hrest, hseat]
        · rw [if_neg hseat] at hrest
          simp [hrest, hseat]

theorem isSameAs_congr {first second other : Attribute} (h : first.label = second.label) :
    first.isSameAs other = second.isSameAs other := by
  obtain ⟨hname, halias⟩ := Prod.mk.inj h
  simp only [isSameAs, hname, halias]

/-- An attribute comes to the same place wherever the labels up to there are the same. -/
theorem seat_eq_of_labels (h : attributes.map label <+: others.map label)
    (hseat : seat attributes column < attributes.length) :
    seat others column = seat attributes column := by
  induction attributes generalizing others with
  | nil => cases hseat
  | cons existing rest ih =>
    cases others with
    | nil => simp at h
    | cons other others =>
      obtain ⟨hlabel, hrest⟩ := List.cons_prefix_cons.1 h
      rw [seat, List.findIdx_cons] at hseat ⊢
      rw [seat, List.findIdx_cons, ← isSameAs_congr hlabel]
      cases hsame : existing.isSameAs column with
      | true => rfl
      | false =>
        rw [hsame] at hseat
        exact congrArg (· + 1) (ih hrest (Nat.lt_of_succ_lt_succ hseat))

/-- An attribute finds the place again that it came to. -/
theorem seat_update (attributes : List Attribute) (column : Attribute) :
    seat (update attributes column) column = seat attributes column := by
  induction attributes with
  | nil => simp [update, seat]
  | cons existing rest ih =>
    rw [update]
    cases hsame : existing.isSameAs column with
    | true =>
      have hsame' :
          ({ existing with condition? := column.condition? } : Attribute).isSameAs column = true :=
        hsame
      rw [if_pos rfl, seat, seat, List.findIdx_cons, List.findIdx_cons, hsame', hsame]
    | false =>
      rw [if_neg Bool.false_ne_true, seat, seat, List.findIdx_cons, List.findIdx_cons, hsame]
      exact congrArg (· + 1) ih

theorem seat_lt_length_update (attributes : List Attribute) (column : Attribute) :
    seat attributes column < (update attributes column).length := by
  have hplace := getElem?_update attributes column (seat attributes column)
  rw [if_pos rfl] at hplace
  exact (List.getElem?_eq_some_iff.1 hplace).1

theorem exists_of_mem_update {other : Attribute} (h : other ∈ update attributes column) :
    ∃ first, (first ∈ attributes ∨ first = column) ∧ first.label = other.label := by
  cases hany : attributes.any (·.isSameAs column) with
  | true =>
    have hlabel := List.mem_map_of_mem (f := label) h
    rw [label_update_of_any hany] at hlabel
    obtain ⟨first, hfirst, hsame⟩ := List.mem_map.1 hlabel
    exact ⟨first, Or.inl hfirst, hsame⟩
  | false =>
    rw [update_of_not_any hany, List.mem_append, List.mem_singleton] at h
    exact ⟨other, h, rfl⟩

/-- What is there keeps its name and its alias, and the newcomers come behind it in order. -/
theorem label_updateAll (attributes incoming : List Attribute) :
    (updateAll attributes incoming).map label =
      (attributes ++ newcomers attributes incoming).map label := by
  induction incoming generalizing attributes with
  | nil => simp
  | cons column incoming ih =>
    rw [updateAll_cons, ih]
    cases hany : attributes.any (·.isSameAs column) with
    | true =>
      rw [newcomers_cons_of_any hany, List.map_append, List.map_append, label_update_of_any hany]
    | false =>
      rw [newcomers_cons_of_not_any hany, update_of_not_any hany, List.append_assoc]
      rfl

/-- Every place has the condition of the last attribute that came to it. -/
theorem condition?_updateAll (attributes incoming : List Attribute) (index : Nat) :
    (updateAll attributes incoming)[index]?.map condition? =
      ((lastAt attributes incoming index).or attributes[index]?).map condition? := by
  induction incoming generalizing attributes with
  | nil => simp
  | cons column incoming ih =>
    rw [updateAll_cons, ih, lastAt_cons, getElem?_update]
    cases lastAt (update attributes column) incoming index with
    | some last => rfl
    | none =>
      by_cases hseat : seat attributes column = index
      · simp [hseat]
      · simp [hseat]

theorem pairwise_update
    (h : attributes.Pairwise fun first second => first.isSameAs second = false)
    (column : Attribute) :
    (update attributes column).Pairwise fun first second => first.isSameAs second = false := by
  induction attributes with
  | nil => exact List.pairwise_singleton _ _
  | cons existing rest ih =>
    obtain ⟨hhead, hrest⟩ := List.pairwise_cons.1 h
    rw [update]
    cases hsame : existing.isSameAs column with
    | true => exact List.pairwise_cons.2 ⟨hhead, hrest⟩
    | false =>
      refine List.pairwise_cons.2 ⟨fun other hother => ?_, ih hrest⟩
      obtain ⟨first, hfirst, hlabel⟩ := exists_of_mem_update hother
      rw [isSameAs_comm, ← isSameAs_congr hlabel, isSameAs_comm]
      rcases hfirst with hfirst | rfl
      · exact hhead first hfirst
      · exact hsame

theorem pairwise_updateAll
    (h : attributes.Pairwise fun first second => first.isSameAs second = false)
    (incoming : List Attribute) :
    (updateAll attributes incoming).Pairwise fun first second => first.isSameAs second = false := by
  induction incoming generalizing attributes with
  | nil => exact h
  | cons column incoming ih => exact ih (pairwise_update h column)

/-- Attributes that come again find their places: none is new, and each comes to the place that it
came to before. -/
theorem newcomers_again (h : (updateAll attributes incoming).map label <+: others.map label) :
    newcomers others incoming = [] ∧
      ∀ index, lastAt others incoming index = lastAt attributes incoming index := by
  induction incoming generalizing attributes others with
  | nil => exact ⟨rfl, fun _ => rfl⟩
  | cons column incoming ih =>
    rw [updateAll_cons] at h
    have hlabels : (update attributes column).map label <+: others.map label := by
      rw [label_updateAll, List.map_append] at h
      exact (List.prefix_append _ _).trans h
    have hlt := seat_lt_length_update attributes column
    have hseat : seat others column = seat attributes column := by
      rw [← seat_update] at hlt
      rw [seat_eq_of_labels hlabels hlt, seat_update]
    have hany : others.any (·.isSameAs column) = true := by
      have hlength : (update attributes column).length ≤ others.length := by
        simpa using hlabels.length_le
      have hfound : others.findIdx (·.isSameAs column) < others.length := by
        rw [seat] at hseat
        omega
      exact List.any_eq_true.2 (List.findIdx_lt_length.1 hfound)
    have hlabels' : (updateAll (update attributes column) incoming).map label <+:
        (update others column).map label := by
      rwa [label_update_of_any hany]
    obtain ⟨hnone, hlast⟩ := ih hlabels'
    refine ⟨(newcomers_cons_of_any hany).trans hnone, fun index => ?_⟩
    rw [lastAt_cons, lastAt_cons, hlast, hseat]

theorem eq_of_label {first second : Attribute} (hlabel : first.label = second.label)
    (hcondition : first.condition? = second.condition?) : first = second := by
  cases first
  cases second
  simp_all [label]

theorem eq_of_map_label (hlabel : attributes.map label = others.map label)
    (hcondition : ∀ index : Nat, attributes[index]?.map condition? = others[index]?.map condition?) :
    attributes = others := by
  refine List.ext_getElem? fun index => ?_
  have hindex := congrArg (fun labels : List (String × Option String) => labels[index]?) hlabel
  have hcond := hcondition index
  simp only [List.getElem?_map] at hindex
  cases hfirst : attributes[index]? with
  | none =>
    rw [hfirst] at hindex
    exact (Option.map_eq_none_iff.1 hindex.symm).symm
  | some first =>
    rw [hfirst] at hindex hcond
    obtain ⟨second, hsecond, hsame⟩ := Option.map_eq_some_iff.1 hindex.symm
    rw [hsecond] at hcond ⊢
    rw [eq_of_label hsame.symm (Option.some.inj hcond)]

/-- What has been taken in changes nothing when it comes again. -/
theorem updateAll_updateAll (attributes incoming : List Attribute) :
    updateAll (updateAll attributes incoming) incoming = updateAll attributes incoming := by
  obtain ⟨hnone, hlast⟩ :=
    newcomers_again (List.prefix_refl ((updateAll attributes incoming).map label))
  refine eq_of_map_label ?_ fun index => ?_
  · rw [label_updateAll, hnone, List.append_nil]
  · rw [condition?_updateAll, hlast, Option.map_or, condition?_updateAll, ← Option.map_or,
      ← Option.or_assoc, Option.or_self]

end Attribute

/-- Merging attributes into a table keeps the names and the aliases of those that are there, and
brings in behind them, in order, those that at their turn find none of the same column. Every place
has the condition of the last attribute that came to it, or else the one that it had. Where all
columns were different they still are, and merging the same attributes again changes nothing. -/
theorem Table.updateAttributes_stable (table : Table) (incoming : List Attribute) :
    (table.updateAttributes incoming).attributes.map Attribute.label =
        (table.attributes ++ Attribute.newcomers table.attributes incoming).map Attribute.label ∧
      (∀ index, (table.updateAttributes incoming).attributes[index]?.map Attribute.condition? =
        ((Attribute.lastAt table.attributes incoming index).or table.attributes[index]?).map
          Attribute.condition?) ∧
      ((table.attributes.Pairwise fun first second => first.isSameAs second = false) →
        (table.updateAttributes incoming).attributes.Pairwise
          fun first second => first.isSameAs second = false) ∧
      (table.updateAttributes incoming).updateAttributes incoming =
        table.updateAttributes incoming :=
  ⟨Attribute.label_updateAll _ _, Attribute.condition?_updateAll _ _,
    fun h => Attribute.pairwise_updateAll h _,
    congrArg (fun attributes => { table with attributes }) (Attribute.updateAll_updateAll _ _)⟩

-- The second attribute overwrites what the first has put on `x`, and the last one finds the third.
example :
    Attribute.updateAll [.aliased "x" (some "y")]
        [.withCondition "y" "=" "1", { name := "z", alias? := some "x", condition? := some "= 2" },
          .ofName "w", { name := "v", alias? := some "w", condition? := some "> 3" }] =
      [{ name := "x", alias? := some "y", condition? := some "= 2" },
        { name := "w", condition? := some "> 3" }] := by
  decide +kernel

end QueryLineage
