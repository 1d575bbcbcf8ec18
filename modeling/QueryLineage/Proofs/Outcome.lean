/-!
# Outcomes

What is found of the value that a computation may have is found of the value that it has.
-/

namespace QueryLineage

variable {ε α β : Type} {outcome : Except ε α}

theorem exists_of_isOk (h : outcome.isOk = true) : ∃ a, outcome = .ok a := by
  cases outcome with
  | error error => cases h
  | ok a => exact ⟨a, rfl⟩

theorem eq_ok_of_toOption {a : α} (h : outcome.toOption = some a) : outcome = .ok a := by
  cases outcome with
  | error error => cases h
  | ok found => exact congrArg Except.ok (Option.some.inj h)

theorem exists_of_map {f : α → β} {b : β} (h : outcome.toOption.map f = some b) :
    ∃ a, outcome = .ok a ∧ f a = b := by
  obtain ⟨a, ha, hb⟩ := Option.map_eq_some_iff.1 h
  exact ⟨a, eq_ok_of_toOption ha, hb⟩

theorem exists_of_any {p : α → Bool} (h : outcome.toOption.any p = true) :
    ∃ a, outcome = .ok a ∧ p a = true := by
  obtain ⟨a, ha, hp⟩ := (Option.any_eq_true p outcome.toOption).1 h
  exact ⟨a, eq_ok_of_toOption ha, hp⟩

end QueryLineage
