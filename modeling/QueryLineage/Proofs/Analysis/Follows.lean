import QueryLineage.Proofs.Analysis.Run
import QueryLineage.Proofs.Clause.Contents
import QueryLineage.Proofs.Graph.Placed

/-!
# Runs that follow each other

A run on a larger registry follows a run on a registry that is placed in it: wherever the one
succeeds, so does the other, and the registries that they leave are placed in the same way. So a
query that is interpreted among other tables does what it does by itself.
-/

namespace QueryLineage

/-- Where the first run succeeds, so does the second, in states related by `R`; their answers are
related by `rel`. -/
def Run.Follows {α β : Type} (R : Registry → Registry → Prop) (rel : α → β → Prop)
    (first : Run α) (second : Run β) : Prop :=
  ∀ registry larger, R registry larger → ∀ a after, first.run registry = (.ok a, after) →
    ∃ b other, second.run larger = (.ok b, other) ∧ R after other ∧ rel a b

namespace Run.Follows

variable {α β γ δ : Type} {R : Registry → Registry → Prop} {rel : α → β → Prop}

theorem pure {a : α} {b : β} (h : rel a b) : Follows R rel (Pure.pure a) (Pure.pure b) := by
  intro registry larger hR _ _ hrun
  obtain ⟨heq, rfl⟩ := Prod.mk.inj hrun
  obtain rfl := Except.ok.inj heq
  exact ⟨b, larger, rfl, hR, h⟩

theorem throw {second : Run β} (error : LineageError) :
    Follows R rel (MonadExcept.throw error) second := by
  intro registry larger _ _ _ hrun
  cases hrun

theorem get : Follows R R (MonadState.get : Run Registry) (MonadState.get : Run Registry) := by
  intro registry larger hR _ _ hrun
  obtain ⟨heq, rfl⟩ := Prod.mk.inj hrun
  obtain rfl := Except.ok.inj heq
  exact ⟨larger, larger, rfl, hR, hR⟩

theorem bind {later : γ → δ → Prop} {first : Run α} {second : Run β} {next : α → Run γ}
    {other : β → Run δ} (hfirst : Follows R rel first second)
    (hnext : ∀ a b, rel a b → Follows R later (next a) (other b)) :
    Follows R later (first >>= next) (second >>= other) := by
  intro registry larger hR c after hrun
  rw [Run.run_bind_eq_ok_iff] at hrun
  obtain ⟨a, middle, hresult, hrest⟩ := hrun
  obtain ⟨b, middle', hsecond, hmiddle, hrel⟩ := hfirst registry larger hR a middle hresult
  rw [run_bind_ok other hsecond]
  exact hnext a b hrel middle middle' hmiddle c after hrest

theorem mono {weaker : α → β → Prop} {first : Run α} {second : Run β}
    (h : Follows R rel first second) (hweaker : ∀ a b, rel a b → weaker a b) :
    Follows R weaker first second := by
  intro registry larger hR a after hrun
  obtain ⟨b, other, hsecond, hother, hrel⟩ := h registry larger hR a after hrun
  exact ⟨b, other, hsecond, hother, hweaker a b hrel⟩

theorem mapM {f : γ → Run α} {g : γ → Run β} {items : List γ}
    (h : ∀ item ∈ items, Follows R rel (f item) (g item)) :
    Follows R (List.Forall₂ rel) (items.mapM f) (items.mapM g) := by
  induction items with
  | nil => exact pure .nil
  | cons item items ih =>
    rw [List.mapM_cons, List.mapM_cons]
    refine (h item List.mem_cons_self).bind fun a b hrel => ?_
    refine (ih fun other hother => h other (List.mem_cons_of_mem _ hother)).bind
      fun as bs hrels => ?_
    exact pure (.cons hrel hrels)

theorem foldlM {f : α → γ → Run α} {g : β → δ → Run β} {items : List γ} {others : List δ}
    {same : γ → δ → Prop} (hitems : List.Forall₂ same items others)
    (h : ∀ item ∈ items, ∀ other, same item other → ∀ a b, rel a b →
      Follows R rel (f a item) (g b other)) {a : α} {b : β} (hrel : rel a b) :
    Follows R rel (items.foldlM f a) (others.foldlM g b) := by
  induction hitems generalizing a b with
  | nil => exact pure hrel
  | @cons item other items others hsame _ ih =>
    rw [List.foldlM_cons, List.foldlM_cons]
    refine (h item List.mem_cons_self other hsame a b hrel).bind fun a b hrel => ?_
    exact ih (fun item hitem => h item (List.mem_cons_of_mem _ hitem)) hrel

section Placed

variable {P : Placing}

theorem create {new : NewTable} (hname : ∀ name, new.name = .named name → ∀ n, name ≠ selectName n)
    (halias : ∀ text ∈ new.alias?, ∀ n, text ≠ selectName n) :
    Follows (Registry.Placed P) (fun id other => id ≠ 0 ∧ other = id + P.shift) (Run.create new)
      (Run.create new) := by
  intro registry larger hR _ _ hrun
  obtain ⟨heq, rfl⟩ := Prod.mk.inj hrun
  obtain rfl := Except.ok.inj heq
  exact ⟨_, _, rfl, hR.create hname halias, Nat.ne_of_gt hR.size_pos, hR.size⟩

theorem link (source target : Nat) :
    Follows (Registry.Placed P) (fun _ _ => True) (Run.link source target)
      (Run.link (source + P.shift) (target + P.shift)) := by
  intro registry larger hR _ _ hrun
  obtain ⟨-, rfl⟩ := Prod.mk.inj hrun
  exact ⟨(), _, rfl, hR.link source target, trivial⟩

theorem addAlias {id : Nat} (hid : id ≠ 0) {text : String} (htext : ∀ n, text ≠ selectName n) :
    Follows (Registry.Placed P) (fun _ _ => True) (modify (·.addAlias id text) : Run Unit)
      (modify (·.addAlias (id + P.shift) text) : Run Unit) := by
  intro registry larger hR _ _ hrun
  obtain ⟨-, rfl⟩ := Prod.mk.inj hrun
  exact ⟨(), _, rfl, hR.addAlias hid htext, trivial⟩

variable (hshows : ∀ source, P.shows source source)
include hshows

theorem change (id : Nat) (attributes : List Attribute → List Attribute)
    (source? : Option String) {change : Table → Table}
    (hchange : ∀ table, change table = { table with
      attributes := attributes table.attributes, source := source?.getD table.source }) :
    Follows (Registry.Placed P) (fun _ _ => True) (Run.change id change)
      (Run.change (id + P.shift) change) := by
  obtain rfl : change = _ := funext hchange
  intro registry larger hR _ _ hrun
  obtain ⟨-, rfl⟩ := Prod.mk.inj hrun
  exact ⟨(), _, rfl, hR.modify_same hshows id attributes source?, trivial⟩

end Placed

end Run.Follows

end QueryLineage
