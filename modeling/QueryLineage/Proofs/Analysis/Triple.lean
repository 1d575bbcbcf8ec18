import QueryLineage.Proofs.Analysis.Run

/-!
# Conditions before and after a run

What holds before a run is followed by what holds after it, be it of the answer or of the error,
and in both cases of the state that is left. Such statements are put together as the runs are.
-/

namespace QueryLineage

/-- From a state where `before` holds, the run leaves a state where `after` holds with its answer
or, if it fails, one where `failed` holds with its error. -/
def Triple {α σ : Type} (before : σ → Prop) (x : ExceptT LineageError (StateM σ) α)
    (after : α → σ → Prop) (failed : LineageError → σ → Prop) : Prop :=
  ∀ state, before state →
    match x.run state with
    | (.ok a, later) => after a later
    | (.error error, later) => failed error later

namespace Triple

variable {α β σ : Type} {before : σ → Prop} {failed : LineageError → σ → Prop}

section

variable {after : α → σ → Prop}

theorem pure {a : α} (h : ∀ state, before state → after a state) :
    Triple before (Pure.pure a) after failed :=
  h

theorem throw {error : LineageError} (h : ∀ state, before state → failed error state) :
    Triple before (MonadExcept.throw error) after failed :=
  h

theorem get {after : σ → σ → Prop} (h : ∀ state, before state → after state state) :
    Triple before (MonadState.get : ExceptT LineageError (StateM σ) σ) after failed :=
  h

theorem bind {first : ExceptT LineageError (StateM σ) α} {middle : α → σ → Prop}
    {next : α → ExceptT LineageError (StateM σ) β} {after : β → σ → Prop}
    (hfirst : Triple before first middle failed)
    (hnext : ∀ a, Triple (middle a) (next a) after failed) :
    Triple before (first >>= next) after failed := by
  intro state hbefore
  have hmiddle := hfirst state hbefore
  rw [Run.run_bind]
  rcases hrun : first.run state with ⟨result, later⟩
  rw [hrun] at hmiddle
  cases result with
  | error error => exact hmiddle
  | ok a => exact hnext a later hmiddle

theorem mono {x : ExceptT LineageError (StateM σ) α} {stronger : σ → Prop} {weaker : α → σ → Prop}
    (h : Triple before x after failed) (hbefore : ∀ state, stronger state → before state)
    (hafter : ∀ a state, after a state → weaker a state) : Triple stronger x weaker failed := by
  intro state hstronger
  have hlater := h state (hbefore state hstronger)
  rcases hrun : x.run state with ⟨result, later⟩
  rw [hrun] at hlater
  cases result with
  | error error => exact hlater
  | ok a => exact hafter a later hlater

theorem lift {result : Except LineageError α}
    (hok : ∀ a, result = .ok a → ∀ state, before state → after a state)
    (herror : ∀ error, result = .error error → ∀ state, before state → failed error state) :
    Triple before (liftM result : ExceptT LineageError (StateM σ) α) after failed := by
  cases result with
  | error error => exact throw (herror error rfl)
  | ok a => exact pure (hok a rfl)

end

theorem mapM {f : α → ExceptT LineageError (StateM σ) β} (inv : List β → σ → Prop) {as : List α}
    (h : ∀ a ∈ as, ∀ done, Triple (inv done) (f a) (fun b => inv (done ++ [b])) failed)
    (done : List β) : Triple (inv done) (as.mapM f) (fun bs => inv (done ++ bs)) failed := by
  induction as generalizing done with
  | nil =>
    rw [List.mapM_nil]
    exact pure fun state hstate => by rwa [List.append_nil]
  | cons a as ih =>
    rw [List.mapM_cons]
    refine (h a List.mem_cons_self done).bind fun b => ?_
    refine (ih (fun other hother => h other (List.mem_cons_of_mem _ hother)) (done ++ [b])).bind
      fun bs => pure fun state hstate => ?_
    rwa [List.append_cons]

/-- What holds of an answer and the items that are left holds until none is left. -/
theorem foldlM {f : β → α → ExceptT LineageError (StateM σ) β} (inv : List α → β → σ → Prop)
    (h : ∀ a rest b, Triple (inv (a :: rest) b) (f b a) (inv rest) failed) (as : List α) (b : β) :
    Triple (inv as b) (as.foldlM f b) (inv []) failed := by
  induction as generalizing b with
  | nil => exact pure fun _ => id
  | cons a as ih =>
    rw [List.foldlM_cons]
    exact (h a as b).bind fun later => ih later

end Triple

/-- The run keeps `inv`, and `p` holds of its answer. -/
def Keeps {α σ : Type} (inv : σ → Prop) (failed : LineageError → σ → Prop) (p : α → Prop)
    (x : ExceptT LineageError (StateM σ) α) : Prop :=
  Triple inv x (fun a state => p a ∧ inv state) failed

namespace Keeps

variable {α β σ : Type} {inv : σ → Prop} {failed : LineageError → σ → Prop} {p : α → Prop}
  {q : β → Prop}

theorem pure {a : α} (h : p a) : Keeps inv failed p (Pure.pure a) :=
  Triple.pure fun _ hinv => ⟨h, hinv⟩

theorem get : Keeps inv failed inv (MonadState.get : ExceptT LineageError (StateM σ) σ) :=
  Triple.get fun _ hinv => ⟨hinv, hinv⟩

theorem bind {first : ExceptT LineageError (StateM σ) α}
    {next : α → ExceptT LineageError (StateM σ) β} (hfirst : Keeps inv failed p first)
    (hnext : ∀ a, p a → Keeps inv failed q (next a)) : Keeps inv failed q (first >>= next) := by
  refine Triple.bind hfirst fun a state => ?_
  rintro ⟨ha, hinv⟩
  exact hnext a ha state hinv

theorem mono {x : ExceptT LineageError (StateM σ) α} (h : Keeps inv failed p x) {weaker : α → Prop}
    (hweaker : ∀ a, p a → weaker a) : Keeps inv failed weaker x :=
  Triple.mono h (fun _ => id) fun a _ hlater => ⟨hweaker a hlater.1, hlater.2⟩

theorem mapM {f : α → ExceptT LineageError (StateM σ) β} (as : List α)
    (hf : ∀ a ∈ as, Keeps inv failed q (f a)) :
    Keeps inv failed (fun bs => ∀ b ∈ bs, q b) (as.mapM f) := by
  induction as with
  | nil => exact pure (by simp)
  | cons a as ih =>
    rw [List.mapM_cons]
    refine (hf a List.mem_cons_self).bind fun b hb => ?_
    refine (ih fun other hother => hf other (List.mem_cons_of_mem _ hother)).bind fun bs hbs => ?_
    exact pure (by simpa using ⟨hb, hbs⟩)

theorem foldlM {f : β → α → ExceptT LineageError (StateM σ) β} (as : List α)
    (hf : ∀ a ∈ as, ∀ b, q b → Keeps inv failed q (f b a)) {b : β} (hb : q b) :
    Keeps inv failed q (as.foldlM f b) := by
  induction as generalizing b with
  | nil => exact pure hb
  | cons a as ih =>
    rw [List.foldlM_cons]
    refine (hf a List.mem_cons_self b hb).bind fun later hlater => ?_
    exact ih (fun other hother => hf other (List.mem_cons_of_mem _ hother)) hlater

theorem forM {f : α → ExceptT LineageError (StateM σ) PUnit} (as : List α)
    (hf : ∀ a ∈ as, Keeps inv failed (fun _ => True) (f a)) :
    Keeps inv failed (fun _ => True) (as.forM f) := by
  induction as with
  | nil => exact pure trivial
  | cons a as ih =>
    refine (hf a List.mem_cons_self).bind fun _ _ => ?_
    exact ih fun other hother => hf other (List.mem_cons_of_mem _ hother)

end Keeps

end QueryLineage
