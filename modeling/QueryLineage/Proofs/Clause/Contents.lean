import QueryLineage.Clause.CommonTable
import QueryLineage.Proofs.Clause.Advance

/-!
# What steps contain

The names that a query gives to its sources and common tables, and the queries in it, show in the
steps that it is read into. Every part of a step was read from a child of the query.
-/

namespace QueryLineage

section

variable (name : String → Prop) (body : Node → Prop)

/-- The names of the source satisfy `name`, and the query in it satisfies `body`. -/
def Source.Holds : Source → Prop
  | named text alias? => name text ∧ ∀ other ∈ alias?, name other
  | derived alias? query => (∀ other ∈ alias?, name other) ∧ body query

/-- The name of the common table satisfies `name`, and its query satisfies `body`. -/
structure CommonTable.Holds (entry : CommonTable) : Prop where
  name : name entry.name
  body : body entry.body

def Reading.Holds : Reading → Prop
  | sources found => ∀ source ∈ found, source.Holds name body
  | entries nodes => ∀ node ∈ nodes, ∀ entry, CommonTable.ofNode node = .ok entry →
      entry.Holds name body
  | columns _ | conditions _ | nothing => True

def Step.Holds : Step → Prop
  | read _ reading _ _ => reading.Holds name body
  | select | restrict _ | fail _ | finish _ => True

end

section

variable {name : String → Prop} {body : Node → Prop}

theorem Source.Holds.mono {source : Source} {text : String → Prop} {other : Node → Prop}
    (h : source.Holds name body) (hname : ∀ shown, name shown → text shown)
    (hbody : ∀ node, body node → other node) : source.Holds text other := by
  cases source with
  | named shown alias? => exact ⟨hname shown h.1, fun shown halias => hname shown (h.2 shown halias)⟩
  | derived alias? query =>
    exact ⟨fun shown halias => hname shown (h.1 shown halias), hbody query h.2⟩

theorem Reading.Holds.mono {reading : Reading} {text : String → Prop} {other : Node → Prop}
    (h : reading.Holds name body) (hname : ∀ shown, name shown → text shown)
    (hbody : ∀ node, body node → other node) : reading.Holds text other := by
  cases reading with
  | sources found => exact fun source hsource => (h source hsource).mono hname hbody
  | entries nodes =>
    intro node hnode entry hentry
    obtain ⟨hshown, hquery⟩ := h node hnode entry hentry
    exact ⟨hname entry.name hshown, hbody entry.body hquery⟩
  | columns attributes => trivial
  | conditions attributes => trivial
  | nothing => trivial

theorem Step.Holds.mono {step : Step} {text : String → Prop} {other : Node → Prop}
    (h : step.Holds name body) (hname : ∀ shown, name shown → text shown)
    (hbody : ∀ node, body node → other node) : step.Holds text other := by
  cases step with
  | read clause reading comment shown => exact Reading.Holds.mono h hname hbody
  | select => trivial
  | restrict conditions => trivial
  | fail error => trivial
  | finish shown => trivial

/-- What holds of the readings of the children of a node holds of its steps. -/
theorem Step.holds_ofSiblings {parent : Node} {reader : Reader} {siblings : List Node}
    (h : ∀ node ∈ siblings, node.isWhitespace = false → ∀ clause reading,
      node.read clause = .ok reading → reading.Holds name body) :
    ∀ step ∈ ofSiblings parent reader siblings, step.Holds name body := by
  induction siblings using forall_of_drop generalizing reader with
  | hnil =>
    rw [ofSiblings]
    split <;> simp [Holds]
  | hcons node siblings ih =>
    have hrest : ∀ (next : Reader) (n : Nat), ∀ step ∈ ofSiblings parent next (siblings.drop n),
        step.Holds name body := fun next n => ih n fun other hother =>
      h other (List.mem_cons_of_mem _ (List.mem_of_mem_drop hother))
    obtain ⟨result, hyields, heq⟩ := exists_yields parent reader node siblings
    rw [heq]
    cases hyields with
    | fail error => simp [resume, Holds]
    | pass next n _ => simpa [resume] using hrest next n
    | restrict conditions next _ => simpa [resume, Holds] using hrest next 0
    | select next _ _ => simpa [resume, Holds] using hrest next 0
    | read clause reading comment next n hblank hread _ =>
      have hreading : reading.Holds name body := by
        rcases hread with hread | ⟨attributes, rfl⟩
        · exact h node List.mem_cons_self hblank clause reading hread
        · trivial
      intro step hstep
      rcases List.mem_cons.1 hstep with rfl | hstep
      · exact hreading
      · exact hrest next n step hstep

end

end QueryLineage
