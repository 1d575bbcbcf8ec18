import QueryLineage.Analysis.Config
import QueryLineage.Clause.Step
import QueryLineage.Proofs.Graph.Alike

/-!
# What two runs may differ in

The comments and the sources of tables only tell where these come from, and no operation looks at
them. Two registries that differ in nothing else therefore stay so under the same operations, even if
the tables that are created get other comments and sources.
-/

namespace QueryLineage

/-- In what two runs may differ: how the comments and sources of the tables of the first one are
related to those of the second one, and its failures to the failures there. -/
structure Leeway where
  comment : String → String → Prop
  source : String → String → Prop
  failure : LineageError → LineageError → Prop
  comment_same : ∀ text, comment text text
  source_none : source "" ""
  failure_same : ∀ error, failure error error

namespace Leeway

/-- Comments, sources and failures are of no interest. -/
def graph : Leeway where
  comment _ _ := True
  source _ _ := True
  failure _ _ := True
  comment_same _ := trivial
  source_none := trivial
  failure_same _ := trivial

/-- Tables may be given texts, or none, under the one configuration, and others under the other. -/
def Admits (L : Leeway) (config other : Config) : Prop :=
  ∀ text? shown? source found, L.source source found →
    L.source ((if config.captureSource then text? else none).getD source)
      ((if other.captureSource then shown? else none).getD found)

theorem graph_admits (config other : Config) : graph.Admits config other :=
  fun _ _ _ _ _ => trivial

end Leeway

variable {L : Leeway}

/-- The steps do the same, but for the comments and the texts that they come with. -/
inductive Step.Within (L : Leeway) : Step → Step → Prop
  | select : Within L .select .select
  | read (clause : Clause) (reading : Reading) {comment found : String} (text shown : String)
      (hcomment : L.comment comment found) :
      Within L (.read clause reading comment text) (.read clause reading found shown)
  | restrict (conditions : List Attribute) : Within L (.restrict conditions) (.restrict conditions)
  | fail {error met : LineageError} (hfailure : L.failure error met) :
      Within L (.fail error) (.fail met)
  | finish (text shown : String) : Within L (.finish text) (.finish shown)

theorem Step.Within.same (step : Step) : step.Within L step := by
  cases step with
  | select => exact .select
  | read clause reading comment text => exact .read clause reading text text (L.comment_same comment)
  | restrict conditions => exact .restrict conditions
  | fail error => exact .fail (L.failure_same error)
  | finish text => exact .finish text text

theorem Step.Within.symm {step other : Step} (h : step.Within .graph other) :
    other.Within .graph step := by
  cases h with
  | select => exact .select
  | read clause reading text shown _ => exact .read clause reading shown text trivial
  | restrict conditions => exact .restrict conditions
  | fail _ => exact .fail trivial
  | finish text shown => exact .finish shown text

/-- The tables say the same, but for their comments and sources. -/
structure Table.Within (L : Leeway) (table other : Table) : Prop extends table.Alike other where
  comment : L.comment table.comment other.comment
  source : L.source table.source other.source

namespace Table.Within

variable {table other : Table} (h : table.Within L other)
include h

theorem isKnownAs (text : String) : other.isKnownAs text = table.isKnownAs text := by
  rw [Table.isKnownAs, Table.isKnownAs, h.name, h.aliases]

theorem addAlias (text : String) : (table.addAlias text).Within L (other.addAlias text) := by
  unfold Table.addAlias
  rw [Table.admits, Table.admits, h.isKnownAs]
  split
  · exact { h with aliases := by rw [h.aliases] }
  · exact h

theorem link (target : Nat) : (table.link target).Within L (other.link target) := by
  unfold Table.link
  rw [h.links]
  split
  · exact h
  · exact { h with links := rfl }

theorem changeAttributes (change : List Attribute → List Attribute) :
    Within L { table with attributes := change table.attributes }
      { other with attributes := change other.attributes } :=
  { h with attributes := congrArg change h.attributes }

theorem changeSource {config moved : Config} (hconfig : L.Admits config moved)
    (text? shown? : Option String) :
    Within L
      { table with source := (if config.captureSource then text? else none).getD table.source }
      { other with source := (if moved.captureSource then shown? else none).getD other.source } :=
  { h with source := hconfig text? shown? _ _ h.source }

end Table.Within

/-- The new tables say the same, but for their comments and sources. -/
structure NewTable.Within (L : Leeway) (new other : NewTable) : Prop where
  name : other.name = new.name
  alias? : other.alias? = new.alias?
  attributes : other.attributes = new.attributes
  comment : L.comment new.comment other.comment
  source : L.source new.source other.source

/-- The registries hold the same tables, but for comments and sources, and go on to count in the same
way. -/
structure Registry.Within (L : Leeway) (registry other : Registry) : Prop where
  tables : List.Forall₂ (Table.Within L) registry.tables other.tables
  selects : other.selects = registry.selects
  joins : other.joins = registry.joins
  others : other.others = registry.others

namespace Registry.Within

theorem empty : Within L .empty .empty :=
  ⟨.nil, rfl, rfl, rfl⟩

theorem refl (hsource : ∀ text, L.source text text) (registry : Registry) :
    registry.Within L registry :=
  ⟨List.forall₂_same.2 fun table _ =>
    ⟨⟨rfl, rfl, rfl, rfl, rfl⟩, L.comment_same table.comment, hsource table.source⟩, rfl, rfl, rfl⟩

variable {registry other : Registry} (h : registry.Within L other)
include h

theorem alike : registry.Alike other :=
  ⟨h.tables.imp fun _ _ htable => htable.toAlike, h.selects, h.joins, h.others⟩

theorem size : other.size = registry.size :=
  h.tables.length_eq.symm

theorem find? (id : Nat) : Option.Rel (Table.Within L) (registry.find? id) (other.find? id) := by
  have htables := h.tables
  unfold Registry.find?
  generalize registry.tables = tables, other.tables = others at htables
  induction htables generalizing id with
  | nil => exact .none
  | cons hhead _ ih =>
    cases id with
    | zero => exact .some hhead
    | succ id => exact ih id

theorem findKnownAs? (text : String) :
    Option.Rel (Table.Within L) (registry.findKnownAs? text) (other.findKnownAs? text) := by
  have htables := h.tables
  unfold Registry.findKnownAs?
  generalize registry.tables = tables, other.tables = others at htables
  induction htables with
  | nil => exact .none
  | cons hhead _ ih =>
    rw [List.find?_cons, List.find?_cons, hhead.isKnownAs]
    split
    · exact .some hhead
    · exact ih

theorem modify {change edit : Table → Table}
    (hchange : ∀ table found : Table, table.Within L found → (change table).Within L (edit found))
    (id : Nat) : (registry.modify id change).Within L (other.modify id edit) := by
  refine ⟨?_, h.selects, h.joins, h.others⟩
  have htables := h.tables
  unfold Registry.modify
  dsimp only
  generalize registry.tables = tables, other.tables = others at htables
  induction htables generalizing id with
  | nil => rw [List.modify_nil, List.modify_nil]; exact .nil
  | cons hhead htail ih =>
    cases id with
    | zero => exact .cons (hchange _ _ hhead) htail
    | succ id => exact .cons hhead (ih id)

theorem link (source target : Nat) :
    (registry.link source target).Within L (other.link source target) := by
  unfold Registry.link
  rw [h.size]
  split
  · exact h.modify (fun _ _ htable => htable.link target) source
  · exact h

theorem count (origin : Origin) : other.count origin = registry.count origin := by
  cases origin
  exacts [h.selects, h.joins, h.others]

theorem counted (origin : Origin) : (registry.counted origin).Within L (other.counted origin) := by
  cases origin
  · exact { h with selects := congrArg (· + 1) h.selects }
  · exact { h with joins := congrArg (· + 1) h.joins }
  · exact { h with others := congrArg (· + 1) h.others }

variable {new fresh : NewTable} (hnew : new.Within L fresh)
include hnew

theorem push (name : String) : (registry.push name new).Within L (other.push name fresh) := by
  refine ⟨List.rel_append h.tables (.cons ?_ .nil), h.selects, h.joins, h.others⟩
  rw [h.size, hnew.alias?]
  exact ⟨⟨rfl, rfl, rfl, hnew.attributes, rfl⟩, hnew.comment, hnew.source⟩

theorem create : (registry.create new).Within L (other.create fresh) := by
  unfold Registry.create
  rw [hnew.name]
  cases new.name with
  | named name => exact h.push hnew name
  | generated origin =>
    dsimp only
    rw [generatedName, generatedName, h.count]
    exact (h.counted origin).push hnew _

end Registry.Within

end QueryLineage
