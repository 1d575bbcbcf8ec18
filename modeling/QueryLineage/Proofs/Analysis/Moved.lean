import QueryLineage.Analysis.Basic
import QueryLineage.Proofs.Analysis.Follows

/-!
# Walks in a larger registry

A walk that records what it finds in a registry is followed by the walk that records the same in a
larger registry, where the tables stand at other places. This is shown for one step first; a query
and the queries in it then follow by induction on their depth.
-/

namespace QueryLineage

open Text Run Run.Follows

/-- The second walk has got as far as the first one, in a registry where the tables are moved by
`shift`. Their own table is the table `own` of the first registry; if they are `nested`, it was
there before them. -/
structure Walk.Moved (nested : Prop) (shift own : Nat) (walk other : Walk) : Prop where
  table : walk.table = some own
  otherTable : other.table = some (own + shift)
  declared : other.declared = walk.declared
  listRead : other.listRead = walk.listRead
  lastJoin : other.lastJoin = walk.lastJoin.map (· + shift)
  anchor : other.anchor = walk.anchor.map (· + shift)
  enclosing : nested → walk.enclosing.isSome = true ∧ other.enclosing.isSome = true

/-- The second finding is the first one, in a registry where the tables are moved by `shift`. -/
inductive Finding.Moved (shift : Nat) : Finding → Finding → Prop
  | columns (attributes : List Attribute) : Moved shift (columns attributes) (columns attributes)
  | source (name : String) (alias? : Option String) :
      Moved shift (source name alias?) (source name alias?)
  | derived (id : Nat) : Moved shift (derived id) (derived (id + shift))
  | conditions (attributes : List Attribute) :
      Moved shift (conditions attributes) (conditions attributes)
  | nothing : Moved shift nothing nothing

/-- The names of a finding satisfy `name`. -/
def Finding.Holds (name : String → Prop) : Finding → Prop
  | source text alias? => name text ∧ ∀ other ∈ alias?, name other
  | columns _ | derived _ | conditions _ | nothing => True

section

variable {P : Placing} {nested : Prop} {own : Nat} {walk other : Walk}

namespace Run.Follows

theorem knownAs {name : String} (hname : P.Admits name) :
    Follows (Registry.Placed P) (fun id other => id ≠ 0 ∧ other = id + P.shift)
      (Walk.knownAs name) (Walk.knownAs name) := by
  unfold Walk.knownAs
  refine get.bind fun registry larger hplaced => ?_
  rcases hplaced.findKnownAs? hname with ⟨hnone, hother⟩ | ⟨found, moved, hfound, hmoved, hid, heq⟩
  · rw [hnone, hother]
    refine create ?_ (by simp)
    intro text htext
    obtain rfl := TableName.named.inj htext
    exact hname.select
  · rw [hfound, hmoved]
    exact pure ⟨hid, heq⟩

theorem giveAlias {id : Nat} (hid : id ≠ 0) {alias? : Option String}
    (halias : ∀ text ∈ alias?, P.Admits text) :
    Follows (Registry.Placed P) (fun _ _ => True) (Walk.giveAlias id alias?)
      (Walk.giveAlias (id + P.shift) alias?) := by
  cases alias? with
  | none => exact pure trivial
  | some text => exact (addAlias hid (halias text rfl).select).mono fun _ _ _ => trivial

theorem tableNamed {name : String} {alias? : Option String} (hname : P.Admits name)
    (halias : ∀ text ∈ alias?, P.Admits text) :
    Follows (Registry.Placed P) (fun id other => other = id + P.shift)
      (Walk.tableNamed name alias?) (Walk.tableNamed name alias?) := by
  rw [Walk.tableNamed_eq]
  refine (knownAs hname).bind ?_
  rintro id _ ⟨hid, rfl⟩
  exact (giveAlias hid halias).bind fun _ _ _ => pure rfl

section

variable (hshows : ∀ source, P.shows source source)
include hshows

theorem fill (id : Nat) (produced : List Attribute) :
    Follows (Registry.Placed P) (fun _ _ => True) (Walk.fill id produced)
      (Walk.fill (id + P.shift) produced) := by
  unfold Walk.fill
  refine get.bind fun registry larger hplaced => ?_
  cases hfind : registry.find? id with
  | none =>
    rw [hplaced.find?_eq_none hfind]
    exact pure trivial
  | some table =>
    obtain ⟨other, hother, -, hshares⟩ := hplaced.shares hfind
    rw [hother]
    dsimp only
    rw [hshares.attributes]
    by_cases hfew : produced.length < (table.attributes.filter Attribute.isPlaceholder).length
    · rw [if_pos hfew]
      exact throw _
    · rw [if_neg hfew, if_neg hfew]
      exact change hshows id (Attribute.fillPlaceholders · produced) none fun _ => rfl

theorem addColumns (h : walk.Moved nested P.shift own other) (attributes : List Attribute) :
    Follows (Registry.Placed P) (Walk.Moved nested P.shift own) (walk.addColumns attributes)
      (other.addColumns attributes) := by
  unfold Walk.addColumns
  rw [Walk.ownTable_of_eq_some h.table, Walk.ownTable_of_eq_some h.otherTable, pure_bind, pure_bind]
  dsimp only
  rw [h.declared, h.listRead]
  split
  · exact (fill hshows own attributes).bind fun _ _ _ =>
      pure { h with declared := rfl, listRead := rfl }
  · split
    · refine (change hshows own (· ++ attributes) none fun _ => rfl).bind fun _ _ _ => ?_
      exact pure { h with declared := rfl, listRead := rfl }
    · refine (change hshows own (Attribute.mergeAll · attributes) none fun _ => rfl).bind
        fun _ _ _ => ?_
      exact pure { h with declared := rfl, listRead := rfl }

theorem addConditions (h : walk.Moved nested P.shift own other) (config : Config)
    (attributes : List Attribute) (text : String) :
    Follows (Registry.Placed P) (fun _ _ => True) (walk.addConditions config attributes text)
      (other.addConditions config attributes text) := by
  unfold Walk.addConditions
  rw [h.lastJoin]
  cases walk.lastJoin with
  | none => exact pure trivial
  | some join =>
    apply change hshows join (Attribute.updateAll · attributes)
      (if config.captureSource then some (trim text) else none)
    intro table
    dsimp only
    split <;> rfl

theorem restrict (h : walk.Moved nested P.shift own other) (attributes : List Attribute) :
    Follows (Registry.Placed P) (Walk.Moved nested P.shift own) (walk.restrict attributes)
      (other.restrict attributes) := by
  unfold Walk.restrict
  rw [Walk.ownTable_of_eq_some h.table, Walk.ownTable_of_eq_some h.otherTable, pure_bind, pure_bind]
  exact (change hshows own (Attribute.updateAll · attributes) none fun _ => rfl).bind
    fun _ _ _ => pure h

end

theorem joinSource (h : walk.Moved nested P.shift own other) (anchor source : Nat) :
    Follows (Registry.Placed P) (Walk.Moved nested P.shift own) (walk.joinSource anchor source)
      (other.joinSource (anchor + P.shift) (source + P.shift)) := by
  refine (create (by simp) (by simp)).bind ?_
  rintro join _ ⟨-, rfl⟩
  refine (link anchor join).bind fun _ _ _ => (link join source).bind fun _ _ _ => ?_
  exact pure { h with lastJoin := rfl, anchor := rfl }

theorem addSource (h : walk.Moved nested P.shift own other) (clause : Clause) (source : Nat) :
    Follows (Registry.Placed P) (Walk.Moved nested P.shift own) (walk.addSource clause source)
      (other.addSource clause (source + P.shift)) := by
  have hown := Walk.ownTable_of_eq_some h.table
  have hother := Walk.ownTable_of_eq_some h.otherTable
  by_cases hclause : clause = .joinList
  · rw [hclause, Walk.addSource_joinList, Walk.addSource_joinList, hown, hother, h.anchor]
    cases walk.anchor with
    | none => exact joinSource h own source
    | some anchor => exact joinSource h anchor source
  · rw [Walk.addSource_of_ne hclause, Walk.addSource_of_ne hclause, hown, hother, pure_bind,
      pure_bind]
    refine (link own source).bind fun _ _ _ => ?_
    exact pure { h with anchor := rfl }

/-- A walk whose table exists already begins a `SELECT` without creating one. -/
theorem select (h : walk.Moved nested P.shift own other) (hnested : nested) :
    Follows (Registry.Placed P) (Walk.Moved nested P.shift own) walk.select other.select := by
  obtain ⟨henclosing, hother⟩ := h.enclosing hnested
  obtain ⟨table, htable⟩ := Option.isSome_iff_exists.1 henclosing
  obtain ⟨moved, hmoved⟩ := Option.isSome_iff_exists.1 hother
  unfold Walk.select
  rw [htable, hmoved]
  exact pure { h with lastJoin := rfl, anchor := rfl, enclosing := fun _ => ⟨rfl, rfl⟩ }

section

variable (hshows : ∀ source, P.shows source source)
include hshows

theorem record (h : walk.Moved nested P.shift own other) (config : Config) (clause : Clause)
    (text : String) {finding moved : Finding} (hfinding : finding.Moved P.shift moved)
    (hnames : finding.Holds P.Admits) :
    Follows (Registry.Placed P) (Walk.Moved nested P.shift own)
      (Walk.record config clause text walk finding) (Walk.record config clause text other moved) := by
  cases hfinding with
  | columns attributes => exact addColumns hshows h attributes
  | source name alias? =>
    refine (tableNamed hnames.1 hnames.2).bind ?_
    rintro id _ rfl
    exact addSource h clause id
  | derived id => exact addSource h clause id
  | conditions attributes =>
    exact (addConditions hshows h config attributes text).bind fun _ _ _ => pure h
  | nothing => exact pure h

end

theorem finish (hshows : ∀ source, P.shows source source) (h : walk.Moved nested P.shift own other)
    (config : Config) (text : String) :
    Follows (Registry.Placed P) (fun _ _ => True) (walk.finish config text)
      (other.finish config text) := by
  intro registry larger hplaced _ _ hrun
  rw [Walk.run_finish h.table] at hrun
  obtain ⟨-, rfl⟩ := Prod.mk.inj hrun
  exact ⟨(), _, Walk.run_finish h.otherTable config text larger, hplaced.modify_same hshows own id _,
    trivial⟩

/-- The first table may be given another text in the larger registry than by itself, if nothing is
said about its source or both texts come to the same. -/
theorem finish_first (h : walk.Moved nested P.shift 0 other) (config : Config)
    {text moved : String} (hshows : ∀ source, P.shows source source)
    (htext : (∀ source shown, P.shows source shown) ∨
      Walk.selectText? moved = Walk.selectText? text) :
    Follows (Registry.Placed P) (fun _ _ => True) (walk.finish config text)
      (other.finish config moved) := by
  intro registry larger hplaced _ _ hrun
  rw [Walk.run_finish h.table] at hrun
  obtain ⟨-, rfl⟩ := Prod.mk.inj hrun
  refine ⟨(), _, Walk.run_finish h.otherTable config moved larger, ?_, trivial⟩
  rcases htext with hall | heq
  · exact hplaced.modify_source hall _ _
  · rw [heq]
    exact hplaced.modify_same hshows 0 id _

section Descent

variable {descend moved : Node → Option Nat → Bool → Run Unit} {body : Node → Prop}
  (hshows : ∀ source, P.shows source source)
  (hdescend : ∀ node id declared, body node → Follows (Registry.Placed P) (fun _ _ => True)
    (descend node (some id) declared) (moved node (some (id + P.shift)) declared))

include hdescend

theorem resolveSource {source : Source} (hsource : source.Holds P.Admits body) :
    Follows (Registry.Placed P)
      (fun finding other => finding.Moved P.shift other ∧ finding.Holds P.Admits)
      (source.resolve descend) (source.resolve moved) := by
  cases source with
  | named name alias? => exact pure ⟨.source name alias?, hsource⟩
  | derived alias? query =>
    refine (create (by simp) fun text htext => (hsource.1 text htext).select).bind ?_
    rintro id _ ⟨-, rfl⟩
    refine (hdescend query id false hsource.2).bind fun _ _ _ => ?_
    exact pure ⟨.derived id, trivial⟩

theorem register (config : Config) (comment : String) {node : Node}
    (hnode : ∀ entry, CommonTable.ofNode node = .ok entry → entry.Holds P.Admits body) :
    Follows (Registry.Placed P) (fun _ _ => True)
      (CommonTable.register descend config comment node)
      (CommonTable.register moved config comment node) := by
  unfold CommonTable.register
  cases hentry : CommonTable.ofNode node with
  | error error => exact throw error
  | ok entry =>
    have hholds := hnode entry hentry
    have hfound : Follows (Registry.Placed P) (fun found other => found = entry ∧ other = entry)
        (Pure.pure entry) (Pure.pure entry) := pure ⟨rfl, rfl⟩
    refine hfound.bind ?_
    rintro _ found ⟨rfl, rfl⟩
    refine (create ?_ (by simp)).bind ?_
    · intro text htext
      obtain rfl := TableName.named.inj htext
      exact hholds.name.select
    · rintro id _ ⟨-, rfl⟩
      refine (hdescend found.body id _ hholds.body).bind fun _ _ _ => ?_
      exact pure trivial

theorem resolve (config : Config) (comment : String) {reading : Reading}
    (hreading : reading.Holds P.Admits body) :
    Follows (Registry.Placed P)
      (List.Forall₂ fun finding other => finding.Moved P.shift other ∧ finding.Holds P.Admits)
      (reading.resolve descend config comment) (reading.resolve moved config comment) := by
  cases reading with
  | columns attributes => exact pure (.cons ⟨.columns attributes, trivial⟩ .nil)
  | sources found =>
    exact mapM fun source hsource => resolveSource hdescend (hreading source hsource)
  | entries nodes =>
    refine (mapM fun node hnode => register hdescend config comment (hreading node hnode)).bind
      fun _ _ _ => ?_
    exact pure (.cons ⟨.nothing, trivial⟩ .nil)
  | conditions attributes => exact pure (.cons ⟨.conditions attributes, trivial⟩ .nil)
  | nothing => exact pure (.cons ⟨.nothing, trivial⟩ .nil)

include hshows

theorem step (h : walk.Moved nested P.shift own other) (config : Config) {step : Step}
    (hselect : step = .select → nested)
    (hstep : step.Holds P.Admits body) :
    Follows (Registry.Placed P) (Walk.Moved nested P.shift own) (Walk.step descend config walk step)
      (Walk.step moved config other step) := by
  cases step with
  | select => exact select h (hselect rfl)
  | read clause reading comment text =>
    refine (resolve hdescend config comment hstep).bind fun findings others hfindings => ?_
    refine foldlM hfindings (fun finding _ other hboth walk moved hmoved => ?_) h
    exact record hshows hmoved config clause text hboth.1 hboth.2
  | restrict conditions => exact restrict hshows h conditions
  | fail error => exact throw error
  | finish text => exact (finish hshows h config text).bind fun _ _ _ => pure h

end Descent

/-- A node without children leaves the registry as it is, however deep one looks. -/
theorem run_interpretWithin_of_children_eq_nil (config : Config) {node : Node}
    (h : node.children = []) (n : Nat) (enclosing : Option Nat) (declared : Bool)
    (registry : Registry) :
    (QueryLineage.interpretWithin config n node enclosing declared).run registry =
      (.ok (), registry) := by
  cases n with
  | zero => rfl
  | succ n =>
    have hnone : Walk.selectText? "" = none := by decide
    rw [QueryLineage.interpretWithin, Step.ofNode_of_children_eq_nil h]
    cases enclosing <;> rfl

theorem interpretWithin_leaf (config : Config) {node : Node} (h : node.children = []) (n m : Nat)
    (enclosing moved : Option Nat) (declared : Bool) :
    Follows (Registry.Placed P) (fun _ _ => True)
      (QueryLineage.interpretWithin config n node enclosing declared)
      (QueryLineage.interpretWithin config m node moved declared) := by
  intro registry larger hplaced _ _ hrun
  rw [run_interpretWithin_of_children_eq_nil config h] at hrun
  obtain ⟨-, rfl⟩ := Prod.mk.inj hrun
  exact ⟨(), larger, run_interpretWithin_of_children_eq_nil config h _ _ _ _, hplaced, trivial⟩

/-- A query in parentheses does the same in the larger registry, to any depth that is not less than
its own. The induction is on the depth, since the queries in its steps are less deep. -/
theorem interpretWithin {H : Node → Prop} (hshows : ∀ source, P.shows source source)
    (config : Config)
    (hsteps : ∀ node, H node → ∀ step ∈ Step.ofNode node,
      step.Holds P.Admits fun body => H body ∧ body.depth < node.depth) (n : Nat) :
    ∀ (m : Nat) (node : Node), H node → node.depth ≤ n → node.depth ≤ m →
      ∀ (id : Nat) (declared : Bool), Follows (Registry.Placed P) (fun _ _ => True)
        (interpretWithin config n node (some id) declared)
        (interpretWithin config m node (some (id + P.shift)) declared) := by
  induction n with
  | zero =>
    intro m node _ hn _ id declared
    exact interpretWithin_leaf config (Node.children_eq_nil_of_depth (Nat.le_zero.1 hn)) _ _ _ _ _
  | succ n ih =>
    intro m node hnode hn hm id declared
    cases m with
    | zero =>
      exact interpretWithin_leaf config (Node.children_eq_nil_of_depth (Nat.le_zero.1 hm)) _ _ _ _ _
    | succ m =>
      have hstart : Walk.Moved True P.shift id (Walk.start (some id) declared)
          (Walk.start (some (id + P.shift)) declared) :=
        ⟨rfl, rfl, rfl, rfl, rfl, rfl, fun _ => ⟨rfl, rfl⟩⟩
      have hsame : List.Forall₂ Eq (Step.ofNode node) (Step.ofNode node) := List.forall₂_refl _
      refine (foldlM hsame ?_ hstart).bind fun _ _ _ => pure trivial
      rintro found hfound _ rfl walk other hmoved
      refine step hshows ?_ hmoved config (fun _ => trivial) (hsteps node hnode found hfound)
      rintro body id declared ⟨hbody, hdepth⟩
      exact ih m body hbody (by omega) (by omega) id declared

end Run.Follows

end

end QueryLineage
