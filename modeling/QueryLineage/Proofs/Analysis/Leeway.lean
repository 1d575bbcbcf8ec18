import QueryLineage.Proofs.Analysis.Run
import QueryLineage.Proofs.Clause.Leeway

/-!
# Runs that differ in comments and texts

What a run does to the graph depends neither on the comments and sources that tables have, nor on
those that it gives them. Two runs over steps that differ in nothing else therefore answer the same
and leave registries that differ in nothing else; and where one of them fails, so does the other.
-/

namespace QueryLineage

open Text

variable {L : Leeway}

namespace Run

/-- Both runs have come to the same end, but for comments and sources. -/
inductive EndsWithin (L : Leeway) {α : Type} :
    Except LineageError α × Registry → Except LineageError α × Registry → Prop
  | ok (a : α) {after other : Registry} (h : after.Within L other) :
      EndsWithin L (.ok a, after) (.ok a, other)
  | error {error met : LineageError} {after other : Registry} (hfailure : L.failure error met)
      (h : after.Within L other) : EndsWithin L (.error error, after) (.error met, other)

theorem EndsWithin.after {α : Type} {first second : Except LineageError α × Registry}
    (h : EndsWithin L first second) : first.2.Within L second.2 := by
  cases h with
  | ok _ h => exact h
  | error _ h => exact h

/-- From registries that differ in comments and sources only, both runs come to the same end. -/
def Within (L : Leeway) {α : Type} (x y : Run α) : Prop :=
  ∀ registry other : Registry, registry.Within L other →
    EndsWithin L (x.run registry) (y.run other)

namespace Within

variable {α β γ : Type}

theorem pure (a : α) : Within L (Pure.pure a) (Pure.pure a) :=
  fun _ _ h => .ok a h

theorem throw {error met : LineageError} (h : L.failure error met) :
    Within L (α := α) (MonadExcept.throw error) (MonadExcept.throw met) :=
  fun _ _ hregistry => .error h hregistry

theorem lift (result : Except LineageError α) : Within L (liftM result) (liftM result) := by
  cases result with
  | error error => exact throw (L.failure_same error)
  | ok a => exact pure a

theorem bind {first second : Run α} {next later : α → Run β} (hfirst : Within L first second)
    (hnext : ∀ a, Within L (next a) (later a)) : Within L (first >>= next) (second >>= later) := by
  intro registry other h
  have hends := hfirst registry other h
  rw [run_bind, run_bind]
  generalize first.run registry = result, second.run other = found at hends
  cases hends with
  | ok a h => exact hnext a _ _ h
  | error hfailure h => exact .error hfailure h

theorem mapM {f g : γ → Run α} (h : ∀ item, Within L (f item) (g item)) (items : List γ) :
    Within L (items.mapM f) (items.mapM g) := by
  induction items with
  | nil => exact pure []
  | cons item items ih =>
    rw [List.mapM_cons, List.mapM_cons]
    exact (h item).bind fun a => ih.bind fun as => pure (a :: as)

theorem foldlM {f g : α → γ → Run α} {same : γ → γ → Prop}
    (h : ∀ a item other, same item other → Within L (f a item) (g a other))
    {items others : List γ} (hitems : List.Forall₂ same items others) (a : α) :
    Within L (items.foldlM f a) (others.foldlM g a) := by
  induction hitems generalizing a with
  | nil => exact pure a
  | cons hsame _ ih =>
    rw [List.foldlM_cons, List.foldlM_cons]
    exact (h a _ _ hsame).bind ih

theorem forM {f g : γ → Run PUnit} {items others : List γ}
    (h : List.Forall₂ (fun item other => Within L (f item) (g other)) items others) :
    Within L (items.forM f) (others.forM g) := by
  induction h with
  | nil => exact pure ()
  | cons hitem _ ih => exact hitem.bind fun _ => ih

theorem create {new fresh : NewTable} (h : new.Within L fresh) :
    Within L (Run.create new) (Run.create fresh) := by
  intro registry other hregistry
  rw [run_create, run_create, hregistry.size]
  exact .ok _ (hregistry.create h)

theorem createBare (name : TableName) (alias? : Option String) :
    Within L (Run.create { name, alias? }) (Run.create { name, alias? }) :=
  create ⟨rfl, rfl, rfl, L.comment_same "", L.source_none⟩

theorem change {edit revise : Table → Table}
    (h : ∀ table found : Table, table.Within L found → (edit table).Within L (revise found))
    (id : Nat) : Within L (Run.change id edit) (Run.change id revise) :=
  fun _ _ hregistry => .ok () (hregistry.modify h id)

theorem changeAttributes (id : Nat) (edit : List Attribute → List Attribute) :
    Within L (Run.change id fun table => { table with attributes := edit table.attributes })
      (Run.change id fun table => { table with attributes := edit table.attributes }) :=
  change (fun _ _ htable => htable.changeAttributes edit) id

theorem link (source target : Nat) : Within L (Run.link source target) (Run.link source target) :=
  fun _ _ hregistry => .ok () (hregistry.link source target)

theorem ownTable (walk : Walk) : Within L walk.ownTable walk.ownTable := by
  unfold Walk.ownTable
  cases walk.table with
  | some table => exact pure _
  | none => exact (createBare _ _).bind fun table => pure _

theorem select (walk : Walk) : Within L walk.select walk.select := by
  unfold Walk.select
  cases walk.enclosing with
  | some table => exact pure _
  | none => exact (createBare _ _).bind fun table => pure _

theorem fill (id : Nat) (produced : List Attribute) :
    Within L (Walk.fill id produced) (Walk.fill id produced) := by
  intro registry other h
  unfold Walk.fill
  rw [run_bind_ok _ (run_get registry), run_bind_ok _ (run_get other)]
  have hfound := h.find? id
  generalize registry.find? id = found, other.find? id = met at hfound
  cases hfound with
  | none => exact .ok () h
  | @some table met htable =>
    dsimp only
    rw [htable.attributes, htable.name]
    split
    · exact .error (L.failure_same _) h
    · exact changeAttributes id (Attribute.fillPlaceholders · produced) registry other h

theorem addColumns (walk : Walk) (attributes : List Attribute) :
    Within L (walk.addColumns attributes) (walk.addColumns attributes) := by
  unfold Walk.addColumns
  refine (ownTable walk).bind fun (table, walk) => ?_
  dsimp only
  split
  · exact (fill table attributes).bind fun _ => pure _
  · split
    · exact (changeAttributes table (· ++ attributes)).bind fun _ => pure _
    · exact (changeAttributes table (Attribute.mergeAll · attributes)).bind fun _ => pure _

theorem restrict (walk : Walk) (attributes : List Attribute) :
    Within L (walk.restrict attributes) (walk.restrict attributes) :=
  (ownTable walk).bind fun (table, walk) =>
    (changeAttributes table (Attribute.updateAll · attributes)).bind fun _ => pure walk

theorem joinSource (walk : Walk) (anchor source : Nat) :
    Within L (walk.joinSource anchor source) (walk.joinSource anchor source) :=
  (createBare _ _).bind fun join => (link anchor join).bind fun _ =>
    (link join source).bind fun _ => pure _

theorem addSource (walk : Walk) (clause : Clause) (source : Nat) :
    Within L (walk.addSource clause source) (walk.addSource clause source) := by
  by_cases hclause : clause = .joinList
  · rw [hclause, Walk.addSource_joinList]
    cases walk.anchor with
    | none => exact (ownTable walk).bind fun own => joinSource own.2 own.1 source
    | some anchor => exact joinSource walk anchor source
  · rw [Walk.addSource_of_ne hclause]
    exact (ownTable walk).bind fun own => (link own.1 source).bind fun _ => pure _

theorem knownAs (name : String) : Within L (Walk.knownAs name) (Walk.knownAs name) := by
  intro registry other h
  have hfound := h.findKnownAs? name
  cases hregistry : registry.findKnownAs? name with
  | none =>
    rw [hregistry] at hfound
    cases hother : other.findKnownAs? name with
    | none =>
      rw [Walk.run_knownAs_of_none hregistry, Walk.run_knownAs_of_none hother]
      exact createBare _ _ registry other h
    | some met => rw [hother] at hfound; cases hfound
  | some table =>
    rw [hregistry] at hfound
    cases hother : other.findKnownAs? name with
    | none => rw [hother] at hfound; cases hfound
    | some met =>
      rw [hother] at hfound
      cases hfound with
      | some htable =>
        rw [Walk.run_knownAs_of_some hregistry, Walk.run_knownAs_of_some hother, htable.id]
        exact .ok _ h

theorem giveAlias (id : Nat) (alias? : Option String) :
    Within L (Walk.giveAlias id alias?) (Walk.giveAlias id alias?) := by
  cases alias? with
  | none => exact pure ()
  | some text => exact change (fun _ _ htable => htable.addAlias text) id

theorem tableNamed (name : String) (alias? : Option String) :
    Within L (Walk.tableNamed name alias?) (Walk.tableNamed name alias?) := by
  rw [Walk.tableNamed_eq]
  exact (knownAs name).bind fun id => (giveAlias id alias?).bind fun _ => pure id

section

variable {config other : Config} (hconfig : L.Admits config other)
include hconfig

theorem addConditions (walk : Walk) (attributes : List Attribute) (text shown : String) :
    Within L (walk.addConditions config attributes text)
      (walk.addConditions other attributes shown) := by
  have hsource : ∀ (config : Config) (text : String) (table : Table),
      (if config.captureSource then table.setSource text else table) = { table with
        source := (if config.captureSource then some text else none).getD table.source } := by
    intro config text table
    split <;> rfl
  unfold Walk.addConditions
  cases walk.lastJoin with
  | none => exact pure ()
  | some join =>
    simp only [hsource]
    exact change (fun table found htable =>
      (htable.changeAttributes (Attribute.updateAll · attributes)).changeSource hconfig _ _) join

theorem finish (walk : Walk) (text shown : String) :
    Within L (walk.finish config text) (walk.finish other shown) := by
  cases htable : walk.table with
  | none =>
    unfold Walk.finish
    rw [htable]
    exact pure ()
  | some own =>
    intro registry found h
    rw [Walk.run_finish htable, Walk.run_finish htable]
    exact .ok () (h.modify (fun _ _ htable => htable.changeSource hconfig _ _) own)

theorem record (clause : Clause) (text shown : String) (walk : Walk) (finding : Finding) :
    Within L (Walk.record config clause text walk finding)
      (Walk.record other clause shown walk finding) := by
  cases finding with
  | columns attributes => exact addColumns walk attributes
  | source name alias? =>
    exact (tableNamed name alias?).bind fun id => addSource walk clause id
  | derived id => exact addSource walk clause id
  | conditions attributes =>
    exact (addConditions hconfig walk attributes text shown).bind fun _ => pure walk
  | nothing => exact pure walk

section Descent

variable {descend follow : Node → Option Nat → Bool → Run Unit}
  (hdescend : ∀ node enclosing declared,
    Within L (descend node enclosing declared) (follow node enclosing declared))
include hdescend

omit hconfig in
theorem resolveSource (source : Source) :
    Within L (source.resolve descend) (source.resolve follow) := by
  cases source with
  | named name alias? => exact pure _
  | derived alias? body =>
    exact (createBare _ _).bind fun id => (hdescend body (some id) false).bind fun _ => pure _

variable {comment met : String} (hcomment : L.comment comment met)
include hcomment

/-- A common table gets the comment and the text of its entry, or another comment and no text. -/
theorem register (node : Node) :
    Within L (CommonTable.register descend config comment node)
      (CommonTable.register follow other met node) := by
  refine (lift (CommonTable.ofNode node)).bind fun entry => ?_
  refine bind (create ⟨rfl, rfl, rfl, ?_, ?_⟩) fun id =>
    (hdescend entry.body (some id) _).bind fun _ => pure id
  · cases entry.comment? with
    | none => exact hcomment
    | some text => exact L.comment_same text
  · have hsource := hconfig (some (trim node.text)) (some (trim node.text)) "" "" L.source_none
    revert hsource
    cases config.captureSource <;> cases other.captureSource <;> exact id

theorem resolve (reading : Reading) :
    Within L (reading.resolve descend config comment) (reading.resolve follow other met) := by
  cases reading with
  | columns attributes => exact pure _
  | sources found => exact mapM (resolveSource hdescend) found
  | entries nodes =>
    exact (mapM (register hconfig hdescend hcomment) nodes).bind fun _ => pure _
  | conditions attributes => exact pure _
  | nothing => exact pure _

omit hcomment in
theorem step (walk : Walk) {step shown : Step} (h : step.Within L shown) :
    Within L (Walk.step descend config walk step) (Walk.step follow other walk shown) := by
  cases h with
  | select => exact select walk
  | read clause reading text shown hcomment =>
    refine (resolve hconfig hdescend hcomment reading).bind fun findings => ?_
    refine foldlM ?_ (List.forall₂_eq_eq_eq ▸ rfl) walk
    exact fun walk finding _ heq => heq ▸ record hconfig clause text shown walk finding
  | restrict conditions => exact restrict walk conditions
  | fail hfailure => exact throw hfailure
  | finish text shown => exact (finish hconfig walk text shown).bind fun _ => pure walk

end Descent

theorem steps {descend follow : Node → Option Nat → Bool → Run Unit}
    (hdescend : ∀ node enclosing declared,
      Within L (descend node enclosing declared) (follow node enclosing declared))
    {steps shown : List Step} (h : List.Forall₂ (Step.Within L) steps shown)
    (enclosing : Option Nat) (declared : Bool) :
    Within L
      (do let _ ← steps.foldlM (Walk.step descend config) (Walk.start enclosing declared))
      (do let _ ← shown.foldlM (Walk.step follow other) (Walk.start enclosing declared)) := by
  refine bind (foldlM ?_ h _) fun _ => pure ()
  exact fun walk _ _ hstep => step hconfig hdescend walk hstep

/-- A query is interpreted alike under both configurations. -/
theorem interpretWithin (n : Nat) : ∀ node enclosing declared,
    Within L (QueryLineage.interpretWithin config n node enclosing declared)
      (QueryLineage.interpretWithin other n node enclosing declared) := by
  induction n with
  | zero => exact fun _ _ _ => pure ()
  | succ n ih =>
    intro node enclosing declared
    exact steps hconfig ih (List.forall₂_same.2 fun step _ => .same step) enclosing declared

/-- So are two queries whose steps do the same. -/
theorem interpret {node shown : Node} (hdepth : shown.depth = node.depth)
    (h : List.Forall₂ (Step.Within L) (Step.ofNode node) (Step.ofNode shown))
    (enclosing : Option Nat) (declared : Bool) :
    Within L (QueryLineage.interpret config node enclosing declared)
      (QueryLineage.interpret other shown enclosing declared) := by
  unfold QueryLineage.interpret
  rw [hdepth]
  cases node.depth with
  | zero => exact pure ()
  | succ n => exact steps hconfig (interpretWithin hconfig n) h enclosing declared

theorem interpretSame (node : Node) (enclosing : Option Nat) (declared : Bool) :
    Within L (QueryLineage.interpret config node enclosing declared)
      (QueryLineage.interpret other node enclosing declared) :=
  interpret hconfig rfl (List.forall₂_same.2 fun step _ => .same step) enclosing declared

theorem dispatch (clause : Clause) (comment : String) (node : Node) :
    Within L (QueryLineage.dispatch config clause comment node)
      (QueryLineage.dispatch other clause comment node) :=
  (lift _).bind fun reading =>
    resolve hconfig (interpretSame hconfig) (L.comment_same comment) reading

theorem process (hstrip : other.stripComments = config.stripComments) (sql : String) :
    Within L (QueryLineage.process config sql) (QueryLineage.process other sql) := by
  unfold QueryLineage.process
  rw [hstrip]
  cases Node.statementsOfText sql config.stripComments with
  | error error => exact throw (L.failure_same _)
  | ok statements =>
    exact forM (List.forall₂_same.2 fun statement _ => interpretSame hconfig statement none false)

end

end Within

end Run

end QueryLineage
