import QueryLineage.Proofs.Analysis.Triple
import QueryLineage.Proofs.Clause.Reports
import QueryLineage.Proofs.Graph.Extends

/-!
# Runs only add

A run finds tables in its registry. Whatever it does and wherever it fails, these tables keep their
places and what they say: all that is changed is changed in tables of its own, except that a table
that it finds again may be given an alias, or a link to one of its joins. And if it fails, then with
an error that the query can report.
-/

namespace QueryLineage

/-- Where the registry extends an older one, so does the one that the run leaves, and `p` holds of
the answer. If the run fails, then with one of the `errors`. -/
abbrev Appends {α : Type} (errors : LineageError → Prop) (older : Registry) (p : α → Prop)
    (x : Run α) : Prop :=
  Keeps (fun registry : Registry => registry.Extends older)
    (fun error registry => errors error ∧ registry.Extends older) p x

/-- The tables that a walk changes have been added to the older registry. -/
structure Walk.Own (older : Registry) (walk : Walk) : Prop where
  enclosing : ∀ id ∈ walk.enclosing, older.size ≤ id
  table : ∀ id ∈ walk.table, older.size ≤ id
  lastJoin : ∀ id ∈ walk.lastJoin, older.size ≤ id

namespace Appends

variable {α : Type} {errors : LineageError → Prop} {older : Registry} {p : α → Prop}

theorem throw {error : LineageError} (h : errors error) :
    Appends errors older p (MonadExcept.throw error) :=
  Triple.throw fun _ hextends => ⟨h, hextends⟩

theorem lift {result : Except LineageError α} (h : ∀ error, result = .error error → errors error) :
    Appends errors older (fun a => result = .ok a) (liftM result : Run α) :=
  Triple.lift (fun _ ha _ hextends => ⟨ha, hextends⟩) fun error herror _ hextends =>
    ⟨h error herror, hextends⟩

theorem weaken {x : Run α} (h : Appends errors older p x) {others : LineageError → Prop}
    (hothers : ∀ error, errors error → others error) : Appends others older p x := by
  intro registry hextends
  have hlater := h registry hextends
  rcases hrun : x.run registry with ⟨result, later⟩
  rw [hrun] at hlater
  cases result with
  | error error => exact ⟨hothers error hlater.1, hlater.2⟩
  | ok a => exact hlater

theorem extends_run {x : Run α} (h : Appends errors older p x) {registry : Registry}
    (hextends : registry.Extends older) : (x.run registry).2.Extends older ∧
      ∀ error, (x.run registry).1 = .error error → errors error := by
  have hlater := h registry hextends
  rcases hrun : x.run registry with ⟨result, later⟩
  rw [hrun] at hlater
  cases result with
  | error error => exact ⟨hlater.2, fun other heq => Except.error.inj heq ▸ hlater.1⟩
  | ok a => exact ⟨hlater.2, by simp⟩

theorem create (new : NewTable) : Appends errors older (older.size ≤ ·) (Run.create new) :=
  fun _ hextends => ⟨hextends.size, hextends.create new⟩

theorem change {id : Nat} (hid : older.size ≤ id) {change : Table → Table}
    (hsame : ∀ table, (change table).id = table.id ∧ (change table).name = table.name) :
    Appends errors older (fun _ => True) (Run.change id change) :=
  fun _ hextends => ⟨trivial, hextends.modify_new hid hsame⟩

theorem link {source : Nat} (hsource : older.size ≤ source) (target : Nat) :
    Appends errors older (fun _ => True) (Run.link source target) :=
  fun _ hextends => ⟨trivial, hextends.link (.inl hsource)⟩

theorem addAlias (id : Nat) (other : String) :
    Appends errors older (fun _ => True) (modify (·.addAlias id other) : Run Unit) :=
  fun _ hextends => ⟨trivial, hextends.addAlias id other⟩

theorem ownTable {walk : Walk} (h : walk.Own older) :
    Appends errors older (fun own => older.size ≤ own.1 ∧ own.2.Own older) walk.ownTable := by
  unfold Walk.ownTable
  split
  · next table htable => exact Keeps.pure ⟨h.table table htable, h⟩
  · refine (create _).bind fun table htable => Keeps.pure ⟨htable, { h with table := ?_ }⟩
    rintro id ⟨⟩
    exact htable

theorem select {walk : Walk} (h : walk.Own older) : Appends errors older (·.Own older) walk.select := by
  unfold Walk.select
  split
  · exact Keeps.pure { h with lastJoin := by simp }
  · refine (create _).bind fun table htable =>
      Keeps.pure { h with table := ?_, lastJoin := by simp }
    rintro id ⟨⟩
    exact htable

section Mismatch

variable (hmismatch : ∀ table declared produced, errors (.aliasCountMismatch table declared produced))

include hmismatch

theorem fill {id : Nat} (hid : older.size ≤ id) (produced : List Attribute) :
    Appends errors older (fun _ => True) (Walk.fill id produced) := by
  unfold Walk.fill
  refine Keeps.get.bind fun registry _ => ?_
  split
  · exact Keeps.pure trivial
  · next table _ =>
    by_cases hfew : produced.length < (table.attributes.filter Attribute.isPlaceholder).length
    · simp only [hfew, if_true]
      exact throw (hmismatch _ _ _)
    · simp only [hfew, if_false]
      exact change hid fun table => ⟨rfl, rfl⟩

theorem addColumns {walk : Walk} (h : walk.Own older) (attributes : List Attribute) :
    Appends errors older (·.Own older) (walk.addColumns attributes) := by
  unfold Walk.addColumns
  refine (ownTable h).bind ?_
  rintro ⟨table, walk⟩ ⟨htable, hwalk⟩
  dsimp only
  split
  · exact (fill hmismatch htable attributes).bind fun _ _ => Keeps.pure { hwalk with }
  · split
    · refine Keeps.bind (change htable fun table => ?_) fun _ _ => Keeps.pure { hwalk with }
      exact ⟨rfl, rfl⟩
    · refine Keeps.bind (change htable fun table => ?_) fun _ _ => Keeps.pure { hwalk with }
      exact ⟨rfl, rfl⟩

end Mismatch

theorem addConditions {walk : Walk} (h : walk.Own older) (config : Config)
    (attributes : List Attribute) (text : String) :
    Appends errors older (fun _ => True) (walk.addConditions config attributes text) := by
  unfold Walk.addConditions
  split
  · exact Keeps.pure trivial
  · next join hjoin =>
    refine change (h.lastJoin join hjoin) fun table => ?_
    dsimp only
    split <;> exact ⟨rfl, rfl⟩

theorem restrict {walk : Walk} (h : walk.Own older) (attributes : List Attribute) :
    Appends errors older (·.Own older) (walk.restrict attributes) := by
  unfold Walk.restrict
  refine (ownTable h).bind ?_
  rintro ⟨table, walk⟩ ⟨htable, hwalk⟩
  refine Keeps.bind (change htable fun table => ?_) fun _ _ => Keeps.pure hwalk
  exact ⟨rfl, rfl⟩

/-- A join has a table of its own, to which what is joined is linked. This is the only link that a
table of the older registry can get. -/
theorem joinSource {walk : Walk} (h : walk.Own older) (anchor source : Nat) :
    Appends errors older (·.Own older) (walk.joinSource anchor source) := by
  intro registry hextends
  have hjoin : (registry.create { name := .generated .join }).JoinedSince older registry.size :=
    Registry.joinedSince_create_join hextends.size hextends.joins
  have hlinked : ((registry.create { name := .generated .join }).link anchor registry.size).Extends
      older := (hextends.create _).link (.inr hjoin)
  refine ⟨{ h with lastJoin := ?_ }, hlinked.link (.inl hextends.size)⟩
  rintro id ⟨⟩
  exact hextends.size

theorem addSource {walk : Walk} (h : walk.Own older) (clause : Clause) (source : Nat) :
    Appends errors older (·.Own older) (walk.addSource clause source) := by
  by_cases hclause : clause = .joinList
  · rw [hclause, Walk.addSource_joinList]
    split
    · next anchor _ => exact joinSource h anchor source
    · exact (ownTable h).bind fun own hown => joinSource hown.2 own.1 source
  · rw [Walk.addSource_of_ne hclause]
    exact (ownTable h).bind fun own hown => (link hown.1 source).bind fun _ _ =>
      Keeps.pure ⟨hown.2.enclosing, hown.2.table, hown.2.lastJoin⟩

theorem knownAs (name : String) : Appends errors older (fun _ => True) (Walk.knownAs name) := by
  unfold Walk.knownAs
  refine Keeps.get.bind fun registry _ => ?_
  split
  · exact Keeps.pure trivial
  · exact (create _).mono fun _ _ => trivial

theorem giveAlias (id : Nat) (alias? : Option String) :
    Appends errors older (fun _ => True) (Walk.giveAlias id alias?) := by
  cases alias? with
  | none => exact Keeps.pure trivial
  | some other => exact addAlias id other

theorem tableNamed (name : String) (alias? : Option String) :
    Appends errors older (fun _ => True) (Walk.tableNamed name alias?) := by
  rw [Walk.tableNamed_eq]
  exact (knownAs name).bind fun id _ => (giveAlias id alias?).bind fun _ _ => Keeps.pure trivial

theorem record
    (hmismatch : ∀ table declared produced, errors (.aliasCountMismatch table declared produced))
    {walk : Walk} (h : walk.Own older) (config : Config) (clause : Clause) (text : String)
    (finding : Finding) :
    Appends errors older (·.Own older) (Walk.record config clause text walk finding) := by
  cases finding with
  | columns attributes => exact addColumns hmismatch h attributes
  | source name alias? => exact (tableNamed name alias?).bind fun id _ => addSource h clause id
  | derived id => exact addSource h clause id
  | conditions attributes =>
    exact (addConditions h config attributes text).bind fun _ _ => Keeps.pure h
  | nothing => exact Keeps.pure h

theorem finish {walk : Walk} (h : walk.Own older) (config : Config) (text : String) :
    Appends errors older (fun _ => True) (walk.finish config text) := by
  unfold Walk.finish
  split
  · next table source htable _ =>
    split
    · exact change (h.table table htable) fun table => ⟨rfl, rfl⟩
    · exact Keeps.pure trivial
  · exact Keeps.pure trivial

section Descent

variable {descend : Node → Option Nat → Bool → Run Unit}

theorem resolveSource {source : Source} (hdescend : ∀ alias? query, source = .derived alias? query →
    ∀ enclosing declared, (∀ id ∈ enclosing, older.size ≤ id) →
      Appends errors older (fun _ => True) (descend query enclosing declared)) :
    Appends errors older (fun _ => True) (source.resolve descend) := by
  cases source with
  | named name alias? => exact Keeps.pure trivial
  | derived alias? body =>
    refine (create _).bind fun id hid => ?_
    have hbody : ∀ other ∈ some id, older.size ≤ other := by
      rintro other ⟨⟩
      exact hid
    exact (hdescend alias? body rfl (some id) false hbody).bind fun _ _ => Keeps.pure trivial

theorem register (config : Config) (comment : String) {node : Node}
    (hentry : ∀ error, CommonTable.ofNode node = .error error → errors error)
    (hdescend : ∀ entry, CommonTable.ofNode node = .ok entry →
      ∀ enclosing declared, (∀ id ∈ enclosing, older.size ≤ id) →
        Appends errors older (fun _ => True) (descend entry.body enclosing declared)) :
    Appends errors older (fun _ => True) (CommonTable.register descend config comment node) := by
  unfold CommonTable.register
  refine (lift hentry).bind fun entry hok => ?_
  refine (create _).bind fun id hid => ?_
  have hbody : ∀ other ∈ some id, older.size ≤ other := by
    rintro other ⟨⟩
    exact hid
  exact (hdescend entry hok (some id) _ hbody).bind fun _ _ => Keeps.pure trivial

theorem resolve (config : Config) (comment : String) {reading : Reading}
    (hentries : ∀ nodes, reading = .entries nodes → ∀ node ∈ nodes, ∀ error,
      CommonTable.ofNode node = .error error → errors error)
    (hdescend : ∀ query ∈ reading.queries,
      ∀ enclosing declared, (∀ id ∈ enclosing, older.size ≤ id) →
        Appends errors older (fun _ => True) (descend query enclosing declared)) :
    Appends errors older (fun _ => True) (reading.resolve descend config comment) := by
  cases reading with
  | columns attributes => exact Keeps.pure trivial
  | sources found =>
    refine (Keeps.mapM found fun source hsource => resolveSource ?_).mono fun _ _ => trivial
    rintro alias? query rfl
    exact hdescend query (Reading.mem_queries_sources hsource)
  | entries nodes =>
    have hregister : ∀ node ∈ nodes, Appends errors older (fun _ => True)
        (CommonTable.register descend config comment node) := fun node hnode =>
      register config comment (hentries nodes rfl node hnode) fun entry hentry =>
        hdescend entry.body (Reading.mem_queries_entries hnode hentry)
    exact (Keeps.mapM nodes hregister).bind fun _ _ => Keeps.pure trivial
  | conditions attributes => exact Keeps.pure trivial
  | nothing => exact Keeps.pure trivial

/-- A step of a query fails with what the query can report only. -/
theorem step {query : Node} {walk : Walk} (h : walk.Own older) (config : Config) {step : Step}
    (hstep : step ∈ Step.ofNode query)
    (hdescend : ∀ inner ∈ query.queries,
      ∀ enclosing declared, (∀ id ∈ enclosing, older.size ≤ id) →
        Appends query.Reports older (fun _ => True) (descend inner enclosing declared)) :
    Appends query.Reports older (·.Own older) (Walk.step descend config walk step) := by
  cases step with
  | select => exact select h
  | read clause reading comment text =>
    have hresolve : Appends query.Reports older (fun _ => True)
        (reading.resolve descend config comment) := by
      refine resolve config comment ?_ fun inner hinner =>
        hdescend inner (Node.mem_queries hstep hinner)
      rintro nodes rfl node hnode error herror
      exact .entry hstep hnode herror
    exact hresolve.bind fun findings _ => Keeps.foldlM findings
      (fun finding _ walk hwalk => record (.mismatch query) hwalk config clause text finding) h
  | restrict conditions => exact restrict h conditions
  | fail error => exact throw (.step hstep)
  | finish text => exact (finish h config text).bind fun _ _ => Keeps.pure h

end Descent

theorem interpretWithin (config : Config) (n : Nat) :
    ∀ node enclosing declared, (∀ id ∈ enclosing, older.size ≤ id) →
      Appends node.Reports older (fun _ => True)
        (interpretWithin config n node enclosing declared) := by
  induction n with
  | zero => exact fun _ _ _ _ => Keeps.pure trivial
  | succ n ih =>
    intro node enclosing declared henclosing
    unfold QueryLineage.interpretWithin
    have hstart : (Walk.start enclosing declared).Own older :=
      ⟨henclosing, henclosing, by simp [Walk.start]⟩
    refine (Keeps.foldlM (Step.ofNode node) (fun found hfound walk hwalk => ?_) hstart).bind
      fun _ _ => Keeps.pure trivial
    exact step hwalk config hfound fun inner hinner enclosing declared howner =>
      (ih inner enclosing declared howner).weaken fun _ => .inner hinner

end Appends

/-- If interpreting a query fails, then with an error that the query can report. -/
theorem reports_of_run_interpretWithin {config : Config} {n : Nat} {node : Node}
    {enclosing : Option Nat} {declared : Bool} {registry after : Registry} {error : LineageError}
    (h : (interpretWithin config n node enclosing declared).run registry = (.error error, after)) :
    node.Reports error := by
  have hextends : registry.Extends {} := ⟨Nat.zero_le _, Nat.zero_le _, by simp [Registry.find?]⟩
  have hrun := (Appends.interpretWithin config n node enclosing declared
    fun _ _ => Nat.zero_le _).extends_run hextends
  rw [h] at hrun
  exact hrun.2 error rfl

/-- Whatever the text and wherever it fails, a call only adds to the registry that it finds, and
nothing at all if the text cannot be read. -/
theorem extends_process (config : Config) (sql : String) (registry : Registry) :
    ((process config sql).run registry).2.Extends registry ∧
      ∀ fault, ((process config sql).run registry).1 = .error (.parse fault) →
        ((process config sql).run registry).2 = registry := by
  unfold process
  split
  · exact ⟨.refl registry, fun _ _ => rfl⟩
  · next statements _ =>
    have hrun : Appends (fun error => ∀ fault, error ≠ .parse fault) registry (fun _ => True)
        (statements.forM fun statement => interpret config statement none false) :=
      Keeps.forM statements fun statement _ =>
        (Appends.interpretWithin config statement.depth statement none false (by simp)).weaken
          fun _ => Node.Reports.ne_parse
    obtain ⟨hextends, herrors⟩ := hrun.extends_run (.refl registry)
    exact ⟨hextends, fun fault hfault => absurd rfl (herrors _ hfault fault)⟩

end QueryLineage
