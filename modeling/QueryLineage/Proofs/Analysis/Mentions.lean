import QueryLineage.Proofs.Analysis.Midway
import QueryLineage.Proofs.Outcome

/-!
# Where mentioned tables are in the graph

Every table that a `FROM` or `JOIN` mentions is reached from the table of the query to which that
clause belongs, and every join stands in a chain: one table is linked to it, and it is linked to
what it joins and to at most one join behind it. This is shown for every step of a query and
carried on to whole texts; a query and the queries in it follow by induction on their depth.
-/

namespace QueryLineage

/-- The tables that have been registered for the finding and are not yet mentioned. -/
def Finding.pending : Finding → List Nat
  | derived id => [id]
  | columns _ | source _ _ | conditions _ | nothing => []

namespace Ledger

/-- Findings whose names are not those of joins and whose tables are still pending. -/
structure Found (base : Ledger) (pending : List Nat) (findings : List Finding) (walk : Walk)
    (ledger : Ledger) : Prop where
  names : ∀ finding ∈ findings, finding.Holds Unnumbered
  midway : Midway base (findings.flatMap Finding.pending ++ pending) walk ledger

section

variable {base ledger : Ledger} {pending : List Nat} {walk : Walk}

namespace Leads

theorem record (config : Config) (clause : Clause) (text : String) (walk : Walk)
    {finding : Finding} (hnames : finding.Holds Unnumbered) :
    Leads (Midway base (finding.pending ++ pending) walk)
      (Ledger.record config clause text walk finding) (Midway base pending) := by
  cases finding with
  | columns attributes => exact addColumns walk attributes
  | source name alias? =>
    exact (tableNamed hnames.1 alias?).bind fun id => addSource walk clause id
  | derived id => exact addSource walk clause id
  | conditions attributes =>
    exact (ofRun (Run.Edits.addConditions walk config attributes text)).bind fun _ =>
      Triple.pure fun _ h => h.2
  | nothing => exact Triple.pure fun _ h => h

section Descent

variable {descend : Node → Option Nat → Bool → LedgerRun Unit} {body : Node → Prop}
  (hdescend : ∀ node enclosing declared, body node → ∀ base pending walk,
    Leads (fun ledger => Midway base pending walk ledger ∧ ∀ id ∈ enclosing, ledger.IsQuery id)
      (descend node enclosing declared) fun _ => Midway base pending walk)

include hdescend

theorem resolveSource {source : Source} (hsource : source.Holds Unnumbered body) :
    Leads (Midway base pending walk) (Ledger.resolveSource descend source) fun finding ledger =>
      finding.Holds Unnumbered ∧ Midway base (finding.pending ++ pending) walk ledger := by
  cases source with
  | named name alias? => exact Triple.pure fun _ h => ⟨hsource, h⟩
  | derived alias? query =>
    have hsuits : Suits .derived { name := .generated .select, alias? } :=
      .generated rfl (by decide) (by decide)
    have hcreate : Leads (Midway base pending walk)
        (Ledger.create .derived { name := .generated .select, alias? })
        fun id ledger => Midway base (id :: pending) walk ledger ∧
          ∀ other ∈ some id, ledger.IsQuery other := by
      intro ledger h
      refine ⟨h.created (by decide) hsuits, ?_⟩
      rintro _ ⟨⟩
      exact ⟨.derived, (roleOf_concat rfl).2 (.inr ⟨h.wired.size.symm, rfl⟩), rfl⟩
    refine hcreate.bind fun id => ?_
    exact (hdescend query (some id) false hsource.2 base (id :: pending) walk).bind fun _ =>
      Triple.pure fun _ h => ⟨trivial, h⟩

theorem register (config : Config) (comment : String) {node : Node}
    (hnode : ∀ entry, CommonTable.ofNode node = .ok entry → entry.Holds Unnumbered body) :
    Leads (Midway base pending walk) (Ledger.register descend config comment node)
      fun _ => Midway base pending walk := by
  have hentry : Leads (Midway base pending walk)
      (Ledger.ofRun (liftM (CommonTable.ofNode node)))
      fun entry ledger => entry.Holds Unnumbered body ∧ Midway base pending walk ledger := by
    refine ofRun fun registry => Triple.lift (fun entry heq _ hsame => ⟨hnode entry heq, hsame⟩) ?_
    exact fun _ _ _ _ => trivial
  have hsuits (name : String) (hname : Unnumbered name) (attributes : List Attribute)
      (comment source : String) :
      Suits .common { name := .named name, attributes, comment, source } :=
    .given rfl hname (by decide)
  refine hentry.bind fun entry ledger hledger => ?_
  obtain ⟨hholds, h⟩ := hledger
  obtain ⟨hcreated, hquery⟩ := h.createdQuery rfl rfl (hsuits entry.name hholds.name _ _ _)
  have hbody : Leads
      (fun ledger => Midway base pending walk ledger ∧ ∀ id ∈ some _, ledger.IsQuery id)
      (descend entry.body (some ledger.registry.size) (!entry.columns.isEmpty) >>= fun _ =>
        pure ledger.registry.size) fun _ => Midway base pending walk :=
    (hdescend _ _ _ hholds.body base pending walk).bind fun _ => Triple.pure fun _ h => h
  refine hbody _ ⟨hcreated, ?_⟩
  rintro _ ⟨⟩
  exact hquery

theorem resolve (config : Config) (comment : String) {reading : Reading}
    (hreading : reading.Holds Unnumbered body) :
    Leads (Midway base pending walk) (Ledger.resolve descend config comment reading)
      fun findings => Found base pending findings walk := by
  have hnone {finding : Finding} (hpending : finding.pending = [])
      (hnames : finding.Holds Unnumbered) :
      Leads (Midway base pending walk) (pure [finding])
        fun findings => Found base pending findings walk :=
    Triple.pure fun _ h => ⟨by simpa using hnames, by simpa [hpending] using h⟩
  cases reading with
  | columns attributes => exact hnone rfl trivial
  | sources found =>
    have hsource : ∀ source ∈ found, ∀ done, Leads (Found base pending done walk)
        (Ledger.resolveSource descend source)
        fun finding => Found base pending (done ++ [finding]) walk := by
      intro source hsource done ledger hfound
      refine Triple.mono (resolveSource hdescend (hreading source hsource)) (fun _ => id)
        (fun finding later hlater => ⟨?_, hlater.2.permute fun id => ?_⟩) ledger hfound.midway
      · intro other hother
        rcases List.mem_append.1 hother with hother | hother
        · exact hfound.names other hother
        · exact List.mem_singleton.1 hother ▸ hlater.1
      · simp [or_left_comm]
    exact Triple.mono (Triple.mapM (Found base pending · walk) hsource [])
      (fun _ h => ⟨by simp, h⟩) fun _ _ h => h
  | entries nodes =>
    have hnodes : Keeps (Midway base pending walk) (fun _ _ => True) (fun ids => ∀ id ∈ ids, True)
        (nodes.mapM (Ledger.register descend config comment)) :=
      Keeps.mapM nodes fun node hnode =>
        Triple.mono (register hdescend config comment (hreading node hnode)) (fun _ h => h)
          fun _ _ h => ⟨trivial, h⟩
    exact Triple.bind hnodes fun _ =>
      Triple.mono (hnone rfl trivial) (fun _ h => h.2) fun _ _ h => h
  | conditions attributes => exact hnone rfl trivial
  | nothing => exact hnone rfl trivial

theorem step (config : Config) (walk : Walk) {step : Step} (hstep : step.Holds Unnumbered body) :
    Leads (Midway base pending walk) (Ledger.step descend config walk step)
      (Midway base pending) := by
  cases step with
  | select => exact select walk
  | read clause reading comment text =>
    refine (resolve hdescend config comment hstep).bind fun findings => ?_
    have hrecord (finding : Finding) (rest : List Finding) (walk : Walk) :
        Leads (Found base pending (finding :: rest) walk)
          (Ledger.record config clause text walk finding) (Found base pending rest) := by
      intro ledger hfound
      have hmidway : Midway base (finding.pending ++ (rest.flatMap Finding.pending ++ pending)) walk
          ledger := hfound.midway.permute (by simp)
      exact Triple.mono (record config clause text walk (hfound.names finding List.mem_cons_self))
        (fun _ => id) (fun next later hlater =>
          ⟨fun other hother => hfound.names other (List.mem_cons_of_mem _ hother), hlater⟩)
        ledger hmidway
    exact Triple.mono (Triple.foldlM (Found base pending) hrecord findings walk)
      (fun _ h => h) fun _ _ h => h.midway
  | restrict conditions => exact restrict walk conditions
  | fail error => exact Triple.throw fun _ _ => trivial
  | finish text =>
    exact (ofRun (Run.Edits.finish walk config text)).bind fun _ => Triple.pure fun _ h => h.2

end Descent

/-- A query, with all queries in it, keeps what holds around it. -/
theorem interpretWithin {lexemes : List Lexeme} (hseated : Lexeme.Seated lexemes) (config : Config)
    (n : Nat) : ∀ node enclosing declared, (∀ child ∈ Node.children node, child.Tidy lexemes) →
      ∀ base pending walk,
        Leads (fun ledger => Midway base pending walk ledger ∧ ∀ id ∈ enclosing, ledger.IsQuery id)
          (Ledger.interpretWithin config n node enclosing declared)
          fun _ => Midway base pending walk := by
  induction n with
  | zero => exact fun _ _ _ _ _ _ _ => Triple.pure fun _ h => h.1
  | succ n ih =>
    intro node enclosing declared htidy base pending walk ledger hledger
    obtain ⟨h, henclosing⟩ := hledger
    have hsteps : ∀ step ∈ Step.ofNode node, step.Holds Unnumbered
        fun body => ∀ child ∈ body.children, child.Tidy lexemes := fun step hstep =>
      (hseated.naming.holds_ofNode_steps htidy step hstep).mono (fun _ => id)
        fun body hbody child hchild => hbody.1.child hchild
    have hstart : Midway ledger pending (Walk.start enclosing declared) ledger :=
      ⟨.refl ledger, h.wired, h.identified, henclosing, henclosing, by simp [Walk.start]⟩
    -- the walk of this query begins with the ledger that it finds
    have hrun : Leads (Midway ledger pending (Walk.start enclosing declared))
        (Ledger.interpretWithin config (n + 1) node enclosing declared)
        fun _ later => ∃ last, Midway ledger pending last later := by
      unfold Ledger.interpretWithin
      have hstep (step : Step) (rest : List Step) (walk : Walk) :
          Leads (fun later => step :: rest <:+ Step.ofNode node ∧ Midway ledger pending walk later)
            (Ledger.step (Ledger.interpretWithin config n) config walk step)
            fun next later => rest <:+ Step.ofNode node ∧ Midway ledger pending next later := by
        rintro later ⟨hsuffix, hlater⟩
        have hholds := hsteps step (hsuffix.subset List.mem_cons_self)
        exact Triple.mono (Leads.step ih config walk hholds) (fun _ => id)
          (fun _ _ hnext => ⟨(List.suffix_cons step rest).trans hsuffix, hnext⟩) later hlater
      have hfold := Triple.foldlM (fun rest walk later => rest <:+ Step.ofNode node ∧
        Midway ledger pending walk later) hstep (Step.ofNode node) (Walk.start enclosing declared)
      refine Triple.mono (hfold.bind fun last => Triple.pure fun _ hlast => ⟨last, hlast.2⟩)
        (fun _ h => ⟨List.suffix_refl _, h⟩) fun _ _ h => h
    refine Triple.mono hrun (fun _ => id) (fun _ later hlater => ?_) ledger hstart
    obtain ⟨last, hlast⟩ := hlater
    exact h.extend hlast.later hlast.wired hlast.identified

end Leads

theorem midway_empty : Midway {} [] (Walk.start none false) {} where
  later := .refl {}
  wired := by
    constructor <;> simp [roleOf, Registry.Links, Registry.linksOf, Registry.find?, Registry.size,
      Registry.empty]
  identified := by constructor <;> simp [Registry.find?, Registry.empty]
  enclosing := by simp [Walk.start]
  table := by simp [Walk.start]
  anchor := by simp [Walk.start]

/-- The ledger of a text is wired, nothing is pending, and its joins can be told by their names. -/
theorem wired_analyze {config : Config} {sql : String} (h : analyze config sql = .ok ledger) :
    Wired [] ledger ∧ Identified ledger := by
  have hprocess : Leads (Midway {} [] (Walk.start none false)) (process config sql)
      fun _ => Midway {} [] (Walk.start none false) := by
    unfold process
    cases hstatements : Node.statementsOfText sql config.stripComments with
    | error error => exact Triple.throw fun _ _ => trivial
    | ok statements =>
      obtain ⟨lexemes, -, hseated, htidy⟩ := Node.tidy_of_mem_statementsOfText hstatements
      refine Triple.mono (Keeps.forM statements fun statement hstatement => ?_) (fun _ h => h)
        fun _ _ h => h.2
      refine Triple.mono (Leads.interpretWithin hseated config statement.depth statement none false
        (htidy statement hstatement) {} [] (Walk.start none false)) (fun _ h => ⟨h, by simp⟩)
        fun _ _ h => ⟨trivial, h⟩
  have hledger := hprocess {} midway_empty
  rw [run_process_of_analyze h] at hledger
  exact ⟨hledger.wired, hledger.identified⟩

end

end Ledger

/-- The table is one that a join has been given. -/
def Registry.IsJoin (registry : Registry) (id : Nat) : Prop :=
  ∃ table n, registry.find? id = some table ∧ table.name = Origin.join.numbered n

theorem exists_ledger {config : Config} {sql : String} {registry : Registry}
    (h : analyze config sql = .ok registry) :
    ∃ ledger, Ledger.analyze config sql = .ok ledger ∧ ledger.registry = registry := by
  rw [Ledger.analyze_eq] at h
  cases hledger : Ledger.analyze config sql with
  | error error =>
    rw [hledger] at h
    cases h
  | ok ledger =>
    rw [hledger] at h
    exact ⟨ledger, rfl, Except.ok.inj h⟩

/-- No source is left alone: whatever a `FROM` or `JOIN` mentions is reached from the table of the
query to which the clause belongs, and everything registered for a source, a query in parentheses
or a join is mentioned. So only the tables of a `SELECT` at the top, of a statement without one and
of a common table have no link that leads to them. -/
theorem reaches_of_mention {config : Config} {sql : String} {registry : Registry}
    (h : analyze config sql = .ok registry) :
    ∃ ledger, Ledger.analyze config sql = .ok ledger ∧ ledger.registry = registry ∧
      ledger.roles.length = registry.size ∧
      (∀ owner target, (owner, target) ∈ ledger.mentions →
        registry.Reaches owner target ∧ ledger.IsQuery owner) ∧
      (∀ id role, ledger.roleOf id = some role → role.isMentioned = true →
        ∃ owner, (owner, id) ∈ ledger.mentions) ∧
      ∀ id role, ledger.roleOf id = some role → (¬ ∃ source, registry.Links source id) →
        role = .select ∨ role = .anonymous ∨ role = .common := by
  obtain ⟨ledger, hledger, rfl⟩ := exists_ledger h
  obtain ⟨hwired, -⟩ := Ledger.wired_analyze hledger
  have hmentioned : ∀ id role, ledger.roleOf id = some role → role.isMentioned = true →
      ∃ owner, (owner, id) ∈ ledger.mentions := fun id role hrole hmentioned =>
    (hwired.mentioned id role hrole hmentioned).resolve_left List.not_mem_nil
  refine ⟨ledger, hledger, rfl, hwired.size, hwired.mention, hmentioned, ?_⟩
  intro id role hrole halone
  have hnot : role.isMentioned ≠ true := by
    intro htrue
    obtain ⟨owner, howner⟩ := hmentioned id role hrole htrue
    obtain ⟨middle, -, hlink⟩ := Relation.TransGen.tail'_iff.1 (hwired.mention owner id howner).1
    exact halone ⟨middle, hlink⟩
  cases role with
  | select => exact .inl rfl
  | anonymous => exact .inr (.inl rfl)
  | common => exact .inr (.inr rfl)
  | derived => exact absurd rfl hnot
  | source => exact absurd rfl hnot
  | join => exact absurd rfl hnot

/-- A query with a common table, a query in parentheses and a chain of two joins. -/
def joinedSources : String :=
  "WITH c AS (SELECT a FROM t) SELECT x FROM c JOIN (SELECT b FROM u) s ON c.a = s.b JOIN t ON t.a = s.b"

theorem exists_analyze_joinedSources : ∃ ledger, Ledger.analyze {} joinedSources = .ok ledger ∧
    analyze {} joinedSources = .ok ledger.registry ∧
    ledger.mentions = [(0, 1), (2, 0), (3, 4), (2, 5), (2, 3), (2, 6), (2, 1)] ∧
    ledger.registry.linksOf 5 = [3, 6] ∧
    (ledger.registry.find? 5).map Table.name = some "join-1" := by
  have hread : (Ledger.analyze {} joinedSources).toOption.map (fun ledger => (ledger.mentions,
      ledger.registry.linksOf 5, (ledger.registry.find? 5).map Table.name)) =
      some ([(0, 1), (2, 0), (3, 4), (2, 5), (2, 3), (2, 6), (2, 1)], [3, 6], some "join-1") := by
    decide +kernel
  obtain ⟨ledger, hledger, hparts⟩ := exists_of_map hread
  obtain ⟨hmentions, hparts⟩ := Prod.mk.inj hparts
  obtain ⟨hlinks, hname⟩ := Prod.mk.inj hparts
  refine ⟨ledger, hledger, ?_, hmentions, hlinks, hname⟩
  rw [Ledger.analyze_eq, hledger]
  rfl

/-- The table of the query in parentheses is reached from the `SELECT` by way of the common table
and the first join, and the second join by one link more. -/
theorem reaches_of_mention_joinedSources : ∃ registry, analyze {} joinedSources = .ok registry ∧
    registry.Reaches 2 3 ∧ registry.Reaches 2 6 := by
  obtain ⟨found, hfound, hanalyze, hmentions, -⟩ := exists_analyze_joinedSources
  obtain ⟨ledger, hledger, -, -, hmention, -⟩ := reaches_of_mention hanalyze
  obtain rfl := Except.ok.inj (hfound.symm.trans hledger)
  refine ⟨found.registry, hanalyze, (hmention 2 3 ?_).1, (hmention 2 6 ?_).1⟩
  · rw [hmentions]
    decide
  · rw [hmentions]
    decide

/-- Joins stand in chains: one table is linked to each, and each is linked to what it joins, which
is not a join, and to at most one later join. A table that was registered for nothing but a name
behind `FROM` or `JOIN` is linked to joins only. -/
theorem shape_of_join {config : Config} {sql : String} {registry : Registry}
    (h : analyze config sql = .ok registry) :
    (∀ id, registry.IsJoin id → (∃! source, registry.Links source id) ∧
      ∃ source, source < registry.size ∧ ¬ registry.IsJoin source ∧
        (registry.linksOf id = [source] ∨ ∃ next, registry.linksOf id = [source, next] ∧
          id < next ∧ registry.IsJoin next)) ∧
    ∃ ledger, Ledger.analyze config sql = .ok ledger ∧ ledger.registry = registry ∧
      ledger.roles.length = registry.size ∧
      (∀ id, ledger.roleOf id = some .join ↔ registry.IsJoin id) ∧
      ∀ id target, ledger.roleOf id = some .source → registry.Links id target →
        registry.IsJoin target := by
  obtain ⟨ledger, hledger, rfl⟩ := exists_ledger h
  obtain ⟨hwired, hidentified⟩ := Ledger.wired_analyze hledger
  have hjoin : ∀ id, ledger.roleOf id = some .join ↔ ledger.registry.IsJoin id := by
    intro id
    constructor
    · intro hid
      have hlt : id < ledger.registry.size := hwired.size ▸ Ledger.lt_of_roleOf hid
      have hfind : ledger.registry.find? id = some ledger.registry.tables[id] :=
        List.getElem?_eq_getElem hlt
      obtain ⟨n, hn⟩ := (hidentified.join id _ hfind).1 hid
      exact ⟨_, n, hfind, hn⟩
    · rintro ⟨table, n, hfind, hn⟩
      exact (hidentified.join id table hfind).2 ⟨n, hn⟩
  refine ⟨fun id hid => ⟨hwired.unique id ((hjoin id).2 hid), ?_⟩, ledger, hledger, rfl,
    hwired.size, hjoin, fun id target hid hlink => (hjoin target).1 (hwired.source id target hid hlink)⟩
  obtain ⟨source, hsource, hshape⟩ := hwired.shape id ((hjoin id).2 hid)
  have hlink : ledger.registry.Links id source := by
    rw [Registry.Links]
    rcases hshape with heq | ⟨next, heq, -⟩ <;> rw [heq] <;> exact List.mem_cons_self
  refine ⟨source, hwired.below id source hlink, fun hsource' => hsource ((hjoin source).2 hsource'), ?_⟩
  refine hshape.imp_right ?_
  rintro ⟨next, hnext, hlt, hrole⟩
  exact ⟨next, hnext, hlt, (hjoin next).1 hrole⟩

/-- The first join is linked to the query in parentheses and to the second join. -/
theorem shape_of_join_joinedSources : ∃ registry, analyze {} joinedSources = .ok registry ∧
    registry.linksOf 5 = [3, 6] ∧ registry.IsJoin 5 ∧ registry.IsJoin 6 ∧
      ∃! source, registry.Links source 5 := by
  obtain ⟨found, -, hanalyze, -, hlinks, hname⟩ := exists_analyze_joinedSources
  obtain ⟨table, hfind, hname⟩ := Option.map_eq_some_iff.1 hname
  obtain ⟨hjoins, -⟩ := shape_of_join hanalyze
  have hjoin : found.registry.IsJoin 5 := ⟨table, 1, hfind, hname.trans (by decide)⟩
  obtain ⟨hunique, source, -, -, hshape⟩ := hjoins 5 hjoin
  refine ⟨found.registry, hanalyze, hlinks, hjoin, ?_, hunique⟩
  rcases hshape with hshape | ⟨next, hshape, -, hnext⟩
  · rw [hlinks] at hshape
    cases (List.cons.inj hshape).2
  · rw [hlinks] at hshape
    simp only [List.cons.injEq, and_true] at hshape
    exact hshape.2 ▸ hnext

end QueryLineage
