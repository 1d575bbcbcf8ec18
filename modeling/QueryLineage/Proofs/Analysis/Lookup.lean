import QueryLineage.Proofs.Analysis.Ledger
import QueryLineage.Proofs.Analysis.Standing
import QueryLineage.Proofs.Outcome

/-!
# What a name stands for behind a `WITH`

A name behind `FROM` or `JOIN` stands for the first table that is known under it. The tables of all
statements are kept together, and an entry of a `WITH` always gets a new one, which comes behind them.
So the name of an entry stands for the entry only if nothing that has been registered before the
entry is known under that name; this is said of every statement of a batch, and of the graph that the
batch leaves in the end.
-/

namespace QueryLineage

open Text

/-- Where a table is known under a name, the name stands for that table or for one before it; for the
table itself, if no table before it is known under the name. -/
theorem Registry.exists_findKnownAs? {registry : Registry}
    (hids : ∀ i table, registry.find? i = some table → table.id = i) {id : Nat} {known : Table}
    {name : String} (hfind : registry.find? id = some known) (hknown : known.isKnownAs name = true) :
    ∃ target, registry.findKnownAs? name = some target ∧ target.id ≤ id ∧
      (target.id = id ↔
        ∀ i < id, ∀ table, registry.find? i = some table → table.isKnownAs name = false) := by
  cases hfirst : registry.findKnownAs? name with
  | none =>
    have hnone := List.find?_eq_none.1 hfirst known (List.mem_of_getElem? hfind)
    exact absurd hknown hnone
  | some target =>
    obtain ⟨hself, i, hi, rfl, hbefore⟩ := List.find?_eq_some_iff_getElem.1 hfirst
    have hid : registry.tables[i].id = i := hids i _ (List.getElem?_eq_getElem hi)
    have hunknown : ∀ j < i, ∀ table, registry.find? j = some table →
        table.isKnownAs name = false := by
      intro j hj table htable
      obtain ⟨-, rfl⟩ := List.getElem?_eq_some_iff.1 htable
      simpa using hbefore j hj
    have hle : i ≤ id := by
      by_contra hlt
      rw [hunknown id (Nat.lt_of_not_le hlt) known hfind] at hknown
      cases hknown
    refine ⟨registry.tables[i], rfl, hid.symm ▸ hle, ?_⟩
    rw [hid]
    refine ⟨fun heq => heq ▸ hunknown, fun hnone => ?_⟩
    by_contra hne
    have hlt : i < id := Nat.lt_of_le_of_ne hle hne
    rw [hnone i hlt _ (List.getElem?_eq_getElem hi)] at hself
    cases hself

namespace Walk

variable {walk next : Walk} {own : Nat} {registry later : Registry}

theorem links_joinSource {anchor source : Nat} (hsource : source < registry.size)
    (hrun : (walk.joinSource anchor source).run registry = (.ok next, later)) :
    (∃ table n, later.find? registry.size = some table ∧ table.name = Origin.join.numbered n) ∧
      later.Links registry.size source := by
  obtain ⟨table, hfind, hname⟩ := registry.exists_find?_create_size { name := .generated .join }
  cases hrun
  constructor
  · obtain ⟨linked, hlinked, hlinkedName, -⟩ := ((Registry.Retains.link _ anchor registry.size).trans
      (.link _ registry.size source)) registry.size table hfind
    exact ⟨linked, registry.joins + 1, hlinked, hlinkedName.trans hname⟩
  · refine (Registry.links_link ?_ ?_ _ _).2 (.inr ⟨rfl, rfl⟩)
    · simp
    · simp only [Registry.size_link, Registry.size_create]
      omega

/-- The table of the query is linked to its source, or it is the table of a join that is linked to
it. -/
theorem links_addSource {clause : Clause} {source : Nat} (htable : walk.table = some own)
    (hown : own < registry.size) (hsource : source < registry.size)
    (hrun : (walk.addSource clause source).run registry = (.ok next, later)) :
    if clause = .joinList then
      (∃ table n, later.find? registry.size = some table ∧ table.name = Origin.join.numbered n) ∧
        later.Links registry.size source
    else later.Links own source := by
  split
  · next hclause =>
    rw [hclause, addSource_joinList] at hrun
    cases hanchor : walk.anchor with
    | some anchor =>
      rw [hanchor] at hrun
      exact links_joinSource hsource hrun
    | none =>
      rw [hanchor, ownTable_of_eq_some htable, pure_bind] at hrun
      exact links_joinSource hsource hrun
  · next hclause =>
    rw [addSource_of_ne hclause, ownTable_of_eq_some htable, pure_bind] at hrun
    cases hrun
    exact (Registry.links_link hown hsource _ _).2 (.inr ⟨rfl, rfl⟩)

theorem links_record {config : Config} {clause : Clause} {text name : String}
    {alias? : Option String} {target : Table} (htable : walk.table = some own)
    (hown : own < registry.size) (htarget : registry.findKnownAs? name = some target)
    (hid : target.id < registry.size)
    (hrun : (walk.record config clause text (.source name alias?)).run registry =
      (.ok next, later)) :
    if clause = .joinList then
      (∃ table n, later.find? registry.size = some table ∧ table.name = Origin.join.numbered n) ∧
        later.Links registry.size target.id
    else later.Links own target.id := by
  rw [record, tableNamed_eq, Run.run_bind_eq_ok_iff] at hrun
  obtain ⟨id, named, hnamed, hadd⟩ := hrun
  rw [Run.run_bind_ok _ (run_knownAs_of_some htarget), Run.run_bind_eq_ok_iff] at hnamed
  obtain ⟨_, aliased, halias, hlast⟩ := hnamed
  cases hlast
  have hsize : named.size = registry.size := by
    cases alias? <;> cases halias <;> simp
  rw [← hsize] at hown hid ⊢
  exact links_addSource htable hown hid hadd

end Walk

def Source.isNamed (text : String) : Source → Bool
  | named name _ => name == text
  | derived _ _ => false

def Step.declares (name : String) : Step → Bool
  | read clause (.entries nodes) _ _ =>
    clause == .withList &&
      nodes.any fun node => (CommonTable.ofNode node).toOption.any (·.name == name)
  | read _ (.columns _) _ _ | read _ (.sources _) _ _ | read _ (.conditions _) _ _
  | read _ .nothing _ _ | select | restrict _ | fail _ | finish _ => false

/-- Whether the step reads a source of that name in the clause. -/
def Step.mentions (name : String) (clause : Clause) : Step → Bool
  | read other (.sources found) _ _ => other == clause && found.any (Source.isNamed name)
  | read _ (.columns _) _ _ | read _ (.entries _) _ _ | read _ (.conditions _) _ _
  | read _ .nothing _ _ | select | restrict _ | fail _ | finish _ => false

def Step.isSelect : Step → Bool
  | select => true
  | read _ _ _ _ | restrict _ | fail _ | finish _ => false

/-- Whether an entry of that name is registered, then a `SELECT` begins, and then a source of that
name is read in the clause. -/
def Step.rereads (name : String) (clause : Clause) (steps : List Step) : Bool :=
  let behind := (steps.dropWhile fun step => !step.declares name).tail
  (behind.dropWhile fun step => !step.isSelect).tail.any (Step.mentions name clause)

theorem Step.exists_of_declares {step : Step} {name : String} (h : step.declares name = true) :
    ∃ first entry rest comment text,
      step = .read .withList (.entries (first ++ entry :: rest)) comment text ∧
        (CommonTable.ofNode entry).map CommonTable.name = .ok name := by
  cases step with
  | read clause reading comment text =>
    cases reading with
    | entries nodes =>
      simp only [declares, Bool.and_eq_true, beq_iff_eq, List.any_eq_true] at h
      obtain ⟨rfl, entry, hentry, hname⟩ := h
      obtain ⟨first, rest, rfl⟩ := List.append_of_mem hentry
      refine ⟨first, entry, rest, comment, text, rfl, ?_⟩
      cases hread : CommonTable.ofNode entry with
      | error error =>
        rw [hread] at hname
        cases hname
      | ok table =>
        rw [hread] at hname
        exact congrArg Except.ok (beq_iff_eq.1 hname)
    | _ => cases h
  | _ => cases h

theorem Step.exists_of_mentions {step : Step} {name : String} {clause : Clause}
    (h : step.mentions name clause = true) :
    ∃ first alias? rest comment text,
      step = .read clause (.sources (first ++ .named name alias? :: rest)) comment text := by
  cases step with
  | read other reading comment text =>
    cases reading with
    | sources found =>
      simp only [mentions, Bool.and_eq_true, beq_iff_eq, List.any_eq_true] at h
      obtain ⟨rfl, source, hsource, hnamed⟩ := h
      obtain ⟨first, rest, rfl⟩ := List.append_of_mem hsource
      cases source with
      | named shown alias? =>
        obtain rfl := beq_iff_eq.1 hnamed
        exact ⟨first, alias?, rest, comment, text, rfl⟩
      | derived alias? body => cases hnamed
    | _ => cases h
  | _ => cases h

theorem Step.exists_of_rereads {steps : List Step} {name : String} {clause : Clause}
    (h : rereads name clause steps = true) :
    ∃ opening entries between source closing,
      steps = opening ++ entries :: (between ++ source :: closing) ∧
        entries.declares name = true ∧ .select ∈ between ∧ source.mentions name clause = true := by
  have hentries := List.head?_dropWhile_not (fun step : Step => !step.declares name) steps
  have hsteps := List.takeWhile_append_dropWhile (p := fun step => !step.declares name) (l := steps)
  unfold rereads at h
  dsimp only at h
  generalize steps.takeWhile _ = opening at hsteps
  generalize steps.dropWhile _ = later at hentries hsteps h
  cases later with
  | nil => cases h
  | cons entries behind =>
    have hselect := List.head?_dropWhile_not (fun step : Step => !step.isSelect) behind
    have hbehind := List.takeWhile_append_dropWhile (p := fun step => !step.isSelect) (l := behind)
    rw [List.tail_cons] at h
    generalize behind.takeWhile _ = between at hbehind
    generalize behind.dropWhile _ = rest at hselect hbehind h
    cases rest with
    | nil => cases h
    | cons begins rest =>
      obtain ⟨source, hsource, hmentions⟩ := List.any_eq_true.1 h
      obtain ⟨columns, closing, rfl⟩ := List.append_of_mem hsource
      refine ⟨opening, entries, between ++ begins :: columns, source, closing, ?_, ?_, ?_, hmentions⟩
      · simp [← hsteps, ← hbehind]
      · simpa using hentries
      · have hbegins : begins.isSelect = true := by simpa using hselect
        cases begins with
        | select => simp
        | _ => cases hbegins

/-- A source in a statement of a text, where an entry of a `WITH` before the `SELECT` of that
statement declares the name of the source. The steps `opening` come before those entries, and the
steps `between` them and the part of the clause to which the source belongs. -/
structure Reference (config : Config) (sql : String) where
  before : List Node
  statement : Node
  after : List Node
  opening : List Step
  firstEntries : List Node
  entry : Node
  otherEntries : List Node
  entryComment : String
  entryText : String
  between : List Step
  clause : Clause
  firstSources : List Source
  name : String
  alias? : Option String
  otherSources : List Source
  comment : String
  text : String
  closing : List Step
  statements :
    Node.statementsOfText sql config.stripComments = .ok (before ++ statement :: after)
  steps : Step.ofNode statement =
    opening ++
      .read .withList (.entries (firstEntries ++ entry :: otherEntries)) entryComment entryText ::
      (between ++
        .read clause (.sources (firstSources ++ .named name alias? :: otherSources)) comment text ::
        closing)
  declares : (CommonTable.ofNode entry).map CommonTable.name = .ok name
  selects : .select ∈ between

namespace Reference

variable {config : Config} {sql : String} (reference : Reference config sql)

/-- How the queries in the statement are interpreted. -/
def descend : Node → Option Nat → Bool → Run Unit :=
  interpretWithin config (reference.statement.depth - 1)

def entries : Step :=
  .read .withList
    (.entries (reference.firstEntries ++ reference.entry :: reference.otherEntries))
    reference.entryComment reference.entryText

def sources : List Source :=
  reference.firstSources ++ .named reference.name reference.alias? :: reference.otherSources

/-- The run of the text until the entry is registered. -/
def toEntry : Run Unit := do
  reference.before.forM fun statement => interpret config statement none false
  let _ ← reference.opening.foldlM (Walk.step reference.descend config) (Walk.start none false)
  let _ ← reference.firstEntries.mapM
    (CommonTable.register reference.descend config reference.entryComment)
  pure ()

/-- The run of the text until the source is recorded. -/
def toSource : Run Walk := do
  reference.before.forM fun statement => interpret config statement none false
  let walk ← (reference.opening ++ reference.entries :: reference.between).foldlM
    (Walk.step reference.descend config) (Walk.start none false)
  let findings ← reference.sources.mapM (Source.resolve reference.descend)
  (findings.take reference.firstSources.length).foldlM
    (Walk.record config reference.clause reference.text) walk

theorem acts_descend (node : Node) (enclosing : Option Nat) (declared : Bool) :
    Acts (reference.descend node enclosing declared) :=
  Acts.interpretWithin config _ node enclosing declared

theorem acts_toSource : Acts reference.toSource := by
  unfold toSource
  refine (Acts.forM (fun statement => Acts.interpret config statement none false) _).bind fun _ => ?_
  refine (Acts.foldlM (Acts.step reference.acts_descend config) _ _).bind fun walk => ?_
  refine (Acts.mapM (Acts.resolveSource reference.acts_descend) _).bind fun findings => ?_
  exact Acts.foldlM (Acts.record config reference.clause reference.text) walk _

/-- Whatever is read before it, the source belongs to a `SELECT` at the top. -/
theorem selects_toSource {walk : Walk} {found : Registry}
    (hrun : reference.toSource.run .empty = (.ok walk, found)) : walk.Selects found := by
  unfold toSource at hrun
  simp only [Run.run_bind_eq_ok_iff] at hrun
  obtain ⟨_, first, -, walk', middle, hsteps, findings, resolved, hresolve, hrecord⟩ := hrun
  have hmem : .select ∈ reference.opening ++ reference.entries :: reference.between :=
    List.mem_append_right _ (List.mem_cons_of_mem _ reference.selects)
  have hwalk : walk'.Selects middle :=
    Walk.Selects.of_foldlM reference.acts_descend rfl (.inl hmem) hsteps
  have hresolved : walk'.Selects resolved := hwalk.continues (.refl walk')
    ((Acts.mapM (Acts.resolveSource reference.acts_descend) _).retains hresolve)
  exact hresolved.continues ((Walk.Continues.recordAll config _ _ _ _).of_run hrecord)
    ((Acts.foldlM (Acts.record config _ _) _ _).retains hrecord)

theorem findings_eq {registry later : Registry} {findings : List Finding}
    (hrun : (reference.sources.mapM (Source.resolve reference.descend)).run registry =
      (.ok findings, later)) :
    findings = findings.take reference.firstSources.length ++
      .source reference.name reference.alias? ::
        findings.drop (reference.firstSources.length + 1) := by
  unfold sources at hrun
  simp only [List.mapM_append, List.mapM_cons, Run.run_bind_eq_ok_iff] at hrun
  obtain ⟨first, middle, hfirst, _, _, ⟨_, _, hsource, others, last, -, hcons⟩, happend⟩ := hrun
  cases hsource
  cases hcons
  cases happend
  rw [← Run.length_of_mapM hfirst]
  simp

theorem depth_eq : reference.statement.depth = reference.statement.depth - 1 + 1 := by
  refine (Nat.succ_pred_eq_of_ne_zero fun hzero => ?_).symm
  have hsteps := reference.steps
  rw [Step.ofNode_of_children_eq_nil (Node.children_eq_nil_of_depth hzero)] at hsteps
  have hlength := congrArg List.length hsteps
  simp only [List.length_append, List.length_cons, List.length_nil] at hlength
  omega

section

variable {walk last : Walk} {registry later : Registry}

theorem exists_registered
    (hrun : (walk.step reference.descend config reference.entries).run registry =
      (.ok last, later)) :
    ∃ ids declared id entered,
      (reference.firstEntries.mapM
        (CommonTable.register reference.descend config reference.entryComment)).run registry =
        (.ok ids, declared) ∧
      (CommonTable.register reference.descend config reference.entryComment reference.entry).run
        declared = (.ok id, entered) ∧
      later.Retains entered := by
  unfold entries at hrun
  simp only [Walk.step, Reading.resolve, List.mapM_append, List.mapM_cons,
    Run.run_bind_eq_ok_iff] at hrun
  obtain ⟨findings, resolved, ⟨_, _, ⟨ids, declared, hfirst, _, _, ⟨id, entered, hentry, others,
    rest, hothers, hcons⟩, happend⟩, hnothing⟩, hrecord⟩ := hrun
  cases hcons
  cases happend
  cases hnothing
  refine ⟨ids, declared, id, entered, hfirst, hentry, ?_⟩
  exact ((Acts.mapM (Acts.register reference.acts_descend config _) _).retains hothers).trans
    ((Acts.foldlM (Acts.record config _ _) _ _).retains hrecord)

theorem exists_recorded
    (hrun : (walk.step reference.descend config (.read reference.clause
      (.sources reference.sources) reference.comment reference.text)).run registry =
      (.ok last, later)) :
    ∃ findings resolved, (reference.sources.mapM (Source.resolve reference.descend)).run registry =
        (.ok findings, resolved) ∧
      ∃ middle found next recorded, ((findings.take reference.firstSources.length).foldlM
          (Walk.record config reference.clause reference.text) walk).run resolved =
          (.ok middle, found) ∧
        (middle.record config reference.clause reference.text
          (.source reference.name reference.alias?)).run found = (.ok next, recorded) ∧
        later.Retains recorded := by
  simp only [Walk.step, Reading.resolve, Run.run_bind_eq_ok_iff] at hrun
  obtain ⟨findings, resolved, hresolve, hrecord⟩ := hrun
  rw [reference.findings_eq hresolve, Run.run_foldlM_append_cons_eq_ok_iff] at hrecord
  obtain ⟨middle, found, next, recorded, hfirst, hsource, hrest⟩ := hrecord
  exact ⟨findings, resolved, hresolve, middle, found, next, recorded, hfirst, hsource,
    (Acts.foldlM (Acts.record config _ _) _ _).retains hrest⟩

end

/-- A run that analyses the text registers the entry, later records the source, and goes on from
there. -/
theorem exists_runs {registry : Registry} (h : analyze config sql = .ok registry) :
    ∃ declared id entered walk found next recorded,
      reference.toEntry.run .empty = (.ok (), declared) ∧
      (CommonTable.register reference.descend config reference.entryComment reference.entry).run
        declared = (.ok id, entered) ∧
      reference.toSource.run .empty = (.ok walk, found) ∧ found.Retains entered ∧
      (walk.record config reference.clause reference.text
        (.source reference.name reference.alias?)).run found = (.ok next, recorded) ∧
      registry.Retains recorded := by
  have hsteps : Step.ofNode reference.statement =
      (reference.opening ++ reference.entries :: reference.between) ++
        .read reference.clause (.sources reference.sources) reference.comment reference.text ::
          reference.closing := by
    rw [reference.steps, List.append_assoc, List.cons_append]
    rfl
  -- the run is cut at the statement, then at the step of the source, then at that of the entries
  rw [analyze_eq_ok_iff_run, process_eq_forM reference.statements, List.forM_append,
    Run.run_bind_eq_ok_iff] at h
  obtain ⟨_, first, hbefore, h⟩ := h
  rw [List.forM_cons, Run.run_bind_eq_ok_iff] at h
  obtain ⟨_, ended, hstatement, hafter⟩ := h
  rw [interpret, depth_eq, run_interpretWithin_eq_ok_iff, ← descend, hsteps] at hstatement
  obtain ⟨last, hstatement⟩ := hstatement
  rw [Run.run_foldlM_append_cons_eq_ok_iff] at hstatement
  obtain ⟨walk, ready, read, done, hready, hread, hclosing⟩ := hstatement
  obtain ⟨findings, resolved, hresolve, middle, found, next, recorded, hfound, hsource, hdone⟩ :=
    reference.exists_recorded hread
  obtain ⟨start, opened, passed, registered, hopening, hentries, hbetween⟩ :=
    Run.run_foldlM_append_cons_eq_ok_iff.1 hready
  obtain ⟨ids, declared, id, entered, hfirst, hentry, hregistered⟩ :=
    reference.exists_registered hentries
  refine ⟨declared, id, entered, middle, found, next, recorded, ?_, hentry, ?_, ?_, hsource, ?_⟩
  · simp only [toEntry, Run.run_bind_eq_ok_iff]
    exact ⟨_, first, hbefore, start, opened, hopening, ids, declared, hfirst, rfl⟩
  · simp only [toSource, Run.run_bind_eq_ok_iff]
    exact ⟨_, first, hbefore, walk, ready, hready, findings, resolved, hresolve, hfound⟩
  · exact hregistered.trans <|
      ((Acts.foldlM (Acts.step reference.acts_descend config) _ _).retains hbetween).trans <|
      ((Acts.mapM (Acts.resolveSource reference.acts_descend) _).retains hresolve).trans <|
      (Acts.foldlM (Acts.record config _ _) _ _).retains hfound
  · exact hdone.trans <|
      ((Acts.foldlM (Acts.step reference.acts_descend config) _ _).retains hclosing).trans <|
      (Acts.forM (fun statement => Acts.interpret config statement none false) _).retains hafter

/-- The table of the entry comes behind all that there are, and has the name of the source. -/
theorem exists_declared {declared entered : Registry} {id : Nat}
    (hrun : (CommonTable.register reference.descend config reference.entryComment
      reference.entry).run declared = (.ok id, entered)) :
    id = declared.size ∧ ∃ table, entered.find? declared.size = some table ∧
      table.name = reference.name := by
  have hdeclares := reference.declares
  unfold CommonTable.register at hrun
  cases hentry : CommonTable.ofNode reference.entry with
  | error error =>
    rw [hentry] at hdeclares
    cases hdeclares
  | ok entry =>
    rw [hentry] at hrun hdeclares
    obtain hname : entry.name = reference.name := Except.ok.inj hdeclares
    simp only [Run.run_bind_eq_ok_iff] at hrun
    obtain ⟨_, _, hread, _, _, hcreate, _, last, hdescend, hlast⟩ := hrun
    cases hread
    cases hcreate
    cases hlast
    obtain ⟨table, hfind, htable⟩ := declared.exists_find?_create_size
      { name := .named entry.name
        attributes := entry.columns.map .placeholder
        comment := entry.comment?.getD reference.entryComment
        source := if config.captureSource then trim reference.entry.text else "" }
    obtain ⟨later, hlater, hlaterName, -⟩ :=
      (reference.acts_descend _ _ _).retains hdescend declared.size table hfind
    exact ⟨rfl, later, hlater, hlaterName.trans (htable.trans hname)⟩

/-- Wherever the steps of a statement show it, there is such a source. -/
theorem exists_of_rereads {trees : List Node} {name : String} {clause : Clause}
    (htrees : Node.statementsOfText sql config.stripComments = .ok trees)
    (h : (trees.any fun tree => Step.rereads name clause (Step.ofNode tree)) = true) :
    ∃ reference : Reference config sql, reference.name = name ∧ reference.clause = clause := by
  obtain ⟨statement, hstatement, hrereads⟩ := List.any_eq_true.1 h
  obtain ⟨before, after, rfl⟩ := List.append_of_mem hstatement
  obtain ⟨opening, entries, between, source, closing, hsteps, hentries, hselect, hsource⟩ :=
    Step.exists_of_rereads hrereads
  obtain ⟨firstEntries, entry, otherEntries, entryComment, entryText, rfl, hname⟩ :=
    Step.exists_of_declares hentries
  obtain ⟨firstSources, alias?, otherSources, comment, text, rfl⟩ := Step.exists_of_mentions hsource
  exact ⟨{
    before, statement, after, opening, firstEntries, entry, otherEntries, entryComment, entryText,
    between, clause, firstSources, name, alias?, otherSources, comment, text, closing
    statements := htrees, steps := hsteps, declares := hname, selects := hselect }, rfl, rfl⟩

end Reference

/-- In a text that is analysed, a source with the name of an entry before its `SELECT` stands for the
first table that is known under the name, by its own name or by an alias, when the source is recorded.
This is never a table that was registered behind the entry, and it is the table of the entry exactly
if no table that was there before the entry is known under the name by then, whichever statement it
comes from. In the graph of the text, the table of the `SELECT`, or the table of the join for the
source, is linked to it. -/
theorem source_stands_for_first {config : Config} {sql : String} {registry : Registry}
    (reference : Reference config sql) (h : analyze config sql = .ok registry) :
    ∃ declared entered found walk own target,
      reference.toEntry.run .empty = (.ok (), declared) ∧
      (CommonTable.register reference.descend config reference.entryComment reference.entry).run
        declared = (.ok declared.size, entered) ∧
      (∃ table, registry.find? declared.size = some table ∧ table.name = reference.name) ∧
      reference.toSource.run .empty = (.ok walk, found) ∧
      found.findKnownAs? reference.name = some target ∧
      target.id ≤ declared.size ∧
      (target.id = declared.size ↔ ∀ i < declared.size, ∀ table, found.find? i = some table →
        table.isKnownAs reference.name = false) ∧
      walk.table = some own ∧
      (∃ table n, registry.find? own = some table ∧ table.name = Origin.select.numbered n) ∧
      if reference.clause = .joinList then
        (∃ table n, registry.find? found.size = some table ∧
          table.name = Origin.join.numbered n) ∧ registry.Links found.size target.id
      else registry.Links own target.id := by
  obtain ⟨declared, id, entered, walk, found, next, recorded, hentry, hregister, hsource, hentered,
    hrecord, hlast⟩ := reference.exists_runs h
  obtain ⟨rfl, table, hfind, hname⟩ := reference.exists_declared hregister
  obtain ⟨own, select, n, hown, hselect, hselectName⟩ := (reference.selects_toSource hsource).table
  have hrecorded : recorded.Retains found := (Acts.record config _ _ _ _).retains hrecord
  obtain ⟨known, hknown, hknownName, -⟩ := hentered declared.size table hfind
  have hids : ∀ i other, found.find? i = some other → other.id = i := fun i other =>
    reference.acts_toSource.id_eq hsource
  have hcalled : known.isKnownAs reference.name = true := by
    simp [Table.isKnownAs, hknownName, hname]
  -- the entry's table is one that the name can stand for, so what is found is at most as late
  obtain ⟨target, htarget, hle, hiff⟩ := Registry.exists_findKnownAs? hids hknown hcalled
  refine ⟨declared, entered, found, walk, own, target, hentry, hregister, ?_, hsource, htarget, hle,
    hiff, hown, ?_, ?_⟩
  · obtain ⟨later, hlater, hlaterName, -⟩ := (hrecorded.trans hlast) declared.size known hknown
    exact ⟨later, hlater, hlaterName.trans (hknownName.trans hname)⟩
  · obtain ⟨later, hlater, hlaterName, -⟩ := (hrecorded.trans hlast) own select hselect
    exact ⟨later, n, hlater, hlaterName.trans hselectName⟩
  · have hsize : declared.size < found.size := (List.getElem?_eq_some_iff.1 hknown).1
    have hlinks := Walk.links_record hown (List.getElem?_eq_some_iff.1 hselect).1 htarget
      (Nat.lt_of_le_of_lt hle hsize) hrecord
    split at hlinks
    · next hclause =>
      rw [if_pos hclause]
      obtain ⟨⟨join, m, hjoin, hjoinName⟩, hlink⟩ := hlinks
      obtain ⟨later, hlater, hlaterName, -⟩ := hlast found.size join hjoin
      exact ⟨⟨later, m, hlater, hlaterName.trans hjoinName⟩, hlast.links hlink⟩
    · next hclause =>
      rw [if_neg hclause]
      exact hlast.links hlinks

/-- A statement joins an entry of its own to what it reads. -/
def joinedEntry : String :=
  "SELECT * FROM t; WITH c AS (SELECT a FROM t) SELECT * FROM u JOIN c ON x = y"

/-- The tables of the text, with what they are linked to. -/
def joinedEntryGraph : List (String × List Nat) :=
  [("select-1", [1]), ("t", []), ("c", [1]), ("select-2", [4]), ("u", [5]), ("join-1", [2])]

/-- Nothing before the entry is known under its name, so the join is linked to the entry. -/
theorem source_stands_for_first_joinedEntry : ∃ registry, analyze {} joinedEntry = .ok registry ∧
    registry.tables.map (fun table => (table.name, table.links)) = joinedEntryGraph ∧
    ∃ reference : Reference {} joinedEntry, reference.name = "c" ∧ reference.clause = .joinList ∧
      ∃ (declared found : Registry) (target : Table), reference.toEntry.run .empty = (.ok (), declared) ∧
        declared.size = 2 ∧ found.findKnownAs? "c" = some target ∧ target.id = 2 ∧
        registry.Links found.size 2 := by
  have hread : ((analyze {} joinedEntry).toOption.map fun registry =>
      registry.tables.map fun table => (table.name, table.links)) = some joinedEntryGraph := by
    decide +kernel
  have hrereads : ((Node.statementsOfText joinedEntry false).toOption.any fun trees =>
      trees.any fun tree => Step.rereads "c" .joinList (Step.ofNode tree)) = true := by
    decide +kernel
  obtain ⟨reference, hname, hclause⟩ : ∃ reference : Reference {} joinedEntry,
      reference.name = "c" ∧ reference.clause = .joinList := by
    obtain ⟨trees, htrees, hrereads⟩ := exists_of_any hrereads
    exact Reference.exists_of_rereads htrees hrereads
  obtain ⟨registry, hok, htables⟩ := exists_of_map hread
  have hshown : ∀ i table, registry.find? i = some table →
      ∃ place : Fin joinedEntryGraph.length, place.val = i ∧
        joinedEntryGraph.get place = (table.name, table.links) := by
    intro i table hfind
    have hshown := congrArg (Option.map fun table => (table.name, table.links)) hfind
    rw [Registry.find?, ← List.getElem?_map, htables] at hshown
    obtain ⟨hlt, heq⟩ := List.getElem?_eq_some_iff.1 hshown
    exact ⟨⟨i, hlt⟩, rfl, heq⟩
  obtain ⟨declared, entered, found, walk, own, target, hdeclared, -, ⟨entry, hentry, hentryName⟩,
    -, htarget, -, -, -, -, hlinks⟩ := source_stands_for_first reference hok
  rw [hname] at hentryName htarget
  rw [if_pos hclause] at hlinks
  obtain ⟨⟨join, n, hjoin, hjoinName⟩, hlink⟩ := hlinks
  have hsize : declared.size = 2 := by
    obtain ⟨place, hplace, heq⟩ := hshown declared.size entry hentry
    have hnamed : ∀ place, (joinedEntryGraph.get place).1 = "c" → place.val = 2 := by decide
    exact hplace.symm.trans (hnamed place ((congrArg Prod.fst heq).trans hentryName))
  have hlinked : join.links = [2] := by
    obtain ⟨place, -, heq⟩ := hshown found.size join hjoin
    have hnamed : ∀ place, (joinedEntryGraph.get place).1.toList.head? = some 'j' →
        (joinedEntryGraph.get place).2 = [2] := by
      decide
    refine (congrArg Prod.snd heq).symm.trans (hnamed place ?_)
    rw [(congrArg Prod.fst heq).trans hjoinName, Origin.toList_numbered]
    rfl
  have hid : target.id = 2 := by
    rw [Registry.Links, Registry.linksOf_eq hjoin, hlinked] at hlink
    exact List.mem_singleton.1 hlink
  exact ⟨registry, hok, htables, reference, hname, hclause, declared, found, target, hdeclared, hsize,
    htarget, hid, hid ▸ hlink⟩

/-- A statement declares a name that an earlier statement has read. -/
def readBefore : String :=
  "SELECT * FROM c; WITH c AS (SELECT a FROM t) SELECT * FROM c"

/-- The entry is the table 2, but the `SELECT` behind it reads the table 1 of the statement before. -/
theorem source_ne_entry_readBefore : ∃ ledger, Ledger.analyze {} readBefore = .ok ledger ∧
    ledger.registry.tables.map Table.name = ["select-1", "c", "c", "t", "select-2"] ∧
    ledger.roles = [.select, .source, .common, .source, .select] ∧
    ledger.registry.linksOf 4 = [1] := by
  have hread : ((Ledger.analyze {} readBefore).toOption.map fun ledger =>
      (ledger.registry.tables.map Table.name, ledger.roles, ledger.registry.linksOf 4)) =
      some (["select-1", "c", "c", "t", "select-2"],
        [.select, .source, .common, .source, .select], [1]) := by
    decide +kernel
  obtain ⟨ledger, hledger, hparts⟩ := exists_of_map hread
  exact ⟨ledger, hledger, congrArg Prod.fst hparts, congrArg (fun parts => parts.2.1) hparts,
    congrArg (fun parts => parts.2.2) hparts⟩

end QueryLineage
