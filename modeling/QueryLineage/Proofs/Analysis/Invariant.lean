import QueryLineage.Proofs.Analysis.Mentions

/-!
# What every ledger keeps

Whatever a text makes of a ledger, it makes by a few operations: tables are created for a few
purposes only, what tables say about their columns is edited, tables are linked and given aliases,
and mentions are entered. What all of these keep therefore holds of the ledger of every text.
-/

namespace QueryLineage

/-- The origin after which a table is named, unless the text itself names it. -/
def Role.origin? : Role → Option Origin
  | select | derived => some .select
  | join => some .join
  | anonymous => some .table
  | common | source => none

namespace Ledger

/-- What is done to a ledger keeps `inv`. A name that the text gives is never a generated one. Common
tables are created only if the text has `entries`, and a table is created for a name behind `FROM`
or `JOIN` only if no other is known under it. -/
structure Invariant (entries : Prop) (inv : Ledger → Prop) : Prop where
  generated : ∀ (ledger : Ledger) (role : Role) (origin : Origin) (new : NewTable),
    role.origin? = some origin → new.name = .generated origin →
      (∀ other ∈ new.alias?, Unnumbered other) → inv ledger → inv (ledger.created role new)
  common : ∀ (ledger : Ledger) (name : String) (new : NewTable), entries →
    new.name = .named name → Unnumbered name → new.alias? = none → inv ledger →
      inv (ledger.created .common new)
  source : ∀ (ledger : Ledger) (name : String), Unnumbered name →
    ledger.registry.findKnownAs? name = none → inv ledger →
      inv (ledger.created .source { name := .named name })
  edited : ∀ (ledger : Ledger) (registry : Registry), ledger.registry.SameNodes registry →
    inv ledger → inv { ledger with registry }
  linked : ∀ (ledger : Ledger) (source target : Nat), inv ledger →
    inv { ledger with registry := ledger.registry.link source target }
  aliased : ∀ (ledger : Ledger) (id : Nat) (other : String), Unnumbered other → inv ledger →
    inv { ledger with registry := ledger.registry.addAlias id other }
  mentioned : ∀ (ledger : Ledger) (mentions : List (Nat × Nat)), inv ledger →
    inv { ledger with mentions }

namespace Invariant

variable {entries : Prop} {inv : Ledger → Prop}

/-- The run keeps `inv` if it succeeds, and `p` holds of its answer. -/
abbrev Kept {α : Type} (inv : Ledger → Prop) (p : α → Prop) (x : LedgerRun α) : Prop :=
  Keeps inv (fun _ _ => True) p x

section

variable (h : Invariant entries inv)
include h

omit h in
theorem create {role : Role} {new : NewTable}
    (hnew : ∀ ledger, inv ledger → inv (ledger.created role new)) :
    Kept inv (fun _ => True) (Ledger.create role new) :=
  fun ledger hledger => ⟨trivial, hnew ledger hledger⟩

theorem generate {role : Role} {origin : Origin} (hrole : role.origin? = some origin)
    {alias? : Option String} (halias : ∀ other ∈ alias?, Unnumbered other) :
    Kept inv (fun _ => True) (Ledger.create role { name := .generated origin, alias? }) :=
  create fun ledger => h.generated ledger role origin _ hrole rfl halias

theorem link (source target : Nat) :
    Kept inv (fun _ => True) (Ledger.ofRun (Run.link source target)) :=
  fun ledger hledger => ⟨trivial, h.linked ledger source target hledger⟩

theorem mention (owner? : Option Nat) (target : Nat) :
    Kept inv (fun _ => True) (Ledger.mention owner? target) :=
  fun ledger hledger => ⟨trivial, h.mentioned ledger _ hledger⟩

theorem edit {α : Type} {x : Run α} {p : α → Prop} (hx : x.Edits p) :
    Kept inv p (Ledger.ofRun x) :=
  keeps_ofRun h.edited hx

theorem ownTable (walk : Walk) :
    Kept inv (fun own => own.2.table = some own.1) (Ledger.ownTable walk) := by
  unfold Ledger.ownTable
  split
  · next htable => exact Keeps.pure htable
  · exact (h.generate rfl (by simp)).bind fun table _ => Keeps.pure rfl

theorem select (walk : Walk) : Kept inv (fun _ => True) (Ledger.select walk) := by
  unfold Ledger.select
  split
  · exact Keeps.pure trivial
  · exact (h.generate rfl (by simp)).bind fun table _ => Keeps.pure trivial

theorem addColumns (walk : Walk) (attributes : List Attribute) :
    Kept inv (fun _ => True) (Ledger.addColumns walk attributes) :=
  (h.ownTable walk).bind fun _ howner =>
    (h.edit (Run.Edits.addColumns howner attributes)).mono fun _ _ => trivial

theorem restrict (walk : Walk) (attributes : List Attribute) :
    Kept inv (fun _ => True) (Ledger.restrict walk attributes) :=
  (h.ownTable walk).bind fun _ howner =>
    (h.edit (Run.Edits.restrict howner attributes)).mono fun _ _ => trivial

theorem joinSource (walk : Walk) (anchor source : Nat) :
    Kept inv (fun _ => True) (Ledger.joinSource walk anchor source) :=
  (h.generate rfl (by simp)).bind fun join _ => (h.link anchor join).bind fun _ _ =>
    (h.link join source).bind fun _ _ => (h.mention walk.table join).bind fun _ _ =>
      (h.mention walk.table source).bind fun _ _ => Keeps.pure trivial

theorem addSource (walk : Walk) (clause : Clause) (source : Nat) :
    Kept inv (fun _ => True) (Ledger.addSource walk clause source) := by
  unfold Ledger.addSource
  split
  · split
    · exact h.joinSource walk _ source
    · exact (h.ownTable walk).bind fun own _ => h.joinSource own.2 own.1 source
  · exact (h.ownTable walk).bind fun own _ => (h.link own.1 source).bind fun _ _ =>
      (h.mention (some own.1) source).bind fun _ _ => Keeps.pure trivial

theorem knownAs {name : String} (hname : Unnumbered name) :
    Kept inv (fun _ => True) (Ledger.knownAs name) := by
  intro ledger hledger
  cases hfound : ledger.registry.findKnownAs? name with
  | some table =>
    rw [run_knownAs_of_some hfound]
    exact ⟨trivial, hledger⟩
  | none =>
    rw [run_knownAs_of_none hfound]
    exact ⟨trivial, h.source ledger name hname hfound hledger⟩

theorem giveAlias (id : Nat) {alias? : Option String} (halias : ∀ other ∈ alias?, Unnumbered other) :
    Kept inv (fun _ => True) (Ledger.ofRun (Walk.giveAlias id alias?)) := by
  cases alias? with
  | none => exact fun ledger hledger => ⟨trivial, hledger⟩
  | some other =>
    exact fun ledger hledger => ⟨trivial, h.aliased ledger id other (halias other rfl) hledger⟩

theorem record (config : Config) (clause : Clause) (text : String) (walk : Walk)
    {finding : Finding} (hnames : finding.Holds Unnumbered) :
    Kept inv (fun _ => True) (Ledger.record config clause text walk finding) := by
  cases finding with
  | columns attributes => exact h.addColumns walk attributes
  | source name alias? =>
    have hnamed : Kept inv (fun _ => True) (Ledger.tableNamed name alias?) :=
      (h.knownAs hnames.1).bind fun id _ => (h.giveAlias id hnames.2).bind fun _ _ =>
        Keeps.pure trivial
    exact hnamed.bind fun id _ => h.addSource walk clause id
  | derived id => exact h.addSource walk clause id
  | conditions attributes =>
    exact (h.edit (Run.Edits.addConditions walk config attributes text)).bind fun _ _ =>
      Keeps.pure trivial
  | nothing => exact Keeps.pure trivial

omit h in
/-- Comments are no keywords, and no keyword takes the place of one. -/
theorem exists_cte_of_stripped {stripComments : Bool} {lexemes : List Lexeme}
    (hcte : ∃ lexeme ∈ Lexeme.stripped stripComments lexemes, lexeme.kind = .keyword .cte) :
    ∃ lexeme ∈ lexemes, lexeme.kind = .keyword .cte := by
  cases stripComments with
  | false => exact hcte
  | true =>
    obtain ⟨lexeme, hlexeme, hkind⟩ := hcte
    obtain ⟨other, hother, rfl⟩ := List.mem_map.1 hlexeme
    by_cases hcomment : other.kind = .comment
    · rcases Lexeme.withoutComment_of_kind hcomment with heq | heq <;> rw [heq] at hkind <;> cases hkind
    · rw [Lexeme.withoutComment_of_kind_ne hcomment] at hkind
      exact ⟨other, hother, hkind⟩

section

variable {descend : Node → Option Nat → Bool → LedgerRun Unit} {body : Node → Prop}
  (hdescend : ∀ node enclosing declared, body node →
    Kept inv (fun _ => True) (descend node enclosing declared))
include hdescend

theorem resolveSource {source : Source} (hsource : source.Holds Unnumbered body) :
    Kept inv (fun finding => finding.Holds Unnumbered) (Ledger.resolveSource descend source) := by
  cases source with
  | named name alias? => exact Keeps.pure hsource
  | derived alias? query =>
    exact (h.generate rfl hsource.1).bind fun id _ =>
      (hdescend query (some id) false hsource.2).bind fun _ _ => Keeps.pure trivial

theorem register (hentries : entries) (config : Config) (comment : String) {node : Node}
    (hnode : ∀ entry, CommonTable.ofNode node = .ok entry → entry.Holds Unnumbered body) :
    Kept inv (fun _ => True) (Ledger.register descend config comment node) := by
  have hentry : Kept inv (fun entry => entry.Holds Unnumbered body)
      (Ledger.ofRun (liftM (CommonTable.ofNode node))) :=
    h.edit fun registry => Triple.lift (fun entry heq _ hsame => ⟨hnode entry heq, hsame⟩)
      fun _ _ _ _ => trivial
  exact hentry.bind fun entry hholds =>
    (create fun ledger => h.common ledger entry.name _ hentries rfl hholds.name rfl).bind fun id _ =>
      (hdescend entry.body (some id) _ hholds.body).bind fun _ _ => Keeps.pure trivial

theorem resolve (config : Config) (comment : String) {reading : Reading}
    (hreading : reading.Holds Unnumbered body)
    (hentries : ∀ nodes, reading = .entries nodes → entries) :
    Kept inv (fun findings => ∀ finding ∈ findings, finding.Holds Unnumbered)
      (Ledger.resolve descend config comment reading) := by
  cases reading with
  | sources found =>
    exact Keeps.mapM found fun source hsource => h.resolveSource hdescend (hreading source hsource)
  | entries nodes =>
    have hregister : ∀ node ∈ nodes,
        Kept inv (fun _ => True) (Ledger.register descend config comment node) := fun node hnode =>
      h.register hdescend (hentries nodes rfl) config comment (hreading node hnode)
    exact (Keeps.mapM nodes hregister).bind fun _ _ => Keeps.pure (by simp [Finding.Holds])
  | columns attributes => exact Keeps.pure (by simp [Finding.Holds])
  | conditions attributes => exact Keeps.pure (by simp [Finding.Holds])
  | nothing => exact Keeps.pure (by simp [Finding.Holds])

theorem step (config : Config) (walk : Walk) {step : Step} (hstep : step.Holds Unnumbered body)
    (hentries : ∀ clause nodes comment text,
      step = .read clause (.entries nodes) comment text → entries) :
    Kept inv (fun _ => True) (Ledger.step descend config walk step) := by
  cases step with
  | select => exact h.select walk
  | read clause reading comment text =>
    refine (h.resolve hdescend config comment hstep fun nodes hnodes => ?_).bind
      fun findings hfindings => ?_
    · exact hentries clause nodes comment text (hnodes ▸ rfl)
    · exact Keeps.foldlM findings (fun finding hfinding walk _ =>
        h.record config clause text walk (hfindings finding hfinding)) trivial
  | restrict conditions => exact h.restrict walk conditions
  | fail error => exact Triple.throw fun _ _ => trivial
  | finish text =>
    exact (h.edit (Run.Edits.finish walk config text)).bind fun _ _ => Keeps.pure trivial

end

theorem interpretWithin {lexemes : List Lexeme} (hseated : Lexeme.Seated lexemes)
    (hentries : (∃ lexeme ∈ lexemes, lexeme.kind = .keyword .cte) → entries) (config : Config)
    (n : Nat) : ∀ node enclosing declared, (∀ child ∈ Node.children node, child.Tidy lexemes) →
      Kept inv (fun _ => True) (Ledger.interpretWithin config n node enclosing declared) := by
  induction n with
  | zero => exact fun _ _ _ _ => Keeps.pure trivial
  | succ n ih =>
    intro node enclosing declared htidy
    suffices hsteps : ∀ step ∈ Step.ofNode node, ∀ walk, True → Kept inv (fun _ => True)
        (Ledger.step (Ledger.interpretWithin config n) config walk step) from
      Keeps.bind (Keeps.foldlM _ hsteps trivial) fun _ _ => Keeps.pure trivial
    intro step hstep walk _
    have hholds : step.Holds Unnumbered fun body => ∀ child ∈ body.children, child.Tidy lexemes :=
      (hseated.naming.holds_ofNode_steps htidy step hstep).mono (fun _ => id)
        fun body hbody child hchild => hbody.1.child hchild
    refine h.step ih config walk hholds ?_
    rintro clause nodes comment text rfl
    rcases Step.exists_isCte_of_entries_mem hstep with hclause | ⟨child, hchild, hcte⟩
    · cases hclause
    · exact hentries ((htidy child hchild).exists_cte hcte)

/-- What every operation keeps holds of the ledger of a text, if it holds of the empty one. The text
has entries only if one of its words is `WITH`. -/
theorem of_analyze (hempty : inv {}) {config : Config} {sql : String}
    (hentries : ∀ lexemes, Lexeme.ofText sql = .ok lexemes →
      (∃ lexeme ∈ lexemes, lexeme.kind = .keyword .cte) → entries)
    {ledger : Ledger} (hanalyze : analyze config sql = .ok ledger) : inv ledger := by
  have hprocess : Kept inv (fun _ => True) (process config sql) := by
    unfold process
    cases hstatements : Node.statementsOfText sql config.stripComments with
    | error error => exact Triple.throw fun _ _ => trivial
    | ok statements =>
      obtain ⟨lexemes, hlexemes, hseated, htidy⟩ := Node.tidy_of_mem_statementsOfText hstatements
      refine Keeps.forM statements fun statement hstatement => ?_
      refine h.interpretWithin hseated (fun hcte => hentries lexemes hlexemes ?_) config _ _ _ _
        (htidy statement hstatement)
      exact exists_cte_of_stripped hcte
  have hledger := hprocess {} hempty
  rw [run_process_of_analyze hanalyze] at hledger
  exact hledger.2

end

end Invariant

end Ledger

end QueryLineage
