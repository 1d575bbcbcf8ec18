import QueryLineage.Proofs.Analysis.Ledger
import QueryLineage.Proofs.Graph.Links
import QueryLineage.Proofs.Graph.Numbered

/-!
# How mentioned tables are linked

What is kept while a ledger is filled: the table of a query reaches whatever a `FROM` or `JOIN` of
it mentions, every join has one table before it, one that it joins and perhaps a later join behind
it, and a table of the database is linked to joins only. While a list of sources is being worked
off, some of its tables are still pending, that is to say registered but not yet mentioned.
-/

namespace QueryLineage

namespace Ledger

def roleOf (ledger : Ledger) (id : Nat) : Option Role :=
  ledger.roles[id]?

def IsQuery (ledger : Ledger) (id : Nat) : Prop :=
  ∃ role, ledger.roleOf id = some role ∧ role.isQuery = true

def created (ledger : Ledger) (role : Role) (new : NewTable) : Ledger :=
  { ledger with registry := ledger.registry.create new, roles := ledger.roles ++ [role] }

/-- The ledger behind a `FROM` of the table `owner` that mentions `source`. -/
def sourced (ledger : Ledger) (owner source : Nat) : Ledger :=
  { ledger with
    registry := ledger.registry.link owner source
    mentions := ledger.mentions ++ [(owner, source)] }

/-- The ledger behind a `JOIN` of the table `owner` that puts a join between `anchor` and
`source`. -/
def joined (ledger : Ledger) (owner anchor source : Nat) : Ledger where
  registry := ledger.registry.join anchor source
  roles := ledger.roles ++ [.join]
  mentions := ledger.mentions ++ [(owner, ledger.registry.size)] ++ [(owner, source)]

structure Wired (pending : List Nat) (ledger : Ledger) : Prop where
  size : ledger.roles.length = ledger.registry.size
  below : ∀ i target, ledger.registry.Links i target → target < ledger.registry.size
  waiting : ∀ i ∈ pending, ∃ role, ledger.roleOf i = some role ∧ role ≠ .join
  mention : ∀ owner target, (owner, target) ∈ ledger.mentions →
    ledger.registry.Reaches owner target ∧ ledger.IsQuery owner
  mentioned : ∀ i role, ledger.roleOf i = some role → role.isMentioned = true →
    i ∈ pending ∨ ∃ owner, (owner, i) ∈ ledger.mentions
  unique : ∀ i, ledger.roleOf i = some .join → ∃! source, ledger.registry.Links source i
  shape : ∀ i, ledger.roleOf i = some .join → ∃ source, ledger.roleOf source ≠ some .join ∧
    (ledger.registry.linksOf i = [source] ∨ ∃ next, ledger.registry.linksOf i = [source, next] ∧
      i < next ∧ ledger.roleOf next = some .join)
  source : ∀ i target, ledger.roleOf i = some .source → ledger.registry.Links i target →
    ledger.roleOf target = some .join

section

variable {ledger : Ledger} {pending : List Nat}

theorem lt_of_roleOf {id : Nat} {role : Role} (h : ledger.roleOf id = some role) :
    id < ledger.roles.length :=
  (List.getElem?_eq_some_iff.1 h).1

/-- The tables that there were are still for the same, and the new one is for what it is for. -/
theorem roleOf_concat {later : Ledger} {role found : Role} {id : Nat}
    (h : later.roles = ledger.roles ++ [role]) : later.roleOf id = some found ↔
      ledger.roleOf id = some found ∨ id = ledger.roles.length ∧ found = role := by
  rw [roleOf, h, List.getElem?_append]
  split
  · next hlt => simp [roleOf, Nat.ne_of_lt hlt]
  · next hge =>
    have hnone : ledger.roleOf id = none := List.getElem?_eq_none (Nat.le_of_not_lt hge)
    rw [hnone]
    by_cases heq : id = ledger.roles.length
    · simp [heq, eq_comm]
    · have hpos : id - ledger.roles.length ≠ 0 := by omega
      simp [hpos, heq]

theorem roleOf_created (hsize : ledger.roles.length = ledger.registry.size) (role : Role)
    (new : NewTable) (id : Nat) : (ledger.created role new).roleOf id =
      if id = ledger.registry.size then some role else ledger.roleOf id := by
  change (ledger.roles ++ [role])[id]? = _
  rw [List.getElem?_append, hsize]
  split
  · next hlt => rw [if_neg (Nat.ne_of_lt hlt), roleOf]
  · next hge =>
    split
    · next heq => simp [heq]
    · next hne => rw [roleOf, List.getElem?_eq_none (by simp; omega),
        List.getElem?_eq_none (by omega)]

theorem IsQuery.concat {id : Nat} (h : ledger.IsQuery id) {later : Ledger} {role : Role}
    (hroles : later.roles = ledger.roles ++ [role]) : later.IsQuery id := by
  obtain ⟨found, hfound, hquery⟩ := h
  exact ⟨found, (roleOf_concat hroles).2 (.inl hfound), hquery⟩

namespace Wired

/-- What is not mentioned in a clause need not wait for that. -/
theorem settle {id : Nat} (h : Wired (id :: pending) ledger)
    (hid : ∀ role, ledger.roleOf id = some role → role.isMentioned = false) :
    Wired pending ledger where
  size := h.size
  below := h.below
  waiting i hi := h.waiting i (List.mem_cons_of_mem _ hi)
  mention := h.mention
  mentioned i role hrole hmentioned := by
    rcases h.mentioned i role hrole hmentioned with hi | hi
    · rcases List.mem_cons.1 hi with rfl | hi
      · rw [hid role hrole] at hmentioned
        cases hmentioned
      · exact .inl hi
    · exact .inr hi
  unique := h.unique
  shape := h.shape
  source := h.source

/-- Nothing but links matters of the tables. -/
theorem congr (h : Wired pending ledger) {registry : Registry}
    (hsize : registry.size = ledger.registry.size)
    (hlinks : ∀ id, registry.linksOf id = ledger.registry.linksOf id) :
    Wired pending { ledger with registry } where
  size := h.size.trans hsize.symm
  below i target hlink := by
    rw [Registry.Links, hlinks] at hlink
    rw [hsize]
    exact h.below i target hlink
  waiting := h.waiting
  mention owner target hmention := by
    obtain ⟨hreaches, hquery⟩ := h.mention owner target hmention
    refine ⟨hreaches.mono fun i j hlink => ?_, hquery⟩
    rw [Registry.Links, hlinks]
    exact hlink
  mentioned := h.mentioned
  unique i hi := by
    simp only [Registry.Links, hlinks]
    exact h.unique i hi
  shape i hi := by
    simp only [hlinks]
    exact h.shape i hi
  source i target hi hlink := by
    rw [Registry.Links, hlinks] at hlink
    exact h.source i target hi hlink

theorem created (h : Wired pending ledger) {role : Role} (hrole : role ≠ .join) (new : NewTable) :
    Wired (ledger.registry.size :: pending) (ledger.created role new) := by
  have hroles : (ledger.created role new).roles = ledger.roles ++ [role] := rfl
  have hlinks (i j : Nat) :
      (ledger.created role new).registry.Links i j ↔ ledger.registry.Links i j := by
    change j ∈ (ledger.registry.create new).linksOf i ↔ _
    rw [Registry.linksOf_create, Registry.Links]
  have hjoin {i : Nat} (hi : (ledger.created role new).roleOf i = some .join) :
      ledger.roleOf i = some .join := by
    rcases (roleOf_concat hroles).1 hi with hi | ⟨-, heq⟩
    · exact hi
    · exact absurd heq.symm hrole
  have hnew : (ledger.created role new).roleOf ledger.registry.size = some role :=
    (roleOf_concat hroles).2 (.inr ⟨h.size.symm, rfl⟩)
  refine ⟨?_, ?_, ?_, ?_, ?_, ?_, ?_, ?_⟩
  · change (ledger.roles ++ [role]).length = (ledger.registry.create new).size
    rw [List.length_append, Registry.size_create, h.size]
    rfl
  · intro i target hlink
    change target < (ledger.registry.create new).size
    rw [Registry.size_create]
    exact Nat.lt_succ_of_lt (h.below i target ((hlinks i target).1 hlink))
  · intro i hi
    rcases List.mem_cons.1 hi with rfl | hi
    · exact ⟨role, hnew, hrole⟩
    · obtain ⟨found, hfound, hne⟩ := h.waiting i hi
      exact ⟨found, (roleOf_concat hroles).2 (.inl hfound), hne⟩
  · intro owner target hmention
    obtain ⟨hreaches, hquery⟩ := h.mention owner target hmention
    exact ⟨hreaches.mono fun i j => (hlinks i j).2, hquery.concat hroles⟩
  · intro i found hfound hmentioned
    rcases (roleOf_concat hroles).1 hfound with hfound | ⟨rfl, -⟩
    · exact (h.mentioned i found hfound hmentioned).imp_left (List.mem_cons_of_mem _)
    · rw [h.size]
      exact .inl List.mem_cons_self
  · intro i hi
    simp only [hlinks]
    exact h.unique i (hjoin hi)
  · intro i hi
    obtain ⟨source, hsource, hshape⟩ := h.shape i (hjoin hi)
    refine ⟨source, fun heq => hsource (hjoin heq), ?_⟩
    change (ledger.registry.create new).linksOf i = _ ∨ ∃ next,
      (ledger.registry.create new).linksOf i = _ ∧ _
    rw [Registry.linksOf_create]
    refine hshape.imp_right ?_
    rintro ⟨next, hnext, hlt, hrole⟩
    exact ⟨next, hnext, hlt, (roleOf_concat hroles).2 (.inl hrole)⟩
  · intro i target hi hlink
    rw [hlinks] at hlink
    rcases (roleOf_concat hroles).1 hi with hi | ⟨rfl, -⟩
    · exact (roleOf_concat hroles).2 (.inl (h.source i target hi hlink))
    · rw [Registry.Links, Registry.linksOf_eq_nil (Nat.le_of_eq h.size.symm)] at hlink
      cases hlink

section

variable {owner source : Nat} (h : Wired (source :: pending) ledger) (howner : ledger.IsQuery owner)
include h

theorem source_lt : source < ledger.registry.size ∧ ledger.roleOf source ≠ some .join := by
  obtain ⟨role, hrole, hne⟩ := h.waiting source List.mem_cons_self
  refine ⟨h.size ▸ lt_of_roleOf hrole, ?_⟩
  rw [hrole]
  exact fun heq => hne (Option.some.inj heq)

include howner

theorem owner_lt : owner < ledger.registry.size := by
  obtain ⟨role, hrole, -⟩ := howner
  exact h.size ▸ lt_of_roleOf hrole

omit h in
theorem ne_of_isQuery {id : Nat} {role : Role} (hid : ledger.roleOf id = some role)
    (hrole : role.isQuery = false) : id ≠ owner := by
  rintro rfl
  obtain ⟨found, hfound, hquery⟩ := howner
  rw [hid] at hfound
  rw [← Option.some.inj hfound, hrole] at hquery
  cases hquery

/-- The table of a query is linked to a source behind `FROM`. -/
theorem sourced : Wired pending (ledger.sourced owner source) := by
  obtain ⟨hsource, hnojoin⟩ := h.source_lt
  have hlinks (i j : Nat) : (ledger.sourced owner source).registry.Links i j ↔
      ledger.registry.Links i j ∨ i = owner ∧ j = source :=
    Registry.links_link (h.owner_lt howner) hsource i j
  have hother {i : Nat} (hi : i ≠ owner) :
      (ledger.sourced owner source).registry.linksOf i = ledger.registry.linksOf i :=
    Registry.linksOf_link_of_ne hi source
  have hmentions : (ledger.sourced owner source).mentions =
      ledger.mentions ++ [(owner, source)] := rfl
  refine ⟨?_, ?_, ?_, ?_, ?_, ?_, ?_, ?_⟩
  · exact h.size.trans (Registry.size_link _ _ _).symm
  · intro i target hlink
    change target < (ledger.registry.link owner source).size
    rw [Registry.size_link]
    rcases (hlinks i target).1 hlink with hlink | ⟨-, rfl⟩
    · exact h.below i target hlink
    · exact hsource
  · exact fun i hi => h.waiting i (List.mem_cons_of_mem _ hi)
  · intro other target hmention
    rw [hmentions, List.mem_append, List.mem_singleton] at hmention
    rcases hmention with hmention | heq
    · obtain ⟨hreaches, hquery⟩ := h.mention other target hmention
      exact ⟨hreaches.mono fun i j hlink => (hlinks i j).2 (.inl hlink), hquery⟩
    · cases heq
      exact ⟨.single ((hlinks _ _).2 (.inr ⟨rfl, rfl⟩)), howner⟩
  · intro i role hrole hmentioned
    rw [hmentions]
    rcases h.mentioned i role hrole hmentioned with hi | ⟨other, hi⟩
    · rcases List.mem_cons.1 hi with rfl | hi
      · exact .inr ⟨owner, List.mem_append_right _ List.mem_cons_self⟩
      · exact .inl hi
    · exact .inr ⟨other, List.mem_append_left _ hi⟩
  · intro i hi
    have hne : i ≠ source := by
      rintro rfl
      exact hnojoin hi
    simpa [hlinks, hne] using h.unique i hi
  · intro i hi
    rw [hother (ne_of_isQuery howner hi rfl)]
    exact h.shape i hi
  · intro i target hi hlink
    rw [Registry.Links, hother (ne_of_isQuery howner hi rfl)] at hlink
    exact h.source i target hi hlink

end

section

variable {owner anchor source : Nat} (h : Wired (source :: pending) ledger)
  (hanchor : anchor < ledger.registry.size)
include h

theorem not_links_size (id : Nat) : ¬ ledger.registry.Links id ledger.registry.size :=
  fun hlink => Nat.lt_irrefl _ (h.below id _ hlink)

theorem ne_size {id : Nat} {role : Role} (hid : ledger.roleOf id = some role) :
    id ≠ ledger.registry.size :=
  Nat.ne_of_lt (h.size ▸ lt_of_roleOf hid)

theorem roleOf_joined {id : Nat} {role : Role} :
    (ledger.joined owner anchor source).roleOf id = some role ↔
      ledger.roleOf id = some role ∨ id = ledger.registry.size ∧ role = .join := by
  rw [← h.size]
  exact roleOf_concat rfl

theorem roleOf_joined_ne {id : Nat} (hid : ledger.roleOf id ≠ some .join)
    (hlt : id < ledger.registry.size) :
    (ledger.joined owner anchor source).roleOf id ≠ some .join := by
  intro heq
  rcases h.roleOf_joined.1 heq with heq | ⟨heq, -⟩
  · exact hid heq
  · exact Nat.ne_of_lt hlt heq

include hanchor

/-- What is before a new join is the only table linked to it, and the other joins keep theirs. -/
theorem existsUnique_links_joined {id : Nat}
    (hid : (ledger.joined owner anchor source).roleOf id = some .join) :
    ∃! before, (ledger.registry.join anchor source).Links before id := by
  obtain ⟨hsource, hnojoin⟩ := h.source_lt
  have hlinks := Registry.links_join hanchor hsource
  rcases h.roleOf_joined.1 hid with hwas | ⟨rfl, -⟩
  · have hne : id ≠ source := by
      rintro rfl
      exact hnojoin hwas
    simpa [hlinks, hne, h.ne_size hwas] using h.unique id hwas
  · refine ⟨anchor, (hlinks _ _).2 (.inr (.inl ⟨rfl, rfl⟩)), fun other hlink => ?_⟩
    rcases (hlinks _ _).1 hlink with hlink | ⟨rfl, -⟩ | ⟨-, heq⟩
    · exact absurd hlink (h.not_links_size other)
    · rfl
    · exact absurd heq (Nat.ne_of_gt hsource)

/-- A new join is linked to the source that it joins. The join before it, if that is one, is
linked to the new one behind its own source, and the other joins keep their links. -/
theorem exists_linksOf_joined
    (hopen : ledger.roleOf anchor = some .join →
      ∃ first, ledger.registry.linksOf anchor = [first])
    {id : Nat} (hid : (ledger.joined owner anchor source).roleOf id = some .join) :
    ∃ first, (ledger.joined owner anchor source).roleOf first ≠ some .join ∧
      ((ledger.registry.join anchor source).linksOf id = [first] ∨
        ∃ next, (ledger.registry.join anchor source).linksOf id = [first, next] ∧ id < next ∧
          (ledger.joined owner anchor source).roleOf next = some .join) := by
  obtain ⟨hsource, hnojoin⟩ := h.source_lt
  rcases h.roleOf_joined.1 hid with hwas | ⟨rfl, -⟩
  · obtain ⟨first, hfirst, hshape⟩ := h.shape id hwas
    have hlt : first < ledger.registry.size := by
      refine h.below id first ?_
      rcases hshape with heq | ⟨next, heq, -⟩ <;> simp [Registry.Links, heq]
    refine ⟨first, h.roleOf_joined_ne hfirst hlt, ?_⟩
    by_cases heq : id = anchor
    · -- the join before the new one is open, so that its own source is all that it is linked to
      subst heq
      obtain ⟨only, honly⟩ := hopen hwas
      have hself : ledger.registry.linksOf id = [first] := by
        rcases hshape with hshape | ⟨next, hshape, -⟩
        · exact hshape
        · rw [honly] at hshape
          cases (List.cons.inj hshape).2
      refine .inr ⟨ledger.registry.size, ?_, hanchor, h.roleOf_joined.2 (.inr ⟨rfl, rfl⟩)⟩
      rw [Registry.linksOf_join_anchor hanchor (h.not_links_size id), hself]
      rfl
    · rw [Registry.linksOf_join_of_ne heq (h.ne_size hwas)]
      refine hshape.imp_right ?_
      rintro ⟨next, hnext, hlt, hrole⟩
      exact ⟨next, hnext, hlt, h.roleOf_joined.2 (.inl hrole)⟩
  · rw [Registry.linksOf_join_self hanchor hsource]
    exact ⟨source, h.roleOf_joined_ne hnojoin hsource, .inl rfl⟩

/-- From wherever what is before a new join is reached, the join is reached. -/
theorem reaches_joined (hreaches : Relation.ReflTransGen ledger.registry.Links owner anchor) :
    (ledger.registry.join anchor source).Reaches owner ledger.registry.size := by
  have hlinks := Registry.links_join hanchor h.source_lt.1
  refine .tail' (Relation.ReflTransGen.mono (fun i j hlink => ?_) _ _ hreaches) ?_
  · exact (hlinks i j).2 (.inl hlink)
  · exact (hlinks _ _).2 (.inr (.inl ⟨rfl, rfl⟩))

/-- A join is linked to from what is before it, and linked to the source that it joins. What is
before it must not be a join that has another one behind it. -/
theorem joined (howner : ledger.IsQuery owner)
    (hreaches : Relation.ReflTransGen ledger.registry.Links owner anchor)
    (hopen : ledger.roleOf anchor = some .join →
      ∃ first, ledger.registry.linksOf anchor = [first]) :
    Wired pending (ledger.joined owner anchor source) ∧
      (ledger.joined owner anchor source).registry.linksOf ledger.registry.size = [source] := by
  obtain ⟨hsource, hnojoin⟩ := h.source_lt
  have hroles : (ledger.joined owner anchor source).roles = ledger.roles ++ [.join] := rfl
  have hregistry : (ledger.joined owner anchor source).registry =
      ledger.registry.join anchor source := rfl
  have hmentions : (ledger.joined owner anchor source).mentions =
      ledger.mentions ++ [(owner, ledger.registry.size)] ++ [(owner, source)] := rfl
  have hlinks := Registry.links_join hanchor hsource
  have hpath := h.reaches_joined hanchor hreaches
  refine ⟨⟨?_, ?_, ?_, ?_, ?_, ?_, ?_, ?_⟩, Registry.linksOf_join_self hanchor hsource⟩
  · rw [hroles, hregistry, List.length_append, Registry.size_join, h.size]
    rfl
  · intro i target hlink
    rw [hregistry] at hlink ⊢
    rw [Registry.size_join]
    rcases (hlinks i target).1 hlink with hlink | ⟨-, rfl⟩ | ⟨-, rfl⟩
    · exact Nat.lt_succ_of_lt (h.below i target hlink)
    · exact Nat.lt_succ_self _
    · exact Nat.lt_succ_of_lt hsource
  · intro i hi
    obtain ⟨role, hrole, hne⟩ := h.waiting i (List.mem_cons_of_mem _ hi)
    exact ⟨role, h.roleOf_joined.2 (.inl hrole), hne⟩
  · intro other target hmention
    rw [hmentions, List.append_assoc, List.mem_append] at hmention
    rcases hmention with hmention | hmention
    · obtain ⟨hreaches, hquery⟩ := h.mention other target hmention
      exact ⟨hreaches.mono fun i j hlink => (hlinks i j).2 (.inl hlink), hquery.concat hroles⟩
    · simp only [List.singleton_append, List.mem_cons, List.not_mem_nil, or_false, Prod.mk.injEq]
        at hmention
      rcases hmention with ⟨rfl, rfl⟩ | ⟨rfl, rfl⟩
      · exact ⟨hpath, howner.concat hroles⟩
      · exact ⟨hpath.tail ((hlinks _ _).2 (.inr (.inr ⟨rfl, rfl⟩))), howner.concat hroles⟩
  · intro i role hrole hmentioned
    rw [hmentions]
    rcases h.roleOf_joined.1 hrole with hrole | ⟨rfl, -⟩
    · rcases h.mentioned i role hrole hmentioned with hi | ⟨other, hi⟩
      · rcases List.mem_cons.1 hi with rfl | hi
        · exact .inr ⟨owner, by simp⟩
        · exact .inl hi
      · exact .inr ⟨other, by simp [hi]⟩
    · exact .inr ⟨owner, by simp⟩
  · exact fun i hi => h.existsUnique_links_joined hanchor hi
  · exact fun i hi => h.exists_linksOf_joined hanchor hopen hi
  · intro i target hi hlink
    rw [hregistry] at hlink
    rcases h.roleOf_joined.1 hi with hi | ⟨-, heq⟩
    · rcases (hlinks i target).1 hlink with hlink | ⟨-, rfl⟩ | ⟨heq, -⟩
      · exact h.roleOf_joined.2 (.inl (h.source i target hi hlink))
      · exact h.roleOf_joined.2 (.inr ⟨rfl, rfl⟩)
      · exact absurd heq (h.ne_size hi)
    · cases heq

end

end Wired

end

end Ledger

end QueryLineage
