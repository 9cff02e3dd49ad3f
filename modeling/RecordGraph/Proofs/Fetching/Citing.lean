/-
# What fetching loads is cited

A model that was just forged has loaded nothing. From then on each fetch loads what the key of the
relationship contains, if the model holds that key: a parent whose identifier the key contains, or
members that it contains, none of which was removed. So a model that was only fetched has loaded
nothing that its keys do not already say.
-/
import RecordGraph.Proofs.Fetching.Shares
import RecordGraph.Proofs.Fetching.Succeeding

namespace RecordGraph

variable {σ : Type}

/-! ## Citing -/

namespace Graph

/-- The key of a model contains the identifier under which the other one is stored. -/
def Cites (g : Graph σ) (m : Model) (k : ForeignKey) (x : Model) : Prop :=
  ∃ id ∈ g.keyIds k m, (g.model x).record.id = some id

/-- The relationship has a single key, which cites the parent. -/
def CitesParent (g : Graph σ) (m : Model) (name : String) (p : Model) : Prop :=
  ∃ r, g.registry.resolve (g.model m).modelType.name name = .ok r ∧ r.side = .parent ∧
    r.cardinality = .single ∧ g.Cites m r.foreignKey p

/-- If the model holds the key of the relationship, then it is a key for several identifiers,
which cites the members of the collection, and none of them was removed. -/
def CitesMembers (g : Graph σ) (m : Model) (name : String) (c : Collection) : Prop :=
  ∃ r, g.registry.resolve (g.model m).modelType.name name = .ok r ∧ (r.side = .parent →
    r.cardinality = .multiple ∧
    (∀ x ∈ (g.collection c).members.values, g.Cites m r.foreignKey x) ∧
    ∀ x ∈ (g.collection c).snapshot.values, x ∈ (g.collection c).members.values)

/-- All that the model has loaded is loaded under these names, and cited by its keys where it
holds them. -/
structure Browsed (g : Graph σ) (m : Model) (names : List String) : Prop where
  parents : ∀ name p, (g.model m).parents.get? name = some p →
    name ∈ names ∧ g.CitesParent m name p
  children : ∀ name c, (g.model m).children.get? name = some c →
    name ∈ names ∧ g.CitesMembers m name c

variable {g t g' : Graph σ} {s : Session} {m x : Model} {k : ForeignKey} {name : String}
  {names : List String} {callers : Option Query}

theorem Cites.of_record (h : g.Cites m k x) (hm : (t.model m).record = (g.model m).record)
    (hx : (t.model x).record = (g.model x).record) : t.Cites m k x := by
  obtain ⟨id, hid, hstored⟩ := h
  refine ⟨id, ?_, hx ▸ hstored⟩
  rw [keyIds, hm]
  exact hid

theorem Fresh.browsed (h : g.Fresh s m) : g.Browsed m [] where
  parents name p hp := by
    rw [h.parents] at hp
    cases hp
  children name c hc := by
    rw [h.children] at hc
    cases hc

theorem Browsed.mono {more : List String} (h : g.Browsed m names) (hmore : names ⊆ more) :
    g.Browsed m more where
  parents name p hp := (h.parents name p hp).imp_left fun hname => hmore hname
  children name c hc := (h.children name c hc).imp_left fun hname => hmore hname

section Spared

variable {p : Model} {c : Collection} (hg : g.WellFormed) (hm : g.HasModel m)
  (hspares : g.Spares t [m])

include hm hspares

theorem Spares.resolve {r : Resolved}
    (h : g.registry.resolve (g.model m).modelType.name name = .ok r) :
    t.registry.resolve (t.model m).modelType.name name = .ok r := by
  rw [hspares.registry, hspares.model m hm]
  exact h

include hg

/-- A parent that stays loaded stays cited. -/
theorem CitesParent.of_spares (h : g.CitesParent m name p)
    (hp : (g.model m).parents.get? name = some p) : t.CitesParent m name p := by
  obtain ⟨r, hresolve, hside, hsingle, hcites⟩ := h
  exact ⟨r, hspares.resolve hm hresolve, hside, hsingle,
    hcites.of_record (hspares.record hm) (hspares.record (hg.parents m name p hm hp))⟩

/-- The members of a collection that stays loaded stay cited. -/
theorem CitesMembers.of_spares (h : g.CitesMembers m name c)
    (hc : (g.model m).children.get? name = some c) : t.CitesMembers m name c := by
  have hthere := hg.children m name c hm hc
  obtain ⟨r, hresolve, hcites⟩ := h
  refine ⟨r, hspares.resolve hm hresolve, fun hside => ?_⟩
  obtain ⟨hmultiple, hmembers, hsnapshot⟩ := hcites hside
  rw [hspares.collection c hthere]
  refine ⟨hmultiple, fun x hx => ?_, hsnapshot⟩
  obtain ⟨key, hkey⟩ := OrderedMap.mem_values_iff.mp hx
  exact (hmembers x hx).of_record (hspares.record hm)
    (hspares.record (hg.members c key x hthere hkey))

/-- If only what is loaded under one name has changed, then what is loaded stays cited as soon as
this is. -/
theorem Browsed.of_spares (h : g.Browsed m names)
    (helsewhere : ∀ other, other ≠ name →
      (t.model m).parents.get? other = (g.model m).parents.get? other ∧
        (t.model m).children.get? other = (g.model m).children.get? other)
    (hparent : ∀ p, (t.model m).parents.get? name = some p → t.CitesParent m name p)
    (hmembers : ∀ c, (t.model m).children.get? name = some c → t.CitesMembers m name c) :
    t.Browsed m (name :: names) := by
  constructor
  · intro other p hp
    by_cases hother : other = name
    · subst hother
      exact ⟨List.mem_cons_self, hparent p hp⟩
    · rw [(helsewhere other hother).1] at hp
      obtain ⟨hbefore, hcites⟩ := h.parents other p hp
      exact ⟨List.mem_cons_of_mem name hbefore, hcites.of_spares hg hm hspares hp⟩
  · intro other c hc
    by_cases hother : other = name
    · subst hother
      exact ⟨List.mem_cons_self, hmembers c hc⟩
    · rw [(helsewhere other hother).2] at hc
      obtain ⟨hbefore, hcites⟩ := h.children other c hc
      exact ⟨List.mem_cons_of_mem name hbefore, hcites.of_spares hg hm hspares hc⟩

end Spared

/-- No unsaved model is loaded. -/
theorem Browsed.unsavedChildren_eq_nil {r : Resolved} (h : g.Browsed m names)
    (hresolve : g.registry.resolve (g.model m).modelType.name name = .ok r)
    (hside : r.side = .parent) : g.unsavedChildren m name = [] := by
  unfold unsavedChildren
  cases hc : (g.model m).children.get? name with
  | none => rfl
  | some c =>
      obtain ⟨-, other, hother, hcites⟩ := h.children name c hc
      obtain rfl := Except.ok.inj (hresolve.symm.trans hother)
      simp only [List.filter_eq_nil_iff]
      intro x hx
      obtain ⟨id, -, hid⟩ := (hcites hside).2.1 x hx
      simp [Record.isNew, hid]

/-- No unsaved parent is kept. -/
theorem Browsed.keeps_eq_false (h : g.Browsed m names) (plan : Fetching.Plan) :
    plan.keeps g m = false := by
  unfold Fetching.Plan.keeps
  cases hp : (g.model m).parents.get? plan.resolved.name with
  | none => simp
  | some p =>
      obtain ⟨-, r, -, -, -, id, -, hid⟩ := h.parents _ p hp
      simp [Record.isNew, hid]

end Graph

/-! ## Fetches -/

namespace Fetching

open RecordGraph.Graph

variable {plan : Plan} {g unloaded ran g' : Graph σ} {m : Model} {answers : List Record}
  {found : OrderedMap String Model} {pairs : List (Model × Model)} {names : List String}

variable (hm : g.HasModel m) (h : g.Browsed m names)
  (hload : Loading plan [m] g unloaded ran g' answers found pairs)
  (hresolve : g.registry.resolve (g.model m).modelType.name plan.resolved.name =
    .ok plan.resolved)
  (hpairs : plan.resolved.side = .parent →
    ∀ x, (m, x) ∈ pairs → g'.Cites m plan.resolved.foreignKey x)

include hm h hload hresolve hpairs

/-- A parent that was fetched is cited, if the pairs are. -/
theorem Loading.citesParent {p : Model}
    (hp : (g'.model m).parents.get? plan.resolved.name = some p) :
    g'.CitesParent m plan.resolved.name p := by
  have hmem : m ∈ [m] := List.mem_singleton_self m
  cases hsingle : plan.resolved.holdsSingle with
  | true =>
      obtain ⟨hside, hcardinality⟩ := Resolved.single_of_holdsSingle hsingle
      rw [hload.parents_near hmem hsingle] at hp
      exact ⟨plan.resolved, hload.spares.resolve hm hresolve, hside, hcardinality,
        hpairs hside p (mem_map_snd_filter.mp (List.mem_of_getLast? hp))⟩
  | false =>
      -- such a relationship has no parent from before either
      rw [hload.parents_of_many hmem hsingle] at hp
      obtain ⟨-, r, hr, hside, hcardinality, -⟩ := h.parents _ p hp
      obtain rfl := Except.ok.inj (hresolve.symm.trans hr)
      simp [Resolved.holdsSingle, hside, hcardinality] at hsingle

/-- Members that were fetched are cited on the side with the key, if the pairs are. -/
theorem Loading.citesMembers {c : Collection}
    (hc : (g'.model m).children.get? plan.resolved.name = some c) :
    g'.CitesMembers m plan.resolved.name c := by
  have hmem : m ∈ [m] := List.mem_singleton_self m
  refine ⟨plan.resolved, hload.spares.resolve hm hresolve, fun hside => ?_⟩
  cases hsingle : plan.resolved.holdsSingle with
  | true =>
      rw [hload.children_of_single hmem hsingle] at hc
      obtain ⟨-, r, hr, hcites⟩ := h.children _ c hc
      obtain rfl := Except.ok.inj (hresolve.symm.trans hr)
      simp [Resolved.holdsSingle, (hcites hside).1] at hsingle
  | false =>
      obtain ⟨loaded, hloaded, -, hmembers, hsnapshot⟩ := hload.collection_near hmem hsingle
      obtain rfl := Option.some.inj (hloaded.symm.trans hc)
      rw [h.unsavedChildren_eq_nil hresolve hside, OrderedMap.insertAll_nil,
        ← hsnapshot] at hmembers
      rw [hmembers]
      refine ⟨Resolved.multiple_of_holdsSingle hside hsingle, fun x hx => ?_, fun x hx => hx⟩
      rw [hsnapshot] at hx
      rcases OrderedMap.mem_values_of_insertAll hx with hnone | hx
      · simp [OrderedMap.values] at hnone
      · exact hpairs hside x (mem_map_snd_filter.mp hx)

/-- What a fetch loads on a model is cited, if the pairs on the side with the key are. -/
theorem Loading.browsed (hg : g.WellFormed) : g'.Browsed m (plan.resolved.name :: names) := by
  apply h.of_spares hg hm hload.spares
  · intro other hother
    exact hload.loaded_elsewhere (List.mem_singleton_self m) hother
  · intro p hp
    exact Loading.citesParent hm h hload hresolve hpairs hp
  · intro c hc
    exact Loading.citesMembers hm h hload hresolve hpairs hc

end Fetching

namespace Graph

variable {g g' : Graph σ} {s : Session} {m : Model} {name : String} {names : List String}
  {callers : Option Query}

/-- Fetching a relationship of a model loads what its key cites. -/
theorem Browsed.fetch [RecordStore σ] (hg : g.WellFormed) (hm : g.HasModel m)
    (h : g.Browsed m names) (hrun : Returns (fetchRelationship s [m] name callers) g () g') :
    g.Spares g' [m] ∧ g'.Browsed m (name :: names) := by
  have htypes : ∀ x ∈ [m], (g.model x).modelType.name = (g.model m).modelType.name := by simp
  obtain ⟨u, hu, hgroup⟩ := returns_fetchRelationship_of_one_type (by simp) htypes hrun
  obtain rfl := Except.ok.inj ((hg.typed m hm).symm.trans hu)
  obtain ⟨plan, hplan, hparent, hchild⟩ := Fetching.returns_fetchGroup hgroup
  obtain rfl := hplan.name_eq hg.registry
  have hfetchable : g.Fetchable plan.resolved.name [m] :=
    hg.fetchable (List.nodup_singleton m) (by simpa using hm) _
  -- nothing has to be known of the answers
  have hanswers : ∀ (ids : List String) (t : Graph σ) (rs : List Record) (t' : Graph σ), True →
      Returns ((Fetching.batchQuery plan ids).query.fetch plan.session) t rs t' → True ∧ True :=
    fun _ _ _ _ _ _ => ⟨trivial, trivial⟩
  cases hside : plan.resolved.side with
  | parent =>
      obtain ⟨unloaded, ran, answers, found, hload, -⟩ := Fetching.returns_parentSide
        (fun _ => True) hanswers hside hfetchable
        (by simpa using hplan.ownKey hg.registry hside hu rfl) trivial (hparent hside)
      have hall : [m].filter (fun m => !plan.keeps g m) = [m] := by
        simp [h.keeps_eq_false plan]
      rw [hall] at hload
      refine ⟨hload.spares, Fetching.Loading.browsed hm h hload hplan.resolved
        (fun _ x hx => ?_) hg⟩
      obtain ⟨-, id, hid, hfound⟩ := Fetching.mem_parentPairs.mp hx
      refine ⟨id, ?_, ?_⟩
      · rw [keyIds, hload.spares.record hm]
        exact hid
      · rw [hload.handed.relinks.record]
        exact (hload.finds.record id x hfound).2
  | child =>
      obtain ⟨unloaded, ran, answers, found, owners, -, hload, -⟩ := Fetching.returns_childSide
        (fun _ => True) hanswers hside hfetchable (by simp [DistinctIds]) trivial (hchild hside)
      refine ⟨hload.spares, Fetching.Loading.browsed hm h hload hplan.resolved
        (fun hparent => ?_) hg⟩
      rw [hside] at hparent
      cases hparent

/-- A collection that was put in place is all that changed. -/
theorem Spares.openSlot (g : Graph σ) (m : Model) (name : String) (membership : Membership) :
    g.Spares (g.openSlot m name membership) [m] where
  registry := rfl
  models_size := (Relinks.openSlot g m name membership).models_size
  collections_size := (Relinks.openSlot g m name membership).collections_size
  model n _ := (Relinks.openSlot g m name membership).model n
  others _ _ hn := model_openSlot_of_ne (List.ne_of_not_mem_cons hn)
  collection _ hc := collection_openSlot hc

/-- An empty collection cites nothing. -/
theorem Browsed.openSlot {r : Resolved} (hg : g.WellFormed) (hm : g.HasModel m)
    (h : g.Browsed m names)
    (hresolve : g.registry.resolve (g.model m).modelType.name name = .ok r)
    (hmany : r.holdsSingle = false) (membership : Membership) :
    (g.openSlot m name membership).Browsed m (name :: names) := by
  have hspares := Spares.openSlot g m name membership
  have hparents : ((g.openSlot m name membership).model m).parents = (g.model m).parents := by
    simp [Graph.openSlot]
  apply h.of_spares hg hm hspares
  · intro other hother
    rw [hparents, children_openSlot, if_neg fun hsame => hother hsame.2.symm]
    exact ⟨rfl, rfl⟩
  · intro p hp
    rw [hparents] at hp
    exact (h.parents name p hp).2.of_spares hg hm hspares hp
  · intro c hc
    obtain rfl : g.nextCollection = c := by simpa [children_openSlot] using hc
    refine ⟨r, hspares.resolve hm hresolve, fun hside => ?_⟩
    have hempty : (g.openSlot m name membership).collection g.nextCollection =
        ⟨(g.model m).session, membership, OrderedMap.empty, OrderedMap.empty⟩ := by
      simp [Graph.openSlot]
    rw [hempty]
    exact ⟨Resolved.multiple_of_holdsSingle hside hmany, by simp [OrderedMap.values],
      by simp [OrderedMap.values]⟩

/-- Reading a relationship puts an empty collection in place at most. -/
theorem Browsed.read {related : Related} (hg : g.WellFormed) (hm : g.HasModel m)
    (h : g.Browsed m names) (hrun : Returns (m.read name) g related g') :
    g'.Browsed m (name :: names) := by
  have hsame : g' = g → g'.Browsed m (name :: names) := by
    rintro rfl
    exact h.mono (List.subset_cons_self name names)
  unfold Model.read at hrun
  simp only [returns_bind, Model.returns_resolve, and_assoc, exists_eq_left] at hrun
  obtain ⟨r, hresolve, hrun⟩ := hrun
  cases hsingle : r.holdsSingle with
  | true =>
      simp only [hsingle, if_true, returns_bind, Model.returns_cachedParent, and_assoc,
        exists_eq_left] at hrun
      apply hsame
      split at hrun
      · exact (returns_pure.mp hrun).1
      · exact (returns_pure.mp hrun).1
  | false =>
      simp only [hsingle, Bool.false_eq_true, if_false, returns_bind, returns_pure] at hrun
      obtain ⟨c, _, hslot, rfl, -⟩ := hrun
      rcases Model.returns_childrenOr hslot with ⟨-, hthere⟩ | ⟨-, rfl, membership, rfl⟩
      · exact hsame hthere
      · exact h.openSlot hg hm hresolve hsingle membership

end Graph

end RecordGraph
