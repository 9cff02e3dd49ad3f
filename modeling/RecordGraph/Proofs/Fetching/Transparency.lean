/-
# Batches are not seen

How many identifiers one query asks for at most is a setting of the session. Whatever it is, a
fetch with a query of the caller loads the same records for every member; only their order may
tell. It does not tell for members that hold the foreign key. For other members it does not
where the sort orders rank the far records and the records that refer to a member have the
same key, as single keys do: a record that refers to several members comes with the first batch
that has one of them. A range of the caller is cut out of every batch, so it is excluded here.
-/
import RecordGraph.Proofs.Fetching.Shares

namespace RecordGraph

/-! ## The query of a caller -/

namespace Query

/-- What is copied from a plain query onto a plain one gives a plain one. -/
theorem Plain.copyFrom {q callers : Query} (hq : q.Plain) (hcallers : callers.Plain) :
    (q.copyFrom callers).Plain where
  range := by
    rw [Query.copyFrom, hcallers.range]
    exact hq.range
  accessPolicy := by
    rw [Query.copyFrom, hcallers.accessPolicy]
    exact hq.accessPolicy
  untagged := by
    rw [Query.copyFrom, List.mem_append, not_or]
    exact ⟨hq.untagged, hcallers.untagged⟩

/-- The sort orders that a caller asks for. -/
def sortsOf (callers : Option Query) : List (String × SortDirection) :=
  callers.elim [] fun q => q.sorts.entries

end Query

namespace Fetching

variable {plan : Plan} {registry : Registry} {s : Session} {t : ModelType} {name : String}
  {callers : Option Query}

/-- Whatever identifiers a plan asks for, and in whatever state with the same records, the
answers are what it selects. -/
theorem Plan.Asks.returns_fetch {path : String} {store : MemoryStore} (h : plan.Asks path)
    (hfiled : store.Filed) (ids : List String) (g : Graph MemoryStore) (rs : List Record)
    (g' : Graph MemoryStore) (hsame : g.store.records = store.records)
    (hrun : Returns ((batchQuery plan ids).query.fetch plan.session) g rs g') :
    g'.store.records = store.records ∧ rs = plan.selection store ids := by
  have hplain : (batchQuery plan ids).query.Plain := h.plain.addBase _
  obtain ⟨hrecords, rfl⟩ := hplain.returns_fetch (hfiled.of_records hsame) hrun
  refine ⟨hrecords.trans hsame, ?_⟩
  rw [Plan.selection, MemoryStore.answersTo, MemoryStore.answersTo, MemoryStore.recordsOf,
    MemoryStore.recordsOf, hsame]

namespace Planned

/-- The query of a plan is that of its relationship with what a plain caller has added. -/
theorem query_eq (h : Planned registry s t name callers plan)
    (hcallers : ∀ q ∈ callers, q.Plain) :
    plan.query.query.Plain ∧ plan.query.query.sorts.entries = Query.sortsOf callers ∧
      ∃ relationship q, t.relationship name = .ok relationship ∧
        registry.relationshipQuery relationship = .ok q ∧
        plan.query.query.entityType = q.query.entityType ∧
        plan.query.query.baseConditions = q.query.baseConditions := by
  obtain ⟨relationship, q, hrelationship, hq, -, hquery⟩ := h.declared
  obtain ⟨entityType, c, hbase, -⟩ := Registry.relationshipQuery_eq_ofBase hq
  have hplain : q.query.Plain := by
    rw [hbase]
    exact Query.plain_ofBase entityType [c]
  have hsorts : q.query.sorts = OrderedMap.empty := by
    rw [hbase]
    rfl
  cases callers with
  | none =>
      simp only at hquery
      rw [hquery]
      exact ⟨hplain, congrArg OrderedMap.entries hsorts, relationship, q, hrelationship, hq, rfl,
        rfl⟩
  | some own =>
      simp only at hquery
      rw [hquery]
      refine ⟨hplain.copyFrom (hcallers own rfl), ?_, relationship, q, hrelationship, hq, rfl,
        rfl⟩
      show (own.sorts.entries.foldl (fun sorts e => sorts.insert e.1 e.2) q.query.sorts).entries =
        own.sorts.entries
      rw [hsorts]
      exact congrArg OrderedMap.entries own.sorts.ofList_entries

/-- A plan asks by identifier on the side that holds the foreign key, else by foreign key. -/
theorem asks (hregistry : registry.WellFormed) (ht : registry.get t.name = .ok t)
    (h : Planned registry s t name callers plan) (hcallers : ∀ q ∈ callers, q.Plain) :
    plan.Asks (match plan.resolved.side with
      | .parent => idField
      | .child => plan.resolved.foreignKey.path) := by
  obtain ⟨relationship, -, hrelationship, -, hcondition, -⟩ := h.declared
  exact ⟨(h.query_eq hcallers).1, Registry.relationshipCondition_eq hregistry h.resolved ht
    hrelationship hcondition⟩

/-- There is one plan for a type. -/
theorem unique {other : Plan} (h : Planned registry s t name callers plan)
    (hother : Planned registry s t name callers other) : plan = other := by
  obtain ⟨relationship, q, hrelationship, hq, hcondition, hquery⟩ := h.declared
  obtain ⟨again, q', hrelationship', hq', hcondition', hquery'⟩ := hother.declared
  obtain rfl := Except.ok.inj (hrelationship.symm.trans hrelationship')
  obtain rfl := Except.ok.inj (hq.symm.trans hq')
  have hresolved := Except.ok.inj (h.resolved.symm.trans hother.resolved)
  have hconditions := Except.ok.inj (hcondition.symm.trans hcondition')
  have hsession := h.session.trans hother.session.symm
  cases plan
  cases other
  simp only at hresolved hconditions hsession hquery hquery'
  rw [hresolved, hconditions, hsession, hquery, hquery']

theorem hasRelationship (h : Planned registry s t name callers plan) :
    t.hasRelationship name = true := by
  obtain ⟨relationship, -, hrelationship, -⟩ := h.declared
  rw [ModelType.hasRelationship, OrderedMap.contains,
    ModelType.relationship_eq_ok.mp hrelationship, Option.isSome_some]

/-! ## One group -/

variable {g g' : Graph MemoryStore} {group : List Model}

/-- What the fetch for one group loads, if its members hold the foreign key. -/
theorem loads_parentSide (hg : g.WellFormed) (hfiled : g.store.Filed)
    (hplan : Planned g.registry s t name callers plan) (hasks : plan.Asks idField)
    (hside : plan.resolved.side = .parent) (ht : g.registry.get t.name = .ok t)
    (htypes : ∀ m ∈ group, (g.model m).modelType = t) (hnodup : group.Nodup)
    (hmembers : ∀ m ∈ group, g.HasModel m)
    (hapart : ∀ m ∈ group, PendingApart g m plan.resolved.name)
    (h : Returns (parentSide plan group) g () g') :
    g.Spares g' group ∧ g'.store.records = g.store.records ∧ ∀ m ∈ group,
      g'.loaded m plan.resolved.name = plan.expected g group m := by
  obtain ⟨unloaded, ran, answers, found, hloading, hanswered⟩ := Fetching.returns_parentSide
    (fun store => store.records = g.store.records) (hasks.returns_fetch hfiled) hside
    (hg.fetchable hnodup hmembers _)
    (fun m hm => hplan.ownKey hg.registry hside ht (htypes m hm)) rfl h
  have hspares := hloading.spares
  have hselected : ∀ r, r ∈ answers ↔ r ∈ plan.selection g.store (distinct
      ((group.filter fun m => !plan.keeps g m).map
        (g.keyIds plan.resolved.foreignKey)).flatten) := by
    intro r
    rw [hanswered.eq_flatMap, hasks.mem_flatMap_batches]
  refine ⟨hspares.mono fun m hm => (List.mem_filter.mp hm).1, ?_, fun m hm => ?_⟩
  · rw [hloading.handed.relinks.store]
    exact hanswered.stored
  cases hkeeps : plan.keeps g m with
  | true =>
      -- an unsaved parent stays
      rw [Graph.loaded_of_spares hg hspares (hmembers m hm) (by simp [hkeeps])]
      simp only [Plan.expected, hside, hkeeps, if_true]
  | false =>
      have hload : m ∈ group.filter fun m => !plan.keeps g m := by
        simp [hm, hkeeps]
      apply hloading.loaded_parentSide hg hfiled hasks hside
        (fun m hm => hmembers m (List.mem_filter.mp hm).1) (hnodup.filter _) hselected hload
        ?_ hkeeps (hapart m hm)
      intro id hid
      rw [mem_distinct, List.mem_flatten]
      exact ⟨_, List.mem_map.mpr ⟨m, hload, rfl⟩, hid⟩

/-- What the fetch for one group loads, if its members do not hold the foreign key. -/
theorem loads_childSide (hg : g.WellFormed) (hfiled : g.store.Filed)
    (hasks : plan.Asks plan.resolved.foreignKey.path) (hside : plan.resolved.side = .child)
    (hnodup : group.Nodup) (hmembers : ∀ m ∈ group, g.HasModel m) (hids : g.DistinctIds group)
    (hapart : ∀ m ∈ group, PendingApart g m plan.resolved.name)
    (h : Returns (childSide plan group) g () g') :
    g.Spares g' group ∧ g'.store.records = g.store.records ∧ ∀ m ∈ group,
      (g'.loaded m plan.resolved.name).Perm (plan.expected g group m) ∧
      (Record.KeepsOrder plan.query.query.sorts.entries plan.resolved.foreignKey
          (g.model m).record.id (plan.stored g.store) →
        g'.loaded m plan.resolved.name = plan.expected g group m) := by
  obtain ⟨unloaded, ran, answers, found, owners, howners, hloading, hanswered⟩ :=
    Fetching.returns_childSide (fun store => store.records = g.store.records)
      (hasks.returns_fetch hfiled) hside (hg.fetchable hnodup hmembers _) hids rfl h
  refine ⟨hloading.spares, ?_, fun m hm => ?_⟩
  · rw [hloading.handed.relinks.store]
    exact hanswered.stored
  · exact hloading.loaded_childSide hg hfiled hasks hside hmembers howners
      hanswered.eq_flatMap hm (hapart m hm)

/-- What the fetch for one group loads. -/
theorem loads_group (hg : g.WellFormed) (hfiled : g.store.Filed)
    (hplan : Planned g.registry s t name callers plan) (hcallers : ∀ q ∈ callers, q.Plain)
    (ht : g.registry.get t.name = .ok t) (htypes : ∀ m ∈ group, (g.model m).modelType = t)
    (hnodup : group.Nodup) (hmembers : ∀ m ∈ group, g.HasModel m) (hids : g.DistinctIds group)
    (hapart : ∀ m ∈ group, PendingApart g m name)
    (hparent : plan.resolved.side = .parent → Returns (parentSide plan group) g () g')
    (hchild : plan.resolved.side = .child → Returns (childSide plan group) g () g') :
    g.Spares g' group ∧ g'.store.records = g.store.records ∧ ∀ m ∈ group,
      (g'.loaded m name).Perm (plan.expected g group m) ∧
      ((plan.resolved.side = .child → Record.KeepsOrder plan.query.query.sorts.entries
          plan.resolved.foreignKey (g.model m).record.id (plan.stored g.store)) →
        g'.loaded m name = plan.expected g group m) := by
  have hasks := hplan.asks hg.registry ht hcallers
  obtain rfl := hplan.name_eq hg.registry
  cases hside : plan.resolved.side with
  | parent =>
      rw [hside] at hasks
      obtain ⟨hspares, hrecords, hsame⟩ := hplan.loads_parentSide hg hfiled hasks hside ht htypes
        hnodup hmembers hapart (hparent hside)
      exact ⟨hspares, hrecords, fun m hm => ⟨hsame m hm ▸ .refl _, fun _ => hsame m hm⟩⟩
  | child =>
      rw [hside] at hasks
      obtain ⟨hspares, hrecords, hloads⟩ := loads_childSide hg hfiled hasks hside hnodup hmembers
        hids hapart (hchild hside)
      exact ⟨hspares, hrecords, fun m hm => ⟨(hloads m hm).1, fun h => (hloads m hm).2 (h rfl)⟩⟩

end Planned

/-! ## All groups -/

/-- The members of the type of a model. -/
def sameType (g : Graph MemoryStore) (members : List Model) (m : Model) : List Model :=
  members.filter fun n => (g.model n).modelType.name = (g.model m).modelType.name

/-- What a member has loaded after a fetch from `g` to `g'`: what it had, if its type does not
declare the relationship, else what is expected. -/
inductive Settles (g g' : Graph MemoryStore) (s : Session) (name : String)
    (callers : Option Query) (members : List Model) (m : Model) : Prop where
  | undeclared (hnone : (g.model m).modelType.hasRelationship name = false)
      (hsame : g'.loaded m name = g.loaded m name)
  | declared (plan : Plan) (hplan : Planned g.registry s (g.model m).modelType name callers plan)
      (hperm : (g'.loaded m name).Perm (plan.expected g (sameType g members m) m))
      (hsame : (plan.resolved.side = .child → Record.KeepsOrder plan.query.query.sorts.entries
          plan.resolved.foreignKey (g.model m).record.id (plan.stored g.store)) →
        g'.loaded m name = plan.expected g (sameType g members m) m)

/-- The state of a fetch when some members have had their turn. -/
structure Underway (g t : Graph MemoryStore) (s : Session) (name : String)
    (callers : Option Query) (members done : List Model) : Prop where
  sound : t.Sound MemoryStore.Filed
  spares : g.Spares t done
  records : t.store.records = g.store.records
  settles : ∀ m ∈ done, Settles g t s name callers members m

variable {g t t' : Graph MemoryStore} {members done group : List Model}

theorem Settles.of_loaded_eq {m : Model} (h : Settles g t s name callers members m)
    (hloaded : t'.loaded m name = t.loaded m name) :
    Settles g t' s name callers members m := by
  cases h with
  | undeclared hnone hsame => exact .undeclared hnone (hloaded.trans hsame)
  | declared plan hplan hperm hsame =>
      exact .declared plan hplan (hloaded ▸ hperm) fun horder => hloaded.trans (hsame horder)

/-- A group whose members are settled comes to those that were settled before. -/
theorem Underway.add (hdone : Underway g t s name callers members done)
    (hmade : ∀ m ∈ done, g.HasModel m) (hsound : t'.Sound MemoryStore.Filed)
    (hspares : t.Spares t' group) (hrecords : t'.store.records = t.store.records)
    (hdisjoint : ∀ m ∈ done, m ∉ group)
    (hsettles : ∀ m ∈ group, Settles g t' s name callers members m) :
    Underway g t' s name callers members (done ++ group) where
  sound := hsound
  spares := hdone.spares.trans hspares
  records := hrecords.trans hdone.records
  settles m hm := by
    rcases List.mem_append.mp hm with hm | hm
    · apply (hdone.settles m hm).of_loaded_eq
      exact Graph.loaded_of_spares hdone.sound.wellFormed hspares
        (hdone.spares.hasModel (hmade m hm)) (hdisjoint m hm)
    · exact hsettles m hm

/-- The keys of unsaved models stay apart from the store while they wait for their turn. -/
theorem Underway.pendingApart {m : Model} (hdone : Underway g t s name callers members done)
    (hg : g.WellFormed) (hapart : g.PlaceholdersApart) (hm : g.HasModel m) (hout : m ∉ done) :
    PendingApart t m name := by
  intro x hx entityType
  rw [Graph.unsavedChildren_of_spares hg hdone.spares hm hout] at hx
  obtain ⟨hold, -⟩ := hg.of_mem_unsavedChildren hm hx
  rw [hdone.spares.model x hold, MemoryStore.recordsOf, hdone.records]
  exact hapart.get?_unsaved hg hm hx entityType

/-- A turn finds the members of its group as they were before the fetch. It leaves them out, if
their type does not declare the relationship, or else fetches for them. -/
theorem turn_cases {typeName : String} {count : Nat} {b : Bool} (hg : g.WellFormed)
    (hmembers : ∀ m ∈ members, g.HasModel m)
    (hgroup : group = members.filter fun m => (g.model m).modelType.name = typeName)
    (hsound : t.Sound MemoryStore.Filed) (hspares : g.Spares t done)
    (hdisjoint : ∀ m ∈ done, m ∉ group)
    (hturn : Returns (turn s name callers count (typeName, group)) t b t') :
    t'.Sound MemoryStore.Filed ∧ (∀ m ∈ group, t.model m = g.model m) ∧
      ∃ u, u.name = typeName ∧ t.registry.get u.name = .ok u ∧
        (∀ m ∈ group, (g.model m).modelType = u) ∧
        ((t' = t ∧ u.hasRelationship name = false) ∨
          Returns (fetchGroup s u name callers group) t () t') := by
  have hin : ∀ m ∈ group, m ∈ members ∧ (g.model m).modelType.name = typeName := by
    intro m hm
    rw [hgroup, List.mem_filter, decide_eq_true_eq] at hm
    exact hm
  have hthere : ∀ m ∈ group, g.HasModel m := fun m hm => hmembers m (hin m hm).1
  have hmodel : ∀ m ∈ group, t.model m = g.model m := fun m hm =>
    hspares.others m (hthere m hm) fun hmem => hdisjoint m hmem hm
  obtain ⟨hsound', -, -⟩ := (upholds_turn MemoryStore.keeps_filed hsound name callers count
    fun m hm => ⟨hspares.hasModel (hthere m hm), by rw [hmodel m hm, (hin m hm).2]⟩).of_returns
      hturn
  refine ⟨hsound', hmodel, ?_⟩
  -- a member has the type that is registered under its name
  have hregistered : ∀ u, t.registry.get typeName = .ok u →
      u.name = typeName ∧ t.registry.get u.name = .ok u ∧
        ∀ m ∈ group, (g.model m).modelType = u := by
    intro u hu
    obtain ⟨rfl, -⟩ := hsound.wellFormed.registry _ u (Registry.get_eq_ok.mp hu)
    refine ⟨rfl, hu, fun m hm => ?_⟩
    rw [hspares.registry, ← (hin m hm).2, hg.typed m (hthere m hm)] at hu
    exact Except.ok.inj hu
  rcases returns_turn hturn with ⟨rfl, -, u, hu, hundeclared⟩ | ⟨u, hu, hfetch⟩
  · obtain ⟨hname, hget, htypes⟩ := hregistered u hu
    exact ⟨u, hname, hget, htypes, .inl ⟨rfl, hundeclared⟩⟩
  · obtain ⟨hname, hget, htypes⟩ := hregistered u hu
    exact ⟨u, hname, hget, htypes, .inr hfetch⟩

/-- The turn of a group settles its members and leaves the others alone. -/
theorem Underway.of_turn {typeName : String} {count : Nat} {b : Bool} (hg : g.WellFormed)
    (hapart : g.PlaceholdersApart) (hcallers : ∀ q ∈ callers, q.Plain)
    (hmembers : ∀ m ∈ members, g.HasModel m) (hnodup : members.Nodup)
    (hids : g.DistinctIds members)
    (hgroup : group = members.filter fun m => (g.model m).modelType.name = typeName)
    (hdone : Underway g t s name callers members done) (hknown : ∀ m ∈ done, m ∈ members)
    (hdisjoint : ∀ m ∈ done, m ∉ group)
    (hturn : Returns (turn s name callers count (typeName, group)) t b t') :
    Underway g t' s name callers members (done ++ group) := by
  have hin : ∀ m ∈ group, m ∈ members := fun m hm => (List.mem_filter.mp (hgroup ▸ hm)).1
  have hout : ∀ m ∈ group, m ∉ done := fun m hm hmem => hdisjoint m hmem hm
  have hmade : ∀ m ∈ done, g.HasModel m := fun m hm => hmembers m (hknown m hm)
  have hthere : ∀ m ∈ group, g.HasModel m := fun m hm => hmembers m (hin m hm)
  obtain ⟨hsound, hmodel, u, rfl, hu, htypes, ⟨rfl, hundeclared⟩ | hfetch⟩ :=
    turn_cases hg hmembers hgroup hdone.sound hdone.spares hdisjoint hturn
  · -- the group is left out
    apply hdone.add hmade hsound ((Graph.Spares.refl _).mono (by simp)) rfl hdisjoint
    intro m hm
    apply Settles.undeclared
    · rw [htypes m hm]
      exact hundeclared
    · exact Graph.loaded_of_spares hg hdone.spares (hthere m hm) (hout m hm)
  · obtain ⟨plan, hplan, hparent, hchild⟩ := returns_fetchGroup hfetch
    have hgroupIds : g.DistinctIds group := fun m hm n hn => hids m (hin m hm) n (hin n hn)
    obtain ⟨hspares, hrecords, hloads⟩ := hplan.loads_group hdone.sound.wellFormed
      hdone.sound.store hcallers hu (fun m hm => hmodel m hm ▸ htypes m hm)
      (hgroup ▸ hnodup.filter _) (fun m hm => hdone.spares.hasModel (hthere m hm))
      (hgroupIds.of_model_eq hmodel)
      (fun m hm => hdone.pendingApart hg hapart (hthere m hm) (hout m hm)) hparent hchild
    apply hdone.add hmade hsound hspares hrecords hdisjoint
    intro m hm
    obtain ⟨hperm, hsame⟩ := hloads m hm
    have hsameType : sameType g members m = group := by
      rw [sameType, htypes m hm, hgroup]
    have hexpected : plan.expected t group m = plan.expected g (sameType g members m) m := by
      rw [hsameType]
      exact Plan.expected_of_spares hg hdone.spares hdone.records
        (fun n hn => ⟨hthere n hn, hout n hn⟩) hm
    have hstored : plan.stored t.store = plan.stored g.store := by
      rw [Plan.stored, Plan.stored, MemoryStore.recordsOf, MemoryStore.recordsOf, hdone.records]
    rw [hexpected] at hperm hsame
    rw [hmodel m hm, hstored] at hsame
    refine .declared plan ?_ hperm hsame
    rw [htypes m hm, ← hdone.spares.registry]
    exact hplan

end Fetching

open Fetching

variable {g g' : Graph MemoryStore} {s : Session} {members : List Model} {name : String}
  {callers : Option Query}

/-- A fetch settles all its members, of whatever types they are. -/
theorem settles_of_returns_fetchRelationship (hg : g.WellFormed) (hfiled : g.store.Filed)
    (hapart : g.PlaceholdersApart) (hmembers : ∀ m ∈ members, g.HasModel m)
    (hnodup : members.Nodup) (hids : g.DistinctIds members) (hcallers : ∀ q ∈ callers, q.Plain)
    (h : Returns (fetchRelationship s members name callers) g () g') :
    ∀ m ∈ members, Settles g g' s name callers members m := by
  have hall : ∃ all, (∀ m, m ∈ all ↔ m ∈ members) ∧ Underway g g' s name callers members all := by
    refine invariant_of_fetchRelationship (fun done t => Underway g t s name callers members done)
      ⟨⟨hg, hfiled⟩, .refl g, rfl, by simp⟩ ?_ h
    intro done group typeName count t t' declares hgroup hknown hdisjoint hdone hturn
    exact hdone.of_turn hg hapart hcallers hmembers hnodup hids hgroup hknown hdisjoint hturn
  obtain ⟨all, hsame, hall⟩ := hall
  exact fun m hm => hall.settles m ((hsame m).mpr hm)

namespace Graph

/-- The same graph, where a session asks for so many identifiers at once. -/
def withBatchSize (g : Graph MemoryStore) (s : Session) (size : Option Nat) : Graph MemoryStore :=
  g.setSession s
    { g.session s with config := { (g.session s).config with fetchBatchSize := size } }

theorem WellFormed.withBatchSize (hg : g.WellFormed) (s : Session) (size : Option Nat) :
    (g.withBatchSize s size).WellFormed := by
  have hset := hg.setSession s (d :=
    { g.session s with config := { (g.session s).config with fetchBatchSize := size } })
    (hg.forged s)
  exact hset.1

/-- If a member does not hold the foreign key, the sort orders of the caller rank the far
records, and those that refer to the member have the same key. -/
def RanksChildren (g : Graph MemoryStore) (m : Model) (name : String) (callers : Option Query) :
    Prop :=
  ∀ r, g.registry.resolve (g.model m).modelType.name name = .ok r → r.side = .child →
    ∀ farName ∈ r.farTypes, ∀ far, g.registry.get farName = .ok far →
      Record.KeepsOrder (Query.sortsOf callers) r.foreignKey (g.model m).record.id
        ((g.store.recordsOf far.entityType).values.filter
          (Condition.eq bundleField (.text far.bundle)).holds)

end Graph

/-- What ranks the far records of a member ranks the records among which its plan selects. -/
theorem Fetching.Planned.keepsOrder {plan : Plan} {m : Model} (hg : g.WellFormed)
    (hplan : Planned g.registry s (g.model m).modelType name callers plan)
    (hcallers : ∀ q ∈ callers, q.Plain) (hm : g.HasModel m) (h : g.RanksChildren m name callers)
    (hside : plan.resolved.side = .child) :
    Record.KeepsOrder plan.query.query.sorts.entries plan.resolved.foreignKey
      (g.model m).record.id (plan.stored g.store) := by
  obtain ⟨-, hsorts, relationship, q, hrelationship, hq, hentity, hbase⟩ :=
    hplan.query_eq hcallers
  obtain ⟨far, hfars, hfar, rfl⟩ := Registry.relationshipQuery_of_child hg.registry
    hplan.resolved hside (hg.typed m hm) hrelationship hq
  have hkept := h plan.resolved hplan.resolved hside far.name (by simp [hfars]) far hfar
  have hbundle : (ModelQuery.ofType far).query.baseConditions =
      [.eq bundleField (.text far.bundle)] := rfl
  rw [hsorts, Plan.stored, hentity, hbase, hbundle]
  simp only [List.all_cons, List.all_nil, Bool.and_true]
  exact hkept

/-- How many identifiers are asked for at once is not seen in what a fetch loads. Two fetches
that differ in this only leave every member with the same records. They leave them in the same
order, if the member holds the foreign key; and if it does not, where the sort orders of the
caller rank the far records and those that refer to the member have the same key. -/
theorem fetchRelationship_regardless_of_batches {few many : Option Nat} {h h' : Graph MemoryStore}
    (hg : g.WellFormed) (hfiled : g.store.Filed) (hapart : g.PlaceholdersApart)
    (hmembers : ∀ m ∈ members, g.HasModel m) (hnodup : members.Nodup)
    (hids : g.DistinctIds members) (hcallers : ∀ q ∈ callers, q.Plain)
    (hfew : Returns (fetchRelationship s members name callers) (g.withBatchSize s few) () h)
    (hmany : Returns (fetchRelationship s members name callers) (g.withBatchSize s many) () h') :
    ∀ m ∈ members, (h.loaded m name).Perm (h'.loaded m name) ∧
      (g.RanksChildren m name callers → h.loaded m name = h'.loaded m name) := by
  intro m hm
  have hfirst := settles_of_returns_fetchRelationship (hg.withBatchSize s few) hfiled hapart
    hmembers hnodup hids hcallers hfew m hm
  have hsecond := settles_of_returns_fetchRelationship (hg.withBatchSize s many) hfiled hapart
    hmembers hnodup hids hcallers hmany m hm
  cases hfirst with
  | undeclared hnone hsame =>
      cases hsecond with
      | undeclared hnone' hsame' =>
          have hequal : h.loaded m name = h'.loaded m name := hsame.trans hsame'.symm
          exact ⟨hequal ▸ .refl _, fun _ => hequal⟩
      | declared plan hplan _ _ => exact absurd (hplan.hasRelationship.symm.trans hnone) (by simp)
  | declared plan hplan hperm hsame =>
      cases hsecond with
      | undeclared hnone' _ => exact absurd (hplan.hasRelationship.symm.trans hnone') (by simp)
      | declared other hother hperm' hsame' =>
          obtain rfl : plan = other := hplan.unique hother
          refine ⟨hperm.trans hperm'.symm, fun horder => ?_⟩
          have hkeeps := hplan.keepsOrder hg hcallers (hmembers m hm) horder
          exact (hsame hkeeps).trans (hsame' hkeeps).symm

namespace Library

/-- A store filled with records, one after the other. -/
def filled (rs : List Record) : MemoryStore := rs.foldl (fun s r => (s.seed r).2) MemoryStore.empty

theorem filed_filled (rs : List Record) : (filled rs).Filed := by
  suffices hall : ∀ s : MemoryStore, s.Filed → (rs.foldl (fun s r => (s.seed r).2) s).Filed from
    hall _ MemoryStore.filed_empty
  induction rs with
  | nil => exact fun _ h => h
  | cons r rest ih => exact fun s h => ih _ (h.seed r)

/-- An article with a title that refers to its writers. -/
def signed (id title : String) (writers : List String) (c : Cardinality) : Record :=
  (((Record.new "node" "article").withId id).set "title" (.text title)).setReferenceIds "writer"
    "target_id" writers c

/-- The graph with both authors forged, where articles are of a type and these are stored. -/
def catalogue (t : ModelType) (articles : List Record) : Graph MemoryStore :=
  let authors := ["ann", "bob"].map fun id => (Record.new "node" "author").withId id
  let g := Graph.new (filled (authors ++ articles)) (registry [author, t])
  let g := (Session.start Config.standard g).2
  let g := (Model.forgeById session "author" "ann" g).2
  (Model.forgeById session "author" "bob" g).2

theorem reachable_catalogue {t : ModelType} (ht : t.WellFormed) (articles : List Record) :
    Graph.Reachable MemoryStore.Filed (catalogue t articles) := by
  have htypes : ∀ u ∈ [author, t], u.WellFormed := by
    simp [wellFormed_author, ht]
  exact .call (.call (.call (.new (filed_filled _) (wellFormed_registry htypes)) (.start _))
    (.forgeById _ _ _)) (.forgeById _ _ _)

/-- What the store answers during a fetch can be evaluated. -/
theorem fetchRelationship_brief (s : Session) (members : List Model) (name : String)
    (callers : Option Query) : fetchRelationship s members name callers =
      @fetchRelationship MemoryStore MemoryStore.brief s members name callers := by
  rw [MemoryStore.brief_eq]

/-- The graph after the articles were fetched for both authors, so many identifiers at once. -/
def read (g : Graph MemoryStore) (q : Query) (size : Option Nat) : Graph MemoryStore :=
  (fetchRelationship session both "articles" (some q) (g.withBatchSize session size)).2

/-- The identifiers of the articles that an author has loaded. -/
def readBy (g : Graph MemoryStore) (m : Model) : List (Option String) :=
  (g.loaded m "articles").map Record.id

/-- One author has written both articles and the other author none. -/
def solo : Graph MemoryStore :=
  catalogue article [signed "cells" "Cells" ["ann"] .single, signed "trees" "Trees" ["ann"] .single]

/-- The titles from the last to the first. -/
def backwards : Query := (Query.new "node").sortBy "title" .descending

/-- Author by author or for both at once, the articles come in the order that was asked for. -/
theorem solo_read_alike :
    Returns (fetchRelationship session both "articles" (some backwards))
        (solo.withBatchSize session (some 1)) () (read solo backwards (some 1)) ∧
      Returns (fetchRelationship session both "articles" (some backwards))
        (solo.withBatchSize session none) () (read solo backwards none) ∧
      readBy (read solo backwards none) ⟨0⟩ = [some "trees", some "cells"] ∧
      ∀ m ∈ both, (read solo backwards (some 1)).loaded m "articles" =
        (read solo backwards none).loaded m "articles" := by
  have hsound : Graph.Sound MemoryStore.Filed solo :=
    (reachable_catalogue wellFormed_article _).sound MemoryStore.keeps_filed
  have hfew : Returns (fetchRelationship session both "articles" (some backwards))
      (solo.withBatchSize session (some 1)) () (read solo backwards (some 1)) := by
    refine returns_of_isOk ?_ ()
    rw [fetchRelationship_brief]
    decide +kernel
  have hmany : Returns (fetchRelationship session both "articles" (some backwards))
      (solo.withBatchSize session none) () (read solo backwards none) := by
    refine returns_of_isOk ?_ ()
    rw [fetchRelationship_brief]
    decide +kernel
  have hplain : ∀ q ∈ some backwards, q.Plain := by
    intro q hq
    obtain rfl := Option.some.inj hq
    exact ⟨rfl, rfl, by decide⟩
  have hwritten : readBy (read solo backwards none) ⟨0⟩ = [some "trees", some "cells"] := by
    rw [read, fetchRelationship_brief]
    decide +kernel
  have hresolved := eq_ok_of_isOk (x := solo.registry.resolve "author" "articles")
    (by decide +kernel) default
  have hfar := eq_ok_of_isOk (x := solo.registry.get "article") (by decide +kernel) default
  have htype : ∀ m ∈ both, (solo.model m).modelType.name = "author" := by
    decide +kernel
  refine ⟨hfew, hmany, hwritten, fun m hm => ?_⟩
  have halike := fetchRelationship_regardless_of_batches hsound.wellFormed hsound.store
    (by decide +kernel) (by decide +kernel) (by decide) (by decide +kernel) hplain hfew hmany m hm
  apply halike.2
  intro r hr _ farName hfarName far hget
  rw [htype m hm, hresolved] at hr
  obtain rfl := Except.ok.inj hr
  have hfarNames : ((solo.registry.resolve "author" "articles").toOption.getD default).farTypes =
      ["article"] := by
    decide +kernel
  rw [hfarNames, List.mem_singleton] at hfarName
  rw [hfarName, hfar] at hget
  obtain rfl := Except.ok.inj hget
  exact .of_single_texts (by decide +kernel) (by decide +kernel) (by decide +kernel) _

/-- An article that may refer to several authors. -/
def jointArticle : ModelType :=
  (ModelType.new "article" "node" "article").declare
    ((Relationship.field "author" "writer" "author").withCardinality .multiple)

theorem wellFormed_jointArticle : jointArticle.WellFormed :=
  (ModelType.wellFormed_new _ _ _).declare _

/-- One author has a part in both articles and the other author in one of them. -/
def joint : Graph MemoryStore :=
  catalogue jointArticle
    [signed "cells" "Cells" ["bob"] .multiple, signed "trees" "Trees" ["ann", "bob"] .multiple]

/-- The titles from the first to the last. -/
def alphabetical : Query := (Query.new "node").sortBy "title" .ascending

/-- Where articles refer to several authors, the order that was asked for is lost between the
batches: what both authors have written comes with the first of them. And a range is cut out of
every batch, so that more comes in all. -/
theorem joint_not_read_alike :
    Graph.Reachable MemoryStore.Filed joint ∧
      Returns (fetchRelationship session both "articles" (some alphabetical))
        (joint.withBatchSize session (some 1)) () (read joint alphabetical (some 1)) ∧
      Returns (fetchRelationship session both "articles" (some alphabetical))
        (joint.withBatchSize session none) () (read joint alphabetical none) ∧
      readBy (read joint alphabetical (some 1)) ⟨1⟩ = [some "trees", some "cells"] ∧
      readBy (read joint alphabetical none) ⟨1⟩ = [some "cells", some "trees"] ∧
      readBy (read joint (alphabetical.withRange 0 1) (some 1)) ⟨1⟩ =
        [some "trees", some "cells"] ∧
      readBy (read joint (alphabetical.withRange 0 1) none) ⟨1⟩ = [some "cells"] := by
  refine ⟨reachable_catalogue wellFormed_jointArticle _, returns_of_isOk ?_ (),
    returns_of_isOk ?_ (), ?_, ?_, ?_, ?_⟩ <;>
    simp only [read, fetchRelationship_brief] <;>
    decide +kernel

end Library

end RecordGraph
