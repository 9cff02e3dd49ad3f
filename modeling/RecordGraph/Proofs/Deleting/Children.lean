/-
# What a cascade finds

A deletion fetches what its cascading relationships lead to, and goes on with the models that
it reads there. On the store in memory these are models of all that hangs on the node along the
relationship, one of each, beside unsaved models that the relationship had loaded. Unlike a
fetch that a caller makes this does not depend on how foreign keys are stored, nor on the keys
of unsaved models: one that is in the way of a far model gives up its place.
-/
import RecordGraph.Proofs.Deleting.Fetches
import RecordGraph.Proofs.Deleting.Logs
import RecordGraph.Proofs.Fetching.Children

namespace RecordGraph

namespace Graph

variable {σ : Type}

/-- The model wraps the record of the node, in its type. -/
def Shows (g : Graph σ) (m : Model) (x : Node) : Prop :=
  (g.model m).modelType = x.type ∧ (g.model m).record.entityType = x.entityType ∧
    (g.model m).record.id = some x.id

/-- The node that a stored model wraps. -/
def node (g : Graph σ) (m : Model) : Node :=
  ⟨(g.model m).modelType, (g.model m).record.entityType, ((g.model m).record.id).getD ""⟩

variable {g g' : Graph σ} {m : Model} {x y : Node}

theorem shows_node (h : (g.model m).record.isNew = false) : g.Shows m (g.node m) := by
  refine ⟨rfl, rfl, ?_⟩
  cases hid : (g.model m).record.id with
  | none => simp [Record.isNew, hid] at h
  | some id => simp [node, hid]

theorem Shows.eq_node (h : g.Shows m x) : x = g.node m := by
  obtain ⟨htype, hentity, hid⟩ := h
  rw [node, htype, hentity, hid]
  rfl

theorem Shows.stored (h : g.Shows m x) : (g.model m).record.isNew = false := by
  simp [Record.isNew, h.2.2]

/-- What a cascade along a name finds: models of the nodes that hang on the node of `m`, one of
each, and unsaved models. -/
structure Follows (g : Graph MemoryStore) (m : Model) (name : String) (ms : List Model)
    (g' : Graph MemoryStore) : Prop where
  hanging : ∀ n ∈ ms, ∀ y, g'.Shows n y →
    Node.HangsAlong g.registry g.store name (g.node m) y
  found : ∀ y, Node.HangsAlong g.registry g.store name (g.node m) y → ∃ n ∈ ms, g'.Shows n y
  apart : ms.Pairwise fun a b => ∀ y z, g'.Shows a y → g'.Shows b z → y.key ≠ z.key

end Graph

/-! ## Following one relationship -/

namespace Registry

variable {registry : Registry} {t : ModelType} {name : String} {resolved : Resolved}

/-- Deletions cascade along relationships whose far records hold the foreign key. -/
theorem side_of_cascades (hg : registry.WellFormed) (ht : registry.get t.name = .ok t)
    (hname : name ∈ t.cascades) (hresolved : registry.resolve t.name name = .ok resolved) :
    resolved.side = .child := by
  obtain ⟨declared, hdeclared, rfl⟩ := List.mem_map.mp hname
  obtain ⟨hmem, hcascades⟩ := List.mem_filter.mp hdeclared
  rw [Bool.and_eq_true, decide_eq_true_eq] at hcascades
  obtain ⟨key, hkey⟩ := OrderedMap.mem_values_iff.mp hmem
  obtain ⟨-, htype⟩ := hg t.name t (get_eq_ok.mp ht)
  obtain ⟨hfiled, -⟩ := htype key declared hkey
  obtain ⟨owner, other, howner, -, hother, -, -, hresolve⟩ := declared_of_resolve hg hresolved
  obtain rfl : t = owner := Except.ok.inj (ht.symm.trans howner)
  rw [ModelType.relationship_eq_ok, hfiled, hkey] at hother
  obtain rfl := Option.some.inj hother
  rw [side_of_resolveRelationship hresolve]
  exact hcascades.2

end Registry

namespace Fetching

variable {plan : Plan} {g unloaded ran g' : Graph MemoryStore} {members fars held : List Model}
  {answers : List Record} {found : OrderedMap String Model} {pairs : List (Model × Model)}
  {m n : Model} {key : String}

/-- A model that a collection holds under a key, once far models were put behind older
ones. -/
theorem Loading.far_or_held (h : Loading plan members g unloaded ran g' answers found pairs)
    (hfars : ∀ n ∈ fars, n ∈ found.values)
    (hget : ((OrderedMap.empty.insertAll (fun x => (g.model x).key) held).insertAll
      (fun x => (ran.model x).key) fars).get? key = some n) :
    (n ∈ fars ∧ (ran.model n).record.id = some key) ∨ n ∈ held := by
  induction fars using List.reverseRecOn with
  | nil =>
      have hmem := OrderedMap.mem_values_iff.mpr ⟨key, hget⟩
      rw [OrderedMap.insertAll_nil] at hmem
      rcases OrderedMap.mem_values_of_insertAll hmem with hnone | hheld
      · simp [OrderedMap.values] at hnone
      · exact .inr hheld
  | append_singleton fars x ih =>
      rw [OrderedMap.insertAll_concat, OrderedMap.get?_insert] at hget
      split at hget
      · rename_i hkey
        obtain rfl := Option.some.inj hget
        exact .inl ⟨by simp, by rw [(h.finds.get?_key (hfars x (by simp))).2, hkey]⟩
      · rcases ih (fun y hy => hfars y (by simp [hy])) hget with ⟨hfar, hid⟩ | hheld
        · exact .inl ⟨by simp [hfar], hid⟩
        · exact .inr hheld

/-- One stored member is asked for by its identifier alone. -/
theorem batches_keys_of_one {owners : OrderedMap String Model} {id : String} (size : Nat)
    (howners : ∀ k n, owners.get? k = some n ↔ n ∈ [m] ∧ (g.model n).record.id = some k)
    (hid : (g.model m).record.id = some id) : batches size owners.keys = [[id]] := by
  have hkeys : ∀ k, k ∈ owners.keys ↔ k ∈ [id] := by
    intro k
    rw [← OrderedMap.contains_iff_mem_keys, OrderedMap.contains, Option.isSome_iff_exists]
    simp only [howners, List.mem_singleton, exists_eq_left, hid, Option.some.injEq]
    exact eq_comm
  have hone : owners.keys = [id] := List.perm_singleton.mp
    ((List.perm_ext_iff_of_nodup owners.keys_nodup (List.nodup_singleton id)).mpr hkeys)
  simp [hone, batches]

/-- What is answered for one stored member. -/
theorem Answered.mem_iff_of_one {far : ModelType} {owners : OrderedMap String Model} {id : String}
    {Stored : MemoryStore → Prop} (hid : (g.model m).record.id = some id)
    (howners : ∀ k n, owners.get? k = some n ↔ n ∈ [m] ∧ (g.model n).record.id = some k)
    (h : Answered plan Stored (Selects g.store far.entityType
      [.eq bundleField (.text far.bundle)] plan.resolved.foreignKey.path) g ran owners.keys answers)
    (r : Record) : r ∈ answers ↔ r ∈ (g.store.recordsOf far.entityType).values ∧
      (Condition.eq bundleField (.text far.bundle)).holds r = true ∧
      ((Condition.inList plan.resolved.foreignKey.path []).required.withValue
        (Value.texts [id])).holds r = true := by
  obtain ⟨answered, rfl, hbatches⟩ := h.byBatch
  rw [batches_keys_of_one _ howners hid] at hbatches
  simp [mem_flatten_of_selects hbatches]

/-- Models that were found by a query for one type are of that type. -/
theorem Loading.modelType_eq_of_ofType {far : ModelType}
    (h : Loading plan members g unloaded ran g' answers found pairs)
    (hquery : plan.query = ModelQuery.ofType far) (hn : n ∈ found.values) :
    (g'.model n).modelType = far := by
  obtain ⟨key, hkey⟩ := OrderedMap.mem_values_iff.mp hn
  have hwrapped := (h.finds.wraps key n hkey).2.2.typeFor
  rw [hquery] at hwrapped
  rw [h.model_eq n]
  exact (Option.some.inj hwrapped).symm

/-- The far models of one stored member show the nodes that hang on its own one. -/
theorem Loading.hangsAlong_iff {far : ModelType} {owners : OrderedMap String Model} {id : String}
    {name : String} {Stored : MemoryStore → Prop} (hfiled : g.store.Filed)
    (hid : (g.model m).record.id = some id)
    (hresolved : g.registry.resolve (g.model m).modelType.name name = .ok plan.resolved)
    (hfars : plan.resolved.farTypes = [far.name]) (hfar : g.registry.get far.name = .ok far)
    (hquery : plan.query = ModelQuery.ofType far)
    (howners : ∀ k n, owners.get? k = some n ↔ n ∈ [m] ∧ (g.model n).record.id = some k)
    (hanswered : Answered plan Stored (Selects g.store far.entityType
      [.eq bundleField (.text far.bundle)] plan.resolved.foreignKey.path) g ran owners.keys answers)
    (h : Loading plan [m] g unloaded ran g' answers found
      (childPairs plan ran owners found.values)) (y : Node) :
    Node.HangsAlong g.registry g.store name (g.node m) y ↔
      ∃ n ∈ ((childPairs plan ran owners found.values).filter
        fun pair => pair.1 = m).map Prod.snd, g'.Shows n y := by
  have hnode : (g.node m).id = id := by
    rw [Graph.node, hid]
    rfl
  have hasked := hanswered.mem_iff_of_one hid howners
  simp only [mem_map_snd_filter_childPairs howners (List.mem_singleton.mpr rfl), hid,
    Option.some.injEq, exists_eq_left', Graph.Shows, h.handed.relinks.record]
  constructor
  · rintro ⟨resolved, r, hsame, hfars', hy, hin, href⟩
    obtain rfl : plan.resolved = resolved := Except.ok.inj (hresolved.symm.trans hsame)
    rw [hnode] at hin href
    obtain rfl : far = y.type := by
      have hname : far.name = y.type.name := by
        rw [hfars] at hfars'
        exact (List.cons.inj hfars').1
      exact Except.ok.inj (hfar.symm.trans (hname ▸ hy.registered))
    have hstored := hy.stored
    rw [hy.entityType] at hstored
    obtain ⟨hrid, hentity⟩ := hfiled _ _ _ hstored
    have hanswer : r ∈ answers :=
      (hasked r).mpr ⟨OrderedMap.mem_values_iff.mpr ⟨_, hstored⟩, hy.bundle, hin⟩
    obtain ⟨n, hn, rfl⟩ := (h.found_iff hfiled hanswered).mpr ⟨hanswer, by rw [hquery]; rfl⟩
    exact ⟨n, ⟨hn, href⟩, h.modelType_eq_of_ofType hquery hn,
      hentity.trans hy.entityType.symm, hrid⟩
  · rintro ⟨n, ⟨hn, href⟩, hshown, hentity, hrid⟩
    obtain ⟨hanswer, -⟩ := (h.found_iff hfiled hanswered).mp ⟨n, hn, rfl⟩
    obtain ⟨hstored, hbundle, hin⟩ := (hasked _).mp hanswer
    obtain ⟨k, hk⟩ := OrderedMap.mem_values_iff.mp hstored
    obtain ⟨hkid, hkentity⟩ := hfiled _ _ _ hk
    obtain rfl : far = y.type := (h.modelType_eq_of_ofType hquery hn).symm.trans hshown
    obtain rfl : k = y.id := Option.some.inj (hkid.symm.trans hrid)
    have hsame : y.entityType = y.type.entityType := hentity.symm.trans hkentity
    exact ⟨plan.resolved, _, hresolved, hfars, ⟨hsame, hfar, hsame ▸ hk, hbundle⟩,
      by rwa [hnode], by rwa [hnode]⟩

/-- Where far models were put behind unsaved ones, a model that shows a node is a far one, filed
under the identifier of the node. -/
theorem Loading.far_of_shows (hg : g.WellFormed) (hm : g.HasModel m)
    (h : Loading plan members g unloaded ran g' answers found pairs)
    (hfars : ∀ n ∈ fars, n ∈ found.values) {name : String}
    (hget : ((OrderedMap.empty.insertAll (fun x => (g.model x).key)
      (g.unsavedChildren m name)).insertAll (fun x => (ran.model x).key) fars).get? key = some n)
    {y : Node} (hy : g'.Shows n y) : n ∈ fars ∧ y.id = key := by
  rcases h.far_or_held hfars hget with ⟨hfar, hkey⟩ | hheld
  · rw [← h.handed.relinks.record n] at hkey
    exact ⟨hfar, Option.some.inj (hy.2.2.symm.trans hkey)⟩
  · obtain ⟨hthere, hnew⟩ := hg.of_mem_unsavedChildren hm hheld
    have hold := hy.stored
    rw [h.spares.model n hthere, hnew] at hold
    cases hold

/-- A collection in which far models were put behind unsaved ones is what a cascade finds, if the
far models show the nodes that hang. -/
theorem Loading.follows (hg : g.WellFormed) (hm : g.HasModel m)
    (h : Loading plan members g unloaded ran g' answers found pairs)
    (hfars : ∀ n ∈ fars, n ∈ found.values) {name : String} {c : Collection}
    (hmembers : (g'.collection c).members = (OrderedMap.empty.insertAll (fun x => (g.model x).key)
      (g.unsavedChildren m name)).insertAll (fun x => (ran.model x).key) fars)
    (hhangs : ∀ y, Node.HangsAlong g.registry g.store name (g.node m) y ↔
      ∃ n ∈ fars, g'.Shows n y) : g.Follows m name (g'.collection c).members.values g' := by
  have hfar : ∀ e ∈ (g'.collection c).members.entries, ∀ y, g'.Shows e.2 y →
      e.2 ∈ fars ∧ y.id = e.1 := by
    intro e he y hy
    have hget := OrderedMap.get?_eq_some_iff.mpr he
    rw [hmembers] at hget
    exact h.far_of_shows hg hm hfars hget hy
  refine ⟨fun n hn y hy => ?_, fun y hy => ?_, ?_⟩
  · obtain ⟨e, he, rfl⟩ := List.mem_map.mp hn
    exact (hhangs y).mpr ⟨e.2, (hfar e he y hy).1, hy⟩
  · obtain ⟨n, hn, hy⟩ := (hhangs y).mp hy
    refine ⟨n, OrderedMap.mem_values_iff.mpr ⟨(ran.model n).key, ?_⟩, hy⟩
    rw [hmembers]
    exact OrderedMap.get?_insertAll_of_mem hn fun x hx hkey =>
      h.finds.eq_of_key_eq (hfars x hx) (hfars n hn) hkey
  · rw [OrderedMap.values, List.pairwise_map]
    refine (List.pairwise_map.mp (g'.collection c).members.distinct).imp_of_mem
      fun {a b} ha hb hne y z hy hz hsame => hne ?_
    rw [← (hfar a ha y hy).2, ← (hfar b hb z hz).2]
    exact congrArg Prod.snd hsame

end Fetching

namespace Model

variable {g g' : Graph MemoryStore} {m : Model} {name : String} {resolved : Resolved}
  {ms : List Model}

/-- The collection that a fetch loads for a cascade. -/
theorem returns_fetchRelationship_follows (hg : g.WellFormed) (hfiled : g.store.Filed)
    (hm : g.HasModel m) (hstored : (g.model m).record.isNew = false)
    (hresolved : g.registry.resolve (g.model m).modelType.name name = .ok resolved)
    (hside : resolved.side = .child) {s : Session}
    (h : Returns (fetchRelationship s [m] name none) g () g') :
    ∃ c, (g'.model m).children.get? name = some c ∧
      g.Follows m name (g'.collection c).members.values g' := by
  obtain ⟨id, hid⟩ : ∃ id, (g.model m).record.id = some id := by
    rwa [Record.isNew, Option.isNone_eq_false_iff, Option.isSome_iff_exists] at hstored
  have hmembers : ∀ n ∈ [m], g.HasModel n := by simpa using hm
  obtain ⟨t, plan, -, -, htypes, hplan, rfl, -, hchild⟩ :=
    Fetching.exists_planned_of_one_type hg (by simp) hmembers (by simp) hresolved h
  obtain rfl : (g.model m).modelType = t := htypes m (by simp)
  obtain ⟨far, unloaded, ran, answers, found, owners, hfars, hfar, hquery, howners, hloading,
    hanswered⟩ := hplan.returns_childSide hg hfiled hside (hg.typed m hm) (by simp) hmembers
      (by simp [Graph.DistinctIds]) (hchild hside)
  obtain ⟨c, hc, -, hvalues, -⟩ := hloading.collection_near (List.mem_singleton.mpr rfl)
    (Resolved.holdsSingle_of_child hside)
  rw [hplan.name_eq hg.registry] at hc hvalues
  refine ⟨c, hc, hloading.follows hg hm (fun n hn => ?_) hvalues
    (hloading.hangsAlong_iff hfiled hid hresolved hfars hfar hquery howners hanswered)⟩
  exact ((Fetching.mem_map_snd_filter_childPairs howners (List.mem_singleton.mpr rfl)).mp hn).1

/-- Following a relationship along which deletions cascade finds what hangs along it. -/
theorem returns_follow (hg : g.WellFormed) (hfiled : g.store.Filed) (hm : g.HasModel m)
    (hstored : (g.model m).record.isNew = false)
    (hname : name ∈ (g.model m).modelType.cascades) {r : Related} {between : Graph MemoryStore}
    (hfetch : Returns ((Related.model m).fetch [name] none) g r between)
    (hmodels : Returns r.models between ms g') : g.Follows m name ms g' := by
  simp only [Related.fetch, List.dropLast_singleton, List.getLast?_singleton, Option.getD_some,
    Related.get, Related.fetchStep, pure_bind, returns_bind, returns_data, and_assoc,
    exists_eq_left] at hfetch
  obtain ⟨⟨⟩, loaded, hload, hread⟩ := hfetch
  have hmembers : ∀ n ∈ [m], g.HasModel n := by simpa using hm
  obtain ⟨-, hgrows, -⟩ := (upholds_fetchRelationship MemoryStore.keeps_filed ⟨hg, hfiled⟩ _
    hmembers name none).of_returns hload
  simp only [read, returns_bind, returns_resolve, and_assoc, exists_eq_left] at hread
  obtain ⟨resolved, hresolved, hread⟩ := hread
  rw [hgrows.registry, hgrows.modelType m hm] at hresolved
  have hside := Registry.side_of_cascades hg.registry (hg.typed m hm) hname hresolved
  obtain ⟨c, hc, hfollows⟩ :=
    returns_fetchRelationship_follows hg hfiled hm hstored hresolved hside hload
  rw [Resolved.holdsSingle_of_child hside] at hread
  simp only [Bool.false_eq_true, if_false, returns_bind, returns_pure] at hread
  obtain ⟨_, _, hcached, rfl, rfl⟩ := hread
  rcases returns_childrenOr hcached with ⟨hc', rfl⟩ | ⟨hnone, -⟩
  · obtain rfl := Option.some.inj (hc.symm.trans hc')
    obtain ⟨rfl, rfl⟩ := Collection.returns_models.mp hmodels
    exact hfollows
  · rw [hc] at hnone
    cases hnone

end Model

end RecordGraph
