/-
# Unloading a relationship

Before a relationship is loaded afresh, what was loaded there before is taken away. A single
parent goes; a collection is replaced by a new one with the unsaved members only. The old
collection is left as it was, so a caller that still holds it sees no change.
-/
import RecordGraph.Proofs.OrderedMaps
import RecordGraph.Proofs.Steps

namespace RecordGraph

variable {σ : Type}

namespace Graph

/-- Nothing happened except that models may have other things loaded, and that collections
were made or filled. -/
structure Relinks (g g' : Graph σ) : Prop where
  store : g'.store = g.store
  registry : g'.registry = g.registry
  sessions : g'.sessions = g.sessions
  models_size : g.models.size ≤ g'.models.size
  collections_size : g.collections.size ≤ g'.collections.size
  model : ∀ m, g'.model m =
    { g.model m with parents := (g'.model m).parents, children := (g'.model m).children }

namespace Relinks

variable {g g' g'' : Graph σ}

theorem refl (g : Graph σ) : g.Relinks g :=
  ⟨rfl, rfl, rfl, Nat.le_refl _, Nat.le_refl _, fun _ => rfl⟩

theorem trans (first : g.Relinks g') (second : g'.Relinks g'') : g.Relinks g'' where
  store := second.store.trans first.store
  registry := second.registry.trans first.registry
  sessions := second.sessions.trans first.sessions
  models_size := Nat.le_trans first.models_size second.models_size
  collections_size := Nat.le_trans first.collections_size second.collections_size
  model m := by
    rw [second.model m, first.model m]

theorem hasModel (h : g.Relinks g') {m : Model} (hm : g.HasModel m) : g'.HasModel m :=
  Nat.lt_of_lt_of_le hm h.models_size

theorem hasCollection (h : g.Relinks g') {c : Collection} (hc : g.HasCollection c) :
    g'.HasCollection c :=
  Nat.lt_of_lt_of_le hc h.collections_size

theorem key (h : g.Relinks g') (m : Model) : (g'.model m).key = (g.model m).key := by
  rw [h.model m]

theorem record (h : g.Relinks g') (m : Model) : (g'.model m).record = (g.model m).record := by
  rw [h.model m]

theorem modelType (h : g.Relinks g') (m : Model) :
    (g'.model m).modelType = (g.model m).modelType := by
  rw [h.model m]

theorem setModel (g : Graph σ) (m : Model) (parents : OrderedMap String Model)
    (children : OrderedMap String Collection) :
    g.Relinks (g.setModel m { g.model m with parents := parents, children := children }) where
  store := rfl
  registry := rfl
  sessions := rfl
  models_size := Cells.size_le_size_set _ _ _
  collections_size := Nat.le_refl _
  model n := by
    rw [model_setModel]
    split
    · rename_i hmn
      rw [hmn]
    · rfl

theorem setCollection (g : Graph σ) (c : Collection) (d : CollectionData) :
    g.Relinks (g.setCollection c d) :=
  ⟨rfl, rfl, rfl, Nat.le_refl _, Cells.size_le_size_set _ _ _, fun _ => rfl⟩

theorem addCollection (g : Graph σ) (d : CollectionData) : g.Relinks (g.addCollection d) :=
  ⟨rfl, rfl, rfl, Nat.le_refl _, by simp [Graph.addCollection], fun _ => rfl⟩

end Relinks

/-- The unsaved models that a model has loaded in a collection, in order. -/
def unsavedChildren (g : Graph σ) (m : Model) (name : String) : List Model :=
  match (g.model m).children.get? name with
  | some c => (g.collection c).members.values.filter fun x => (g.model x).record.isNew
  | none => []

end Graph

namespace Fetching

variable {plan : Plan} {g g' : Graph σ}

/-- Carrying over unsaved members fills a collection that was just made. -/
theorem returns_carryOver {fresh : Collection} {pending : List Model} {d : CollectionData}
    {u : PUnit} (hfresh : fresh = g.nextCollection)
    (h : Returns (pending.forM fun m => do if ← m.isNew then fresh.put m) (g.addCollection d) u
      g') :
    ∃ membership, g' = g.addCollection
      { d with
        membership := membership
        members := d.members.insertAll (fun m => (g.model m).key)
          (pending.filter fun m => (g.model m).record.isNew) } := by
  subst hfresh
  refine h.forM_invariant (fun done t => ∃ membership, t = g.addCollection
    { d with
      membership := membership
      members := d.members.insertAll (fun m => (g.model m).key)
        (done.filter fun m => (g.model m).record.isNew) }) ⟨d.membership, rfl⟩ ?_
  rintro done m rest t t' - ⟨membership, rfl⟩ hturn
  simp only [returns_bind, Model.returns_isNew, Graph.model_addCollection, and_assoc,
    exists_eq_left] at hturn
  rw [List.filter_append]
  by_cases hnew : (g.model m).record.isNew = true
  · rw [if_pos hnew] at hturn
    obtain ⟨membership', rfl⟩ := Collection.returns_put hturn
    have hlast : [m].filter (fun m => (g.model m).record.isNew) = [m] := by
      simp [hnew]
    refine ⟨membership', ?_⟩
    rw [Graph.setCollection_addCollection, Graph.collection_addCollection, if_pos rfl, hlast,
      OrderedMap.insertAll_concat]
    rfl
  · rw [if_neg hnew, returns_pure] at hturn
    have hlast : [m].filter (fun m => (g.model m).record.isNew) = [] := by
      simp [hnew]
    rw [hlast, List.append_nil]
    exact ⟨membership, hturn.1⟩

/-- A reset loads a new collection, filled with the unsaved members of the old one. -/
theorem returns_resetChildren {m : Model} {u : Unit}
    (hmade : ∀ c, (g.model m).children.get? plan.resolved.name = some c → g.HasCollection c)
    (h : Returns (resetChildren plan m) g u g') :
    ∃ membership, g' = (g.addCollection
        ⟨plan.session, membership,
          OrderedMap.empty.insertAll (fun x => (g.model x).key)
            (g.unsavedChildren m plan.resolved.name),
          OrderedMap.empty⟩).setModel m
      { g.model m with
        children := (g.model m).children.insert plan.resolved.name g.nextCollection } := by
  simp only [resetChildren, returns_bind] at h
  obtain ⟨fresh, _, hmake, previous, _, hcached, h⟩ := h
  obtain ⟨rfl, membership, rfl⟩ := Collection.returns_forRelationship hmake
  rw [Model.returns_cachedChildren] at hcached
  obtain ⟨rfl, rfl⟩ := hcached
  rw [Graph.model_addCollection] at h
  unfold Graph.unsavedChildren
  cases hprevious : (g.model m).children.get? plan.resolved.name with
  | none =>
      simp only [hprevious, Model.returns_setChildren, Graph.model_addCollection] at h
      exact ⟨membership, h⟩
  | some c =>
      have hold := (hmade c hprevious).ne_nextCollection
      simp only [hprevious, returns_bind, Collection.returns_models,
        Graph.collection_addCollection, if_neg hold, and_assoc, exists_eq_left,
        Model.returns_setChildren] at h
      obtain ⟨⟨⟩, between, hcarry, rfl⟩ := h
      obtain ⟨membership', rfl⟩ := returns_carryOver rfl hcarry
      exact ⟨membership', rfl⟩

end Fetching

/-! ## Several members -/

/-- The relationship `name` was unloaded on the members and on no other model. Where it is
single, a parent is gone; else each member has a new collection of its own, which holds the
unsaved models of the old one. Collections that were there before did not change. -/
structure Graph.Unloaded (g g' : Graph σ) (name : String) (single : Bool)
    (members : List Model) : Prop where
  relinks : g.Relinks g'
  collection : ∀ c, g.HasCollection c → g'.collection c = g.collection c
  others : ∀ m, m ∉ members → g'.model m = g.model m
  parents : ∀ m ∈ members, (g'.model m).parents =
    if single then (g.model m).parents.erase name else (g.model m).parents
  children : single = true → ∀ m, (g'.model m).children = (g.model m).children
  fresh : single = false → ∀ m ∈ members, ∃ c,
    (g'.model m).children = (g.model m).children.insert name c ∧
      ¬ g.HasCollection c ∧ g'.HasCollection c ∧
      (g'.collection c).members =
        OrderedMap.empty.insertAll (fun x => (g.model x).key) (g.unsavedChildren m name) ∧
      (g'.collection c).snapshot = OrderedMap.empty
  apart : single = false → ∀ m ∈ members, ∀ n ∈ members, ∀ c,
    (g'.model m).children.get? name = some c → (g'.model n).children.get? name = some c → m = n

namespace Graph.Unloaded

variable {g t t' : Graph σ} {plan : Fetching.Plan} {name : String} {single : Bool}
  {done more : List Model} {m : Model}

theorem refl (g : Graph σ) (name : String) (single : Bool) : g.Unloaded g name single [] where
  relinks := .refl g
  collection _ _ := rfl
  others _ _ := rfl
  parents := by simp
  children _ _ := rfl
  fresh := by simp
  apart := by simp

/-- Unsaved models of a member that had no turn yet are still the same. -/
theorem unsavedChildren_eq (h : g.Unloaded t name single done) (hm : m ∉ done)
    (hmade : ∀ c, (g.model m).children.get? name = some c → g.HasCollection c) :
    t.unsavedChildren m name = g.unsavedChildren m name := by
  unfold unsavedChildren
  rw [h.others m hm]
  cases hold : (g.model m).children.get? name with
  | none => rfl
  | some c => simp only [h.collection c (hmade c hold), h.relinks.record]

/-- A collection that a member has after its turn was made by then. -/
theorem hasCollection_of_mem (h : g.Unloaded t name false done) (hm : m ∈ done) {c : Collection}
    (hc : (t.model m).children.get? name = some c) : t.HasCollection c := by
  obtain ⟨made, hchildren, -, hhas, -⟩ := h.fresh rfl m hm
  rw [hchildren, OrderedMap.get?_insert, if_pos rfl] at hc
  exact Option.some.inj hc ▸ hhas

/-- No collection of a later turn is one that was there before. -/
theorem not_hasCollection_of_mem (h : g.Unloaded t name false done) (hm : m ∈ done)
    {c : Collection} (hc : (t.model m).children.get? name = some c) : ¬ g.HasCollection c := by
  obtain ⟨made, hchildren, hnew, -⟩ := h.fresh rfl m hm
  rw [hchildren, OrderedMap.get?_insert, if_pos rfl] at hc
  exact Option.some.inj hc ▸ hnew

/-- Members unloaded one after the other are unloaded together. -/
theorem trans (first : g.Unloaded t name single done) (second : t.Unloaded t' name single more)
    (hdisjoint : ∀ m ∈ done, m ∉ more)
    (hmade : ∀ m ∈ more, ∀ c, (g.model m).children.get? name = some c → g.HasCollection c) :
    g.Unloaded t' name single (done ++ more) where
  relinks := first.relinks.trans second.relinks
  collection c hc := by
    rw [second.collection c (first.relinks.hasCollection hc), first.collection c hc]
  others m hm := by
    rw [List.mem_append, not_or] at hm
    rw [second.others m hm.2, first.others m hm.1]
  parents m hm := by
    rcases List.mem_append.mp hm with hm | hm
    · rw [second.others m (hdisjoint m hm), first.parents m hm]
    · rw [second.parents m hm, first.others m fun hdone => hdisjoint m hdone hm]
  children hsingle m := by
    rw [second.children hsingle, first.children hsingle]
  fresh hmany m hm := by
    rcases List.mem_append.mp hm with hm | hm
    · obtain ⟨c, hchildren, hnew, hhas, hmembers, hsnapshot⟩ := first.fresh hmany m hm
      refine ⟨c, ?_, hnew, second.relinks.hasCollection hhas, ?_, ?_⟩
      · rw [second.others m (hdisjoint m hm), hchildren]
      · rw [second.collection c hhas, hmembers]
      · rw [second.collection c hhas, hsnapshot]
    · have hout : m ∉ done := fun hdone => hdisjoint m hdone hm
      have hkeys : (fun x => (t.model x).key) = fun x => (g.model x).key :=
        funext first.relinks.key
      obtain ⟨c, hchildren, hnew, hhas, hmembers, hsnapshot⟩ := second.fresh hmany m hm
      rw [first.others m hout] at hchildren
      rw [first.unsavedChildren_eq hout (hmade m hm), hkeys] at hmembers
      exact ⟨c, hchildren, fun hold => hnew (first.relinks.hasCollection hold), hhas, hmembers,
        hsnapshot⟩
  apart hmany m hm n hn c hmc hnc := by
    subst hmany
    rcases List.mem_append.mp hm with hm | hm
    · rw [second.others m (hdisjoint m hm)] at hmc
      rcases List.mem_append.mp hn with hn | hn
      · rw [second.others n (hdisjoint n hn)] at hnc
        exact first.apart rfl m hm n hn c hmc hnc
      · exact absurd (first.hasCollection_of_mem hm hmc) (second.not_hasCollection_of_mem hn hnc)
    · rcases List.mem_append.mp hn with hn | hn
      · rw [second.others n (hdisjoint n hn)] at hnc
        exact absurd (first.hasCollection_of_mem hn hnc) (second.not_hasCollection_of_mem hm hmc)
      · exact second.apart rfl m hm n hn c hmc hnc

/-- Unloading a single parent. -/
theorem of_removeParent (hrun : Returns (m.removeParent name) g () t) :
    g.Unloaded t name true [m] := by
  rw [Model.returns_removeParent] at hrun
  subst hrun
  exact
    { relinks := .setModel g m _ _
      collection := fun _ _ => rfl
      others := by
        intro n hn
        rw [model_setModel, if_neg (Ne.symm (List.ne_of_not_mem_cons hn))]
      parents := by simp
      children := by
        intro _ n
        rw [model_setModel]
        split
        · rename_i hmn
          rw [hmn]
        · rfl
      fresh := by simp
      apart := by simp }

/-- Unloading a collection. -/
theorem of_resetChildren
    (hmade : ∀ c, (g.model m).children.get? plan.resolved.name = some c → g.HasCollection c)
    (hrun : Returns (Fetching.resetChildren plan m) g () t) :
    g.Unloaded t plan.resolved.name false [m] := by
  obtain ⟨membership, rfl⟩ := Fetching.returns_resetChildren hmade hrun
  exact
    { relinks := (Relinks.addCollection g _).trans (.setModel (g.addCollection _) m _ _)
      collection := by
        intro c hc
        rw [collection_setModel, collection_addCollection, if_neg hc.ne_nextCollection]
      others := by
        intro n hn
        rw [model_setModel, if_neg (Ne.symm (List.ne_of_not_mem_cons hn)), model_addCollection]
      parents := by simp
      children := by simp
      fresh := by
        intro _ n hn
        rw [List.mem_singleton.mp hn]
        exact ⟨g.nextCollection, by simp, g.not_hasCollection_nextCollection,
          g.hasCollection_nextCollection _, by simp, by simp⟩
      apart := by
        intro _ n hn n' hn' _ _ _
        rw [List.mem_singleton.mp hn, List.mem_singleton.mp hn'] }

/-- One more turn. -/
theorem concat (h : g.Unloaded t name single done) (hm : m ∉ done)
    (hmade : ∀ c, (g.model m).children.get? name = some c → g.HasCollection c)
    (hlast : t.Unloaded t' name single [m]) : g.Unloaded t' name single (done ++ [m]) := by
  refine h.trans hlast (fun n hn hnm => ?_) fun n hn => ?_
  · exact hm (List.mem_singleton.mp hnm ▸ hn)
  · rw [List.mem_singleton.mp hn]
    exact hmade

/-- Unloading one more collection. -/
theorem reset (h : g.Unloaded t plan.resolved.name false done) (hm : m ∉ done)
    (hmade : ∀ c, (g.model m).children.get? plan.resolved.name = some c → g.HasCollection c)
    (hrun : Returns (Fetching.resetChildren plan m) t () t') :
    g.Unloaded t' plan.resolved.name false (done ++ [m]) := by
  refine h.concat hm hmade (.of_resetChildren (fun c hc => ?_) hrun)
  rw [h.others m hm] at hc
  exact h.relinks.hasCollection (hmade c hc)

end Graph.Unloaded

namespace Graph

/-- The identifiers that a model holds in a foreign key. -/
def keyIds (g : Graph σ) (k : ForeignKey) (m : Model) : List String :=
  (g.model m).record.referenceIds k.field k.column

theorem Relinks.keyIds {g g' : Graph σ} (h : g.Relinks g') (k : ForeignKey) (m : Model) :
    g'.keyIds k m = g.keyIds k m := by
  rw [Graph.keyIds, Graph.keyIds, h.record]

end Graph

namespace Graph

/-- No two members are stored under one identifier. -/
def DistinctIds (g : Graph σ) (members : List Model) : Prop :=
  ∀ m ∈ members, ∀ n ∈ members, ∀ id, (g.model m).record.id = some id →
    (g.model n).record.id = some id → m = n

/-- No two members have one key. -/
def DistinctKeys (g : Graph σ) (members : List Model) : Prop :=
  ∀ m ∈ members, ∀ n ∈ members, (g.model m).key = (g.model n).key → m = n

instance (g : Graph σ) (members : List Model) : Decidable (g.DistinctIds members) :=
  decidable_of_iff (∀ m ∈ members, ∀ n ∈ members, (g.model m).record.id.isSome = true →
      (g.model m).record.id = (g.model n).record.id → m = n) <| by
    constructor
    · intro h m hm n hn id hmid hnid
      exact h m hm n hn (by rw [hmid, Option.isSome_some]) (hmid.trans hnid.symm)
    · intro h m hm n hn hsome hsame
      obtain ⟨id, hid⟩ := Option.isSome_iff_exists.mp hsome
      exact h m hm n hn id hid (hsame ▸ hid)

instance (g : Graph σ) (members : List Model) : Decidable (g.DistinctKeys members) :=
  inferInstanceAs (Decidable (∀ m ∈ members, ∀ n ∈ members,
    (g.model m).key = (g.model n).key → m = n))

section Transport

variable {g g' : Graph σ} {members : List Model} (hsame : ∀ m ∈ members, g'.model m = g.model m)

include hsame

theorem DistinctIds.of_model_eq (h : g.DistinctIds members) : g'.DistinctIds members := by
  intro m hm n hn id hmid hnid
  rw [hsame m hm] at hmid
  rw [hsame n hn] at hnid
  exact h m hm n hn id hmid hnid

theorem DistinctKeys.of_model_eq (h : g.DistinctKeys members) : g'.DistinctKeys members := by
  intro m hm n hn hkey
  rw [hsame m hm, hsame n hn] at hkey
  exact h m hm n hn hkey

end Transport

/-- What a fetch asks of its members: each is named once, and they and what they have loaded
were made in the graph. -/
structure Fetchable (g : Graph σ) (name : String) (members : List Model) : Prop where
  nodup : members.Nodup
  known : ∀ m ∈ members, g.HasModel m
  made : ∀ m ∈ members, ∀ c, (g.model m).children.get? name = some c → g.HasCollection c

theorem Fetchable.filter {g : Graph σ} {name : String} {members : List Model}
    (h : g.Fetchable name members) (p : Model → Bool) : g.Fetchable name (members.filter p) where
  nodup := h.nodup.filter _
  known m hm := h.known m (List.mem_filter.mp hm).1
  made m hm := h.made m (List.mem_filter.mp hm).1

end Graph

namespace Fetching

variable {plan : Plan} {g g' : Graph σ} {members : List Model}

/-- The model's own type declares the relationship with the key of the plan. -/
def Plan.OwnKey (plan : Plan) (g : Graph σ) (m : Model) : Prop :=
  ∀ r k, (g.model m).modelType.relationship plan.resolved.name = .ok r → r.foreignKey = .ok k →
    k = plan.resolved.foreignKey

/-- Reading the foreign key of a member answers its identifiers and changes nothing. -/
theorem returns_parentIds_of_ownKey {t t' : Graph σ} {m : Model} {ids : List String}
    (hrelinks : g.Relinks t) (hkey : plan.OwnKey g m)
    (h : Returns (m.parentIds plan.resolved.name) t ids t') :
    t' = t ∧ ids = g.keyIds plan.resolved.foreignKey m := by
  rw [Model.returns_parentIds, hrelinks.modelType, hrelinks.record] at h
  obtain ⟨rfl, r, k, hr, hk, rfl⟩ := h
  rw [hkey r k hr hk]
  exact ⟨rfl, rfl⟩

/-- Unloading parents answers, member by member, the identifiers in the foreign key. -/
theorem returns_unloadParents {idss : List (List String)}
    (hmembers : g.Fetchable plan.resolved.name members) (hkey : ∀ m ∈ members, plan.OwnKey g m)
    (h : Returns (members.mapM (unloadParents plan)) g idss g') :
    g.Unloaded g' plan.resolved.name (plan.resolved.cardinality = .single) members ∧
      idss = members.map (g.keyIds plan.resolved.foreignKey) := by
  refine h.mapM_invariant (fun done idss t =>
    g.Unloaded t plan.resolved.name (plan.resolved.cardinality = .single) done ∧
      idss = done.map (g.keyIds plan.resolved.foreignKey)) ⟨.refl g _ _, rfl⟩ ?_
  rintro done m rest idss t ids t' rfl ⟨hdone, rfl⟩ hturn
  have hm : m ∉ done := by
    intro hmem
    exact (List.nodup_append.mp hmembers.nodup).2.2 m hmem m (by simp) rfl
  have hnext : ∃ between, Returns (m.parentIds plan.resolved.name) between ids t' ∧
      g.Unloaded between plan.resolved.name (plan.resolved.cardinality = .single)
        (done ++ [m]) := by
    unfold unloadParents at hturn
    by_cases hsingle : plan.resolved.cardinality = .single
    · rw [if_pos hsingle, returns_bind] at hturn
      obtain ⟨⟨⟩, between, hremove, hids⟩ := hturn
      simp only [hsingle, decide_true] at hdone ⊢
      exact ⟨between, hids, hdone.concat hm (hmembers.made m (by simp)) (.of_removeParent hremove)⟩
    · rw [if_neg hsingle, returns_bind] at hturn
      obtain ⟨⟨⟩, between, hreset, hids⟩ := hturn
      simp only [hsingle, decide_false] at hdone ⊢
      exact ⟨between, hids, hdone.reset hm (hmembers.made m (by simp)) hreset⟩
  obtain ⟨between, hids, hunloaded⟩ := hnext
  obtain ⟨rfl, rfl⟩ := returns_parentIds_of_ownKey hunloaded.relinks (hkey m (by simp)) hids
  exact ⟨hunloaded, by simp⟩

/-- One more stored member by its identifier. -/
theorem get?_insert_owner {owners : OrderedMap String Model} {done : List Model} {m : Model}
    {own : String} (hown : (g.model m).record.id = some own)
    (honly : ∀ n ∈ done, (g.model n).record.id = some own → m = n)
    (howners : ∀ id n, owners.get? id = some n ↔ n ∈ done ∧ (g.model n).record.id = some id)
    (id : String) (n : Model) : (owners.insert own m).get? id = some n ↔
      n ∈ done ++ [m] ∧ (g.model n).record.id = some id := by
  rw [OrderedMap.get?_insert, List.mem_append, List.mem_singleton]
  by_cases hsame : own = id
  · subst hsame
    rw [if_pos rfl, Option.some.injEq]
    constructor
    · rintro rfl
      exact ⟨.inr rfl, hown⟩
    · rintro ⟨hn | rfl, hid⟩
      · exact honly n hn hid
      · rfl
  · rw [if_neg hsame, howners]
    constructor
    · rintro ⟨hn, hid⟩
      exact ⟨.inl hn, hid⟩
    · rintro ⟨hn | rfl, hid⟩
      · exact ⟨hn, hid⟩
      · exact absurd (Option.some.inj (hown.symm.trans hid)) hsame

/-- Unloading children answers the stored members by their identifiers. -/
theorem returns_unloadChildren {owners : OrderedMap String Model}
    (hmembers : g.Fetchable plan.resolved.name members) (hids : g.DistinctIds members)
    (h : Returns (unloadChildren plan members) g owners g') :
    g.Unloaded g' plan.resolved.name false members ∧
      ∀ id m, owners.get? id = some m ↔ m ∈ members ∧ (g.model m).record.id = some id := by
  refine h.foldlM_invariant (fun done owners t =>
    g.Unloaded t plan.resolved.name false done ∧
      ∀ id m, owners.get? id = some m ↔ m ∈ done ∧ (g.model m).record.id = some id)
    ⟨.refl g _ _, by simp⟩ ?_
  rintro done m rest owners t owners' t' rfl ⟨hdone, howners⟩ hturn
  have hm : m ∉ done := by
    intro hmem
    exact (List.nodup_append.mp hmembers.nodup).2.2 m hmem m (by simp) rfl
  simp only [returns_bind] at hturn
  obtain ⟨⟨⟩, between, hreset, id, _, hid, hanswer⟩ := hturn
  have hunloaded := hdone.reset hm (hmembers.made m (by simp)) hreset
  rw [Model.returns_id, hunloaded.relinks.record] at hid
  obtain ⟨rfl, rfl⟩ := hid
  cases hid : (g.model m).record.id with
  | none =>
      simp only [hid, returns_pure] at hanswer
      obtain ⟨rfl, rfl⟩ := hanswer
      refine ⟨hunloaded, fun id n => ?_⟩
      rw [howners, List.mem_append, List.mem_singleton]
      constructor
      · rintro ⟨hn, hid'⟩
        exact ⟨.inl hn, hid'⟩
      · rintro ⟨hn | rfl, hid'⟩
        · exact ⟨hn, hid'⟩
        · rw [hid] at hid'
          simp at hid'
  | some own =>
      simp only [hid, returns_pure] at hanswer
      obtain ⟨rfl, rfl⟩ := hanswer
      refine ⟨hunloaded, get?_insert_owner hid (fun n hn hid' => ?_) howners⟩
      exact hids m (by simp) n (List.mem_append_left _ hn) own hid hid'

end Fetching

end RecordGraph
