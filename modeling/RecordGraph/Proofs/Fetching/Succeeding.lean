/-
# Fetches that answer

With the store in memory a relationship of a model on which nothing is loaded can be fetched,
and then read, unless a far model cannot be told the way back. Asking never fails: the batches
are sound queries, and every answer is wrapped or passed over. Handing over fails only where a
collection does not admit a model, or cannot be made because the relationship does not resolve.
The first never happens, because a collection that was made for a relationship admits the models
of all its far types, and letting one in changes nothing of that.
-/
import RecordGraph.Proofs.CheckedRegistries
import RecordGraph.Proofs.Connecting.Symmetry
import RecordGraph.Proofs.Fetching.Parents
import RecordGraph.Proofs.Saving.Records

namespace RecordGraph

variable {σ : Type}

/-! ## What collections admit -/

theorem Registry.membershipFor_of_cons {registry : Registry} {r : Resolved} {first : String}
    {rest : List String} {t : ModelType} (hfars : r.farTypes = first :: rest)
    (ht : registry.get first = .ok t) : registry.membershipFor r =
      .ok (if r.polymorphic then .ofEntity (some t.entityType) else .ofType t) := by
  simp only [membershipFor, hfars, ht]
  rfl

theorem Registry.exists_membershipFor_of_ne_nil {registry : Registry} (hwf : registry.WellFormed)
    {typeName name : String} {r : Resolved} (h : registry.resolve typeName name = .ok r)
    (hsome : r.farTypes ≠ []) : ∃ membership, registry.membershipFor r = .ok membership := by
  obtain ⟨first, rest, hfars⟩ := List.exists_cons_of_ne_nil hsome
  obtain ⟨t, ht⟩ := get_of_mem_farTypes hwf h (show first ∈ r.farTypes by simp [hfars])
  exact ⟨_, membershipFor_of_cons hfars ht⟩

/-- A collection for the far models of a relationship admits the models of every far type. -/
theorem Registry.Checked.exists_membershipFor {registry : Registry} (hchecked : registry.Checked)
    (hwf : registry.WellFormed) {typeName name : String} {r : Resolved}
    (h : registry.resolve typeName name = .ok r) {far : ModelType}
    (hfar : registry.get far.name = .ok far) (hleads : far.name ∈ r.farTypes) :
    ∃ membership, registry.membershipFor r = .ok membership ∧ membership.Admits far := by
  obtain ⟨first, rest, hfars⟩ := List.exists_cons_of_ne_nil (List.ne_nil_of_mem hleads)
  obtain ⟨t, ht⟩ := get_of_mem_farTypes hwf h (show first ∈ r.farTypes by simp [hfars])
  refine ⟨_, membershipFor_of_cons hfars ht, ?_⟩
  cases hchoice : r.polymorphic with
  | true =>
      have hsame := hchecked.entityType_of_farTypes hwf h (by simp [hfars]) hleads ht hfar
      simp [Membership.Admits, hsame]
  | false =>
      obtain ⟨only, honly⟩ := exists_farTypes_singleton hwf h hchoice
      obtain rfl : first = far.name := by
        rw [honly] at hfars hleads
        rw [List.mem_singleton.mp hleads, (List.cons.inj hfars).1]
      simp [Membership.Admits, Except.ok.inj (ht.symm.trans hfar)]

namespace Collection

variable {g g' : Graph σ} {c : Collection} {m : Model}

theorem returns_forRelationship_of_membership {s : Session} {r : Resolved}
    {membership : Membership} (h : g.registry.membershipFor r = .ok membership) :
    Returns (forRelationship s r) g g.nextCollection
      (g.addCollection ⟨s, membership, OrderedMap.empty, OrderedMap.empty⟩) := by
  unfold Registry.membershipFor at h
  unfold forRelationship
  cases hfars : r.farTypes with
  | nil =>
      rw [hfars] at h
      cases h
  | cons far rest =>
      rw [hfars, except_bind_eq_ok] at h
      obtain ⟨t, ht, hmembership⟩ := h
      obtain rfl := except_pure_eq_ok.mp hmembership
      simp only [returns_bind, returns_get, returns_ofExcept]
      refine ⟨g, g, ⟨rfl, rfl⟩, t, g, ⟨rfl, ht⟩, ?_⟩
      split
      · exact returns_make.mpr ⟨rfl, rfl⟩
      · exact returns_make.mpr ⟨rfl, rfl⟩

/-- A model of an admitted type is let in. -/
theorem returns_accept_of_admits
    (h : (g.collection c).membership.Admits (g.model m).modelType) :
    Returns (c.accept m) g () g := by
  simp only [accept, returns_bind, Model.returns_modelType, returns_data, and_assoc,
    exists_eq_left]
  cases hmembership : (g.collection c).membership with
  | ofType own =>
      rw [hmembership] at h
      have hname : own.name = (g.model m).modelType.name := h
      simp [hname]
  | ofEntity entityType =>
      rw [hmembership] at h
      obtain rfl : entityType = some (g.model m).modelType.entityType := h
      simp

theorem returns_put_of_admits
    (h : (g.collection c).membership.Admits (g.model m).modelType) :
    Returns (c.put m) g () (g.setCollection c
      { g.collection c with
        members := (g.collection c).members.insert (g.model m).key m }) := by
  simp only [put, returns_bind, Model.returns_key, returns_update]
  exact ⟨(), g, returns_accept_of_admits h, _, g, ⟨rfl, rfl⟩, rfl⟩

theorem returns_putFetched_of_admits
    (h : (g.collection c).membership.Admits (g.model m).modelType) :
    Returns (c.putFetched m) g () (g.setCollection c
      { g.collection c with
        snapshot := (g.collection c).snapshot.insert (g.model m).key m
        members := (g.collection c).members.insert (g.model m).key m }) := by
  simp only [putFetched, returns_bind, Model.returns_key, returns_update]
  exact ⟨(), g, returns_accept_of_admits h, _, g, ⟨rfl, rfl⟩, rfl⟩

end Collection

/-! ## Handing over -/

namespace Graph

/-- A collection for what the first model leads to under the name admits the second one. -/
def MayHold (g : Graph σ) (x : Model) (name : String) (y : Model) : Prop :=
  ∃ r membership, g.registry.resolve (g.model x).modelType.name name = .ok r ∧
    g.registry.membershipFor r = .ok membership ∧ membership.Admits (g.model y).modelType

/-- What is loaded on these models are collections that were made for the relationships. -/
def Fitted (g : Graph σ) (near : Model → Prop) : Prop :=
  ∀ x, near x → ∀ name c, (g.model x).children.get? name = some c → g.HasCollection c ∧
    ∃ r, g.registry.resolve (g.model x).modelType.name name = .ok r ∧
      g.registry.membershipFor r = .ok (g.collection c).membership

variable {g t : Graph σ} {near : Model → Prop} {x y : Model} {name : String}

theorem MayHold.of_relinks (h : g.MayHold x name y) (hrelinks : g.Relinks t) :
    t.MayHold x name y := by
  obtain ⟨r, membership, hr, hmembership, hadmits⟩ := h
  refine ⟨r, membership, ?_, ?_, ?_⟩
  · rw [hrelinks.registry, hrelinks.modelType, hr]
  · rw [hrelinks.registry, hmembership]
  · rw [hrelinks.modelType]
    exact hadmits

namespace Fitted

/-- The collections, and where they are loaded, are as before. -/
theorem of_children (h : g.Fitted near) (hregistry : t.registry = g.registry)
    (hmodel : ∀ z, (t.model z).children = (g.model z).children ∧
      (t.model z).modelType = (g.model z).modelType)
    (hcollections : t.collections = g.collections) : t.Fitted near := by
  intro z hz other c hc
  rw [(hmodel z).1] at hc
  rw [(hmodel z).2, hregistry, HasCollection, collection, hcollections]
  exact h z hz other c hc

theorem setModel_parents (h : g.Fitted near) (m : Model) (parents : OrderedMap String Model) :
    (g.setModel m { g.model m with parents := parents }).Fitted near := by
  refine h.of_children rfl (fun z => ?_) rfl
  rw [model_setModel]
  split
  · rename_i hmz
    exact ⟨by rw [hmz], by rw [hmz]⟩
  · exact ⟨rfl, rfl⟩

theorem setCollection (h : g.Fitted near) {c : Collection} {d : CollectionData}
    (hsame : d.membership = (g.collection c).membership) : (g.setCollection c d).Fitted near := by
  intro z hz other e he
  obtain ⟨hmade, r, hr, hmembership⟩ := h z hz other e he
  refine ⟨(Relinks.setCollection g c d).hasCollection hmade, r, hr, ?_⟩
  rw [collection_setCollection]
  split
  · rename_i hce
    rw [hsame, hce]
    exact hmembership
  · exact hmembership

theorem openSlot (h : g.Fitted near) {r : Resolved} {membership : Membership}
    (hr : g.registry.resolve (g.model x).modelType.name name = .ok r)
    (hmembership : g.registry.membershipFor r = .ok membership) :
    (g.openSlot x name membership).Fitted near := by
  intro z hz other c hc
  have hrelinks := Relinks.openSlot g x name membership
  rw [hrelinks.modelType, hrelinks.registry]
  rw [children_openSlot] at hc
  split at hc
  · rename_i hslot
    obtain ⟨rfl, rfl⟩ := hslot
    obtain rfl := Option.some.inj hc
    refine ⟨g.hasCollection_nextCollection _, r, hr, ?_⟩
    simpa [Graph.openSlot] using hmembership
  · obtain ⟨hmade, s, hs, hother⟩ := h z hz other c hc
    exact ⟨hrelinks.hasCollection hmade, s, hs, by rwa [collection_openSlot hmade]⟩

/-- The collection for a relationship is there, or can be made. -/
theorem exists_children (h : g.Fitted near) (hx : near x) {r : Resolved} {membership : Membership}
    (hr : g.registry.resolve (g.model x).modelType.name name = .ok r)
    (hmembership : g.registry.membershipFor r = .ok membership) :
    ∃ c t, Returns (x.children name) g c t ∧ t.Fitted near ∧ g.Relinks t ∧
      (t.collection c).membership = membership := by
  cases hloaded : (g.model x).children.get? name with
  | some c =>
      obtain ⟨-, s, hs, hmade⟩ := h x hx name c hloaded
      obtain rfl := Except.ok.inj (hs.symm.trans hr)
      exact ⟨c, g, Model.returns_children_of_loaded hloaded, h, .refl g,
        Except.ok.inj (hmade.symm.trans hmembership)⟩
  | none =>
      have hopened := Model.returns_childrenOr_of_made hloaded
        (Collection.returns_forRelationship_of_membership hmembership)
      exact ⟨g.nextCollection, g.openSlot x name membership,
        Model.returns_children_of_none hloaded hr hopened, h.openSlot hr hmembership,
        .openSlot g x name membership, by simp [Graph.openSlot]⟩

/-- A collection that may hold a model admits it. -/
theorem exists_admitting (h : g.Fitted near) (hx : near x) (hholds : g.MayHold x name y) :
    ∃ c t, Returns (x.children name) g c t ∧ t.Fitted near ∧ g.Relinks t ∧
      (t.collection c).membership.Admits (t.model y).modelType := by
  obtain ⟨r, membership, hr, hmembership, hadmits⟩ := hholds
  obtain ⟨c, opened, hopen, hfitted, hrelinks, hmade⟩ := h.exists_children hx hr hmembership
  rw [← hrelinks.modelType, ← hmade] at hadmits
  exact ⟨c, opened, hopen, hfitted, hrelinks, hadmits⟩

/-- A model that a collection may hold is handed over. -/
theorem exists_handed (h : g.Fitted near) (hx : near x) (hholds : g.MayHold x name y) :
    ∃ t, Returns (do (← x.children name).putFetched y) g () t ∧ t.Fitted near ∧
      g.Relinks t := by
  obtain ⟨c, opened, hopen, hfitted, hrelinks, hadmits⟩ := h.exists_admitting hx hholds
  exact ⟨_, returns_bind.mpr ⟨c, opened, hopen, Collection.returns_putFetched_of_admits hadmits⟩,
    hfitted.setCollection rfl, hrelinks.trans (.setCollection opened c _)⟩

end Fitted

end Graph

namespace Fetching

open RecordGraph.Graph

variable {plan : Plan} {g t : Graph σ} {near : Model → Prop} {m far : Model}

/-- The way back is told if there is one. -/
theorem exists_wayBack (plan : Plan) (far : Model) (tell : String → Action σ Unit)
    (P : Graph σ → Prop) (hnone : P t)
    (htell : ∀ inverse, plan.resolved.inverseOn? (t.model far).modelType.name = some inverse →
      ∃ t', Returns (tell inverse) t () t' ∧ P t') :
    ∃ t', Returns (do
      if let some inverse := plan.resolved.inverseOn? (← far.modelType).name then tell inverse)
      t () t' ∧ P t' := by
  cases hinverse : plan.resolved.inverseOn? (t.model far).modelType.name with
  | none =>
      refine ⟨t, returns_bind.mpr ⟨_, t, Model.returns_modelType.mpr ⟨rfl, rfl⟩, ?_⟩, hnone⟩
      rw [hinverse]
      exact returns_pure.mpr ⟨rfl, rfl⟩
  | some inverse =>
      obtain ⟨t', htold, hP⟩ := htell inverse hinverse
      refine ⟨t', returns_bind.mpr ⟨_, t, Model.returns_modelType.mpr ⟨rfl, rfl⟩, ?_⟩, hP⟩
      rw [hinverse]
      exact htold

/-- A far model is handed to the member that refers to it. -/
theorem exists_attachParent (plan : Plan) (h : t.Fitted near) (hm : near m) (hfar : near far)
    (hstored : (t.model m).record.isNew = false)
    (hown : plan.resolved.cardinality = .multiple → t.MayHold m plan.resolved.name far)
    (hback : ∀ inverse, plan.resolved.inverseOn? (t.model far).modelType.name = some inverse →
      t.MayHold far inverse m) :
    ∃ t', Returns (attachParent plan m far) t () t' ∧ t'.Fitted near ∧ t.Relinks t' := by
  obtain ⟨between, hfirst, hfitted, hrelinks⟩ : ∃ between,
      Returns (if plan.resolved.cardinality = .single then m.setParent plan.resolved.name far
        else do (← m.children plan.resolved.name).putFetched far) t () between ∧
      between.Fitted near ∧ t.Relinks between := by
    cases hcardinality : plan.resolved.cardinality with
    | single =>
        exact ⟨_, Model.returns_setParent.mpr rfl, h.setModel_parents m _, .setModel t m _ _⟩
    | multiple => exact h.exists_handed hm (hown hcardinality)
  obtain ⟨t', hsecond, hfitted', hrelinks'⟩ := exists_wayBack plan far
    (fun inverse => do
      let siblings ← far.children inverse
      if ← m.isNew then siblings.put m else siblings.putFetched m)
    (fun t' => t'.Fitted near ∧ between.Relinks t') ⟨hfitted, .refl between⟩ (by
      intro inverse hinverse
      rw [hrelinks.modelType] at hinverse
      obtain ⟨last, hhand, hlast⟩ :=
        hfitted.exists_handed hfar ((hback inverse hinverse).of_relinks hrelinks)
      obtain ⟨c, opened, hopen, hput⟩ := returns_bind.mp hhand
      refine ⟨last, returns_bind.mpr ⟨c, opened, hopen, returns_bind.mpr ⟨_, opened,
        Model.returns_isNew.mpr ⟨rfl, rfl⟩, ?_⟩⟩, hlast⟩
      rw [(Model.relinks_of_children hopen).record, hrelinks.record, hstored]
      exact hput)
  refine ⟨t', ?_, hfitted', hrelinks.trans hrelinks'⟩
  unfold attachParent
  cases hcardinality : plan.resolved.cardinality with
  | single =>
      rw [hcardinality, if_pos rfl] at hfirst
      rw [if_pos rfl]
      exact returns_bind.mpr ⟨(), between, hfirst, hsecond⟩
  | multiple =>
      rw [hcardinality, if_neg (by simp)] at hfirst
      rw [if_neg (by simp)]
      obtain ⟨c, opened, hopen, hput⟩ := returns_bind.mp hfirst
      exact returns_bind.mpr ⟨c, opened, hopen, returns_bind.mpr ⟨(), between, hput, hsecond⟩⟩

/-- A far model is handed to a member that it refers to. -/
theorem exists_attachChild (plan : Plan) (h : t.Fitted near) (hm : near m) (hfar : near far)
    (hown : t.MayHold m plan.resolved.name far)
    (hback : plan.resolved.cardinality = .multiple → ∀ inverse,
      plan.resolved.inverseOn? (t.model far).modelType.name = some inverse →
        t.MayHold far inverse m) :
    ∃ t', Returns (attachChild plan m far) t () t' ∧ t'.Fitted near ∧ t.Relinks t' := by
  obtain ⟨between, hfirst, hfitted, hrelinks⟩ := h.exists_handed hm hown
  obtain ⟨t', hsecond, hfitted', hrelinks'⟩ := exists_wayBack plan far
    (fun inverse => do
      if plan.resolved.cardinality = .single then far.setParent inverse m
      else (← far.children inverse).putFetched m)
    (fun t' => t'.Fitted near ∧ between.Relinks t') ⟨hfitted, .refl between⟩ (by
      intro inverse hinverse
      rw [hrelinks.modelType] at hinverse
      cases hcardinality : plan.resolved.cardinality with
      | single =>
          exact ⟨_, Model.returns_setParent.mpr rfl, hfitted.setModel_parents far _,
            .setModel between far _ _⟩
      | multiple =>
          exact hfitted.exists_handed hfar
            ((hback hcardinality inverse hinverse).of_relinks hrelinks))
  refine ⟨t', ?_, hfitted', hrelinks.trans hrelinks'⟩
  obtain ⟨c, opened, hopen, hput⟩ := returns_bind.mp hfirst
  exact returns_bind.mpr ⟨c, opened, hopen, returns_bind.mpr ⟨(), between, hput, hsecond⟩⟩

end Fetching

/-! ## Asking -/

/-- A record can always be wrapped. -/
theorem Model.succeeds_forge (s : Session) (u : ModelType) (r : Record) (g : Graph σ) :
    Succeeds (Model.forge s u r) g := by
  unfold Succeeds Model.forge
  cases r.id with
  | some id =>
      simp only [returns_bind, returns_get, returns_set, Session.returns_update, returns_pure]
      exact ⟨_, _, id, g, ⟨rfl, rfl⟩, g, g, ⟨rfl, rfl⟩, ⟨⟩, _, rfl, (), _, rfl, rfl, rfl⟩
  | none =>
      simp only [Session.nextPlaceholder, returns_bind, returns_get, returns_set,
        Session.returns_data, Session.returns_update, returns_pure]
      exact ⟨_, _, _, _, ⟨_, g, ⟨rfl, rfl⟩, (), _, rfl, rfl, rfl⟩, _, _, ⟨rfl, rfl⟩, ⟨⟩, _, rfl,
        (), _, rfl, rfl, rfl⟩

theorem ModelQuery.succeeds_wrap (q : ModelQuery) (s : Session) (r : Record) (g : Graph σ) :
    Succeeds (q.wrap s r) g := by
  unfold ModelQuery.wrap
  cases q.wrapping.typeFor? r with
  | some u => exact (Model.succeeds_forge s u r g).bind fun m t _ => succeeds_pure _ t
  | none => exact succeeds_pure none g

theorem ModelQuery.succeeds_wrapAll (q : ModelQuery) (s : Session) (rs : List Record)
    (g : Graph σ) : Succeeds (q.wrapAll s rs) g :=
  (Succeeds.mapM (fun r _ t => q.succeeds_wrap s r t) g).bind fun _ t _ => succeeds_pure _ t

namespace Fetching

/-- The far models can always be asked for. -/
theorem succeeds_run {plan : Plan} {entityType path : String} {c : Condition}
    (hquery : plan.query.query = Query.ofBase entityType [c]) (hsound : c.fault? = none)
    (hcondition : plan.condition = (Condition.inList path []).required) (ids : List String)
    (g : Graph MemoryStore) : Succeeds (run plan ids) g := by
  refine Succeeds.bind ⟨_, g, Session.returns_config.mpr ⟨rfl, rfl⟩⟩ fun _ t _ => ?_
  refine Succeeds.foldlM (fun found batch _ t => ?_) OrderedMap.empty t
  have hasked : (batchQuery plan batch).query = Query.ofBase entityType
      [c, (Condition.inList path []).required.withValue (Value.texts batch)] := by
    rw [batchQuery, ModelQuery.map, hquery, hcondition]
    rfl
  have hfetch : Succeeds ((batchQuery plan batch).query.fetch plan.session) t := by
    rw [hasked]
    refine Query.succeeds_fetch_ofBase ?_ plan.session t
    intro d hd
    rcases List.mem_cons.mp hd with rfl | hd
    · exact hsound
    · rw [List.mem_singleton.mp hd]
      rfl
  have hmodels : Succeeds ((batchQuery plan batch).fetchModels plan.session) t :=
    hfetch.bind fun rs t' _ => ModelQuery.succeeds_wrapAll _ _ rs t'
  refine hmodels.bind fun models t' _ => ?_
  exact Succeeds.bind ⟨t', t', returns_get.mpr ⟨rfl, rfl⟩⟩ fun u t'' _ => succeeds_pure _ t''

end Fetching

/-! ## A model with nothing loaded -/

/-- A stored model of a session on which nothing is loaded. -/
structure Graph.Fresh (g : Graph σ) (s : Session) (m : Model) : Prop where
  made : g.HasModel m
  session : (g.model m).session = s
  stored : (g.model m).record.isNew = false
  parents : (g.model m).parents = OrderedMap.empty
  children : (g.model m).children = OrderedMap.empty

namespace Graph

variable {g t : Graph σ} {s : Session} {m x y : Model} {name : String} {far : Model → Prop}

theorem mayHold_of_farTypes (hchecked : g.registry.Checked) (hwf : g.registry.WellFormed)
    {r : Resolved} (hr : g.registry.resolve (g.model x).modelType.name name = .ok r)
    (hy : g.registry.get (g.model y).modelType.name = .ok (g.model y).modelType)
    (hleads : (g.model y).modelType.name ∈ r.farTypes) : g.MayHold x name y := by
  obtain ⟨membership, hmembership, hadmits⟩ :=
    hchecked.exists_membershipFor hwf hr hy hleads
  exact ⟨r, membership, hr, hmembership, hadmits⟩

theorem Fresh.fitted (h : g.Fresh s m) : g.Fitted (· = m) := by
  rintro x rfl other c hc
  rw [h.children] at hc
  cases hc

/-- Forged models have nothing loaded, so nothing is to be checked of them. -/
theorem Fitted.of_forges (h : g.Fitted (· = m)) (hm : g.HasModel m) (hforges : g.OnlyForges t)
    (hfar : ∀ x, far x → (t.model x).children = OrderedMap.empty) :
    t.Fitted fun x => x = m ∨ far x := by
  rintro x (rfl | hx) other c hc
  · rw [hforges.model_eq x hm] at hc ⊢
    obtain ⟨hmade, hrest⟩ := h x rfl other c hc
    rw [hforges.registry, hforges.collection_eq]
    refine ⟨?_, hrest⟩
    rw [HasCollection, hforges.collections]
    exact hmade
  · rw [hfar x hx] at hc
    cases hc

end Graph

namespace Fetching

open RecordGraph.Graph

variable {plan : Plan} {s : Session} {m : Model}

section Unloading

variable {g t : Graph σ} {membership : Membership}

theorem returns_parentIds_of_suits (hg : g.WellFormed) (hm : g.HasModel m)
    (hsuits : plan.Suits g m) (hside : plan.resolved.side = .parent)
    (htype : (t.model m).modelType = (g.model m).modelType)
    (hrecord : (t.model m).record = (g.model m).record) :
    Returns (m.parentIds plan.resolved.name) t (g.keyIds plan.resolved.foreignKey m) t := by
  obtain ⟨u, declared, hu, -, hdeclared, -, -, hresolve⟩ :=
    Registry.declared_of_resolve hg.registry hsuits
  obtain rfl := Except.ok.inj ((hg.typed m hm).symm.trans hu)
  obtain ⟨hkey, -⟩ := Registry.resolveRelationship_parent hresolve hside
  rw [Model.returns_parentIds, htype, hrecord]
  exact ⟨rfl, declared, plan.resolved.foreignKey, hdeclared, hkey, rfl⟩

/-- A collection that was not there is put in place. -/
theorem returns_resetChildren_of_fresh (hfresh : g.Fresh s m) (hsession : plan.session = s)
    (hmembership : g.registry.membershipFor plan.resolved = .ok membership) :
    Returns (resetChildren plan m) g () (g.openSlot m plan.resolved.name membership) := by
  have hnone : (g.model m).children.get? plan.resolved.name = none := by
    rw [hfresh.children, OrderedMap.get?_empty]
  unfold resetChildren
  refine returns_bind.mpr ⟨_, _, Collection.returns_forRelationship_of_membership hmembership, ?_⟩
  refine returns_bind.mpr ⟨none, _, Model.returns_cachedChildren.mpr ⟨rfl, hnone.symm⟩, ?_⟩
  rw [Model.returns_setChildren, openSlot, hfresh.session, hsession]
  rfl

/-- The member that holds the key is unloaded. -/
theorem exists_unloadParents (hg : g.WellFormed) (hfresh : g.Fresh s m)
    (hsession : plan.session = s) (hsuits : plan.Suits g m) (hside : plan.resolved.side = .parent)
    (hmembership : g.registry.membershipFor plan.resolved = .ok membership) :
    ∃ t, Returns (unloadParents plan m) g (g.keyIds plan.resolved.foreignKey m) t ∧
      t.Fitted (· = m) := by
  unfold unloadParents
  cases hcardinality : plan.resolved.cardinality with
  | single =>
      have hrelinks := Relinks.setModel g m ((g.model m).parents.erase plan.resolved.name)
        (g.model m).children
      refine ⟨_, ?_,
        hfresh.fitted.setModel_parents m ((g.model m).parents.erase plan.resolved.name)⟩
      rw [if_pos rfl]
      exact returns_bind.mpr ⟨(), _, Model.returns_removeParent.mpr rfl,
        returns_parentIds_of_suits hg hfresh.made hsuits hside (hrelinks.modelType m)
          (hrelinks.record m)⟩
  | multiple =>
      have hrelinks := Relinks.openSlot g m plan.resolved.name membership
      refine ⟨_, ?_, hfresh.fitted.openSlot hsuits hmembership⟩
      rw [if_neg (by simp)]
      exact returns_bind.mpr ⟨(), _, returns_resetChildren_of_fresh hfresh hsession hmembership,
        returns_parentIds_of_suits hg hfresh.made hsuits hside (hrelinks.modelType m)
          (hrelinks.record m)⟩

/-- The member that the key is to refer to is unloaded. -/
theorem exists_unloadChildren (hfresh : g.Fresh s m) (hsession : plan.session = s)
    (hsuits : plan.Suits g m)
    (hmembership : g.registry.membershipFor plan.resolved = .ok membership) :
    ∃ owners t, Returns (unloadChildren plan [m]) g owners t ∧ t.Fitted (· = m) := by
  obtain ⟨id, hid⟩ : ∃ id, (g.model m).record.id = some id := by
    have hstored := hfresh.stored
    rw [Record.isNew, Option.isNone_eq_false_iff] at hstored
    exact Option.isSome_iff_exists.mp hstored
  have hrelinks := Relinks.openSlot g m plan.resolved.name membership
  refine ⟨OrderedMap.empty.insert id m, _, ?_, hfresh.fitted.openSlot hsuits hmembership⟩
  rw [unloadChildren, List.foldlM_cons]
  refine returns_bind.mpr ⟨_, _, ?_, returns_pure.mpr ⟨rfl, rfl⟩⟩
  refine returns_bind.mpr ⟨(), _, returns_resetChildren_of_fresh hfresh hsession hmembership, ?_⟩
  refine returns_bind.mpr ⟨some id, _, Model.returns_id.mpr ⟨rfl, ?_⟩, returns_pure.mpr ⟨rfl, rfl⟩⟩
  rw [hrelinks.record, hid]

/-- Nothing is kept back. -/
theorem returns_filter_of_fresh (hfresh : g.Fresh s m) :
    Returns ([m].filterM fun x => return !(← holdsUnsavedParent plan x)) g [m] g := by
  have hholds : Returns (holdsUnsavedParent plan m) g false g := by
    unfold holdsUnsavedParent
    split
    · refine returns_bind.mpr ⟨none, g, Model.returns_cachedParent.mpr ⟨rfl, ?_⟩, ?_⟩
      · rw [hfresh.parents, OrderedMap.get?_empty]
      · exact returns_pure.mpr ⟨rfl, rfl⟩
    · exact returns_pure.mpr ⟨rfl, rfl⟩
  rw [List.filterM]
  refine returns_bind.mpr ⟨[m], g, ?_, returns_pure.mpr ⟨rfl, rfl⟩⟩
  rw [List.filterAuxM]
  refine returns_bind.mpr ⟨true, g, returns_bind.mpr ⟨false, g, hholds, returns_pure.mpr
    ⟨rfl, rfl⟩⟩, ?_⟩
  exact returns_pure.mpr ⟨rfl, rfl⟩

end Unloading

namespace Planned

variable {t : ModelType} {name : String}

theorem resolve_declared {registry : Registry} {callers : Option Query}
    {relationship : Relationship} (hwf : registry.WellFormed)
    (hplan : Planned registry s t name callers plan) (ht : registry.get t.name = .ok t)
    (hrelationship : t.relationship name = .ok relationship) :
    registry.resolve relationship.source relationship.name = .ok plan.resolved := by
  obtain ⟨u, declared, hu, -, hdeclared, hname, hsource, -⟩ :=
    Registry.declared_of_resolve hwf hplan.resolved
  obtain rfl := Except.ok.inj (ht.symm.trans hu)
  obtain rfl := Except.ok.inj (hrelationship.symm.trans hdeclared)
  rw [hname, hsource, hplan.resolved]

theorem suits {g : Graph σ} {callers : Option Query} (hwf : g.registry.WellFormed)
    (hplan : Planned g.registry s t name callers plan) (hm : (g.model m).modelType = t) :
    plan.Suits g m := by
  rw [Plan.Suits, hm, hplan.name_eq hwf, hplan.resolved]

/-- A member may hold every model that is wrapped for it. -/
theorem mayHold {ran : Graph σ} {far : Model} (hchecked : ran.registry.Checked)
    (hwf : ran.registry.WellFormed) (hplan : Planned ran.registry s t name none plan)
    (ht : ran.registry.get t.name = .ok t) (hm : (ran.model m).modelType = t)
    (hfar : (ran.model far).modelType ∈ plan.query.wrapping.types) :
    ran.MayHold m plan.resolved.name far := by
  obtain ⟨relationship, q, hrelationship, hq, -, hquery⟩ := hplan.declared
  obtain rfl : plan.query = q := hquery
  have hresolves := hplan.resolve_declared hwf ht hrelationship
  exact mayHold_of_farTypes hchecked hwf (hplan.suits hwf hm)
    (Registry.registered_relationshipQuery hwf hq _ hfar)
    (Registry.mem_farTypes_of_mem_types hwf hresolves hq hfar)

end Planned

section Sides

variable {g : Graph MemoryStore} {t : ModelType} {name : String}

/-- The models under some identifiers are handed over one by one. -/
theorem exists_lookups {g : Graph σ} (lookup : OrderedMap String Model) (ids : List String)
    (attach : Model → Action σ Unit) (Inv : Graph σ → Prop) (start : Inv g)
    (hattach : ∀ id ∈ ids, ∀ x, lookup.get? id = some x → ∀ u, Inv u →
      ∃ u', Returns (attach x) u () u' ∧ Inv u') :
    ∃ last, Returns (ids.forM fun id => do if let some x := lookup.get? id then attach x) g ⟨⟩
      last ∧ Inv last := by
  refine exists_returns_forM Inv start fun id hid u hu => ?_
  cases hx : lookup.get? id with
  | none => exact ⟨u, returns_pure.mpr ⟨rfl, rfl⟩, hu⟩
  | some x => exact hattach id hid x hx u hu

/-- What the key of a stored model refers to can be handed to it, if each side may hold the other.
The loops over the one member and over its identifiers keep collections fitted. -/
theorem succeeds_attachParents {g : Graph σ} {near : Model → Prop} {ids : List String}
    {targets : OrderedMap String Model} (hfitted : g.Fitted near) (hm : near m)
    (hnear : ∀ far ∈ targets.values, near far) (hstored : (g.model m).record.isNew = false)
    (hids : ∀ u, g.Relinks u → Returns (m.parentIds plan.resolved.name) u ids u)
    (hhand : ∀ id ∈ ids, ∀ far, targets.get? id = some far →
      g.MayHold m plan.resolved.name far ∧ ∀ inverse,
        plan.resolved.inverseOn? (g.model far).modelType.name = some inverse →
          g.MayHold far inverse m) :
    Succeeds ([m].forM fun x => do
      (← x.parentIds plan.resolved.name).forM fun id => do
        if let some target := targets.get? id then attachParent plan x target) g := by
  let Inv (u : Graph σ) : Prop := u.Fitted near ∧ g.Relinks u
  suffices hloops : ∃ last, Returns ([m].forM fun x => do
      (← x.parentIds plan.resolved.name).forM fun id => do
        if let some target := targets.get? id then attachParent plan x target) g ⟨⟩ last ∧
      Inv last from
    hloops.elim fun last hlast => ⟨_, last, hlast.1⟩
  refine exists_returns_forM Inv ⟨hfitted, .refl g⟩ ?_
  rintro x hx u ⟨hu, hgu⟩
  obtain rfl := List.mem_singleton.mp hx
  obtain ⟨last, hloop, hlast⟩ := exists_lookups targets ids (attachParent plan x) Inv ⟨hu, hgu⟩
    (by
      rintro id hid far hfar v ⟨hv, hgv⟩
      obtain ⟨hown, hway⟩ := hhand id hid far hfar
      obtain ⟨v', hattach, hv', hvv'⟩ := exists_attachParent plan hv hm
        (hnear far (OrderedMap.mem_values_iff.mpr ⟨id, hfar⟩))
        (by rw [hgv.record, hstored]) (fun _ => hown.of_relinks hgv)
        (fun inverse hinverse =>
          (hway inverse (by rwa [hgv.modelType] at hinverse)).of_relinks hgv)
      exact ⟨v', hattach, hv', hgv.trans hvv'⟩)
  exact ⟨last, returns_bind.mpr ⟨ids, u, hids u hgu, hloop⟩, hlast⟩

/-- Far models can be handed to the one model that they refer to, if it may hold them, and they
it where they have room for several. -/
theorem succeeds_attachChildren {g : Graph σ} {near : Model → Prop}
    {owners children : OrderedMap String Model} (hfitted : g.Fitted near) (hm : near m)
    (hnear : ∀ far ∈ children.values, near far)
    (howners : ∀ id owner, owners.get? id = some owner → owner = m)
    (hhand : ∀ far ∈ children.values, g.MayHold m plan.resolved.name far ∧
      (plan.resolved.cardinality = .multiple → ∀ inverse,
        plan.resolved.inverseOn? (g.model far).modelType.name = some inverse →
          g.MayHold far inverse m)) :
    Succeeds (children.values.forM fun child => do
      ((← child.record).referenceIds plan.resolved.foreignKey.field
        plan.resolved.foreignKey.column).forM fun id => do
          if let some owner := owners.get? id then attachChild plan owner child) g := by
  let Inv (u : Graph σ) : Prop := u.Fitted near ∧ g.Relinks u
  suffices hloops : ∃ last, Returns (children.values.forM fun child => do
      ((← child.record).referenceIds plan.resolved.foreignKey.field
        plan.resolved.foreignKey.column).forM fun id => do
          if let some owner := owners.get? id then attachChild plan owner child) g ⟨⟩ last ∧
      Inv last from
    hloops.elim fun last hlast => ⟨_, last, hlast.1⟩
  refine exists_returns_forM Inv ⟨hfitted, .refl g⟩ ?_
  rintro far hfar u ⟨hu, hgu⟩
  obtain ⟨hown, hway⟩ := hhand far hfar
  obtain ⟨last, hloop, hlast⟩ := exists_lookups owners
    ((u.model far).record.referenceIds plan.resolved.foreignKey.field
      plan.resolved.foreignKey.column) (fun owner => attachChild plan owner far) Inv ⟨hu, hgu⟩
    (by
      rintro id - owner howner v ⟨hv, hgv⟩
      obtain rfl := howners id owner howner
      obtain ⟨v', hattach, hv', hvv'⟩ := exists_attachChild plan hv hm (hnear far hfar)
        (hown.of_relinks hgv) (fun hmultiple inverse hinverse =>
          (hway hmultiple inverse (by rwa [hgv.modelType] at hinverse)).of_relinks hgv)
      exact ⟨v', hattach, hv', hgv.trans hvv'⟩)
  exact ⟨last, returns_bind.mpr ⟨_, u, Model.returns_record.mpr ⟨rfl, rfl⟩, hloop⟩, hlast⟩

/-- What a run after unloading has found: models of far types, of records that are stored. -/
theorem found_of_run {ids : List String} {single : Bool} {path : String}
    {unloaded ran : Graph MemoryStore} {targets : OrderedMap String Model} {entityType : String}
    {c : Condition} (hfiled : g.store.Filed)
    (hbase : plan.query.query = Query.ofBase entityType [c])
    (hcondition : plan.condition = (Condition.inList path []).required)
    (hunload : g.Unloaded unloaded plan.resolved.name single [m]) (hm : g.HasModel m)
    (hfitted : unloaded.Fitted (· = m)) (hrun : Returns (run plan ids) unloaded targets ran) :
    ran.registry = g.registry ∧ (ran.model m).modelType = (g.model m).modelType ∧
      (ran.model m).record = (g.model m).record ∧
      ran.Fitted (fun x => x = m ∨ x ∈ targets.values) ∧
      ∀ id far, targets.get? id = some far →
        g.stored entityType id = some (ran.model far).record ∧
        plan.query.wrapping.typeFor? (ran.model far).record = some (ran.model far).modelType := by
  obtain ⟨answers, hforges, hfound, hanswered⟩ := returns_run_of_unloaded
    (fun _ store => store.records = g.store.records)
    (fun _ ids u rs u' hsame hrun => selects_of_returns_fetch hbase hcondition hfiled hsame hrun)
    hunload rfl hrun
  have hrelinked := hunload.relinks
  have hthere : unloaded.HasModel m := hrelinked.hasModel hm
  refine ⟨hforges.registry.trans hrelinked.registry, ?_, ?_, ?_, ?_⟩
  · rw [hforges.model_eq m hthere, hrelinked.modelType]
  · rw [hforges.model_eq m hthere, hrelinked.record]
  · refine hfitted.of_forges hthere hforges fun x hx => ?_
    obtain ⟨id, hid⟩ := OrderedMap.mem_values_iff.mp hx
    exact (hfound.wraps id x hid).2.2.children
  · intro id far hfar
    obtain ⟨hanswer, hown⟩ := hfound.record id far hfar
    obtain ⟨key, hkey⟩ := OrderedMap.mem_values_iff.mp (hanswered.meets hanswer).1
    rw [(hfiled entityType key _ hkey).1, Option.some.injEq] at hown
    subst hown
    exact ⟨hkey, (hfound.wraps key far hfar).2.2.typeFor⟩

/-- The far models that the key refers to can be handed to a fresh model, if each of them can
be told the way back. -/
theorem succeeds_parentSide (hg : g.WellFormed) (hfiled : g.store.Filed)
    (hchecked : g.registry.Checked) (hplan : Planned g.registry s t name none plan)
    (hside : plan.resolved.side = .parent) (ht : g.registry.get t.name = .ok t)
    (hfresh : g.Fresh s m) (htype : (g.model m).modelType = t)
    (hsome : plan.resolved.farTypes ≠ [])
    (hback : ∀ id ∈ g.keyIds plan.resolved.foreignKey m, ∀ r far,
      g.stored plan.query.query.entityType id = some r → plan.query.wrapping.typeFor? r = some far →
      ∀ inverse, plan.resolved.inverseOn? far.name = some inverse →
        ∃ back, g.registry.resolve far.name inverse = .ok back) :
    Succeeds (parentSide plan [m]) g := by
  obtain ⟨relationship, q, hrelationship, hq, hcondition, hquery⟩ := hplan.declared
  obtain rfl : plan.query = q := hquery
  obtain ⟨entityType, c, hbase, hsound⟩ := Registry.relationshipQuery_eq_ofBase hq
  have hpath := Registry.relationshipCondition_eq hg.registry hplan.resolved ht hrelationship
    hcondition
  rw [hside] at hpath
  have hsuits := hplan.suits hg.registry htype
  obtain ⟨membership, hmembership⟩ :=
    Registry.exists_membershipFor_of_ne_nil hg.registry hplan.resolved hsome
  obtain ⟨unloaded, hunloading, hfitted⟩ :=
    exists_unloadParents hg hfresh hplan.session hsuits hside hmembership
  have hunloadings : Returns ([m].mapM (unloadParents plan)) g
      [g.keyIds plan.resolved.foreignKey m] unloaded := by
    rw [List.mapM_cons, List.mapM_nil]
    exact returns_bind.mpr ⟨_, unloaded, hunloading, returns_bind.mpr ⟨[], unloaded,
      returns_pure.mpr ⟨rfl, rfl⟩, returns_pure.mpr ⟨rfl, rfl⟩⟩⟩
  obtain ⟨hunload, -⟩ := returns_unloadParents (hg.fetchable (List.nodup_singleton m)
    (by simpa using hfresh.made) _) (by simpa using hplan.ownKey hg.registry hside ht htype)
    hunloadings
  unfold parentSide
  refine (returns_filter_of_fresh hfresh).succeeds_bind (hunloadings.succeeds_bind ?_)
  dsimp only
  split
  · exact succeeds_pure _ _
  refine (succeeds_run hbase hsound hpath _ unloaded).bind fun targets ran hrun => ?_
  obtain ⟨hregistry, hnear, hrecord, hwired, hfound⟩ :=
    found_of_run hfiled hbase hpath hunload hfresh.made hfitted hrun
  rw [htype] at hnear
  rw [← hregistry] at hplan hchecked ht
  have hwf : ran.registry.WellFormed := hregistry ▸ hg.registry
  have hhand : ∀ id ∈ g.keyIds plan.resolved.foreignKey m, ∀ far, targets.get? id = some far →
      ran.MayHold m plan.resolved.name far ∧ ∀ inverse,
        plan.resolved.inverseOn? (ran.model far).modelType.name = some inverse →
          ran.MayHold far inverse m := by
    intro id hid far hfar
    obtain ⟨hstored, htypeFor⟩ := hfound id far hfar
    refine ⟨hplan.mayHold hchecked hwf ht hnear (Wrapping.mem_types_of_typeFor htypeFor), ?_⟩
    intro inverse hinverse
    obtain ⟨back, hresolves⟩ :=
      hback id hid _ _ (by rw [hbase]; exact hstored) htypeFor inverse hinverse
    rw [← hregistry] at hresolves
    obtain ⟨-, -, -, hfars, -⟩ :=
      Registry.wayBack_of_parent hwf hplan.resolved hside hinverse hresolves
    exact mayHold_of_farTypes hchecked hwf hresolves (by rw [hnear, ht]) (by simp [hnear, hfars])
  exact succeeds_attachParents hwired (.inl rfl) (fun _ hfar => .inr hfar)
    (by rw [hrecord, hfresh.stored])
    (fun u hru => returns_parentIds_of_suits hg hfresh.made hsuits hside
      ((hru.modelType m).trans (hnear.trans htype.symm)) ((hru.record m).trans hrecord)) hhand

/-- The far models that refer to a fresh model can be handed to it. Where the key holds several
identifiers, each of them has to know it by a relationship that resolves. -/
theorem succeeds_childSide (hg : g.WellFormed) (hfiled : g.store.Filed)
    (hchecked : g.registry.Checked) (hplan : Planned g.registry s t name none plan)
    (hside : plan.resolved.side = .child) (ht : g.registry.get t.name = .ok t)
    (hfresh : g.Fresh s m) (htype : (g.model m).modelType = t)
    (hback : plan.resolved.cardinality = .multiple → ∀ far inverse,
      plan.resolved.inverseOn? far = some inverse →
        ∃ back, g.registry.resolve far inverse = .ok back) :
    Succeeds (childSide plan [m]) g := by
  obtain ⟨relationship, q, hrelationship, hq, hcondition, hquery⟩ := hplan.declared
  obtain rfl : plan.query = q := hquery
  obtain ⟨entityType, c, hbase, hsound⟩ := Registry.relationshipQuery_eq_ofBase hq
  have hpath := Registry.relationshipCondition_eq hg.registry hplan.resolved ht hrelationship
    hcondition
  rw [hside] at hpath
  obtain ⟨only, honly, -⟩ := Registry.exists_far_of_child hg.registry hplan.resolved hside
  obtain ⟨membership, hmembership⟩ :=
    Registry.exists_membershipFor_of_ne_nil hg.registry hplan.resolved (by simp [honly])
  obtain ⟨owners, unloaded, hunloading, hfitted⟩ :=
    exists_unloadChildren hfresh hplan.session (hplan.suits hg.registry htype) hmembership
  obtain ⟨hunload, howners⟩ := returns_unloadChildren (hg.fetchable (List.nodup_singleton m)
    (by simpa using hfresh.made) _) (by simp [DistinctIds]) hunloading
  unfold childSide
  refine hunloading.succeeds_bind ?_
  split
  · exact succeeds_pure _ _
  refine (succeeds_run hbase hsound hpath _ unloaded).bind fun children ran hrun => ?_
  obtain ⟨hregistry, hnear, hrecord, hwired, hfound⟩ :=
    found_of_run hfiled hbase hpath hunload hfresh.made hfitted hrun
  rw [htype] at hnear
  rw [← hregistry] at hplan hchecked ht hback
  have hwf : ran.registry.WellFormed := hregistry ▸ hg.registry
  have hhand : ∀ far ∈ children.values, ran.MayHold m plan.resolved.name far ∧
      (plan.resolved.cardinality = .multiple → ∀ inverse,
        plan.resolved.inverseOn? (ran.model far).modelType.name = some inverse →
          ran.MayHold far inverse m) := by
    intro far hfar
    obtain ⟨id, hid⟩ := OrderedMap.mem_values_iff.mp hfar
    obtain ⟨-, htypeFor⟩ := hfound id far hid
    refine ⟨hplan.mayHold hchecked hwf ht hnear (Wrapping.mem_types_of_typeFor htypeFor), ?_⟩
    intro hmultiple inverse hinverse
    obtain ⟨back, hresolves⟩ := hback hmultiple _ inverse hinverse
    have hleads := Registry.mem_farTypes_wayBack_of_multiple hwf hplan.resolved hside hmultiple
      hinverse hresolves
    exact mayHold_of_farTypes hchecked hwf hresolves (by rw [hnear, ht]) (by rwa [hnear])
  exact succeeds_attachChildren hwired (.inl rfl) (fun _ hfar => .inr hfar)
    (fun id owner howner => List.mem_singleton.mp ((howners id owner).mp howner).1) hhand

end Sides

section Groups

variable {g : Graph MemoryStore} {t : ModelType} {name : String} {resolved : Resolved}

/-- A group is loaded by the plan of the registry. -/
theorem succeeds_fetchGroup {members : List Model} (hg : g.WellFormed)
    (hchecked : g.registry.Checked) (ht : g.registry.get t.name = .ok t)
    (hresolved : g.registry.resolve t.name name = .ok resolved) (hsome : resolved.farTypes ≠ [])
    (hsides : ∀ plan, Planned g.registry s t name none plan → plan.resolved = resolved →
      (resolved.side = .parent → Succeeds (parentSide plan members) g) ∧
      (resolved.side = .child → Succeeds (childSide plan members) g)) :
    Succeeds (fetchGroup s t name none members) g := by
  obtain ⟨u, declared, hu, -, hdeclared, hname, hsource, -⟩ :=
    Registry.declared_of_resolve hg.registry hresolved
  obtain rfl := Except.ok.inj (ht.symm.trans hu)
  have hagain : g.registry.resolve declared.source declared.name = .ok resolved := by
    rw [hsource, hname, hresolved]
  obtain ⟨q, hq⟩ := hchecked.exists_relationshipQuery hg.registry hagain hsome
  obtain ⟨condition, hcondition⟩ : ∃ condition,
      g.registry.relationshipCondition declared = .ok condition := by
    simp only [Registry.relationshipCondition, hagain]
    exact ⟨_, rfl⟩
  obtain ⟨hparent, hchild⟩ := hsides ⟨s, resolved, q, condition⟩
    ⟨rfl, hresolved, declared, q, hdeclared, hq, hcondition, rfl⟩ rfl
  unfold fetchGroup
  refine (returns_ofExcept.mpr ⟨rfl, hdeclared⟩).succeeds_bind ?_
  refine (returns_get.mpr ⟨rfl, rfl⟩).succeeds_bind ?_
  refine (returns_ofExcept.mpr ⟨rfl, hresolved⟩).succeeds_bind ?_
  refine (returns_ofExcept.mpr ⟨rfl, hq⟩).succeeds_bind ?_
  refine (returns_ofExcept.mpr ⟨rfl, hcondition⟩).succeeds_bind ?_
  dsimp only
  cases hside : resolved.side with
  | parent => exact hparent hside
  | child => exact hchild hside

/-- A model alone is a group of its own. -/
theorem succeeds_fetchRelationship (ht : g.registry.get t.name = .ok t)
    (hm : (g.model m).modelType = t) (hgroup : Succeeds (fetchGroup s t name none [m]) g) :
    Succeeds (fetchRelationship s [m] name none) g := by
  have hgroups : Returns (groupByType [m]) g (OrderedMap.empty.insert t.name [m]) g := by
    refine returns_bind.mpr ⟨g, g, returns_get.mpr ⟨rfl, rfl⟩, returns_pure.mpr ⟨rfl, ?_⟩⟩
    simp [hm]
  obtain ⟨⟨⟩, g', hgroup⟩ := hgroup
  have hturn : Returns (turn s name none 1 (t.name, [m])) g true g' := by
    refine returns_bind.mpr ⟨g, g, returns_get.mpr ⟨rfl, rfl⟩, ?_⟩
    refine returns_bind.mpr ⟨t, g, returns_ofExcept.mpr ⟨rfl, ht⟩, ?_⟩
    rw [if_neg (by simp)]
    exact returns_bind.mpr ⟨(), g', hgroup, returns_pure.mpr ⟨rfl, rfl⟩⟩
  refine hgroups.succeeds_bind (Returns.succeeds_bind (x := [true]) (t := g') ?_ ?_)
  · change Returns ([(t.name, [m])].mapM (turn s name none 1)) g [true] g'
    rw [List.mapM_cons, List.mapM_nil]
    exact returns_bind.mpr ⟨true, g', hturn, returns_bind.mpr ⟨[], g', returns_pure.mpr ⟨rfl, rfl⟩,
      returns_pure.mpr ⟨rfl, rfl⟩⟩⟩
  · exact succeeds_pure _ _

end Groups

end Fetching

end RecordGraph
