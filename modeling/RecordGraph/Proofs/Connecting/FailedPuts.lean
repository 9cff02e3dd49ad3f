/-
# Puts that fail

A model is put into a relationship in steps: it is loaded there, the key is written, and the way
back is loaded on it. A put that is refused has written nothing. Once it is not refused, the
collection that the model comes into takes it, so only one step is left that can fail: to load the
way back, where that is a collection and the relationships of the far type do not resolve. Nothing
is taken back then. The far model is as it was, and the other one has it loaded.
-/
import RecordGraph.Proofs.CheckedRegistries
import RecordGraph.Proofs.Connecting.Links
import RecordGraph.Proofs.Fetching.Succeeding
import RecordGraph.Proofs.Upholding.Histories

namespace RecordGraph

variable {σ : Type}

/-- The record with one more identifier in a foreign key; a single key is overwritten. -/
def Record.withReference (record : Record) (k : ForeignKey) (id : String) (c : Cardinality) :
    Record :=
  let ids := match c with
    | .single => [id]
    | .multiple =>
      let ids := record.referenceIds k.field k.column
      if ids.contains id then ids else ids ++ [id]
  record.setReferenceIds k.field k.column ids c

namespace Graph

variable {g t : Graph σ} {m far x : Model} {name : String} {r : Resolved}

/-! ## What can be refused, and what cannot be loaded -/

/-- The name does not resolve, or does not lead to the type of the far model. -/
def Refuses (g : Graph σ) (m : Model) (name : String) (far : Model) (e : Error) : Prop :=
  g.registry.resolve (g.model m).modelType.name name = .error e ∨
    ∃ r, g.registry.resolve (g.model m).modelType.name name = .ok r ∧
      (g.model far).modelType.name ∉ r.farTypes ∧
      e = .invalidType (String.intercalate " | " r.farTypes) (g.model far).modelType.name

/-- The name leads to the far model, but the way back is a collection that cannot be loaded, for
it does not resolve. -/
def LacksWayBack (g : Graph σ) (m : Model) (name : String) (far : Model) (r : Resolved)
    (e : Error) : Prop :=
  g.registry.resolve (g.model m).modelType.name name = .ok r ∧
    (g.model far).modelType.name ∈ r.farTypes ∧ r.heldSingly = false ∧
    ∃ back, r.inverseOn? (g.model far).modelType.name = some back ∧
      g.registry.resolve (g.model far).modelType.name back = .error e

/-- What is refused does not get as far as the way back. -/
theorem Refuses.not_lacksWayBack {e' : Error} (h : g.Refuses m name far e') (r : Resolved)
    (e : Error) : ¬ g.LacksWayBack m name far r e := by
  rintro ⟨hr, hleads, -⟩
  rcases h with hfail | ⟨r', hr', hother, -⟩
  · rw [hfail] at hr
    cases hr
  · obtain rfl := Except.ok.inj (hr.symm.trans hr')
    exact hother hleads

/-- There is one way back to lack, and one reason. -/
theorem LacksWayBack.error_eq {r' : Resolved} {e e' : Error} (h : g.LacksWayBack m name far r e)
    (h' : g.LacksWayBack m name far r' e') : e = e' := by
  obtain ⟨hr, -, -, back, hinverse, hback⟩ := h
  obtain ⟨hr', -, -, back', hinverse', hback'⟩ := h'
  obtain rfl := Except.ok.inj (hr.symm.trans hr')
  obtain rfl := Option.some.inj (hinverse.symm.trans hinverse')
  exact Except.error.inj (hback.symm.trans hback')

/-- If the relationships of a model resolve, it does not lack its own way back. -/
theorem LacksWayBack.ne (hg : g.WellFormed) (hfar : g.HasModel far) {e : Error}
    (h : g.LacksWayBack m name far r e) : far ≠ m := by
  obtain ⟨hr, -, -, back, hinverse, hback⟩ := h
  rintro rfl
  have htyped := hg.typed far hfar
  obtain ⟨declared, hdeclared⟩ : ∃ declared,
      (g.model far).modelType.relationship back = .ok declared := by
    cases hside : r.side with
    | parent =>
        obtain ⟨declared, hdeclared, -⟩ :=
          Registry.declared_wayBack_of_parent hg.registry htyped hr hside hinverse
        exact ⟨declared, hdeclared⟩
    | child =>
        obtain ⟨-, -, declared, -, -, -, hdeclared, -⟩ :=
          Registry.declared_wayBack_of_child hg.registry htyped hr hside hinverse
        exact ⟨declared, hdeclared⟩
  obtain ⟨resolved, hresolved⟩ :=
    Registry.exists_resolve_of_declared hg.registry hr htyped hdeclared
  rw [hback] at hresolved
  cases hresolved

/-- The way back from a far model, where it resolves, may hold the model. -/
theorem mayHold_wayBack (hchecked : g.registry.Checked) (hg : g.WellFormed) (hm : g.HasModel m)
    (hr : g.registry.resolve (g.model m).modelType.name name = .ok r) (hheld : r.heldSingly = false)
    {back : String} (hinverse : r.inverseOn? (g.model far).modelType.name = some back)
    {resolved : Resolved}
    (hback : g.registry.resolve (g.model far).modelType.name back = .ok resolved) :
    g.MayHold far back m := by
  refine mayHold_of_farTypes hchecked hg.registry hback (hg.typed m hm) ?_
  cases hside : r.side with
  | parent =>
      obtain ⟨-, -, -, hfars, -⟩ :=
        Registry.wayBack_of_parent hg.registry hr hside hinverse hback
      simp [hfars]
  | child =>
      rw [Resolved.heldSingly_of_child hside, decide_eq_false_iff_not] at hheld
      refine Registry.mem_farTypes_wayBack_of_multiple hg.registry hr hside ?_ hinverse hback
      cases hcardinality : r.cardinality with
      | single => exact absurd hcardinality hheld
      | multiple => rfl

/-- Where things are loaded as they belong, all collections are made for their relationships. -/
theorem Orderly.fitted_all (h : g.Orderly) (hg : g.WellFormed) : g.Fitted fun _ => True := by
  intro x _ name c hc
  obtain ⟨-, r, hr⟩ := h.children x name c hc
  exact ⟨hg.made x name c hc, r, hr, h.fitted x name c r hc hr⟩

/-! ## Loading the far model -/

/-- The collection that a model has loaded under a name, or an empty one. -/
def slot (g : Graph σ) (m : Model) (name : String) (membership : Membership) : CollectionData :=
  ((g.model m).children.get? name).elim
    ⟨(g.model m).session, membership, OrderedMap.empty, OrderedMap.empty⟩ g.collection

/-- A far model came to a model under a name, as its single parent or into the collection, and the
record of the model is the given one. Nothing else is different. -/
structure Receives (g : Graph σ) (m : Model) (name : String) (single : Bool) (far : Model)
    (record : Record) (t : Graph σ) : Prop where
  store : t.store = g.store
  registry : t.registry = g.registry
  others : ∀ n, n ≠ m → t.model n = g.model n
  own : t.model m = { g.model m with
    record := record, parents := (t.model m).parents, children := (t.model m).children }
  parents : ∀ other, (t.model m).parents.get? other =
    if single = true ∧ name = other then some far else (g.model m).parents.get? other
  children : ∀ other, single = true ∨ other ≠ name →
    (t.model m).children.get? other = (g.model m).children.get? other
  joined : single = false → ∃ c membership, (t.model m).children.get? name = some c ∧
    t.collection c = { g.slot m name membership with
      members := (g.slot m name membership).members.insert (g.model far).key far }
  collections : ∀ n other c, n ≠ m ∨ other ≠ name ∨ single = true →
    (g.model n).children.get? other = some c → t.collection c = g.collection c

namespace Receives

theorem parented (g : Graph σ) (m : Model) (name : String) (far : Model) :
    g.Receives m name true far (g.model m).record
      (g.setModel m { g.model m with parents := (g.model m).parents.insert name far }) where
  store := rfl
  registry := rfl
  others n hn := by rw [model_setModel, if_neg (Ne.symm hn)]
  own := by simp
  parents other := by simp [OrderedMap.get?_insert]
  children other _ := by simp
  joined := by simp
  collections _ _ _ _ _ := rfl

/-- A loaded collection takes the far model. -/
theorem joinedTo (horderly : g.Orderly) {c : Collection}
    (hc : (g.model m).children.get? name = some c) :
    g.Receives m name false far (g.model m).record (g.setCollection c
      { g.collection c with
        members := (g.collection c).members.insert (g.model far).key far }) where
  store := rfl
  registry := rfl
  others _ _ := rfl
  own := rfl
  parents other := by simp [model_setCollection]
  children _ _ := rfl
  joined _ := by
    refine ⟨c, .ofEntity none, hc, ?_⟩
    rw [collection_setCollection, if_pos rfl, slot, hc]
    rfl
  collections n other e helse he := by
    rw [collection_setCollection, if_neg]
    rintro rfl
    obtain ⟨rfl, rfl⟩ := horderly.apart n m other name c he hc
    simp at helse

/-- A collection is made, and takes the far model. -/
theorem opened (hg : g.WellFormed) (hnone : (g.model m).children.get? name = none)
    (membership : Membership) :
    g.Receives m name false far (g.model m).record ((g.openSlot m name membership).setCollection
      g.nextCollection { (g.openSlot m name membership).collection g.nextCollection with
        members := ((g.openSlot m name membership).collection g.nextCollection).members.insert
          ((g.openSlot m name membership).model far).key far }) where
  store := rfl
  registry := rfl
  others n hn := by
    rw [model_setCollection, model_openSlot_of_ne hn]
  own := by simp [model_setCollection, openSlot]
  parents other := by simp [model_setCollection, openSlot]
  children other hother := by
    have hname : name ≠ other := Ne.symm (hother.resolve_left (by simp))
    rw [model_setCollection, children_openSlot, if_neg fun h => hname h.2]
  joined _ := by
    refine ⟨g.nextCollection, membership, ?_, ?_⟩
    · rw [model_setCollection, children_openSlot, if_pos ⟨rfl, rfl⟩]
    · rw [collection_setCollection, if_pos rfl, (Relinks.openSlot g m name membership).key]
      simp [openSlot, slot, hnone]
  collections n other c _ hc := by
    have hmade := hg.made n other c hc
    rw [collection_setCollection, if_neg hmade.ne_nextCollection.symm, collection_openSlot hmade]

/-- Writing the record afterwards changes nothing else. -/
theorem setRecord {single : Bool} {record : Record} (h : g.Receives m name single far record t)
    (record' : Record) : g.Receives m name single far record' (t.setRecord m record') where
  store := h.store
  registry := h.registry
  others n hn := by rw [model_setRecord, if_neg (Ne.symm hn), h.others n hn]
  own := by
    rw [model_setRecord, if_pos rfl, h.own]
  parents other := by
    rw [model_setRecord]
    exact h.parents other
  children other hother := by
    rw [model_setRecord]
    exact h.children other hother
  joined hsingle := by
    rw [model_setRecord]
    exact h.joined hsingle
  collections := h.collections

theorem modelType {single : Bool} {record : Record} (h : g.Receives m name single far record t)
    (n : Model) : (t.model n).modelType = (g.model n).modelType := by
  by_cases hn : n = m
  · rw [hn, h.own]
  · rw [h.others n hn]

theorem record_eq {single : Bool} (h : g.Receives m name single far (g.model m).record t)
    (n : Model) : (t.model n).record = (g.model n).record := by
  by_cases hn : n = m
  · rw [hn, h.own]
  · rw [h.others n hn]

end Receives

end Graph

/-! ## The steps, run one by one -/

namespace Model

open RecordGraph.Graph

variable {g t : Graph σ} {m far x y : Model} {name : String} {r : Resolved} {e : Error}

/-- A resolved relationship takes a far model that its collection may hold. -/
theorem exists_receives (hg : g.WellFormed) (horderly : g.Orderly)
    (hr : g.registry.resolve (g.model m).modelType.name name = .ok r)
    (hholds : g.MayHold m name far) : ∃ t,
      Returns (if r.holdsSingle then m.setParent name far
        else (do (← m.childrenOr name r).put far)) g () t ∧
      g.Receives m name r.holdsSingle far (g.model m).record t ∧ t.Fitted fun _ => True := by
  have hfitted := horderly.fitted_all hg
  cases hsingle : r.holdsSingle with
  | true =>
      exact ⟨_, returns_setParent.mpr rfl, .parented g m name far, hfitted.setModel_parents m _⟩
  | false =>
      obtain ⟨r', membership, hr', hmembership, hadmits⟩ := hholds
      obtain rfl := Except.ok.inj (hr'.symm.trans hr)
      cases hloaded : (g.model m).children.get? name with
      | some c =>
          have hmade := horderly.fitted m name c r' hloaded hr
          obtain rfl := Except.ok.inj (hmade.symm.trans hmembership)
          exact ⟨_, returns_bind.mpr ⟨c, g, returns_childrenOr_of_loaded r' hloaded,
            Collection.returns_put_of_admits hadmits⟩, .joinedTo horderly hloaded,
            hfitted.setCollection rfl⟩
      | none =>
          have hopened := returns_childrenOr_of_made hloaded
            (Collection.returns_forRelationship_of_membership hmembership)
          refine ⟨_, returns_bind.mpr ⟨g.nextCollection, g.openSlot m name membership, hopened,
            Collection.returns_put_of_admits ?_⟩, .opened hg hloaded membership,
            (hfitted.openSlot hr hmembership).setCollection rfl⟩
          rw [(Relinks.openSlot g m name membership).modelType]
          simpa [openSlot] using hadmits

/-- Where the relationships of a model do not resolve, none of its collections is loaded, and none
can be. -/
theorem run_children_of_unresolved (h : t.Fitted fun _ => True)
    (hfail : t.registry.resolve (t.model x).modelType.name name = .error e) :
    (x.children name : Action σ Collection) t = (.error e, t) := by
  cases hloaded : (t.model x).children.get? name with
  | some c =>
      obtain ⟨-, r, hr, -⟩ := h x trivial name c hloaded
      rw [hfail] at hr
      cases hr
  | none =>
      have hcached : Returns (x.cachedChildren? name) t none t :=
        returns_cachedChildren.mpr ⟨rfl, hloaded.symm⟩
      have hresolve : (x.resolve name : Action σ Resolved) t = (.error e, t) := by
        change (t.registry.resolve (t.model x).modelType.name name, t) = _
        rw [hfail]
      rw [children, hcached.run_bind]
      exact run_bind_of_error hresolve _

/-- The way back is loaded, unless it is a collection and does not resolve; then nothing is
written. -/
theorem receiveBack_cases {single : Bool} {inverse : Option String} (h : t.Fitted fun _ => True)
    (hholds : ∀ back resolved, inverse = some back → single = false →
      t.registry.resolve (t.model x).modelType.name back = .ok resolved → t.MayHold x back y) :
    (∃ back e, inverse = some back ∧ single = false ∧
      t.registry.resolve (t.model x).modelType.name back = .error e ∧
      x.receiveBack single inverse y t = (.error e, t)) ∨
    (∀ back e, inverse = some back → single = false →
      t.registry.resolve (t.model x).modelType.name back ≠ .error e) ∧
      Succeeds (x.receiveBack single inverse y) t := by
  cases inverse with
  | none => exact .inr ⟨by simp, (), t, returns_pure.mpr ⟨rfl, rfl⟩⟩
  | some back =>
      cases single with
      | true => exact .inr ⟨by simp, (), _, returns_setParent.mpr rfl⟩
      | false =>
          cases hback : t.registry.resolve (t.model x).modelType.name back with
          | error e =>
              have hchildren := run_children_of_unresolved h hback
              exact .inl ⟨back, e, rfl, rfl, hback, run_bind_of_error hchildren _⟩
          | ok resolved =>
              obtain ⟨c, u, hopen, -, -, hadmits⟩ :=
                h.exists_admitting trivial (hholds back resolved rfl rfl hback)
              refine .inr ⟨fun other e hother _ hfail => ?_, (), _, returns_bind.mpr
                ⟨c, u, hopen, Collection.returns_put_of_admits hadmits⟩⟩
              obtain rfl := Option.some.inj hother
              rw [hback] at hfail
              cases hfail

/-- The key is written, if an identifier is there to write. -/
theorem returns_stamp_id (m : Model) (k : ForeignKey) (id : Option String) (c : Cardinality)
    (t : Graph σ) : Returns (m.stamp k id c) t ()
      (id.elim t fun id => t.setRecord m ((t.model m).record.withReference k id c)) := by
  cases id with
  | none => exact returns_pure.mpr ⟨rfl, rfl⟩
  | some id =>
      have hadd : Returns (m.addReferenceId k id c) t ()
          (t.setRecord m ((t.model m).record.withReference k id c)) := returns_updateRecord.mpr rfl
      exact hadd

theorem exists_stamped {single : Bool} {record : Record}
    (h : g.Receives m name single far record t) (hfitted : t.Fitted fun _ => True)
    (k : ForeignKey) (id : Option String) (c : Cardinality) : ∃ u,
      Returns (m.stamp k id c) t () u ∧
      g.Receives m name single far (id.elim record fun id => record.withReference k id c) u ∧
      u.Fitted fun _ => True := by
  refine ⟨_, returns_stamp_id m k id c t, ?_⟩
  cases id with
  | none => exact ⟨h, hfitted⟩
  | some id =>
      have hrecord : (t.model m).record = record := by rw [h.own]
      rw [hrecord]
      refine ⟨h.setRecord _, hfitted.of_children rfl (fun z => ?_) rfl⟩
      simp only [Option.elim_some, model_setRecord, and_self]

end Model

/-! ## Calls -/

open RecordGraph.Graph

section Calls

variable {g : Graph σ} {m far : Model} {name : String} {r : Resolved} {e : Error}

/-- The record that a put leaves before the way back: where the key is held here, it names the far
model if that is stored. -/
def Graph.recordBefore (g : Graph σ) (m far : Model) (r : Resolved) : Record :=
  match r.side with
  | .parent => (g.model far).record.id.elim (g.model m).record fun id =>
      (g.model m).record.withReference r.foreignKey id r.cardinality
  | .child => (g.model m).record

/-- A put that is refused has written nothing. -/
theorem run_put_of_refused (h : g.Refuses m name far e) :
    (m.put name far : Action σ Unit) g = (.error e, g) := by
  have hresolve : (m.resolve name : Action σ Resolved) g =
      (g.registry.resolve (g.model m).modelType.name name, g) := rfl
  rcases h with hfail | ⟨r, hr, hleads, rfl⟩
  · rw [hfail] at hresolve
    exact run_bind_of_error hresolve _
  · have hr' : Returns (m.resolve name) g r g := Model.returns_resolve.mpr ⟨rfl, hr⟩
    have htype : Returns far.modelType g (g.model far).modelType g :=
      Model.returns_modelType.mpr ⟨rfl, rfl⟩
    rw [Model.put, hr'.run_bind, htype.run_bind, if_pos (by simpa using hleads)]
    rfl

/-- A put that is not refused goes on with one side. -/
theorem run_put_of_leads (hr : g.registry.resolve (g.model m).modelType.name name = .ok r)
    (hleads : (g.model far).modelType.name ∈ r.farTypes) :
    (m.put name far : Action σ Unit) g = match r.side with
      | .parent => m.putParent r name (r.inverseOn? (g.model far).modelType.name) far g
      | .child => m.putChild r name (r.inverseOn? (g.model far).modelType.name) far g := by
  have hr' : Returns (m.resolve name) g r g := Model.returns_resolve.mpr ⟨rfl, hr⟩
  have htype : Returns far.modelType g (g.model far).modelType g :=
    Model.returns_modelType.mpr ⟨rfl, rfl⟩
  rw [Model.put, hr'.run_bind, htype.run_bind, if_neg (by simpa using hleads)]
  cases r.side <;> rfl

/-- Once the far model has come, the way back is loaded, unless the put lacks it. -/
theorem Graph.Receives.wayBack_cases {t : Graph σ} {single : Bool} {record : Record}
    (h : g.Receives m name single far record t) (hfitted : t.Fitted fun _ => True)
    (hchecked : g.registry.Checked) (hg : g.WellFormed) (hm : g.HasModel m)
    (hr : g.registry.resolve (g.model m).modelType.name name = .ok r)
    (hleads : (g.model far).modelType.name ∈ r.farTypes) :
    (∃ e, g.LacksWayBack m name far r e ∧
      far.receiveBack r.heldSingly (r.inverseOn? (g.model far).modelType.name) m t =
        (.error e, t)) ∨
    (∀ r' e, ¬ g.LacksWayBack m name far r' e) ∧
      Succeeds (far.receiveBack r.heldSingly (r.inverseOn? (g.model far).modelType.name) m)
        t := by
  have hholds : ∀ back resolved,
      r.inverseOn? (g.model far).modelType.name = some back → r.heldSingly = false →
        t.registry.resolve (t.model far).modelType.name back = .ok resolved →
          t.MayHold far back m := by
    intro back resolved hinverse hheld hresolved
    rw [h.modelType, h.registry] at hresolved
    obtain ⟨again, membership, hagain, hmembership, hadmits⟩ :=
      mayHold_wayBack hchecked hg hm hr hheld hinverse hresolved
    refine ⟨again, membership, ?_, ?_, ?_⟩
    · rw [h.registry, h.modelType, hagain]
    · rw [h.registry, hmembership]
    · rwa [h.modelType]
  have hback := Model.receiveBack_cases hfitted hholds
  rw [h.modelType, h.registry] at hback
  rcases hback with ⟨back, e, hinverse, hheld, hfail, hrun⟩ | ⟨hresolves, hsucceeds⟩
  · exact .inl ⟨e, ⟨hr, hleads, hheld, back, hinverse, hfail⟩, hrun⟩
  · refine .inr ⟨?_, hsucceeds⟩
    rintro r' e ⟨hr', -, hheld, back, hinverse, hfail⟩
    obtain rfl := Except.ok.inj (hr.symm.trans hr')
    exact hresolves back e hinverse hheld hfail

/-- With the foreign key here, the put stops at the way back, or answers. -/
theorem putParent_cases (hchecked : g.registry.Checked) (hg : g.WellFormed)
    (horderly : g.Orderly) (hm : g.HasModel m) (hfar : g.HasModel far)
    (hr : g.registry.resolve (g.model m).modelType.name name = .ok r)
    (hleads : (g.model far).modelType.name ∈ r.farTypes) (hside : r.side = .parent) :
    (∃ e g', g.LacksWayBack m name far r e ∧
      m.putParent r name (r.inverseOn? (g.model far).modelType.name) far g = (.error e, g') ∧
      g.Receives m name r.holdsSingle far (g.recordBefore m far r) g') ∨
    (∀ r' e, ¬ g.LacksWayBack m name far r' e) ∧
      Succeeds (m.putParent r name (r.inverseOn? (g.model far).modelType.name) far) g := by
  have hholds := mayHold_of_farTypes hchecked hg.registry hr (hg.typed far hfar) hleads
  obtain ⟨loaded, hload, hloaded, hfitted⟩ := Model.exists_receives hg horderly hr hholds
  obtain ⟨stamped, hstamp, hreceives, hfitted⟩ := Model.exists_stamped hloaded hfitted
    r.foreignKey (loaded.model far).record.id r.cardinality
  have hrecord : g.recordBefore m far r = (loaded.model far).record.id.elim (g.model m).record
      fun id => (g.model m).record.withReference r.foreignKey id r.cardinality := by
    rw [hloaded.record_eq far, Graph.recordBefore, hside]
  rw [← hrecord] at hreceives
  have hcases := hreceives.wayBack_cases hfitted hchecked hg hm hr hleads
  rw [Resolved.heldSingly_of_parent hside] at hcases
  have hid : Returns far.id? loaded (loaded.model far).record.id loaded :=
    Model.returns_id.mpr ⟨rfl, rfl⟩
  have hput : m.putParent r name (r.inverseOn? (g.model far).modelType.name) far g =
      far.receiveBack false (r.inverseOn? (g.model far).modelType.name) m stamped := by
    rw [Model.putParent_eq, hload.run_bind, hid.run_bind, hstamp.run_bind]
  rcases hcases with ⟨e, hlacks, hrun⟩ | ⟨hall, u, g', hrun⟩
  · exact .inl ⟨e, stamped, hlacks, hput.trans hrun, hreceives⟩
  · exact .inr ⟨hall, u, g', hput.trans hrun⟩

/-- With the foreign key on the far side, writing the key after the way back cannot fail. -/
theorem putChild_cases (hchecked : g.registry.Checked) (hg : g.WellFormed)
    (horderly : g.Orderly) (hm : g.HasModel m) (hfar : g.HasModel far)
    (hr : g.registry.resolve (g.model m).modelType.name name = .ok r)
    (hleads : (g.model far).modelType.name ∈ r.farTypes) (hside : r.side = .child) :
    (∃ e g', g.LacksWayBack m name far r e ∧
      m.putChild r name (r.inverseOn? (g.model far).modelType.name) far g = (.error e, g') ∧
      g.Receives m name r.holdsSingle far (g.recordBefore m far r) g') ∨
    (∀ r' e, ¬ g.LacksWayBack m name far r' e) ∧
      Succeeds (m.putChild r name (r.inverseOn? (g.model far).modelType.name) far) g := by
  have hholds := mayHold_of_farTypes hchecked hg.registry hr (hg.typed far hfar) hleads
  obtain ⟨loaded, hload, hreceives, hfitted⟩ := Model.exists_receives hg horderly hr hholds
  have hrecord : g.recordBefore m far r = (g.model m).record := by
    rw [Graph.recordBefore, hside]
  rw [← hrecord] at hreceives
  have hcases := hreceives.wayBack_cases hfitted hchecked hg hm hr hleads
  rw [Resolved.heldSingly_of_child hside] at hcases
  rw [Resolved.holdsSingle_of_child hside, if_neg (by simp)] at hload
  rw [Model.putChild_eq]
  rcases hcases with ⟨e, hlacks, hrun⟩ | ⟨hall, ⟨⟩, linked, hrun⟩
  · refine .inl ⟨e, loaded, hlacks, ?_, hreceives⟩
    rw [hload.run_bind, run_bind_of_error hrun]
  · have hid : Returns m.id? linked (linked.model m).record.id linked :=
      Model.returns_id.mpr ⟨rfl, rfl⟩
    have hstamp := Model.returns_stamp_id far r.foreignKey (linked.model m).record.id r.cardinality
      linked
    exact .inr ⟨hall, (), _, returns_bind.mpr ⟨(), loaded, hload,
      returns_bind.mpr ⟨(), linked, hrun, returns_bind.mpr ⟨_, linked, hid, hstamp⟩⟩⟩⟩

/-- A put is refused, or stops at the way back, or answers. -/
theorem put_cases (hchecked : g.registry.Checked) (hg : g.WellFormed) (horderly : g.Orderly)
    (hm : g.HasModel m) (hfar : g.HasModel far) (name : String) :
    (∃ e, g.Refuses m name far e ∧ (m.put name far : Action σ Unit) g = (.error e, g)) ∨
    (∃ r e g', g.LacksWayBack m name far r e ∧
      (m.put name far : Action σ Unit) g = (.error e, g') ∧
      g.Receives m name r.holdsSingle far (g.recordBefore m far r) g') ∨
    (∀ r e, ¬ g.LacksWayBack m name far r e) ∧ Succeeds (m.put name far) g := by
  have hrefused : ∀ e, g.Refuses m name far e → ∃ e, g.Refuses m name far e ∧
      (m.put name far : Action σ Unit) g = (.error e, g) :=
    fun e hrefuses => ⟨e, hrefuses, run_put_of_refused hrefuses⟩
  cases hr : g.registry.resolve (g.model m).modelType.name name with
  | error e => exact .inl (hrefused e (.inl hr))
  | ok r =>
      by_cases hleads : (g.model far).modelType.name ∈ r.farTypes
      · have hput := run_put_of_leads hr hleads
        right
        cases hside : r.side with
        | parent =>
            rw [hside] at hput
            rcases putParent_cases hchecked hg horderly hm hfar hr hleads hside with
              ⟨e, g', hlacks, hrun, hreceives⟩ | ⟨hall, u, g', hrun⟩
            · exact .inl ⟨r, e, g', hlacks, hput.trans hrun, hreceives⟩
            · exact .inr ⟨hall, u, g', hput.trans hrun⟩
        | child =>
            rw [hside] at hput
            rcases putChild_cases hchecked hg horderly hm hfar hr hleads hside with
              ⟨e, g', hlacks, hrun, hreceives⟩ | ⟨hall, u, g', hrun⟩
            · exact .inl ⟨r, e, g', hlacks, hput.trans hrun, hreceives⟩
            · exact .inr ⟨hall, u, g', hput.trans hrun⟩
      · exact .inl (hrefused _ (.inr ⟨r, hr, hleads, rfl⟩))

end Calls

/-- Over any store, in a registry that builds and in every graph that calls lead to: if a put
fails, it was refused and nothing at all has changed; or it lacked the way back, and then the far
model came to the other one, and nothing else has changed. A put that lacks the way back does
fail. -/
theorem put_fails_refused_or_midway [RecordStore σ] {Kept : σ → Prop} {g : Graph σ}
    (hkept : RecordStore.Keeps Kept) (hg : Graph.Reachable Kept g) {types : List ModelType}
    (hbuild : Registry.build types = .ok g.registry) {m far : Model} (hm : g.HasModel m)
    (hfar : g.HasModel far) (name : String) :
    (∀ e g', (m.put name far : Action σ Unit) g = (.error e, g') →
      (g.Refuses m name far e ∧ g' = g) ∨
      far ≠ m ∧ ∃ r, g.LacksWayBack m name far r e ∧
        g.Receives m name r.holdsSingle far (g.recordBefore m far r) g') ∧
    ∀ r e, g.LacksWayBack m name far r e →
      ∃ g', (m.put name far : Action σ Unit) g = (.error e, g') := by
  have hwf := (hg.sound hkept).wellFormed
  have hcases := put_cases (Registry.checked_of_build hbuild) hwf (hg.orderly hkept) hm hfar name
  constructor
  · intro e g' hfail
    rcases hcases with ⟨e', hrefuses, hrun⟩ | ⟨r, e', half, hlacks, hrun, hreceives⟩ |
      ⟨-, u, last, hrun⟩
    · obtain ⟨he, rfl⟩ := Prod.mk.inj (hfail.symm.trans hrun)
      obtain rfl := Except.error.inj he
      exact .inl ⟨hrefuses, rfl⟩
    · obtain ⟨he, rfl⟩ := Prod.mk.inj (hfail.symm.trans hrun)
      obtain rfl := Except.error.inj he
      exact .inr ⟨hlacks.ne hwf hfar, r, hlacks, hreceives⟩
    · cases hfail.symm.trans hrun
  · intro r e hlacks
    rcases hcases with ⟨e', hrefuses, -⟩ | ⟨r', e', g', hlacks', hrun, -⟩ | ⟨hall, -⟩
    · exact absurd hlacks (hrefuses.not_lacksWayBack r e)
    · exact ⟨g', by rw [hlacks.error_eq hlacks', hrun]⟩
    · exact absurd hlacks (hall r e)

namespace Library

/-- An author with reviews that do not resolve, for articles do not declare a reviewer. -/
def reviewedAuthor : ModelType := author.declare (.referenced "reviews" "article" "reviewer")

/-- Such an author, and an article that is not saved yet. -/
def commissioned : Graph MemoryStore :=
  let g := (Model.forgeById session "author" "ann" (opened [reviewedAuthor, article])).2
  (Model.forgeNew session "article" g).2

theorem reachable_commissioned : Graph.Reachable MemoryStore.Filed commissioned := by
  have htypes : ∀ t ∈ [reviewedAuthor, article], t.WellFormed := by
    simp [reviewedAuthor, wellFormed_author.declare, wellFormed_article]
  exact .call (.call (reachable_opened htypes) (.forgeById _ _ _)) (.forgeNew _ _)

/-- The graph after the author was put to the article. -/
def assigned : Graph MemoryStore := (Model.put ⟨1⟩ "author" ⟨0⟩ commissioned).2

/-- The author cannot be told of the article, for her reviews do not resolve. -/
theorem put_assigned : Model.put ⟨1⟩ "author" ⟨0⟩ commissioned =
    (.error (.relationshipNotDefined "article" "reviewer"), assigned) := by
  refine Prod.ext ?_ rfl
  decide +kernel

/-- The author is as she was, and the article, with her for its author, has her key. That the
article was to be its own author was refused. -/
theorem commissioned_put_fails :
    (∀ e g', Model.put ⟨1⟩ "author" ⟨1⟩ commissioned = (.error e, g') → g' = commissioned) ∧
    Model.put ⟨1⟩ "author" ⟨0⟩ commissioned =
      (.error (.relationshipNotDefined "article" "reviewer"), assigned) ∧
    assigned.model ⟨0⟩ = commissioned.model ⟨0⟩ ∧
    (assigned.model ⟨1⟩).parents.get? "author" = some ⟨0⟩ ∧
    (assigned.model ⟨1⟩).record.referenceIds "writer" "target_id" = ["ann"] := by
  have hbuild : Registry.build [reviewedAuthor, article] = .ok commissioned.registry := rfl
  have hfails : ∀ far, commissioned.HasModel far → ∀ e g',
      Model.put ⟨1⟩ "author" far commissioned = (.error e, g') →
        (commissioned.Refuses ⟨1⟩ "author" far e ∧ g' = commissioned) ∨
        far ≠ ⟨1⟩ ∧ ∃ r, commissioned.LacksWayBack ⟨1⟩ "author" far r e ∧
          commissioned.Receives ⟨1⟩ "author" r.holdsSingle far
            (commissioned.recordBefore ⟨1⟩ far r) g' :=
    fun far hfar => (put_fails_refused_or_midway MemoryStore.keeps_filed reachable_commissioned
      hbuild (by decide +kernel) hfar "author").1
  refine ⟨fun e g' hfail => ?_, put_assigned, ?_⟩
  · exact ((hfails ⟨1⟩ (by decide +kernel) e g' hfail).resolve_right fun h => h.1 rfl).2
  · rcases hfails ⟨0⟩ (by decide +kernel) _ _ put_assigned with
      ⟨-, hsame⟩ | ⟨hother, r, ⟨hr, -⟩, hreceives⟩
    · have hparents : (assigned.model ⟨1⟩).parents.get? "author" ≠
          (commissioned.model ⟨1⟩).parents.get? "author" := by decide +kernel
      exact absurd (by rw [hsame]) hparents
    · have hresolved : commissioned.registry.resolve (commissioned.model ⟨1⟩).modelType.name
          "author" = .ok (resolvedOf commissioned ⟨1⟩ "author") :=
        eq_ok_of_isOk (by decide +kernel) _
      obtain rfl := Except.ok.inj (hr.symm.trans hresolved)
      refine ⟨hreceives.others ⟨0⟩ hother, ?_, ?_⟩
      · rw [hreceives.parents, if_pos (by decide +kernel)]
      · rw [hreceives.own]
        decide +kernel

/-- The put fails, and leaves the article with the author loaded and with its key written. -/
theorem assigned_midway :
    Registry.build [reviewedAuthor, article] = .ok commissioned.registry ∧
    Graph.Reachable MemoryStore.Filed commissioned ∧ commissioned.HasModel ⟨1⟩ ∧
    commissioned.HasModel ⟨0⟩ ∧
    Model.put ⟨1⟩ "author" ⟨0⟩ commissioned =
      (.error (.relationshipNotDefined "article" "reviewer"), assigned) ∧
    (commissioned.model ⟨1⟩).parents.get? "author" = none ∧
    (assigned.model ⟨1⟩).parents.get? "author" = some ⟨0⟩ ∧
    (commissioned.model ⟨1⟩).record.referenceIds "writer" "target_id" = [] ∧
    (assigned.model ⟨1⟩).record.referenceIds "writer" "target_id" = ["ann"] := by
  refine ⟨rfl, reachable_commissioned, by decide +kernel, by decide +kernel, put_assigned, ?_⟩
  decide +kernel

end Library

end RecordGraph
