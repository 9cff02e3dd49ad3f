/-
# Putting a model into a relationship

A model that is put into a relationship whose key it holds itself comes into the collection of
the owner. The owner is loaded as its parent on the way back, and the identifier of the owner is
written into its key. Nothing is stored. Only single keys are described here.
-/
import RecordGraph.Proofs.Connecting.Steps
import RecordGraph.Proofs.Saving.Children

namespace RecordGraph

namespace Graph

variable {σ : Type}

/-- The collection is loaded under the name, and was made for it if there was none. -/
structure Opens (g t : Graph σ) (owner : Model) (name : String) (c : Collection) : Prop where
  registry : t.registry = g.registry
  model : ∀ m, t.model m = { g.model m with children := (t.model m).children }
  children : ∀ m other, m ≠ owner ∨ other ≠ name →
    (t.model m).children.get? other = (g.model m).children.get? other
  loaded : (t.model owner).children.get? name = some c
  slot : (g.model owner).children.get? name = some c ∨
    (g.model owner).children.get? name = none ∧ c = g.nextCollection
  snapshot : ∀ e ∈ (t.collection c).snapshot.entries,
    (g.model owner).children.get? name = some c ∧ e ∈ (g.collection c).snapshot.entries
  collection : ∀ e, e ≠ c → t.collection e = g.collection e

/-- A far model was put into a relationship of an owner, and the owner was loaded as its parent
on the way back. -/
structure Connects (g t : Graph σ) (owner far : Model) (name : String) (back : Option String)
    (c : Collection) : Prop where
  registry : t.registry = g.registry
  modelType : ∀ m, (t.model m).modelType = (g.model m).modelType
  keepsIds : g.KeepsIds t
  parents : ∀ other, (t.model far).parents.get? other =
    if back = some other then some owner else (g.model far).parents.get? other
  children : ∀ m other, m ≠ owner ∨ other ≠ name →
    (t.model m).children.get? other = (g.model m).children.get? other
  loaded : (t.model owner).children.get? name = some c
  slot : (g.model owner).children.get? name = some c ∨
    (g.model owner).children.get? name = none ∧ c = g.nextCollection
  member : (t.collection c).members.get? (g.model far).key = some far
  snapshot : ∀ e ∈ (t.collection c).snapshot.entries,
    (g.model owner).children.get? name = some c ∧ e ∈ (g.collection c).snapshot.entries
  collection : ∀ e, e ≠ c → t.collection e = g.collection e

end Graph

namespace Model

variable {σ : Type} {g g' : Graph σ} {owner far : Model} {r : Resolved} {name id : String}

theorem opens_of_childrenOr {c : Collection} (h : Returns (owner.childrenOr name r) g c g') :
    g.Opens g' owner name c := by
  rcases returns_childrenOr h with ⟨hloaded, rfl⟩ | ⟨hnone, rfl, membership, rfl⟩
  · exact ⟨rfl, fun _ => rfl, fun _ _ _ => rfl, hloaded, .inl hloaded, fun e he => ⟨hloaded, he⟩,
      fun _ _ => rfl⟩
  · refine ⟨rfl, fun m => ?_, fun m other hother => ?_, by simp, .inr ⟨hnone, rfl⟩, fun e he => ?_,
      fun e he => ?_⟩
    · rw [Graph.model_setModel]
      split
      · rename_i hsame
        rw [hsame]
      · rfl
    · rw [Graph.model_setModel]
      split
      · rename_i hsame
        have hname : name ≠ other := (hother.resolve_left fun hne => hne hsame.symm).symm
        rw [OrderedMap.get?_insert, if_neg hname, hsame]
      · rfl
    · simp at he
    · simp [he]

/-- The way back is loaded as the single parent, if there is one. -/
theorem returns_receiveBack {back : Option String}
    (h : Returns (far.receiveBack true back owner) g () g') :
    g'.registry = g.registry ∧ g'.collections = g.collections ∧
      (∀ m, g'.model m = { g.model m with parents := (g'.model m).parents }) ∧
      ∀ other, (g'.model far).parents.get? other =
        if back = some other then some owner else (g.model far).parents.get? other := by
  cases back with
  | none =>
      obtain ⟨rfl, -⟩ := returns_pure.mp h
      exact ⟨rfl, rfl, fun _ => rfl, by simp⟩
  | some inverse =>
      have hset := returns_setParent.mp h
      have hparents := g.model_setModel_parents far ((g.model far).parents.insert inverse owner)
      rw [← hset] at hparents
      exact ⟨by rw [hset]; rfl, by rw [hset]; rfl, fun m => by rw [hparents],
        fun other => by simp [hparents]⟩

/-- The far model comes into the collection, the owner becomes its parent on the way back, and
the identifier of the owner is written into the key. -/
theorem returns_putChild {back : Option String} (hsingle : r.cardinality = .single)
    (hplain : r.foreignKey.Plain) (hid : (g.model owner).record.id = some id) (hblank : id ≠ "")
    (h : Returns (owner.putChild r name back far) g () g') :
    ∃ c, g.Connects g' owner far name back c ∧ g'.keyIds r.foreignKey far = [id] := by
  obtain ⟨filled, linked, hload, hway, hstamp⟩ := putChild_steps h
  obtain ⟨c, opened, hslot, hput⟩ := returns_bind.mp hload
  have hopens := opens_of_childrenOr hslot
  obtain ⟨membership, hfilled⟩ := Collection.returns_put hput
  have hmodel : ∀ m, filled.model m = { g.model m with children := (opened.model m).children } := by
    intro m
    rw [hfilled]
    exact hopens.model m
  rw [decide_eq_true hsingle] at hway
  obtain ⟨hregistry, hcollections, hparents, hback⟩ := returns_receiveBack hway
  have hown : (linked.model owner).record.id = some id := by
    rw [hparents owner, hmodel owner]
    exact hid
  rw [hown] at hstamp
  have hadd : Returns (far.addReferenceId r.foreignKey id r.cardinality) linked () g' := hstamp
  obtain ⟨record, rfl, hsame, hentity, hrefers⟩ := returns_addReferenceId hplain hadd
  have hrefers := hrefers hblank
  rw [hsingle] at hrefers
  have hlast : ∀ m, linked.model m = { g.model m with
      parents := (linked.model m).parents, children := (opened.model m).children } := by
    intro m
    rw [hparents m, hmodel m]
  have hcollection : ∀ e, linked.collection e = filled.collection e := by
    intro e
    rw [Graph.collection, hcollections]
    rfl
  have hkeepsIds : g.KeepsIds linked :=
    ⟨fun m id hm => by rw [hlast m]; exact hm, fun m => by rw [hlast m]⟩
  refine ⟨c, ⟨?_, fun m => ?_, ?_, fun other => ?_, fun m other hother => ?_, ?_, hopens.slot, ?_,
    fun e he => ?_, fun e he => ?_⟩, ?_⟩
  · rw [Graph.registry_setRecord, hregistry, hfilled]
    exact hopens.registry
  · rw [Graph.model_setRecord, hlast m]
  · exact hkeepsIds.trans (.setRecord (fun id hm => hsame.trans hm) hentity)
  · rw [Graph.model_setRecord, hback, hmodel far]
  · rw [Graph.model_setRecord, hlast m]
    exact hopens.children m other hother
  · rw [Graph.model_setRecord, hlast owner]
    exact hopens.loaded
  · rw [Graph.collection_setRecord, hcollection, hfilled, hopens.model far]
    simp
  · rw [Graph.collection_setRecord, hcollection, hfilled] at he
    exact hopens.snapshot e (by simpa using he)
  · rw [Graph.collection_setRecord, hcollection, hfilled, Graph.collection_setCollection,
      if_neg (Ne.symm he)]
    exact hopens.collection e he
  · rw [Graph.keyIds, Graph.model_setRecord, if_pos rfl]
    exact hrefers

/-- A call finds the far type admitted, and what it does depends on the side on which the model
stands. -/
theorem returns_put (h : Returns (owner.put name far) g () g') :
    ∃ r, g.registry.resolve (g.model owner).modelType.name name = .ok r ∧
      (g.model far).modelType.name ∈ r.farTypes ∧
      (r.side = .parent → Returns
        (owner.putParent r name (r.inverseOn? (g.model far).modelType.name) far) g () g') ∧
      (r.side = .child → Returns
        (owner.putChild r name (r.inverseOn? (g.model far).modelType.name) far) g () g') := by
  simp only [put, returns_bind, returns_resolve, returns_modelType, and_assoc,
    exists_eq_left] at h
  obtain ⟨r, hresolve, h⟩ := h
  split at h
  · simp at h
  · rename_i hleads
    refine ⟨r, hresolve, by simpa using hleads, fun hside => ?_, fun hside => ?_⟩
    · rwa [hside] at h
    · rwa [hside] at h

theorem returns_put_sides
    (hresolve : g.registry.resolve (g.model owner).modelType.name name = .ok r)
    (h : Returns (owner.put name far) g () g') : (g.model far).modelType.name ∈ r.farTypes ∧
      (r.side = .parent → Returns
        (owner.putParent r name (r.inverseOn? (g.model far).modelType.name) far) g () g') ∧
      (r.side = .child → Returns
        (owner.putChild r name (r.inverseOn? (g.model far).modelType.name) far) g () g') := by
  obtain ⟨resolved, hresolved, hsides⟩ := returns_put h
  obtain rfl : r = resolved := Except.ok.inj (hresolve.symm.trans hresolved)
  exact hsides

/-- Putting a far model with a single key into a relationship connects both, and writes the
identifier of the owner into the key. -/
theorem returns_put_child
    (hresolve : g.registry.resolve (g.model owner).modelType.name name = .ok r)
    (hside : r.side = .child) (hsingle : r.cardinality = .single) (hplain : r.foreignKey.Plain)
    (hid : (g.model owner).record.id = some id) (hblank : id ≠ "")
    (h : Returns (owner.put name far) g () g') :
    ∃ c, g.Connects g' owner far name (r.inverseOn? (g.model far).modelType.name) c ∧
      g'.keyIds r.foreignKey far = [id] := by
  obtain ⟨-, -, hchild⟩ := returns_put_sides hresolve h
  exact returns_putChild hsingle hplain hid hblank (hchild hside)

end Model

end RecordGraph
