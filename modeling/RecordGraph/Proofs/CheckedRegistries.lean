/-
# What building a registry checks

A registry is built only if no two types share a bundle and every relationship points at
registered types, at several ones only within one entity type. So the far models of a
relationship that resolves can be asked for by one query, a record tells which of the far types
it is of, and all far models may come into one collection.
-/
import RecordGraph.Proofs.BuiltRegistries

namespace RecordGraph.Registry

variable {g : Registry} {typeName name : String} {resolved : Resolved}

/-! ## Checks -/

/-- Bundles tell types apart, and all relationships point where they may. -/
structure Checked (g : Registry) : Prop where
  bundles : ∀ t ∈ g.types.values, ∀ u ∈ g.types.values, t.entityType = u.entityType →
    t.bundle = u.bundle → t = u
  targets : ∀ t ∈ g.types.values, g.checkType t = .ok ()

theorem mem_values_of_get {t : ModelType} (h : g.get name = .ok t) : t ∈ g.types.values :=
  OrderedMap.mem_values_iff.mpr ⟨name, get_eq_ok.mp h⟩

theorem checked_of_build {types : List ModelType} (h : build types = .ok g) : g.Checked := by
  obtain ⟨hconsistent, hlists⟩ := build_eq_ok_iff.mp h
  constructor
  · intro t ht u hu hentity hbundle
    rw [hlists.values] at ht hu
    exact List.inj_on_of_nodup_map hconsistent.bundles ht hu (Prod.ext hentity hbundle)
  · intro t ht
    rw [hlists.values] at ht
    exact hlists.checkType_iff.mpr (hconsistent.points t ht)

namespace Checked

/-- The targets of one relationship for several types share an entity type. -/
theorem entityType_of_polymorphic (h : g.Checked) {t : ModelType} {r : Relationship}
    (ht : t ∈ g.types.values) (hr : r ∈ t.relationships.values) (hpolymorphic : r.isPolymorphic)
    {one two : String} (hone : one ∈ r.targets) (htwo : two ∈ r.targets) {u v : ModelType}
    (hu : g.get one = .ok u) (hv : g.get two = .ok v) : u.entityType = v.entityType := by
  have hcheck := except_forM_eq_ok.mp (h.targets t ht) r hr
  simp only [checkRelationship, except_bind_eq_ok] at hcheck
  obtain ⟨entityTypes, hfound, hcheck⟩ := hcheck
  have hu' := mem_targetEntityTypes hfound hone hu
  have hv' := mem_targetEntityTypes hfound htwo hv
  rcases entityTypes with _ | ⟨only, _ | ⟨second, rest⟩⟩
  · cases hu'
  · rw [List.mem_singleton.mp hu', List.mem_singleton.mp hv']
  · simp [hpolymorphic] at hcheck

end Checked

/-! ## Relationships that resolve -/

/-- The relationships of a type resolve all together. -/
theorem exists_resolve_of_declared (hg : g.WellFormed)
    (h : g.resolve typeName name = .ok resolved) {t : ModelType} (ht : g.get typeName = .ok t)
    {other : String} {declared : Relationship} (hdeclared : t.relationship other = .ok declared) :
    ∃ r, g.resolve typeName other = .ok r := by
  have hfiled := ModelType.relationship_eq_ok.mp hdeclared
  have hname : declared.name = other :=
    ((hg typeName t (get_eq_ok.mp ht)).2 other declared hfiled).1
  rw [resolve, except_bind_eq_ok] at h
  obtain ⟨resolvedAll, hall, -⟩ := h
  have hthere : (resolvedAll.get? other).isSome = true := by
    simp only [resolveAll, ht, except_bind_eq_ok, Except.ok.injEq, exists_eq_left'] at hall
    refine except_foldlM_established hall (OrderedMap.mem_values_iff.mpr ⟨other, hfiled⟩)
      (fun found => (found.get? other).isSome = true) ?_ ?_
    · intro found found' hturn
      simp only [except_bind_eq_ok, except_pure_eq_ok] at hturn
      obtain ⟨r, -, rfl⟩ := hturn
      simp [hname]
    · intro another _ found found' hfound hturn
      simp only [except_bind_eq_ok, except_pure_eq_ok] at hturn
      obtain ⟨r, -, rfl⟩ := hturn
      rw [OrderedMap.get?_insert]
      split
      · rfl
      · exact hfound
  obtain ⟨r, hr⟩ := Option.isSome_iff_exists.mp hthere
  exact ⟨r, by simp [resolve, hall, hr]⟩

/-- Without a choice there is one far type. -/
theorem exists_farTypes_singleton (hg : g.WellFormed) (h : g.resolve typeName name = .ok resolved)
    (hone : resolved.polymorphic = false) : ∃ far, resolved.farTypes = [far] := by
  obtain ⟨t, declared, -, -, -, -, -, hresolve⟩ := declared_of_resolve hg h
  obtain ⟨htargets, hpolymorphic⟩ := farTypes_of_resolveRelationship hresolve
  rw [hpolymorphic, Relationship.isPolymorphic] at hone
  rw [htargets, Relationship.targets]
  cases hkind : declared.kind with
  | field key target cardinality access =>
      cases target with
      | model far => exact ⟨far, rfl⟩
      | polymorphic fars => simp [hkind] at hone
  | referenced far _ => exact ⟨far, rfl⟩
  | parent _ far => exact ⟨far, rfl⟩
  | child far _ => exact ⟨far, rfl⟩

/-- All far types of a relationship share an entity type. -/
theorem Checked.entityType_of_farTypes (hchecked : g.Checked) (hg : g.WellFormed)
    (h : g.resolve typeName name = .ok resolved) {one two : String}
    (hone : one ∈ resolved.farTypes) (htwo : two ∈ resolved.farTypes) {u v : ModelType}
    (hu : g.get one = .ok u) (hv : g.get two = .ok v) : u.entityType = v.entityType := by
  cases hchoice : resolved.polymorphic with
  | false =>
      obtain ⟨far, hfar⟩ := exists_farTypes_singleton hg h hchoice
      rw [hfar, List.mem_singleton] at hone htwo
      subst hone htwo
      rw [Except.ok.inj (hu.symm.trans hv)]
  | true =>
      obtain ⟨t, declared, ht, -, hdeclared, -, -, hresolve⟩ := declared_of_resolve hg h
      obtain ⟨htargets, hpolymorphic⟩ := farTypes_of_resolveRelationship hresolve
      exact hchecked.entityType_of_polymorphic (mem_values_of_get ht)
        (OrderedMap.mem_values_iff.mpr ⟨name, ModelType.relationship_eq_ok.mp hdeclared⟩)
        (hpolymorphic.symm.trans hchoice) (htargets ▸ hone) (htargets ▸ htwo) hu hv

/-! ## Queries for far models -/

section Querying

variable {declared : Relationship} {q : ModelQuery}

/-- The types that a query for far models wraps in are the far types. -/
theorem types_of_relationshipQuery (h : g.resolve declared.source declared.name = .ok resolved)
    (hq : g.relationshipQuery declared = .ok q) :
    resolved.farTypes.mapM g.get = .ok q.wrapping.types := by
  simp only [relationshipQuery, h, except_bind_eq_ok, Except.ok.injEq, exists_eq_left'] at hq
  obtain ⟨types, htypes, hq⟩ := hq
  split at hq
  · rw [except_pure_eq_ok] at hq
    subst hq
    exact htypes
  · unfold ModelQuery.ofTypes at hq
    split at hq
    · cases hq
    · split at hq
      · cases hq
      · obtain rfl := Except.ok.inj hq
        exact htypes

theorem mem_farTypes_of_mem_types (hg : g.WellFormed)
    (h : g.resolve declared.source declared.name = .ok resolved)
    (hq : g.relationshipQuery declared = .ok q) {u : ModelType} (hu : u ∈ q.wrapping.types) :
    u.name ∈ resolved.farTypes := by
  obtain ⟨far, hfar, hget⟩ := mem_of_except_mapM (types_of_relationshipQuery h hq) u hu
  rwa [(hg far u (get_eq_ok.mp hget)).1]

theorem mem_types_of_mem_farTypes (h : g.resolve declared.source declared.name = .ok resolved)
    (hq : g.relationshipQuery declared = .ok q) {u : ModelType} (hu : g.get u.name = .ok u)
    (hleads : u.name ∈ resolved.farTypes) : u ∈ q.wrapping.types := by
  obtain ⟨v, hv, hget⟩ :=
    exists_mem_of_except_mapM (types_of_relationshipQuery h hq) u.name hleads
  rwa [Except.ok.inj (hu.symm.trans hget)]

/-- Types of one entity type can be queried together. -/
theorem exists_ofTypes {ts : List ModelType} (hsome : ts ≠ [])
    (hsame : ∀ u ∈ ts, ∀ v ∈ ts, u.entityType = v.entityType) :
    ∃ q, ModelQuery.ofTypes ts = .ok q := by
  cases hq : ModelQuery.ofTypes ts with
  | ok q => exact ⟨q, rfl⟩
  | error e =>
      unfold ModelQuery.ofTypes at hq
      split at hq
      · exact absurd rfl hsome
      · split at hq
        · rename_i first rest _ other hother
          have hne := List.find?_some hother
          rw [decide_eq_true_eq] at hne
          exact absurd (hsame other (List.mem_of_find?_eq_some hother) first (by simp)) hne
        · cases hq

/-- The far models of a relationship that leads anywhere can be queried. -/
theorem Checked.exists_relationshipQuery (hchecked : g.Checked) (hg : g.WellFormed)
    (h : g.resolve declared.source declared.name = .ok resolved)
    (hsome : resolved.farTypes ≠ []) : ∃ q, g.relationshipQuery declared = .ok q := by
  obtain ⟨types, htypes⟩ : ∃ types, resolved.farTypes.mapM g.get = .ok types :=
    exists_except_mapM fun far hfar => get_of_mem_farTypes hg h hfar
  have hsame : ∀ u ∈ types, ∀ v ∈ types, u.entityType = v.entityType := by
    intro u hu v hv
    obtain ⟨one, hone, hgetOne⟩ := mem_of_except_mapM htypes u hu
    obtain ⟨two, htwo, hgetTwo⟩ := mem_of_except_mapM htypes v hv
    exact hchecked.entityType_of_farTypes hg h hone htwo hgetOne hgetTwo
  rcases types with _ | ⟨only, _ | ⟨second, rest⟩⟩
  · obtain ⟨first, hfirst⟩ := List.exists_mem_of_ne_nil _ hsome
    obtain ⟨u, hu, -⟩ := exists_mem_of_except_mapM htypes first hfirst
    cases hu
  · exact ⟨_, except_bind_eq_ok.mpr ⟨resolved, h, except_bind_eq_ok.mpr ⟨[only], htypes, rfl⟩⟩⟩
  · obtain ⟨q, hq⟩ := exists_ofTypes (by simp) hsame
    exact ⟨q, except_bind_eq_ok.mpr ⟨resolved, h, except_bind_eq_ok.mpr ⟨_, htypes, hq⟩⟩⟩

end Querying

end RecordGraph.Registry
