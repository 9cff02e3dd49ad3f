/-
# What registries promise

A model type files every relationship under its own name and marks it as its own, and a
registry files every model type under its name. These two facts hold by the way types are
declared and registries are built; from them follows what a resolved relationship has to do
with the declaration that it comes from, and with the declaration of its way back.
-/
import RecordGraph.Proofs.OrderedMaps
import RecordGraph.Proofs.Returns
import RecordGraph.Query.ModelQuery

namespace RecordGraph

/-! ## Types and registries as they are built -/

/-- Every relationship is filed under its name and knows the type that declares it. -/
def ModelType.WellFormed (t : ModelType) : Prop :=
  ∀ name r, t.relationships.get? name = some r → r.name = name ∧ r.source = t.name

namespace ModelType

theorem wellFormed_new (name entityType bundle : String) :
    (new name entityType bundle).WellFormed := by
  intro _ _ h
  simp [new] at h

theorem WellFormed.declare {t : ModelType} (h : t.WellFormed) (r : Relationship) :
    (t.declare r).WellFormed := by
  intro name declared hdeclared
  simp only [ModelType.declare, OrderedMap.get?_insert] at hdeclared
  split at hdeclared
  · rename_i hname
    rw [Option.some.injEq] at hdeclared
    subst hdeclared
    exact ⟨hname, rfl⟩
  · exact h name declared hdeclared

theorem WellFormed.requireField {t : ModelType} (h : t.WellFormed) (field : String) :
    (t.requireField field).WellFormed := h

theorem WellFormed.addValidator {t : ModelType} (h : t.WellFormed) (v : Record → ViolationList) :
    (t.addValidator v).WellFormed := h

end ModelType

/-- Every model type is filed under its name and is well formed. -/
def Registry.WellFormed (g : Registry) : Prop :=
  ∀ name t, g.types.get? name = some t → t.name = name ∧ t.WellFormed

namespace Registry

theorem get_eq_ok {g : Registry} {name : String} {t : ModelType} :
    g.get name = .ok t ↔ g.types.get? name = some t := by
  unfold get
  cases g.types.get? name with
  | none => simp
  | some found => simp

end Registry

theorem ModelType.relationship_eq_ok {t : ModelType} {name : String} {r : Relationship} :
    t.relationship name = .ok r ↔ t.relationships.get? name = some r := by
  unfold relationship
  cases t.relationships.get? name with
  | none => simp
  | some found => simp

/-! ## Resolved relationships and their declarations -/

namespace Resolved

/-- Whether a far model holds a single member: it has the foreign key, for one identifier. -/
def heldSingly (r : Resolved) : Bool := r.side = .child && r.cardinality = .single

variable {r : Resolved}

theorem holdsSingle_of_parent (h : r.side = .parent) :
    r.holdsSingle = decide (r.cardinality = .single) := by
  simp [holdsSingle, h]

theorem holdsSingle_of_child (h : r.side = .child) : r.holdsSingle = false := by
  simp [holdsSingle, h]

/-- Only a single key leads to a single model. -/
theorem single_of_holdsSingle (h : r.holdsSingle = true) :
    r.side = .parent ∧ r.cardinality = .single := by
  simpa [holdsSingle] using h

theorem multiple_of_holdsSingle (hside : r.side = .parent) (h : r.holdsSingle = false) :
    r.cardinality = .multiple := by
  cases hcardinality : r.cardinality with
  | single => simp [holdsSingle, hside, hcardinality] at h
  | multiple => rfl

theorem heldSingly_of_parent (h : r.side = .parent) : r.heldSingly = false := by
  simp [heldSingly, h]

theorem heldSingly_of_child (h : r.side = .child) :
    r.heldSingly = decide (r.cardinality = .single) := by
  simp [heldSingly, h]

end Resolved

namespace Registry

variable {g : Registry} {typeName name : String} {resolved : Resolved}

theorem mem_values_of_resolveAll {resolvedAll : OrderedMap String Resolved}
    (h : g.resolveAll typeName = .ok resolvedAll) : ∃ t, g.get typeName = .ok t ∧
      ∀ key r, resolvedAll.get? key = some r →
        ∃ declared ∈ t.relationships.values, declared.name = key ∧
          g.resolveRelationship t declared = .ok r := by
  simp only [resolveAll, except_bind_eq_ok] at h
  obtain ⟨t, ht, hfold⟩ := h
  refine ⟨t, ht, except_foldlM_invariant hfold (fun found => ∀ key r, found.get? key = some r →
    ∃ declared ∈ t.relationships.values, declared.name = key ∧
      g.resolveRelationship t declared = .ok r) (by simp) ?_⟩
  intro declared hmem found found' hfound hturn key r hget
  simp only [except_bind_eq_ok, except_pure_eq_ok] at hturn
  obtain ⟨r', hresolve, rfl⟩ := hturn
  rw [OrderedMap.get?_insert] at hget
  split at hget
  · rename_i hkey
    rw [Option.some.injEq] at hget
    exact ⟨declared, hmem, hkey, hget ▸ hresolve⟩
  · exact hfound key r hget

/-- A resolved relationship comes from the declaration of its name. -/
theorem declared_of_resolve (hg : g.WellFormed) (h : g.resolve typeName name = .ok resolved) :
    ∃ t declared, g.get typeName = .ok t ∧ t.name = typeName ∧
      t.relationship name = .ok declared ∧ declared.name = name ∧ declared.source = typeName ∧
      g.resolveRelationship t declared = .ok resolved := by
  simp only [resolve, except_bind_eq_ok] at h
  obtain ⟨resolvedAll, hall, hanswer⟩ := h
  split at hanswer
  · rename_i r hget
    rw [except_pure_eq_ok] at hanswer
    subst hanswer
    obtain ⟨t, ht, hfrom⟩ := mem_values_of_resolveAll hall
    obtain ⟨declared, hmem, hname, hresolve⟩ := hfrom name _ hget
    obtain ⟨htname, htwf⟩ := hg typeName t (get_eq_ok.mp ht)
    obtain ⟨key, hkey⟩ := OrderedMap.mem_values_iff.mp hmem
    obtain ⟨hfiled, hsource⟩ := htwf key declared hkey
    rw [hfiled.symm.trans hname] at hkey
    exact ⟨t, declared, ht, htname, ModelType.relationship_eq_ok.mpr hkey, hname,
      hsource.trans htname, hresolve⟩
  · exact absurd hanswer except_throw_ne_ok

end Registry

namespace Relationship

/-- How many identifiers the foreign key holds, on the side that holds it. -/
def cardinality? (r : Relationship) : Option Cardinality :=
  match r.kind with
  | .field _ _ cardinality _ => some cardinality
  | .parent .. => some .single
  | _ => none

theorem side_of_foreignKey {r : Relationship} {k : ForeignKey} (h : r.foreignKey = .ok k) :
    r.side = .parent := by
  unfold foreignKey at h
  unfold side
  split at h
  · rename_i hkind
    rw [hkind]
  · rename_i hkind
    rw [hkind]
  · simp at h

theorem side_of_isInverseOf {r : Relationship} {modelType name : String}
    (h : r.isInverseOf modelType name = true) : r.side = .child := by
  unfold isInverseOf at h
  unfold side
  split at h
  · rename_i hkind
    rw [hkind]
  · rename_i hkind
    rw [hkind]
  · simp at h

theorem cardinality_of_side_child {r : Relationship} (h : r.side = .child) :
    r.cardinality? = none := by
  unfold side at h
  unfold cardinality?
  split at h
  · cases h
  · cases h
  · rename_i hkind
    rw [hkind]
  · rename_i hkind
    rw [hkind]

/-- A relationship is the inverse of one relationship only. -/
theorem eq_of_isInverseOf {r : Relationship} {modelType name other otherName : String}
    (h : r.isInverseOf modelType name = true) (hother : r.isInverseOf other otherName = true) :
    other = modelType ∧ otherName = name := by
  unfold isInverseOf at h hother
  split at h
  · rename_i hkind
    simp only [hkind, Bool.and_eq_true, decide_eq_true_eq] at h hother
    exact ⟨hother.1.symm.trans h.1, hother.2.symm.trans h.2⟩
  · rename_i hkind
    simp only [hkind, Bool.and_eq_true, decide_eq_true_eq] at h hother
    exact ⟨hother.1.symm.trans h.1, hother.2.symm.trans h.2⟩
  · cases h

end Relationship

/-- Whether models of the type hold a single model under the name: the relationship has the
foreign key, for one identifier. -/
def ModelType.holdsSingle (t : ModelType) (name : String) : Bool :=
  (t.relationships.get? name).any fun r => r.cardinality? = some .single

namespace Registry

variable {g : Registry} {t : ModelType} {declared : Relationship} {resolved : Resolved}

/-- A relationship that holds the foreign key keeps its own key, cardinality and targets, and
looks for ways back on its targets. -/
theorem resolveRelationship_parent (h : g.resolveRelationship t declared = .ok resolved)
    (hside : resolved.side = .parent) :
    declared.foreignKey = .ok resolved.foreignKey ∧
      declared.cardinality? = some resolved.cardinality ∧ resolved.name = declared.name ∧
      g.inversesFrom t.name declared.name resolved.farTypes = .ok resolved.inverses := by
  unfold resolveRelationship at h
  cases hkind : declared.kind with
  | field key target cardinality access =>
      simp only [hkind, except_bind_eq_ok, except_pure_eq_ok] at h
      obtain ⟨inverses, hinverses, rfl⟩ := h
      exact ⟨by simp [Relationship.foreignKey, hkind],
        by simp [Relationship.cardinality?, hkind], rfl, hinverses⟩
  | parent key modelType =>
      simp only [hkind, except_bind_eq_ok, except_pure_eq_ok] at h
      obtain ⟨inverses, hinverses, rfl⟩ := h
      exact ⟨by simp [Relationship.foreignKey, hkind],
        by simp [Relationship.cardinality?, hkind], rfl, hinverses⟩
  | referenced modelType fieldRelationship =>
      simp only [hkind, except_bind_eq_ok] at h
      obtain ⟨other, -, h⟩ := h
      split at h
      · split at h
        · rw [except_pure_eq_ok] at h
          subst h
          simp at hside
        · exact absurd h except_throw_ne_ok
      · exact absurd h except_throw_ne_ok
  | child modelType parentRelationship =>
      simp only [hkind, except_bind_eq_ok] at h
      obtain ⟨other, -, h⟩ := h
      split at h
      · rw [except_pure_eq_ok] at h
        subst h
        simp at hside
      · exact absurd h except_throw_ne_ok

/-- A relationship that holds nothing takes key and cardinality from its counterpart, which
is its only way back. -/
theorem resolveRelationship_child (h : g.resolveRelationship t declared = .ok resolved)
    (hside : resolved.side = .child) :
    ∃ far back other, g.counterpart far back = .ok other ∧
      declared.isInverseOf far back = true ∧ other.foreignKey = .ok resolved.foreignKey ∧
      other.cardinality? = some resolved.cardinality ∧ resolved.name = declared.name ∧
      resolved.polymorphic = false ∧ resolved.farTypes = [far] ∧
      resolved.inverses = OrderedMap.empty.insert far back := by
  unfold resolveRelationship at h
  cases hkind : declared.kind with
  | field key target cardinality access =>
      simp only [hkind, except_bind_eq_ok, except_pure_eq_ok] at h
      obtain ⟨inverses, -, rfl⟩ := h
      simp at hside
  | parent key modelType =>
      simp only [hkind, except_bind_eq_ok, except_pure_eq_ok] at h
      obtain ⟨inverses, -, rfl⟩ := h
      simp at hside
  | referenced modelType fieldRelationship =>
      simp only [hkind, except_bind_eq_ok] at h
      obtain ⟨other, hother, h⟩ := h
      split at h
      · rename_i key target cardinality access hotherKind
        split at h
        · rw [except_pure_eq_ok] at h
          subst h
          exact ⟨modelType, fieldRelationship, other, hother,
            by simp [Relationship.isInverseOf, hkind],
            by simp [Relationship.foreignKey, hotherKind],
            by simp [Relationship.cardinality?, hotherKind], rfl, rfl, rfl, rfl⟩
        · exact absurd h except_throw_ne_ok
      · exact absurd h except_throw_ne_ok
  | child modelType parentRelationship =>
      simp only [hkind, except_bind_eq_ok] at h
      obtain ⟨other, hother, h⟩ := h
      split at h
      · rename_i key far hotherKind
        rw [except_pure_eq_ok] at h
        subst h
        exact ⟨modelType, parentRelationship, other, hother,
          by simp [Relationship.isInverseOf, hkind],
          by simp [Relationship.foreignKey, hotherKind],
          by simp [Relationship.cardinality?, hotherKind], rfl, rfl, rfl, rfl⟩
      · exact absurd h except_throw_ne_ok

/-- The side of a resolved relationship is that of its declaration. -/
theorem side_of_resolveRelationship (h : g.resolveRelationship t declared = .ok resolved) :
    resolved.side = declared.side := by
  cases hside : resolved.side with
  | parent =>
      obtain ⟨hkey, -⟩ := resolveRelationship_parent h hside
      exact (Relationship.side_of_foreignKey hkey).symm
  | child =>
      obtain ⟨far, back, -, -, hinverse, -⟩ := resolveRelationship_child h hside
      exact (Relationship.side_of_isInverseOf hinverse).symm

/-- A resolved relationship keeps its name. -/
theorem name_of_resolve (hg : g.WellFormed) {typeName name : String}
    (h : g.resolve typeName name = .ok resolved) : resolved.name = name := by
  obtain ⟨owner, declared, -, -, -, hname, -, hresolve⟩ := declared_of_resolve hg h
  cases hside : resolved.side with
  | parent => exact (resolveRelationship_parent hresolve hside).2.2.1.trans hname
  | child =>
      obtain ⟨_, _, _, -, -, -, -, hsame, -⟩ := resolveRelationship_child hresolve hside
      exact hsame.trans hname

/-- The ways back are what each far type answers for itself. -/
theorem findInverse_of_inversesFrom {owner name : String} {fars : List String}
    {inverses : OrderedMap String String} (h : g.inversesFrom owner name fars = .ok inverses) :
    (∀ far ∈ fars, g.findInverse far owner name = .ok (inverses.get? far)) ∧
      ∀ far, far ∉ fars → inverses.get? far = none := by
  unfold inversesFrom at h
  induction fars using List.reverseRecOn generalizing inverses with
  | nil =>
      rw [List.foldlM_nil, except_pure_eq_ok] at h
      simp [h]
  | append_singleton fars last ih =>
      simp only [List.foldlM_append, List.foldlM_cons, List.foldlM_nil, except_bind_eq_ok,
        except_pure_eq_ok] at h
      obtain ⟨before, hbefore, _, ⟨answer, hlast, hturn⟩, rfl⟩ := h
      obtain ⟨hin, hout⟩ := ih hbefore
      cases answer with
      | none =>
          rw [except_pure_eq_ok] at hturn
          subst hturn
          have hnone : inverses.get? last = none := by
            by_cases hmem : last ∈ fars
            · exact Except.ok.inj ((hin last hmem).symm.trans hlast)
            · exact hout last hmem
          refine ⟨fun far hfar => ?_, fun far hfar => hout far (by simp_all)⟩
          rcases List.mem_append.mp hfar with hmem | hmem
          · exact hin far hmem
          · rw [List.mem_singleton.mp hmem, hnone, hlast]
      | some inverse =>
          rw [except_pure_eq_ok] at hturn
          subst hturn
          refine ⟨fun far hfar => ?_, fun far hfar => ?_⟩
          · rw [OrderedMap.get?_insert]
            by_cases hsame : last = far
            · rw [if_pos hsame, ← hsame, hlast]
            · rw [if_neg hsame]
              exact hin far (by simpa [Ne.symm hsame] using hfar)
          · rw [List.mem_append, List.mem_singleton, not_or] at hfar
            rw [OrderedMap.get?_insert, if_neg (Ne.symm hfar.2)]
            exact hout far hfar.1

/-- A way back on a far type is declared there as the inverse. -/
theorem declared_of_inversesFrom {owner name : String} {fars : List String}
    {inverses : OrderedMap String String} (h : g.inversesFrom owner name fars = .ok inverses) :
    ∀ far inverse, inverses.get? far = some inverse → ∃ t, g.get far = .ok t ∧
      ∃ back ∈ t.relationships.values, back.name = inverse ∧
        back.isInverseOf owner name = true := by
  intro far inverse hinverse
  obtain ⟨hin, hout⟩ := findInverse_of_inversesFrom h
  have hfar : far ∈ fars := by
    by_contra hnot
    rw [hout far hnot] at hinverse
    cases hinverse
  have hfind := hin far hfar
  rw [findInverse, except_bind_eq_ok] at hfind
  obtain ⟨t, ht, hanswer⟩ := hfind
  rw [except_pure_eq_ok, hinverse] at hanswer
  obtain ⟨back, hback, hname⟩ := Option.map_eq_some_iff.mp hanswer.symm
  exact ⟨t, ht, back, List.mem_of_find?_eq_some hback, hname, by simpa using List.find?_some hback⟩

/-! ## Both ends of an edge -/

/-- The far types are the declared targets, and there is a choice where one is declared. -/
theorem farTypes_of_resolveRelationship (h : g.resolveRelationship t declared = .ok resolved) :
    resolved.farTypes = declared.targets ∧ resolved.polymorphic = declared.isPolymorphic := by
  unfold resolveRelationship at h
  cases hkind : declared.kind with
  | field key target cardinality access =>
      simp only [hkind, except_bind_eq_ok, except_pure_eq_ok] at h
      obtain ⟨inverses, -, rfl⟩ := h
      simp [Relationship.targets, Relationship.isPolymorphic, hkind]
  | parent key modelType =>
      simp only [hkind, except_bind_eq_ok, except_pure_eq_ok] at h
      obtain ⟨inverses, -, rfl⟩ := h
      simp [Relationship.targets, Relationship.isPolymorphic, hkind]
  | referenced modelType fieldRelationship =>
      simp only [hkind, except_bind_eq_ok] at h
      obtain ⟨other, -, h⟩ := h
      split at h
      · split at h
        · rw [except_pure_eq_ok] at h
          subst h
          simp [Relationship.targets, Relationship.isPolymorphic, hkind]
        · exact absurd h except_throw_ne_ok
      · exact absurd h except_throw_ne_ok
  | child modelType parentRelationship =>
      simp only [hkind, except_bind_eq_ok] at h
      obtain ⟨other, -, h⟩ := h
      split at h
      · rw [except_pure_eq_ok] at h
        subst h
        simp [Relationship.targets, Relationship.isPolymorphic, hkind]
      · exact absurd h except_throw_ne_ok

/-- Every far type of a resolved relationship is registered. -/
theorem get_of_mem_farTypes {typeName name : String} (hwf : g.WellFormed)
    (h : g.resolve typeName name = .ok resolved) {far : String} (hfar : far ∈ resolved.farTypes) :
    ∃ u, g.get far = .ok u := by
  obtain ⟨t, declared, -, -, -, -, -, hdeclared⟩ := declared_of_resolve hwf h
  cases hside : resolved.side with
  | parent =>
      obtain ⟨-, -, -, hinverses⟩ := resolveRelationship_parent hdeclared hside
      have hfind := (findInverse_of_inversesFrom hinverses).1 far hfar
      rw [findInverse, except_bind_eq_ok] at hfind
      obtain ⟨u, hu, -⟩ := hfind
      exact ⟨u, hu⟩
  | child =>
      obtain ⟨farName, back, other, hother, -, -, -, -, -, hfarTypes, -⟩ :=
        resolveRelationship_child hdeclared hside
      rw [hfarTypes, List.mem_singleton] at hfar
      rw [counterpart, except_bind_eq_ok] at hother
      obtain ⟨u, hu, -⟩ := hother
      exact ⟨u, hfar ▸ hu⟩

/-- A relationship without the foreign key is referenced, and its counterpart leads to its type,
or it is the child relationship of a tree, whose keys hold one identifier. -/
theorem leadsBack_or_child (h : g.resolveRelationship t declared = .ok resolved)
    (hside : resolved.side = .child) :
    ∃ far back other, declared.isInverseOf far back = true ∧ g.counterpart far back = .ok other ∧
      (declared.kind = .referenced far back ∧ t.name ∈ other.targets ∨
        declared.kind = .child far back ∧ resolved.cardinality = .single) := by
  unfold resolveRelationship at h
  cases hkind : declared.kind with
  | field key target cardinality access =>
      simp only [hkind, except_bind_eq_ok, except_pure_eq_ok] at h
      obtain ⟨inverses, -, rfl⟩ := h
      cases hside
  | parent key modelType =>
      simp only [hkind, except_bind_eq_ok, except_pure_eq_ok] at h
      obtain ⟨inverses, -, rfl⟩ := h
      cases hside
  | referenced modelType fieldRelationship =>
      simp only [hkind, except_bind_eq_ok] at h
      obtain ⟨other, hother, h⟩ := h
      split at h
      · rename_i key target cardinality access hotherKind
        split at h
        · rename_i hcontains
          exact ⟨modelType, fieldRelationship, other, by simp [Relationship.isInverseOf, hkind],
            hother, .inl ⟨rfl, by simpa [Relationship.targets, hotherKind] using hcontains⟩⟩
        · exact absurd h except_throw_ne_ok
      · exact absurd h except_throw_ne_ok
  | child modelType parentRelationship =>
      simp only [hkind, except_bind_eq_ok] at h
      obtain ⟨other, hother, h⟩ := h
      split at h
      · rw [except_pure_eq_ok] at h
        subst h
        exact ⟨modelType, parentRelationship, other, by simp [Relationship.isInverseOf, hkind],
          hother, .inr ⟨rfl, rfl⟩⟩
      · exact absurd h except_throw_ne_ok

/-- The counterpart of a relationship for several identifiers points back at its type. -/
theorem mem_targets_of_multiple (h : g.resolveRelationship t declared = .ok resolved)
    (hside : resolved.side = .child) (hmultiple : resolved.cardinality = .multiple) :
    ∃ far back other, declared.isInverseOf far back = true ∧
      g.counterpart far back = .ok other ∧ t.name ∈ other.targets := by
  obtain ⟨far, back, other, hisInverse, hother, ⟨-, hmem⟩ | ⟨-, hsingle⟩⟩ :=
    leadsBack_or_child h hside
  · exact ⟨far, back, other, hisInverse, hother, hmem⟩
  · exact absurd (hsingle.symm.trans hmultiple) (by simp)

section WaysBack

variable {typeName name inverse : String} {far : ModelType}

/-- The way back of a relationship with the foreign key is declared as its inverse. -/
theorem declared_wayBack_of_parent (hg : g.WellFormed) (hfar : g.get far.name = .ok far)
    (hresolve : g.resolve typeName name = .ok resolved) (hside : resolved.side = .parent)
    (hinverse : resolved.inverseOn? far.name = some inverse) :
    ∃ back, far.relationship inverse = .ok back ∧ back.isInverseOf typeName name = true := by
  obtain ⟨t, declared, -, htname, -, hname, -, hdeclared⟩ := declared_of_resolve hg hresolve
  obtain ⟨-, -, -, hinverses⟩ := resolveRelationship_parent hdeclared hside
  obtain ⟨u, hu, back, hback, hbackName, hisInverse⟩ :=
    declared_of_inversesFrom hinverses far.name inverse hinverse
  obtain rfl : far = u := Except.ok.inj (hfar.symm.trans hu)
  obtain ⟨key, hkey⟩ := OrderedMap.mem_values_iff.mp hback
  obtain ⟨hkeyName, -⟩ := (hg far.name far (get_eq_ok.mp hfar)).2 key back hkey
  rw [← hkeyName, hbackName] at hkey
  exact ⟨back, ModelType.relationship_eq_ok.mpr hkey, by rw [← htname, ← hname]; exact hisInverse⟩

/-- A relationship without the foreign key is declared as the inverse of its way back, which
has the key. -/
theorem declared_wayBack_of_child (hg : g.WellFormed) (hfar : g.get far.name = .ok far)
    (hresolve : g.resolve typeName name = .ok resolved) (hside : resolved.side = .child)
    (hinverse : resolved.inverseOn? far.name = some inverse) :
    ∃ t declared back, g.get typeName = .ok t ∧ t.relationship name = .ok declared ∧
      declared.isInverseOf far.name inverse = true ∧ far.relationship inverse = .ok back ∧
      back.foreignKey = .ok resolved.foreignKey ∧
      back.cardinality? = some resolved.cardinality := by
  obtain ⟨t, declared, ht, -, hfiled, -, -, hdeclared⟩ := declared_of_resolve hg hresolve
  obtain ⟨farName, backName, back, hback, hisInverse, hkey, hcard, -, -, -, hinverses⟩ :=
    resolveRelationship_child hdeclared hside
  rw [Resolved.inverseOn?, hinverses, OrderedMap.get?_insert] at hinverse
  split at hinverse
  · rename_i hname
    obtain rfl : backName = inverse := Option.some.inj hinverse
    subst hname
    simp only [counterpart, except_bind_eq_ok] at hback
    obtain ⟨u, hu, hfiledBack⟩ := hback
    obtain rfl : far = u := Except.ok.inj (hfar.symm.trans hu)
    exact ⟨t, declared, back, ht, hfiled, hisInverse, hfiledBack, hkey, hcard⟩
  · simp at hinverse

/-- The way back of a relationship without the foreign key is the one that holds it. -/
theorem wayBack_of_child {far : String} {back : Resolved}
    (hg : g.WellFormed) (hresolve : g.resolve typeName name = .ok resolved)
    (hside : resolved.side = .child) (hinverse : resolved.inverseOn? far = some inverse)
    (hback : g.resolve far inverse = .ok back) : back.side = .parent ∧
      back.foreignKey = resolved.foreignKey ∧ back.cardinality = resolved.cardinality := by
  obtain ⟨u, declaredBack, hu, rfl, hfiled, -, -, hresolveBack⟩ := declared_of_resolve hg hback
  obtain ⟨-, -, other, -, -, -, hotherFiled, hkey, hcard⟩ :=
    declared_wayBack_of_child hg hu hresolve hside hinverse
  obtain rfl : declaredBack = other := Except.ok.inj (hfiled.symm.trans hotherFiled)
  have hbackSide : back.side = .parent :=
    (side_of_resolveRelationship hresolveBack).trans (Relationship.side_of_foreignKey hkey)
  obtain ⟨hbackKey, hbackCard, -⟩ := resolveRelationship_parent hresolveBack hbackSide
  exact ⟨hbackSide, Except.ok.inj (hbackKey.symm.trans hkey),
    Option.some.inj (hbackCard.symm.trans hcard)⟩

/-- The way back of a relationship with the foreign key shares the key and leads back. -/
theorem wayBack_of_parent {far : String} {back : Resolved}
    (hg : g.WellFormed) (hresolve : g.resolve typeName name = .ok resolved)
    (hside : resolved.side = .parent) (hinverse : resolved.inverseOn? far = some inverse)
    (hback : g.resolve far inverse = .ok back) : back.side = .child ∧
      back.foreignKey = resolved.foreignKey ∧ back.cardinality = resolved.cardinality ∧
      back.farTypes = [typeName] ∧ back.inverseOn? typeName = some name := by
  obtain ⟨u, declaredBack, hu, rfl, hfiled, -, -, hresolveBack⟩ := declared_of_resolve hg hback
  obtain ⟨other, hotherFiled, hisInverse⟩ :=
    declared_wayBack_of_parent hg hu hresolve hside hinverse
  obtain rfl : declaredBack = other := Except.ok.inj (hfiled.symm.trans hotherFiled)
  have hbackSide : back.side = .child :=
    (side_of_resolveRelationship hresolveBack).trans (Relationship.side_of_isInverseOf hisInverse)
  obtain ⟨owner, ownerName, opposite, hopposite, hsame, hkey, hcard, -, -, hfars, hinverses⟩ :=
    resolveRelationship_child hresolveBack hbackSide
  obtain ⟨rfl, rfl⟩ := Relationship.eq_of_isInverseOf hisInverse hsame
  obtain ⟨t, declared, ht, -, hdeclared, -, -, hresolved⟩ := declared_of_resolve hg hresolve
  rw [counterpart, ht, except_bind_eq_ok] at hopposite
  obtain ⟨t', ht', hopposite⟩ := hopposite
  obtain rfl := Except.ok.inj ht'
  obtain rfl : declared = opposite := Except.ok.inj (hdeclared.symm.trans hopposite)
  obtain ⟨hown, hownCard, -⟩ := resolveRelationship_parent hresolved hside
  exact ⟨hbackSide, Except.ok.inj (hkey.symm.trans hown),
    Option.some.inj (hcard.symm.trans hownCard), hfars, by simp [Resolved.inverseOn?, hinverses]⟩

/-- A way back with a key for several identifiers leads back. -/
theorem mem_farTypes_wayBack_of_multiple {far : String} {back : Resolved}
    (hg : g.WellFormed) (hresolve : g.resolve typeName name = .ok resolved)
    (hside : resolved.side = .child) (hmultiple : resolved.cardinality = .multiple)
    (hinverse : resolved.inverseOn? far = some inverse)
    (hback : g.resolve far inverse = .ok back) : typeName ∈ back.farTypes := by
  obtain ⟨u, declaredBack, hu, rfl, hfiled, -, -, hresolveBack⟩ := declared_of_resolve hg hback
  obtain ⟨t, own, ht, rfl, hown, -, -, hresolved⟩ := declared_of_resolve hg hresolve
  obtain ⟨t', same, -, ht', hsame, hisInverse, -⟩ :=
    declared_wayBack_of_child hg hu hresolve hside hinverse
  obtain rfl : t = t' := Except.ok.inj (ht.symm.trans ht')
  obtain rfl : own = same := Except.ok.inj (hown.symm.trans hsame)
  obtain ⟨farName, backName, other, hother, hcounterpart, hleads⟩ :=
    mem_targets_of_multiple hresolved hside hmultiple
  obtain ⟨rfl, rfl⟩ := Relationship.eq_of_isInverseOf hisInverse hother
  rw [counterpart, hu] at hcounterpart
  obtain rfl : declaredBack = other := Except.ok.inj (hfiled.symm.trans hcounterpart)
  rw [(farTypes_of_resolveRelationship hresolveBack).1]
  exact hleads

/-- Whether a model holds a single one under a name can be read off the declaration. -/
theorem holdsSingle_of_resolve {t : ModelType} (hg : g.WellFormed) (ht : g.get t.name = .ok t)
    (hresolve : g.resolve t.name name = .ok resolved) :
    t.holdsSingle name = resolved.holdsSingle := by
  obtain ⟨u, declared, hu, -, hfiled, -, -, hdeclared⟩ := declared_of_resolve hg hresolve
  obtain rfl : t = u := Except.ok.inj (ht.symm.trans hu)
  rw [ModelType.holdsSingle, ModelType.relationship_eq_ok.mp hfiled, Option.any_some]
  cases hside : resolved.side with
  | parent =>
      obtain ⟨-, hcard, -⟩ := resolveRelationship_parent hdeclared hside
      rw [Resolved.holdsSingle_of_parent hside, hcard]
      simp
  | child =>
      have hnone := Relationship.cardinality_of_side_child
        ((side_of_resolveRelationship hdeclared).symm.trans hside)
      rw [Resolved.holdsSingle_of_child hside, hnone]
      simp

/-- The way back of a relationship holds a single model exactly when the relationship itself
is on the side without the foreign key and the key holds a single identifier. -/
theorem holdsSingle_inverse (hg : g.WellFormed) (hfar : g.get far.name = .ok far)
    (hresolve : g.resolve typeName name = .ok resolved)
    (hinverse : resolved.inverseOn? far.name = some inverse) :
    far.holdsSingle inverse = resolved.heldSingly := by
  cases hside : resolved.side with
  | parent =>
      obtain ⟨back, hfiled, hisInverse⟩ :=
        declared_wayBack_of_parent hg hfar hresolve hside hinverse
      have hnone := Relationship.cardinality_of_side_child
        (Relationship.side_of_isInverseOf hisInverse)
      rw [Resolved.heldSingly_of_parent hside, ModelType.holdsSingle,
        ModelType.relationship_eq_ok.mp hfiled, Option.any_some, hnone]
      simp
  | child =>
      obtain ⟨-, -, back, -, -, -, hfiled, -, hcard⟩ :=
        declared_wayBack_of_child hg hfar hresolve hside hinverse
      rw [Resolved.heldSingly_of_child hside, ModelType.holdsSingle,
        ModelType.relationship_eq_ok.mp hfiled, Option.any_some, hcard]
      simp

/-- The same for a way back that resolves. -/
theorem holdsSingle_wayBack {far : String} {back : Resolved}
    (hg : g.WellFormed) (hresolve : g.resolve typeName name = .ok resolved)
    (hinverse : resolved.inverseOn? far = some inverse)
    (hback : g.resolve far inverse = .ok back) :
    back.holdsSingle = resolved.heldSingly := by
  obtain ⟨u, -, hu, rfl, -⟩ := declared_of_resolve hg hback
  exact (holdsSingle_of_resolve hg hu hback).symm.trans
    (holdsSingle_inverse hg hu hresolve hinverse)

end WaysBack

end Registry

end RecordGraph
