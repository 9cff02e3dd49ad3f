/-
# Both ends of an edge

A relationship without the foreign key takes the key and its cardinality from its counterpart.
This module looks at the edge from the counterpart: it stands on the side with the key, and if
it leads to the type of the relationship at all, it finds a way back there that is declared
against it.

A referenced relationship resolves only if its counterpart leads to its type. The child
relationship of a tree resolves without this, so between several model types of one entity type
a tree can be declared whose parents are never of the type that lists them as its children; a
registry with such a tree stands at the end.
-/
import RecordGraph.Proofs.CheckedRegistries

namespace RecordGraph

namespace Registry

variable {g : Registry} {owner far name inverse : String} {r back : Resolved}

/-- Whether the counterpart of a tree's child relationship leads to the type that declares it. For
relationships of the other kinds nothing is asked. -/
def treeLeadsBack (g : Registry) (owner name : String) : Bool :=
  (g.counterpart owner name).toOption.all fun declared =>
    match declared.kind with
    | .child far parent =>
      (g.counterpart far parent).toOption.any fun other => other.targets.contains owner
    | _ => true

/-- The way back leads to the type of the relationship, unless the relationship belongs to a tree
whose parents are of another type. -/
theorem mem_farTypes_wayBack_iff (hg : g.WellFormed) (hresolve : g.resolve owner name = .ok r)
    (hside : r.side = .child) (hinverse : r.inverseOn? far = some inverse)
    (hback : g.resolve far inverse = .ok back) :
    owner ∈ back.farTypes ↔ g.treeLeadsBack owner name = true := by
  obtain ⟨u, declaredBack, hu, rfl, hfiled, -, -, hresolveBack⟩ := declared_of_resolve hg hback
  obtain ⟨t, own, ht, rfl, hown, -, -, hresolved⟩ := declared_of_resolve hg hresolve
  obtain ⟨t', same, -, ht', hsame, hisInverse, -⟩ :=
    declared_wayBack_of_child hg hu hresolve hside hinverse
  obtain rfl : t = t' := Except.ok.inj (ht.symm.trans ht')
  obtain rfl : own = same := Except.ok.inj (hown.symm.trans hsame)
  have hcounterpart : g.counterpart u.name inverse = .ok declaredBack := by
    rw [counterpart, hu]
    exact hfiled
  have hthere : g.counterpart t.name name = .ok own := by
    rw [counterpart, ht]
    exact hown
  obtain ⟨farName, backName, other, hother, hothers, hleads⟩ := leadsBack_or_child hresolved hside
  obtain ⟨rfl, rfl⟩ := Relationship.eq_of_isInverseOf hisInverse hother
  obtain rfl : declaredBack = other := Except.ok.inj (hcounterpart.symm.trans hothers)
  rw [(farTypes_of_resolveRelationship hresolveBack).1, treeLeadsBack, hthere]
  obtain ⟨hreferenced, hmem⟩ | ⟨hchild, -⟩ := hleads
  · simp [Except.toOption, hreferenced, hmem]
  · simp [Except.toOption, hchild, hcounterpart]

/-- A relationship with the foreign key finds a way back on each far type that declares one
against it. -/
theorem exists_wayBack_of_declared (hg : g.WellFormed) (hback : g.resolve far inverse = .ok back)
    (hside : back.side = .parent) (hleads : owner ∈ back.farTypes) {t : ModelType}
    (ht : g.get owner = .ok t) {declared : Relationship}
    (hdeclared : declared ∈ t.relationships.values)
    (hisInverse : declared.isInverseOf far inverse = true) :
    ∃ wayBack, back.inverseOn? owner = some wayBack := by
  obtain ⟨u, declaredBack, -, rfl, -, rfl, -, hresolveBack⟩ := declared_of_resolve hg hback
  obtain ⟨-, -, -, hinverses⟩ := resolveRelationship_parent hresolveBack hside
  have hfind := (findInverse_of_inversesFrom hinverses).1 owner hleads
  rw [findInverse, ht, except_bind_eq_ok] at hfind
  obtain ⟨t', ht', hanswer⟩ := hfind
  obtain rfl := Except.ok.inj ht'
  rw [except_pure_eq_ok] at hanswer
  have hsome : (t.relationships.values.find?
      (·.isInverseOf u.name declaredBack.name)).isSome = true :=
    List.find?_isSome.mpr ⟨declared, hdeclared, hisInverse⟩
  obtain ⟨found, hfound⟩ := Option.isSome_iff_exists.mp hsome
  exact ⟨found.name, by rw [Resolved.inverseOn?, hanswer, hfound, Option.map_some]⟩

/-- In a registry that builds, the way back of a relationship without the foreign key has the key,
with the same field, column and cardinality. It leads to the type of the relationship, unless the
relationship belongs to a tree whose parents are of another type; and where it does, it finds a
way back there, which has no key and is declared against it. -/
theorem wayBack_is_counterpart {types : List ModelType} (htypes : ∀ t ∈ types, t.WellFormed)
    (hbuild : build types = .ok g) (hresolve : g.resolve owner name = .ok r)
    (hside : r.side = .child) (hinverse : r.inverseOn? far = some inverse)
    (hback : g.resolve far inverse = .ok back) :
    back.side = .parent ∧ back.foreignKey = r.foreignKey ∧ back.cardinality = r.cardinality ∧
      (owner ∈ back.farTypes ↔ g.treeLeadsBack owner name = true) ∧
      (g.treeLeadsBack owner name = true → ∃ wayBack t declared again,
        back.inverseOn? owner = some wayBack ∧ g.get owner = .ok t ∧
        t.relationship wayBack = .ok declared ∧ declared.isInverseOf far inverse = true ∧
        g.resolve owner wayBack = .ok again ∧ again.side = .child ∧ again.farTypes = [far] ∧
        again.inverseOn? far = some inverse) := by
  have hg := wellFormed_build htypes hbuild
  obtain ⟨hparent, hkey, hcardinality⟩ := wayBack_of_child hg hresolve hside hinverse hback
  have hleads := mem_farTypes_wayBack_iff hg hresolve hside hinverse hback
  refine ⟨hparent, hkey, hcardinality, hleads, fun htree => ?_⟩
  obtain ⟨u, -, hu, rfl, -⟩ := declared_of_resolve hg hback
  obtain ⟨t, own, -, ht, hown, hisInverse, -⟩ :=
    declared_wayBack_of_child hg hu hresolve hside hinverse
  obtain rfl : t.name = owner := (hg owner t (get_eq_ok.mp ht)).1
  have hmem : own ∈ t.relationships.values :=
    OrderedMap.mem_values_iff.mpr ⟨name, ModelType.relationship_eq_ok.mp hown⟩
  obtain ⟨wayBack, hwayBack⟩ :=
    exists_wayBack_of_declared hg hback hparent (hleads.mpr htree) ht hmem hisInverse
  obtain ⟨declared, hdeclared, hagainst⟩ := declared_wayBack_of_parent hg ht hback hparent hwayBack
  obtain ⟨again, hagain⟩ := exists_resolve_of_declared hg hresolve ht hdeclared
  obtain ⟨hchild, -, -, hfars, hinverseBack⟩ := wayBack_of_parent hg hback hparent hwayBack hagain
  exact ⟨wayBack, t, declared, again, hwayBack, ht, hdeclared, hagainst, hagain, hchild, hfars,
    hinverseBack⟩

end Registry

namespace Library

/-- A twig, which grows on something within its entity type. -/
def twig (stem : String) : ModelType :=
  (ModelType.new "twig" "node" "twig").declare (.parent "stem" "grows_on" stem)

/-- A branch, which lists twigs as its children. -/
def branch : ModelType :=
  (ModelType.new "branch" "node" "branch").declare (.child "twigs" "twig" "stem")

theorem wellFormed_plant (stem : String) : ∀ t ∈ [twig stem, branch], t.WellFormed := by
  intro t ht
  obtain rfl | rfl : t = twig stem ∨ t = branch := by simpa using ht
  · exact (ModelType.wellFormed_new _ _ _).declare _
  · exact (ModelType.wellFormed_new _ _ _).declare _

/-- The registry of twigs that grow on something, and branches. -/
def plant (stem : String) : Registry :=
  (Registry.build [twig stem, branch]).toOption.getD Registry.empty

/-- What the twigs of a branch amount to. -/
def twigs (stem : String) : Resolved :=
  ((plant stem).resolve "branch" "twigs").toOption.getD default

/-- What the stem of a twig amounts to. -/
def stem (stem : String) : Resolved := ((plant stem).resolve "twig" "stem").toOption.getD default

/-- Twigs that grow on branches: the tree spans both types, and both ends agree. -/
theorem branch_twigs_counterpart :
    Registry.build [twig "branch", branch] = .ok (plant "branch") ∧
      (plant "branch").resolve "branch" "twigs" = .ok (twigs "branch") ∧
      (plant "branch").resolve "twig" "stem" = .ok (stem "branch") ∧
      (stem "branch").side = .parent ∧
      (stem "branch").foreignKey = (twigs "branch").foreignKey ∧
      "branch" ∈ (stem "branch").farTypes ∧
      ∃ wayBack, (stem "branch").inverseOn? "branch" = some wayBack := by
  have hbuild : Registry.build [twig "branch", branch] = .ok (plant "branch") :=
    eq_ok_of_isOk (by decide +kernel) _
  have hresolve : (plant "branch").resolve "branch" "twigs" = .ok (twigs "branch") :=
    eq_ok_of_isOk (by decide +kernel) _
  have hback : (plant "branch").resolve "twig" "stem" = .ok (stem "branch") :=
    eq_ok_of_isOk (by decide +kernel) _
  have hinverse : (twigs "branch").inverseOn? "twig" = some "stem" := by
    decide +kernel
  have htree : (plant "branch").treeLeadsBack "branch" "twigs" = true := by
    decide +kernel
  obtain ⟨hside, hkey, -, hleads, hwayBack⟩ :=
    Registry.wayBack_is_counterpart (wellFormed_plant "branch") hbuild hresolve
      (by decide +kernel) hinverse hback
  obtain ⟨wayBack, -, -, -, hinverseBack, -⟩ := hwayBack htree
  exact ⟨hbuild, hresolve, hback, hside, hkey, hleads.mpr htree, wayBack, hinverseBack⟩

/-- Twigs that grow on twigs only: the branches list them all the same, and the twigs do not lead
to branches. -/
theorem branch_twigs_no_counterpart :
    ¬ ∀ (types : List ModelType) (g : Registry) (owner name far inverse : String)
      (r back : Resolved), (∀ t ∈ types, t.WellFormed) → Registry.build types = .ok g →
        g.resolve owner name = .ok r → r.side = .child → r.inverseOn? far = some inverse →
        g.resolve far inverse = .ok back → owner ∈ back.farTypes := by
  intro hleads
  have hbuild : Registry.build [twig "twig", branch] = .ok (plant "twig") :=
    eq_ok_of_isOk (by decide +kernel) _
  have hresolve : (plant "twig").resolve "branch" "twigs" = .ok (twigs "twig") :=
    eq_ok_of_isOk (by decide +kernel) _
  have hback : (plant "twig").resolve "twig" "stem" = .ok (stem "twig") :=
    eq_ok_of_isOk (by decide +kernel) _
  have hinverse : (twigs "twig").inverseOn? "twig" = some "stem" := by
    decide +kernel
  have hmem := hleads _ _ _ _ _ _ _ _ (wellFormed_plant "twig") hbuild hresolve
    (by decide +kernel) hinverse hback
  exact absurd hmem (by decide +kernel)

end Library

end RecordGraph
