/-
# Connections are known at both ends

On models with nothing loaded, connecting is symmetric: a model is among the children of an
owner exactly when some call connected the two, on whichever side, and then the owner came to
the model on the way back. What the model answers there is all owners, or, under a single key,
the last one. A model that goes over to another owner does not leave the collection of the one
before, which nothing but an exchange of the key would tell: this is the only asymmetry.

Both ends have to be readable one by one: by names that are no paths, and with members that
differ in their keys. The edge has to be one edge: of two relationships with one counterpart
the way back leads to the first.
-/
import RecordGraph.Proofs.Connecting.Links
import RecordGraph.Proofs.Fetching.WayBack

namespace RecordGraph

variable {σ : Type}

/-! ## Edges -/

namespace Registry

/-- The relationship has no foreign key, and no other relationship of its type has the same
counterpart. -/
structure Mirrors (reg : Registry) (near : ModelType) (name : String) (far : ModelType)
    (inverse : String) (resolved : Resolved) : Prop where
  resolves : reg.resolve near.name name = .ok resolved
  side : resolved.side = .child
  wayBack : resolved.inverseOn? far.name = some inverse
  only : ∀ declared ∈ near.relationships.values,
    declared.isInverseOf far.name inverse = true → declared.name = name

namespace Mirrors

variable {reg : Registry} {near far : ModelType} {name other inverse : String}
  {resolved back : Resolved}

/-- The declarations of both ends. -/
theorem declared (h : reg.Mirrors near name far inverse resolved) (hwf : reg.WellFormed)
    (hnear : reg.get near.name = .ok near) (hfar : reg.get far.name = .ok far) :
    ∃ own opposite, near.relationship name = .ok own ∧ own.isInverseOf far.name inverse = true ∧
      far.relationship inverse = .ok opposite ∧ opposite.foreignKey = .ok resolved.foreignKey := by
  obtain ⟨t, own, opposite, ht, hown, hinverse, hopposite, hkey, -⟩ :=
    declared_wayBack_of_child hwf hfar h.resolves h.side h.wayBack
  obtain rfl : near = t := Except.ok.inj (hnear.symm.trans ht)
  exact ⟨own, opposite, hown, hinverse, hopposite, hkey⟩

/-- The way back of the counterpart, where it leads here, is the relationship. -/
theorem inverseOn_counterpart (h : reg.Mirrors near name far inverse resolved)
    (hwf : reg.WellFormed) (hnear : reg.get near.name = .ok near)
    (hfar : reg.get far.name = .ok far) (hback : reg.resolve far.name inverse = .ok back)
    (hleads : near.name ∈ back.farTypes) : back.inverseOn? near.name = some name := by
  obtain ⟨own, -, hown, hinverse, -⟩ := h.declared hwf hnear hfar
  obtain ⟨hside, -⟩ := wayBack_of_child hwf h.resolves h.side h.wayBack hback
  obtain ⟨u, declaredBack, -, hu, -, hname, -, hresolve⟩ := declared_of_resolve hwf hback
  obtain ⟨-, -, -, hinverses⟩ := resolveRelationship_parent hresolve hside
  have hfind := (findInverse_of_inversesFrom hinverses).1 near.name hleads
  simp only [findInverse, hnear, except_bind_eq_ok, except_pure_eq_ok, Except.ok.injEq,
    exists_eq_left', hu, hname] at hfind
  have hmem : own ∈ near.relationships.values :=
    OrderedMap.mem_values_iff.mpr ⟨name, ModelType.relationship_eq_ok.mp hown⟩
  cases hfound : near.relationships.values.find? (·.isInverseOf far.name inverse) with
  | none => exact absurd hinverse (List.find?_eq_none.mp hfound own hmem)
  | some found =>
      have hsame : found.name = name := h.only found (List.mem_of_find?_eq_some hfound)
        (by simpa using List.find?_some hfound)
      rw [Resolved.inverseOn?, hfind, hfound, Option.map_some, hsame]

/-- No other relationship leads back by the counterpart. -/
theorem eq_of_inverseOn_far (h : reg.Mirrors near name far inverse resolved)
    (hwf : reg.WellFormed) (hnear : reg.get near.name = .ok near)
    (hfar : reg.get far.name = .ok far) (hother : reg.resolve near.name other = .ok back)
    (hback : back.inverseOn? far.name = some inverse) : other = name := by
  cases hside : back.side with
  | child =>
      obtain ⟨t, found, -, ht, hfound, hisInverse, -⟩ :=
        declared_wayBack_of_child hwf hfar hother hside hback
      obtain rfl : near = t := Except.ok.inj (hnear.symm.trans ht)
      have hfiled := ModelType.relationship_eq_ok.mp hfound
      rw [← ((hwf near.name near (get_eq_ok.mp hnear)).2 other found hfiled).1]
      exact h.only found (OrderedMap.mem_values_iff.mpr ⟨other, hfiled⟩) hisInverse
  | parent =>
      -- then the counterpart would be an inverse itself, but it has the key
      obtain ⟨found, hfound, hisInverse⟩ := declared_wayBack_of_parent hwf hfar hother hside hback
      obtain ⟨-, opposite, -, -, hopposite, hkey⟩ := h.declared hwf hnear hfar
      obtain rfl : found = opposite := Except.ok.inj (hfound.symm.trans hopposite)
      have hparent := Relationship.side_of_foreignKey hkey
      rw [Relationship.side_of_isInverseOf hisInverse] at hparent
      cases hparent

/-- No other relationship of the far type leads back by this one. -/
theorem eq_of_inverseOn_near (h : reg.Mirrors near name far inverse resolved)
    (hwf : reg.WellFormed) (hnear : reg.get near.name = .ok near)
    (hfar : reg.get far.name = .ok far) (hother : reg.resolve far.name other = .ok back)
    (hback : back.inverseOn? near.name = some name) : other = inverse := by
  obtain ⟨own, -, hown, hinverse, -⟩ := h.declared hwf hnear hfar
  cases hside : back.side with
  | parent =>
      obtain ⟨found, hfound, hisInverse⟩ :=
        declared_wayBack_of_parent hwf hnear hother hside hback
      obtain rfl : found = own := Except.ok.inj (hfound.symm.trans hown)
      exact (Relationship.eq_of_isInverseOf hinverse hisInverse).2
  | child =>
      -- then this relationship would have the key, but it is an inverse
      obtain ⟨-, -, found, -, -, -, hfound, hkey, -⟩ :=
        declared_wayBack_of_child hwf hnear hother hside hback
      obtain rfl : found = own := Except.ok.inj (hfound.symm.trans hown)
      have hparent := Relationship.side_of_foreignKey hkey
      rw [Relationship.side_of_isInverseOf hinverse] at hparent
      cases hparent

theorem farTypes_ne_nil (h : reg.Mirrors near name far inverse resolved) (hwf : reg.WellFormed) :
    resolved.farTypes ≠ [] := by
  obtain ⟨t, declared, -, -, -, -, -, hdeclared⟩ := declared_of_resolve hwf h.resolves
  obtain ⟨farName, -, -, -, -, -, -, -, -, hfarTypes, -⟩ :=
    resolveRelationship_child hdeclared h.side
  simp [hfarTypes]

end Mirrors

end Registry

/-! ## Both directions of a link -/

namespace Graph

variable {g : Graph σ} {l : Link} {p c : Model} {name inverse : String} {resolved : Resolved}

theorem wayBack_eq_some : g.wayBack? l = some inverse ↔
    ∃ r, g.registry.resolve (g.model l.model).modelType.name l.name = .ok r ∧
      r.inverseOn? (g.model l.far).modelType.name = some inverse := by
  unfold wayBack?
  cases g.registry.resolve (g.model l.model).modelType.name l.name with
  | error e => simp
  | ok r => simp

theorem mem_linksOf {k : Link} : k ∈ g.linksOf l ↔
    k = l ∨ ∃ back, g.wayBack? l = some back ∧ k = ⟨l.far, back, l.model⟩ := by
  simp [linksOf, eq_comm]

/-- A call links the owner to the model exactly when it links the model to the owner. -/
theorem mem_linksOf_iff_of_mirrors (hg : g.WellFormed) (hp : g.HasModel p) (hc : g.HasModel c)
    (h : g.registry.Mirrors (g.model p).modelType name (g.model c).modelType inverse resolved)
    (hl : g.Allows l) : ⟨c, inverse, p⟩ ∈ g.linksOf l ↔ ⟨p, name, c⟩ ∈ g.linksOf l := by
  have hwf := hg.registry
  have hnear := hg.typed p hp
  have hfar := hg.typed c hc
  rw [mem_linksOf, mem_linksOf]
  constructor
  · rintro (rfl | ⟨back, hway, hlink⟩)
    · obtain ⟨back, hback, hleads⟩ := hl
      exact .inr ⟨name, wayBack_eq_some.mpr
        ⟨back, hback, h.inverseOn_counterpart hwf hnear hfar hback hleads⟩, rfl⟩
    · obtain ⟨owner, other, far⟩ := l
      obtain ⟨rfl, rfl, rfl⟩ := Link.mk.inj hlink
      obtain ⟨r, hresolve, hinverse⟩ := wayBack_eq_some.mp hway
      have hsame : other = name := h.eq_of_inverseOn_far hwf hnear hfar hresolve hinverse
      exact .inl (by rw [hsame])
  · rintro (rfl | ⟨back, hway, hlink⟩)
    · exact .inr ⟨inverse, wayBack_eq_some.mpr ⟨resolved, h.resolves, h.wayBack⟩, rfl⟩
    · obtain ⟨owner, other, far⟩ := l
      obtain ⟨rfl, rfl, rfl⟩ := Link.mk.inj hlink
      obtain ⟨r, hresolve, hname⟩ := wayBack_eq_some.mp hway
      have hsame : other = inverse := h.eq_of_inverseOn_near hwf hnear hfar hresolve hname
      exact .inl (by rw [hsame])

/-- The models that calls bring to a model under a name, in order. -/
def cameTo (g : Graph σ) (calls : List Link) (x : Model) (name : String) : List Model :=
  arrivals (calls.flatMap g.linksOf) x name

/-- The model came to the owner exactly when the owner came to the model. -/
theorem mem_cameTo_iff_of_mirrors {calls : List Link} (hg : g.WellFormed) (hp : g.HasModel p)
    (hc : g.HasModel c)
    (h : g.registry.Mirrors (g.model p).modelType name (g.model c).modelType inverse resolved)
    (hcalls : ∀ l ∈ calls, g.Allows l) :
    p ∈ g.cameTo calls c inverse ↔ c ∈ g.cameTo calls p name := by
  have hswap : ∀ l ∈ calls, ⟨c, inverse, p⟩ ∈ g.linksOf l ↔ ⟨p, name, c⟩ ∈ g.linksOf l :=
    fun l hl => mem_linksOf_iff_of_mirrors hg hp hc h (hcalls l hl)
  rw [cameTo, cameTo, mem_arrivals, mem_arrivals, List.mem_flatMap, List.mem_flatMap]
  constructor
  · rintro ⟨l, hl, hlink⟩
    exact ⟨l, hl, (hswap l hl).mp hlink⟩
  · rintro ⟨l, hl, hlink⟩
    exact ⟨l, hl, (hswap l hl).mpr hlink⟩

end Graph

/-! ## Reading both ends -/

/-- The model is what was read, or a member of it. -/
def Related.Holds (r : Related) (g : Graph σ) (x : Model) : Prop :=
  match r with
  | .none => False
  | .model m => m = x
  | .collection c => x ∈ (g.collection c).members.values

/-- The last of several models, if there is one. -/
def Related.lastOf (ms : List Model) : Related := ms.getLast?.elim .none .model

/-- If a model is not the last one of several, then another one is, which comes later. -/
theorem Related.holds_lastOf_or {g : Graph σ} {ms : List Model} {m : Model} (h : m ∈ ms) :
    (Related.lastOf ms).Holds g m ∨
      ∃ other, other ≠ m ∧ Related.lastOf ms = .model other ∧ [m, other].Sublist ms := by
  induction ms using List.reverseRecOn with
  | nil => cases h
  | append_singleton ms last ih =>
      rw [lastOf, List.getLast?_concat]
      by_cases hlast : last = m
      · exact .inl hlast
      · have hearlier : m ∈ ms := by simpa [Ne.symm hlast] using h
        exact .inr ⟨last, hlast, rfl,
          (List.singleton_sublist.mpr hearlier).append (List.Sublist.refl [last])⟩

theorem Related.mem_of_holds_lastOf {g : Graph σ} {ms : List Model} {m : Model}
    (h : (Related.lastOf ms).Holds g m) : m ∈ ms := by
  unfold lastOf at h
  cases hlast : ms.getLast? with
  | none => rw [hlast] at h; exact h.elim
  | some last =>
      rw [hlast] at h
      obtain rfl : last = m := h
      exact List.mem_of_getLast? hlast

namespace Model

variable {t t' : Graph σ} {m : Model} {name : String} {r : Resolved} {related : Related}

theorem get_of_read (hpoint : '.' ∉ name.toList) (h : Returns (m.read name) t related t') :
    Returns ((Related.model m).get (pathSteps name)) t related t' := by
  rw [pathSteps_of_no_point hpoint, Related.get, returns_bind]
  exact ⟨related, t', h, returns_pure.mpr ⟨rfl, rfl⟩⟩

/-- What is loaded as the single parent is read. -/
theorem read_parent (hresolve : t.registry.resolve (t.model m).modelType.name name = .ok r)
    (hsingle : r.holdsSingle = true) :
    Returns (m.read name) t (((t.model m).parents.get? name).elim .none .model) t := by
  rw [read, returns_bind]
  refine ⟨r, t, returns_resolve.mpr ⟨rfl, hresolve⟩, ?_⟩
  rw [if_pos hsingle, returns_bind]
  refine ⟨_, t, returns_cachedParent.mpr ⟨rfl, rfl⟩, ?_⟩
  cases (t.model m).parents.get? name with
  | none => exact returns_pure.mpr ⟨rfl, rfl⟩
  | some p => exact returns_pure.mpr ⟨rfl, rfl⟩

theorem read_of_childrenOr {c : Collection}
    (hresolve : t.registry.resolve (t.model m).modelType.name name = .ok r)
    (hmany : r.holdsSingle = false) (h : Returns (m.childrenOr name r) t c t') :
    Returns (m.read name) t (.collection c) t' := by
  rw [read, returns_bind]
  refine ⟨r, t, returns_resolve.mpr ⟨rfl, hresolve⟩, ?_⟩
  rw [if_neg (by simp [hmany]), returns_bind]
  exact ⟨c, t', h, returns_pure.mpr ⟨rfl, rfl⟩⟩

/-- What is loaded as the collection is read. -/
theorem read_loaded {c : Collection}
    (hresolve : t.registry.resolve (t.model m).modelType.name name = .ok r)
    (hmany : r.holdsSingle = false) (hloaded : (t.model m).children.get? name = some c) :
    Returns (m.read name) t (.collection c) t :=
  read_of_childrenOr hresolve hmany (returns_childrenOr_of_loaded r hloaded)

/-- A collection can be read wherever the relationship leads to some type. -/
theorem read_children (hwf : t.registry.WellFormed)
    (hresolve : t.registry.resolve (t.model m).modelType.name name = .ok r)
    (hmany : r.holdsSingle = false) (hfar : r.farTypes ≠ []) :
    ∃ c t', Returns (m.read name) t (.collection c) t' ∧
      (t'.collection c).members = t.loadedMembers m name := by
  unfold Graph.loadedMembers
  cases hloaded : (t.model m).children.get? name with
  | some c => exact ⟨c, t, read_loaded hresolve hmany hloaded, rfl⟩
  | none =>
      obtain ⟨far, rest, hfarTypes⟩ := List.exists_cons_of_ne_nil hfar
      have hfirst : far ∈ r.farTypes := by simp [hfarTypes]
      obtain ⟨u, hu⟩ := Registry.get_of_mem_farTypes hwf hresolve hfirst
      have hmade : ∃ membership, Returns (Collection.forRelationship (t.model m).session r) t
          t.nextCollection (t.addCollection
            ⟨(t.model m).session, membership, OrderedMap.empty, OrderedMap.empty⟩) := by
        unfold Collection.forRelationship
        rw [hfarTypes]
        by_cases hpoly : r.polymorphic = true
        · exact ⟨.ofEntity (some u.entityType), by
            simp [hu, hpoly, Collection.polymorphic, and_assoc]⟩
        · exact ⟨.ofType u, by simp [hu, hpoly, Collection.ofType, and_assoc]⟩
      obtain ⟨membership, hmade⟩ := hmade
      exact ⟨t.nextCollection, t.openSlot m name membership, read_of_childrenOr hresolve hmany
        (returns_childrenOr_of_made hloaded hmade), by simp [Graph.openSlot]⟩

end Model

namespace Graph.Gathers

variable {g t : Graph σ} {links : List Link} {x : Model} {name : String} {r : Resolved}

/-- Under a single key the last model that came is read. -/
theorem get_parent (h : g.Gathers t links) (hx : g.Bare x)
    (hresolve : g.registry.resolve (g.model x).modelType.name name = .ok r)
    (hown : (g.model x).modelType.holdsSingle name = true) (hsingle : r.holdsSingle = true)
    (hpoint : '.' ∉ name.toList) :
    Returns ((Related.model x).get (pathSteps name)) t
      (.lastOf (arrivals links x name)) t := by
  rw [Related.lastOf, ← h.parent x name hx hown]
  refine Model.get_of_read hpoint (Model.read_parent (r := r) ?_ hsingle)
  rw [h.registry, h.modelType, hresolve]

/-- Elsewhere all models that came are read. -/
theorem get_children (hwf : g.registry.WellFormed) (h : g.Gathers t links) (hx : g.Bare x)
    (hresolve : g.registry.resolve (g.model x).modelType.name name = .ok r)
    (hown : (g.model x).modelType.holdsSingle name = false) (hmany : r.holdsSingle = false)
    (hfar : r.farTypes ≠ []) (hpoint : '.' ∉ name.toList)
    (hkeys : g.DistinctKeys (arrivals links x name)) :
    ∃ c t', Returns ((Related.model x).get (pathSteps name)) t (.collection c) t' ∧
      ∀ y, y ∈ (t'.collection c).members.values ↔ y ∈ arrivals links x name := by
  have hresolved : t.registry.resolve (t.model x).modelType.name name = .ok r := by
    rw [h.registry, h.modelType, hresolve]
  obtain ⟨c, t', hread, hmembers⟩ :=
    Model.read_children (h.registry ▸ hwf) hresolved hmany hfar
  refine ⟨c, t', Model.get_of_read hpoint hread, fun y => ?_⟩
  rw [hmembers, h.members x name hx hown,
    OrderedMap.values_insertAll (by simp) fun a ha b hb => hkeys a ha b hb]
  simp [OrderedMap.values]

end Graph.Gathers

namespace Graph

variable {g t : Graph σ} {calls : List Link} {p c : Model} {name inverse : String}
  {resolved back : Resolved}

/-- After a run of calls on models with nothing loaded, a model is among the children of an
owner if the way back of the model holds the owner; and the other way round, unless the way
back is a single key and the model was connected to another owner later on. Then it holds the
other owner, and the model stays among the children of the first: they are all the models that
some call connected with the owner. -/
theorem get_after_puts (hg : g.WellFormed)
    (hbare : ∀ l ∈ calls, g.Bare l.model ∧ g.Bare l.far)
    (hrun : Returns (calls.forM Link.put) g () t) (hp : g.Bare p) (hc : g.Bare c)
    (hmirrors : g.registry.Mirrors (g.model p).modelType name (g.model c).modelType inverse
      resolved)
    (hback : g.registry.resolve (g.model c).modelType.name inverse = .ok back)
    (hpoint : '.' ∉ name.toList) (hpointBack : '.' ∉ inverse.toList)
    (hkeys : g.DistinctKeys (g.cameTo calls p name))
    (hkeysBack : resolved.cardinality = .multiple → g.DistinctKeys (g.cameTo calls c inverse)) :
    ∃ children related t₁ t₂,
      Returns ((Related.model p).get (pathSteps name)) t (.collection children) t₁ ∧
      Returns ((Related.model c).get (pathSteps inverse)) t related t₂ ∧
      (match resolved.cardinality with
        | .single => related = .lastOf (g.cameTo calls c inverse)
        | .multiple => ∃ owners, related = .collection owners) ∧
      (c ∈ (t₁.collection children).members.values ↔ p ∈ g.cameTo calls c inverse) ∧
      (related.Holds t₂ p → c ∈ (t₁.collection children).members.values) ∧
      (c ∈ (t₁.collection children).members.values → related.Holds t₂ p ∨
        resolved.cardinality = .single ∧ ∃ other, other ≠ p ∧ related = .model other ∧
          [p, other].Sublist (g.cameTo calls c inverse)) := by
  obtain ⟨hfollows, hallowed⟩ := Gathers.puts hg hbare hrun
  have hmutual := mem_cameTo_iff_of_mirrors hg hp.1 hc.1 hmirrors hallowed
  have hown := Registry.holdsSingle_of_resolve hg.registry (hg.typed p hp.1) hmirrors.resolves
  rw [Resolved.holdsSingle_of_child hmirrors.side] at hown
  have hownBack := Registry.holdsSingle_of_resolve hg.registry (hg.typed c hc.1) hback
  obtain ⟨hside, -, hcard⟩ := Registry.wayBack_of_child hg.registry hmirrors.resolves
    hmirrors.side hmirrors.wayBack hback
  have hsingle := Resolved.holdsSingle_of_parent hside
  obtain ⟨children, t₁, hchildren, hmembers⟩ := hfollows.get_children hg.registry hp
    hmirrors.resolves hown (Resolved.holdsSingle_of_child hmirrors.side)
    (hmirrors.farTypes_ne_nil hg.registry) hpoint hkeys
  have hmember : c ∈ (t₁.collection children).members.values ↔ p ∈ g.cameTo calls c inverse :=
    (hmembers c).trans hmutual.symm
  rw [hcard] at hsingle
  cases hcardinality : resolved.cardinality with
  | single =>
      rw [hcardinality, decide_eq_true rfl] at hsingle
      have hrelated := hfollows.get_parent hc hback (hownBack.trans hsingle) hsingle hpointBack
      refine ⟨children, _, t₁, t, hchildren, hrelated, rfl, hmember,
        fun hholds => ?_, fun hchild => ?_⟩
      · exact hmember.mpr (Related.mem_of_holds_lastOf hholds)
      · exact (Related.holds_lastOf_or (hmember.mp hchild)).imp_right fun hmoved => ⟨rfl, hmoved⟩
  | multiple =>
      rw [hcardinality, decide_eq_false (by simp)] at hsingle
      obtain ⟨owners, t₂, howners, hcame⟩ := hfollows.get_children hg.registry hc hback
        (hownBack.trans hsingle) hsingle
        (List.ne_nil_of_mem (Registry.mem_farTypes_wayBack_of_multiple hg.registry
          hmirrors.resolves hmirrors.side hcardinality hmirrors.wayBack hback)) hpointBack
        (hkeysBack hcardinality)
      refine ⟨children, _, t₁, t₂, hchildren, howners, ⟨owners, rfl⟩, hmember, fun hholds => ?_,
        fun hc => ?_⟩
      · exact hmember.mpr ((hcame p).mp hholds)
      · exact .inl ((hcame p).mpr (hmember.mp hc))

end Graph

namespace Library

/-- The graph with both authors and the article of the first one forged, and nothing loaded. -/
def unwired : Graph MemoryStore :=
  let g := (Model.forgeById session "author" "ann" (opened [author, article])).2
  let g := (Model.forgeById session "author" "bob" g).2
  (Model.forgeById session "article" "cells" g).2

theorem reachable_unwired : Graph.Reachable MemoryStore.Filed unwired := by
  have htypes : ∀ t ∈ [author, article], t.WellFormed := by
    simp [wellFormed_author, wellFormed_article]
  exact .call (.call (.call (reachable_opened htypes) (.forgeById _ _ _)) (.forgeById _ _ _))
    (.forgeById _ _ _)

/-- The article is put to the first author, and then to the second one. -/
def handing : List Link := [⟨⟨0⟩, "articles", ⟨2⟩⟩, ⟨⟨1⟩, "articles", ⟨2⟩⟩]

/-- The graph after these calls. -/
def handedOn : Graph MemoryStore := (handing.forM Link.put unwired).2

theorem returns_handedOn : Returns (handing.forM Link.put) unwired () handedOn :=
  returns_of_isOk (by decide +kernel) ()

theorem mirrors_articles : ∀ writer ∈ both, ∃ resolved,
    unwired.registry.Mirrors (unwired.model writer).modelType "articles"
      (unwired.model ⟨2⟩).modelType "author" resolved ∧ resolved.cardinality = .single := by
  intro writer hwriter
  refine ⟨_, ⟨eq_ok_of_isOk ?_ default, ?_, ?_, ?_⟩, ?_⟩
  all_goals
    revert writer
    decide +kernel

/-- The article came to both authors, in this order. -/
theorem owners_handing : unwired.cameTo handing ⟨2⟩ "author" = [⟨0⟩, ⟨1⟩] := by
  decide +kernel

/-- The second author and the article hold each other. -/
theorem handedOn_mutual : ∃ children t₁,
    Returns ((Related.model ⟨1⟩).get (pathSteps "articles")) handedOn (.collection children) t₁ ∧
    ⟨2⟩ ∈ (t₁.collection children).members.values ∧
    ∃ t₂, Returns ((Related.model ⟨2⟩).get (pathSteps "author")) handedOn (.model ⟨1⟩) t₂ := by
  have hsound := reachable_unwired.sound MemoryStore.keeps_filed
  obtain ⟨resolved, hmirrors, hsingle⟩ := mirrors_articles ⟨1⟩ (by decide)
  have hback := eq_ok_of_isOk (x := unwired.registry.resolve
    (unwired.model ⟨2⟩).modelType.name "author") (by decide +kernel) default
  obtain ⟨children, related, t₁, t₂, hchildren, hrelated, hlast, hmember, -, -⟩ :=
    Graph.get_after_puts hsound.wellFormed (by decide +kernel) returns_handedOn
      (by decide +kernel) (by decide +kernel) hmirrors hback (by decide +kernel)
      (by decide +kernel) (by decide +kernel) fun h => absurd (hsingle.symm.trans h) (by simp)
  rw [owners_handing] at hlast hmember
  rw [hsingle] at hlast
  obtain rfl : related = .model ⟨1⟩ := hlast
  exact ⟨children, t₁, hchildren, hmember.mpr (by simp), t₂, hrelated⟩

/-- An article that is put to one author and then to another one holds the second author only,
but is among the articles of both. -/
theorem handedOn_not_mutual :
    unwired.WellFormed ∧ (∀ l ∈ handing, unwired.Bare l.model ∧ unwired.Bare l.far) ∧
      Returns (handing.forM Link.put) unwired () handedOn ∧
      (∃ resolved, unwired.registry.Mirrors (unwired.model ⟨0⟩).modelType "articles"
        (unwired.model ⟨2⟩).modelType "author" resolved ∧ resolved.cardinality = .single) ∧
      (∃ children, Returns ((Related.model ⟨0⟩).get (pathSteps "articles")) handedOn
        (.collection children) handedOn ∧
        ⟨2⟩ ∈ (handedOn.collection children).members.values) ∧
      Returns ((Related.model ⟨2⟩).get (pathSteps "author")) handedOn (.model ⟨1⟩) handedOn := by
  have hsound := reachable_unwired.sound MemoryStore.keeps_filed
  have harticles := eq_ok_of_isOk (x := handedOn.registry.resolve
    (handedOn.model ⟨0⟩).modelType.name "articles") (by decide +kernel) default
  have hauthor := eq_ok_of_isOk (x := handedOn.registry.resolve
    (handedOn.model ⟨2⟩).modelType.name "author") (by decide +kernel) default
  have hparent : (handedOn.model ⟨2⟩).parents.get? "author" = some ⟨1⟩ := by
    decide +kernel
  have hread := Model.read_parent hauthor (by decide +kernel)
  rw [hparent] at hread
  exact ⟨hsound.wellFormed, by decide +kernel, returns_handedOn, mirrors_articles ⟨0⟩ (by decide),
    ⟨⟨0⟩, Model.get_of_read (by decide +kernel)
      (Model.read_loaded harticles (by decide +kernel) (by decide +kernel)), by decide +kernel⟩,
    Model.get_of_read (by decide +kernel) hread⟩

end Library

end RecordGraph
