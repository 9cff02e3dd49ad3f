/-
# Fetches leave older collections alone

One lemma for every action that a cascade is made of, in the order in which they call one
another. What a fetch writes to are the collections that it makes: the ones that it puts in
place of those of the members, and the ones that lead back from the models it wraps. So the
lemmas on writing ask for a collection that is not one of `old`, and the lemmas on making and
taking collections promise one.
-/
import RecordGraph.Proofs.Deleting.Frames
import RecordGraph.Proofs.OrderedMaps

namespace RecordGraph

variable {σ : Type} [RecordStore σ] {R : σ → σ → Prop} {old g : Graph σ}

/-! ## Sessions and models -/

namespace Session

variable {s : Session}

theorem framed_update (hR : RecordStore.Covers R) (f : SessionData → SessionData) :
    Framed old R (s.update f) g fun _ _ => True :=
  .of_run rfl (.of_same (hR.refl _) rfl rfl) trivial

theorem framed_nextPlaceholder (hR : RecordStore.Covers R) :
    Framed old R s.nextPlaceholder g fun _ _ => True :=
  Framed.bind_of_reads rfl <| (framed_update hR _).bind hR fun _ _ _ _ => Framed.pure hR trivial

theorem framed_prepare (hR : RecordStore.Covers R) (q : StoreQuery) :
    Framed old R (s.prepare q) g fun _ _ => True := by
  unfold prepare
  split
  · split
    · exact Framed.throw hR
    · refine Framed.bind_of_reads rfl ?_
      split
      · exact Framed.throw hR
      · exact Framed.of_reads hR rfl fun _ _ => trivial
  · exact Framed.pure hR trivial

end Session

namespace Model

variable {m : Model} {name : String}

theorem framed_update (hR : RecordStore.Covers R) {f : ModelData → ModelData}
    (hrecord : (f (g.model m)).record = (g.model m).record)
    (hloaded : ∀ name c, old.HasCollection c → (f (g.model m)).children.get? name = some c →
      (g.model m).children.get? name = some c) :
    Framed old R (m.update f) g fun _ g' => g'.model m = f (g.model m) := by
  refine .of_run rfl ⟨hR.refl _, Cells.size_le_size_set _ _ _, Nat.le_refl _, fun n _ => ?_,
    fun _ _ => rfl, fun n name c hc h => ?_⟩ (by simp)
  · rw [Graph.model_setModel]
    split
    · rename_i hsame
      rw [hrecord, hsame]
    · rfl
  · rw [Graph.model_setModel] at h
    split at h
    · rename_i hsame
      exact hsame ▸ hloaded name c hc h
    · exact h

theorem framed_setParent (hR : RecordStore.Covers R) (p : Model) :
    Framed old R (m.setParent name p) g fun _ _ => True :=
  (framed_update hR rfl fun _ _ _ h => h).forget

theorem framed_removeParent (hR : RecordStore.Covers R) :
    Framed old R (m.removeParent name) g fun _ _ => True :=
  (framed_update hR rfl fun _ _ _ h => h).forget

/-- A collection that is not one of `old` may be loaded anywhere. -/
theorem framed_setChildren (hR : RecordStore.Covers R) {c : Collection}
    (hc : ¬ old.HasCollection c) :
    Framed old R (m.setChildren name c) g fun _ g' => old.Detached g' m name := by
  refine (framed_update hR rfl fun other e he h => ?_).weaken fun _ g' hmodel e he => ?_
  · rw [OrderedMap.get?_insert] at h
    split at h
    · exact absurd (Option.some.inj h ▸ he) hc
    · exact h
  · rw [hmodel, OrderedMap.get?_insert, if_pos rfl] at he
    exact Option.some.inj he ▸ hc

/-- A forged model has nothing loaded. -/
theorem framed_forge (hR : RecordStore.Covers R) (s : Session) (t : ModelType) (r : Record) :
    Framed old R (forge s t r) g fun m g' => ∀ name, old.Detached g' m name := by
  have hmake : ∀ (key : String) (g : Graph σ), Framed old R (do
      let g ← get
      set (g.addModel ⟨s, t, key, r, OrderedMap.empty, OrderedMap.empty⟩)
      s.update fun d => { d with forged := d.forged ++ [g.nextModel] }
      return g.nextModel) g fun m g' => ∀ name, old.Detached g' m name := by
    intro key g
    refine Framed.bind_of_reads rfl ?_
    have hset : Framed old R (set (g.addModel
        ⟨s, t, key, r, OrderedMap.empty, OrderedMap.empty⟩) : Action σ PUnit) g
        fun _ g' => ∀ name, old.Detached g' g.nextModel name := by
      refine .of_run rfl ⟨hR.refl _, by simp [Graph.addModel], Nat.le_refl _, fun m hm => ?_,
        fun _ _ => rfl, fun m name c _ hloaded => ?_⟩ fun name c hloaded => ?_
      · rw [Graph.model_addModel, if_neg hm.ne_nextModel]
      · rw [Graph.model_addModel] at hloaded
        split at hloaded
        · simp at hloaded
        · exact hloaded
      · simp at hloaded
    refine hset.bind hR fun _ g' _ hfree => ?_
    exact (Session.framed_update hR _).bind hR fun _ g'' hframes _ =>
      Framed.pure hR fun name => hframes.detached (hfree name)
  unfold forge
  cases hid : r.id with
  | some id => exact Framed.bind_of_reads rfl (hmake id g)
  | none => exact (Session.framed_nextPlaceholder hR).bind hR fun key g' _ _ => hmake key g'

theorem framed_parentIds (hR : RecordStore.Covers R) :
    Framed old R (m.parentIds name) g fun _ _ => True :=
  Framed.bind_of_reads rfl <| Framed.bind_ofExcept hR fun _ _ =>
    Framed.bind_ofExcept hR fun _ _ => Framed.pure hR trivial

end Model

/-! ## Collections -/

namespace Collection

variable {c : Collection}

/-- A new collection is none of the older ones. -/
theorem framed_make (hR : RecordStore.Covers R)
    (hold : old.collections.size ≤ g.collections.size) (s : Session) (membership : Membership) :
    Framed old R (make s membership) g fun c _ => ¬ old.HasCollection c := by
  have hnew : ¬ old.HasCollection g.nextCollection := Nat.not_lt.mpr hold
  have hrun : make s membership g = (.ok g.nextCollection,
      g.addCollection ⟨s, membership, OrderedMap.empty, OrderedMap.empty⟩) := rfl
  refine .of_run hrun ⟨hR.refl _, Nat.le_refl _, by simp [Graph.addCollection], fun _ _ => rfl,
    fun c hc => ?_, fun _ _ _ _ h => h⟩ hnew
  rw [Graph.collection_addCollection, if_neg]
  rintro rfl
  exact hnew hc

theorem framed_forRelationship (hR : RecordStore.Covers R)
    (hold : old.collections.size ≤ g.collections.size) (s : Session) (r : Resolved) :
    Framed old R (forRelationship s r) g fun c _ => ¬ old.HasCollection c := by
  unfold forRelationship
  split
  · exact Framed.throw hR
  · refine Framed.bind_of_reads rfl <| Framed.bind_ofExcept hR fun _ _ => ?_
    split
    · exact framed_make hR hold s _
    · exact framed_make hR hold s _

theorem framed_update (hR : RecordStore.Covers R) (hc : ¬ old.HasCollection c)
    (f : CollectionData → CollectionData) :
    Framed old R (c.update f) g fun _ _ => True := by
  refine .of_run rfl ⟨hR.refl _, Nat.le_refl _, Cells.size_le_size_set _ _ _, fun _ _ => rfl,
    fun e he => ?_, fun _ _ _ _ h => h⟩ trivial
  rw [Graph.collection_setCollection, if_neg]
  rintro rfl
  exact hc he

theorem framed_accept (hR : RecordStore.Covers R) (hc : ¬ old.HasCollection c) (m : Model) :
    Framed old R (c.accept m) g fun _ _ => True := by
  refine Framed.bind_of_reads rfl <| Framed.bind_of_reads rfl ?_
  split
  · split
    · exact Framed.throw hR
    · exact Framed.pure hR trivial
  · exact framed_update hR hc _
  · split
    · exact Framed.bind_of_reads rfl (Framed.throw hR)
    · exact Framed.pure hR trivial

/-- Putting a model somewhere in the collection, once it is let in. -/
theorem framed_file (hR : RecordStore.Covers R) (hc : ¬ old.HasCollection c) (m : Model)
    (f : String → CollectionData → CollectionData) :
    Framed old R (do c.accept m; let key ← m.key; c.update (f key)) g fun _ _ => True :=
  (framed_accept hR hc m).bind hR fun _ _ _ _ =>
    Framed.bind_of_reads rfl (framed_update hR hc _)

theorem framed_put (hR : RecordStore.Covers R) (hc : ¬ old.HasCollection c) (m : Model) :
    Framed old R (c.put m) g fun _ _ => True :=
  framed_file hR hc m _

theorem framed_putSnapshot (hR : RecordStore.Covers R) (hc : ¬ old.HasCollection c) (m : Model) :
    Framed old R (c.putSnapshot m) g fun _ _ => True :=
  framed_file hR hc m _

theorem framed_putFetched (hR : RecordStore.Covers R) (hc : ¬ old.HasCollection c) (m : Model) :
    Framed old R (c.putFetched m) g fun _ _ => True :=
  framed_file hR hc m _

end Collection

namespace Model

variable {m : Model} {name : String}

/-- Where no collection of `old` is loaded, none is answered. -/
theorem framed_childrenOr (hR : RecordStore.Covers R)
    (hold : old.collections.size ≤ g.collections.size) (r : Resolved) :
    Framed old R (m.childrenOr name r) g
      fun c _ => old.Detached g m name → ¬ old.HasCollection c := by
  refine Framed.bind_of_reads rfl ?_
  split
  · rename_i c hc
    exact Framed.pure hR fun hfree => hfree c hc
  · refine Framed.bind_of_reads rfl <|
      (Collection.framed_forRelationship hR hold _ r).bind hR fun c _ _ hc => ?_
    exact (framed_setChildren hR hc).bind hR fun _ _ _ _ => Framed.pure hR fun _ => hc

theorem framed_children (hR : RecordStore.Covers R)
    (hold : old.collections.size ≤ g.collections.size) :
    Framed old R (m.children name) g
      fun c _ => old.Detached g m name → ¬ old.HasCollection c := by
  refine Framed.bind_of_reads rfl ?_
  split
  · rename_i c hc
    exact Framed.pure hR fun hfree => hfree c hc
  · have hresolve : Framed old R (m.resolve name) g fun _ g' => g' = g :=
      Framed.of_reads hR rfl fun _ _ => rfl
    refine hresolve.bind hR fun r g' _ hsame => ?_
    rw [hsame]
    exact framed_childrenOr hR hold r

theorem framed_read (hR : RecordStore.Covers R)
    (hold : old.collections.size ≤ g.collections.size) :
    Framed old R (m.read name) g fun _ _ => True := by
  have hresolve : Framed old R (m.resolve name) g fun _ _ => True :=
    Framed.of_reads hR rfl fun _ _ => trivial
  refine hresolve.bind hR fun r g' hframes _ => ?_
  split
  · refine Framed.bind_of_reads rfl ?_
    split
    · exact Framed.pure hR trivial
    · exact Framed.pure hR trivial
  · exact (framed_childrenOr hR (Nat.le_trans hold hframes.collections_size) r).bind hR
      fun _ _ _ _ => Framed.pure hR trivial

end Model

/-! ## Reading -/

namespace Collection

variable {c : Collection} {name : String}

theorem framed_emptyFor (hR : RecordStore.Covers R)
    (hold : old.collections.size ≤ g.collections.size) :
    Framed old R (c.emptyFor name) g fun e _ => ¬ old.HasCollection e := by
  refine Framed.bind_of_reads rfl <| Framed.bind_of_reads rfl ?_
  simp only
  split
  · exact Framed.bind_ofExcept hR fun r _ => framed_forRelationship hR hold _ r
  · exact framed_make hR hold _ _

theorem framed_merge (hR : RecordStore.Covers R) (hc : ¬ old.HasCollection c) (r : Related) :
    Framed old R (c.merge r) g fun _ _ => True := by
  cases r with
  | none => exact Framed.pure hR trivial
  | model m => exact framed_putFetched hR hc m
  | collection other =>
      exact Framed.bind_of_reads rfl <|
        (Framed.forM hR fun m _ _ _ => framed_put hR hc m).bind hR fun _ _ _ _ =>
          Framed.bind_of_reads rfl <| Framed.forM hR fun m _ _ _ => framed_putSnapshot hR hc m

theorem framed_read (hR : RecordStore.Covers R)
    (hold : old.collections.size ≤ g.collections.size) :
    Framed old R (c.read name) g fun _ _ => True := by
  refine Framed.bind_of_reads rfl <|
    (framed_emptyFor hR hold).bind hR fun result g' hframes hresult => ?_
  refine (Framed.forM hR fun m _ g'' hlater => ?_).bind hR fun _ _ _ _ => Framed.pure hR trivial
  have hold' := Nat.le_trans hold (Nat.le_trans hframes.collections_size hlater.collections_size)
  refine Framed.bind_of_reads (a := (g''.model m).modelType.hasRelationship name) rfl ?_
  split
  · exact Framed.pure hR trivial
  · exact (Model.framed_read hR hold').bind hR fun r _ _ _ => framed_merge hR hresult r

end Collection

namespace Related

theorem framed_get (hR : RecordStore.Covers R)
    (hold : old.collections.size ≤ g.collections.size) (r : Related) (path : List String) :
    Framed old R (r.get path) g fun _ _ => True := by
  induction path generalizing r g with
  | nil => exact Framed.pure hR trivial
  | cons name rest ih =>
      have hread : Framed old R (r.read name) g fun _ _ => True := by
        cases r with
        | none => exact Framed.pure hR trivial
        | model m => exact Model.framed_read hR hold
        | collection c =>
            exact (Collection.framed_read hR hold).bind hR fun _ _ _ _ => Framed.pure hR trivial
      exact hread.bind hR fun x _ hframes _ =>
        ih (Nat.le_trans hold hframes.collections_size) x

end Related

/-! ## Queries -/

theorem Query.framed_fetch (hR : RecordStore.Covers R) (q : Query) (s : Session) :
    Framed old R (q.fetch s) g fun _ _ => True := by
  have hids : Framed old R (q.fetchIds s) g fun _ _ => True :=
    Framed.bind_ofExcept hR fun built _ => (Session.framed_prepare hR built).bind hR
      fun prepared g' _ _ => .call (hR.execute prepared g'.store)
  refine hids.bind hR fun ids g' _ _ => ?_
  split
  · exact Framed.pure hR trivial
  · exact .call (hR.loadMultiple _ _ _)

/-- The models that a query finds have nothing loaded. -/
theorem ModelQuery.framed_fetchModels (hR : RecordStore.Covers R) (q : ModelQuery) (s : Session) :
    Framed old R (q.fetchModels s) g fun ms g' => ∀ m ∈ ms, ∀ name, old.Detached g' m name := by
  refine (q.query.framed_fetch hR s).bind hR fun rs g' _ _ => ?_
  have hmade : ∀ r t, Framed old R (q.wrap s r) t fun made t' =>
      ∀ m ∈ made, ∀ name, old.Detached t' m name := by
    intro r t
    unfold wrap
    split
    · exact (Model.framed_forge hR s _ r).bind hR fun m _ _ hm => Framed.pure hR (by simpa using hm)
    · exact Framed.pure hR (by simp)
  have hall := Framed.mapM (l := rs) hR
    (fun _ _ _ _ hframes h m hm name => hframes.detached (h m hm name))
    fun r _ t (_ : old.Frames R g' t) => hmade r t
  refine hall.bind hR fun made g'' _ h => Framed.pure hR fun m hm => ?_
  obtain ⟨answer, hanswer, hm⟩ := List.mem_filterMap.mp hm
  obtain ⟨_, _, hfree⟩ := h.2 answer hanswer
  exact hfree m hm

/-! ## Fetches -/

namespace Fetching

variable {plan : Plan}

theorem framed_resetChildren (hR : RecordStore.Covers R)
    (hold : old.collections.size ≤ g.collections.size) (m : Model) :
    Framed old R (resetChildren plan m) g
      fun _ g' => old.Detached g' m plan.resolved.name := by
  refine (Collection.framed_forRelationship hR hold _ _).bind hR fun fresh g' _ hfresh => ?_
  refine Framed.bind_of_reads rfl ?_
  split
  · refine Framed.bind_of_reads rfl <| (Framed.forM hR fun pending _ _ _ => ?_).bind hR
      fun _ _ _ _ => Model.framed_setChildren hR hfresh
    refine Framed.bind_of_reads rfl ?_
    split
    · exact Collection.framed_put hR hfresh pending
    · exact Framed.pure hR trivial
  · exact Model.framed_setChildren hR hfresh

theorem framed_unloadParents (hR : RecordStore.Covers R)
    (hold : old.collections.size ≤ g.collections.size) (m : Model) :
    Framed old R (unloadParents plan m) g fun _ g' =>
      plan.resolved.cardinality ≠ .single → old.Detached g' m plan.resolved.name := by
  have hids : ∀ (g : Graph σ), (plan.resolved.cardinality ≠ .single →
      old.Detached g m plan.resolved.name) →
      Framed old R (m.parentIds plan.resolved.name) g fun _ g' =>
        plan.resolved.cardinality ≠ .single → old.Detached g' m plan.resolved.name :=
    fun g hfree => ⟨(Model.framed_parentIds hR).frames, fun _ _ hmany =>
      (Model.framed_parentIds hR).frames.detached (hfree hmany)⟩
  unfold unloadParents
  split
  · rename_i hsingle
    exact (Model.framed_removeParent hR).bind hR fun _ g' _ _ =>
      hids g' fun hmany => absurd hsingle hmany
  · exact (framed_resetChildren hR hold m).bind hR fun _ g' _ hfree => hids g' fun _ => hfree

/-- The stored members have no older collection loaded under the relationship. -/
theorem framed_unloadChildren (hR : RecordStore.Covers R)
    (hold : old.collections.size ≤ g.collections.size) (members : List Model) :
    Framed old R (unloadChildren plan members) g fun owners g' =>
      ∀ id m, owners.get? id = some m → old.Detached g' m plan.resolved.name := by
  refine Framed.foldlM hR (by simp) fun m _ owners g' hframes howners => ?_
  have hold' := Nat.le_trans hold hframes.collections_size
  refine (framed_resetChildren hR hold' m).bind hR fun _ g'' hlater hfree => ?_
  refine Framed.bind_of_reads rfl ?_
  split
  · refine Framed.pure hR fun id x hx => ?_
    rw [OrderedMap.get?_insert] at hx
    split at hx
    · exact Option.some.inj hx ▸ hfree
    · exact hlater.detached (howners id x hx)
  · exact Framed.pure hR fun id x hx => hlater.detached (howners id x hx)

/-- The models found have nothing loaded. -/
theorem framed_run (hR : RecordStore.Covers R) (ids : List String) :
    Framed old R (run plan ids) g fun found g' =>
      ∀ id x, found.get? id = some x → ∀ name, old.Detached g' x name := by
  refine Framed.bind_of_reads rfl <| Framed.foldlM hR (by simp) fun batch _ found g' _ hfound => ?_
  refine (ModelQuery.framed_fetchModels hR _ _).bind hR fun ms g'' hlater hms => ?_
  refine Framed.bind_of_reads rfl <| Framed.pure hR fun id x hx name => ?_
  have hcases := OrderedMap.get?_foldl_of_inserts (fun found m => by
    split
    · exact .inr ⟨_, rfl⟩
    · exact .inl rfl) hx
  rcases hcases with hbefore | hnew
  · exact hlater.detached (hfound id x hbefore name)
  · exact hms x hnew name

theorem framed_attachParent (hR : RecordStore.Covers R)
    (hold : old.collections.size ≤ g.collections.size) {m target : Model}
    (hm : plan.resolved.cardinality ≠ .single → old.Detached g m plan.resolved.name)
    (htarget : ∀ name, old.Detached g target name) :
    Framed old R (attachParent plan m target) g fun _ _ => True := by
  unfold attachParent
  extract_lets wayBack
  have hback : ∀ u g', old.Frames R g g' → Framed old R (wayBack u) g' fun _ _ => True := by
    intro u g' hframes
    refine Framed.bind_of_reads rfl ?_
    split
    · refine (Model.framed_children hR (Nat.le_trans hold hframes.collections_size)).bind hR
        fun siblings g'' _ hsiblings => ?_
      have hnew := hsiblings (hframes.detached (htarget _))
      refine Framed.bind_of_reads rfl ?_
      split
      · exact Collection.framed_put hR hnew m
      · exact Collection.framed_putFetched hR hnew m
    · exact Framed.pure hR trivial
  split
  · exact (Model.framed_setParent hR target).bind hR fun u g' hframes _ => hback u g' hframes
  · rename_i hmany
    refine (Model.framed_children hR hold).bind hR fun c g' hframes hc => ?_
    exact (Collection.framed_putFetched hR (hc (hm hmany)) target).bind hR
      fun u g'' hlater _ => hback u g'' (hframes.trans hR hlater)

theorem framed_attachChild (hR : RecordStore.Covers R)
    (hold : old.collections.size ≤ g.collections.size) {owner child : Model}
    (howner : old.Detached g owner plan.resolved.name)
    (hchild : ∀ name, old.Detached g child name) :
    Framed old R (attachChild plan owner child) g fun _ _ => True := by
  refine (Model.framed_children hR hold).bind hR fun c g' hframes hc => ?_
  refine (Collection.framed_putFetched hR (hc howner) child).bind hR fun _ g'' hlater _ => ?_
  have hframes' := hframes.trans hR hlater
  refine Framed.bind_of_reads rfl ?_
  split
  · split
    · exact Model.framed_setParent hR owner
    · refine (Model.framed_children hR (Nat.le_trans hold hframes'.collections_size)).bind hR
        fun owners _ _ howners => ?_
      exact Collection.framed_putFetched hR (howners (hframes'.detached (hchild _))) owner
  · exact Framed.pure hR trivial

theorem framed_holdsUnsavedParent (hR : RecordStore.Covers R) (m : Model) :
    Framed old R (holdsUnsavedParent plan m) g fun _ _ => True := by
  unfold holdsUnsavedParent
  split
  · refine Framed.bind_of_reads rfl ?_
    split
    · exact Framed.of_reads hR rfl fun _ _ => trivial
    · exact Framed.pure hR trivial
  · exact Framed.pure hR trivial

theorem framed_parentSide (hR : RecordStore.Covers R)
    (hold : old.collections.size ≤ g.collections.size) (members : List Model) :
    Framed old R (parentSide plan members) g fun _ _ => True := by
  have hfilter : Framed old R (members.filterM fun m => do
      return !(← holdsUnsavedParent plan m)) g fun _ _ => True :=
    Framed.filterM hR fun m _ _ _ => (framed_holdsUnsavedParent hR m).bind hR fun _ _ _ _ =>
      Framed.pure hR trivial
  refine hfilter.bind hR fun loading g₁ hframes₁ _ => ?_
  have hold₁ := Nat.le_trans hold hframes₁.collections_size
  have hunload := Framed.mapM (l := loading) hR
    (q := fun m _ g' => plan.resolved.cardinality ≠ .single →
      old.Detached g' m plan.resolved.name)
    (fun _ _ _ _ hframes h hmany => hframes.detached (h hmany))
    fun m _ g' (hlater : old.Frames R g₁ g') =>
      framed_unloadParents hR (Nat.le_trans hold₁ hlater.collections_size) m
  refine hunload.bind hR fun ids g₂ hframes₂ hfree => ?_
  have hold₂ := Nat.le_trans hold₁ hframes₂.collections_size
  simp only
  split
  · exact Framed.pure hR trivial
  · refine (framed_run hR _).bind hR fun targets g₃ hframes₃ htargets => ?_
    refine Framed.forM hR fun m hm g₄ hframes₄ => ?_
    refine (Model.framed_parentIds hR).bind hR fun ids g₅ hframes₅ _ => ?_
    refine Framed.forM hR fun id _ g₆ hframes₆ => ?_
    have hlater := hframes₄.trans hR (hframes₅.trans hR hframes₆)
    split
    · rename_i target htarget
      refine framed_attachParent hR (Nat.le_trans hold₂ (hframes₃.trans hR
        hlater).collections_size) (fun hmany => ?_) fun name => hlater.detached
          (htargets id target htarget name)
      obtain ⟨_, _, hdetached⟩ := hfree.1 m hm
      exact (hframes₃.trans hR hlater).detached (hdetached hmany)
    · exact Framed.pure hR trivial

theorem framed_childSide (hR : RecordStore.Covers R)
    (hold : old.collections.size ≤ g.collections.size) (members : List Model) :
    Framed old R (childSide plan members) g fun _ _ => True := by
  refine (framed_unloadChildren hR hold members).bind hR fun owners g₁ hframes₁ howners => ?_
  have hold₁ := Nat.le_trans hold hframes₁.collections_size
  split
  · exact Framed.pure hR trivial
  · refine (framed_run hR _).bind hR fun children g₂ hframes₂ hchildren => ?_
    refine Framed.forM hR fun child hchild g₃ hframes₃ => ?_
    obtain ⟨key, hkey⟩ := OrderedMap.mem_values_iff.mp hchild
    refine Framed.bind_of_reads rfl <| Framed.forM hR fun id _ g₄ hframes₄ => ?_
    have hlater := hframes₃.trans hR hframes₄
    split
    · rename_i owner howner
      exact framed_attachChild hR
        (Nat.le_trans hold₁ (hframes₂.trans hR hlater).collections_size)
        ((hframes₂.trans hR hlater).detached (howners id owner howner))
        fun name => hlater.detached (hchildren key child hkey name)
    · exact Framed.pure hR trivial

theorem framed_fetchGroup (hR : RecordStore.Covers R)
    (hold : old.collections.size ≤ g.collections.size) (s : Session) (t : ModelType)
    (name : String) (callers : Option Query) (members : List Model) :
    Framed old R (fetchGroup s t name callers members) g fun _ _ => True := by
  refine Framed.bind_ofExcept hR fun relationship _ => Framed.bind_of_reads rfl <|
    Framed.bind_ofExcept hR fun resolved _ => Framed.bind_ofExcept hR fun q _ =>
      Framed.bind_ofExcept hR fun condition _ => ?_
  cases resolved.side with
  | parent => exact framed_parentSide hR hold members
  | child => exact framed_childSide hR hold members

end Fetching

theorem framed_fetchRelationship (hR : RecordStore.Covers R)
    (hold : old.collections.size ≤ g.collections.size) (s : Session) (members : List Model)
    (name : String) (callers : Option Query) :
    Framed old R (fetchRelationship s members name callers) g fun _ _ => True := by
  have hgroups : Framed old R (Fetching.groupByType members) g fun _ _ => True :=
    Framed.of_reads hR rfl fun _ _ => trivial
  refine hgroups.bind hR fun groups g₁ hframes₁ _ => ?_
  refine Framed.bind hR (q := fun _ _ => True)
    (Framed.forget (Framed.mapM hR (q := fun _ _ _ => True) (fun _ _ _ _ _ _ => trivial)
      fun e _ g₂ hframes₂ => ?_)) fun declared g₂ _ _ => ?_
  · refine Framed.bind_of_reads rfl <| Framed.bind_ofExcept hR fun t _ => ?_
    split
    · exact Framed.pure hR trivial
    · exact (Fetching.framed_fetchGroup hR (Nat.le_trans hold (hframes₁.trans hR
        hframes₂).collections_size) s t name callers e.2).bind hR
          fun _ _ _ _ => Framed.pure hR trivial
  · split
    · exact Framed.pure hR trivial
    · split
      · exact Framed.throw hR
      · exact Framed.pure hR trivial

theorem Related.framed_fetch (hR : RecordStore.Covers R)
    (hold : old.collections.size ≤ g.collections.size) (r : Related) (path : List String)
    (callers : Option Query) : Framed old R (r.fetch path callers) g fun _ _ => True := by
  refine (r.framed_get hR hold path.dropLast).bind hR fun x g' hframes _ => ?_
  have hold' := Nat.le_trans hold hframes.collections_size
  cases x with
  | none => exact Framed.pure hR trivial
  | model m =>
      exact Framed.bind_of_reads rfl <|
        (framed_fetchRelationship hR hold' _ _ _ _).bind hR fun _ g'' hlater _ =>
          Model.framed_read hR (Nat.le_trans hold' hlater.collections_size)
  | collection c =>
      exact Framed.bind_of_reads rfl <|
        (framed_fetchRelationship hR hold' _ _ _ _).bind hR fun _ g'' hlater _ =>
          (Collection.framed_read hR (Nat.le_trans hold' hlater.collections_size)).bind hR
            fun _ _ _ _ => Framed.pure hR trivial

/-! ## Deletions -/

namespace Model

variable (hR : RecordStore.Covers R) (hdelete : ∀ r s, R s (RecordStore.delete r s).2)

include hR hdelete

theorem framed_deleteWithin (hold : old.collections.size ≤ g.collections.size) (depth : Nat)
    (m : Model) : Framed old R (m.deleteWithin depth) g fun _ _ => True := by
  induction depth generalizing m g with
  | zero => exact Framed.bind_of_reads rfl (Framed.throw hR)
  | succ depth ih =>
      refine Framed.bind_of_reads rfl ?_
      split
      · exact Framed.pure hR trivial
      · refine Framed.bind_of_reads rfl <| (Framed.forM hR fun name _ g₁ hframes₁ => ?_).bind hR
          fun _ g₁ _ _ => Framed.bind_of_reads rfl (.call (hdelete _ _))
        have hold₁ := Nat.le_trans hold hframes₁.collections_size
        refine (Related.framed_fetch hR hold₁ _ _ _).bind hR fun children g₂ hframes₂ _ => ?_
        have hold₂ := Nat.le_trans hold₁ hframes₂.collections_size
        have hmodels : Framed old R children.models g₂ fun _ _ => True := by
          cases children with
          | none => exact Framed.pure hR trivial
          | model n => exact Framed.pure hR trivial
          | collection c => exact Framed.of_reads hR rfl fun _ _ => trivial
        exact hmodels.bind hR fun ms g₃ hframes₃ _ => Framed.forM hR fun n _ g₄ hframes₄ =>
          ih (Nat.le_trans hold₂ (hframes₃.trans hR hframes₄).collections_size) n

/-- Deleting a model, whether it answers or fails, changes no record of a model and writes to no
collection that was there before. -/
theorem framed_delete (hold : old.collections.size ≤ g.collections.size) (m : Model) :
    Framed old R m.delete g fun _ _ => True :=
  Framed.bind_of_reads rfl (framed_deleteWithin hR hdelete hold _ m)

end Model

end RecordGraph
