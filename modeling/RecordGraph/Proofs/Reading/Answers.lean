/-
# Reading answers what is there

Whether reading along a path answers or fails, it does so as `follow` says of the graph in which it
began, and it leaves that graph but for empty collections: where a model on the way has no
collection under a name that it is asked for, one is put in place. `OnlyOpens` says this of a graph
that reading may have come to. As `follow` does not see the difference, every step finds what the
first one would have found.

An empty collection that was put in place counts as loaded. So reading is seen by those that ask
a model what it has loaded, and by nobody else.
-/
import RecordGraph.Proofs.Fetching.Leftovers
import RecordGraph.Proofs.Reading.Contents

namespace RecordGraph

variable {σ : Type} {g : Graph σ}

namespace Graph

/-- Since `g` nothing happened but that models got an empty collection where they had none, and
were asked for one. -/
structure OnlyOpens (g : Graph σ) (asked : Model → String → Prop) (t : Graph σ) : Prop where
  store : t.store = g.store
  registry : t.registry = g.registry
  sessions : t.sessions = g.sessions
  models_size : t.models.size = g.models.size
  collections_size : g.collections.size ≤ t.collections.size
  model : ∀ m, t.model m = { g.model m with children := (t.model m).children }
  collection : ∀ c, g.HasCollection c → t.collection c = g.collection c
  made : ∀ m name c, (t.model m).children.get? name = some c → t.HasCollection c
  kept : ∀ m name c, (g.model m).children.get? name = some c →
    (t.model m).children.get? name = some c
  opened : ∀ m name c, (t.model m).children.get? name = some c →
    (g.model m).children.get? name = some c ∨
      asked m name ∧ (g.model m).children.get? name = none ∧ ¬ g.HasCollection c ∧
        ∃ r, g.registry.resolve (g.model m).modelType.name name = .ok r ∧
          r.holdsSingle = false ∧ g.blankFor (g.model m).session r = .ok (t.collection c)

namespace OnlyOpens

variable {t t' : Graph σ} {asked : Model → String → Prop} {m : Model} {name : String}
  {c : Collection}

theorem refl (hg : g.WellFormed) (asked : Model → String → Prop) : g.OnlyOpens asked g :=
  ⟨rfl, rfl, rfl, rfl, Nat.le_refl _, fun _ => rfl, fun _ _ => rfl, hg.made, fun _ _ _ hc => hc,
    fun _ _ _ hc => .inl hc⟩

theorem hasModel_iff (h : g.OnlyOpens asked t) (m : Model) : t.HasModel m ↔ g.HasModel m := by
  rw [HasModel, HasModel, h.models_size]

theorem hasCollection (h : g.OnlyOpens asked t) (hc : g.HasCollection c) : t.HasCollection c :=
  Nat.lt_of_lt_of_le hc h.collections_size

theorem not_hasCollection_next (h : g.OnlyOpens asked t) : ¬ g.HasCollection t.nextCollection :=
  fun hold => t.not_hasCollection_nextCollection (h.hasCollection hold)

theorem loose_next (h : g.OnlyOpens asked t) (d : CollectionData) :
    (t.addCollection d).Loose t.nextCollection :=
  ⟨t.hasCollection_nextCollection d, fun m name hc =>
    t.not_hasCollection_nextCollection (h.made m name _ hc)⟩

theorem parents (h : g.OnlyOpens asked t) (m : Model) :
    (t.model m).parents = (g.model m).parents := by
  rw [h.model m]

theorem modelType (h : g.OnlyOpens asked t) (m : Model) :
    (t.model m).modelType = (g.model m).modelType := by
  rw [h.model m]

theorem session (h : g.OnlyOpens asked t) (m : Model) :
    (t.model m).session = (g.model m).session := by
  rw [h.model m]

/-- What is not loaded was not loaded before. -/
theorem unloaded (h : g.OnlyOpens asked t) (hnone : (t.model m).children.get? name = none) :
    (g.model m).children.get? name = none := by
  refine Option.eq_none_iff_forall_not_mem.mpr fun c hc => ?_
  rw [h.kept m name c hc] at hnone
  cases hnone

/-- The collections, new ones aside, and what the models have loaded are as before. -/
theorem of_loaded (h : g.OnlyOpens asked t) (hstore : t'.store = t.store)
    (hregistry : t'.registry = t.registry) (hsessions : t'.sessions = t.sessions)
    (hmodels : t'.models = t.models) (hsize : t.collections.size ≤ t'.collections.size)
    (hcollection : ∀ c, g.HasCollection c ∨ ¬ t.Unheld c → t'.collection c = t.collection c) :
    g.OnlyOpens asked t' := by
  have hmodel : ∀ m, t'.model m = t.model m := fun m => by
    rw [Graph.model, hmodels]
    rfl
  refine ⟨hstore.trans h.store, hregistry.trans h.registry, hsessions.trans h.sessions,
    by rw [hmodels, h.models_size], Nat.le_trans h.collections_size hsize,
    fun m => by rw [hmodel]; exact h.model m,
    fun c hc => (hcollection c (.inl hc)).trans (h.collection c hc), fun m name c hc => ?_,
    fun m name c hc => by rw [hmodel]; exact h.kept m name c hc, fun m name c hc => ?_⟩
  · rw [hmodel] at hc
    exact Nat.lt_of_lt_of_le (h.made m name c hc) hsize
  · rw [hmodel] at hc
    rw [hcollection c (.inr fun hunheld => hunheld m name hc)]
    exact h.opened m name c hc

/-- A collection is made and not loaded. -/
theorem addCollection (h : g.OnlyOpens asked t) (d : CollectionData) :
    g.OnlyOpens asked (t.addCollection d) := by
  refine h.of_loaded rfl rfl rfl rfl (by simp [Graph.addCollection]) fun c hc => ?_
  rw [collection_addCollection, if_neg]
  rintro rfl
  refine hc.elim h.not_hasCollection_next fun hheld => hheld ?_
  exact fun m name hloaded => t.not_hasCollection_nextCollection (h.made m name _ hloaded)

/-- A collection that was made since and is not loaded may be written to. -/
theorem setCollection (h : g.OnlyOpens asked t) (hnew : ¬ g.HasCollection c) (hloose : t.Loose c)
    (d : CollectionData) : g.OnlyOpens asked (t.setCollection c d) := by
  refine h.of_loaded rfl rfl rfl rfl (Cells.size_le_size_set _ _ _) fun e he => ?_
  rw [collection_setCollection, if_neg]
  rintro rfl
  exact he.elim hnew fun hheld => hheld hloose.unheld

/-- A model that was asked gets an empty collection. -/
theorem openSlot (h : g.OnlyOpens asked t) (hm : g.HasModel m) (hasked : asked m name)
    (hnone : (t.model m).children.get? name = none) {r : Resolved} {membership : Membership}
    (hresolve : g.registry.resolve (g.model m).modelType.name name = .ok r)
    (hmany : r.holdsSingle = false)
    (hmembership : g.registry.membershipFor r = .ok membership) :
    g.OnlyOpens asked (t.openSlot m name membership) := by
  have hgrows := Relinks.openSlot t m name membership
  have hstays : ∀ e, t.HasCollection e →
      (t.openSlot m name membership).collection e = t.collection e := fun e => collection_openSlot
  refine ⟨h.store, h.registry, h.sessions, ?_, Nat.le_trans h.collections_size
    hgrows.collections_size, fun n => ?_, fun e he => ?_, fun n other e he => ?_,
    fun n other e he => ?_, fun n other e he => ?_⟩
  · refine Eq.trans ?_ h.models_size
    exact Cells.size_set_of_lt ((h.hasModel_iff m).mpr hm) _
  · rw [model_openSlot, h.model n]
  · rw [hstays e (h.hasCollection he), h.collection e he]
  · rw [children_openSlot] at he
    split at he
    · obtain rfl := Option.some.inj he
      exact t.hasCollection_nextCollection _
    · exact hgrows.hasCollection (h.made n other e he)
  · rw [children_openSlot, if_neg, h.kept n other e he]
    rintro ⟨rfl, rfl⟩
    rw [h.unloaded hnone] at he
    cases he
  · rw [children_openSlot] at he
    split at he
    · rename_i hsame
      obtain ⟨rfl, rfl⟩ := hsame
      obtain rfl := Option.some.inj he
      refine .inr ⟨hasked, h.unloaded hnone, h.not_hasCollection_next, r, hresolve, hmany, ?_⟩
      rw [blankFor, hmembership, ← h.session]
      simp [Graph.openSlot]
    · rw [hstays e (h.made n other e he)]
      exact h.opened n other e he

/-! ## What is found -/

theorem blankFor (h : g.OnlyOpens asked t) (s : Session) (r : Resolved) :
    t.blankFor s r = g.blankFor s r :=
  blankFor_of_registry h.registry s r

theorem taking (h : g.OnlyOpens asked t) (d : CollectionData) (m : Model)
    (file : CollectionData → CollectionData) :
    d.taking (t.model m) file = d.taking (g.model m) file := by
  rw [h.model m]
  rfl

/-- A model leads where it led. -/
theorem look (h : g.OnlyOpens asked t) (hg : g.WellFormed) (m : Model) (name : String) :
    t.look m name = g.look m name := by
  unfold Graph.look
  rw [h.registry, h.modelType, h.parents, h.session]
  cases hresolve : g.registry.resolve (g.model m).modelType.name name with
  | error e => rfl
  | ok r =>
      change (if r.holdsSingle then _ else _) = (if r.holdsSingle then _ else _)
      congr 1
      cases hloaded : (t.model m).children.get? name with
      | none =>
          simp only [h.unloaded hloaded, h.blankFor]
      | some c =>
          rcases h.opened m name c hloaded with hold | ⟨-, hnone, -, r', hresolve', -, hblank⟩
          · simp only [hold, h.collection c (hg.made m name c hold)]
          · obtain rfl := Except.ok.inj (hresolve.symm.trans hresolve')
            simp only [hnone, hblank]
            rfl

theorem emptyFor (h : g.OnlyOpens asked t) (d : CollectionData) (name : String) :
    t.emptyFor d name = g.emptyFor d name := by
  unfold Graph.emptyFor leadingType?
  simp only [h.modelType, h.registry, h.blankFor]

/-- Where a relationship leads holds what it held. -/
theorem content (h : g.OnlyOpens asked t) {r : Related} (hr : g.HasRelated r) :
    t.content r = g.content r := by
  cases r with
  | none => rfl
  | model m => rfl
  | collection c => exact congrArg Content.collection (h.collection c hr)

end OnlyOpens

/-- What is loaded was made in the graph. -/
theorem WellFormed.within_content (hg : g.WellFormed) {r : Related} (hr : g.HasRelated r) :
    (g.content r).Within g := by
  cases r with
  | none => trivial
  | model m => exact hr
  | collection c => exact ⟨fun m => hg.member hr, fun m => hg.snapshotMember hr⟩

end Graph

/-! ## Steps -/

/-- The collection was made since `g` and holds `d`. It is not loaded. -/
structure Graph.Collects (g : Graph σ) (asked : Model → String → Prop) (c : Collection)
    (d : CollectionData) (t : Graph σ) : Prop where
  opens : g.OnlyOpens asked t
  new : ¬ g.HasCollection c
  loose : t.Loose c
  holds : t.collection c = d

section Steps

variable {t : Graph σ} {asked : Model → String → Prop} {m : Model} {name : String}

namespace Collection

variable {c result other : Collection}

/-- A model is let in and something is written, or nothing happens at all. -/
theorem run_taking (m : Model) (file : String → CollectionData → CollectionData) (t : Graph σ) :
    (do c.accept m; let key ← m.key; c.update (file key) : Action σ Unit) t =
      match (t.collection c).taking (t.model m) (file (t.model m).key) with
      | .ok d => (.ok (), t.setCollection c d)
      | .error e => (.error e, t) := by
  unfold CollectionData.taking
  have hdata : (c.data : Action σ CollectionData) t = (.ok (t.collection c), t) := rfl
  have htype : (m.modelType : Action σ ModelType) t = (.ok (t.model m).modelType, t) := rfl
  unfold accept
  simp only [run_bind, hdata, htype]
  cases hmembership : (t.collection c).membership with
  | ofType own =>
      by_cases hname : own.name = (t.model m).modelType.name
      · simp only [hname, ne_eq, not_true, if_false]
        rfl
      · simp only [hname, ne_eq, not_false_eq_true, if_true]
        rfl
  | ofEntity entityType =>
      cases entityType with
      | none =>
          -- what is written after the decision is written to what the decision left
          change ((.ok (), (t.setCollection c _).setCollection c (file _
            ((t.setCollection c _).collection c))) : Except Error Unit × Graph σ) = _
          rw [Graph.setCollection_setCollection, Graph.collection_setCollection, if_pos rfl]
          rfl
      | some expected =>
          by_cases hentity : expected = (t.model m).modelType.entityType
          · simp only [hentity, ne_eq, not_true, if_false]
            rfl
          · simp only [hentity, ne_eq, not_false_eq_true, if_true]
            rfl

theorem mirrors_taking {d : CollectionData} (h : g.Collects asked result d t) (m : Model)
    (file : String → CollectionData → CollectionData) :
    Mirrors (do result.accept m; let key ← m.key; result.update (file key)) t
      (d.taking (g.model m) (file (g.model m).key)) (g.OnlyOpens asked) fun d' _ t' =>
        g.Collects asked result d' t' ∧ ∀ c, c ≠ result → t'.collection c = t.collection c := by
  have hrun := run_taking (c := result) m file t
  have hkey : (t.model m).key = (g.model m).key := by rw [h.opens.model m]
  rw [h.holds, h.opens.taking, hkey] at hrun
  cases htaking : d.taking (g.model m) (file (g.model m).key) with
  | error e =>
      rw [htaking] at hrun
      exact Mirrors.of_error hrun h.opens
  | ok d' =>
      rw [htaking] at hrun
      refine Mirrors.of_run hrun ⟨⟨h.opens.setCollection h.new h.loose d', h.new,
        h.loose.setCollection d', by simp⟩, fun c hc => ?_⟩
      rw [Graph.collection_setCollection, if_neg hc.symm]

/-- A collection that is not loaded takes all that a member leads to. -/
theorem mirrors_merge {d : CollectionData} (h : g.Collects asked result d t) {x : Related}
    (hx : ∀ c, x = .collection c → c ≠ result) :
    Mirrors (result.merge x) t (g.merged d (t.content x)) (g.OnlyOpens asked)
      fun d' _ t' => g.Collects asked result d' t' := by
  cases x with
  | none => exact Mirrors.pure h
  | model m => exact (mirrors_taking h m _).weaken fun _ _ _ _ hlater => hlater.1
  | collection other =>
      have hother := hx other rfl
      refine Mirrors.bind_of_reads (x := (t.collection other).members.values) rfl ?_
      refine (Mirrors.forM (fun e u => g.Collects asked result e u ∧
        u.collection other = t.collection other) ⟨h, rfl⟩ ?_).bind fun e _ u _ ⟨hu, hsame⟩ => ?_
      · intro m _ e u ⟨hu, hsame⟩
        exact (mirrors_taking hu m _).weaken fun _ _ _ _ hlater =>
          ⟨hlater.1, (hlater.2 other hother).trans hsame⟩
      · refine Mirrors.bind_of_reads (x := (t.collection other).snapshot.values)
          (congrArg (fun d : CollectionData => (Except.ok d.snapshot.values, u)) hsame) ?_
        exact Mirrors.forM (fun e u => g.Collects asked result e u) hu fun m _ e u hu =>
          (mirrors_taking hu m _).weaken fun _ _ _ _ hlater => hlater.1

/-- A collection is made empty, or none can be made. -/
theorem run_forRelationship (s : Session) (r : Resolved) (t : Graph σ) :
    (forRelationship s r : Action σ Collection) t = match t.blankFor s r with
      | .ok d => (.ok t.nextCollection, t.addCollection d)
      | .error e => (.error e, t) := by
  unfold Graph.blankFor
  cases hmembership : t.registry.membershipFor r with
  | ok membership => exact returns_forRelationship_of_membership hmembership
  | error e =>
      unfold Registry.membershipFor at hmembership
      unfold forRelationship
      cases hfars : r.farTypes with
      | nil =>
          rw [hfars] at hmembership
          obtain rfl := Except.error.inj hmembership
          rfl
      | cons far rest =>
          rw [hfars] at hmembership
          cases hget : t.registry.get far with
          | ok u =>
              simp only [hget] at hmembership
              cases hmembership
          | error e' =>
              simp only [hget] at hmembership
              obtain rfl := Except.error.inj hmembership
              have hfail : (Action.ofExcept (t.registry.get far) : Action σ ModelType) t =
                  (.error e', t) := by rw [hget]; rfl
              exact (Returns.run_bind (returns_get.mpr ⟨rfl, rfl⟩) _).trans
                (run_bind_of_error hfail _)

theorem mirrors_forRelationship (h : g.OnlyOpens asked t) (s : Session) (r : Resolved) :
    Mirrors (forRelationship s r) t (g.blankFor s r) (g.OnlyOpens asked) fun d c t' =>
      g.Collects asked c d t' ∧ c = t.nextCollection ∧ t' = t.addCollection d := by
  have hrun := run_forRelationship s r t
  rw [h.blankFor] at hrun
  cases hblank : g.blankFor s r with
  | error e =>
      rw [hblank] at hrun
      exact Mirrors.of_error hrun h
  | ok d =>
      rw [hblank] at hrun
      exact Mirrors.of_run hrun ⟨⟨h.addCollection d, h.not_hasCollection_next, h.loose_next d,
        by simp⟩, rfl, rfl⟩

theorem mirrors_emptyFor (h : g.OnlyOpens asked t) (name : String) :
    Mirrors (c.emptyFor name) t (g.emptyFor (t.collection c) name) (g.OnlyOpens asked)
      fun d e t' => g.Collects asked e d t' := by
  refine Mirrors.bind_of_reads rfl <| Mirrors.bind_of_reads rfl ?_
  rw [← h.emptyFor]
  unfold Graph.emptyFor
  simp only
  split
  · rename_i howner
    rw [show t.leadingType? (t.collection c) name = _ from howner]
    refine (mirrors_ofExcept h).bind fun r x t' _ hsame => ?_
    obtain ⟨rfl, rfl⟩ := hsame
    rw [h.blankFor]
    exact (mirrors_forRelationship h _ x).weaken fun _ _ _ _ hmade => hmade.1
  · rename_i howner
    rw [show t.leadingType? (t.collection c) name = _ from howner]
    refine Mirrors.of_run rfl ⟨h.addCollection _, h.not_hasCollection_next, h.loose_next _, ?_⟩
    exact (t.collection_addCollection _ _).trans (if_pos rfl)

end Collection

namespace Model

theorem mirrors_resolve (h : g.OnlyOpens asked t) :
    Mirrors (m.resolve name) t (t.registry.resolve (t.model m).modelType.name name)
      (g.OnlyOpens asked) fun y x t' => x = y ∧ t' = t :=
  Mirrors.bind_of_reads rfl <| Mirrors.bind_of_reads rfl <| mirrors_ofExcept h

/-- A model answers what it has loaded, or an empty collection that is put in place. A collection
that is not loaded is not answered and not written to. -/
theorem mirrors_read (hg : g.WellFormed) (h : g.OnlyOpens asked t) (hm : g.HasModel m)
    (hasked : asked m name) :
    Mirrors (m.read name) t (g.look m name) (g.OnlyOpens asked) fun y x t' =>
      g.OnlyOpens asked t' ∧ y = t'.content x ∧ t'.HasRelated x ∧
        ∀ c d, g.Collects asked c d t → g.Collects asked c d t' ∧ x ≠ .collection c := by
  rw [← h.look hg]
  refine (mirrors_resolve h).bind fun r x t' hresolve hsame => ?_
  obtain ⟨rfl, rfl⟩ := hsame
  have hresolve' : g.registry.resolve (g.model m).modelType.name name = .ok x := by
    rw [← h.registry, ← h.modelType, hresolve]
  have hstays : ∀ x : Related, (∀ c, x = .collection c → ¬ t'.Unheld c) →
      ∀ c d, g.Collects asked c d t' → g.Collects asked c d t' ∧ x ≠ .collection c :=
    fun x hheld c d hc => ⟨hc, fun hsame => hheld c hsame hc.loose.unheld⟩
  cases hsingle : x.holdsSingle with
  | true =>
      simp only [if_true]
      refine Mirrors.bind_of_reads rfl ?_
      cases hparent : (t'.model m).parents.get? name with
      | none => exact Mirrors.pure ⟨h, rfl, trivial, hstays _ (by simp)⟩
      | some p =>
          rw [h.parents] at hparent
          exact Mirrors.pure ⟨h, rfl, (h.hasModel_iff p).mpr (hg.parents m name p hm hparent),
            hstays _ (by simp)⟩
  | false =>
      simp only [Bool.false_eq_true, if_false, childrenOr, bind_assoc]
      refine Mirrors.bind_of_reads rfl ?_
      cases hloaded : (t'.model m).children.get? name with
      | some c =>
          refine Mirrors.pure ⟨h, rfl, h.made m name c hloaded, hstays _ fun e he hunheld => ?_⟩
          exact hunheld m name (by rw [hloaded, Related.collection.inj he])
      | none =>
          simp only [bind_assoc, pure_bind]
          refine Mirrors.bind_of_reads rfl ?_
          rw [h.blankFor]
          refine (Collection.mirrors_forRelationship h _ x).bind fun d c t'' hblank hmade => ?_
          obtain ⟨-, rfl, rfl⟩ := hmade
          obtain ⟨membership, hmembership, rfl⟩ : ∃ membership,
              g.registry.membershipFor x = .ok membership ∧
                d = ⟨(t'.model m).session, membership, OrderedMap.empty, OrderedMap.empty⟩ := by
            simpa only [Graph.blankFor, except_bind_eq_ok, except_pure_eq_ok] using hblank
          have hopens := h.openSlot hm hasked hloaded hresolve' hsingle hmembership
          refine Mirrors.of_run (t := t'.openSlot m name membership) rfl ⟨hopens, ?_,
            t'.hasCollection_nextCollection _, fun c d hc => ⟨⟨hopens, hc.new, ?_, ?_⟩, ?_⟩⟩
          · simp [Graph.content, Graph.openSlot]
          · exact (hc.loose.addCollection _).setModel hc.loose.made.ne_nextCollection.symm rfl
          · rw [Graph.collection_openSlot hc.loose.made, hc.holds]
          · rintro ⟨⟩
            exact t'.not_hasCollection_nextCollection hc.loose.made

end Model

namespace Collection

variable {c : Collection}

/-- A collection answers what its members have loaded. -/
theorem mirrors_read (hg : g.WellFormed) (h : g.OnlyOpens asked t)
    (hmembers : (t.content (.collection c)).Within g)
    (hasked : ∀ m ∈ (t.collection c).members.values, asked m name) :
    Mirrors (c.read name) t (g.lookAll (t.collection c) name) (g.OnlyOpens asked)
      fun d e t' => g.Collects asked e d t' := by
  refine Mirrors.bind_of_reads rfl <| (mirrors_emptyFor h name).bind fun d result u _ hu => ?_
  refine (Mirrors.forM (fun d u => g.Collects asked result d u) hu ?_).answer
    fun _ _ _ hlast => hlast
  intro m hm e u hu
  refine Mirrors.bind_of_reads (x := (u.model m).modelType.hasRelationship name) rfl ?_
  rw [hu.opens.modelType]
  split
  · exact Mirrors.pure hu
  · refine (Model.mirrors_read hg hu.opens (hmembers.1 m hm) (hasked m hm)).bind
      fun y x v _ ⟨hv, hy, _, hspares⟩ => ?_
    subst hy
    exact mirrors_merge (hspares result e hu).1
      fun c hc hsame => (hspares result e hu).2 (hsame ▸ hc)

end Collection

namespace Related

variable {r : Related}

/-- One step answers what is there. -/
theorem mirrors_read (hg : g.WellFormed) (h : g.OnlyOpens asked t) (hr : t.HasRelated r)
    (hmembers : (t.content r).Within g) (hasked : ∀ m ∈ (t.content r).models, asked m name) :
    Mirrors (r.read name) t (g.see (t.content r) name) (g.OnlyOpens asked) fun y x t' =>
      g.OnlyOpens asked t' ∧ y = t'.content x ∧ t'.HasRelated x := by
  cases r with
  | none => exact Mirrors.pure ⟨h, rfl, trivial⟩
  | model m =>
      have hm : m ∈ (t.content (.model m)).models := List.mem_singleton_self m
      exact (Model.mirrors_read hg h hmembers (hasked m hm)).weaken
        fun _ _ _ _ hread => ⟨hread.1, hread.2.1, hread.2.2.1⟩
  | collection c =>
      refine (Collection.mirrors_read hg h hmembers hasked).bind fun d e t' _ he => ?_
      exact Mirrors.pure ⟨he.opens, by rw [Graph.content, he.holds], he.loose.made⟩

/-- A path answers what is there. -/
theorem mirrors_get (hg : g.WellFormed) (h : g.OnlyOpens asked t) (hr : t.HasRelated r)
    (hmembers : (t.content r).Within g) (path : List String)
    (hasked : ∀ m name, g.Asks (t.content r) path m name → asked m name) :
    Mirrors (r.get path) t (g.follow (t.content r) path) (g.OnlyOpens asked) fun y x t' =>
      g.OnlyOpens asked t' ∧ y = t'.content x ∧ t'.HasRelated x := by
  induction path generalizing r t with
  | nil => exact Mirrors.pure ⟨h, rfl, hr⟩
  | cons name rest ih =>
      have hfirst := mirrors_read hg h hr hmembers fun m hm => hasked m name (g.asks_first hm)
      refine hfirst.bind fun y x t' hsee hread => ?_
      obtain ⟨ht', rfl, hx⟩ := hread
      exact ih ht' hx (Graph.within_of_see hg hmembers hsee)
        fun m other hasks => hasked m other (hasks.later g hsee)

end Related

end Steps

/-! ## What reading leaves -/

/-- Of the names, those under which the model has something loaded. -/
theorem Model.returns_loadedRelationships (m : Model) (names : List String) (g : Graph σ) :
    Returns (m.loadedRelationships names) g (names.filter fun name =>
      (g.model m).modelType.hasRelationship name &&
        ((g.model m).parents.contains name || (g.model m).children.contains name)) g := by
  simp [loadedRelationships]

/-- Under the name the model had no collection, and has an empty one that was made since. -/
def Graph.GotEmpty (g t : Graph σ) (m : Model) (name : String) : Prop :=
  ∃ r c, g.registry.resolve (g.model m).modelType.name name = .ok r ∧ r.holdsSingle = false ∧
    (g.model m).children.get? name = none ∧ (t.model m).children.get? name = some c ∧
    ¬ g.HasCollection c ∧ (t.collection c).members = OrderedMap.empty ∧
    (t.collection c).snapshot = OrderedMap.empty

namespace Graph.OnlyOpens

variable {t : Graph σ} {asked : Model → String → Prop}

/-- What a model has loaded stays so, and what comes to it is empty. -/
theorem loadedRelationships (h : g.OnlyOpens asked t) (m : Model) (names : List String) :
    ∃ before after, Returns (m.loadedRelationships names) g before g ∧
      Returns (m.loadedRelationships names) t after t ∧ before.Sublist after ∧
      ∀ name ∈ after, name ∉ before → asked m name ∧ g.GotEmpty t m name := by
  refine ⟨_, _, m.returns_loadedRelationships names g, m.returns_loadedRelationships names t,
    List.monotone_filter_right _ fun name hname => ?_, fun name hafter hbefore => ?_⟩
  · rw [h.modelType, h.parents]
    simp only [Bool.and_eq_true, Bool.or_eq_true, OrderedMap.contains, Option.isSome_iff_exists]
      at hname ⊢
    exact hname.imp_right (.imp_right fun ⟨c, hc⟩ => ⟨c, h.kept m name c hc⟩)
  · rw [h.modelType, h.parents] at hafter
    simp only [List.mem_filter, Bool.and_eq_true, Bool.or_eq_true, OrderedMap.contains,
      Option.isSome_iff_exists, not_and, not_or] at hafter hbefore
    obtain ⟨hname, hdeclared, hloaded⟩ := hafter
    obtain ⟨hparents, hchildren⟩ := hbefore hname hdeclared
    obtain ⟨c, hc⟩ := hloaded.resolve_left hparents
    obtain ⟨hasked, hnone, hnew, r, hresolve, hmany, hblank⟩ :=
      (h.opened m name c hc).resolve_left fun hold => hchildren ⟨c, hold⟩
    obtain ⟨membership, -, hempty⟩ : ∃ membership, g.registry.membershipFor r = .ok membership ∧
        t.collection c =
          ⟨(g.model m).session, membership, OrderedMap.empty, OrderedMap.empty⟩ := by
      simpa only [Graph.blankFor, except_bind_eq_ok, except_pure_eq_ok] using hblank
    exact ⟨hasked, r, c, hresolve, hmany, hnone, hc, hnew, by rw [hempty], by rw [hempty]⟩

end Graph.OnlyOpens

/-- Reading along a path changes no record, no model but for collections that it loads, no
collection and nothing in the store, which may be one that records its calls. Nothing is unloaded
by it. What counts as loaded afterwards and did not before is a relationship to many models that a
model on the way was asked for and had no collection under: it has an empty one now. All of this
holds whether the path can be read to its end or not. -/
theorem get_unloads_nothing [RecordStore σ] {Kept : σ → Prop} (hkept : RecordStore.Keeps Kept)
    (hg : Graph.Reachable Kept g) {r : Related} (hr : g.HasRelated r) (path : String)
    {t : Graph σ} (ht : t = (r.get (pathSteps path) g).2) :
    (t.store = g.store ∧ t.sessions = g.sessions) ∧
    (∀ m, t.model m = { g.model m with children := (t.model m).children }) ∧
    (∀ c, g.HasCollection c → t.collection c = g.collection c) ∧
    ∀ m names, ∃ before after, Returns (m.loadedRelationships names) g before g ∧
      Returns (m.loadedRelationships names) t after t ∧ before.Sublist after ∧
      ∀ name ∈ after, name ∉ before →
        g.Asks (g.content r) (pathSteps path) m name ∧ g.GotEmpty t m name := by
  have hwf := (hg.sound hkept).wellFormed
  have hleft : g.OnlyOpens (g.Asks (g.content r) (pathSteps path)) t := by
    have hmirrors := Related.mirrors_get hwf (.refl hwf _) hr
      (hwf.within_content hr) (pathSteps path) fun _ _ hasks => hasks
    exact ht ▸ hmirrors.left_of_run fun _ _ _ hopens => hopens.1
  exact ⟨⟨hleft.store, hleft.sessions⟩, hleft.model, hleft.collection, hleft.loadedRelationships⟩

namespace Library

/-- The graph after the articles of the second author were read, who has nothing loaded. -/
def leafed : Graph MemoryStore := (Related.get (.model ⟨1⟩) (pathSteps "articles") authors).2

theorem hasRelated_second : authors.HasRelated (.model ⟨1⟩) :=
  show authors.HasModel ⟨1⟩ from by decide +kernel

/-- Reading the articles of the second author has changed no collection. -/
theorem leafed_unloads_nothing : Graph.Reachable MemoryStore.Filed authors ∧
    authors.HasRelated (.model ⟨1⟩) ∧ leafed.store = authors.store ∧
    leafed.collection ⟨0⟩ = authors.collection ⟨0⟩ := by
  obtain ⟨⟨hstore, -⟩, -, hcollection, -⟩ := get_unloads_nothing MemoryStore.keeps_filed
    reachable_authors hasRelated_second "articles" (t := leafed) rfl
  exact ⟨reachable_authors, hasRelated_second, hstore, hcollection ⟨0⟩ (by decide +kernel)⟩

/-- The second author has no articles loaded before they are read, and has them loaded after. -/
theorem leafed_counts_as_loaded : Graph.Reachable MemoryStore.Filed authors ∧
    authors.HasRelated (.model ⟨1⟩) ∧
    (Model.loadedRelationships ⟨1⟩ ["articles"] authors).1.toOption = some [] ∧
    (Model.loadedRelationships ⟨1⟩ ["articles"] leafed).1.toOption = some ["articles"] := by
  refine ⟨reachable_authors, hasRelated_second, ?_, ?_⟩
  · decide +kernel
  · decide +kernel

end Library

end RecordGraph
