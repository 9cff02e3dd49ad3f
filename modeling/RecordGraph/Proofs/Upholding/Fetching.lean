/-
# Queries and fetches uphold what graphs promise

The models of a query are wrapped in the types of the query, so these have to be registered;
for queries of a session and of a relationship they are.
-/
import RecordGraph.Proofs.Fetching.Groups
import RecordGraph.Proofs.Upholding.Reading

namespace RecordGraph

variable {σ : Type} [RecordStore σ] {Kept : σ → Prop} {g : Graph σ}

/-! ## Queries -/

/-- All types that the query wraps records in are registered. -/
def ModelQuery.Registered (q : ModelQuery) (registry : Registry) : Prop :=
  ∀ t ∈ q.wrapping.types, registry.get t.name = .ok t

/-- A record is wrapped in one of the types. -/
theorem Wrapping.mem_types_of_typeFor {wrapping : Wrapping} {r : Record} {t : ModelType}
    (h : wrapping.typeFor? r = some t) : t ∈ wrapping.types := by
  unfold typeFor? at h
  unfold types
  split at h
  · rw [Option.some.inj h]
    exact List.mem_singleton_self t
  · exact List.mem_of_find?_eq_some h

namespace ModelQuery

theorem registered_ofType {registry : Registry} {t : ModelType}
    (ht : registry.get t.name = .ok t) : (ofType t).Registered registry :=
  fun _ hu => List.mem_singleton.mp hu ▸ ht

theorem registered_ofTypes {registry : Registry} {ts : List ModelType} {q : ModelQuery}
    (hts : ∀ t ∈ ts, registry.get t.name = .ok t) (h : ofTypes ts = .ok q) :
    q.Registered registry := by
  unfold ofTypes at h
  split at h
  · simp at h
  · split at h
    · simp at h
    · obtain rfl := Except.ok.inj h
      exact hts

theorem Registered.map {registry : Registry} {q : ModelQuery} (h : q.Registered registry)
    (f : Query → Query) : (q.map f).Registered registry := h

theorem Registered.typeFor {registry : Registry} {q : ModelQuery} (h : q.Registered registry)
    {r : Record} {t : ModelType} (ht : q.wrapping.typeFor? r = some t) :
    registry.get t.name = .ok t :=
  h t (Wrapping.mem_types_of_typeFor ht)

end ModelQuery

/-- The query of a relationship wraps records in registered types. -/
theorem Registry.registered_relationshipQuery {registry : Registry} (hg : registry.WellFormed)
    {relationship : Relationship} {q : ModelQuery}
    (h : registry.relationshipQuery relationship = .ok q) : q.Registered registry := by
  simp only [relationshipQuery, except_bind_eq_ok] at h
  obtain ⟨resolved, -, ts, hts, h⟩ := h
  have hregistered : ∀ t ∈ ts, registry.get t.name = .ok t := by
    intro t ht
    obtain ⟨name, -, hname⟩ := mem_of_except_mapM hts t ht
    exact hg.get_name hname
  split at h
  · rename_i t
    rw [except_pure_eq_ok] at h
    subst h
    exact ModelQuery.registered_ofType (hregistered t (by simp))
  · exact ModelQuery.registered_ofTypes hregistered h

namespace Session

variable {s : Session}

theorem upholds_modelQuery (hg : g.Sound Kept) (modelType : String) :
    Upholds Kept (s.modelQuery modelType) g fun q _ => q.Registered g.registry := by
  refine Upholds.bind_of_reads rfl (Upholds.bind_ofExcept hg fun t ht => ?_)
  refine Upholds.bind_of_reads rfl (Upholds.pure hg ?_)
  exact ModelQuery.registered_ofType (hg.wellFormed.registry.get_name ht)

theorem upholds_multiModelQuery (hg : g.Sound Kept) (modelTypes : List String) :
    Upholds Kept (s.multiModelQuery modelTypes) g fun q _ => q.Registered g.registry := by
  refine Upholds.bind_of_reads rfl (Upholds.bind_ofExcept hg fun ts hts => ?_)
  refine Upholds.bind_ofExcept hg fun q hq => ?_
  refine Upholds.bind_of_reads rfl (Upholds.pure hg ?_)
  refine (ModelQuery.registered_ofTypes (fun t ht => ?_) hq).map _
  obtain ⟨name, -, hname⟩ := mem_of_except_mapM hts t ht
  exact hg.wellFormed.registry.get_name hname

theorem upholds_execute (hkept : RecordStore.Keeps Kept) (hg : g.Sound Kept) (q : StoreQuery) :
    Upholds Kept (s.execute q) g fun _ _ => True :=
  (upholds_prepare hg q).bind fun _ _ hg' _ _ =>
    (Upholds.call hg' (hkept.execute _ _ hg'.store)).weaken fun _ _ _ _ => trivial

theorem upholds_count (hkept : RecordStore.Keeps Kept) (hg : g.Sound Kept) (q : StoreQuery) :
    Upholds Kept (s.count q) g fun _ _ => True :=
  (upholds_prepare hg q).bind fun _ _ hg' _ _ =>
    (Upholds.call hg' (hkept.count _ _ hg'.store)).weaken fun _ _ _ _ => trivial

theorem upholds_aggregate (hkept : RecordStore.Keeps Kept) (hg : g.Sound Kept) (q : StoreQuery)
    (a : Aggregation) : Upholds Kept (s.aggregate q a) g fun _ _ => True :=
  (upholds_prepare hg q).bind fun _ _ hg' _ _ =>
    (Upholds.call hg' (hkept.aggregate _ _ _ hg'.store)).weaken fun _ _ _ _ => trivial

end Session

section Running

variable {s : Session}

theorem Query.upholds_fetch (hkept : RecordStore.Keeps Kept) (hg : g.Sound Kept)
    (q : Query) : Upholds Kept (q.fetch s) g fun _ _ => True := by
  have hids : Upholds Kept (q.fetchIds s) g fun _ _ => True :=
    Upholds.bind_ofExcept hg fun built _ => Session.upholds_execute hkept hg built
  refine hids.bind fun ids g' hg' _ _ => ?_
  split
  · exact Upholds.pure hg' trivial
  · exact (Upholds.call hg' (hkept.loadMultiple _ _ _ hg'.store)).weaken fun _ _ _ _ => trivial

namespace ModelQuery

variable {q : ModelQuery}

theorem upholds_wrap (hg : g.Sound Kept) (hq : q.Registered g.registry) (r : Record) :
    Upholds Kept (q.wrap s r) g fun found g' => ∀ m ∈ found, g'.HasModel m := by
  unfold wrap
  split
  · rename_i t ht
    refine (Model.upholds_forge hg (hq.typeFor ht) r).bind fun m g' hg' _ hm => ?_
    exact Upholds.pure hg' (by simpa using hm)
  · exact Upholds.pure hg (by simp)

theorem upholds_wrapAll (hg : g.Sound Kept) (hq : q.Registered g.registry) (rs : List Record) :
    Upholds Kept (q.wrapAll s rs) g fun ms g' => ∀ m ∈ ms, g'.HasModel m := by
  have hwrapped : Upholds Kept (rs.mapM (q.wrap s)) g
      fun found g' => ∀ made ∈ found, ∀ m ∈ made, g'.HasModel m :=
    Upholds.mapM (q := fun (made : Option Model) g' => ∀ m ∈ made, g'.HasModel m) hg
      (fun made g₁ g₂ hgrows hmade m hm => hgrows.model m (hmade m hm))
      fun r _ g' hg' hgrows => upholds_wrap hg' (by rw [hgrows.registry]; exact hq) r
  refine hwrapped.bind fun found g' hg' _ hfound => Upholds.pure hg' fun m hm => ?_
  obtain ⟨made, hmade, hsome⟩ := List.mem_filterMap.mp hm
  exact hfound made hmade m hsome

theorem upholds_fetchModels (hkept : RecordStore.Keeps Kept) (hg : g.Sound Kept)
    (hq : q.Registered g.registry) :
    Upholds Kept (q.fetchModels s) g fun ms g' => ∀ m ∈ ms, g'.HasModel m :=
  (Query.upholds_fetch hkept hg q.query).bind fun rs _ hg' hgrows _ =>
    upholds_wrapAll hg' (by rw [hgrows.registry]; exact hq) rs

theorem upholds_fetchSingleModel (hkept : RecordStore.Keeps Kept) (hg : g.Sound Kept)
    (hq : q.Registered g.registry) :
    Upholds Kept (q.fetchSingleModel s) g fun found g' => ∀ m ∈ found, g'.HasModel m := by
  have hsingle : Upholds Kept (q.query.fetchSingle s) g fun _ _ => True :=
    (Query.upholds_fetch hkept hg _).bind fun _ _ hg' _ _ => Upholds.pure hg' trivial
  refine hsingle.bind fun found g' hg' hgrows _ => ?_
  cases found with
  | none => exact Upholds.pure hg' (by simp)
  | some r => exact upholds_wrap hg' (by rw [hgrows.registry]; exact hq) r

theorem upholds_fetchCollection (hkept : RecordStore.Keeps Kept) (hg : g.Sound Kept)
    (hq : q.Registered g.registry) :
    Upholds Kept (q.fetchCollection s) g fun c g' => g'.HasCollection c := by
  have hfill : ∀ c g', g'.Sound Kept → g.Grows g' → g'.HasCollection c → Upholds Kept (do
      (← q.fetchModels s).forM c.putFetched
      return c) g' fun c g'' => g''.HasCollection c := by
    intro c g' hg' hgrows hc
    refine (upholds_fetchModels hkept hg' (by rw [hgrows.registry]; exact hq)).bind
      fun ms g'' hg'' hlater hms => ?_
    refine (Upholds.forM hg'' fun m hm g₃ hg₃ hgrows₃ => ?_).bind fun _ g₃ hg₃ hgrows₃ _ =>
      Upholds.pure hg₃ (hgrows₃.collection c (hlater.collection c hc))
    exact Collection.upholds_putFetched hg₃ (hgrows₃.collection c (hlater.collection c hc))
      (hgrows₃.model m (hms m hm))
  unfold fetchCollection
  cases hwrapping : q.wrapping with
  | one t =>
      have ht : g.registry.get t.name = .ok t := hq t (by rw [hwrapping]; simp [Wrapping.types])
      exact (Collection.upholds_ofType hg ht).bind fun c g' hg' hgrows hc =>
        hfill c g' hg' hgrows hc
  | several ts =>
      exact (Collection.upholds_polymorphic hg _).bind fun c g' hg' hgrows hc =>
        hfill c g' hg' hgrows hc

end ModelQuery

end Running

/-! ## Fetches -/

namespace Fetching

variable {plan : Plan} {m : Model} {members : List Model}

/-- Every model that was found was made in this graph. -/
def AllMade (g : Graph σ) (found : OrderedMap String Model) : Prop :=
  ∀ id m, found.get? id = some m → g.HasModel m

omit [RecordStore σ] in
theorem AllMade.insert {found : OrderedMap String Model} (h : AllMade g found)
    (hm : g.HasModel m) (id : String) : AllMade g (found.insert id m) :=
  OrderedMap.forall_get?_insert h hm

omit [RecordStore σ] in
theorem AllMade.later {g' : Graph σ} {found : OrderedMap String Model} (h : AllMade g found)
    (hgrows : g.Grows g') : AllMade g' found :=
  fun id m hm => hgrows.model m (h id m hm)

/-- The relationship of the plan is the one that the type of the model declares. -/
def Plan.Suits (plan : Plan) (g : Graph σ) (m : Model) : Prop :=
  g.registry.resolve (g.model m).modelType.name plan.resolved.name = .ok plan.resolved

omit [RecordStore σ] in
theorem Plan.Suits.later {g' : Graph σ} (h : plan.Suits g m) (hm : g.HasModel m)
    (hgrows : g.Grows g') : plan.Suits g' m := by
  rw [Suits, hgrows.registry, hgrows.modelType m hm]
  exact h

omit [RecordStore σ] in
/-- What is decided stays while unsaved members are carried over. -/
theorem membership_of_carryOver {fresh : Collection} {pending : List Model} {u : PUnit}
    {g' : Graph σ} (hdecided : (g.collection fresh).membership ≠ .ofEntity none)
    (h : Returns (pending.forM fun m => do if ← m.isNew then fresh.put m) g u g') :
    (g'.collection fresh).membership = (g.collection fresh).membership := by
  refine h.forM_invariant
    (fun _ t => (t.collection fresh).membership = (g.collection fresh).membership) rfl ?_
  rintro done m rest t t' - ht hturn
  simp only [returns_bind, Model.returns_isNew, and_assoc, exists_eq_left] at hturn
  split at hturn
  · exact (Collection.membership_of_put hturn (ht ▸ hdecided)).trans ht
  · obtain ⟨rfl, -⟩ := returns_pure.mp hturn
    exact ht

theorem upholds_resetChildren (hg : g.Sound Kept) (hm : g.HasModel m) (hsuits : plan.Suits g m)
    (hmany : plan.resolved.holdsSingle = false) :
    Upholds Kept (resetChildren plan m) g fun _ _ => True := by
  have hmake := (Collection.upholds_forRelationship (s := plan.session) hg plan.resolved).strengthen
    fun _ _ hmade hc => And.intro hc (And.intro (Collection.returns_forRelationship hmade)
      (Collection.membershipFor_of_forRelationship hmade))
  refine hmake.bind fun fresh g' hg' hgrows hfresh => ?_
  obtain ⟨hfresh, ⟨hnext, membership, hadded⟩, hadmits⟩ := hfresh
  have hdecided := Registry.ne_open_of_membershipFor hadmits
  rw [← hgrows.registry] at hadmits
  have hm' := hgrows.model m hm
  have hsuits' := hsuits.later hm hgrows
  have hmany' := (hg'.wellFormed.holdsSingle_eq hm' hsuits').trans hmany
  have hunheld : g'.Unheld fresh := by
    rw [hnext, hadded]
    exact hg.wellFormed.unheld_nextCollection _
  refine Upholds.bind_of_reads rfl ?_
  cases hcached : (g'.model m).children.get? plan.resolved.name with
  | none => exact Model.upholds_setChildren hg' hm' hfresh hunheld hsuits' hadmits hmany'
  | some previous =>
      have hprevious := hg'.wellFormed.children m _ previous hm' hcached
      refine Upholds.bind_of_reads rfl ?_
      have hcarry : Upholds Kept ((g'.collection previous).members.values.forM fun pending => do
          if ← pending.isNew then fresh.put pending) g' fun _ _ => True := by
        refine Upholds.forM hg' fun pending hpending g₁ hg₁ hgrows₁ => Upholds.bind_of_reads rfl ?_
        split
        · exact Collection.upholds_put hg₁ (hgrows₁.collection fresh hfresh)
            (hgrows₁.model pending (hg'.wellFormed.member hprevious hpending))
        · exact Upholds.pure hg₁ trivial
      refine (hcarry.strengthen (r := fun _ g₂ => g₂.Unheld fresh ∧
        (g₂.collection fresh).membership = (g'.collection fresh).membership)
        fun _ g₂ hrun _ => ⟨?_, membership_of_carryOver hdecided hrun⟩).bind
        fun _ g₂ hg₂ hgrows₂ ⟨hunheld₂, hsame⟩ => Model.upholds_setChildren hg₂
          (hgrows₂.model m hm') (hgrows₂.collection fresh hfresh) hunheld₂
          (hsuits'.later hm' hgrows₂) (by rw [hgrows₂.registry, hsame, hadmits])
          ((hgrows₂.modelType m hm').symm ▸ hmany')
      rw [hadded] at hrun
      obtain ⟨_, rfl⟩ := returns_carryOver hnext hrun
      rw [hnext]
      exact hg.wellFormed.unheld_nextCollection _

theorem upholds_unloadParents (hg : g.Sound Kept) (hm : g.HasModel m) (hsuits : plan.Suits g m) :
    Upholds Kept (unloadParents plan m) g fun _ _ => True := by
  unfold unloadParents
  split
  · exact (Model.upholds_removeParent hg hm).bind fun _ _ hg' _ _ => Model.upholds_parentIds hg'
  · rename_i hmultiple
    have hmany : plan.resolved.holdsSingle = false := by
      simp [Resolved.holdsSingle, hmultiple]
    exact (upholds_resetChildren hg hm hsuits hmany).bind
      fun _ _ hg' _ _ => Model.upholds_parentIds hg'

/-- What is answered are members. -/
theorem upholds_unloadChildren (hg : g.Sound Kept) (hmembers : ∀ m ∈ members, g.HasModel m)
    (hsuits : ∀ m ∈ members, plan.Suits g m) (hmany : plan.resolved.holdsSingle = false) :
    Upholds Kept (unloadChildren plan members) g fun owners g' =>
      AllMade g' owners ∧ ∀ id m, owners.get? id = some m → m ∈ members := by
  refine Upholds.foldlM hg ⟨fun _ _ h => by simp at h, fun _ _ h => by simp at h⟩
    fun m hm owners g' hg' hgrows howners => ?_
  have hm' := hgrows.model m (hmembers m hm)
  refine (upholds_resetChildren hg' hm' ((hsuits m hm).later (hmembers m hm) hgrows) hmany).bind
    fun _ g'' hg'' hlater _ => ?_
  refine Upholds.bind_of_reads rfl ?_
  split
  · refine Upholds.pure hg'' ⟨(howners.1.later hlater).insert (hlater.model m hm') _,
      fun other n hn => ?_⟩
    rw [OrderedMap.get?_insert] at hn
    split at hn
    · exact Option.some.inj hn ▸ hm
    · exact howners.2 other n hn
  · exact Upholds.pure hg'' ⟨howners.1.later hlater, howners.2⟩

section Wiring

variable {target owner child : Model}

theorem upholds_attachParent (hg : g.Sound Kept) (hside : plan.resolved.side = .parent)
    (hsuits : plan.Suits g m) (hm : g.HasModel m) (htarget : g.HasModel target) :
    Upholds Kept (attachParent plan m target) g fun _ _ => True := by
  unfold attachParent
  extract_lets wayBack
  have hback : ∀ g', g'.Sound Kept → g.Grows g' →
      Upholds Kept (wayBack ⟨⟩) g' fun _ _ => True := by
    intro g' hg' hgrows
    refine Upholds.bind_of_reads rfl ?_
    have htarget' := hgrows.model target htarget
    cases hinverse : plan.resolved.inverseOn? (g'.model target).modelType.name with
    | none => exact Upholds.pure hg' trivial
    | some inverse =>
        have hmany := (hg'.wellFormed.holdsSingle_back htarget' (hsuits.later hm hgrows)
          hinverse).trans (Resolved.heldSingly_of_parent hside)
        refine (Model.upholds_children hg' htarget' hmany).bind
          fun siblings g'' hg'' hlater hsiblings => Upholds.bind_of_reads rfl ?_
        have hm'' := hlater.model m (hgrows.model m hm)
        split
        · exact Collection.upholds_put hg'' hsiblings hm''
        · exact Collection.upholds_putFetched hg'' hsiblings hm''
  have hown := (hg.wellFormed.holdsSingle_eq hm hsuits).trans (Resolved.holdsSingle_of_parent hside)
  by_cases hsingle : plan.resolved.cardinality = .single
  · rw [if_pos hsingle]
    rw [decide_eq_true hsingle] at hown
    exact (Model.upholds_setParent hg hm htarget hown).bind
      fun _ g' hg' hgrows _ => hback g' hg' hgrows
  · rw [if_neg hsingle]
    rw [decide_eq_false hsingle] at hown
    refine (Model.upholds_children hg hm hown).bind fun c g' hg' hgrows hc => ?_
    exact (Collection.upholds_putFetched hg' hc (hgrows.model target htarget)).bind
      fun _ g'' hg'' hlater _ => hback g'' hg'' (hgrows.trans hlater)

theorem upholds_attachChild (hg : g.Sound Kept) (hside : plan.resolved.side = .child)
    (hsuits : plan.Suits g owner) (howner : g.HasModel owner) (hchild : g.HasModel child) :
    Upholds Kept (attachChild plan owner child) g fun _ _ => True := by
  have hown := (hg.wellFormed.holdsSingle_eq howner hsuits).trans
    (Resolved.holdsSingle_of_child hside)
  refine (Model.upholds_children hg howner hown).bind fun c g₁ hg₁ hgrows₁ hc => ?_
  refine (Collection.upholds_putFetched hg₁ hc (hgrows₁.model child hchild)).bind
    fun _ g₂ hg₂ hgrows₂ _ => Upholds.bind_of_reads rfl ?_
  have howner₂ := hgrows₂.model owner (hgrows₁.model owner howner)
  have hchild₂ := hgrows₂.model child (hgrows₁.model child hchild)
  cases hinverse : plan.resolved.inverseOn? (g₂.model child).modelType.name with
  | none => exact Upholds.pure hg₂ trivial
  | some inverse =>
      have hsuits₂ := (hsuits.later howner hgrows₁).later (hgrows₁.model owner howner) hgrows₂
      have hheld := (hg₂.wellFormed.holdsSingle_back hchild₂ hsuits₂ hinverse).trans
        (Resolved.heldSingly_of_child hside)
      by_cases hsingle : plan.resolved.cardinality = .single
      · simp only [if_pos hsingle]
        rw [decide_eq_true hsingle] at hheld
        exact Model.upholds_setParent hg₂ hchild₂ howner₂ hheld
      · simp only [if_neg hsingle]
        rw [decide_eq_false hsingle] at hheld
        refine (Model.upholds_children hg₂ hchild₂ hheld).bind fun e g₃ hg₃ hgrows₃ he => ?_
        exact Collection.upholds_putFetched hg₃ he (hgrows₃.model owner howner₂)

end Wiring

/-- The groups hold no other models than the members, each under the name of its type. -/
theorem upholds_groupByType (hg : g.Sound Kept) (members : List Model) :
    Upholds Kept (groupByType members) g fun groups _ =>
      ∀ e ∈ groups.entries, ∀ m ∈ e.2, m ∈ members ∧ (g.model m).modelType.name = e.1 := by
  refine Upholds.of_reads hg rfl fun groups hgroups e he m hm => ?_
  obtain ⟨-, hgroup⟩ := returns_groupByType (returns_of_fst_eq_ok hgroups)
  have hfound := hgroup e.1
  rw [OrderedMap.get?_eq_some_iff.mpr he] at hfound
  split at hfound
  · cases hfound
  · rw [Option.some.inj hfound] at hm
    simpa using List.mem_filter.mp hm

theorem upholds_runBatch (hkept : RecordStore.Keeps Kept) (hg : g.Sound Kept)
    (hquery : plan.query.Registered g.registry) {found : OrderedMap String Model}
    (hfound : AllMade g found) (ids : List String) :
    Upholds Kept (runBatch plan found ids) g fun found g' => AllMade g' found := by
  have hbatch : (batchQuery plan ids).Registered g.registry := hquery
  refine (ModelQuery.upholds_fetchModels hkept hg hbatch).bind fun ms g' hg' hgrows hms => ?_
  refine Upholds.bind_of_reads rfl (Upholds.pure hg' ?_)
  have hstart : AllMade g' found := hfound.later hgrows
  clear hfound
  induction ms generalizing found with
  | nil => exact hstart
  | cons m rest ih =>
      refine ih (fun n hn => hms n (List.mem_cons_of_mem m hn)) ?_
      cases hid : (g'.model m).record.id with
      | none =>
          simp only [hid]
          exact hstart
      | some id =>
          simp only [hid]
          exact hstart.insert (hms m List.mem_cons_self) id

theorem upholds_run (hkept : RecordStore.Keeps Kept) (hg : g.Sound Kept)
    (hquery : plan.query.Registered g.registry) (ids : List String) :
    Upholds Kept (run plan ids) g fun found g' => AllMade g' found := by
  refine Upholds.bind_of_reads rfl ?_
  refine Upholds.foldlM hg (fun _ _ h => by simp at h) fun batch _ found g' hg' hgrows hfound => ?_
  exact upholds_runBatch hkept hg' (by rw [hgrows.registry]; exact hquery) hfound batch

theorem upholds_parentSide (hkept : RecordStore.Keeps Kept) (hg : g.Sound Kept)
    (hquery : plan.query.Registered g.registry) (hside : plan.resolved.side = .parent)
    (hmembers : ∀ m ∈ members, g.HasModel m) (hsuits : ∀ m ∈ members, plan.Suits g m) :
    Upholds Kept (parentSide plan members) g fun _ _ => True := by
  have hholds : ∀ m ∈ members, ∀ g', g'.Sound Kept → g.Grows g' →
      Upholds Kept (do return !(← holdsUnsavedParent plan m)) g' fun _ _ => True := by
    intro m _ g' hg' _
    refine Upholds.bind (q := fun _ _ => True) ?_ fun _ _ hg'' _ _ => Upholds.pure hg'' trivial
    unfold holdsUnsavedParent
    split
    · refine Upholds.bind_of_reads rfl ?_
      split
      · exact Upholds.of_reads hg' rfl fun _ _ => trivial
      · exact Upholds.pure hg' trivial
    · exact Upholds.pure hg' trivial
  refine (Upholds.filterM hg hholds).bind fun kept g₁ hg₁ hgrows₁ hkeptMembers => ?_
  have hmade₁ : ∀ m ∈ kept, g₁.HasModel m :=
    fun m hm => hgrows₁.model m (hmembers m (hkeptMembers m hm))
  have hsuits₁ : ∀ m ∈ kept, plan.Suits g₁ m := fun m hm =>
    (hsuits m (hkeptMembers m hm)).later (hmembers m (hkeptMembers m hm)) hgrows₁
  have hids := Upholds.mapM (f := unloadParents plan) (l := kept) (q := fun _ _ => True) hg₁
    (fun _ _ _ _ _ => trivial)
    fun m hm g' hg' hgrows => upholds_unloadParents hg' (hgrows.model m (hmade₁ m hm))
      ((hsuits₁ m hm).later (hmade₁ m hm) hgrows)
  refine hids.bind fun ids g₂ hg₂ hgrows₂ _ => ?_
  simp only
  split
  · exact Upholds.pure hg₂ trivial
  · have hquery₂ : plan.query.Registered g₂.registry := by
      rw [hgrows₂.registry, hgrows₁.registry]
      exact hquery
    refine (upholds_run hkept hg₂ hquery₂ _).bind fun targets g₃ hg₃ hgrows₃ htargets => ?_
    refine Upholds.forM hg₃ fun m hm g₄ hg₄ hgrows₄ => ?_
    have hgrown₄ := hgrows₂.trans (hgrows₃.trans hgrows₄)
    refine (Model.upholds_parentIds hg₄).bind fun ids g₅ hg₅ hgrows₅ _ => ?_
    refine Upholds.forM hg₅ fun id _ g₆ hg₆ hgrows₆ => ?_
    have hgrown₆ := hgrown₄.trans (hgrows₅.trans hgrows₆)
    split
    · rename_i target htarget
      exact upholds_attachParent hg₆ hside ((hsuits₁ m hm).later (hmade₁ m hm) hgrown₆)
        (hgrown₆.model m (hmade₁ m hm))
        ((htargets.later (hgrows₄.trans (hgrows₅.trans hgrows₆))) id target htarget)
    · exact Upholds.pure hg₆ trivial

theorem upholds_childSide (hkept : RecordStore.Keeps Kept) (hg : g.Sound Kept)
    (hquery : plan.query.Registered g.registry) (hside : plan.resolved.side = .child)
    (hmembers : ∀ m ∈ members, g.HasModel m) (hsuits : ∀ m ∈ members, plan.Suits g m) :
    Upholds Kept (childSide plan members) g fun _ _ => True := by
  refine (upholds_unloadChildren hg hmembers hsuits
    (Resolved.holdsSingle_of_child hside)).bind fun owners g₁ hg₁ hgrows₁ howners => ?_
  split
  · exact Upholds.pure hg₁ trivial
  · have hquery₁ : plan.query.Registered g₁.registry := by
      rw [hgrows₁.registry]
      exact hquery
    refine (upholds_run hkept hg₁ hquery₁ _).bind fun found g₂ hg₂ hgrows₂ hfound => ?_
    refine Upholds.forM hg₂ fun child hchild g₃ hg₃ hgrows₃ => Upholds.bind_of_reads rfl ?_
    refine Upholds.forM hg₃ fun id _ g₄ hg₄ hgrows₄ => ?_
    obtain ⟨key, hkey⟩ := OrderedMap.mem_values_iff.mp hchild
    split
    · rename_i owner howner
      have hmember := howners.2 id owner howner
      have hgrown₄ := hgrows₁.trans (hgrows₂.trans (hgrows₃.trans hgrows₄))
      exact upholds_attachChild hg₄ hside
        ((hsuits owner hmember).later (hmembers owner hmember) hgrown₄)
        (hgrown₄.model owner (hmembers owner hmember))
        (hfound.later (hgrows₃.trans hgrows₄) key child hkey)
    · exact Upholds.pure hg₄ trivial

theorem upholds_fetchGroup (hkept : RecordStore.Keeps Kept) (hg : g.Sound Kept) {s : Session}
    (t : ModelType) (name : String) (callers : Option Query)
    (hmembers : ∀ m ∈ members, g.HasModel m)
    (htypes : ∀ m ∈ members, (g.model m).modelType.name = t.name) :
    Upholds Kept (fetchGroup s t name callers members) g fun _ _ => True := by
  refine Upholds.bind_ofExcept hg fun relationship _ => Upholds.bind_of_reads rfl ?_
  refine Upholds.bind_ofExcept hg fun resolved hresolved => ?_
  have hsuits : ∀ m ∈ members,
      g.registry.resolve (g.model m).modelType.name resolved.name = .ok resolved := by
    intro m hm
    rw [htypes m hm, Registry.name_of_resolve hg.wellFormed.registry hresolved, hresolved]
  refine Upholds.bind_ofExcept hg fun q hq => ?_
  have hregistered := Registry.registered_relationshipQuery hg.wellFormed.registry hq
  extract_lets query
  have hquery : query.Registered g.registry := by
    unfold query
    cases callers with
    | none => exact hregistered
    | some own => exact hregistered.map _
  refine Upholds.bind_ofExcept hg fun condition _ => ?_
  cases hside : resolved.side with
  | parent => exact upholds_parentSide hkept hg hquery hside hmembers hsuits
  | child => exact upholds_childSide hkept hg hquery hside hmembers hsuits

theorem upholds_turn (hkept : RecordStore.Keeps Kept) (hg : g.Sound Kept) {s : Session}
    (name : String) (callers : Option Query) (count : Nat) {group : String × List Model}
    (hgroup : ∀ m ∈ group.2, g.HasModel m ∧ (g.model m).modelType.name = group.1) :
    Upholds Kept (turn s name callers count group) g fun _ _ => True := by
  refine Upholds.bind_of_reads rfl (Upholds.bind_ofExcept hg fun t ht => ?_)
  obtain ⟨htname, -⟩ := hg.wellFormed.registry group.1 t (Registry.get_eq_ok.mp ht)
  split
  · exact Upholds.pure hg trivial
  · exact (upholds_fetchGroup hkept hg t name callers (fun m hm => (hgroup m hm).1)
      fun m hm => (hgroup m hm).2.trans htname.symm).bind
        fun _ _ hg' _ _ => Upholds.pure hg' trivial

end Fetching

theorem upholds_fetchRelationship (hkept : RecordStore.Keeps Kept)
    (hg : g.Sound Kept) (s : Session) {members : List Model}
    (hmembers : ∀ m ∈ members, g.HasModel m) (name : String) (callers : Option Query) :
    Upholds Kept (fetchRelationship s members name callers) g fun _ _ => True := by
  refine (Fetching.upholds_groupByType hg members).bind fun groups g₁ hg₁ hgrows₁ hgroups => ?_
  have hturns := Upholds.mapM (f := Fetching.turn s name callers groups.size)
    (l := groups.entries) (q := fun _ _ => True) hg₁ (fun _ _ _ _ _ => trivial)
    fun e he g₂ hg₂ hgrows₂ => Fetching.upholds_turn hkept hg₂ name callers groups.size
      fun m hm => by
        obtain ⟨hmember, htype⟩ := hgroups e he m hm
        have hgrown := hgrows₁.trans hgrows₂
        exact ⟨hgrown.model m (hmembers m hmember),
          by rw [hgrown.modelType m (hmembers m hmember), htype]⟩
  refine hturns.bind fun declared g₂ hg₂ _ _ => ?_
  split
  · exact Upholds.pure hg₂ trivial
  · split
    · exact Upholds.throw hg₂
    · exact Upholds.pure hg₂ trivial

namespace Related

theorem upholds_fetchStep (hkept : RecordStore.Keeps Kept) (hg : g.Sound Kept) {r : Related}
    (hr : g.HasRelated r) (name : String) (callers : Option Query) :
    Upholds Kept (r.fetchStep name callers) g fun x g' => g'.HasRelated x := by
  cases r with
  | none => exact Upholds.pure hg trivial
  | model m =>
      refine Upholds.bind_of_reads rfl ?_
      refine (upholds_fetchRelationship hkept hg _
        (fun n hn => List.mem_singleton.mp hn ▸ hr) name callers).bind
        fun _ g' hg' hgrows _ => ?_
      exact Model.upholds_read hg' (hgrows.model m hr) name
  | collection c =>
      refine Upholds.bind_of_reads rfl ?_
      refine (upholds_fetchRelationship hkept hg _
        (fun m hm => hg.wellFormed.member hr hm) name callers).bind fun _ g' hg' hgrows _ => ?_
      refine (Collection.upholds_read hg' (hgrows.collection c hr) name).bind
        fun e g'' hg'' _ he => Upholds.pure hg'' he

theorem upholds_fetch (hkept : RecordStore.Keeps Kept) (hg : g.Sound Kept) {r : Related}
    (hr : g.HasRelated r) (path : List String) (callers : Option Query) :
    Upholds Kept (r.fetch path callers) g fun x g' => g'.HasRelated x :=
  (upholds_get hg hr path.dropLast).bind fun _ _ hg' _ hx =>
    upholds_fetchStep hkept hg' hx _ callers

end Related

end RecordGraph
