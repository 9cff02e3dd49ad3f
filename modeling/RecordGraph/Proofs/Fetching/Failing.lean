/-
# Where a fetch may fail

A fetch may fail before it begins with a group, while it unloads the members of one, when the
store is asked or answers, and when what was found is handed to the members. At each of these
points the graph is disturbed no further than the members of this group and of the groups before
it. The steps are gone through once, and each says what holds if it fails beside what it hands to
the next one.

Most of the single steps change nothing if they fail, as they look before they write. The others
are unloading, which stops with a new collection that is not loaded yet, and the calls on the
store.
-/
import RecordGraph.Proofs.Failures
import RecordGraph.Proofs.Fetching.Shedding
import RecordGraph.Proofs.Upholding.Histories

namespace RecordGraph

variable {σ α β : Type} {g g' : Graph σ}

/-- A computation on values only stops a run or lets it go on. -/
theorem Ends.bind_ofExcept {answer : Except Error α} {f : α → Action σ β} {lost : Graph σ → Prop}
    {q : β → Graph σ → Prop} (hg : lost g) (hf : ∀ a, answer = .ok a → Ends (f a) g lost q) :
    Ends (Action.ofExcept answer >>= f) g lost q := by
  cases hanswer : answer with
  | error e => exact Ends.throw hg
  | ok a => exact Ends.bind_of_reads rfl (hf a hanswer)

theorem Ends.ofExcept {answer : Except Error α} {lost : Graph σ → Prop} {q : α → Graph σ → Prop}
    (hg : lost g) (hq : ∀ a, answer = .ok a → q a g) : Ends (Action.ofExcept answer) g lost q := by
  cases hanswer : answer with
  | error e => exact Ends.throw hg
  | ok a => exact Ends.pure (hq a hanswer)

/-! ## Actions that change nothing if they fail -/

theorem Session.atomic_prepare (s : Session) (q : StoreQuery) :
    Atomic (s.prepare q : Action σ StoreQuery) g := by
  suffices h : Ends (s.prepare q) g (· = g) fun _ _ => True from h.atomic
  unfold prepare
  split
  · split
    · exact Ends.throw rfl
    · refine Ends.bind_of_reads rfl ?_
      split
      · exact Ends.throw rfl
      · exact Ends.ofExcept rfl fun _ _ => trivial
  · exact Ends.pure trivial

namespace Collection

variable {c : Collection} {m : Model}

theorem atomic_forRelationship (s : Session) (r : Resolved) :
    Atomic (forRelationship s r : Action σ Collection) g := by
  suffices h : Ends (forRelationship s r) g (· = g) fun _ _ => True from h.atomic
  unfold forRelationship
  split
  · exact Ends.throw rfl
  · refine Ends.bind_of_reads rfl <| Ends.bind_ofExcept rfl fun t _ => ?_
    split
    · exact Ends.of_run rfl trivial
    · exact Ends.of_run rfl trivial

theorem ends_accept : Ends (c.accept m) g (· = g) fun _ _ => True := by
  refine Ends.bind_of_reads rfl <| Ends.bind_of_reads rfl ?_
  split
  · split
    · exact Ends.throw rfl
    · exact Ends.pure trivial
  · exact Ends.of_run rfl trivial
  · split
    · exact Ends.bind_of_reads rfl (Ends.throw rfl)
    · exact Ends.pure trivial

/-- Once a model is let in, it is put. -/
theorem atomic_put : Atomic (c.put m) g := by
  suffices h : Ends (c.put m) g (· = g) fun _ _ => True from h.atomic
  exact ends_accept.bind fun _ _ _ => Ends.bind_of_reads rfl (Ends.of_run rfl trivial)

theorem atomic_putSnapshot : Atomic (c.putSnapshot m) g := by
  suffices h : Ends (c.putSnapshot m) g (· = g) fun _ _ => True from h.atomic
  exact ends_accept.bind fun _ _ _ => Ends.bind_of_reads rfl (Ends.of_run rfl trivial)

theorem atomic_putFetched : Atomic (c.putFetched m) g := by
  suffices h : Ends (c.putFetched m) g (· = g) fun _ _ => True from h.atomic
  exact ends_accept.bind fun _ _ _ => Ends.bind_of_reads rfl (Ends.of_run rfl trivial)

end Collection

namespace Model

variable {m : Model} {name : String}

theorem ends_resolve : Ends (m.resolve name : Action σ Resolved) g (· = g) fun r t =>
    t = g ∧ g.registry.resolve (g.model m).modelType.name name = .ok r :=
  Ends.bind_of_reads rfl <| Ends.bind_of_reads rfl <| Ends.ofExcept rfl fun _ hr => ⟨rfl, hr⟩

theorem atomic_childrenOr (r : Resolved) : Atomic (m.childrenOr name r) g := by
  suffices h : Ends (m.childrenOr name r) g (· = g) fun _ _ => True from h.atomic
  refine Ends.bind_of_reads rfl ?_
  split
  · exact Ends.pure trivial
  · have hmake : Ends (Collection.forRelationship (g.model m).session r) g (· = g)
        fun _ _ => True := ⟨Collection.atomic_forRelationship _ r, fun _ _ _ => trivial⟩
    exact Ends.bind_of_reads rfl <| hmake.bind fun _ _ _ => Ends.of_run rfl trivial

theorem atomic_children : Atomic (m.children name) g := by
  suffices h : Ends (m.children name) g (· = g) fun _ _ => True from h.atomic
  refine Ends.bind_of_reads rfl ?_
  split
  · exact Ends.pure trivial
  · refine ends_resolve.bind fun r t ⟨ht, _⟩ => ?_
    subst ht
    exact Ends.of_atomic (atomic_childrenOr r) rfl fun _ _ _ => trivial

theorem atomic_parentIds : Atomic (m.parentIds name) g := by
  suffices h : Ends (m.parentIds name) g (· = g) fun _ _ => True from h.atomic
  exact Ends.bind_of_reads rfl <| Ends.bind_ofExcept rfl fun r _ =>
    Ends.bind_ofExcept rfl fun k _ => Ends.pure trivial

end Model

/-! ## Running the queries -/

section Running

variable [RecordStore σ] {g₀ : Graph σ}

/-- Whether a query answers or fails, no object is touched. -/
theorem Query.ends_fetch (q : Query) (s : Session) (h : g₀.ForgesBare g) :
    Ends (q.fetch s) g g₀.ForgesBare fun _ g' => g₀.ForgesBare g' := by
  have hstore : ∀ {t : Graph σ} (store : σ), g₀.ForgesBare t →
      g₀.ForgesBare { t with store := store } := fun store ht => ht.trans (.of_same rfl rfl rfl)
  have hcall : ∀ {α : Type} (c : Call σ α) {t : Graph σ}, g₀.ForgesBare t →
      Ends (Action.call c) t g₀.ForgesBare fun _ t' => g₀.ForgesBare t' := by
    intro α c t ht
    refine ⟨fun e t' hfail => ?_, fun x t' hreturns => ?_⟩
    · obtain ⟨-, rfl⟩ := Prod.mk.inj hfail
      exact hstore _ ht
    · obtain ⟨store, -, rfl⟩ := returns_call.mp hreturns
      exact hstore _ ht
  have hids : Ends (q.fetchIds s) g g₀.ForgesBare fun _ g' => g₀.ForgesBare g' := by
    refine Ends.bind_ofExcept h fun built _ => ?_
    refine (Ends.of_atomic (Session.atomic_prepare s built) h fun _ _ hreturns => ?_).bind
      fun prepared t ht => hcall _ ht
    exact Session.returns_prepare hreturns ▸ h
  refine hids.bind fun ids t ht => ?_
  split
  · exact Ends.pure ht
  · exact hcall _ ht

omit [RecordStore σ] in
/-- A model is forged with nothing loaded. -/
theorem Model.ends_forge (s : Session) (t : ModelType) (r : Record) (h : g₀.ForgesBare g) :
    Ends (forge s t r) g g₀.ForgesBare
      fun m g' => g₀.ForgesBare g' ∧ ¬ g₀.HasModel m := by
  have hnew : ¬ g₀.HasModel g.nextModel := fun hold =>
    g.not_hasModel_nextModel (h.forges.hasModel hold)
  have hwrapped : ∀ {g : Graph σ} (key : String), g₀.ForgesBare g →
      g₀.ForgesBare (g.wrapped s t key r) := fun key hg =>
    (hg.trans (.addModel rfl)).trans (.of_same rfl rfl rfl)
  cases hid : r.id with
  | some id => exact Ends.of_run (forge_of_id hid) ⟨hwrapped id h, hnew⟩
  | none =>
      exact Ends.of_run (forge_of_new hid)
        ⟨hwrapped (g := g.counted s) _ (h.trans (.of_same rfl rfl rfl)), hnew⟩

/-- The models that a query finds were made since. -/
theorem ModelQuery.ends_fetchModels (q : ModelQuery) (s : Session) (h : g₀.ForgesBare g) :
    Ends (q.fetchModels s) g g₀.ForgesBare
      fun ms g' => g₀.ForgesBare g' ∧ ∀ m ∈ ms, ¬ g₀.HasModel m := by
  refine (q.query.ends_fetch s h).bind fun rs t ht => ?_
  have hwrap : ∀ r (u : Graph σ), g₀.ForgesBare u →
      Ends (q.wrap s r) u g₀.ForgesBare fun _ u' => g₀.ForgesBare u' := by
    intro r u hu
    unfold wrap
    split
    · exact (Model.ends_forge s _ r hu).bind fun _ _ hforged => Ends.pure hforged.1
    · exact Ends.pure hu
  have hall : Ends (q.wrapAll s rs) t g₀.ForgesBare fun _ g' => g₀.ForgesBare g' :=
    (Ends.mapM (fun _ => g₀.ForgesBare) ht fun _ r _ u _ hu => hwrap r u hu).bind
      fun _ _ hlast => Ends.pure hlast
  refine hall.strengthen fun ms g' hreturns hlast => ⟨hlast, fun m hm hold => ?_⟩
  exact ((returns_wrapAll hreturns).2.2.1 m hm).1 (ht.forges.hasModel hold)

namespace Fetching

variable {plan : Plan}

/-- The models that are found were made since. -/
theorem ends_run (ids : List String) : Ends (run plan ids) g g.ForgesBare
    fun found g' => g.ForgesBare g' ∧ ∀ id x, found.get? id = some x → ¬ g.HasModel x := by
  refine Ends.bind_of_reads rfl ?_
  refine Ends.foldlM (fun _ (found : OrderedMap String Model) t => g.ForgesBare t ∧
    ∀ id x, found.get? id = some x → ¬ g.HasModel x) ⟨.refl g, by simp⟩ ?_
  rintro done batch rest found t - ⟨ht, hfound⟩
  refine ((batchQuery plan batch).ends_fetchModels plan.session ht).bind fun ms u hu =>
    Ends.bind_of_reads rfl <| Ends.pure ⟨hu.1, fun id x hx => ?_⟩
  have hcases := OrderedMap.get?_foldl_of_inserts (fun found m => by
    split
    · exact .inr ⟨_, rfl⟩
    · exact .inl rfl) hx
  exact hcases.elim (hfound id x) (hu.2 x)

end Fetching

end Running

/-! ## Unloading -/

namespace Fetching

variable {plan : Plan} {old : Graph σ} {name : String} {touched shed : List Model} {m : Model}

/-- Carrying unsaved models over may stop half way. By then the new collection is not loaded. -/
theorem ends_carryOver (h : old.Disturbed name touched shed g)
    {fresh : Collection} (hnew : ¬ old.HasCollection fresh) (hunheld : g.Unheld fresh)
    (pending : List Model) :
    Ends (pending.forM fun m => do if ← m.isNew then fresh.put m) g
      (old.Disturbed name touched shed) fun _ g' => old.Disturbed name touched shed g' := by
  refine (Ends.forM (fun _ t => old.Disturbed name touched shed t ∧ t.Unheld fresh)
    ⟨h, hunheld⟩ ?_).weaken fun _ _ hlast => hlast.1
  rintro done x rest t - ⟨ht, hfree⟩
  refine Ends.bind_of_reads rfl ?_
  split
  · refine Ends.of_atomic Collection.atomic_put ht fun _ t' hput => ?_
    obtain ⟨membership, rfl⟩ := Collection.returns_put hput
    exact ⟨ht.setCollection hnew fun n _ hc => absurd hc (hfree n name), hfree⟩
  · exact Ends.pure ⟨ht, hfree⟩

/-- A member's collection is replaced, or the new one is not loaded. -/
theorem ends_resetChildren (hold : old.WellFormed) (hname : plan.resolved.name = name)
    (h : old.Disturbed name touched shed g) (hm : old.HasModel m) (htouched : m ∈ touched)
    (hresolve : old.registry.resolve (old.model m).modelType.name name = .ok plan.resolved)
    (hmany : plan.resolved.holdsSingle = false)
    (hunsaved : ∀ x, x ∈ g.unsavedChildren m name ↔ x ∈ old.unsavedChildren m name) :
    Ends (resetChildren plan m) g (old.Disturbed name touched shed) fun _ g' =>
      old.Disturbed name touched (shed ++ [m]) g' ∧
        ∀ n x, x ∈ g'.unsavedChildren n name ↔ x ∈ g.unsavedChildren n name := by
  have hstops : Ends (resetChildren plan m) g (old.Disturbed name touched shed)
      fun _ _ => True := by
    refine (Ends.of_atomic (Collection.atomic_forRelationship _ _) h fun fresh t hmake => ?_).bind
      (q := fun fresh t => old.Disturbed name touched shed t ∧ ¬ old.HasCollection fresh ∧
        t.Unheld fresh) fun fresh t ⟨ht, hnew, hunheld⟩ => Ends.bind_of_reads rfl ?_
    · obtain ⟨rfl, membership, rfl⟩ := Collection.returns_forRelationship hmake
      exact ⟨h.addCollection _, h.spares.not_hasCollection_next, h.lodged.unheld_next _⟩
    · split
      · exact Ends.bind_of_reads rfl <| (ends_carryOver ht hnew hunheld _).bind
          fun _ _ _ => Ends.of_run rfl trivial
      · exact Ends.of_run rfl trivial
  refine hstops.strengthen fun _ g' hreset _ => ?_
  obtain ⟨membership, rfl⟩ := returns_resetChildren (h.lodged.made m _) hreset
  rw [hname]
  have hkey : ∀ x, old.HasModel x → (g.model x).key = (old.model x).key := fun x hx => by
    rw [h.spares.model x hx]
  refine ⟨?_, fun n x =>
    Graph.mem_unsavedChildren_of_reset h.lodged.made (fun x hx y hy hsame => ?_) n x⟩
  · exact h.setNext hm htouched hresolve hmany
      (Graph.Refills.of_unsaved hold hm hunsaved hkey plan.session membership)
  · have hx' := (hunsaved x).mp hx
    have hy' := (hunsaved y).mp hy
    rw [hkey x (hold.of_mem_unsavedChildren hm hx').1,
      hkey y (hold.of_mem_unsavedChildren hm hy').1] at hsame
    exact List.inj_on_of_nodup_map (hold.nodup_keys_unsavedChildren hm name) hx' hy' hsame

/-- A member's parent is unloaded, or its collection replaced. -/
theorem ends_unloadParents (hold : old.WellFormed) (hname : plan.resolved.name = name)
    (hside : plan.resolved.side = .parent) (h : old.Disturbed name touched shed g)
    (hm : old.HasModel m) (htouched : m ∈ touched)
    (hresolve : old.registry.resolve (old.model m).modelType.name name = .ok plan.resolved)
    (hsaved : plan.resolved.holdsSingle = true → ∀ p,
      (old.model m).parents.get? name = some p → (old.model p).record.isNew = false)
    (hunsaved : plan.resolved.holdsSingle = false →
      ∀ x, x ∈ g.unsavedChildren m name ↔ x ∈ old.unsavedChildren m name) :
    Ends (unloadParents plan m) g (old.Disturbed name touched shed) fun _ g' =>
      old.Disturbed name touched (shed ++ [m]) g' ∧ (plan.resolved.holdsSingle = false →
        ∀ n x, x ∈ g'.unsavedChildren n name ↔ x ∈ g.unsavedChildren n name) := by
  have hids : ∀ t, (old.Disturbed name touched (shed ++ [m]) t ∧
      (plan.resolved.holdsSingle = false →
        ∀ n x, x ∈ t.unsavedChildren n name ↔ x ∈ g.unsavedChildren n name)) →
      Ends (m.parentIds plan.resolved.name) t (old.Disturbed name touched shed) fun _ t' =>
        old.Disturbed name touched (shed ++ [m]) t' ∧ (plan.resolved.holdsSingle = false →
          ∀ n x, x ∈ t'.unsavedChildren n name ↔ x ∈ g.unsavedChildren n name) :=
    fun t ht => Ends.of_atomic Model.atomic_parentIds ht.1.forgetLast fun ids t' hids => by
      rw [Model.returns_parentIds] at hids
      exact hids.1 ▸ ht
  have hholds := Resolved.holdsSingle_of_parent hside
  unfold unloadParents
  split
  · rename_i hsingle
    rw [decide_eq_true hsingle] at hholds
    refine Ends.bind (q := fun _ t => old.Disturbed name touched (shed ++ [m]) t)
      (Ends.of_run rfl ?_) fun _ t ht => hids t ⟨ht, fun hmany => by simp [hholds] at hmany⟩
    rw [hname]
    refine h.setParents hm htouched hresolve hholds (hsaved hholds) (fun other hother => ?_)
      fun p hp => ?_
    · rw [OrderedMap.get?_erase, if_neg (Ne.symm hother)]
    · rw [OrderedMap.get?_erase, if_pos rfl] at hp
      cases hp
  · rename_i hmany
    rw [decide_eq_false hmany] at hholds
    exact (ends_resetChildren hold hname h hm htouched hresolve hholds (hunsaved hholds)).bind
      fun _ t ht => hids t ⟨ht.1, fun _ => ht.2⟩

/-! ## Attaching -/

/-- A model made since takes a new collection, or has one. -/
theorem ends_children_of_fresh {x : Model} {n : String} (h : old.Disturbed name touched shed g)
    (hx : ¬ old.HasModel x) :
    Ends (x.children n) g (old.Disturbed name touched shed) fun c g' =>
      old.Disturbed name touched shed g' ∧ ¬ old.HasCollection c ∧
        (g'.model x).children.get? n = some c := by
  refine Ends.of_atomic Model.atomic_children h fun c g' hchildren => ?_
  rcases Model.returns_children hchildren with ⟨hc, rfl⟩ | ⟨-, rfl, -, membership, rfl⟩
  · exact ⟨h, h.lodged.fresh x n c hx hc, hc⟩
  · have hadded := h.addCollection
      ⟨(g.model x).session, membership, OrderedMap.empty, OrderedMap.empty⟩
    have hnew := h.spares.not_hasCollection_next
    exact ⟨hadded.setFresh hx (h.lodged.setNext hnew x n _), hnew, by simp⟩

/-- A model made since may be put wherever a collection made since is loaded. -/
theorem ends_putFetched {x far : Model} {n : String} {c : Collection}
    (h : old.Disturbed name touched shed g) (hnew : ¬ old.HasCollection c)
    (hc : (g.model x).children.get? n = some c) (hfar : old.HasModel x → ¬ old.HasModel far) :
    Ends (c.putFetched far) g (old.Disturbed name touched shed)
      fun _ g' => old.Disturbed name touched shed g' := by
  refine Ends.of_atomic Collection.atomic_putFetched h fun _ g' hput => ?_
  obtain ⟨membership, rfl⟩ := Collection.returns_putFetched hput
  refine h.setCollection hnew fun m hm hloaded hrefills => ?_
  obtain ⟨rfl, -⟩ := h.lodged.apart c hnew x n m name hc hloaded
  exact hrefills.putFetched (hfar hm) _ _

theorem ends_put_of_fresh {x far : Model} {n : String} {c : Collection}
    (h : old.Disturbed name touched shed g) (hnew : ¬ old.HasCollection c)
    (hc : (g.model x).children.get? n = some c) (hx : ¬ old.HasModel x) :
    Ends (c.put far) g (old.Disturbed name touched shed)
      fun _ g' => old.Disturbed name touched shed g' := by
  refine Ends.of_atomic Collection.atomic_put h fun _ g' hput => ?_
  obtain ⟨membership, rfl⟩ := Collection.returns_put hput
  refine h.setCollection hnew fun m hm hloaded _ => ?_
  obtain ⟨rfl, -⟩ := h.lodged.apart c hnew x n m name hc hloaded
  exact absurd hm hx

/-- A member that shed its collection has one that was made since. -/
theorem exists_children_of_shed (hname : plan.resolved.name = name)
    (h : old.Disturbed name touched shed g) (hm : m ∈ shed)
    (hresolve : old.registry.resolve (old.model m).modelType.name name = .ok plan.resolved)
    (hmany : plan.resolved.holdsSingle = false) :
    ∃ c, m.children plan.resolved.name g = (.ok c, g) ∧ ¬ old.HasCollection c ∧
      (g.model m).children.get? name = some c := by
  obtain ⟨c, hc, hnew, -⟩ := ((h.shed m hm).2.children hresolve hmany).collection
  refine ⟨c, ?_, hnew, hc⟩
  have hcached : m.cachedChildren? name g = (.ok (some c), g) := by
    rw [← hc]
    rfl
  rw [hname, Model.children, run_bind, hcached]
  rfl

theorem ends_attachParent {target : Model} (hname : plan.resolved.name = name)
    (hside : plan.resolved.side = .parent) (h : old.Disturbed name touched shed g)
    (hm : m ∈ shed) (htouched : m ∈ touched)
    (hresolve : old.registry.resolve (old.model m).modelType.name name = .ok plan.resolved)
    (htarget : ¬ old.HasModel target) :
    Ends (attachParent plan m target) g (old.Disturbed name touched shed)
      fun _ g' => old.Disturbed name touched shed g' := by
  have hholds := Resolved.holdsSingle_of_parent hside
  unfold attachParent
  extract_lets wayBack
  have hback : ∀ u t, old.Disturbed name touched shed t →
      Ends (wayBack u) t (old.Disturbed name touched shed)
        fun _ t' => old.Disturbed name touched shed t' := by
    intro u t ht
    refine Ends.bind_of_reads rfl ?_
    split
    · refine (ends_children_of_fresh ht htarget).bind fun siblings t' ⟨ht', hnew, hc⟩ =>
        Ends.bind_of_reads rfl ?_
      split
      · exact ends_put_of_fresh ht' hnew hc htarget
      · exact ends_putFetched ht' hnew hc fun hx => absurd hx htarget
    · exact Ends.pure ht
  split
  · rename_i hsingle
    rw [decide_eq_true hsingle] at hholds
    have hparent := (h.shed m hm).2.parent hresolve hholds
    refine Ends.bind (q := fun _ t => old.Disturbed name touched shed t)
      (Ends.of_run rfl ?_) hback
    rw [hname]
    refine (h.setParents (h.shed m hm).1 htouched hresolve hholds hparent.saved
      (fun other hother => ?_) fun p hp => ?_).forgetLast
    · rw [OrderedMap.get?_insert, if_neg (Ne.symm hother)]
    · rw [OrderedMap.get?_insert, if_pos rfl] at hp
      exact Option.some.inj hp ▸ htarget
  · rename_i hmany
    rw [decide_eq_false hmany] at hholds
    obtain ⟨c, hreads, hnew, hc⟩ := exists_children_of_shed hname h hm hresolve hholds
    exact Ends.bind_of_reads hreads <|
      (ends_putFetched h hnew hc fun _ => htarget).bind hback

theorem ends_attachChild {owner child : Model} (hname : plan.resolved.name = name)
    (hside : plan.resolved.side = .child) (h : old.Disturbed name touched shed g)
    (howner : owner ∈ shed)
    (hresolve : old.registry.resolve (old.model owner).modelType.name name = .ok plan.resolved)
    (hchild : ¬ old.HasModel child) :
    Ends (attachChild plan owner child) g (old.Disturbed name touched shed)
      fun _ g' => old.Disturbed name touched shed g' := by
  obtain ⟨c, hreads, hnew, hc⟩ := exists_children_of_shed hname h howner hresolve
    (Resolved.holdsSingle_of_child hside)
  refine Ends.bind_of_reads hreads <| (ends_putFetched h hnew hc fun _ => hchild).bind
    fun _ t ht => Ends.bind_of_reads rfl ?_
  split
  · split
    · exact Ends.of_run rfl (ht.setFresh hchild (ht.lodged.setParents _ _))
    · exact (ends_children_of_fresh ht hchild).bind fun owners t' ⟨ht', hnew', hc'⟩ =>
        ends_putFetched ht' hnew' hc' fun hx => absurd hx hchild
  · exact Ends.pure ht

/-! ## One group -/

/-- What a group begins with: its members are as they were in `old`, and the relationship
resolves on each of them. -/
structure Begins (old : Graph σ) (name : String) (plan : Plan) (touched members : List Model)
    (g : Graph σ) : Prop where
  disturbed : old.Disturbed name touched [] g
  name_eq : plan.resolved.name = name
  known : ∀ m ∈ members, old.HasModel m
  same : ∀ m ∈ members, g.model m = old.model m
  resolves : ∀ m ∈ members,
    old.registry.resolve (old.model m).modelType.name name = .ok plan.resolved

namespace Begins

variable {members : List Model}

/-- A member has the same unsaved models loaded as in `old`. -/
theorem mem_unsavedChildren_iff (h : Begins old name plan touched members g)
    (hold : old.WellFormed) (hm : m ∈ members) (x : Model) :
    x ∈ g.unsavedChildren m name ↔ x ∈ old.unsavedChildren m name := by
  unfold Graph.unsavedChildren
  rw [h.same m hm]
  cases hloaded : (old.model m).children.get? name with
  | none => rfl
  | some c =>
      have hc := hold.children m name c (h.known m hm) hloaded
      simp only [h.disturbed.spares.collection c hc, List.mem_filter]
      refine and_congr_right fun hx => ?_
      rw [h.disturbed.spares.model x (hold.member hc hx)]

theorem start (h : Begins old name plan touched members g) :
    old.Disturbed name (touched ++ members) [] g :=
  h.disturbed.append members

theorem of_subset (h : Begins old name plan touched members g) {kept : List Model}
    (hmembers : ∀ m ∈ kept, m ∈ members) : Begins old name plan touched kept g where
  disturbed := h.disturbed
  name_eq := h.name_eq
  known m hm := h.known m (hmembers m hm)
  same m hm := h.same m (hmembers m hm)
  resolves m hm := h.resolves m (hmembers m hm)

/-- A member that does not keep what it has loaded has no unsaved single parent. -/
theorem saved (h : Begins old name plan touched members g) (hold : old.WellFormed)
    (hm : m ∈ members) (hlost : plan.keeps g m = false) (hsingle : plan.resolved.holdsSingle = true)
    {p : Model} (hp : (old.model m).parents.get? name = some p) :
    (old.model p).record.isNew = false := by
  have hmade := hold.parents m name p (h.known m hm) hp
  rw [Plan.keeps, decide_eq_true (Resolved.single_of_holdsSingle hsingle).2, Bool.true_and,
    h.same m hm, h.name_eq, hp, Option.any_some, h.disturbed.spares.model p hmade] at hlost
  exact hlost

end Begins

/-- Whether a member keeps what it has loaded is only read. -/
theorem ends_not_holdsUnsavedParent : Ends (do return !(← holdsUnsavedParent plan m)) g
    (fun _ => False) fun _ t => t = g := by
  refine Ends.bind (q := fun _ t => t = g) ?_ fun _ _ ht => Ends.pure ht
  unfold holdsUnsavedParent
  split
  · refine Ends.bind_of_reads rfl ?_
    split
    · exact Ends.of_run rfl rfl
    · exact Ends.pure rfl
  · exact Ends.pure rfl

section Unloading

variable {members : List Model} (hold : old.WellFormed)
  (h : Begins old name plan touched members g)

include hold h

/-- Nothing but what the members had loaded is lost while they are unloaded. -/
theorem ends_unloadChildren (hside : plan.resolved.side = .child) :
    Ends (unloadChildren plan members) g (old.Disturbed name (touched ++ members) [])
      fun owners g' => old.Disturbed name (touched ++ members) members g' ∧
        ∀ id m, owners.get? id = some m → m ∈ members := by
  refine (Ends.foldlM (fun done (owners : OrderedMap String Model) t =>
    old.Disturbed name (touched ++ members) done t ∧
      (∀ m ∈ members, ∀ x, x ∈ t.unsavedChildren m name ↔ x ∈ old.unsavedChildren m name) ∧
        ∀ id m, owners.get? id = some m → m ∈ members)
    ⟨h.start, fun m hm => h.mem_unsavedChildren_iff hold hm, by simp⟩ ?_).weaken
      fun _ _ hlast => ⟨hlast.1, hlast.2.2⟩
  rintro done m rest owners t hsplit ⟨ht, hunsaved, howners⟩
  have hm : m ∈ members := by simp [hsplit]
  refine Ends.bind ((ends_resetChildren hold h.name_eq ht (h.known m hm)
    (List.mem_append_right _ hm) (h.resolves m hm) (Resolved.holdsSingle_of_child hside)
    (hunsaved m hm)).lose fun _ hlost => hlost.forget)
      fun _ u ⟨hu, hsame⟩ => ?_
  have hunsaved' : ∀ n ∈ members, ∀ x,
      x ∈ u.unsavedChildren n name ↔ x ∈ old.unsavedChildren n name :=
    fun n hn x => (hsame n x).trans (hunsaved n hn x)
  refine Ends.bind_of_reads rfl ?_
  split
  · refine Ends.pure ⟨hu, hunsaved', fun id n hn => ?_⟩
    rw [OrderedMap.get?_insert] at hn
    split at hn
    · exact Option.some.inj hn ▸ hm
    · exact howners id n hn
  · exact Ends.pure ⟨hu, hunsaved', howners⟩

theorem ends_unloadAllParents (hside : plan.resolved.side = .parent)
    (hsaved : plan.resolved.holdsSingle = true → ∀ m ∈ members, ∀ p,
      (old.model m).parents.get? name = some p → (old.model p).record.isNew = false) :
    Ends (members.mapM (unloadParents plan)) g (old.Disturbed name (touched ++ members) [])
      fun _ g' => old.Disturbed name (touched ++ members) members g' := by
  refine (Ends.mapM (fun done t => old.Disturbed name (touched ++ members) done t ∧
    (plan.resolved.holdsSingle = false → ∀ m ∈ members, ∀ x,
      x ∈ t.unsavedChildren m name ↔ x ∈ old.unsavedChildren m name))
    ⟨h.start, fun _ m hm => h.mem_unsavedChildren_iff hold hm⟩ ?_).weaken
      fun _ _ hlast => hlast.1
  rintro done m rest t hsplit ⟨ht, hunsaved⟩
  have hm : m ∈ members := by simp [hsplit]
  refine ((ends_unloadParents hold h.name_eq hside ht (h.known m hm)
    (List.mem_append_right _ hm) (h.resolves m hm) (fun hsingle => hsaved hsingle m hm)
    fun hmany => hunsaved hmany m hm).lose fun _ hlost => hlost.forget).weaken fun _ u hu => ?_
  exact ⟨hu.1, fun hmany n hn x => (hu.2 hmany n x).trans (hunsaved hmany n hn x)⟩

end Unloading

section Sides

variable [RecordStore σ] {members : List Model} (hold : old.WellFormed)
  (h : Begins old name plan touched members g)

include hold h

theorem ends_childSide (hside : plan.resolved.side = .child) :
    Ends (childSide plan members) g (old.Disturbed name (touched ++ members) [])
      fun _ g' => old.Disturbed name (touched ++ members) [] g' := by
  refine (ends_unloadChildren hold h hside).bind fun owners t ⟨ht, howners⟩ => ?_
  split
  · exact Ends.pure ht.forget
  · refine ((ends_run owners.keys).lose fun t' hbare => (ht.forges hbare).forget).bind
      fun children u ⟨hbare, hchildren⟩ => ?_
    refine Ends.of_keeps (fun _ hlost => hlost.forget) <|
      Ends.forM_of_keeps (ht.forges hbare) fun child hfound v hv => ?_
    have hchild : ¬ old.HasModel child := by
      obtain ⟨key, hkey⟩ := OrderedMap.mem_values_iff.mp hfound
      exact fun hmade => hchildren key child hkey (ht.spares.hasModel hmade)
    refine Ends.bind_of_reads rfl <| Ends.forM_of_keeps hv fun id _ w hw => ?_
    split
    · rename_i owner howner
      have hmember := howners id owner howner
      exact ends_attachChild h.name_eq hside hw hmember (h.resolves owner hmember) hchild
    · exact Ends.pure hw

theorem ends_parentSide (hside : plan.resolved.side = .parent) :
    Ends (parentSide plan members) g (old.Disturbed name (touched ++ members) [])
      fun _ g' => old.Disturbed name (touched ++ members) [] g' := by
  refine Ends.bind (q := fun kept t => t = g ∧ kept = members.filter fun m => !plan.keeps g m)
    (Ends.filterM_of_reads (fun _ _ => ends_not_holdsUnsavedParent) fun kept t hfilter =>
      hfilter.filterM_of_reads returns_not_holdsUnsavedParent) fun kept t ⟨hsame, hkept⟩ => ?_
  subst hsame
  have hmembers : ∀ m ∈ kept, m ∈ members := fun m hm =>
    (List.mem_filter.mp (hkept ▸ hm)).1
  have hbegins := h.of_subset hmembers
  have hsaved : plan.resolved.holdsSingle = true → ∀ m ∈ kept, ∀ p,
      (old.model m).parents.get? name = some p → (old.model p).record.isNew = false := by
    intro hsingle m hm p hp
    have hlost := (List.mem_filter.mp (hkept ▸ hm)).2
    rw [Bool.not_eq_true'] at hlost
    exact hbegins.saved hold hm hlost hsingle hp
  have htouched : ∀ m ∈ touched ++ kept, m ∈ touched ++ members := fun m hm =>
    List.mem_append.mpr ((List.mem_append.mp hm).imp_right (hmembers m))
  have hforget : ∀ u, old.Disturbed name (touched ++ kept) kept u →
      old.Disturbed name (touched ++ members) [] u := fun u hu => hu.mono htouched (by simp)
  refine ((ends_unloadAllParents hold hbegins hside hsaved).lose fun u hu =>
    hu.mono htouched fun _ hx => hx).bind fun idss u hu => ?_
  simp only
  split
  · exact Ends.pure (hforget u hu)
  · refine ((ends_run _).lose fun v hbare => hforget v (hu.forges hbare)).bind
      fun targets v ⟨hbare, htargets⟩ => ?_
    refine Ends.of_keeps hforget <|
      Ends.forM_of_keeps (hu.forges hbare) fun m hm w hw => ?_
    refine (Ends.of_atomic (q := fun _ => old.Disturbed name (touched ++ kept) kept)
      Model.atomic_parentIds hw fun ids w' hids => ?_).bind fun ids w' hw' => ?_
    · rw [Model.returns_parentIds] at hids
      exact hids.1 ▸ hw
    · refine Ends.forM_of_keeps hw' fun id _ y hy => ?_
      split
      · rename_i target htarget
        exact ends_attachParent h.name_eq hside hy hm (List.mem_append_right _ hm)
          (hbegins.resolves m hm) fun hmade =>
            htargets id target htarget (hu.spares.hasModel hmade)
      · exact Ends.pure hy

end Sides

end Fetching

/-! ## All groups -/

section Relationship

open Fetching

variable [RecordStore σ] {old : Graph σ} {name : String} {touched members : List Model}
  {s : Session} {callers : Option Query}

/-- A group that fails to begin has lost nothing. -/
theorem Fetching.ends_fetchGroup (hold : old.WellFormed) {t : ModelType}
    (h : old.Disturbed name touched [] g) (hknown : ∀ m ∈ members, old.HasModel m)
    (hsame : ∀ m ∈ members, g.model m = old.model m)
    (htype : ∀ m ∈ members, (old.model m).modelType.name = t.name) :
    Ends (fetchGroup s t name callers members) g (old.Disturbed name (touched ++ members) [])
      fun _ g' => old.Disturbed name (touched ++ members) [] g' := by
  have hstart := h.append members
  refine Ends.bind_ofExcept hstart fun relationship _ => Ends.bind_of_reads rfl <|
    Ends.bind_ofExcept hstart fun resolved hresolved => Ends.bind_ofExcept hstart fun q _ =>
      Ends.bind_ofExcept hstart fun condition _ => ?_
  rw [h.spares.registry] at hresolved
  have hbegins : ∀ query, Begins old name ⟨s, resolved, query, condition⟩ touched members g :=
    fun query => ⟨h, Registry.name_of_resolve hold.registry hresolved, hknown, hsame,
      fun m hm => by rw [htype m hm]; exact hresolved⟩
  cases hside : resolved.side with
  | parent => exact ends_parentSide hold (hbegins _) hside
  | child => exact ends_childSide hold (hbegins _) hside

/-- One turn of a fetch. A group that is left out was not disturbed. -/
theorem Fetching.ends_turn (s : Session) (callers : Option Query) (hold : old.WellFormed)
    (h : old.Disturbed name touched [] g) (count : Nat) {typeName : String}
    (hknown : ∀ m ∈ members, old.HasModel m) (hsame : ∀ m ∈ members, g.model m = old.model m)
    (htype : ∀ m ∈ members, (old.model m).modelType.name = typeName) :
    Ends (turn s name callers count (typeName, members)) g
      (old.Disturbed name (touched ++ members) [])
        fun _ g' => old.Disturbed name (touched ++ members) [] g' := by
  have hstart := h.append members
  refine Ends.bind_of_reads rfl <| Ends.bind_ofExcept hstart fun t ht => ?_
  rw [h.spares.registry] at ht
  have hname : t.name = typeName := (hold.registry typeName t (Registry.get_eq_ok.mp ht)).1
  split
  · exact Ends.pure hstart
  · exact (ends_fetchGroup hold h hknown hsame fun m hm => (htype m hm).trans hname.symm).bind
      fun _ _ hgroup => Ends.pure hgroup

/-- A fetch for any members: at every point where it may stop, only what the members had loaded
under the name is lost. -/
theorem ends_fetchRelationship (hold : old.WellFormed) (hknown : ∀ m ∈ members, old.HasModel m) :
    Ends (fetchRelationship s members name callers) old (old.Disturbed name members [])
      fun _ g' => old.Disturbed name members [] g' := by
  have hgrouped : Ends (groupByType members) old (old.Disturbed name members [])
      fun groups g' => g' = old ∧ ∀ typeName, groups.get? typeName =
        if members.filter (fun m => (old.model m).modelType.name = typeName) = [] then none
        else some (members.filter fun m => (old.model m).modelType.name = typeName) :=
    Ends.of_run rfl (returns_groupByType (returns_of_fst_eq_ok rfl))
  refine hgrouped.bind fun groups g' ⟨hsame, hgroups⟩ => ?_
  subst hsame
  -- The groups that had their turn hold members only, so what they lost the members lost.
  have hwithin : ∀ done rest, groups.entries = done ++ rest → ∀ u,
      g'.Disturbed name (done.flatMap Prod.snd) [] u → g'.Disturbed name members [] u := by
    intro done rest hsplit u hu
    refine hu.mono (fun m hm => (mem_flatMap_groups hgroups).mp ?_) fun _ hx => hx
    rw [hsplit, List.flatMap_append]
    exact List.mem_append_left _ hm
  have hall : Ends (groups.entries.mapM (turn s name callers groups.size)) g'
      (g'.Disturbed name members [])
      fun _ t => g'.Disturbed name (groups.entries.flatMap Prod.snd) [] t := by
    refine Ends.mapM (fun done t => g'.Disturbed name (done.flatMap Prod.snd) [] t)
      (Graph.Disturbed.refl hold name) ?_
    rintro done ⟨typeName, group⟩ rest t hsplit ht
    have hin : ∀ m ∈ group, m ∈ members ∧ (g'.model m).modelType.name = typeName := fun m hm => by
      rw [eq_filter_of_mem_groups hgroups
        (show (typeName, group) ∈ groups.entries by simp [hsplit])] at hm
      simpa using List.mem_filter.mp hm
    have hsame : ∀ m ∈ group, t.model m = g'.model m := fun m hm =>
      ht.spares.others m (hknown m (hin m hm).1) fun hdone =>
        not_mem_of_mem_earlier hgroups hsplit hdone hm
    have hturn := ends_turn s callers hold ht groups.size
      (fun m hm => hknown m (hin m hm).1) hsame fun m hm => (hin m hm).2
    have hdone : done.flatMap Prod.snd ++ group =
        (done ++ [(typeName, group)]).flatMap Prod.snd := by simp
    rw [hdone] at hturn
    exact hturn.lose (hwithin (done ++ [(typeName, group)]) rest (by simp [hsplit]))
  refine Ends.bind hall fun declared t ht => ?_
  have hlast := hwithin groups.entries [] (by simp) t ht
  split
  · exact Ends.pure hlast
  · split
    · exact Ends.throw hlast
    · exact Ends.pure hlast

end Relationship

end RecordGraph
