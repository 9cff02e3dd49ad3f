/-
# How many calls a fetch makes

A watched store notes every call that is made on it, of whatever kind, whether it answers or
fails. A fetch for members of one type asks for each distinct identifier once, in batches, and
each batch is one query and one load of what the query selects, if it selects anything. All the
rest of a fetch, the unloading before it, the wiring after it and the reading of its answer, stays
within the graph: `Relinks`, which it keeps, leaves the store alone.

Nothing is asked of the members but that they were made in the graph. They may be named twice and
may show one record.
-/
import Mathlib.Algebra.Order.Floor.Div
import RecordGraph.Proofs.Fetching.Groups
import RecordGraph.Proofs.Fetching.Transparency
import RecordGraph.Proofs.Reading.Answers
import RecordGraph.Store.Journal

namespace RecordGraph

variable {σ α : Type}

/-! ## Watched stores -/

/-- A call on a store. -/
inductive StoreCall where
  /-- A query; the identifiers that it answered, unless it failed. -/
  | execute (answer : Option (List String))
  /-- A load of several records. -/
  | loadMultiple (ids : List String)
  /-- A call of another kind. -/
  | other (kind : CallKind)
  deriving DecidableEq, Repr

/-- The calls for one query that answers: the query, and a load unless nothing is selected. -/
def StoreCall.round (ids : List String) : List StoreCall :=
  .execute (some ids) :: if ids.isEmpty then [] else [.loadMultiple ids]

/-- A store with all calls that were made on it. -/
structure Watched (σ : Type) where
  /-- The store. -/
  store : σ
  /-- The calls, oldest first. -/
  calls : List StoreCall

namespace Watched

/-- Makes a call and notes it. -/
def pass (note : Except Error α → StoreCall) (call : Call σ α) : Call (Watched σ) α := fun w =>
  match call w.store with
  | (answer, s) => (answer, ⟨s, w.calls ++ [note answer]⟩)

instance [RecordStore σ] : RecordStore (Watched σ) where
  create entityType bundle := pass (fun _ => .other .create) (RecordStore.create entityType bundle)
  load entityType id := pass (fun _ => .other .load) (RecordStore.load entityType id)
  loadMultiple entityType ids :=
    pass (fun _ => .loadMultiple ids) (RecordStore.loadMultiple entityType ids)
  execute q := pass (fun answer => .execute answer.toOption) (RecordStore.execute q)
  count q := pass (fun _ => .other .count) (RecordStore.count q)
  aggregate q a := pass (fun _ => .other .aggregate) (RecordStore.aggregate q a)
  save r := pass (fun _ => .other .save) (RecordStore.save r)
  delete r := pass (fun _ => .other .delete) (RecordStore.delete r)
  patience w := RecordStore.patience w.store

/-- What a store keeps it keeps while it is watched. -/
theorem keeps [RecordStore σ] {Kept : σ → Prop} (h : RecordStore.Keeps Kept) :
    RecordStore.Keeps fun w : Watched σ => Kept w.store where
  create entityType bundle w := h.create entityType bundle w.store
  load entityType id w := h.load entityType id w.store
  loadMultiple entityType ids w := h.loadMultiple entityType ids w.store
  execute q w := h.execute q w.store
  count q w := h.count q w.store
  aggregate q a w := h.aggregate q a w.store
  save r w := h.save r w.store
  delete r w := h.delete r w.store
  saved r w := h.saved r w.store

/-- A call is noted with what it answered. -/
theorem calls_of_pass {note : Except Error α → StoreCall} {call : Call σ α} {w w' : Watched σ}
    {answer : Except Error α} (h : pass note call w = (answer, w')) :
    w'.calls = w.calls ++ [note answer] := by
  obtain ⟨rfl, rfl⟩ := Prod.mk.inj h
  rfl

end Watched

/-- Running a query is one query of the store, and one load unless nothing is selected. -/
theorem Query.calls_of_fetch [RecordStore σ] {q : Query} {s : Session} {rs : List Record}
    {g g' : Graph (Watched σ)} (h : Returns (q.fetch s) g rs g') :
    ∃ ids, g'.store.calls = g.store.calls ++ StoreCall.round ids := by
  simp only [fetch, fetchIds, Session.execute, returns_bind, returns_ofExcept] at h
  obtain ⟨ids, queried, ⟨_, _, ⟨rfl, -⟩, _, _, hprepared, hexecute⟩, h⟩ := h
  obtain rfl := Session.returns_prepare hprepared
  obtain ⟨store, hquery, rfl⟩ := returns_call.mp hexecute
  refine ⟨ids, ?_⟩
  rw [StoreCall.round]
  split at h
  · rename_i hempty
    obtain ⟨rfl, -⟩ := returns_pure.mp h
    rw [if_pos hempty]
    exact Watched.calls_of_pass hquery
  · rename_i hsome
    obtain ⟨store', hload, rfl⟩ := returns_call.mp h
    rw [if_neg hsome, ← List.singleton_append, ← List.append_assoc]
    exact (Watched.calls_of_pass hload).trans
      (congrArg (· ++ _) (Watched.calls_of_pass hquery))

/-! ## The number of batches -/

/-- A list is cut into as many batches as its length asks for. -/
theorem length_batches (size : Nat) (xs : List α) :
    (batches size xs).length = xs.length ⌈/⌉ max 1 size := by
  induction xs using batches.induct size with
  | case1 => simp [batches]
  | case2 x rest ih =>
      have hrest : (x :: rest).length + max 1 size - 1 = rest.length + max 1 size := by
        rw [List.length_cons]
        omega
      rw [batches, List.length_cons, ih, List.length_drop, Nat.ceilDiv_eq_add_pred_div,
        Nat.ceilDiv_eq_add_pred_div, hrest, Nat.add_div_right _ (by omega)]
      -- a last batch that is not full is the only one left
      by_cases hfull : max 1 size ≤ rest.length + 1
      · congr 2
        omega
      · rw [Nat.div_eq_of_lt (by omega), Nat.div_eq_of_lt (by omega)]

/-! ## What is asked for -/

namespace Graph

/-- The identifiers that a fetch asks for on behalf of a member: on the side that holds the
foreign key those in the key, unless the member keeps a single parent that is not stored yet, and
on the other side its own, if it is stored. -/
def askedBy (g : Graph σ) (name : String) (m : Model) : List String :=
  match g.registry.resolve (g.model m).modelType.name name with
  | .error _ => []
  | .ok r =>
    match r.side with
    | .parent =>
      if r.cardinality = .single ∧
          ((g.model m).parents.get? name).any (fun p => (g.model p).record.isNew) = true then []
      else g.keyIds r.foreignKey m
    | .child => (g.model m).record.id.toList

/-- The distinct identifiers that a fetch for the members asks for. -/
def askedFor (g : Graph σ) (name : String) (members : List Model) : List String :=
  distinct (members.flatMap (g.askedBy name))

/-- From one graph to the other the store was asked for the identifiers in batches, and for
nothing else. -/
def AsksInBatches (g g' : Graph (Watched σ)) (s : Session) (ids : List String) : Prop :=
  ∃ answers : List (List String),
    answers.length =
      ids.length ⌈/⌉ max 1 ((g.session s).config.fetchBatchSize.getD ids.length) ∧
    g'.store.calls = g.store.calls ++ answers.flatMap StoreCall.round

namespace AsksInBatches

variable {g g' g'' : Graph (Watched σ)} {s : Session} {ids : List String}

/-- Where there is nothing to ask for, no call is made. -/
theorem of_store (h : g'.store = g.store) : g.AsksInBatches g' s [] :=
  ⟨[], by simp, by simp [h]⟩

theorem after (h : g'.AsksInBatches g'' s ids) (hbefore : g.Relinks g') :
    g.AsksInBatches g'' s ids := by
  unfold AsksInBatches session at h ⊢
  rwa [hbefore.store, hbefore.sessions] at h

theorem before (h : g.AsksInBatches g' s ids) (hafter : g'.Relinks g'') :
    g.AsksInBatches g'' s ids := by
  rwa [AsksInBatches, hafter.store]

end AsksInBatches

end Graph

/-! ## Actions that stay within the graph -/

/-- Whatever the action answers, it leaves the store and the records alone. -/
def Action.OnlyRelinks (a : Action σ α) : Prop :=
  ∀ g x g', Returns a g x g' → g.Relinks g'

namespace Action.OnlyRelinks

variable {β : Type} {a : Action σ α}

protected theorem pure (x : α) : OnlyRelinks (pure x : Action σ α) := fun g _ _ h =>
  (returns_pure.mp h).1 ▸ .refl g

protected theorem throw (e : Error) : OnlyRelinks (throw e : Action σ α) := fun _ _ _ h =>
  absurd h returns_throw

theorem ofExcept (r : Except Error α) : OnlyRelinks (Action.ofExcept r : Action σ α) :=
  fun g _ _ h => (returns_ofExcept.mp h).1 ▸ .refl g

theorem of_reads (h : ∀ g x g', Returns a g x g' → g' = g) : OnlyRelinks a :=
  fun g x g' hrun => h g x g' hrun ▸ .refl g

protected theorem bind {f : α → Action σ β} (ha : OnlyRelinks a) (hf : ∀ x, OnlyRelinks (f x)) :
    OnlyRelinks (a >>= f) := by
  intro g y g' h
  obtain ⟨x, between, hfirst, hsecond⟩ := returns_bind.mp h
  exact (ha g x between hfirst).trans (hf x between y g' hsecond)

theorem forM {f : α → Action σ PUnit} (hf : ∀ x, OnlyRelinks (f x)) (xs : List α) :
    OnlyRelinks (xs.forM f) := by
  induction xs with
  | nil => exact .pure _
  | cons x rest ih => exact (hf x).bind fun _ => ih

end Action.OnlyRelinks

open RecordGraph.Action (OnlyRelinks)

namespace Collection

variable (c : Collection) (m : Model)

theorem onlyRelinks_put : OnlyRelinks (σ := σ) (c.put m) := by
  intro g u g' h
  obtain ⟨membership, rfl⟩ := returns_put h
  exact .setCollection g c _

theorem onlyRelinks_putSnapshot : OnlyRelinks (σ := σ) (c.putSnapshot m) := by
  intro g u g' h
  obtain ⟨membership, rfl⟩ := returns_putSnapshot h
  exact .setCollection g c _

theorem onlyRelinks_putFetched : OnlyRelinks (σ := σ) (c.putFetched m) := by
  intro g u g' h
  obtain ⟨membership, rfl⟩ := returns_putFetched h
  exact .setCollection g c _

theorem onlyRelinks_forRelationship (s : Session) (r : Resolved) :
    OnlyRelinks (σ := σ) (forRelationship s r) := by
  intro g c g' h
  obtain ⟨-, membership, rfl⟩ := returns_forRelationship h
  exact .addCollection g _

end Collection

namespace Model

variable (m : Model) (name : String)

theorem onlyRelinks_setParent (p : Model) : OnlyRelinks (σ := σ) (m.setParent name p) := by
  intro g u g' h
  rw [returns_setParent] at h
  exact h ▸ .setModel g m _ _

theorem onlyRelinks_setChildren (c : Collection) :
    OnlyRelinks (σ := σ) (m.setChildren name c) := by
  intro g u g' h
  rw [returns_setChildren] at h
  exact h ▸ .setModel g m _ _

theorem onlyRelinks_removeParent : OnlyRelinks (σ := σ) (m.removeParent name) := by
  intro g u g' h
  rw [returns_removeParent] at h
  exact h ▸ .setModel g m _ _

theorem onlyRelinks_childrenOr (r : Resolved) : OnlyRelinks (σ := σ) (m.childrenOr name r) :=
  fun _ _ _ => relinks_of_childrenOr

theorem onlyRelinks_children : OnlyRelinks (σ := σ) (m.children name) :=
  fun _ _ _ => relinks_of_children

theorem onlyRelinks_isNew : OnlyRelinks (σ := σ) m.isNew :=
  .of_reads fun _ _ _ h => (returns_isNew.mp h).1

theorem onlyRelinks_modelType : OnlyRelinks (σ := σ) m.modelType :=
  .of_reads fun _ _ _ h => (returns_modelType.mp h).1

theorem onlyRelinks_read : OnlyRelinks (σ := σ) (m.read name) := by
  refine (OnlyRelinks.of_reads fun _ _ _ h => (returns_resolve.mp h).1).bind fun r => ?_
  split
  · refine (OnlyRelinks.of_reads fun _ _ _ h => (returns_cachedParent.mp h).1).bind fun p => ?_
    cases p with
    | none => exact .pure _
    | some p => exact .pure _
  · exact (m.onlyRelinks_childrenOr name r).bind fun c => .pure _

end Model

namespace Collection

variable (c : Collection)

theorem onlyRelinks_models : OnlyRelinks (σ := σ) c.models :=
  .of_reads fun _ _ _ h => (returns_models.mp h).1

theorem onlyRelinks_merge (r : Related) : OnlyRelinks (σ := σ) (c.merge r) := by
  cases r with
  | none => exact .pure _
  | model m => exact c.onlyRelinks_putFetched m
  | collection other =>
      refine other.onlyRelinks_models.bind fun members => ?_
      refine (OnlyRelinks.forM c.onlyRelinks_put members).bind fun _ => ?_
      refine (OnlyRelinks.of_reads fun g ms g' h => ?_).bind fun snapshot =>
        OnlyRelinks.forM c.onlyRelinks_putSnapshot snapshot
      simp only [snapshotModels, returns_bind, returns_data, returns_pure, and_assoc,
        exists_eq_left] at h
      exact h.1

theorem onlyRelinks_data : OnlyRelinks (σ := σ) c.data :=
  .of_reads fun _ _ _ h => (returns_data.mp h).1

theorem onlyRelinks_emptyFor (name : String) : OnlyRelinks (σ := σ) (c.emptyFor name) := by
  refine c.onlyRelinks_data.bind fun d => ?_
  refine (OnlyRelinks.of_reads fun _ _ _ h => (returns_get.mp h).1).bind fun g => ?_
  simp only
  split
  · exact (OnlyRelinks.ofExcept _).bind fun r => onlyRelinks_forRelationship _ r
  · intro t e t' h
    exact (returns_make.mp h).2 ▸ .addCollection t _

theorem onlyRelinks_read (name : String) : OnlyRelinks (σ := σ) (c.read name) := by
  refine c.onlyRelinks_data.bind fun d => (c.onlyRelinks_emptyFor name).bind fun result => ?_
  refine (OnlyRelinks.forM (fun m => ?_) _).bind fun _ => .pure result
  refine OnlyRelinks.bind ?_ fun declares => ?_
  · exact m.onlyRelinks_modelType.bind fun t => .pure _
  · split
    · exact .pure _
    · exact (m.onlyRelinks_read name).bind fun r => result.onlyRelinks_merge r

end Collection

theorem Related.onlyRelinks_read (r : Related) (name : String) :
    OnlyRelinks (σ := σ) (r.read name) := by
  cases r with
  | none => exact .pure _
  | model m => exact m.onlyRelinks_read name
  | collection c => exact (c.onlyRelinks_read name).bind fun _ => .pure _

namespace Fetching

variable (plan : Plan) (m : Model)

theorem onlyRelinks_resetChildren : OnlyRelinks (σ := σ) (resetChildren plan m) := by
  refine (Collection.onlyRelinks_forRelationship _ _).bind fun fresh => ?_
  refine (OnlyRelinks.of_reads fun _ _ _ h => (Model.returns_cachedChildren.mp h).1).bind
    fun previous => ?_
  extract_lets load
  have hload : ∀ u, OnlyRelinks (load u) := fun _ => m.onlyRelinks_setChildren _ fresh
  cases previous with
  | none => exact hload ()
  | some c =>
      refine c.onlyRelinks_models.bind fun pending => (OnlyRelinks.forM (fun x => ?_) _).bind hload
      refine x.onlyRelinks_isNew.bind fun new => ?_
      split
      · exact fresh.onlyRelinks_put x
      · exact .pure _

theorem onlyRelinks_attachParent (target : Model) :
    OnlyRelinks (σ := σ) (attachParent plan m target) := by
  unfold attachParent
  extract_lets wayBack
  have hback : ∀ u, OnlyRelinks (wayBack u) := by
    intro u
    refine target.onlyRelinks_modelType.bind fun t => ?_
    split
    · rename_i inverse _
      refine (target.onlyRelinks_children inverse).bind fun siblings => ?_
      refine m.onlyRelinks_isNew.bind fun new => ?_
      split
      · exact siblings.onlyRelinks_put m
      · exact siblings.onlyRelinks_putFetched m
    · exact .pure _
  split
  · exact (m.onlyRelinks_setParent _ target).bind hback
  · refine (m.onlyRelinks_children _).bind fun c => ?_
    exact (c.onlyRelinks_putFetched target).bind hback

theorem onlyRelinks_attachChild (child : Model) :
    OnlyRelinks (σ := σ) (attachChild plan m child) := by
  refine (m.onlyRelinks_children _).bind fun c => (c.onlyRelinks_putFetched child).bind fun _ => ?_
  refine child.onlyRelinks_modelType.bind fun t => ?_
  split
  · rename_i inverse _
    split
    · exact child.onlyRelinks_setParent inverse m
    · exact (child.onlyRelinks_children inverse).bind fun c => c.onlyRelinks_putFetched m
  · exact .pure _

/-- Unloading parents answers, member by member, the identifiers in the foreign key. -/
theorem relinks_of_unloadParents {plan : Plan} {g g' : Graph σ} {members : List Model}
    {idss : List (List String)} (hkey : ∀ m ∈ members, plan.OwnKey g m)
    (h : Returns (members.mapM (unloadParents plan)) g idss g') :
    g.Relinks g' ∧ idss = members.map (g.keyIds plan.resolved.foreignKey) := by
  refine h.mapM_invariant (fun done idss t =>
    g.Relinks t ∧ idss = done.map (g.keyIds plan.resolved.foreignKey)) ⟨.refl g, rfl⟩ ?_
  rintro done m rest idss t ids t' rfl ⟨hdone, rfl⟩ hturn
  have hnext : ∃ between, t.Relinks between ∧
      Returns (m.parentIds plan.resolved.name) between ids t' := by
    unfold unloadParents at hturn
    split at hturn
    · obtain ⟨_, between, hremove, hids⟩ := returns_bind.mp hturn
      exact ⟨between, m.onlyRelinks_removeParent _ _ _ _ hremove, hids⟩
    · obtain ⟨_, between, hreset, hids⟩ := returns_bind.mp hturn
      exact ⟨between, onlyRelinks_resetChildren plan m _ _ _ hreset, hids⟩
  obtain ⟨between, hunloaded, hids⟩ := hnext
  obtain ⟨rfl, rfl⟩ :=
    returns_parentIds_of_ownKey (hdone.trans hunloaded) (hkey m (by simp)) hids
  exact ⟨hdone.trans hunloaded, by simp⟩

/-- Unloading children answers members for the distinct identifiers of those that are stored. -/
theorem relinks_of_unloadChildren {plan : Plan} {g g' : Graph σ} {members : List Model}
    {owners : OrderedMap String Model} (h : Returns (unloadChildren plan members) g owners g') :
    g.Relinks g' ∧ owners.keys = distinct (members.filterMap fun m => (g.model m).record.id) := by
  refine h.foldlM_invariant (fun done owners t => g.Relinks t ∧
    owners.keys = distinct (done.filterMap fun m => (g.model m).record.id)) ⟨.refl g, rfl⟩ ?_
  rintro done m rest owners t owners' t' - ⟨hdone, howners⟩ hturn
  simp only [returns_bind] at hturn
  obtain ⟨_, between, hreset, id, _, hid, hanswer⟩ := hturn
  have hrelinks := hdone.trans (onlyRelinks_resetChildren plan m _ _ _ hreset)
  rw [Model.returns_id, hrelinks.record] at hid
  obtain ⟨rfl, rfl⟩ := hid
  rw [List.filterMap_append]
  cases hid : (g.model m).record.id with
  | none =>
      simp only [hid, returns_pure] at hanswer
      obtain ⟨rfl, rfl⟩ := hanswer
      exact ⟨hrelinks, by simp [hid, howners]⟩
  | some own =>
      simp only [hid, returns_pure] at hanswer
      obtain ⟨rfl, rfl⟩ := hanswer
      have hlast : [m].filterMap (fun m => (g.model m).record.id) = [own] := by
        simp [hid]
      exact ⟨hrelinks, by rw [hlast, distinct_concat, OrderedMap.keys_insert, howners]⟩

/-! ## Fetching one group -/

variable {plan : Plan} {g g' : Graph (Watched σ)} {members : List Model}

section Batches

variable [RecordStore σ]

/-- A batch is one query, and one load unless nothing is selected. -/
theorem calls_of_runBatch {found found' : OrderedMap String Model} {ids : List String}
    (h : Returns (runBatch plan found ids) g found' g') :
    ∃ answer, g'.store.calls = g.store.calls ++ StoreCall.round answer := by
  simp only [runBatch, ModelQuery.fetchModels, returns_bind, returns_get, returns_pure,
    and_assoc, exists_eq_left] at h
  obtain ⟨_, _, ⟨rs, queried, hfetch, hwrap⟩, rfl, -⟩ := h
  rw [(ModelQuery.returns_wrapAll hwrap).2.1]
  exact Query.calls_of_fetch hfetch

/-- All batches are as many queries as the identifiers ask for. -/
theorem asks_of_run {found : OrderedMap String Model} {ids : List String}
    (h : Returns (run plan ids) g found g') : g.AsksInBatches g' plan.session ids := by
  simp only [run, returns_bind, Session.returns_config, and_assoc, exists_eq_left] at h
  rw [Graph.AsksInBatches, ← length_batches]
  refine h.foldlM_invariant (fun done _ t => ∃ answers : List (List String),
      answers.length = done.length ∧
        t.store.calls = g.store.calls ++ answers.flatMap StoreCall.round) ⟨[], rfl, by simp⟩ ?_
  rintro done batch rest found t found' t' - ⟨answers, hlength, hcalls⟩ hbatch
  obtain ⟨answer, hanswer⟩ := calls_of_runBatch hbatch
  refine ⟨answers ++ [answer], by simp [hlength], ?_⟩
  rw [hanswer, hcalls, List.flatMap_append, List.flatMap_singleton, List.append_assoc]

/-- Asking for the targets of the members' foreign keys. -/
theorem asks_of_parentSide (hkey : ∀ m ∈ members, plan.OwnKey g m)
    (h : Returns (parentSide plan members) g () g') :
    g.AsksInBatches g' plan.session (distinct
      ((members.filter fun m => !plan.keeps g m).flatMap
        (g.keyIds plan.resolved.foreignKey))) := by
  unfold parentSide at h
  obtain ⟨loading, afterFilter, hfilter, h⟩ := returns_bind.mp h
  obtain ⟨rfl, rfl⟩ := hfilter.filterM_of_reads returns_not_holdsUnsavedParent
  obtain ⟨idss, unloaded, hunloading, h⟩ := returns_bind.mp h
  obtain ⟨hunload, rfl⟩ := relinks_of_unloadParents
    (fun m hm => hkey m (List.mem_filter.mp hm).1) hunloading
  rw [← List.flatMap_def] at h
  simp only at h
  split at h
  · rename_i hempty
    obtain ⟨rfl, -⟩ := returns_pure.mp h
    rw [List.isEmpty_iff.mp hempty]
    exact .of_store hunload.store
  · obtain ⟨found, ran, hrun, hwire⟩ := returns_bind.mp h
    have hwired : ran.Relinks g' := by
      refine OnlyRelinks.forM (fun m => ?_) _ _ _ _ hwire
      refine (OnlyRelinks.of_reads fun _ _ _ h => (Model.returns_parentIds.mp h).1).bind
        fun ids => OnlyRelinks.forM (fun id => ?_) ids
      split
      · exact onlyRelinks_attachParent plan m _
      · exact .pure _
    exact ((asks_of_run hrun).after hunload).before hwired

/-- Asking for the far records that refer to the members. -/
theorem asks_of_childSide (h : Returns (childSide plan members) g () g') :
    g.AsksInBatches g' plan.session
      (distinct (members.filterMap fun m => (g.model m).record.id)) := by
  unfold childSide at h
  obtain ⟨owners, unloaded, hunloading, h⟩ := returns_bind.mp h
  obtain ⟨hunload, howners⟩ := relinks_of_unloadChildren hunloading
  rw [← howners]
  split at h
  · rename_i hempty
    obtain ⟨rfl, -⟩ := returns_pure.mp h
    rw [OrderedMap.keys, List.isEmpty_iff.mp hempty]
    exact .of_store hunload.store
  · obtain ⟨found, ran, hrun, hwire⟩ := returns_bind.mp h
    have hwired : ran.Relinks g' := by
      refine OnlyRelinks.forM (fun child => ?_) _ _ _ _ hwire
      refine (OnlyRelinks.of_reads fun _ _ _ h => (Model.returns_record.mp h).1).bind
        fun record => OnlyRelinks.forM (fun id => ?_) _
      split
      · exact onlyRelinks_attachChild plan _ child
      · exact .pure _
    exact ((asks_of_run hrun).after hunload).before hwired

/-- Fetching for members of the type. -/
theorem asks_of_fetchGroup {s : Session} {t : ModelType} {name : String} {callers : Option Query}
    (hwf : g.registry.WellFormed) (ht : g.registry.get t.name = .ok t)
    (hmembers : ∀ m ∈ members, (g.model m).modelType = t)
    (h : Returns (fetchGroup s t name callers members) g () g') :
    g.AsksInBatches g' s (g.askedFor name members) := by
  obtain ⟨plan, hplan, hparent, hchild⟩ := returns_fetchGroup h
  have hname := hplan.name_eq hwf
  rw [← hplan.session]
  cases hside : plan.resolved.side with
  | parent =>
      have hasked : members.flatMap (g.askedBy name) = (members.filter fun m =>
          !plan.keeps g m).flatMap (g.keyIds plan.resolved.foreignKey) := by
        rw [flatMap_filter]
        refine List.flatMap_congr fun m hm => ?_
        have hkept : plan.keeps g m = true ↔ plan.resolved.cardinality = .single ∧
            ((g.model m).parents.get? name).any (fun p => (g.model p).record.isNew) = true := by
          rw [Plan.keeps, hname, Bool.and_eq_true, decide_eq_true_eq]
        simp only [Graph.askedBy, hmembers m hm, hplan.resolved, hside, ← hkept]
        cases plan.keeps g m with
        | true => rfl
        | false => rfl
      rw [Graph.askedFor, hasked]
      exact asks_of_parentSide (fun m hm => hplan.ownKey hwf hside ht (hmembers m hm))
        (hparent hside)
  | child =>
      have hasked : members.flatMap (g.askedBy name) =
          members.filterMap fun m => (g.model m).record.id := by
        rw [List.filterMap_eq_flatMap_toList]
        refine List.flatMap_congr fun m hm => ?_
        simp only [Graph.askedBy, hmembers m hm, hplan.resolved, hside]
      rw [Graph.askedFor, hasked]
      exact asks_of_childSide (hchild hside)

end Batches

end Fetching

/-! ## Fetching -/

section Fetch

variable [RecordStore σ] {g g' : Graph (Watched σ)} {name : String} {callers : Option Query}

/-- A fetch for members of one type. -/
theorem asks_of_fetchRelationship (hg : g.WellFormed) {s : Session} {members : List Model}
    (hmembers : ∀ m ∈ members, g.HasModel m) {typeName : String}
    (htype : ∀ m ∈ members, (g.model m).modelType.name = typeName)
    (h : Returns (fetchRelationship s members name callers) g () g') :
    g.AsksInBatches g' s (g.askedFor name members) := by
  by_cases hsome : members = []
  · subst hsome
    obtain ⟨groups, declared, hgroups, hturns⟩ := returns_fetchRelationship h
    have hnone : groups.entries = [] := by
      refine List.eq_nil_iff_forall_not_mem.mpr fun ⟨other, group⟩ hmem => ?_
      have hget := OrderedMap.get?_eq_some_iff.mpr hmem
      rw [hgroups other] at hget
      simp at hget
    rw [hnone, List.mapM_nil] at hturns
    obtain ⟨rfl, -⟩ := returns_pure.mp hturns
    exact .of_store rfl
  · obtain ⟨t, ht, hgroup⟩ := returns_fetchRelationship_of_one_type hsome htype h
    have htyped : ∀ m ∈ members, (g.model m).modelType = t := by
      intro m hm
      have hown := hg.typed m (hmembers m hm)
      rw [htype m hm, ht] at hown
      exact (Except.ok.inj hown).symm
    refine Fetching.asks_of_fetchGroup hg.registry ?_ htyped hgroup
    obtain ⟨m, hm⟩ := List.exists_mem_of_ne_nil members hsome
    rw [← htyped m hm]
    exact hg.typed m (hmembers m hm)

/-- A fetch that succeeds for a model, or for the members of a collection, of one type asks for `k`
distinct identifiers in `k / n` queries, rounded up, where `n` is the batch size of the session,
and `k` where it has none. Each query is followed by a load if it selects anything. No other call
is made on the store, whatever store it is. -/
theorem fetchStep_counts (hg : g.WellFormed) {r answer : Related} (hr : g.HasRelated r)
    {typeName : String} (htype : ∀ m ∈ (g.content r).models, (g.model m).modelType.name = typeName)
    (h : Returns (r.fetchStep name callers) g answer g') {k : Nat}
    (hk : k = (g.askedFor name (g.content r).models).length) :
    ∃ answers : List (List String),
      answers.length = k ⌈/⌉ max 1 ((g.session (g.sessionOf r)).config.fetchBatchSize.getD k) ∧
      g'.store.calls = g.store.calls ++ answers.flatMap fun ids =>
        .execute (some ids) :: if ids.isEmpty then [] else [.loadMultiple ids] := by
  subst hk
  change g.AsksInBatches g' (g.sessionOf r) (g.askedFor name (g.content r).models)
  have hmembers := (hg.within_content hr).models
  have hsame : (g.content r).models = g.membersOf r := by
    cases r <;> rfl
  rw [hsame] at htype hmembers ⊢
  obtain ⟨fetched, hload, hread⟩ := Related.returns_fetchStep.mp h
  exact (asks_of_fetchRelationship hg hmembers htype hload).before
    (r.onlyRelinks_read name _ _ _ hread)

end Fetch

namespace Library

/-- Three authors in a collection, of whom the first one has written an article, in a watched store
and a session that asks for two identifiers at a time. -/
def surveyed : Graph (Watched MemoryStore) :=
  let authors := ["ann", "bob", "eve"].map fun id => (Record.new "node" "author").withId id
  let s := filled (authors ++ [written "cells" "ann"])
  let g := Graph.new ⟨s, []⟩ (registry [author, article])
  let g := (Session.start ⟨"PLH", .and, some 2, false⟩ g).2
  (Collection.forgeByIds session "author" ["ann", "bob", "eve"] g).2

/-- The store behind the watch is in order. -/
def FiledUnderWatch (w : Watched MemoryStore) : Prop := w.store.Filed

theorem reachable_surveyed : Graph.Reachable FiledUnderWatch surveyed := by
  have htypes : ∀ t ∈ [author, article], t.WellFormed := by
    simp [wellFormed_author, wellFormed_article]
  exact .call (.call (.new (filed_filled _) (wellFormed_registry htypes)) (.start _))
    (.forgeByIds _ _ _)

/-- The graph after the articles of the three were fetched. -/
def tallied : Graph (Watched MemoryStore) :=
  ((Related.collection ⟨0⟩).fetchStep "articles" none surveyed).2

/-- For three authors, two at a time, the store is asked twice. -/
theorem tallied_counts : surveyed.WellFormed ∧ surveyed.HasRelated (.collection ⟨0⟩) ∧
    (∀ m ∈ (surveyed.content (.collection ⟨0⟩)).models,
      (surveyed.model m).modelType.name = "author") ∧
    ∃ (answer : Related) (answers : List (List String)),
      Returns ((Related.collection ⟨0⟩).fetchStep "articles" none) surveyed answer tallied ∧
      answers.length = 2 ∧ tallied.store.calls = surveyed.store.calls ++
        answers.flatMap fun ids =>
          .execute (some ids) :: if ids.isEmpty then [] else [.loadMultiple ids] := by
  have hwf : surveyed.WellFormed :=
    (reachable_surveyed.sound (Watched.keeps MemoryStore.keeps_filed)).wellFormed
  have hthere : surveyed.HasRelated (.collection ⟨0⟩) :=
    show surveyed.HasCollection ⟨0⟩ from by decide +kernel
  have htype : ∀ m ∈ (surveyed.content (.collection ⟨0⟩)).models,
      (surveyed.model m).modelType.name = "author" := by decide +kernel
  have hrun : Returns ((Related.collection ⟨0⟩).fetchStep "articles" none) surveyed _ tallied :=
    returns_of_isOk (by decide +kernel) .none
  obtain ⟨answers, hlength, hcalls⟩ :=
    fetchStep_counts hwf hthere htype hrun (k := 3) (by decide +kernel)
  have htwo : 3 ⌈/⌉ max 1 ((surveyed.session
      (surveyed.sessionOf (.collection ⟨0⟩))).config.fetchBatchSize.getD 3) = 2 := by
    decide +kernel
  exact ⟨hwf, hthere, htype, _, answers, hrun, hlength.trans htwo, hcalls⟩

/-- The second query selects nothing, so nothing is loaded for it. -/
example : tallied.store.calls = [.loadMultiple ["ann", "bob", "eve"],
    .execute (some ["cells"]), .loadMultiple ["cells"], .execute (some [])] := by
  decide +kernel

end Library

end RecordGraph
