/-
# What saving a collection asks of the store

A store that may fail at any call is watched: every call is noted, whether it answers or fails.
Saving a collection then shows as saves of the members in their order, up to the first one that
fails, and after them, only if none failed, as deletions with the queries that they make. A run
that fails anywhere leaves the collection as it was, so that whatever was to be deleted is still
to be deleted the next time.
-/
import RecordGraph.Proofs.Deleting.Descendants
import RecordGraph.Proofs.Saving.Children
import RecordGraph.Store.Journal

namespace RecordGraph

variable {σ α β : Type}

/-! ## Watched stores -/

/-- A call that was tried. -/
inductive Attempt where
  /-- A record was to be saved; what it was stored as, unless the call failed. -/
  | save (r : Record) (stored : Option Record)
  /-- A record was to be deleted. -/
  | delete (r : Record)
  /-- Something was to be read. -/
  | read

/-- A store with all calls that were tried on it. -/
structure Traced (σ : Type) where
  /-- The store. -/
  store : σ
  /-- The calls, oldest first. -/
  attempts : List Attempt

namespace Traced

/-- Makes a call and notes it. -/
def pass (note : Except Error α → Attempt) (call : Call σ α) : Call (Traced σ) α := fun t =>
  match call t.store with
  | (answer, s) => (answer, ⟨s, t.attempts ++ [note answer]⟩)

variable [RecordStore σ]

instance : RecordStore (Traced σ) where
  create entityType bundle := pass (fun _ => .read) (RecordStore.create entityType bundle)
  load entityType id := pass (fun _ => .read) (RecordStore.load entityType id)
  loadMultiple entityType ids := pass (fun _ => .read) (RecordStore.loadMultiple entityType ids)
  execute q := pass (fun _ => .read) (RecordStore.execute q)
  count q := pass (fun _ => .read) (RecordStore.count q)
  aggregate q a := pass (fun _ => .read) (RecordStore.aggregate q a)
  save r := pass (fun answer => .save r answer.toOption) (RecordStore.save r)
  delete r := pass (fun _ => .delete r) (RecordStore.delete r)
  patience t := RecordStore.patience t.store

/-- What a store keeps it keeps while it is watched. -/
theorem keeps {Kept : σ → Prop} (h : RecordStore.Keeps Kept) :
    RecordStore.Keeps fun t : Traced σ => Kept t.store where
  create entityType bundle t := h.create entityType bundle t.store
  load entityType id t := h.load entityType id t.store
  loadMultiple entityType ids t := h.loadMultiple entityType ids t.store
  execute q t := h.execute q t.store
  count q t := h.count q t.store
  aggregate q a t := h.aggregate q a t.store
  save r t := h.save r t.store
  delete r t := h.delete r t.store
  saved r t := h.saved r t.store

/-- Nothing was to be saved from one state to the other. -/
def SavesNothing (t t' : Traced σ) : Prop :=
  ∃ later, t'.attempts = t.attempts ++ later ∧ ∀ r stored, Attempt.save r stored ∉ later

omit [RecordStore σ] in
theorem SavesNothing.of_one {t t' : Traced σ} {a : Attempt}
    (h : t'.attempts = t.attempts ++ [a]) (ha : ∀ r stored, a ≠ .save r stored) :
    t.SavesNothing t' :=
  ⟨[a], h, fun r stored hmem => ha r stored (List.mem_singleton.mp hmem).symm⟩

theorem covers_savesNothing : RecordStore.Covers (@SavesNothing σ) where
  refl t := ⟨[], by simp, by simp⟩
  trans := by
    rintro t u v ⟨first, hfirst, hnone⟩ ⟨second, hsecond, hnone'⟩
    refine ⟨first ++ second, by rw [hsecond, hfirst, List.append_assoc], fun r stored hmem => ?_⟩
    rcases List.mem_append.mp hmem with hmem | hmem
    · exact hnone r stored hmem
    · exact hnone' r stored hmem
  execute q t := .of_one (a := .read) rfl (by simp)
  loadMultiple entityType ids t := .of_one (a := .read) rfl (by simp)

theorem savesNothing_delete (r : Record) (t : Traced σ) :
    t.SavesNothing (RecordStore.delete r t).2 :=
  .of_one (a := .delete r) rfl (by simp)

end Traced

/-- The models were saved in order, each with what its record was by then, its fields aside:
all of them, or up to the first one that failed, before its record was to be saved or by the
call for it. -/
inductive SavesInOrder : (held : Model → Record) → List Model → List Attempt →
    (complete : Bool) → Prop where
  | done {held : Model → Record} : SavesInOrder held [] [] true
  | stopped {held : Model → Record} {m : Model} {rest : List Model} :
      SavesInOrder held (m :: rest) [] false
  | failed {held : Model → Record} {m : Model} {rest : List Model}
      (fields : List (String × Value)) :
      SavesInOrder held (m :: rest) [.save { held m with fields := fields } none] false
  | saved {held : Model → Record} {m : Model} {rest : List Model} {attempts : List Attempt}
      {complete : Bool} (fields : List (String × Value)) (stored : Record)
      (h : SavesInOrder (fun n => if m = n then stored else held n) rest attempts complete) :
      SavesInOrder held (m :: rest)
        (.save { held m with fields := fields } (some stored) :: attempts) complete

/-- Nothing but saves is tried. -/
theorem SavesInOrder.exists_save {held : Model → Record} {ms : List Model}
    {attempts : List Attempt} {complete : Bool} (h : SavesInOrder held ms attempts complete) :
    ∀ a ∈ attempts, ∃ r stored, a = .save r stored := by
  induction h with
  | done => simp
  | stopped => simp
  | failed fields => simp
  | saved fields stored _ ih => simpa using ih

/-- A foreign key is written into the fields. -/
theorem Record.setReferenceIds_eq (r : Record) (field column : String) (ids : List String)
    (c : Cardinality) : r.setReferenceIds field column ids c =
      { r with fields := (r.setReferenceIds field column ids c).fields } := by
  unfold setReferenceIds
  split <;> rfl

/-! ## Bringing foreign keys in line, whether it answers or fails -/

/-- Every run of the action, whether it answers or fails, writes to no more than the fields of
the record of the model. -/
def Model.Syncs (m : Model) (x : Action σ α) : Prop :=
  ∀ g : Graph σ, g.HasModel m →
    ∃ fields, (x g).2 = g.setRecord m { (g.model m).record with fields := fields }

namespace Model

namespace Syncs

variable {m : Model}

theorem of_reads {x : Action σ α} (h : ∀ g : Graph σ, (x g).2 = g) : m.Syncs x :=
  fun g hm => ⟨_, by rw [h g]; exact (Graph.setRecord_self hm).symm⟩

protected theorem bind {x : Action σ α} {f : α → Action σ β} (hx : m.Syncs x)
    (hf : ∀ a, m.Syncs (f a)) : m.Syncs (x >>= f) := by
  intro g hm
  obtain ⟨fields, hfirst⟩ := hx g hm
  rw [run_bind]
  cases hrun : x g with
  | mk answer between =>
      rw [hrun] at hfirst
      obtain rfl : between = _ := hfirst
      cases answer with
      | error e => exact ⟨fields, rfl⟩
      | ok a =>
          obtain ⟨fields', hsecond⟩ := hf a _ (hm.setRecord m _)
          refine ⟨fields', hsecond.trans ?_⟩
          rw [Graph.setRecord_setRecord]
          simp

theorem forM {f : α → Action σ PUnit} (hf : ∀ a, m.Syncs (f a)) (l : List α) :
    m.Syncs (l.forM f) := by
  induction l with
  | nil => exact of_reads fun _ => rfl
  | cons a rest ih => exact (hf a).bind fun _ => ih

theorem mapM {f : α → Action σ β} (hf : ∀ a, m.Syncs (f a)) (l : List α) :
    m.Syncs (l.mapM f) := by
  induction l with
  | nil => exact of_reads fun _ => rfl
  | cons a rest ih =>
      rw [List.mapM_cons]
      exact (hf a).bind fun _ => ih.bind fun _ => of_reads fun _ => rfl

end Syncs

variable (m : Model)

theorem syncs_setReferenceIds (k : ForeignKey) (ids : List String) (c : Cardinality) :
    m.Syncs (m.setReferenceIds k ids c : Action σ Unit) := by
  intro g _
  refine ⟨((g.model m).record.setReferenceIds k.field k.column ids c).fields, ?_⟩
  rw [← Record.setReferenceIds_eq]
  rfl

theorem syncs_storedId (far : Model) (relationship : String) :
    m.Syncs (far.storedId relationship : Action σ String) := by
  refine Syncs.bind (.of_reads fun _ => rfl) fun id => ?_
  cases id with
  | some id => exact .of_reads fun _ => rfl
  | none => exact Syncs.bind (.of_reads fun _ => rfl) fun _ => .of_reads fun _ => rfl

theorem syncs_ids (ms : List Model) :
    m.Syncs (ms.mapM Model.id? : Action σ (List (Option String))) :=
  Syncs.mapM (fun _ => .of_reads fun _ => rfl) ms

theorem syncs_parentIds (name : String) : m.Syncs (m.parentIds name : Action σ (List String)) :=
  Syncs.bind (.of_reads fun _ => rfl) fun _ => Syncs.bind (.of_reads fun _ => rfl) fun _ =>
    Syncs.bind (.of_reads fun _ => rfl) fun _ => .of_reads fun _ => rfl

theorem syncs_syncParent (r : Resolved) (name : String) :
    m.Syncs (m.syncParent r name : Action σ Unit) := by
  refine Syncs.bind (.of_reads fun _ => rfl) fun parent => ?_
  cases parent with
  | none => exact .of_reads fun _ => rfl
  | some parent => exact (syncs_storedId m parent name).bind fun _ => syncs_setReferenceIds m _ _ _

theorem syncs_syncParents (r : Resolved) (name : String) :
    m.Syncs (m.syncParents r name : Action σ Unit) := by
  refine Syncs.bind (.of_reads fun _ => rfl) fun children => ?_
  cases children with
  | none => exact .of_reads fun _ => rfl
  | some c =>
      refine Syncs.bind (.of_reads fun _ => rfl) fun ms => ?_
      refine (Syncs.forM (fun far => ?_) ms).bind fun _ => ?_
      · exact (syncs_storedId m far name).bind fun _ => .of_reads fun _ => rfl
      refine Syncs.bind (.of_reads fun _ => rfl) fun d => ?_
      refine (syncs_ids m _).bind fun gone => ?_
      refine (syncs_parentIds m name).bind fun kept => ?_
      refine Syncs.bind (Syncs.bind (.of_reads fun _ => rfl) fun ms => ?_) fun ids => ?_
      · exact (syncs_ids m ms).bind fun _ => .of_reads fun _ => rfl
      · exact syncs_setReferenceIds m _ _ _

theorem syncs_syncForeignKey (name : String) :
    m.Syncs (m.syncForeignKey name : Action σ Unit) := by
  refine Syncs.bind (.of_reads fun _ => rfl) fun r => ?_
  split
  · exact syncs_syncParent m r name
  · exact syncs_syncParents m r name

/-- Bringing all foreign keys in line, also if it fails, touches fields of the record only. -/
theorem syncs_syncForeignKeys : m.Syncs (m.syncForeignKeys : Action σ Unit) := by
  refine Syncs.bind (.of_reads fun _ => rfl) fun d => ?_
  refine (Syncs.forM (fun name => syncs_syncForeignKey m name) _).bind fun _ => ?_
  refine Syncs.bind (.of_reads fun _ => rfl) fun d => ?_
  refine Syncs.forM (fun name => Syncs.bind (.of_reads fun _ => rfl) fun r => ?_) _
  split
  · exact syncs_syncForeignKey m name
  · exact .of_reads fun _ => rfl

end Model

/-! ## Saving the members -/

section Members

variable [RecordStore σ] {g : Graph (Traced σ)} {m : Model} {c : Collection}

/-- The call for a save is noted, with what the record is stored as. -/
theorem Model.run_store (m : Model) (t : Graph (Traced σ)) :
    (do
      let stored ← Action.call (RecordStore.save (← m.record))
      m.updateRecord fun _ => stored : Action (Traced σ) Unit) t =
    match RecordStore.save (t.model m).record t.store.store with
    | (.error e, s) => (.error e, { t with
        store := ⟨s, t.store.attempts ++ [.save (t.model m).record none]⟩ })
    | (.ok stored, s) => (.ok (), Graph.setRecord { t with
        store := ⟨s, t.store.attempts ++ [.save (t.model m).record (some stored)]⟩ } m stored) := by
  obtain ⟨answer, s, hanswer, hcall⟩ : ∃ answer s,
      RecordStore.save (t.model m).record t.store.store = (answer, s) ∧
      Action.call (RecordStore.save (t.model m).record) t = (answer, { t with
        store := ⟨s, t.store.attempts ++ [.save (t.model m).record answer.toOption]⟩ }) :=
    ⟨_, _, rfl, rfl⟩
  change (Action.call (RecordStore.save (t.model m).record) >>= _) t = _
  rw [run_bind, hcall, hanswer]
  cases answer with
  | error e => rfl
  | ok stored => rfl

/-- Saving a model asks the store for one save at most. -/
theorem Model.run_saveRecord (hm : g.HasModel m) :
    ∃ fields r, r = { (g.model m).record with fields := fields } ∧
      ((∃ e, m.saveRecord g = (.error e, g.setRecord m r)) ∨
      (∃ e s, m.saveRecord g = (.error e, { g.setRecord m r with
        store := ⟨s, g.store.attempts ++ [.save r none]⟩ })) ∨
      ∃ stored s g', g' = Graph.setRecord
          { g with store := ⟨s, g.store.attempts ++ [.save r (some stored)]⟩ } m stored ∧
        m.saveRecord g = (.ok (), g')) := by
  obtain ⟨fields, hsync⟩ := syncs_syncForeignKeys m g hm
  refine ⟨fields, _, rfl, ?_⟩
  rw [saveRecord, run_bind]
  cases hrun : m.syncForeignKeys g with
  | mk answer between =>
      rw [hrun] at hsync
      obtain rfl : between = _ := hsync
      cases answer with
      | error e => exact .inl ⟨e, rfl⟩
      | ok _ =>
          refine .inr ?_
          simp only [run_store]
          rw [Graph.model_setRecord, if_pos rfl]
          rcases RecordStore.save _ _ with ⟨answer, s⟩
          cases answer with
          | error e => exact .inl ⟨e, s, rfl⟩
          | ok stored =>
              refine .inr ⟨stored, s, _, rfl, Prod.ext rfl ?_⟩
              exact Graph.setRecord_setRecord { g with store := (⟨s, _⟩ : Traced σ) } m _ stored

/-- What a run that saves models has tried, and whether all of them were saved. -/
structure SavedUpTo (g : Graph (Traced σ)) (ms : List Model)
    (run : Except Error PUnit × Graph (Traced σ)) (saves : List Attempt) (complete : Bool) :
    Prop where
  inOrder : SavesInOrder (fun m => (g.model m).record) ms saves complete
  attempts : run.2.store.attempts = g.store.attempts ++ saves
  collections : run.2.collections = g.collections
  answer : run.1.isOk = complete

/-- Models are saved one after the other, up to the first that fails. -/
theorem savedUpTo_forM {ms : List Model} (hms : ∀ m ∈ ms, g.HasModel m) :
    ∃ saves complete, SavedUpTo g ms (ms.forM Model.saveRecord g) saves complete := by
  induction ms generalizing g with
  | nil => exact ⟨[], true, .done, by simp; rfl, rfl, rfl⟩
  | cons m rest ih =>
      have hrun : (m :: rest).forM Model.saveRecord g =
          (m.saveRecord >>= fun _ => rest.forM Model.saveRecord) g := rfl
      rw [hrun, run_bind]
      obtain ⟨fields, r, rfl, hfirst⟩ := Model.run_saveRecord (hms m (by simp))
      rcases hfirst with ⟨e, hfirst⟩ | ⟨e, s, hfirst⟩ | ⟨stored, s, g', hg', hfirst⟩
      · rw [hfirst]
        exact ⟨[], false, .stopped, by simp, rfl, rfl⟩
      · rw [hfirst]
        exact ⟨_, false, .failed fields, rfl, rfl, rfl⟩
      · rw [hfirst]
        have hmade : ∀ n ∈ rest, g'.HasModel n := fun n hn => by
          rw [hg']
          exact Graph.HasModel.setRecord (hms n (by simp [hn])) m stored
        have hheld : (fun n => (g'.model n).record) =
            fun n => if m = n then stored else (g.model n).record := by
          funext n
          rw [hg', Graph.model_setRecord]
          rfl
        have hattempts : g'.store.attempts = g.store.attempts ++ [_] :=
          congrArg (fun t : Graph (Traced σ) => t.store.attempts) hg'
        obtain ⟨saves, complete, hrest⟩ := ih hmade
        refine ⟨_, complete, .saved fields stored (hheld ▸ hrest.inOrder), ?_, ?_, hrest.answer⟩
        · rw [hrest.attempts, hattempts]
          exact List.append_assoc _ _ _
        · rw [hrest.collections, hg']
          rfl

/-- Deletions save nothing and leave the collections that there were alone, whether they answer
or fail. -/
theorem framed_deleteAll (ms : List Model) :
    Framed g Traced.SavesNothing (ms.forM Model.delete) g fun _ _ => True :=
  Framed.forM Traced.covers_savesNothing fun m _ _ hframes =>
    Model.framed_delete Traced.covers_savesNothing Traced.savesNothing_delete
      hframes.collections_size m

/-- Deleting what was removed saves nothing, and leaves the collection as it is if it fails. -/
theorem run_deleteRemoved (hc : g.HasCollection c) {answer : Except Error Unit}
    {g' : Graph (Traced σ)}
    (h : ((g.removedStored c).forM Model.delete >>= fun _ => c.markSaved) g = (answer, g')) :
    g.store.SavesNothing g'.store ∧ (answer.isOk = false → g'.collection c = g.collection c) := by
  rw [run_bind] at h
  have hframes := (framed_deleteAll (g := g) (g.removedStored c)).frames
  rcases hrun : (g.removedStored c).forM Model.delete g with ⟨first, last⟩
  rw [hrun] at h hframes
  cases first with
  | error e =>
      obtain ⟨rfl, rfl⟩ := Prod.mk.injEq .. ▸ h
      exact ⟨hframes.store, fun _ => hframes.collection c hc⟩
  | ok _ =>
      have hmark : (Except.ok (), last.setCollection c { last.collection c with
        snapshot := (last.collection c).members }) = (answer, g') := h
      obtain ⟨rfl, rfl⟩ := Prod.mk.injEq .. ▸ hmark
      exact ⟨hframes.store, fun hfails => by cases hfails⟩

/-- Saving a collection that fails leaves it as it was. Its members were saved in order, and
nothing was tried after one of them had failed; after all of them were saved, nothing more was
to be saved. -/
theorem run_saveMembers (hg : g.WellFormed) (hc : g.HasCollection c)
    {answer : Except Error Unit} {g' : Graph (Traced σ)} (h : c.saveMembers g = (answer, g')) :
    ∃ saves later complete,
      SavesInOrder (fun m => (g.model m).record) (g.collection c).members.values saves complete ∧
      g'.store.attempts = g.store.attempts ++ saves ++ later ∧
      (∀ r stored, .save r stored ∉ later) ∧
      (complete = false → later = [] ∧ answer.isOk = false) ∧
      (answer.isOk = false → g'.collection c = g.collection c) := by
  have hmade : ∀ m ∈ (g.collection c).members.values, g.HasModel m := fun m hm =>
    hg.member hc hm
  obtain ⟨saves, complete, hsaved⟩ := savedUpTo_forM hmade
  have hrun : c.saveModels g = (g.collection c).members.values.forM Model.saveRecord g := rfl
  rw [← hrun] at hsaved
  rw [Collection.saveMembers, run_bind] at h
  rcases hfirst : c.saveModels g with ⟨first, saved⟩
  rw [hfirst] at h hsaved
  obtain ⟨hinOrder, hattempts, hcollections, hanswer⟩ := hsaved
  have hcollection : saved.collection c = g.collection c := by
    rw [Graph.collection, hcollections]
    rfl
  cases first with
  | error e =>
      obtain ⟨rfl, rfl⟩ := Prod.mk.injEq .. ▸ h
      exact ⟨saves, [], complete, hinOrder, by simpa using hattempts, by simp, fun _ => ⟨rfl, rfl⟩,
        fun _ => hcollection⟩
  | ok _ =>
      obtain rfl : complete = true := hanswer.symm
      have hc' : saved.HasCollection c := by
        rw [Graph.HasCollection, hcollections]
        exact hc
      obtain ⟨⟨later, hlater, hnone⟩, hfails⟩ := run_deleteRemoved hc' h
      rw [hattempts] at hlater
      exact ⟨saves, later, true, hinOrder, hlater, hnone, by simp,
        fun herror => (hfails herror).trans hcollection⟩

end Members

namespace Journal

theorem store_pass (call : Call σ α) (entry : α → Option JournalEntry) (j : Journal σ) :
    (pass call entry j).2.store = (call j.store).2 ∧ (pass call entry j).1 = (call j.store).1 := by
  unfold pass
  rcases call j.store with ⟨answer, s⟩
  cases answer with
  | error e => exact ⟨rfl, rfl⟩
  | ok a =>
      refine ⟨?_, rfl⟩
      cases h : entry a <;> simp [h, write]

/-- A call that is let through or fails as planned keeps what the call keeps. -/
theorem attempt_keeps {Kept : σ → Prop} {kind : CallKind} {call : Call σ α}
    {entry : α → Option JournalEntry} {j : Journal σ} (hj : Kept (call j.store).2)
    (hsame : Kept j.store) : Kept (attempt kind call entry j).2.store := by
  unfold attempt
  split
  · rw [(store_pass call entry j).1]
    exact hj
  · split
    · exact hsame
    · rw [(store_pass call entry _).1]
      exact hj

/-- What a store keeps it keeps behind a journal. -/
theorem keeps [RecordStore σ] {Kept : σ → Prop} (h : RecordStore.Keeps Kept) :
    RecordStore.Keeps fun j : Journal σ => Kept j.store where
  create entityType bundle j hj := attempt_keeps (h.create entityType bundle j.store hj) hj
  load entityType id j hj := attempt_keeps (h.load entityType id j.store hj) hj
  loadMultiple entityType ids j hj := attempt_keeps (h.loadMultiple entityType ids j.store hj) hj
  execute q j hj := attempt_keeps (h.execute q j.store hj) hj
  count q j hj := attempt_keeps (h.count q j.store hj) hj
  aggregate q a j hj := attempt_keeps (h.aggregate q a j.store hj) hj
  save r j hj := attempt_keeps (h.save r j.store hj) hj
  delete r j hj := attempt_keeps (h.delete r j.store hj) hj
  saved r j stored hj hstored := by
    refine h.saved r j.store stored hj ?_
    change (attempt .save (RecordStore.save r) _ j).1 = .ok stored at hstored
    unfold attempt at hstored
    split at hstored
    · rwa [(store_pass _ _ _).2] at hstored
    · split at hstored
      · cases hstored
      · rwa [(store_pass _ _ _).2] at hstored

end Journal

namespace Library

/-- Three sheets of a binder, of which the first one is no longer a member, in a store that will
save one record more. -/
def pressed : Graph (Traced (Journal MemoryStore)) :=
  let s := filled [bound "sheet" "first" ["minutes"] .single,
    bound "sheet" "second" ["minutes"] .single, bound "sheet" "third" ["minutes"] .single]
  let g := (Session.start Config.standard (Graph.new
    ⟨(Journal.around s).schedule ⟨.save, 1, "full"⟩, []⟩ (registry [binder, sheet]))).2
  (Collection.remove ⟨0⟩ "first"
    (Collection.forgeByIds session "sheet" ["first", "second", "third"] g).2).2

/-- The property that the store has and keeps. -/
def FiledBehind (t : Traced (Journal MemoryStore)) : Prop := t.store.store.Filed

theorem reachable_pressed : Graph.Reachable FiledBehind pressed := by
  refine .call (.call (.call (.new (filed_filled _) (wellFormed_registry wellFormed_binding))
    (.start _)) (.forgeByIds _ _ _)) (.remove ?_ _)
  decide +kernel

/-- The graph after the collection was to be saved, and the third sheet could not be. -/
def halted : Graph (Traced (Journal MemoryStore)) := ((Related.collection ⟨0⟩).save none pressed).2

end Library

end RecordGraph
