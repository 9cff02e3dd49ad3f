/-
# Running a relationship's query in batches

Running the query of a batch makes new models and touches no object that was there before.
The models found are filed by the identifier of their records, so a record that two batches
select is found once, wrapped by the model that came last.

Which records are selected depends on the store. This module holds for every record store and
says only that what is found is what the store answered for the batches, one by one.
-/
import Mathlib.Data.List.Forall2
import RecordGraph.Proofs.OrderedMaps
import RecordGraph.Proofs.Steps

namespace RecordGraph

variable {σ : Type}

/-- Cutting a list into batches loses nothing and keeps the order. -/
theorem flatten_batches {α : Type} (size : Nat) (xs : List α) :
    (batches size xs).flatten = xs := by
  induction xs using batches.induct size with
  | case1 => rw [batches, List.flatten_nil]
  | case2 x rest ih =>
      rw [batches, List.flatten_cons, ih, List.cons_append, List.take_append_drop]

namespace Graph

/-- Nothing happened to the objects of `g` except that models were added behind them. -/
structure OnlyForges (g g' : Graph σ) : Prop where
  registry : g'.registry = g.registry
  collections : g'.collections = g.collections
  models_le : g.models.size ≤ g'.models.size
  model_eq : ∀ m, g.HasModel m → g'.model m = g.model m

namespace OnlyForges

variable {g g' g'' : Graph σ}

theorem refl (g : Graph σ) : g.OnlyForges g :=
  ⟨rfl, rfl, Nat.le_refl _, fun _ _ => rfl⟩

theorem hasModel (h : g.OnlyForges g') {m : Model} (hm : g.HasModel m) : g'.HasModel m :=
  Nat.lt_of_lt_of_le hm h.models_le

theorem trans (first : g.OnlyForges g') (second : g'.OnlyForges g'') : g.OnlyForges g'' where
  registry := second.registry.trans first.registry
  collections := second.collections.trans first.collections
  models_le := Nat.le_trans first.models_le second.models_le
  model_eq m hm := (second.model_eq m (first.hasModel hm)).trans (first.model_eq m hm)

theorem setSession (g : Graph σ) (s : Session) (d : SessionData) :
    g.OnlyForges (g.setSession s d) :=
  ⟨rfl, rfl, Nat.le_refl _, fun _ _ => rfl⟩

theorem setStore (g : Graph σ) (store : σ) : g.OnlyForges { g with store := store } :=
  ⟨rfl, rfl, Nat.le_refl _, fun _ _ => rfl⟩

theorem addModel (g : Graph σ) (d : ModelData) : g.OnlyForges (g.addModel d) where
  registry := rfl
  collections := rfl
  models_le := by
    simp [Graph.addModel]
  model_eq m hm := by
    rw [model_addModel, if_neg hm.ne_nextModel]

theorem collection_eq (h : g.OnlyForges g') (c : Collection) :
    g'.collection c = g.collection c := by
  unfold collection
  rw [h.collections]

end OnlyForges

/-- A model as it is forged from a record by a query: of the type that the query has for the
record, under the record's identifier, with nothing loaded. -/
structure WrapsRecord (g : Graph σ) (wrapping : Wrapping) (m : Model) : Prop where
  typeFor : wrapping.typeFor? (g.model m).record = some (g.model m).modelType
  key : ∀ id, (g.model m).record.id = some id → (g.model m).key = id
  parents : (g.model m).parents = OrderedMap.empty
  children : (g.model m).children = OrderedMap.empty

end Graph

/-- Forging gives a model the identifier of its record as its key, or else a placeholder, and
adds it behind all others. Beside that only its session changes. -/
theorem Model.returns_forge_eq {s : Session} {t : ModelType} {r : Record} {m : Model}
    {g g' : Graph σ} (h : Returns (forge s t r) g m g') :
    ∃ key between e, (∀ id, r.id = some id → key = id) ∧
      (between = g ∨ ∃ d, between = g.setSession s d) ∧ m = g.nextModel ∧
      g' = (between.addModel
        ⟨s, t, key, r, OrderedMap.empty, OrderedMap.empty⟩).setSession s e := by
  unfold forge at h
  cases hid : r.id with
  | some id =>
      simp only [hid, returns_bind, returns_pure, returns_get, returns_set,
        Session.returns_update, and_assoc, exists_eq_left, exists_const] at h
      obtain ⟨rfl, rfl⟩ := h
      exact ⟨id, g, _, fun id' hid' => Option.some.inj hid', .inl rfl, rfl, rfl⟩
  | none =>
      simp only [hid, Session.nextPlaceholder, returns_bind, Session.returns_data, returns_pure,
        returns_get, returns_set, Session.returns_update, and_assoc, exists_eq_left,
        exists_const] at h
      obtain ⟨rfl, rfl⟩ := h
      exact ⟨_, _, _, fun id' hid' => absurd hid' (by simp), .inr ⟨_, rfl⟩, rfl, rfl⟩

/-- A forged model is new and wraps the record with nothing loaded; older objects and the
store are as before. -/
theorem Model.returns_forge {s : Session} {t : ModelType} {r : Record} {m : Model}
    {g g' : Graph σ} (h : Returns (forge s t r) g m g') :
    g.OnlyForges g' ∧ g'.store = g.store ∧ ¬ g.HasModel m ∧ g'.HasModel m ∧
      (g'.model m).record = r ∧ (g'.model m).modelType = t ∧
      (∀ id, r.id = some id → (g'.model m).key = id) ∧
      (g'.model m).parents = OrderedMap.empty ∧ (g'.model m).children = OrderedMap.empty := by
  obtain ⟨key, between, e, hkey, hbetween, rfl, rfl⟩ := returns_forge_eq h
  have hsame : g.OnlyForges between ∧ between.store = g.store ∧
      between.nextModel = g.nextModel := by
    rcases hbetween with rfl | ⟨d, rfl⟩
    · exact ⟨.refl _, rfl, rfl⟩
    · exact ⟨.setSession _ _ _, rfl, rfl⟩
  obtain ⟨hforges, hstore, hnext⟩ := hsame
  refine ⟨(hforges.trans (.addModel _ _)).trans (.setSession _ _ _), hstore,
    g.not_hasModel_nextModel, ?_, ?_⟩
  · rw [← hnext]
    simp [Graph.HasModel, Graph.nextModel, Graph.addModel, Graph.setSession]
  · rw [Graph.model_setSession, Graph.model_addModel, if_pos hnext.symm]
    exact ⟨rfl, rfl, hkey, rfl, rfl⟩

/-! ## Wrapping -/

namespace Graph

/-- The models are new in `g'`, and each wraps a record. -/
def Wraps (g g' : Graph σ) (wrapping : Wrapping) (m : Model) : Prop :=
  ¬ g.HasModel m ∧ g'.HasModel m ∧ g'.WrapsRecord wrapping m

variable {g g' g'' : Graph σ} {wrapping : Wrapping} {m : Model}

theorem WrapsRecord.of_model_eq (h : g.WrapsRecord wrapping m) (heq : g'.model m = g.model m) :
    g'.WrapsRecord wrapping m where
  typeFor := by rw [heq]; exact h.typeFor
  key := by rw [heq]; exact h.key
  parents := by rw [heq]; exact h.parents
  children := by rw [heq]; exact h.children

/-- Forging further models leaves those that wrap a record as they are. -/
theorem Wraps.later (h : g.Wraps g' wrapping m) (hforges : g'.OnlyForges g'') :
    g.Wraps g'' wrapping m :=
  ⟨h.1, hforges.hasModel h.2.1, h.2.2.of_model_eq (hforges.model_eq m h.2.1)⟩

/-- What is new later was new before. -/
theorem Wraps.earlier (hforges : g.OnlyForges g') (h : g'.Wraps g'' wrapping m) :
    g.Wraps g'' wrapping m :=
  ⟨fun hold => h.1 (hforges.hasModel hold), h.2⟩

end Graph

namespace ModelQuery

variable {q : ModelQuery} {s : Session} {g g' : Graph σ}

/-- A record becomes a new model, or none if the query has no type for it. -/
theorem returns_wrap {r : Record} {made : Option Model} (h : Returns (q.wrap s r) g made g') :
    g.OnlyForges g' ∧ g'.store = g.store ∧
      (∀ m, made = some m → g.Wraps g' q.wrapping m ∧ (g'.model m).record = r) ∧
      (made = none → q.wrapping.typeFor? r = none) := by
  unfold wrap at h
  cases htype : q.wrapping.typeFor? r with
  | none =>
      simp only [htype, returns_pure] at h
      obtain ⟨rfl, rfl⟩ := h
      exact ⟨.refl _, rfl, by simp, fun _ => rfl⟩
  | some t =>
      simp only [htype, returns_bind, returns_pure] at h
      obtain ⟨forged, between, hforge, rfl, rfl⟩ := h
      obtain ⟨hforges, hstore, hnew, hhas, hrecord, hforgedType, hkey, hparents, hchildren⟩ :=
        Model.returns_forge hforge
      refine ⟨hforges, hstore, ?_, by simp⟩
      intro m hm
      obtain rfl : forged = m := Option.some.inj hm
      refine ⟨⟨hnew, hhas, ?_, ?_, hparents, hchildren⟩, hrecord⟩
      · rw [hrecord, hforgedType, htype]
      · intro id hid
        exact hkey id (hrecord ▸ hid)

/-- The records that the query has a type for become new models, in order. -/
theorem returns_wrapAll {rs : List Record} {ms : List Model}
    (h : Returns (q.wrapAll s rs) g ms g') :
    g.OnlyForges g' ∧ g'.store = g.store ∧ (∀ m ∈ ms, g.Wraps g' q.wrapping m) ∧
      ms.map (fun m => (g'.model m).record) =
        rs.filter fun r => (q.wrapping.typeFor? r).isSome := by
  simp only [wrapAll, returns_bind, returns_pure] at h
  obtain ⟨answers, between, hrun, rfl, rfl⟩ := h
  refine hrun.mapM_invariant (fun done answers t => g.OnlyForges t ∧ t.store = g.store ∧
      (∀ m ∈ answers.filterMap (fun m => m), g.Wraps t q.wrapping m) ∧
      (answers.filterMap (fun m => m)).map (fun m => (t.model m).record) =
        done.filter fun r => (q.wrapping.typeFor? r).isSome)
    ⟨.refl g, rfl, by simp, rfl⟩ ?_
  rintro done r rest answers t made t' - ⟨hforges, hstore, hwraps, hrecords⟩ hwrap
  obtain ⟨hforges', hstore', hmade, hnone⟩ := returns_wrap hwrap
  refine ⟨hforges.trans hforges', hstore'.trans hstore, ?_, ?_⟩
  · intro m hm
    rw [List.filterMap_append, List.mem_append] at hm
    rcases hm with hold | hlast
    · exact (hwraps m hold).later hforges'
    · exact .earlier hforges (hmade m (by simpa [eq_comm] using hlast)).1
  · have hsame : (answers.filterMap (fun m => m)).map (fun m => (t'.model m).record) =
        (answers.filterMap (fun m => m)).map (fun m => (t.model m).record) := by
      refine List.map_congr_left fun m hm => ?_
      rw [hforges'.model_eq m (hwraps m hm).2.1]
    rw [List.filterMap_append, List.map_append, hsame, hrecords, List.filter_append]
    congr 1
    cases made with
    | none => simp [hnone rfl]
    | some m =>
        have hm := hmade m rfl
        have htype := hm.1.2.2.typeFor
        rw [hm.2] at htype
        simp [hm.2, htype]

end ModelQuery

/-! ## Batch after batch -/

namespace Fetching

variable {g g' : Graph σ}

/-- What was found so far: under an identifier a new model that wraps a record of this
identifier, taken from the answers; and whatever can be wrapped of the answers, in the order in
which the identifiers occur first. -/
structure Found (g g' : Graph σ) (wrapping : Wrapping) (answers : List Record)
    (found : OrderedMap String Model) : Prop where
  wraps : ∀ id m, found.get? id = some m → g.Wraps g' wrapping m
  record : ∀ id m, found.get? id = some m →
    (g'.model m).record ∈ answers ∧ (g'.model m).record.id = some id
  complete : ∀ r ∈ answers, (wrapping.typeFor? r).isSome → ∀ id, r.id = some id →
    ∃ m, found.get? id = some m
  keys : found.keys =
    distinct ((answers.filter fun r => (wrapping.typeFor? r).isSome).filterMap Record.id)

/-- Before any batch nothing is found. -/
theorem Found.empty (g g' : Graph σ) (wrapping : Wrapping) :
    Found g g' wrapping [] OrderedMap.empty where
  wraps id m h := by simp at h
  record id m h := by simp at h
  complete r h := by simp at h
  keys := rfl

variable {wrapping : Wrapping} {answers : List Record} {found : OrderedMap String Model}

theorem Found.later {g'' : Graph σ} (h : Found g g' wrapping answers found)
    (hforges : g'.OnlyForges g'') : Found g g'' wrapping answers found where
  wraps id m hm := (h.wraps id m hm).later hforges
  record id m hm := by
    rw [hforges.model_eq m (h.wraps id m hm).2.1]
    exact h.record id m hm
  complete := h.complete
  keys := h.keys

/-- A model is found under its key, which is the identifier of its record. -/
theorem Found.get?_key (h : Found g g' wrapping answers found) {m : Model}
    (hm : m ∈ found.values) : found.get? (g'.model m).key = some m ∧
      (g'.model m).record.id = some (g'.model m).key := by
  obtain ⟨id, hid⟩ := OrderedMap.mem_values_iff.mp hm
  have hrecord := (h.record id m hid).2
  rw [(h.wraps id m hid).2.2.key id hrecord]
  exact ⟨hid, hrecord⟩

/-- No two models are found for one key. -/
theorem Found.eq_of_key_eq (h : Found g g' wrapping answers found) {m n : Model}
    (hm : m ∈ found.values) (hn : n ∈ found.values) (hkey : (g'.model m).key = (g'.model n).key) :
    m = n := by
  have hfound := (h.get?_key hm).1
  rw [hkey, (h.get?_key hn).1, Option.some.injEq] at hfound
  exact hfound.symm

/-- One more model of one more answer is filed under the identifier of its record. -/
theorem Found.insert {m : Model} (h : Found g g' wrapping answers found)
    (hwraps : g.Wraps g' wrapping m) :
    Found g g' wrapping (answers ++ [(g'.model m).record])
      (match (g'.model m).record.id with
        | some id => found.insert id m
        | none => found) := by
  have htyped : [(g'.model m).record].filter (fun r => (wrapping.typeFor? r).isSome) =
      [(g'.model m).record] := by
    simp [hwraps.2.2.typeFor]
  cases hid : (g'.model m).record.id with
  | none =>
      refine ⟨h.wraps, fun id x hx => ?_, fun r hr htype id hr' => ?_, ?_⟩
      · exact ⟨List.mem_append_left _ (h.record id x hx).1, (h.record id x hx).2⟩
      · rcases List.mem_append.mp hr with hold | hlast
        · exact h.complete r hold htype id hr'
        · rw [List.mem_singleton] at hlast
          rw [hlast, hid] at hr'
          simp at hr'
      · rw [List.filter_append, htyped, List.filterMap_append, h.keys]
        simp [hid]
  | some new =>
      refine ⟨fun id x hx => ?_, fun id x hx => ?_, fun r hr htype id hr' => ?_, ?_⟩
      · rw [OrderedMap.get?_insert] at hx
        split at hx
        · exact Option.some.inj hx ▸ hwraps
        · exact h.wraps id x hx
      · rw [OrderedMap.get?_insert] at hx
        split at hx
        · rename_i hnew
          obtain rfl := Option.some.inj hx
          exact ⟨by simp, hnew ▸ hid⟩
        · exact ⟨List.mem_append_left _ (h.record id x hx).1, (h.record id x hx).2⟩
      · rw [OrderedMap.get?_insert]
        split
        · exact ⟨m, rfl⟩
        · rename_i hne
          rcases List.mem_append.mp hr with hold | hlast
          · exact h.complete r hold htype id hr'
          · rw [List.mem_singleton] at hlast
            rw [hlast, hid] at hr'
            exact absurd (Option.some.inj hr') hne
      · have hlast : [(g'.model m).record].filterMap Record.id = [new] := by
          simp [hid]
        rw [List.filter_append, htyped, List.filterMap_append, hlast, distinct_concat,
          OrderedMap.keys_insert, h.keys]

/-- Answers that the query has no type for may be counted in or left out. -/
theorem Found.of_same_typed {others : List Record} (h : Found g g' wrapping answers found)
    (hsame : answers.filter (fun r => (wrapping.typeFor? r).isSome) =
      others.filter fun r => (wrapping.typeFor? r).isSome) :
    Found g g' wrapping others found := by
  refine ⟨h.wraps, fun id m hm => ?_, fun r hr htype => ?_, hsame ▸ h.keys⟩
  · obtain ⟨hmem, hid⟩ := h.record id m hm
    have htyped : (wrapping.typeFor? (g'.model m).record).isSome := by
      rw [(h.wraps id m hm).2.2.typeFor, Option.isSome_some]
    have hkept : (g'.model m).record ∈ others.filter fun r => (wrapping.typeFor? r).isSome := by
      rw [← hsame, List.mem_filter]
      exact ⟨hmem, htyped⟩
    exact ⟨(List.mem_filter.mp hkept).1, hid⟩
  · have hkept : r ∈ answers.filter fun r => (wrapping.typeFor? r).isSome := by
      rw [hsame, List.mem_filter]
      exact ⟨hr, htype⟩
    exact h.complete r (List.mem_filter.mp hkept).1 htype

variable [RecordStore σ] {plan : Plan}

/-- A batch adds what the store answers for it. -/
theorem returns_runBatch {found' : OrderedMap String Model} {ids : List String}
    {t t' : Graph σ} (hforges : g.OnlyForges t)
    (hfound : Found g t plan.query.wrapping answers found)
    (h : Returns (runBatch plan found ids) t found' t') :
    ∃ rs between, Returns ((batchQuery plan ids).query.fetch plan.session) t rs between ∧
      t'.store = between.store ∧ g.OnlyForges t' ∧
      Found g t' plan.query.wrapping (answers ++ rs) found' := by
  simp only [runBatch, ModelQuery.fetchModels, returns_bind, returns_get, returns_pure,
    and_assoc, exists_eq_left] at h
  obtain ⟨ms, _, ⟨rs, between, hfetch, hwrap⟩, rfl, rfl⟩ := h
  obtain ⟨store, rfl⟩ := Query.returns_fetch hfetch
  obtain ⟨hmade, hstore, hwraps, hrecords⟩ := ModelQuery.returns_wrapAll hwrap
  have hforged := (Graph.OnlyForges.setStore t store).trans hmade
  refine ⟨rs, _, hfetch, hstore, hforges.trans hforged, ?_⟩
  have hfolded : ∀ rest : List Model, (∀ m ∈ rest, g.Wraps t' plan.query.wrapping m) →
      ∀ (answers : List Record) (found : OrderedMap String Model),
        Found g t' plan.query.wrapping answers found →
        Found g t' plan.query.wrapping (answers ++ rest.map fun m => (t'.model m).record)
          (rest.foldl (fun found m =>
            match (t'.model m).record.id with
            | some id => found.insert id m
            | none => found) found) := by
    intro rest
    induction rest with
    | nil =>
        intro _ answers found hbefore
        simpa using hbefore
    | cons m rest ih =>
        intro hrest answers found hbefore
        have hnext := hbefore.insert (hrest m (by simp))
        simpa using ih (fun x hx => hrest x (by simp [hx])) _ _ hnext
  refine (hfolded ms ?_ answers found (hfound.later hforged)).of_same_typed ?_
  · intro m hm
    exact .earlier (hforges.trans (.setStore t store)) (hwraps m hm)
  · have hwrapping : (batchQuery plan ids).wrapping = plan.query.wrapping := rfl
    rw [hrecords, hwrapping, List.filter_append, List.filter_append, List.filter_filter]
    simp

/-- What a run finds, when every batch is asked of a store that meets `Stored` for the answers
so far and every answer meets `Answers`. -/
theorem returns_run {Stored : List Record → σ → Prop} {Answers : List String → List Record → Prop}
    (hanswers : ∀ before ids t rs t', Stored before t.store →
      Returns ((batchQuery plan ids).query.fetch plan.session) t rs t' →
      Stored (before ++ rs) t'.store ∧ Answers ids rs)
    {ids : List String} (hstored : Stored [] g.store)
    (h : Returns (run plan ids) g found g') :
    g.OnlyForges g' ∧ ∃ answered : List (List Record), Stored answered.flatten g'.store ∧
      List.Forall₂ Answers
        (batches ((g.session plan.session).config.fetchBatchSize.getD ids.length) ids) answered ∧
      Found g g' plan.query.wrapping answered.flatten found := by
  simp only [run, returns_bind, Session.returns_config, and_assoc, exists_eq_left] at h
  refine h.foldlM_invariant (fun done found t => g.OnlyForges t ∧
      ∃ answered : List (List Record), Stored answered.flatten t.store ∧
        List.Forall₂ Answers done answered ∧ Found g t plan.query.wrapping answered.flatten found)
    ⟨.refl g, [], hstored, .nil, .empty _ _ _⟩ ?_
  rintro done batch rest found t found' t' - ⟨hforges, answered, hstored, hdone, hfound⟩ hrun
  obtain ⟨rs, between, hfetch, hstore, hforges', hfound'⟩ := returns_runBatch hforges hfound hrun
  obtain ⟨hstored', hanswer⟩ := hanswers answered.flatten batch t rs between hstored hfetch
  have hall : (answered ++ [rs]).flatten = answered.flatten ++ rs := by simp
  refine ⟨hforges', answered ++ [rs], ?_, List.rel_append hdone (.cons hanswer .nil), ?_⟩
  · rw [hall, hstore]
    exact hstored'
  · rw [hall]
    exact hfound'

end Fetching

end RecordGraph
