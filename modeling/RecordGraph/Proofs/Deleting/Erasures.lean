/-
# What a deletion leaves

A deletion is followed through its recursion: what it fetches for one relationship are models
of all that hangs along it, each of them is deleted in turn, and when all relationships have been
gone through the record itself is deleted. The log that this leaves in the store is the one of
the node, as it stood when the deletion began.
-/
import RecordGraph.Proofs.Deleting.Children
import RecordGraph.Proofs.Upholding.Storing

namespace RecordGraph

/-! ## One level of a deletion -/

namespace Model

variable {σ : Type} [RecordStore σ]

/-- Follows one relationship, and deletes in the given way what it leads to. -/
def cascade (inner : Model → Action σ Unit) (m : Model) (name : String) : Action σ Unit := do
  let children ← (Related.model m).fetch (pathSteps name) none
  (← children.models).forM inner

/-- Deletes a model, and in the given way what its cascading relationships lead to. -/
def deleteBy (inner : Model → Action σ Unit) (m : Model) : Action σ Unit := do
  if ← m.isNew then return ()
  (← m.modelType).cascades.forM (cascade inner m)
  Action.call (RecordStore.delete (← m.record))

theorem deleteWithin_succ (depth : Nat) (m : Model) :
    m.deleteWithin depth.succ = deleteBy (σ := σ) (deleteWithin depth) m := rfl

/-- How deep a deletion may go depends on the store. -/
theorem delete_run (g : Graph σ) (m : Model) :
    m.delete g = m.deleteWithin (RecordStore.patience g.store + 2) g := by
  rw [delete, run_bind]
  rfl

theorem returns_delete_iff {g g' : Graph σ} {m : Model} {u : Unit} : Returns m.delete g u g' ↔
    Returns (m.deleteWithin (RecordStore.patience g.store + 2)) g u g' := by
  rw [Returns, Returns, delete_run]

end Model

/-! ## Graphs over which deletions ran -/

/-- Deletions have taken the records of the log out of the store. Models were made, but those
that there were have their records. -/
structure Graph.Deletes (g : Graph MemoryStore) (log : List RecordKey) (g' : Graph MemoryStore) :
    Prop where
  wellFormed : g'.WellFormed
  grows : g.Grows g'
  record : ∀ m, g.HasModel m → (g'.model m).record = (g.model m).record
  takes : g.store.Takes log g'.store

namespace Graph.Deletes

variable {g g' g'' : Graph MemoryStore} {log log' : List RecordKey} {m : Model}

theorem refl (hg : g.WellFormed) : g.Deletes [] g :=
  ⟨hg, .refl g, fun _ _ => rfl, .refl _⟩

theorem trans (first : g.Deletes log g') (second : g'.Deletes log' g'') :
    g.Deletes (log ++ log') g'' where
  wellFormed := second.wellFormed
  grows := first.grows.trans second.grows
  record m hm := (second.record m (first.grows.model m hm)).trans (first.record m hm)
  takes := first.takes.trans second.takes

theorem node_eq (h : g.Deletes log g') (hm : g.HasModel m) : g'.node m = g.node m := by
  rw [Graph.node, Graph.node, h.record m hm, h.grows.modelType m hm]

theorem isNew_eq (h : g.Deletes log g') (hm : g.HasModel m) :
    (g'.model m).record.isNew = (g.model m).record.isNew := by
  rw [h.record m hm]

end Graph.Deletes

/-- The nodes that the stored ones among the models wrap. -/
def Graph.nodes (g : Graph MemoryStore) (ms : List Model) : List Node :=
  (ms.filter fun n => !(g.model n).record.isNew).map g.node

namespace Graph

variable {g g' : Graph MemoryStore} {m : Model} {name : String} {ms : List Model}

theorem mem_nodes {y : Node} : y ∈ g.nodes ms ↔ ∃ n ∈ ms, g.Shows n y := by
  simp only [nodes, List.mem_map, List.mem_filter, Bool.not_eq_true']
  constructor
  · rintro ⟨n, ⟨hn, hstored⟩, rfl⟩
    exact ⟨n, hn, shows_node hstored⟩
  · rintro ⟨n, hn, hy⟩
    exact ⟨n, ⟨hn, hy.stored⟩, hy.eq_node.symm⟩

/-- The nodes that were found are those that hang, each once. -/
theorem Follows.nodes (h : g.Follows m name ms g') :
    (∀ y, y ∈ g'.nodes ms ↔ Node.HangsAlong g.registry g.store name (g.node m) y) ∧
      (g'.nodes ms).Pairwise fun a b => a.key ≠ b.key := by
  refine ⟨fun y => mem_nodes.trans ⟨fun ⟨n, hn, hy⟩ => h.hanging n hn y hy, h.found y⟩, ?_⟩
  rw [Graph.nodes, List.pairwise_map]
  refine (h.apart.filter _).imp_of_mem fun {a b} ha hb hne => ?_
  simp only [List.mem_filter, Bool.not_eq_true'] at ha hb
  exact hne _ _ (shows_node ha.2) (shows_node hb.2)

/-- What the deletion of a model leaves: nothing happens to an unsaved one, and the record of a
stored one goes behind the log of its node. -/
inductive Erases (g : Graph MemoryStore) (m : Model) : Graph MemoryStore → Prop where
  | unsaved (hnew : (g.model m).record.isNew = true) : Erases g m g
  | stored {g' : Graph MemoryStore} {log : List RecordKey}
      (hstored : (g.model m).record.isNew = false)
      (hdeletes : g.Deletes (log ++ [(g.node m).key]) g')
      (hnoted : Node.Noted g.registry g.store (g.node m) (g.model m).modelType.cascades log) :
      Erases g m g'

end Graph

/-- The record of a model is deleted. -/
theorem Graph.WellFormed.deletes_record {g : Graph MemoryStore} (hg : g.WellFormed) {m : Model}
    (hstored : (g.model m).record.isNew = false) {store : MemoryStore}
    (h : RecordStore.delete (g.model m).record g.store = (.ok (), store)) :
    g.Deletes [(g.node m).key] { g with store := store } := by
  obtain ⟨hwellFormed, hgrows⟩ := hg.withStore store
  obtain rfl : (MemoryStore.delete (g.model m).record g.store).2 = store := congrArg Prod.snd h
  obtain ⟨-, hentity, hid⟩ := shows_node hstored
  refine ⟨hwellFormed, hgrows, fun _ _ => rfl, ?_⟩
  rw [Node.key, ← hentity]
  exact .delete hid

/-! ## Runs -/

namespace Model

variable {g g' : Graph MemoryStore} {m : Model} {name : String} {ms : List Model}

/-- A fetch deletes nothing. -/
theorem deletes_of_returns_fetch (hg : g.WellFormed) (hfiled : g.store.Filed) (hm : g.HasModel m)
    {path : List String} {r : Related} {between : Graph MemoryStore}
    (hfetch : Returns ((Related.model m).fetch path none) g r between)
    (hmodels : Returns r.models between ms g') :
    g.Deletes [] g' ∧ ∀ n ∈ ms, g'.HasModel n := by
  obtain ⟨hsound, hgrows, hr⟩ := (Related.upholds_fetch MemoryStore.keeps_filed ⟨hg, hfiled⟩
    (r := .model m) hm path none).of_returns hfetch
  have hframed : Framed g _ ((Related.model m).fetch path none) g fun _ _ => True :=
    Related.framed_fetch MemoryStore.covers_same (Nat.le_refl _) (.model m) path none
  obtain ⟨hframes, -⟩ := hframed.of_returns hfetch
  obtain ⟨⟨hg', -⟩, hlater, hms⟩ := (Related.upholds_models hsound hr).of_returns hmodels
  have hsame : g' = between := by
    cases r with
    | none => exact (returns_pure.mp hmodels).1
    | model n => exact (returns_pure.mp hmodels).1
    | collection c => exact (Collection.returns_models.mp hmodels).1
  subst hsame
  exact ⟨⟨hg', hgrows, hframes.record, .of_records hframes.store.1 hframes.store.2⟩, hms⟩

section Levels

/-- A way of deleting that does what a deletion is to do. -/
def ErasesAll (inner : Model → Action MemoryStore Unit) : Prop :=
  ∀ (g g' : Graph MemoryStore) m, g.WellFormed → g.store.Filed → g.HasModel m →
    Returns (inner m) g () g' → g.Erases m g'

variable {inner : Model → Action MemoryStore Unit} (hinner : ErasesAll inner)

include hinner

/-- Models are deleted one after the other. -/
theorem returns_deleteAll (hg : g.WellFormed) (hfiled : g.store.Filed)
    (hms : ∀ n ∈ ms, g.HasModel n) (h : Returns (ms.forM inner) g () g') :
    ∃ log, g.Deletes log g' ∧ Node.NotedAll g.registry g.store (g.nodes ms) log := by
  refine h.forM_invariant (fun done t => ∃ log, g.Deletes log t ∧
    Node.NotedAll g.registry g.store (g.nodes done) log) ⟨[], .refl hg, .nil⟩ ?_
  rintro done n rest t t' rfl ⟨log, hdeletes, hnoted⟩ hturn
  have hn : g.HasModel n := hms n (by simp)
  have herases := hinner t t' n hdeletes.wellFormed (hdeletes.takes.filed hfiled)
    (hdeletes.grows.model n hn) hturn
  cases herases with
  | unsaved hnew =>
      rw [hdeletes.isNew_eq hn] at hnew
      exact ⟨log, hdeletes, by simpa [Graph.nodes, hnew] using hnoted⟩
  | @stored _ log' hstored hdeletes' hnoted' =>
      rw [hdeletes.isNew_eq hn] at hstored
      rw [hdeletes.node_eq hn, hdeletes.grows.registry, hdeletes.grows.modelType n hn] at hnoted'
      rw [hdeletes.node_eq hn] at hdeletes'
      refine ⟨log ++ log' ++ [(g.node n).key], ?_, ?_⟩
      · rw [List.append_assoc]
        exact hdeletes.trans hdeletes'
      · have hnodes : g.nodes (done ++ [n]) = g.nodes done ++ [g.node n] := by
          simp [Graph.nodes, hstored]
        rw [hnodes]
        exact hnoted.snoc hdeletes.takes (hg.typed n hn) hnoted'

variable (hg : g.WellFormed) (hfiled : g.store.Filed) (hm : g.HasModel m)
  (hstored : (g.model m).record.isNew = false)

include hg hfiled hm hstored

/-- One more relationship is followed, and what was found is deleted. -/
theorem returns_cascade {names : List String} {log : List RecordKey} {t t' : Graph MemoryStore}
    (hname : name ∈ (g.model m).modelType.cascades) (hdeletes : g.Deletes log t)
    (hnoted : Node.Noted g.registry g.store (g.node m) names log)
    (h : Returns (cascade inner m name) t () t') :
    ∃ log', g.Deletes log' t' ∧
      Node.Noted g.registry g.store (g.node m) (names ++ [name]) log' := by
  have hfiledt := hdeletes.takes.filed hfiled
  have hmt := hdeletes.grows.model m hm
  simp only [cascade, returns_bind] at h
  obtain ⟨r, between, hfetch, ms, fetched, hmodels, hall⟩ := h
  obtain ⟨hfetched, hms⟩ :=
    deletes_of_returns_fetch hdeletes.wellFormed hfiledt hmt hfetch hmodels
  obtain ⟨log', hdeletes', hnoted'⟩ :=
    returns_deleteAll hinner hfetched.wellFormed (hfetched.takes.filed hfiledt) hms hall
  have htakes : g.store.Takes log fetched.store := by
    simpa using hdeletes.takes.trans hfetched.takes
  refine ⟨log ++ log', by simpa using hdeletes.trans (hfetched.trans hdeletes'), ?_⟩
  by_cases hroams : (g.node m).Roams
  · exact .of_roams (hg.typed m hm) hroams _
  · have hpath : pathSteps name = [name] := by
      by_contra hsteps
      exact hroams ⟨name, hname, hsteps⟩
    rw [hpath] at hfetch
    obtain ⟨hys, hkeys⟩ := (returns_follow hdeletes.wellFormed hfiledt hmt
      ((hdeletes.isNew_eq hm).trans hstored) (by rwa [hdeletes.grows.modelType m hm]) hfetch
      hmodels).nodes
    rw [hdeletes.node_eq hm, hdeletes.grows.registry] at hys
    rw [hfetched.grows.registry, hdeletes.grows.registry] at hnoted'
    refine hnoted.along htakes hname (fun y => ?_) hkeys hnoted'
    simp [hys, Node.hangsAlong_of_takes hfetched.takes]

/-- Relationships are followed one after the other. -/
theorem returns_cascades {names : List String}
    (hnames : ∀ name ∈ names, name ∈ (g.model m).modelType.cascades)
    (h : Returns (names.forM (cascade inner m)) g () g') :
    ∃ log, g.Deletes log g' ∧ Node.Noted g.registry g.store (g.node m) names log := by
  refine h.forM_invariant (fun done t => ∃ log, g.Deletes log t ∧
    Node.Noted g.registry g.store (g.node m) done log) ⟨[], .refl hg, .nil⟩ ?_
  rintro done name rest t t' rfl ⟨log, hdeletes, hnoted⟩ hturn
  exact returns_cascade hinner hg hfiled hm hstored (hnames name (by simp)) hdeletes hnoted hturn

end Levels

/-- One level does what a deletion is to do when all below it do. -/
theorem erasesAll_deleteBy {inner : Model → Action MemoryStore Unit} (hinner : ErasesAll inner) :
    ErasesAll (deleteBy inner) := by
  intro g g' m hg hfiled hm h
  simp only [deleteBy, returns_bind, returns_isNew, and_assoc, exists_eq_left] at h
  cases hnew : (g.model m).record.isNew with
  | true =>
      rw [hnew, if_pos rfl, returns_pure] at h
      rw [h.1]
      exact .unsaved hnew
  | false =>
      simp only [hnew, Bool.false_eq_true, if_false, returns_bind, returns_modelType,
        and_assoc, exists_eq_left, returns_record, returns_call] at h
      obtain ⟨⟨⟩, cascaded, hcascades, store, hlast, rfl⟩ := h
      obtain ⟨log, hdeletes, hnoted⟩ :=
        returns_cascades hinner hg hfiled hm hnew (fun _ h => h) hcascades
      refine .stored hnew (hdeletes.trans ?_) hnoted
      rw [← hdeletes.node_eq hm]
      exact hdeletes.wellFormed.deletes_record ((hdeletes.isNew_eq hm).trans hnew) hlast

/-- However deep a deletion may go: if it answers, it has deleted all that hangs below the record,
and then the record. -/
theorem erasesAll_deleteWithin (depth : Nat) : ErasesAll (deleteWithin depth) := by
  induction depth with
  | zero =>
      intro g g' m _ _ _ h
      simp [deleteWithin] at h
  | succ depth ih => exact erasesAll_deleteBy ih

theorem erasesAll_delete : ErasesAll delete := by
  intro g g' m hg hfiled hm h
  exact erasesAll_deleteWithin _ g g' m hg hfiled hm (returns_delete_iff.mp h)

end Model

end RecordGraph
