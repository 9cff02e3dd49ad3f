/-
# Closing a session

Closing unloads what the models have loaded that the session remembers, and then the session has
forgotten them. What it remembers are the models that it forged since it was last closed, less
some that the program has dropped: nothing that is forged, fetched, put or saved in between makes
it forget another one. So right after a session was closed, none of these models has a parent or a
collection loaded, and nothing else has changed.

A model stays usable after its session was closed. What such a model loads then is not unloaded
when the session is closed again.
-/
import RecordGraph.Proofs.Upholding.Histories

namespace RecordGraph

variable {σ : Type} {g g' : Graph σ} {s : Session}

/-- What is left of a model that has nothing loaded any more. -/
def ModelData.unloaded (d : ModelData) : ModelData :=
  { d with parents := OrderedMap.empty, children := OrderedMap.empty }

namespace Graph

/-! ## One close -/

/-- Some models have nothing loaded any more, and nothing else is different. -/
structure Unloads (ms : List Model) (g g' : Graph σ) : Prop where
  models : ∀ m, g'.model m = if m ∈ ms then (g.model m).unloaded else g.model m
  made : ∀ m, g'.HasModel m ↔ g.HasModel m
  sessions : g'.sessions = g.sessions
  collections : g'.collections = g.collections
  store : g'.store = g.store

/-- Unloading models one after the other unloads them all. -/
theorem Unloads.exists_returns {ms : List Model} (hms : ∀ m ∈ ms, g.HasModel m) :
    ∃ g', Returns (ms.forM fun m => m.update ModelData.unloaded) g () g' ∧ g.Unloads ms g' := by
  induction ms generalizing g with
  | nil => exact ⟨g, rfl, fun _ => rfl, fun _ => Iff.rfl, rfl, rfl, rfl⟩
  | cons m rest ih =>
      have hm := hms m List.mem_cons_self
      have hmade := hasModel_setModel (d := (g.model m).unloaded) hm
      obtain ⟨g', hrun, hrest⟩ := ih (g := g.setModel m (g.model m).unloaded)
        fun n hn => (hmade n).mpr (hms n (List.mem_cons_of_mem m hn))
      refine ⟨g', returns_bind.mpr ⟨(), _, Model.returns_update.mpr rfl, hrun⟩, fun n => ?_,
        fun n => (hrest.made n).trans (hmade n), hrest.sessions, hrest.collections, hrest.store⟩
      rw [hrest.models, model_setModel]
      by_cases hfirst : m = n
      · subst hfirst
        simp [ModelData.unloaded]
      · simp [hfirst, Ne.symm hfirst]

/-- The graph once the session has forgotten its models. -/
def forgotten (g : Graph σ) (s : Session) : Graph σ :=
  g.setSession s { g.session s with forged := [] }

/-- A session can always be closed. -/
theorem WellFormed.exists_returns_close (hg : g.WellFormed) (s : Session) :
    ∃ g', Returns s.close g () g' ∧ (g.forgotten s).Unloads (g.session s).forged g' := by
  obtain ⟨g', hrun, hunloads⟩ := Unloads.exists_returns (g := g.forgotten s) (hg.forged s)
  exact ⟨g', hrun, hunloads⟩

/-- A session that was closed has forgotten its models. -/
theorem Closes.forged {α : Type} {x : Action σ α} (h : Closes s x) (hg : g.WellFormed) :
    ((x g).2.session s).forged = [] := by
  cases h
  obtain ⟨g', hrun, hunloads⟩ := hg.exists_returns_close s
  have hrun : s.close g = (.ok (), g') := hrun
  rw [hrun, session, hunloads.sessions]
  exact congrArg SessionData.forged
    ((session_setSession g s s { g.session s with forged := [] }).trans (if_pos rfl))

/-! ## What a session remembers -/

/-- The session remembers the models that it forged since there were `before` models, except for
some that were dropped. -/
structure Covers (g : Graph σ) (s : Session) (before : Nat) (dropped : Model → Prop) : Prop where
  past : before ≤ g.models.size
  known : ∀ m ∈ (g.session s).forged,
    g.HasModel m ∧ (g.model m).session = s ∧ before ≤ m.number
  since : ∀ m, g.HasModel m → (g.model m).session = s → before ≤ m.number → ¬ dropped m →
    m ∈ (g.session s).forged

namespace Covers

variable {before : Nat} {dropped dropped' : Model → Prop}

theorem new (store : σ) (registry : Registry) (s : Session) (dropped : Model → Prop) :
    (Graph.new store registry).Covers s 0 dropped where
  past := Nat.zero_le _
  known m hm := by
    have hnothing : ((Graph.new store registry).session s).forged = [] := by
      rw [Graph.session, Graph.new, Cells.get, Cells.empty, Array.getElem?_empty]
      rfl
    rw [hnothing] at hm
    cases hm
  since m hm := absurd hm (Nat.not_lt_zero _)

/-- A model that was made since has a number that was not given out before. -/
theorem remembers (h : g.Covers s before dropped) (hremembers : g.Remembers s g')
    (hgrows : g.Grows g') : g'.Covers s before dropped where
  past := by
    refine Nat.le_trans h.past (Nat.le_of_not_lt fun hless => ?_)
    exact Nat.lt_irrefl _ (hgrows.model ⟨g'.models.size⟩ hless)
  known m hm := by
    rcases (hremembers.forged m).mp hm with hold | ⟨hnew, hmade, hsession⟩
    · obtain ⟨hmade, hsession, hlater⟩ := h.known m hold
      exact ⟨hgrows.model m hmade, (hremembers.session m hmade).trans hsession, hlater⟩
    · exact ⟨hmade, hsession, Nat.le_trans h.past (Nat.le_of_not_lt hnew)⟩
  since m hm hsession hlater hdropped := by
    refine (hremembers.forged m).mpr ?_
    by_cases hmade : g.HasModel m
    · exact .inl (h.since m hmade ((hremembers.session m hmade).symm.trans hsession) hlater
        hdropped)
    · exact .inr ⟨hmade, hm, hsession⟩

/-- After closing, all models were made before. -/
theorem closed (hmade : ∀ m, g'.HasModel m ↔ g.HasModel m)
    (hforged : (g'.session s).forged = []) : g'.Covers s g.models.size dropped where
  past := Nat.le_of_not_lt fun hless => Nat.lt_irrefl _ ((hmade ⟨g'.models.size⟩).mpr hless)
  known m hm := by
    rw [hforged] at hm
    cases hm
  since m hm _ hlater := absurd ((hmade m).mp hm) (Nat.not_lt_of_le hlater)

end Covers

/-- The graph once the session has forgotten the models that do not pass the test. -/
def pruned (g : Graph σ) (s : Session) (keep : Model → Bool) : Graph σ :=
  g.setSession s { g.session s with forged := (g.session s).forged.filter keep }

/-- Forgetting models that were dropped makes no difference. -/
theorem Covers.pruned {before : Nat} {dropped dropped' : Model → Prop}
    (h : g.Covers s before dropped) (hmore : ∀ m, dropped m → dropped' m) {keep : Model → Bool}
    (hkeep : ∀ m, keep m = false → dropped' m) : (g.pruned s keep).Covers s before dropped' := by
  have hforged : ((g.pruned s keep).session s).forged = (g.session s).forged.filter keep := by
    rw [Graph.pruned, session_setSession, if_pos rfl]
  refine ⟨h.past, fun m hm => ?_, fun m hm hsession hlater hdropped => ?_⟩
  · rw [hforged] at hm
    exact h.known m (List.mem_filter.mp hm).1
  · rw [hforged]
    refine List.mem_filter.mpr ⟨h.since m hm hsession hlater fun hold => hdropped (hmore m hold),
      ?_⟩
    exact Bool.of_not_eq_false fun hfalse => hdropped (hkeep m hfalse)

end Graph

/-! ## Runs of a session -/

open RecordGraph.Graph

/-- The graphs that calls lead to, with two things noted: how many models there were when the
session was last closed, and which models the program has dropped. Dropped models the session may
forget at any time. -/
inductive Session.Runs [RecordStore σ] (Kept : σ → Prop) (s : Session) :
    Nat → (Model → Prop) → Graph σ → Prop where
  | new {store : σ} {registry : Registry} (hstore : Kept store)
      (hregistry : registry.WellFormed) :
      Runs Kept s 0 (fun _ => False) (Graph.new store registry)
  | call {before : Nat} {dropped : Model → Prop} {g : Graph σ} {α : Type} {x : Action σ α}
      (h : Runs Kept s before dropped g) (hx : g.Offers x) (hopen : ¬ Closes s x) :
      Runs Kept s before dropped (x g).2
  | close {before : Nat} {dropped : Model → Prop} {g : Graph σ}
      (h : Runs Kept s before dropped g) : Runs Kept s g.models.size dropped (s.close g).2
  | store {before : Nat} {dropped : Model → Prop} {g : Graph σ} {store : σ}
      (h : Runs Kept s before dropped g) (hstore : Kept store) :
      Runs Kept s before dropped { g with store := store }
  | drop {before : Nat} {dropped dropped' : Model → Prop} {g : Graph σ}
      (h : Runs Kept s before dropped g) (hmore : ∀ m, dropped m → dropped' m)
      {keep : Model → Bool} (hkeep : ∀ m, keep m = false → dropped' m) :
      Runs Kept s before dropped' (g.pruned s keep)

namespace Session.Runs

variable [RecordStore σ] {Kept : σ → Prop} {before : Nat} {dropped : Model → Prop}

theorem sound (hkept : RecordStore.Keeps Kept) (h : s.Runs Kept before dropped g) :
    g.Sound Kept := by
  induction h with
  | new hstore hregistry => exact ⟨.new hregistry, hstore⟩
  | call _ hx _ ih => exact (hx.proceeds hkept ih).sound
  | close _ ih => exact (proceeds_close ih).1.sound
  | store _ hstore ih => exact ⟨(ih.wellFormed.withStore _).1, hstore⟩
  | drop _ _ _ ih =>
      exact ⟨(ih.wellFormed.setSession s fun m hm =>
        ih.wellFormed.forged s m (List.mem_filter.mp hm).1).1, ih.store⟩

/-- In every run the session remembers what it forged since it was last closed. -/
theorem covers (hkept : RecordStore.Keeps Kept) (h : s.Runs Kept before dropped g) :
    g.Covers s before dropped := by
  induction h with
  | new _ _ => exact .new _ _ s _
  | call hbefore hx hopen ih =>
      have hg := hbefore.sound hkept
      exact ih.remembers (hx.remembers hkept hg hopen) (hx.proceeds hkept hg).grows
  | @close before dropped g hbefore ih =>
      have hg := (hbefore.sound hkept).wellFormed
      have hforged := Closes.forged (.intro : Closes s s.close) hg
      obtain ⟨g', hrun, hunloads⟩ := hg.exists_returns_close s
      have hrun : s.close g = (.ok (), g') := hrun
      rw [hrun] at hforged ⊢
      exact .closed hunloads.made hforged
  | store _ _ ih => exact ⟨ih.past, ih.known, ih.since⟩
  | drop _ hmore hkeep ih => exact ih.pruned hmore hkeep

end Session.Runs

/-- Whatever was forged, fetched, put and saved, however often and whenever the session was closed
and whichever models were dropped: the session can be closed, and then each of the models that it
forged since it was last closed, unless it was dropped, has no parent and no collection loaded and
is as it was otherwise. Models of other sessions, collections and the store are as before, and so
is a model that was forged before the session was last closed, with all that it has loaded. -/
theorem close_unloads [RecordStore σ] {Kept : σ → Prop} (hkept : RecordStore.Keeps Kept)
    {before : Nat} {dropped : Model → Prop} (h : s.Runs Kept before dropped g) :
    ∃ g', Returns s.close g () g' ∧
      (∀ m, g.HasModel m → (g.model m).session = s → before ≤ m.number → ¬ dropped m →
        g'.model m = (g.model m).unloaded) ∧
      (∀ m, (g.model m).session ≠ s ∨ m.number < before → g'.model m = g.model m) ∧
      g'.collections = g.collections ∧ g'.store = g.store := by
  have hcovers := h.covers hkept
  obtain ⟨g', hrun, hunloads⟩ := (h.sound hkept).wellFormed.exists_returns_close s
  refine ⟨g', hrun, fun m hm hsession hlater hdropped => ?_, fun m hother => ?_,
    hunloads.collections, hunloads.store⟩
  · rw [hunloads.models, if_pos (hcovers.since m hm hsession hlater hdropped)]
    rfl
  · rw [hunloads.models, if_neg fun hforged => ?_]
    · rfl
    · obtain ⟨-, hsession, hlater⟩ := hcovers.known m hforged
      rcases hother with hsession' | hearlier
      · exact hsession' hsession
      · exact Nat.not_lt_of_le hlater hearlier

namespace Library

/-- A call does not close the session if it lets it remember a model. -/
theorem not_closes {α : Type} {x : Action MemoryStore α}
    (h : ((x authors).2.session session).forged ≠ []) : ¬ Closes session x :=
  fun hcloses => h (hcloses.forged (reachable_authors.sound MemoryStore.keeps_filed).wellFormed)

/-- The session was opened, and both authors forged. -/
def paired : Graph MemoryStore :=
  let g := (Model.forgeById session "author" "ann" (opened [author, article])).2
  (Model.forgeById session "author" "bob" g).2

theorem runs_paired : session.Runs MemoryStore.Filed 0 (fun _ => False) paired := by
  have htypes : ∀ t ∈ [author, article], t.WellFormed := by
    simp [wellFormed_author, wellFormed_article]
  have hopened : session.Runs MemoryStore.Filed 0 (fun _ => False) (opened [author, article]) :=
    .call (.new filed_store (wellFormed_registry htypes)) (.start _)
      (not_closes (by decide +kernel))
  exact .call (.call hopened (.forgeById _ _ _) (not_closes (by decide +kernel)))
    (.forgeById _ _ _) (not_closes (by decide +kernel))

/-- The articles of the first author were fetched. -/
def browsed (g : Graph MemoryStore) : Graph MemoryStore :=
  (Related.fetch (.model ⟨0⟩) ["articles"] none g).2

theorem runs_browsed {before : Nat} {g : Graph MemoryStore}
    (h : session.Runs MemoryStore.Filed before (fun _ => False) g) (hm : g.HasModel ⟨0⟩) :
    session.Runs MemoryStore.Filed before (fun _ => False) (browsed g) :=
  .call h (.fetch (r := .model ⟨0⟩) hm _ _) (not_closes (by decide +kernel))

/-- The first author has her article loaded, and the article its author, until the session is
closed. The other author was dropped, and is forgotten. -/
theorem browsed_unloads : ∃ g', Returns session.close
      ((browsed paired).pruned session fun m => m.number != 1) () g' ∧
    ((browsed paired).model ⟨0⟩).children.get? "articles" = some ⟨0⟩ ∧
    ((browsed paired).model ⟨2⟩).parents.get? "author" = some ⟨0⟩ ∧
    (g'.model ⟨0⟩).children = OrderedMap.empty ∧ (g'.model ⟨2⟩).parents = OrderedMap.empty := by
  have hruns : session.Runs MemoryStore.Filed 0 (fun m => m.number = 1)
      ((browsed paired).pruned session fun m => m.number != 1) :=
    .drop (runs_browsed runs_paired (by decide +kernel)) (fun _ hnever => hnever.elim) (by simp)
  obtain ⟨g', hreturns, hunloads, -⟩ := close_unloads MemoryStore.keeps_filed hruns
  refine ⟨g', hreturns, by decide +kernel, by decide +kernel, ?_, ?_⟩
  · rw [hunloads ⟨0⟩ (by decide +kernel) (by decide +kernel) (Nat.zero_le _) (by decide)]
    rfl
  · rw [hunloads ⟨2⟩ (by decide +kernel) (by decide +kernel) (Nat.zero_le _) (by decide)]
    rfl

/-- The authors were forged before the session was closed, and the articles of the first one
fetched after that. -/
def reopened : Graph MemoryStore := browsed (session.close paired).2

/-- Closing once more leaves the author with her articles loaded. -/
theorem reopened_stays_loaded :
    session.Runs MemoryStore.Filed 2 (fun _ => False) reopened ∧ reopened.HasModel ⟨0⟩ ∧
      (reopened.model ⟨0⟩).session = session ∧
      Returns session.close reopened () (session.close reopened).2 ∧
      ((session.close reopened).2.model ⟨0⟩).children.get? "articles" = some ⟨0⟩ :=
  ⟨runs_browsed (.close runs_paired) (by decide +kernel), by decide +kernel, by decide +kernel,
    returns_of_isOk (by decide +kernel) (), by decide +kernel⟩

end Library

end RecordGraph
