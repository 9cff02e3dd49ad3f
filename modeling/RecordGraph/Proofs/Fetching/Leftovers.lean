/-
# What a failed fetch leaves

A fetch of one relationship first loads it and then reads it. Reading may fail as well, and puts
empty collections where none is loaded. So wherever the fetch stops, no more is lost than what the
members had loaded under the name, and of that nothing unsaved.

What is lost is the rest. A member that was removed from a collection and should be deleted by the
next save is forgotten with the snapshot, as the collection made in place of the old one has
another.
-/
import RecordGraph.Proofs.Fetching.Failing

namespace RecordGraph

variable {σ : Type} {old g g' : Graph σ} {name : String} {touched shed : List Model}

namespace Graph

/-- The collection is made and not loaded anywhere. -/
structure Loose (g : Graph σ) (c : Collection) : Prop where
  made : g.HasCollection c
  unheld : g.Unheld c

namespace Loose

variable {c e : Collection}

theorem setCollection (h : g.Loose c) (d : CollectionData) : (g.setCollection e d).Loose c :=
  ⟨Nat.lt_of_lt_of_le h.made (Cells.size_le_size_set _ _ _), h.unheld⟩

theorem addCollection (h : g.Loose c) (d : CollectionData) : (g.addCollection d).Loose c :=
  ⟨Nat.lt_of_lt_of_le h.made (by simp [Graph.addCollection]), h.unheld⟩

/-- A model loads another collection. -/
theorem setModel (h : g.Loose c) (hother : e ≠ c) {m : Model} {d : ModelData}
    (hd : d.children = (g.model m).children.insert name e) : (g.setModel m d).Loose c := by
  refine ⟨h.made, fun x n hc => ?_⟩
  rw [model_setModel] at hc
  split at hc
  · rw [hd, OrderedMap.get?_insert] at hc
    split at hc
    · exact hother (Option.some.inj hc)
    · exact h.unheld m n hc
  · exact h.unheld x n hc

end Loose

end Graph

/-! ## Reading -/

namespace Model

variable {m : Model} {r : Resolved}

/-- A member loads an empty collection only where it had none. -/
theorem ends_childrenOr (hold : old.WellFormed) (h : old.Disturbed name touched shed g)
    (hm : old.HasModel m) (htouched : m ∈ touched)
    (hresolve : old.registry.resolve (old.model m).modelType.name name = .ok r)
    (hmany : r.holdsSingle = false) :
    Ends (m.childrenOr name r) g (old.Disturbed name touched shed) fun _ g' =>
      old.Disturbed name touched shed g' ∧ ∀ c, g.Loose c → g'.Loose c := by
  refine Ends.of_atomic (atomic_childrenOr r) h fun e g' hchildren => ?_
  rcases returns_childrenOr hchildren with ⟨-, rfl⟩ | ⟨hnone, rfl, membership, rfl⟩
  · exact ⟨h, fun _ hc => hc⟩
  have hsame : g.model m = old.model m := by
    refine (h.member m hm).resolve_right fun hsheds => ?_
    obtain ⟨e, he, -⟩ := (hsheds.children hresolve hmany).collection
    rw [hnone] at he
    cases he
  have hunsaved : ∀ x, x ∈ ([] : List Model) ↔ x ∈ old.unsavedChildren m name := by
    rw [Graph.unsavedChildren, ← hsame, hnone]
    exact fun _ => Iff.rfl
  have hrefills := Graph.Refills.of_unsaved (g := g) hold hm hunsaved
    (fun x hx => by rw [h.spares.model x hx]) (g.model m).session membership
  exact ⟨(h.setNext hm htouched hresolve hmany hrefills).forgetLast,
    fun c hc => (hc.addCollection _).setModel hc.made.ne_nextCollection.symm rfl⟩

theorem ends_read (hold : old.WellFormed) (h : old.Disturbed name touched shed g)
    (hm : old.HasModel m) (htouched : m ∈ touched) :
    Ends (m.read name) g (old.Disturbed name touched shed) fun _ g' =>
      old.Disturbed name touched shed g' ∧ ∀ c, g.Loose c → g'.Loose c := by
  refine (ends_resolve.lose fun t ht => ht ▸ h).bind fun r t ⟨ht, hr⟩ => ?_
  subst ht
  split
  · refine Ends.bind_of_reads rfl ?_
    split
    · exact Ends.pure ⟨h, fun _ hc => hc⟩
    · exact Ends.pure ⟨h, fun _ hc => hc⟩
  · rename_i hmany
    have hresolve : old.registry.resolve (old.model m).modelType.name name = .ok r := by
      rw [← h.spares.registry, ← hr, h.spares.model m hm]
    exact (ends_childrenOr hold h hm htouched hresolve (by simpa using hmany)).bind
      fun _ _ hread => Ends.pure hread

end Model

namespace Collection

variable {c result : Collection}

theorem ends_emptyFor (h : old.Disturbed name touched shed g) :
    Ends (c.emptyFor name) g (old.Disturbed name touched shed) fun e g' =>
      old.Disturbed name touched shed g' ∧ ¬ old.HasCollection e ∧ g'.Loose e := by
  have hmade : ∀ d, old.Disturbed name touched shed (g.addCollection d) ∧
      ¬ old.HasCollection g.nextCollection ∧ (g.addCollection d).Loose g.nextCollection :=
    fun d => ⟨h.addCollection d, h.spares.not_hasCollection_next,
      g.hasCollection_nextCollection d, h.lodged.unheld_next d⟩
  refine Ends.bind_of_reads rfl <| Ends.bind_of_reads rfl ?_
  simp only
  split
  · refine Ends.bind_ofExcept h fun r _ =>
      Ends.of_atomic (atomic_forRelationship _ r) h fun e g' hmake => ?_
    obtain ⟨rfl, membership, rfl⟩ := returns_forRelationship hmake
    exact hmade _
  · exact Ends.of_run rfl (hmade _)

/-- A collection that is not loaded anywhere takes what it is merged with. -/
theorem ends_merge (h : old.Disturbed name touched shed g) (hnew : ¬ old.HasCollection result)
    (hloose : g.Loose result) (r : Related) :
    Ends (result.merge r) g (old.Disturbed name touched shed) fun _ g' =>
      old.Disturbed name touched shed g' ∧ g'.Loose result := by
  have hwrite : ∀ {g : Graph σ}, old.Disturbed name touched shed g → g.Loose result → ∀ d,
      old.Disturbed name touched shed (g.setCollection result d) ∧
        (g.setCollection result d).Loose result := fun h hloose d =>
    ⟨h.setCollection hnew fun m _ hc => absurd hc (hloose.unheld m name), hloose.setCollection d⟩
  cases r with
  | none => exact Ends.pure ⟨h, hloose⟩
  | model m =>
      refine Ends.of_atomic atomic_putFetched h fun _ g' hput => ?_
      obtain ⟨membership, rfl⟩ := returns_putFetched hput
      exact hwrite h hloose _
  | collection other =>
      refine Ends.bind_of_reads rfl ?_
      refine (Ends.forM (fun _ t => old.Disturbed name touched shed t ∧ t.Loose result)
        ⟨h, hloose⟩ ?_).bind fun _ t ht => Ends.bind_of_reads rfl <|
          Ends.forM (fun _ t => old.Disturbed name touched shed t ∧ t.Loose result) ht ?_
      · rintro done m rest t - ⟨ht, hfree⟩
        refine Ends.of_atomic atomic_put ht fun _ t' hput => ?_
        obtain ⟨membership, rfl⟩ := returns_put hput
        exact hwrite ht hfree _
      · rintro done m rest t - ⟨ht, hfree⟩
        refine Ends.of_atomic atomic_putSnapshot ht fun _ t' hput => ?_
        obtain ⟨membership, rfl⟩ := returns_putSnapshot hput
        exact hwrite ht hfree _

/-- Reading for all members loads empty collections at most. -/
theorem ends_read (hold : old.WellFormed) (hc : old.HasCollection c)
    (h : old.Disturbed name (old.collection c).members.values shed g) :
    Ends (c.read name) g (old.Disturbed name (old.collection c).members.values shed)
      fun _ g' => old.Disturbed name (old.collection c).members.values shed g' := by
  refine Ends.bind_of_reads rfl ?_
  refine (ends_emptyFor h).bind fun result t ⟨ht, hnew, hloose⟩ => ?_
  rw [h.spares.collection c hc]
  refine (Ends.forM (fun _ t => old.Disturbed name (old.collection c).members.values shed t ∧
    t.Loose result) ⟨ht, hloose⟩ ?_).bind fun _ _ hlast => Ends.pure hlast.1
  rintro done m rest u hsplit ⟨hu, hfree⟩
  have hm : m ∈ (old.collection c).members.values := by simp [hsplit]
  refine Ends.bind_of_reads (x := (u.model m).modelType.hasRelationship name) rfl ?_
  split
  · exact Ends.pure ⟨hu, hfree⟩
  · exact (Model.ends_read hold hu (hold.member hc hm) hm).bind
      fun r v ⟨hv, hstill⟩ => ends_merge hv hnew (hstill result hfree) r

end Collection

/-! ## Fetching -/

/-- The models that a fetch loads a relationship for. -/
def Graph.membersOf (g : Graph σ) : Related → List Model
  | .none => []
  | .model m => [m]
  | .collection c => (g.collection c).members.values

theorem Graph.WellFormed.hasModel_of_mem_membersOf (hg : g.WellFormed) {r : Related}
    (hr : g.HasRelated r) : ∀ m ∈ g.membersOf r, g.HasModel m := by
  cases r with
  | none => simp [Graph.membersOf]
  | model m => exact fun x hx => List.mem_singleton.mp hx ▸ hr
  | collection c => exact fun m hm => hg.member hr hm

/-- The session of a model or a collection. -/
def Graph.sessionOf (g : Graph σ) : Related → Session
  | .none => default
  | .model m => (g.model m).session
  | .collection c => (g.collection c).session

section Fetching

variable [RecordStore σ] {r : Related} {callers : Option Query}

/-- A path of one step has no steps before the last one. -/
theorem Related.fetch_singleton : (r.fetch [name] callers : Action σ Related) =
    r.fetchStep name callers :=
  pure_bind r fun r => r.fetchStep name callers

/-- A fetch of one relationship loads it for the models and then reads it. -/
theorem Related.returns_fetchStep {answer : Related} :
    Returns (r.fetchStep name callers) g answer g' ↔ ∃ t,
      Returns (fetchRelationship (g.sessionOf r) (g.membersOf r) name callers) g () t ∧
        Returns (r.read name) t answer g' := by
  cases r with
  | none =>
      have hnobody : Returns (fetchRelationship (g.sessionOf .none) [] name callers) g () g := rfl
      refine ⟨fun h => ⟨g, hnobody, h⟩, fun ⟨t, hload, hread⟩ => ?_⟩
      obtain ⟨-, rfl⟩ := hnobody.unique hload
      exact hread
  | model m =>
      refine ⟨fun h => ?_, fun ⟨t, hload, hread⟩ => ?_⟩
      · obtain ⟨d, _, hdata, h⟩ := returns_bind.mp h
        obtain ⟨rfl, rfl⟩ := Model.returns_data.mp hdata
        obtain ⟨_, t, hload, hread⟩ := returns_bind.mp h
        exact ⟨t, hload, hread⟩
      · refine returns_bind.mpr ⟨_, g, Model.returns_data.mpr ⟨rfl, rfl⟩, ?_⟩
        exact returns_bind.mpr ⟨(), t, hload, hread⟩
  | collection c =>
      refine ⟨fun h => ?_, fun ⟨t, hload, hread⟩ => ?_⟩
      · obtain ⟨d, _, hdata, h⟩ := returns_bind.mp h
        obtain ⟨rfl, rfl⟩ := Collection.returns_data.mp hdata
        obtain ⟨_, t, hload, hread⟩ := returns_bind.mp h
        exact ⟨t, hload, hread⟩
      · refine returns_bind.mpr ⟨_, g, Collection.returns_data.mpr ⟨rfl, rfl⟩, ?_⟩
        exact returns_bind.mpr ⟨(), t, hload, hread⟩

/-- Wherever a fetch of one relationship stops, or if it answers, only what the members had loaded
under the name is lost. -/
theorem Related.ends_fetchStep (callers : Option Query) (hg : g.WellFormed) (hr : g.HasRelated r) :
    Ends (r.fetchStep name callers) g (g.Disturbed name (g.membersOf r) [])
      fun _ g' => g.Disturbed name (g.membersOf r) [] g' := by
  have hknown := hg.hasModel_of_mem_membersOf hr
  cases r with
  | none => exact Ends.pure (.refl hg name)
  | model m =>
      refine Ends.bind_of_reads rfl <| (ends_fetchRelationship hg hknown).bind fun _ t ht => ?_
      exact (Model.ends_read hg ht hr (by simp [Graph.membersOf])).weaken fun _ _ hread => hread.1
  | collection c =>
      refine Ends.bind_of_reads rfl <| (ends_fetchRelationship hg hknown).bind fun _ t ht => ?_
      exact (Collection.ends_read hg hr ht).bind fun _ _ hread => Ends.pure hread

/-- A fetch of one relationship that fails may leave the members without what they had loaded
under its name. Nothing else is lost, whatever the point where it failed: no collection is
written to, and a member that lost something has its unsaved models loaded as before. -/
theorem failed_fetch_sheds {e : Error} (hg : g.WellFormed) (hr : g.HasRelated r)
    (hfail : r.fetch [name] callers g = (.error e, g')) :
    (∀ c, g.HasCollection c → g'.collection c = g.collection c) ∧
      (∀ m, g.HasModel m → m ∉ g.membersOf r → g'.model m = g.model m) ∧
      ∀ m ∈ g.membersOf r, g'.model m = g.model m ∨ g.Sheds name g' m := by
  have hleft := (Related.ends_fetchStep callers hg hr).fails e g' hfail
  exact ⟨hleft.spares.collection, hleft.spares.others,
    fun m hm => hleft.member m (hg.hasModel_of_mem_membersOf hr m hm)⟩

end Fetching

namespace Library

/-- The graph after the articles of the first author were fetched. -/
def displayed : Graph MemoryStore := (Related.fetch (.model ⟨0⟩) ["articles"] none authors).2

theorem reachable_displayed : Graph.Reachable MemoryStore.Filed displayed :=
  have hmade : authors.HasRelated (.model ⟨0⟩) :=
    show authors.HasModel ⟨0⟩ from by decide +kernel
  .call reachable_authors (.fetch hmade _ _)

/-- The graph after the stored article was removed, to be deleted by the next save. -/
def pruned : Graph MemoryStore := (Collection.remove ⟨1⟩ "cells" displayed).2

theorem reachable_pruned : Graph.Reachable MemoryStore.Filed pruned :=
  .call reachable_displayed (.remove (by decide +kernel) _)

/-- A query that asks for an access policy that was not registered. -/
def unlicensed : Query := (Query.new "node").withAccessPolicy "missing"

/-- The graph after the articles were to be fetched with the query. -/
def refused : Graph MemoryStore :=
  (Related.fetch (.model ⟨0⟩) ["articles"] (some unlicensed) pruned).2

theorem fetch_refused : Related.fetch (.model ⟨0⟩) ["articles"] (some unlicensed) pruned =
    (.error (.configuration (.unknownPolicy "missing")), refused) := by
  refine Prod.ext ?_ rfl
  decide +kernel

/-- The author that the fetch was for has another collection, with the unsaved article in it. The
other author has what it had. -/
theorem refused_sheds : Graph.Reachable MemoryStore.Filed pruned ∧
    Related.fetch (.model ⟨0⟩) ["articles"] (some unlicensed) pruned =
      (.error (.configuration (.unknownPolicy "missing")), refused) ∧
    pruned.Sheds "articles" refused ⟨0⟩ ∧ refused.model ⟨1⟩ = pruned.model ⟨1⟩ := by
  have hmade : pruned.HasRelated (.model ⟨0⟩) :=
    show pruned.HasModel ⟨0⟩ from by decide +kernel
  obtain ⟨-, hothers, hmembers⟩ := failed_fetch_sheds
    (reachable_pruned.sound MemoryStore.keeps_filed).wellFormed hmade fetch_refused
  refine ⟨reachable_pruned, fetch_refused, (hmembers ⟨0⟩ (by simp [Graph.membersOf])).resolve_left
    fun hsame => ?_, hothers ⟨1⟩ (by decide +kernel) (by simp [Graph.membersOf])⟩
  have hchildren : (refused.model ⟨0⟩).children.get? "articles" ≠
      (pruned.model ⟨0⟩).children.get? "articles" := by decide +kernel
  exact hchildren (by rw [hsame])

/-- The article that was removed was to be deleted by the next save, and after the failed fetch it
is not: the author has another collection, whose snapshot is empty. -/
theorem refused_forgets : Graph.Reachable MemoryStore.Filed pruned ∧
    Related.fetch (.model ⟨0⟩) ["articles"] (some unlicensed) pruned =
      (.error (.configuration (.unknownPolicy "missing")), refused) ∧
    pruned.HasModel ⟨0⟩ ∧
    (pruned.model ⟨0⟩).children.get? "articles" = some ⟨1⟩ ∧
    (pruned.collection ⟨1⟩).snapshot.entries = [("cells", ⟨3⟩)] ∧
    (Collection.modelsToDelete ⟨1⟩ pruned).1.toOption = some [⟨3⟩] ∧
    (refused.model ⟨0⟩).children.get? "articles" = some ⟨2⟩ ∧
    (refused.collection ⟨2⟩).snapshot.entries = [] ∧
    (Collection.modelsToDelete ⟨2⟩ refused).1.toOption = some [] := by
  refine ⟨reachable_pruned, fetch_refused, ?_⟩
  decide +kernel

end Library

end RecordGraph
