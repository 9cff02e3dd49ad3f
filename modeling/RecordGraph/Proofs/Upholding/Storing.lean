/-
# Saving and deleting uphold what graphs promise, and so does every history

A graph is reachable if it comes from one without objects by calls of this library, in any
order and whether they answer or fail, with the store changing under it in between. By the
lemmas on the calls every reachable graph is well formed, over a store of which all that the
calls keep is true.
-/
import RecordGraph.Graph.Saving
import RecordGraph.Graph.Validating
import RecordGraph.Proofs.MemoryStores
import RecordGraph.Proofs.Upholding.Fetching

namespace RecordGraph

variable {σ : Type} [RecordStore σ] {Kept : σ → Prop} {g : Graph σ}

/-! ## Bringing foreign keys in line -/

namespace Model

variable {m owner : Model} {name : String}

theorem upholds_storedId (hg : g.Sound Kept) (relationship : String) :
    Upholds Kept (m.storedId relationship) g fun _ _ => True := by
  refine Upholds.bind_of_reads rfl ?_
  split
  · exact Upholds.pure hg trivial
  · exact Upholds.bind_of_reads rfl (Upholds.throw hg)

theorem upholds_ids (hg : g.Sound Kept) (ms : List Model) :
    Upholds Kept (ms.mapM Model.id?) g fun _ _ => True :=
  (Upholds.mapM (q := fun _ _ => True) hg (fun _ _ _ _ _ => trivial)
    fun _ _ _ hg' _ => Upholds.of_reads hg' rfl fun _ _ => trivial).weaken
      fun _ _ _ _ => trivial

theorem upholds_collectionIds (hg : g.Sound Kept) (c : Collection) :
    Upholds Kept c.ids g fun _ _ => True :=
  Upholds.bind_of_reads rfl ((upholds_ids hg _).bind fun _ _ hg' _ _ => Upholds.pure hg' trivial)

theorem upholds_syncParent (hg : g.Sound Kept) (hm : g.HasModel m) (r : Resolved) :
    Upholds Kept (m.syncParent r name) g fun _ _ => True := by
  refine Upholds.bind_of_reads rfl ?_
  split
  · exact Upholds.pure hg trivial
  · exact (upholds_storedId hg name).bind fun _ _ hg' hgrows _ =>
      upholds_setReferenceIds hg' (hgrows.model m hm) _ _

theorem upholds_syncParents (hg : g.Sound Kept) (hm : g.HasModel m) (r : Resolved) :
    Upholds Kept (m.syncParents r name) g fun _ _ => True := by
  refine Upholds.bind_of_reads rfl ?_
  split
  · exact Upholds.pure hg trivial
  · refine Upholds.bind_of_reads rfl ?_
    refine (Upholds.forM hg fun member _ g' hg' _ => ?_).bind fun _ g₁ hg₁ hgrows₁ _ => ?_
    · exact (upholds_storedId hg' name).bind fun _ _ hg'' _ _ => Upholds.pure hg'' trivial
    · refine Upholds.bind_of_reads rfl ?_
      refine (upholds_ids hg₁ _).bind fun gone g₂ hg₂ hgrows₂ _ => ?_
      refine (upholds_parentIds hg₂).bind fun kept g₃ hg₃ hgrows₃ _ => ?_
      refine (upholds_collectionIds hg₃ _).bind fun ids g₄ hg₄ hgrows₄ _ => ?_
      have hgrown := hgrows₁.trans (hgrows₂.trans (hgrows₃.trans hgrows₄))
      exact upholds_setReferenceIds hg₄ (hgrown.model m hm) _ _

theorem upholds_syncForeignKey (hg : g.Sound Kept) (hm : g.HasModel m) (name : String) :
    Upholds Kept (m.syncForeignKey name) g fun _ _ => True := by
  refine (upholds_resolve hg).bind fun r g' hg' hgrows _ => ?_
  split
  · exact upholds_syncParent hg' (hgrows.model m hm) r
  · exact upholds_syncParents hg' (hgrows.model m hm) r

theorem upholds_syncForeignKeys (hg : g.Sound Kept) (hm : g.HasModel m) :
    Upholds Kept m.syncForeignKeys g fun _ _ => True := by
  refine Upholds.bind_of_reads rfl ?_
  have hsingle := Upholds.forM (f := m.syncForeignKey) (l := (g.model m).parents.keys) hg
    fun name _ g' hg' hgrows => upholds_syncForeignKey hg' (hgrows.model m hm) name
  refine hsingle.bind fun _ g₁ hg₁ hgrows₁ _ => Upholds.bind_of_reads rfl ?_
  refine Upholds.forM hg₁ fun name _ g₂ hg₂ hgrows₂ => ?_
  refine (upholds_resolve hg₂).bind fun r g₃ hg₃ hgrows₃ _ => ?_
  split
  · exact upholds_syncForeignKey hg₃ (hgrows₃.model m (hgrows₂.model m (hgrows₁.model m hm))) name
  · exact Upholds.pure hg₃ trivial

theorem upholds_unlink (hg : g.Sound Kept) (hm : g.HasModel m) :
    Upholds Kept (m.unlink name owner) g fun _ _ => True := by
  unfold unlink
  refine Upholds.bind_of_reads rfl ?_
  extract_lets fromCollection
  have hrest : ∀ g', g'.Sound Kept → g.Grows g' →
      Upholds Kept (fromCollection ⟨⟩) g' fun _ _ => True := by
    intro g' hg' hgrows
    refine Upholds.bind_of_reads rfl ?_
    cases hcached : (g'.model m).children.get? name with
    | none => exact Upholds.pure hg' trivial
    | some c =>
        have hc := hg'.wellFormed.children m name c (hgrows.model m hm) hcached
        exact (Collection.upholds_removeModel hg' hc owner).bind
          fun _ _ hg'' _ _ => Upholds.pure hg'' trivial
  split
  · exact (upholds_removeParent hg hm).bind fun _ g' hg' hgrows _ => hrest g' hg' hgrows
  · exact hrest g hg (Graph.Grows.refl g)

end Model

/-! ## Saving and deleting -/

namespace Model

variable {m : Model}

theorem upholds_saveRecord (hkept : RecordStore.Keeps Kept) (hg : g.Sound Kept)
    (hm : g.HasModel m) : Upholds Kept m.saveRecord g fun _ _ => True := by
  refine (upholds_syncForeignKeys hg hm).bind fun _ g₁ hg₁ hgrows₁ _ => ?_
  refine Upholds.bind_of_reads rfl ?_
  refine (Upholds.call hg₁ (hkept.save _ _ hg₁.store)).bind fun stored g₂ hg₂ hgrows₂ hsaved => ?_
  obtain ⟨hsaved, rfl⟩ := hsaved
  refine upholds_updateRecord hg₂ (hgrows₂.model m (hgrows₁.model m hm)) (fun hnew => ?_)
    fun hids => hids _ _ stored hg₁.store hsaved
  rw [hkept.saved _ _ stored hg₁.store hsaved] at hnew
  cases hnew

theorem upholds_deleteWithin (hkept : RecordStore.Keeps Kept) (depth : Nat) (hg : g.Sound Kept)
    (hm : g.HasModel m) : Upholds Kept (m.deleteWithin depth) g fun _ _ => True := by
  induction depth generalizing g m with
  | zero => exact Upholds.bind_of_reads rfl (Upholds.throw hg)
  | succ depth ih =>
      refine Upholds.bind_of_reads rfl ?_
      split
      · exact Upholds.pure hg trivial
      · refine Upholds.bind_of_reads rfl ?_
        refine (Upholds.forM hg fun name _ g₁ hg₁ hgrows₁ => ?_).bind
          fun _ g₁ hg₁ _ _ => Upholds.bind_of_reads rfl
            ((Upholds.call hg₁ (hkept.delete _ _ hg₁.store)).weaken fun _ _ _ _ => trivial)
        have hfetch := Related.upholds_fetch hkept hg₁ (r := .model m) (hgrows₁.model m hm)
          (pathSteps name) none
        refine hfetch.bind fun children g₂ hg₂ _ hchildren => ?_
        refine (Related.upholds_models hg₂ hchildren).bind fun ms g₃ hg₃ _ hms => ?_
        exact Upholds.forM hg₃ fun n hn g₄ hg₄ hgrows₄ => ih hg₄ (hgrows₄.model n (hms n hn))

theorem upholds_delete (hkept : RecordStore.Keeps Kept) (hg : g.Sound Kept) (hm : g.HasModel m) :
    Upholds Kept m.delete g fun _ _ => True :=
  Upholds.bind_of_reads rfl (upholds_deleteWithin hkept _ hg hm)

end Model

namespace Collection

variable {c : Collection}

theorem upholds_saveModels (hkept : RecordStore.Keeps Kept) (hg : g.Sound Kept)
    (hc : g.HasCollection c) : Upholds Kept c.saveModels g fun _ _ => True := by
  refine Upholds.bind_of_reads rfl (Upholds.forM hg fun m hm g' hg' hgrows => ?_)
  exact Model.upholds_saveRecord hkept hg' (hgrows.model m (hg.wellFormed.member hc hm))

/-- What is deleted with a collection was in its snapshot. -/
theorem upholds_modelsToDelete (hg : g.Sound Kept) (hc : g.HasCollection c) :
    Upholds Kept c.modelsToDelete g fun ms g' => ∀ m ∈ ms, g'.HasModel m := by
  refine Upholds.of_reads hg rfl fun ms hms m hm => ?_
  rw [← Except.ok.inj hms, List.mem_filter, List.mem_map] at hm
  obtain ⟨⟨e, he, rfl⟩, -⟩ := hm
  have hentry := OrderedMap.get?_eq_some_iff.mpr (List.mem_filter.mp he).1
  exact (hg.wellFormed.collections c hc).snapshot e.1 e.2 hentry

theorem upholds_saveMembers (hkept : RecordStore.Keeps Kept) (hg : g.Sound Kept)
    (hc : g.HasCollection c) : Upholds Kept c.saveMembers g fun _ _ => True := by
  refine (upholds_saveModels hkept hg hc).bind fun _ g₁ hg₁ hgrows₁ _ => ?_
  have hc₁ := hgrows₁.collection c hc
  refine (upholds_modelsToDelete hg₁ hc₁).bind fun gone g₂ hg₂ hgrows₂ hgone => ?_
  have hdeleted := Upholds.forM (f := Model.delete) (l := gone) hg₂
    fun m hm g' hg' hgrows => Model.upholds_delete hkept hg' (hgrows.model m (hgone m hm))
  exact hdeleted.bind fun _ g₃ hg₃ hgrows₃ _ =>
    upholds_markSaved hg₃ (hgrows₃.collection c (hgrows₂.collection c hc₁))

end Collection

namespace Model

variable {m removed : Model} {c : Collection}

theorem upholds_saveUnlinked (hkept : RecordStore.Keeps Kept) (hg : g.Sound Kept)
    (hremoved : g.HasModel removed) (r : Resolved) (id : String) :
    Upholds Kept (m.saveUnlinked r id removed) g fun _ _ => True := by
  refine (upholds_removeReferenceId hg hremoved _ _).bind fun _ g₁ hg₁ hgrows₁ _ => ?_
  have hremoved₁ := hgrows₁.model removed hremoved
  refine Upholds.bind_of_reads rfl ?_
  cases r.inverseOn? (g₁.model removed).modelType.name with
  | none => exact upholds_saveRecord hkept hg₁ hremoved₁
  | some inverse =>
      exact (upholds_unlink hg₁ hremoved₁).bind fun _ g₂ hg₂ hgrows₂ _ =>
        upholds_saveRecord hkept hg₂ (hgrows₂.model removed hremoved₁)

theorem upholds_saveChildren (hkept : RecordStore.Keeps Kept) (hg : g.Sound Kept)
    (hc : g.HasCollection c) (r : Resolved) (name id : String) :
    Upholds Kept (m.saveChildren r name id c) g fun _ _ => True := by
  refine Upholds.bind_of_reads rfl ?_
  refine (Upholds.forM hg fun child hchild g' hg' hgrows => upholds_addReferenceId hg'
    (hgrows.model child (hg.wellFormed.member hc hchild)) _ _).bind fun _ g₁ hg₁ hgrows₁ _ => ?_
  refine Upholds.bind_of_reads rfl (Upholds.bind_ofExcept hg₁ fun relationship _ => ?_)
  have hc₁ := hgrows₁.collection c hc
  split
  · exact Collection.upholds_saveMembers hkept hg₁ hc₁
  · refine (Collection.upholds_saveModels hkept hg₁ hc₁).bind fun _ g₂ hg₂ hgrows₂ _ => ?_
    have hc₂ := hgrows₂.collection c hc₁
    refine (Collection.upholds_modelsToDelete hg₂ hc₂).bind fun gone g₃ hg₃ hgrows₃ hgone => ?_
    have hunlinked := Upholds.forM (f := m.saveUnlinked r id) (l := gone) hg₃
      fun n hn g' hg' hgrows => upholds_saveUnlinked hkept hg' (hgrows.model n (hgone n hn)) r id
    exact hunlinked.bind fun _ g₄ hg₄ hgrows₄ _ =>
      Collection.upholds_markSaved hg₄ (hgrows₄.collection c (hgrows₃.collection c hc₂))

theorem upholds_saveParents (hkept : RecordStore.Keeps Kept) (hg : g.Sound Kept)
    (hm : g.HasModel m) (r : Resolved) (name : String) :
    Upholds Kept (m.saveParents r name) g fun _ _ => True := by
  have hlast : ∀ g', g'.Sound Kept → g.Grows g' →
      Upholds Kept (m.syncForeignKey name) g' fun _ _ => True :=
    fun g' hg' hgrows => upholds_syncForeignKey hg' (hgrows.model m hm) name
  unfold saveParents
  by_cases hsingle : r.holdsSingle = true
  · simp only [hsingle, if_true]
    refine Upholds.bind_of_reads rfl ?_
    cases hp : (g.model m).parents.get? name with
    | none => exact hlast g hg (Graph.Grows.refl g)
    | some p =>
        exact (upholds_saveRecord hkept hg (hg.wellFormed.parents m name p hm hp)).bind
          fun _ g' hg' hgrows _ => hlast g' hg' hgrows
  · simp only [hsingle]
    refine Upholds.bind_of_reads rfl ?_
    cases hc : (g.model m).children.get? name with
    | none => exact hlast g hg (Graph.Grows.refl g)
    | some c =>
        have hmade := hg.wellFormed.children m name c hm hc
        exact (Collection.upholds_saveModels hkept hg hmade).bind
          fun _ g' hg' hgrows _ => hlast g' hg' hgrows

theorem upholds_saveRelationship (hkept : RecordStore.Keeps Kept) (hg : g.Sound Kept)
    (hm : g.HasModel m) (name : String) :
    Upholds Kept (m.saveRelationship name) g fun _ _ => True := by
  refine (upholds_resolve hg).bind fun r g₁ hg₁ hgrows₁ _ => ?_
  have hm₁ := hgrows₁.model m hm
  split
  · exact upholds_saveParents hkept hg₁ hm₁ r name
  · refine (upholds_storedId hg₁ name).bind fun id g₂ hg₂ hgrows₂ _ => ?_
    refine Upholds.bind_of_reads rfl ?_
    cases hc : (g₂.model m).children.get? name with
    | none => exact Upholds.pure hg₂ trivial
    | some c =>
        have hmade := hg₂.wellFormed.children m name c (hgrows₂.model m hm₁) hc
        exact upholds_saveChildren hkept hg₂ hmade r name id

end Model

theorem Collection.upholds_saveRelationship (hkept : RecordStore.Keeps Kept) (hg : g.Sound Kept)
    {c : Collection} (hc : g.HasCollection c) (name : String) :
    Upholds Kept (c.saveRelationship name) g fun _ _ => True := by
  refine Upholds.bind_of_reads rfl ?_
  split
  · exact Upholds.throw hg
  · refine Upholds.bind_of_reads rfl (Upholds.bind_ofExcept hg fun r _ => ?_)
    split
    · refine (upholds_read hg hc name).bind fun far g₁ hg₁ hgrows₁ hfar => ?_
      refine (upholds_saveModels hkept hg₁ hfar).bind fun _ g₂ hg₂ hgrows₂ _ => ?_
      have hc₂ := hgrows₂.collection c (hgrows₁.collection c hc)
      refine Upholds.bind_of_reads rfl (Upholds.forM hg₂ fun m hm g₃ hg₃ hgrows₃ => ?_)
      exact Model.upholds_syncForeignKey hg₃
        (hgrows₃.model m (hg₂.wellFormed.member hc₂ hm)) name
    · refine Upholds.bind_of_reads rfl (Upholds.forM hg fun m hm g₁ hg₁ hgrows₁ => ?_)
      exact Model.upholds_saveRelationship hkept hg₁
        (hgrows₁.model m (hg.wellFormed.member hc hm)) name

namespace Related

variable {r : Related}

theorem upholds_saveHere (hkept : RecordStore.Keeps Kept) (hg : g.Sound Kept)
    (hr : g.HasRelated r) : Upholds Kept r.saveHere g fun _ _ => True := by
  cases r with
  | none => exact Upholds.pure hg trivial
  | model m => exact Model.upholds_saveRecord hkept hg hr
  | collection c => exact Collection.upholds_saveMembers hkept hg hr

theorem upholds_saveStep (hkept : RecordStore.Keeps Kept) (hg : g.Sound Kept)
    (hr : g.HasRelated r) (name : String) : Upholds Kept (r.saveStep name) g fun _ _ => True := by
  cases r with
  | none => exact Upholds.pure hg trivial
  | model m => exact Model.upholds_saveRelationship hkept hg hr name
  | collection c => exact Collection.upholds_saveRelationship hkept hg hr name

theorem upholds_save (hkept : RecordStore.Keeps Kept) (hg : g.Sound Kept) (hr : g.HasRelated r)
    (path : Option (List String)) : Upholds Kept (r.save path) g fun _ _ => True := by
  cases path with
  | none => exact upholds_saveHere hkept hg hr
  | some steps =>
      have hrest : ∀ g', g'.Sound Kept → g.Grows g' → Upholds Kept (do
          (← r.get steps.dropLast).saveStep (steps.getLast?.getD "")) g' fun _ _ => True :=
        fun g' hg' hgrows => (upholds_get hg' (hgrows.related hr) steps.dropLast).bind
          fun _ _ hg'' _ hx => upholds_saveStep hkept hg'' hx _
      cases r with
      | none => exact hrest g hg (Graph.Grows.refl g)
      | model m => exact hrest g hg (Graph.Grows.refl g)
      | collection c =>
          exact (Collection.upholds_requireSingleType hg c _).bind
            fun _ g' hg' hgrows _ => hrest g' hg' hgrows

end Related

end RecordGraph
