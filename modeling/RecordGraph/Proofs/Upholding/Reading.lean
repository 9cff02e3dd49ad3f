/-
# Reading, connecting and fetching uphold what graphs promise

What relationships lead to is made in the same graph, whether it is read, put there or
fetched. The far models of a fetch are wrapped in the types of the relationship's query, which
come from the registry.
-/
import RecordGraph.Proofs.Connecting.Steps
import RecordGraph.Proofs.Upholding.Objects

namespace RecordGraph

variable {σ : Type} {Kept : σ → Prop} {g : Graph σ}

/-- What a relationship leads to was made in this graph. -/
def Graph.HasRelated (g : Graph σ) : Related → Prop
  | .none => True
  | .model m => g.HasModel m
  | .collection c => g.HasCollection c

theorem Graph.Grows.related {g g' : Graph σ} (h : g.Grows g') {r : Related}
    (hr : g.HasRelated r) : g'.HasRelated r := by
  cases r with
  | none => trivial
  | model m => exact h.model m hr
  | collection c => exact h.collection c hr

/-! ## Reading -/

namespace Graph.WellFormed

theorem member (hg : g.WellFormed) {c : Collection} (hc : g.HasCollection c) {m : Model}
    (hm : m ∈ (g.collection c).members.values) : g.HasModel m := by
  obtain ⟨key, hkey⟩ := OrderedMap.mem_values_iff.mp hm
  exact hg.members c key m hc hkey

theorem snapshotMember (hg : g.WellFormed) {c : Collection} (hc : g.HasCollection c) {m : Model}
    (hm : m ∈ (g.collection c).snapshot.values) : g.HasModel m := by
  obtain ⟨key, hkey⟩ := OrderedMap.mem_values_iff.mp hm
  exact (hg.collections c hc).snapshot key m hkey

end Graph.WellFormed

variable [RecordStore σ]

namespace Model

variable {m : Model} {name : String}

theorem upholds_childrenOr (hg : g.Sound Kept) (hm : g.HasModel m) {r : Resolved}
    (hr : g.registry.resolve (g.model m).modelType.name name = .ok r)
    (hmany : (g.model m).modelType.holdsSingle name = false) :
    Upholds Kept (m.childrenOr name r) g fun c g' => g'.HasCollection c := by
  refine Upholds.bind_of_reads rfl ?_
  split
  · rename_i c hc
    exact Upholds.pure hg (hg.wellFormed.children m name c hm hc)
  · refine Upholds.bind_of_reads rfl ?_
    have hfresh := (Collection.upholds_forRelationship (s := (g.model m).session) hg r).strengthen
      (r := fun c g' => g'.HasCollection c ∧ g'.Unheld c ∧
        g.registry.membershipFor r = .ok (g'.collection c).membership) fun c g' hmade hc => by
        have hadmits := Collection.membershipFor_of_forRelationship hmade
        obtain ⟨rfl, membership, rfl⟩ := Collection.returns_forRelationship hmade
        exact ⟨hc, hg.wellFormed.unheld_nextCollection _, hadmits⟩
    refine hfresh.bind fun c g' hg' hgrows ⟨hc, hunheld, hadmits⟩ => ?_
    have hr' : g'.registry.resolve (g'.model m).modelType.name name = .ok r := by
      rw [hgrows.registry, hgrows.modelType m hm, hr]
    have hmany' : (g'.model m).modelType.holdsSingle name = false := by
      rw [hgrows.modelType m hm, hmany]
    rw [← hgrows.registry] at hadmits
    refine (upholds_setChildren hg' (hgrows.model m hm) hc hunheld hr' hadmits hmany').bind
      fun _ g'' hg'' hlater _ => ?_
    exact Upholds.pure hg'' (hlater.collection c hc)

theorem upholds_resolve (hg : g.Sound Kept) :
    Upholds Kept (m.resolve name) g fun r _ =>
      g.registry.resolve (g.model m).modelType.name name = .ok r :=
  Upholds.bind_of_reads rfl (Upholds.bind_of_reads rfl (Upholds.ofExcept hg fun _ h => h))

theorem upholds_children (hg : g.Sound Kept) (hm : g.HasModel m)
    (hmany : (g.model m).modelType.holdsSingle name = false) :
    Upholds Kept (m.children name) g fun c g' => g'.HasCollection c := by
  refine Upholds.bind_of_reads rfl ?_
  split
  · rename_i c hc
    exact Upholds.pure hg (hg.wellFormed.children m name c hm hc)
  · refine (upholds_resolve hg).bind fun r g' hg' hgrows hr => ?_
    refine upholds_childrenOr hg' (hgrows.model m hm) ?_ ?_
    · rw [hgrows.registry, hgrows.modelType m hm, hr]
    · rw [hgrows.modelType m hm, hmany]

theorem upholds_parentIds (hg : g.Sound Kept) :
    Upholds Kept (m.parentIds name) g fun _ _ => True := by
  refine Upholds.bind_of_reads rfl (Upholds.bind_ofExcept hg fun r _ => ?_)
  exact Upholds.bind_ofExcept hg fun k _ => Upholds.pure hg trivial

theorem upholds_read (hg : g.Sound Kept) (hm : g.HasModel m) (name : String) :
    Upholds Kept (m.read name) g fun r g' => g'.HasRelated r := by
  refine (upholds_resolve hg).bind fun r g' hg' hgrows hr => ?_
  have hmade := hgrows.model m hm
  have hr' : g'.registry.resolve (g'.model m).modelType.name name = .ok r := by
    rw [hgrows.registry, hgrows.modelType m hm, hr]
  split
  · refine Upholds.bind_of_reads rfl ?_
    split
    · rename_i p hp
      exact Upholds.pure hg' (hg'.wellFormed.parents m name p hmade hp)
    · exact Upholds.pure hg' trivial
  · rename_i hmany
    have hmany' : (g'.model m).modelType.holdsSingle name = false := by
      rw [hg'.wellFormed.holdsSingle_eq hmade hr']
      exact Bool.eq_false_iff.mpr hmany
    refine (upholds_childrenOr hg' hmade hr' hmany').bind fun c g'' hg'' _ hc => ?_
    exact Upholds.pure hg'' hc

end Model

namespace Collection

variable {c : Collection}

theorem upholds_emptyFor (hg : g.Sound Kept) (name : String) :
    Upholds Kept (c.emptyFor name) g fun e g' => g'.HasCollection e := by
  refine Upholds.bind_of_reads rfl (Upholds.bind_of_reads rfl ?_)
  simp only
  split
  · exact Upholds.bind_ofExcept hg fun r _ => upholds_forRelationship hg r
  · exact upholds_polymorphic hg none

theorem upholds_merge (hg : g.Sound Kept) (hc : g.HasCollection c) {r : Related}
    (hr : g.HasRelated r) : Upholds Kept (c.merge r) g fun _ _ => True := by
  cases r with
  | none => exact Upholds.pure hg trivial
  | model m => exact upholds_putFetched hg hc hr
  | collection other =>
      refine Upholds.bind_of_reads rfl ?_
      have hmembers := Upholds.forM (f := c.put) (l := (g.collection other).members.values) hg
        fun m hm g' hg' hgrows => upholds_put hg' (hgrows.collection c hc)
          (hgrows.model m (hg.wellFormed.member hr hm))
      refine hmembers.bind fun _ g' hg' hgrows _ => Upholds.bind_of_reads rfl ?_
      exact Upholds.forM hg' fun m hm g'' hg'' hlater => upholds_putSnapshot hg''
        (hlater.collection c (hgrows.collection c hc))
        (hlater.model m (hg'.wellFormed.snapshotMember (hgrows.collection other hr) hm))

theorem upholds_read (hg : g.Sound Kept) (hc : g.HasCollection c) (name : String) :
    Upholds Kept (c.read name) g fun e g' => g'.HasCollection e := by
  refine Upholds.bind_of_reads rfl ?_
  refine (upholds_emptyFor hg name).bind fun result g' hg' hgrows hresult => ?_
  refine (Upholds.forM hg' fun m hm g'' hg'' hlater => ?_).bind fun _ g'' hg'' hlater _ =>
    Upholds.pure hg'' (hlater.collection result hresult)
  have hmade := hlater.model m (hgrows.model m (hg.wellFormed.member hc hm))
  have hmerge : Upholds Kept (do result.merge (← m.read name)) g'' fun _ _ => True := by
    refine (Model.upholds_read hg'' hmade name).bind fun r g₃ hg₃ hgrows₃ hr => ?_
    exact upholds_merge hg₃ (hgrows₃.collection result (hlater.collection result hresult)) hr
  refine Upholds.bind_of_reads rfl ?_
  split
  · exact Upholds.pure hg'' trivial
  · exact hmerge

end Collection

namespace Related

theorem upholds_read (hg : g.Sound Kept) {r : Related} (hr : g.HasRelated r) (name : String) :
    Upholds Kept (r.read name) g fun x g' => g'.HasRelated x := by
  cases r with
  | none => exact Upholds.pure hg trivial
  | model m => exact Model.upholds_read hg hr name
  | collection c =>
      refine (Collection.upholds_read hg hr name).bind fun e g' hg' _ he => ?_
      exact Upholds.pure hg' he

theorem upholds_get (hg : g.Sound Kept) {r : Related} (hr : g.HasRelated r)
    (path : List String) : Upholds Kept (r.get path) g fun x g' => g'.HasRelated x := by
  induction path generalizing g r with
  | nil => exact Upholds.pure hg hr
  | cons name rest ih =>
      exact (upholds_read hg hr name).bind fun x g' hg' _ hx => ih hg' hx

theorem upholds_models (hg : g.Sound Kept) {r : Related} (hr : g.HasRelated r) :
    Upholds Kept r.models g fun ms g' => ∀ m ∈ ms, g'.HasModel m := by
  cases r with
  | none => exact Upholds.pure hg (by simp)
  | model m => exact Upholds.pure hg fun n hn => List.mem_singleton.mp hn ▸ hr
  | collection c => exact Upholds.of_reads hg rfl fun ms hms m hm =>
      hg.wellFormed.member hr (by rwa [Except.ok.inj hms])

end Related

/-! ## Connecting -/

namespace Model

variable {m far : Model} {name : String} {inverse : Option String}

theorem upholds_stamp (hg : g.Sound Kept) (hm : g.HasModel m) (k : ForeignKey)
    (id : Option String) (c : Cardinality) : Upholds Kept (m.stamp k id c) g fun _ _ => True := by
  cases id with
  | none => exact Upholds.pure hg trivial
  | some id => exact upholds_addReferenceId hg hm id c

theorem upholds_receive (hg : g.Sound Kept) (hm : g.HasModel m) (hfar : g.HasModel far)
    {single : Bool} (hheld : (g.model m).modelType.holdsSingle name = single) :
    Upholds Kept (m.receive single name far) g fun _ _ => True := by
  cases single with
  | true => exact upholds_setParent hg hm hfar hheld
  | false =>
      exact (upholds_children hg hm hheld).bind fun _ _ hg' hgrows hc =>
        Collection.upholds_put hg' hc (hgrows.model far hfar)

theorem upholds_receiveBack (hg : g.Sound Kept) (hm : g.HasModel m) (hfar : g.HasModel far)
    {single : Bool} (hheld : ∀ back, inverse = some back →
      (g.model m).modelType.holdsSingle back = single) :
    Upholds Kept (m.receiveBack single inverse far) g fun _ _ => True := by
  cases inverse with
  | none => exact Upholds.pure hg trivial
  | some back => exact upholds_receive hg hm hfar (hheld back rfl)

theorem upholds_putParent (hg : g.Sound Kept) (hm : g.HasModel m) (hfar : g.HasModel far)
    {r : Resolved} (hr : g.registry.resolve (g.model m).modelType.name name = .ok r)
    (hback : ∀ back, inverse = some back → (g.model far).modelType.holdsSingle back = false) :
    Upholds Kept (m.putParent r name inverse far) g fun _ _ => True := by
  have hown := hg.wellFormed.holdsSingle_eq hm hr
  have hload : Upholds Kept (if r.holdsSingle then m.setParent name far
      else (do (← m.childrenOr name r).put far)) g fun _ _ => True := by
    cases hsingle : r.holdsSingle with
    | true => exact upholds_setParent hg hm hfar (hown.trans hsingle)
    | false =>
        exact (upholds_childrenOr hg hm hr (hown.trans hsingle)).bind fun _ _ hg' hgrows hc =>
          Collection.upholds_put hg' hc (hgrows.model far hfar)
  rw [putParent_eq]
  refine hload.bind fun _ g₁ hg₁ hgrows₁ _ => Upholds.bind_of_reads rfl ?_
  refine (upholds_stamp hg₁ (hgrows₁.model m hm) _ _ _).bind fun _ g₂ hg₂ hgrows₂ _ => ?_
  have hgrown := hgrows₁.trans hgrows₂
  refine upholds_receiveBack hg₂ (hgrown.model far hfar) (hgrown.model m hm) fun back hinverse => ?_
  rw [hgrown.modelType far hfar, hback back hinverse]

theorem upholds_putChild (hg : g.Sound Kept) (hm : g.HasModel m) (hfar : g.HasModel far)
    {r : Resolved} (hr : g.registry.resolve (g.model m).modelType.name name = .ok r)
    (hside : r.side = .child) (hback : ∀ back, inverse = some back →
      (g.model far).modelType.holdsSingle back = decide (r.cardinality = .single)) :
    Upholds Kept (m.putChild r name inverse far) g fun _ _ => True := by
  have hown := (hg.wellFormed.holdsSingle_eq hm hr).trans (Resolved.holdsSingle_of_child hside)
  have hload : Upholds Kept (do (← m.childrenOr name r).put far) g fun _ _ => True :=
    (upholds_childrenOr hg hm hr hown).bind fun _ _ hg' hgrows hc =>
      Collection.upholds_put hg' hc (hgrows.model far hfar)
  rw [putChild_eq]
  refine hload.bind fun _ g₁ hg₁ hgrows₁ _ => ?_
  have hway : Upholds Kept (far.receiveBack (r.cardinality = .single) inverse m) g₁
      fun _ _ => True := by
    refine upholds_receiveBack hg₁ (hgrows₁.model far hfar) (hgrows₁.model m hm)
      fun back hinverse => ?_
    rw [hgrows₁.modelType far hfar, hback back hinverse]
  refine hway.bind fun _ g₂ hg₂ hgrows₂ _ => Upholds.bind_of_reads rfl ?_
  exact upholds_stamp hg₂ ((hgrows₁.trans hgrows₂).model far hfar) _ _ _

theorem upholds_put (hg : g.Sound Kept) (hm : g.HasModel m) (hfar : g.HasModel far)
    (name : String) : Upholds Kept (m.put name far) g fun _ _ => True := by
  refine (upholds_resolve hg).bind fun r g' hg' hgrows hr => Upholds.bind_of_reads rfl ?_
  have hm' := hgrows.model m hm
  have hfar' := hgrows.model far hfar
  rw [← hgrows.registry, ← hgrows.modelType m hm] at hr
  by_cases hadmitted : (!r.farTypes.contains (g'.model far).modelType.name) = true
  · simp only [hadmitted, if_true]
    exact (Upholds.throw hg').bind (q := fun _ _ => False) fun _ _ _ _ hnever => hnever.elim
  · simp only [hadmitted]
    have hback : ∀ back, r.inverseOn? (g'.model far).modelType.name = some back →
        (g'.model far).modelType.holdsSingle back = r.heldSingly :=
      fun back => hg'.wellFormed.holdsSingle_back hfar' hr
    cases hside : r.side with
    | parent =>
        rw [Resolved.heldSingly_of_parent hside] at hback
        exact upholds_putParent hg' hm' hfar' hr hback
    | child =>
        rw [Resolved.heldSingly_of_child hside] at hback
        exact upholds_putChild hg' hm' hfar' hr hside hback

end Model

end RecordGraph
