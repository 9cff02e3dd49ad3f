/-
# Sessions, models and collections uphold what graphs promise

One lemma for every action on single objects. The objects that an action is given have to be
made already; what it answers then is made, too.
-/
import RecordGraph.Proofs.OrderedMaps
import RecordGraph.Proofs.Upholding.Rules

namespace RecordGraph

variable {σ α : Type} [RecordStore σ] {Kept : σ → Prop} {g : Graph σ}

/-- A type that is looked up by a name is registered under its own. -/
theorem Registry.WellFormed.get_name {registry : Registry} (h : registry.WellFormed)
    {name : String} {t : ModelType} (ht : registry.get name = .ok t) :
    registry.get t.name = .ok t := by
  obtain ⟨rfl, -⟩ := h name t (Registry.get_eq_ok.mp ht)
  exact ht

/-! ## Sessions -/

namespace Session

variable {s : Session}

theorem upholds_start (hg : g.Sound Kept) (config : Config) :
    Upholds Kept (start config) g fun _ _ => True := by
  refine Upholds.bind_ofExcept hg fun _ _ => ?_
  obtain ⟨hwellFormed, hgrows⟩ := hg.wellFormed.addSession config
  refine Upholds.of_run rfl ⟨hwellFormed, hg.store⟩ hgrows
    (·.of_models rfl rfl fun _ _ _ _ => rfl) (fun _ => .opened config)
    (fun s => .of_same (fun _ h => h) ?_ fun _ _ => rfl) trivial
  -- a session that was not opened yet has forged nothing either
  simp only [Graph.session, Cells.get_push]
  split
  · rename_i hnext
    have hnone : g.sessions.items[g.sessions.size]? = none :=
      Array.getElem?_eq_none (Nat.le_refl _)
    rw [hnext, Cells.get, hnone]
    rfl
  · rfl

theorem upholds_update (hg : g.Sound Kept) {f : SessionData → SessionData}
    (hforged : (f (g.session s)).forged = (g.session s).forged)
    (hconfig : (f (g.session s)).config = (g.session s).config)
    (hcount : (g.session s).placeholders ≤ (f (g.session s)).placeholders) :
    Upholds Kept (s.update f) g fun _ _ => True := by
  obtain ⟨hwellFormed, hgrows⟩ :=
    hg.wellFormed.setSession s (d := f (g.session s)) (hforged ▸ hg.wellFormed.forged s)
  refine Upholds.of_run rfl ⟨hwellFormed, hg.store⟩ hgrows
    (·.of_models rfl rfl fun _ _ _ _ => rfl) (fun _ => .session s _ hconfig hcount)
    (fun t => .of_same (fun _ h => h) ?_ fun _ _ => rfl) trivial
  rw [Graph.session_setSession]
  split
  · rename_i hsame
    rw [← hsame, hforged]
  · rfl

theorem upholds_nextPlaceholder (hg : g.Sound Kept) :
    Upholds Kept s.nextPlaceholder g fun _ _ => True := by
  refine Upholds.bind_of_reads rfl ?_
  refine (upholds_update hg rfl rfl (Nat.le_succ _)).bind fun _ g' hg' _ _ => ?_
  exact Upholds.pure hg' trivial

theorem upholds_registerPolicy (hg : g.Sound Kept) (p : AccessPolicy) :
    Upholds Kept (s.registerPolicy p) g fun _ _ => True :=
  upholds_update hg rfl rfl (Nat.le_refl _)

theorem upholds_prepare (hg : g.Sound Kept) (q : StoreQuery) :
    Upholds Kept (s.prepare q) g fun _ _ => True := by
  unfold prepare
  split
  · split
    · exact Upholds.throw hg
    · refine Upholds.bind_of_reads rfl ?_
      split
      · exact Upholds.throw hg
      · exact Upholds.ofExcept hg fun _ _ => trivial
  · exact Upholds.pure hg trivial

end Session

/-! ## Models -/

namespace Model

variable {m p : Model} {c : Collection} {s : Session} {name : String}

theorem upholds_update (hg : g.Sound Kept) (hm : g.HasModel m) {f : ModelData → ModelData}
    (hfits : (f (g.model m)).Fits g) (htype : (f (g.model m)).modelType = (g.model m).modelType)
    (hkey : (f (g.model m)).key = (g.model m).key)
    (hnew : (f (g.model m)).record.isNew = true → (g.model m).record.isNew = true)
    (hsession : (f (g.model m)).session = (g.model m).session)
    (hstays : RecordStore.KeepsIds Kept → (g.model m).record.StaysAt (f (g.model m)).record)
    (horderly : g.Orderly → (g.setModel m (f (g.model m))).Orderly) :
    Upholds Kept (m.update f) g fun _ _ => True := by
  obtain ⟨hwellFormed, hgrows⟩ := hg.wellFormed.setModel hm hfits htype hkey hnew
  refine Upholds.of_run rfl ⟨hwellFormed, hg.store⟩ hgrows horderly
    (fun hids => .model hm hsession htype hkey (hstays hids))
    (fun s => .of_same (fun n => (Graph.hasModel_setModel hm n).mp) rfl fun n _ => ?_) trivial
  rw [Graph.model_setModel]
  split
  · rename_i hsame
    rw [hsession, hsame]
  · rfl

/-- A parent is loaded where the model holds a single foreign key. -/
theorem upholds_setParent (hg : g.Sound Kept) (hm : g.HasModel m) (hp : g.HasModel p)
    (hsingle : (g.model m).modelType.holdsSingle name = true) :
    Upholds Kept (m.setParent name p) g fun _ _ => True := by
  have hfits := hg.wellFormed.models m hm
  refine upholds_update hg hm ⟨hfits.typed, fun other q hq => ?_, hfits.children⟩ rfl rfl id rfl
    (fun _ => .refl _) fun horderly => horderly.setModel rfl (fun other q hq => ?_) fun _ _ hc => hc
  · rw [OrderedMap.get?_insert] at hq
    split at hq
    · exact Option.some.inj hq ▸ hp
    · exact hfits.parents other q hq
  · rw [OrderedMap.get?_insert] at hq
    split at hq
    · rename_i hname
      exact hname ▸ hsingle
    · exact horderly.parents m other q hq

theorem upholds_removeParent (hg : g.Sound Kept) (hm : g.HasModel m) :
    Upholds Kept (m.removeParent name) g fun _ _ => True := by
  have hfits := hg.wellFormed.models m hm
  refine upholds_update hg hm ⟨hfits.typed, fun other q hq => ?_, hfits.children⟩ rfl rfl id rfl
    (fun _ => .refl _) fun horderly => horderly.setModel rfl (fun other q hq => ?_) fun _ _ hc => hc
  · exact hfits.parents other q (OrderedMap.get?_of_get?_erase hq)
  · exact horderly.parents m other q (OrderedMap.get?_of_get?_erase hq)

/-- A collection is loaded that no other model has loaded. -/
theorem upholds_setChildren (hg : g.Sound Kept) (hm : g.HasModel m) (hc : g.HasCollection c)
    (hunheld : g.Unheld c) {r : Resolved}
    (hr : g.registry.resolve (g.model m).modelType.name name = .ok r)
    (hadmits : g.registry.membershipFor r = .ok (g.collection c).membership)
    (hmany : (g.model m).modelType.holdsSingle name = false) :
    Upholds Kept (m.setChildren name c) g fun _ _ => True := by
  have hfits := hg.wellFormed.models m hm
  refine upholds_update hg hm ⟨hfits.typed, hfits.parents, fun other e he => ?_⟩ rfl rfl id rfl
    (fun _ => .refl _) fun horderly => horderly.setChildren hunheld hr hadmits hmany
  rw [OrderedMap.get?_insert] at he
  split at he
  · exact Option.some.inj he ▸ hc
  · exact hfits.children other e he

theorem upholds_clearRelationship (hg : g.Sound Kept) (hm : g.HasModel m) :
    Upholds Kept (m.clearRelationship name) g fun _ _ => True := by
  have hfits := hg.wellFormed.models m hm
  refine upholds_update hg hm ⟨hfits.typed, fun other q hq => ?_, fun other e he => ?_⟩ rfl rfl id rfl
    (fun _ => .refl _) fun horderly => horderly.setModel rfl
      (fun other q hq => horderly.parents m other q (OrderedMap.get?_of_get?_erase hq))
      fun _ _ hc => OrderedMap.get?_of_get?_erase hc
  · exact hfits.parents other q (OrderedMap.get?_of_get?_erase hq)
  · exact hfits.children other e (OrderedMap.get?_of_get?_erase he)

/-- A record may be written as long as it does not lose its identifier. -/
theorem upholds_updateRecord (hg : g.Sound Kept) (hm : g.HasModel m) {f : Record → Record}
    (hnew : (f (g.model m).record).isNew = true → (g.model m).record.isNew = true)
    (hstays : RecordStore.KeepsIds Kept → (g.model m).record.StaysAt (f (g.model m).record)) :
    Upholds Kept (m.updateRecord f) g fun _ _ => True :=
  have hfits := hg.wellFormed.models m hm
  upholds_update hg hm ⟨hfits.typed, hfits.parents, hfits.children⟩ rfl rfl hnew rfl hstays
    fun horderly => horderly.setModel rfl (horderly.parents m) fun _ _ hc => hc

end Model

/-- Writing a foreign key leaves the identifier alone. -/
@[simp] theorem Record.isNew_setReferenceIds (r : Record) (field column : String)
    (ids : List String) (cardinality : Cardinality) :
    (r.setReferenceIds field column ids cardinality).isNew = r.isNew := by
  unfold setReferenceIds
  split <;> rfl

namespace Model

variable {m p : Model} {s : Session} {k : ForeignKey}

theorem upholds_setField (hg : g.Sound Kept) (hm : g.HasModel m) (field : String) (v : Value) :
    Upholds Kept (m.setField field v) g fun _ _ => True :=
  upholds_updateRecord hg hm id fun _ => ⟨fun _ h => h, rfl⟩

theorem upholds_setReferenceIds (hg : g.Sound Kept) (hm : g.HasModel m) (ids : List String)
    (cardinality : Cardinality) :
    Upholds Kept (m.setReferenceIds k ids cardinality) g fun _ _ => True :=
  upholds_updateRecord hg hm (by simp) fun _ => Record.staysAt_setReferenceIds _ _ _ _ _

theorem upholds_addReferenceId (hg : g.Sound Kept) (hm : g.HasModel m) (id : String)
    (cardinality : Cardinality) :
    Upholds Kept (m.addReferenceId k id cardinality) g fun _ _ => True :=
  upholds_updateRecord hg hm (by simp) fun _ => Record.staysAt_setReferenceIds _ _ _ _ _

theorem upholds_removeReferenceId (hg : g.Sound Kept) (hm : g.HasModel m) (id : String)
    (cardinality : Cardinality) :
    Upholds Kept (m.removeReferenceId k id cardinality) g fun _ _ => True :=
  upholds_updateRecord hg hm (by simp) fun _ => Record.staysAt_setReferenceIds _ _ _ _ _

omit [RecordStore σ] in
/-- A model that is added and remembered fits in. -/
theorem sound_wrapped (hg : g.Sound Kept) {t : ModelType} (ht : g.registry.get t.name = .ok t)
    (key : String) (r : Record) : (g.wrapped s t key r).Sound Kept ∧
      g.Grows (g.wrapped s t key r) ∧ (g.Orderly → (g.wrapped s t key r).Orderly) ∧
      (g.wrapped s t key r).HasModel g.nextModel := by
  obtain ⟨hwellFormed, hadded, hmade⟩ := hg.wellFormed.addModel
    (d := ⟨s, t, key, r, OrderedMap.empty, OrderedMap.empty⟩) ⟨ht, by simp, by simp⟩
  have hremembered := hwellFormed.setSession s
    (d := { g.session s with forged := (g.session s).forged ++ [g.nextModel] }) fun m hm => by
      rcases List.mem_append.mp hm with hold | hnext
      · exact hwellFormed.forged s m hold
      · exact List.mem_singleton.mp hnext ▸ hmade
  exact ⟨⟨hremembered.1, hg.store⟩, hadded.trans hremembered.2,
    fun horderly => (horderly.addModel rfl rfl).of_models rfl rfl fun _ _ _ _ => rfl,
    hremembered.2.model _ hmade⟩

omit [RecordStore σ] in
/-- What is added is remembered by the session that forged it. -/
theorem remembers_wrapped (g : Graph σ) (s : Session) (t : ModelType) (key : String) (r : Record)
    (s' : Session) : g.Remembers s' (g.wrapped s t key r) where
  forged m := by
    have hmade : (g.wrapped s t key r).HasModel m ↔ g.HasModel m ∨ m = g.nextModel :=
      Graph.hasModel_addModel g _ m
    have hforged : m ∈ ((g.wrapped s t key r).session s').forged ↔
        m ∈ (g.session s').forged ∨ s = s' ∧ m = g.nextModel := by
      rw [Graph.wrapped, Graph.session_setSession]
      split
      · rename_i hsame
        simp [hsame]
      · rename_i hother
        simp [hother, Graph.session, Graph.addModel]
    have hnext : ((g.wrapped s t key r).model g.nextModel).session = s := by
      simp [Graph.wrapped, Graph.model, Graph.setSession, Graph.addModel, Graph.nextModel]
    rw [hforged, hmade]
    refine or_congr_right ⟨?_, ?_⟩
    · rintro ⟨rfl, rfl⟩
      exact ⟨Graph.not_hasModel_nextModel g, .inr rfl, hnext⟩
    · rintro ⟨hnew, hmade, hsession⟩
      obtain rfl := hmade.resolve_left hnew
      exact ⟨hnext.symm.trans hsession, rfl⟩
  session m hm := congrArg ModelData.session
    ((Graph.model_addModel g _ m).trans (if_neg hm.ne_nextModel))

/-- A record is wrapped in a registered type. -/
theorem upholds_forge (hg : g.Sound Kept) {t : ModelType} (ht : g.registry.get t.name = .ok t)
    (r : Record) : Upholds Kept (forge s t r) g fun m g' => g'.HasModel m := by
  have hstep := Graph.Step.forged (g := g) s t r
  cases hid : r.id with
  | some id =>
      rw [forge_of_id hid] at hstep
      obtain ⟨hsound, hgrows, horderly, hmade⟩ := sound_wrapped (s := s) hg ht id r
      exact Upholds.of_run (forge_of_id hid) hsound hgrows horderly (fun _ => hstep)
        (remembers_wrapped g s t id r) hmade
  | none =>
      rw [forge_of_new hid] at hstep
      obtain ⟨hcountedSound, hcounted⟩ := hg.wellFormed.setSession s
        (d := { g.session s with placeholders := (g.session s).placeholders + 1 })
        (hg.wellFormed.forged s)
      have hremembers : ∀ s', g.Remembers s' (g.counted s) := by
        refine fun s' => .of_same (fun _ h => h) ?_ fun _ _ => rfl
        rw [Graph.counted, Graph.session_setSession]
        split
        · rename_i hsame
          rw [hsame]
        · rfl
      obtain ⟨hsound, hgrows, horderly, hmade⟩ :=
        sound_wrapped (s := s) (g := g.counted s) ⟨hcountedSound, hg.store⟩ ht _ r
      exact Upholds.of_run (forge_of_new hid) hsound (hcounted.trans hgrows)
        (fun h => horderly (h.of_models rfl rfl fun _ _ _ _ => rfl)) (fun _ => hstep)
        (fun s' => (hremembers s').trans (remembers_wrapped _ s t _ r s') hcounted hgrows) hmade

theorem upholds_forgeRecord (hg : g.Sound Kept) (r : Record) :
    Upholds Kept (forgeRecord s r) g fun m g' => g'.HasModel m := by
  refine Upholds.bind_of_reads rfl ?_
  split
  · rename_i t ht
    have hmem := List.mem_of_find?_eq_some ht
    obtain ⟨name, hname⟩ := OrderedMap.mem_values_iff.mp hmem
    exact upholds_forge hg (hg.wellFormed.registry.get_name (Registry.get_eq_ok.mpr hname)) r
  · exact Upholds.throw hg

theorem upholds_forgeFresh (hkept : RecordStore.Keeps Kept) (hg : g.Sound Kept) {t : ModelType}
    (ht : g.registry.get t.name = .ok t) :
    Upholds Kept (forgeFresh s t) g fun m g' => g'.HasModel m := by
  refine (Upholds.call hg (hkept.create _ _ _ hg.store)).bind fun r g' hg' hgrows _ => ?_
  exact upholds_forge hg' (by rw [hgrows.registry, ht]) r

theorem upholds_forgeNew (hkept : RecordStore.Keeps Kept) (hg : g.Sound Kept)
    (modelType : String) : Upholds Kept (forgeNew s modelType) g fun m g' => g'.HasModel m := by
  refine Upholds.bind_of_reads rfl (Upholds.bind_ofExcept hg fun t ht => ?_)
  exact upholds_forgeFresh hkept hg (hg.wellFormed.registry.get_name ht)

theorem upholds_forgeById (hkept : RecordStore.Keeps Kept) (hg : g.Sound Kept)
    (modelType id : String) :
    Upholds Kept (forgeById s modelType id) g fun found g' => ∀ m ∈ found, g'.HasModel m := by
  refine Upholds.bind_of_reads rfl (Upholds.bind_ofExcept hg fun t ht => ?_)
  refine (Upholds.call hg (hkept.load _ _ _ hg.store)).bind fun loaded g' hg' hgrows _ => ?_
  cases loaded with
  | none => exact Upholds.pure hg' (by simp)
  | some r =>
      simp only
      split
      · exact Upholds.throw hg'
      · have hregistered : g'.registry.get t.name = .ok t := by
          rw [hgrows.registry, hg.wellFormed.registry.get_name ht]
        refine (upholds_forge hg' hregistered r).bind fun m g'' hg'' _ hm => ?_
        exact Upholds.pure hg'' (by simpa using hm)

end Model

/-- Closing unloads what the forged models have loaded. No other session forgets a model. -/
theorem Session.proceeds_close {s : Session} (hg : g.Sound Kept) :
    g.Proceeds Kept (s.close g).2 ∧ ∀ t, t ≠ s → g.Remembers t (s.close g).2 := by
  obtain ⟨hwellFormed, hgrows⟩ := hg.wellFormed.setSession s
    (d := { g.session s with forged := [] }) (by simp)
  have hforgets : g.Proceeds Kept (g.setSession s { g.session s with forged := [] }) :=
    ⟨⟨hwellFormed, hg.store⟩, hgrows, fun h => h.of_models rfl rfl fun _ _ _ _ => rfl,
      fun _ => .single (.session s _ rfl (Nat.le_refl _))⟩
  have hunloads : Upholds Kept ((g.session s).forged.forM fun m => m.update fun d =>
      { d with parents := OrderedMap.empty, children := OrderedMap.empty })
      (g.setSession s { g.session s with forged := [] }) fun _ _ => True := by
    refine Upholds.forM hforgets.sound fun m hm g' hg' hlater => ?_
    have hmade := hlater.model m (hg.wellFormed.forged s m hm)
    have hfits := hg'.wellFormed.models m hmade
    exact Model.upholds_update hg' hmade ⟨hfits.typed, by simp, by simp⟩ rfl rfl id rfl
      (fun _ => .refl _) fun horderly => horderly.setModel rfl (by simp) (by simp)
  refine ⟨hforgets.trans hunloads.toProceeds, fun t ht => ?_⟩
  have hother : g.Remembers t (g.setSession s { g.session s with forged := [] }) := by
    refine .of_same (fun _ h => h) ?_ fun _ _ => rfl
    rw [Graph.session_setSession, if_neg (Ne.symm ht)]
  exact hother.trans (hunloads.remembers t) hgrows hunloads.grows

/-! ## Collections -/

section Changes

variable {c : Collection} {m : Model} {d d' : CollectionData}

omit [RecordStore σ]

/-- Only stored members are filed under another key. -/
theorem CollectionData.Fits.rekey (hd : d.Fits g) {old new : String}
    (hm : d.members.get? old = some m) (hid : (g.model m).record.id = some new) :
    (d.rekey old new).Fits g := by
  refine ⟨hd.admits, fun key x hx => ?_, fun key x hx => ?_, fun key x hx hnew => ?_⟩
  · obtain ⟨before, hbefore, -⟩ := OrderedMap.get?_of_get?_renameKeys hx
    exact hd.members before x hbefore
  · obtain ⟨before, hbefore, -⟩ := OrderedMap.get?_of_get?_renameKeys hx
    exact hd.snapshot before x hbefore
  · obtain ⟨before, hbefore, rfl⟩ := OrderedMap.get?_of_get?_renameKeys hx
    have hother : before ≠ old := by
      rintro rfl
      obtain rfl := Option.some.inj (hbefore.symm.trans hm)
      simp [Record.isNew, hid] at hnew
    rw [rekeyed, if_neg hother]
    exact hd.filed before x hbefore hnew

/-- What may be written to a collection does not change what it admits, once that is decided. -/
theorem Graph.Changes.settles (h : g.Changes d d') : d.membership.Settles d'.membership := by
  cases h with
  | decided hm hopen => exact .inr ⟨hopen, _, rfl⟩
  | joined hm hadmits => exact .inl rfl
  | noted hm hadmits => exact .inl rfl
  | fetched hm hadmits => exact .inl rfl
  | removed key => exact .inl rfl
  | sorted le => exact .inl rfl
  | saved => exact .inl rfl
  | rekeyed hm hid => exact .inl rfl

/-- What may be written to a collection fits in. -/
theorem Graph.Changes.fits (h : g.Changes d d') (hd : d.Fits g) : d'.Fits g := by
  cases h with
  | decided hm hopen =>
      exact ⟨fun t ht => (by cases ht), hd.members, hd.snapshot, hd.filed⟩
  | joined hm hadmits =>
      exact ⟨hd.admits, OrderedMap.forall_get?_insert hd.members hm, hd.snapshot,
        OrderedMap.forall_get?_insert hd.filed fun _ => rfl⟩
  | noted hm hadmits =>
      exact ⟨hd.admits, hd.members, OrderedMap.forall_get?_insert hd.snapshot hm, hd.filed⟩
  | fetched hm hadmits =>
      exact ⟨hd.admits, OrderedMap.forall_get?_insert hd.members hm,
        OrderedMap.forall_get?_insert hd.snapshot hm,
        OrderedMap.forall_get?_insert hd.filed fun _ => rfl⟩
  | removed key =>
      exact ⟨hd.admits, fun other x hx => hd.members other x (OrderedMap.get?_of_get?_erase hx),
        hd.snapshot, fun other x hx => hd.filed other x (OrderedMap.get?_of_get?_erase hx)⟩
  | sorted le =>
      exact ⟨hd.admits, fun key x hx => hd.members key x (OrderedMap.get?_of_get?_sortBy hx),
        hd.snapshot, fun key x hx => hd.filed key x (OrderedMap.get?_of_get?_sortBy hx)⟩
  | saved => exact ⟨hd.admits, hd.members, hd.members, hd.filed⟩
  | rekeyed hm hid => exact hd.rekey hm hid

end Changes

namespace Collection

variable {c : Collection} {m : Model} {s : Session}

theorem upholds_update (hg : g.Sound Kept) (hc : g.HasCollection c)
    {f : CollectionData → CollectionData}
    (hchange : g.Changes (g.collection c) (f (g.collection c))) :
    Upholds Kept (c.update f) g fun _ _ => True := by
  obtain ⟨hwellFormed, hgrows⟩ :=
    hg.wellFormed.setCollection hc (hchange.fits (hg.wellFormed.collections c hc))
  exact Upholds.of_run rfl ⟨hwellFormed, hg.store⟩ hgrows (·.setCollection hchange.settles)
    (fun _ => .collection hc hchange) (fun _ => .of_same (fun _ h => h) rfl fun _ _ => rfl) trivial

theorem upholds_make (hg : g.Sound Kept) {membership : Membership}
    (hmembership : ∀ t, membership = .ofType t → g.registry.get t.name = .ok t) :
    Upholds Kept (make s membership) g fun c g' => g'.HasCollection c := by
  have hfits : (⟨s, membership, OrderedMap.empty, OrderedMap.empty⟩ : CollectionData).Fits g :=
    ⟨hmembership, by simp, by simp, by simp⟩
  obtain ⟨hwellFormed, hgrows, hmade⟩ := hg.wellFormed.addCollection hfits
  exact Upholds.of_run rfl ⟨hwellFormed, hg.store⟩ hgrows (·.addCollection hg.wellFormed _)
    (fun _ => .made s membership) (fun _ => .of_same (fun _ h => h) rfl fun _ _ => rfl) hmade

theorem upholds_ofType (hg : g.Sound Kept) {t : ModelType} (ht : g.registry.get t.name = .ok t) :
    Upholds Kept (ofType s t) g fun c g' => g'.HasCollection c :=
  upholds_make hg fun _ hsame => Membership.ofType.inj hsame ▸ ht

theorem upholds_polymorphic (hg : g.Sound Kept) (entityType : Option String) :
    Upholds Kept (polymorphic s entityType) g fun c g' => g'.HasCollection c :=
  upholds_make hg fun _ hsame => by cases hsame

theorem upholds_forModelType (hg : g.Sound Kept) (modelType : String) :
    Upholds Kept (forModelType s modelType) g fun c g' => g'.HasCollection c := by
  refine Upholds.bind_of_reads rfl (Upholds.bind_ofExcept hg fun t ht => ?_)
  exact upholds_ofType hg (hg.wellFormed.registry.get_name ht)

theorem upholds_forRelationship (hg : g.Sound Kept) (r : Resolved) :
    Upholds Kept (forRelationship s r) g fun c g' => g'.HasCollection c := by
  unfold forRelationship
  split
  · exact Upholds.throw hg
  · refine Upholds.bind_of_reads rfl (Upholds.bind_ofExcept hg fun t ht => ?_)
    split
    · exact upholds_polymorphic hg _
    · exact upholds_ofType hg (hg.wellFormed.registry.get_name ht)

theorem upholds_requireSingleType (hg : g.Sound Kept) (c : Collection) (operation : String) :
    Upholds Kept (c.requireSingleType operation) g fun _ _ => True := by
  refine Upholds.bind_of_reads rfl ?_
  split
  · exact Upholds.throw hg
  · exact Upholds.pure hg trivial

omit [RecordStore σ] in
/-- A model comes in where nothing is open, or it is the first one and decides. -/
theorem admits_of_accept {u : Unit} {g' : Graph σ} (h : Returns (c.accept m) g u g') :
    (g'.collection c).membership.Admits (g.model m).modelType ∧
      ((g.collection c).membership = .ofEntity none ∨
        (g'.collection c).membership = (g.collection c).membership) := by
  simp only [accept, returns_bind, Model.returns_modelType, returns_data, and_assoc,
    exists_eq_left] at h
  cases hmembership : (g.collection c).membership with
  | ofType own =>
      simp only [hmembership] at h
      split at h
      · exact absurd h returns_throw
      · rename_i hname
        obtain ⟨rfl, -⟩ := returns_pure.mp h
        exact ⟨hmembership ▸ not_not.mp hname, .inr hmembership⟩
  | ofEntity decided =>
      cases decided with
      | none =>
          simp only [hmembership, returns_update] at h
          subst h
          rw [Graph.collection_setCollection, if_pos rfl]
          exact ⟨rfl, .inl rfl⟩
      | some expected =>
          simp only [hmembership] at h
          split at h
          · simp at h
          · rename_i hentity
            obtain ⟨rfl, -⟩ := returns_pure.mp h
            exact ⟨hmembership ▸ congrArg some (not_not.mp hentity), .inr hmembership⟩

theorem upholds_accept (hg : g.Sound Kept) (hc : g.HasCollection c) (hm : g.HasModel m) :
    Upholds Kept (c.accept m) g fun _ g' =>
      (g'.collection c).membership.Admits (g'.model m).modelType := by
  have hlets : Upholds Kept (c.accept m) g fun _ _ => True := by
    refine Upholds.bind_of_reads rfl (Upholds.bind_of_reads rfl ?_)
    split
    · split
      · exact Upholds.throw hg
      · exact Upholds.pure hg trivial
    · rename_i hopen
      exact upholds_update hg hc (.decided hm hopen)
    · split
      · exact Upholds.bind_of_reads rfl (Upholds.throw hg)
      · exact Upholds.pure hg trivial
  refine hlets.strengthen fun _ g' haccept _ => ?_
  rw [model_of_accept haccept]
  exact (admits_of_accept haccept).1

theorem upholds_put (hg : g.Sound Kept) (hc : g.HasCollection c) (hm : g.HasModel m) :
    Upholds Kept (c.put m) g fun _ _ => True :=
  (upholds_accept hg hc hm).bind fun _ _ hg' hgrows hadmits =>
    Upholds.bind_of_reads rfl
      (upholds_update hg' (hgrows.collection c hc) (.joined (hgrows.model m hm) hadmits))

omit [RecordStore σ] in
/-- What is decided stays when a model is put. -/
theorem membership_of_put {u : Unit} {g' : Graph σ} (h : Returns (c.put m) g u g')
    (hdecided : (g.collection c).membership ≠ .ofEntity none) :
    (g'.collection c).membership = (g.collection c).membership := by
  simp only [put, returns_bind, Model.returns_key, returns_update, and_assoc,
    exists_eq_left] at h
  obtain ⟨_, between, haccept, rfl⟩ := h
  rw [Graph.collection_setCollection, if_pos rfl]
  exact (admits_of_accept haccept).2.resolve_left hdecided

theorem upholds_putSnapshot (hg : g.Sound Kept) (hc : g.HasCollection c) (hm : g.HasModel m) :
    Upholds Kept (c.putSnapshot m) g fun _ _ => True :=
  (upholds_accept hg hc hm).bind fun _ _ hg' hgrows hadmits =>
    Upholds.bind_of_reads rfl
      (upholds_update hg' (hgrows.collection c hc) (.noted (hgrows.model m hm) hadmits))

theorem upholds_putFetched (hg : g.Sound Kept) (hc : g.HasCollection c) (hm : g.HasModel m) :
    Upholds Kept (c.putFetched m) g fun _ _ => True :=
  (upholds_accept hg hc hm).bind fun _ _ hg' hgrows hadmits =>
    Upholds.bind_of_reads rfl
      (upholds_update hg' (hgrows.collection c hc) (.fetched (hgrows.model m hm) hadmits))

theorem upholds_remove (hg : g.Sound Kept) (hc : g.HasCollection c) (key : String) :
    Upholds Kept (c.remove key) g fun found g' => ∀ m ∈ found, g'.HasModel m := by
  refine Upholds.bind_of_reads rfl ?_
  refine (upholds_update hg hc (.removed key)).bind fun _ g' hg' hgrows _ =>
    Upholds.pure hg' fun m hm => ?_
  exact hgrows.model m ((hg.wellFormed.collections c hc).members key m hm)

theorem upholds_removeModel (hg : g.Sound Kept) (hc : g.HasCollection c) (m : Model) :
    Upholds Kept (c.removeModel m) g fun found g' => ∀ m ∈ found, g'.HasModel m := by
  refine Upholds.bind_of_reads rfl ?_
  split
  · exact Upholds.pure hg (by simp)
  · exact upholds_remove hg hc _

theorem upholds_markSaved (hg : g.Sound Kept) (hc : g.HasCollection c) :
    Upholds Kept c.markSaved g fun _ _ => True :=
  upholds_update hg hc .saved

theorem upholds_sortByField (hg : g.Sound Kept) (hc : g.HasCollection c) (path : String)
    (direction : SortDirection) :
    Upholds Kept (c.sortByField path direction) g fun _ _ => True :=
  Upholds.bind_of_reads rfl (upholds_update hg hc (.sorted _))

/-- Only stored members are renamed. -/
theorem upholds_replaceOldKey (hg : g.Sound Kept) (hc : g.HasCollection c) (oldKey : String) :
    Upholds Kept (c.replaceOldKey oldKey) g fun _ _ => True := by
  refine Upholds.bind_of_reads rfl ?_
  split
  · exact Upholds.pure hg trivial
  · rename_i m hm
    refine Upholds.bind_of_reads rfl ?_
    split
    · exact Upholds.pure hg trivial
    · rename_i newKey hid
      split
      · exact (upholds_update hg hc (.rekeyed hm hid)).bind fun _ g' hg' _ _ =>
          Upholds.pure hg' trivial
      · exact Upholds.pure hg trivial

theorem upholds_putNew (hkept : RecordStore.Keeps Kept) (hg : g.Sound Kept)
    (hc : g.HasCollection c) : Upholds Kept c.putNew g fun m g' => g'.HasModel m := by
  refine Upholds.bind_of_reads rfl ?_
  have hfits := hg.wellFormed.collections c hc
  split
  · exact Upholds.throw hg
  · rename_i t ht
    have hadmitted : (g.collection c).membership = .ofType t := by
      unfold CollectionData.modelType? at ht
      split at ht
      · rename_i hmembership
        rw [hmembership, Option.some.inj ht]
      · cases ht
    refine (Model.upholds_forgeFresh hkept hg (hfits.admits t hadmitted)).bind
      fun m g' hg' hgrows hm => ?_
    refine (upholds_put hg' (hgrows.collection c hc) hm).bind fun _ g'' hg'' hlater _ => ?_
    exact Upholds.pure hg'' (hlater.model m hm)

theorem upholds_forgeByIds (hkept : RecordStore.Keeps Kept) (hg : g.Sound Kept)
    (modelType : String) (ids : List String) :
    Upholds Kept (forgeByIds s modelType ids) g fun c g' => g'.HasCollection c := by
  refine Upholds.bind_of_reads rfl (Upholds.bind_ofExcept hg fun t ht => ?_)
  have hregistered := hg.wellFormed.registry.get_name ht
  refine (upholds_ofType hg hregistered).bind fun c g₁ hg₁ hgrows₁ hc => ?_
  refine (Upholds.call hg₁ (hkept.loadMultiple _ _ _ hg₁.store)).bind
    fun rs g₂ hg₂ hgrows₂ _ => ?_
  have hmade : g₂.HasCollection c := hgrows₂.collection c hc
  refine (Upholds.forM hg₂ fun r _ g₃ hg₃ hgrows₃ => ?_).bind fun _ g₃ hg₃ hgrows₃ _ =>
    Upholds.pure hg₃ (hgrows₃.collection c hmade)
  have hstill : g₃.registry.get t.name = .ok t := by
    rw [hgrows₃.registry, hgrows₂.registry, hgrows₁.registry, hregistered]
  split
  · exact (Upholds.throw hg₃).bind (q := fun _ _ => False) fun _ _ _ _ hnever => hnever.elim
  · refine (Model.upholds_forge hg₃ hstill r).bind fun m g₄ hg₄ hgrows₄ hm => ?_
    exact upholds_putFetched hg₄ (hgrows₄.collection c (hgrows₃.collection c hmade)) hm

end Collection

end RecordGraph
