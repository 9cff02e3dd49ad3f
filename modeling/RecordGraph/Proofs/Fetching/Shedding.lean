/-
# What a fetch may take away

Fetching a relationship begins with unloading it, and nothing is put back if the fetch fails
later on. `Sheds` says of one member what it may have lost by then, and `Disturbed` of a whole
graph that nothing else was lost since `old`: it speaks of every state that a fetch goes through,
so also of those where it may stop. One lemma for each kind of write says that it stays so.

What came since `old` is told apart by its number. A collection made since is loaded in one place
only, so that what is put to it can be said to be put there.
-/
import RecordGraph.Proofs.Fetching.Groups
import RecordGraph.Proofs.Graphs

namespace RecordGraph

variable {σ : Type}

namespace Graph

/-- Of the models of `old`, the collection holds those that the member had loaded unsaved, each
under its key unless a model made since stands there, and no others. Its snapshot holds only
models made since. -/
structure Refills (old : Graph σ) (name : String) (m : Model) (d : CollectionData) : Prop where
  members : ∀ key x, d.members.get? key = some x → old.HasModel x →
    x ∈ old.unsavedChildren m name
  kept : ∀ x ∈ old.unsavedChildren m name, ∃ y,
    d.members.get? (old.model x).key = some y ∧ (old.HasModel y → y = x)
  snapshot : ∀ key x, d.snapshot.get? key = some x → ¬ old.HasModel x

/-- The member had no unsaved parent under the name, and has none there now but one made
since. -/
structure ShedsParent (old : Graph σ) (name : String) (g : Graph σ) (m : Model) : Prop where
  only : g.model m = { old.model m with parents := (g.model m).parents }
  others : ∀ other, other ≠ name →
    (g.model m).parents.get? other = (old.model m).parents.get? other
  saved : ∀ p, (old.model m).parents.get? name = some p → (old.model p).record.isNew = false
  parent : ∀ p, (g.model m).parents.get? name = some p → ¬ old.HasModel p

/-- The member has another collection under the name, made since and filled again. -/
structure ShedsChildren (old : Graph σ) (name : String) (g : Graph σ) (m : Model) : Prop where
  only : g.model m = { old.model m with children := (g.model m).children }
  others : ∀ other, other ≠ name →
    (g.model m).children.get? other = (old.model m).children.get? other
  collection : ∃ c, (g.model m).children.get? name = some c ∧ ¬ old.HasCollection c ∧
    old.Refills name m (g.collection c)

/-- What the member had loaded under the name was unloaded since, and maybe loaded again. -/
def Sheds (old : Graph σ) (name : String) (g : Graph σ) (m : Model) : Prop :=
  ∃ r, old.registry.resolve (old.model m).modelType.name name = .ok r ∧
    if r.holdsSingle = true then old.ShedsParent name g m else old.ShedsChildren name g m

/-- What was made since `old` is loaded where nothing else is, and models made since have only
such collections loaded. -/
structure Lodged (old g : Graph σ) : Prop where
  fresh : ∀ x n c, ¬ old.HasModel x → (g.model x).children.get? n = some c →
    ¬ old.HasCollection c
  made : ∀ x n c, (g.model x).children.get? n = some c → g.HasCollection c
  apart : ∀ c, ¬ old.HasCollection c → ∀ x n y k, (g.model x).children.get? n = some c →
    (g.model y).children.get? k = some c → x = y ∧ n = k

/-- Nothing was lost since `old` but what `touched` models had loaded under the name, and some
of them did shed that. -/
structure Disturbed (old : Graph σ) (name : String) (touched shed : List Model) (g : Graph σ) :
    Prop where
  spares : old.Spares g touched
  lodged : old.Lodged g
  member : ∀ m, old.HasModel m → g.model m = old.model m ∨ old.Sheds name g m
  shed : ∀ m ∈ shed, old.HasModel m ∧ old.Sheds name g m

/-- Models were made that have nothing loaded, and nothing else happened to the objects of
`g`. -/
structure ForgesBare (g g' : Graph σ) : Prop where
  forges : g.OnlyForges g'
  bare : ∀ x, ¬ g.HasModel x → (g'.model x).children = OrderedMap.empty

/-! ## What was made since -/

namespace ForgesBare

variable {g g' g'' : Graph σ}

theorem refl (g : Graph σ) : g.ForgesBare g :=
  ⟨.refl g, fun _ hx => by rw [model_of_not_hasModel hx]; rfl⟩

theorem trans (first : g.ForgesBare g') (second : g'.ForgesBare g'') : g.ForgesBare g'' where
  forges := first.forges.trans second.forges
  bare x hx := by
    by_cases hmade : g'.HasModel x
    · rw [second.forges.model_eq x hmade, first.bare x hx]
    · exact second.bare x hmade

/-- Nothing happened to the objects at all. -/
theorem of_same (hregistry : g'.registry = g.registry) (hmodels : g'.models = g.models)
    (hcollections : g'.collections = g.collections) : g.ForgesBare g' := by
  have hmodel : ∀ m, g'.model m = g.model m := fun m => by
    rw [model, hmodels]
    rfl
  refine ⟨⟨hregistry, hcollections, Nat.le_of_eq (by rw [hmodels]), fun m _ => hmodel m⟩,
    fun x hx => ?_⟩
  rw [hmodel, model_of_not_hasModel hx]
  rfl

theorem addModel {d : ModelData} (hd : d.children = OrderedMap.empty) :
    g.ForgesBare (g.addModel d) := by
  refine ⟨.addModel g d, fun x hx => ?_⟩
  rw [model_addModel]
  split
  · exact hd
  · rw [model_of_not_hasModel hx]
    rfl

end ForgesBare

section Made

variable {old g g' : Graph σ} {touched : List Model} {x : Model} {d : ModelData}

theorem Spares.not_hasCollection_next (h : old.Spares g touched) :
    ¬ old.HasCollection g.nextCollection :=
  fun hold => g.not_hasCollection_nextCollection (h.hasCollection hold)

namespace Lodged

theorem refl (hg : g.WellFormed) : g.Lodged g := by
  have hmade : ∀ x n c, (g.model x).children.get? n = some c → g.HasCollection c := by
    intro x n c hc
    by_cases hx : g.HasModel x
    · exact hg.children x n c hx hc
    · rw [model_of_not_hasModel hx] at hc
      cases hc
  refine ⟨fun x n c hx hc => ?_, hmade, fun c hc x n y k hx _ => absurd (hmade x n c hx) hc⟩
  rw [model_of_not_hasModel hx] at hc
  cases hc

/-- Nothing was loaded. -/
theorem of_loaded (h : old.Lodged g) (hsize : g.collections.size ≤ g'.collections.size)
    (hloaded : ∀ x n c, (g'.model x).children.get? n = some c →
      (g.model x).children.get? n = some c) : old.Lodged g' where
  fresh x n c hx hc := h.fresh x n c hx (hloaded x n c hc)
  made x n c hc := Nat.lt_of_lt_of_le (h.made x n c (hloaded x n c hc)) hsize
  apart c hc x n y k hx hy := h.apart c hc x n y k (hloaded x n c hx) (hloaded y k c hy)

theorem addCollection (h : old.Lodged g) (d : CollectionData) : old.Lodged (g.addCollection d) :=
  h.of_loaded (by simp [Graph.addCollection]) fun _ _ _ hc => hc

theorem setParents (h : old.Lodged g) (x : Model) (parents : OrderedMap String Model) :
    old.Lodged (g.setModel x { g.model x with parents := parents }) := by
  refine h.of_loaded (Nat.le_refl _) fun y n c hc => ?_
  rw [model_setModel] at hc
  split at hc
  · rename_i hxy
    exact hxy ▸ hc
  · exact hc

theorem unheld_next (h : old.Lodged g) (d : CollectionData) :
    (g.addCollection d).Unheld g.nextCollection := by
  intro x n hc
  rw [model_addCollection] at hc
  exact g.not_hasCollection_nextCollection (h.made x n _ hc)

/-- A model loads one collection that was made since and is loaded nowhere yet. -/
theorem setModel (h : old.Lodged g) {n : String} {c : Collection}
    (hd : d.children = (g.model x).children.insert n c) (hnew : ¬ old.HasCollection c)
    (hmade : g.HasCollection c) (hunheld : g.Unheld c) : old.Lodged (g.setModel x d) := by
  have hloaded : ∀ y k e, ((g.setModel x d).model y).children.get? k = some e →
      (y = x ∧ k = n ∧ e = c) ∨ (e ≠ c ∧ (g.model y).children.get? k = some e) := by
    intro y k e he
    have hother : (g.model y).children.get? k = some e →
        (y = x ∧ k = n ∧ e = c) ∨ (e ≠ c ∧ (g.model y).children.get? k = some e) :=
      fun hold => .inr ⟨fun hec => hunheld y k (hec ▸ hold), hold⟩
    rw [model_setModel] at he
    split at he
    · rename_i hxy
      rw [hd, OrderedMap.get?_insert] at he
      split at he
      · rename_i hnk
        exact .inl ⟨hxy.symm, hnk.symm, (Option.some.inj he).symm⟩
      · exact hother (hxy ▸ he)
    · exact hother he
  refine ⟨fun y k e hy he => ?_, fun y k e he => ?_, fun e hnewe y k z l hy hz => ?_⟩
  · rcases hloaded y k e he with ⟨-, -, rfl⟩ | ⟨-, hold⟩
    · exact hnew
    · exact h.fresh y k e hy hold
  · rcases hloaded y k e he with ⟨-, -, rfl⟩ | ⟨-, hold⟩
    · exact hmade
    · exact h.made y k e hold
  · rcases hloaded y k e hy with ⟨rfl, rfl, rfl⟩ | ⟨hec, hold⟩
    · rcases hloaded z l _ hz with ⟨rfl, rfl, -⟩ | ⟨hne, -⟩
      · exact ⟨rfl, rfl⟩
      · exact absurd rfl hne
    · rcases hloaded z l e hz with ⟨-, -, rfl⟩ | ⟨-, hold'⟩
      · exact absurd rfl hec
      · exact h.apart e hnewe y k z l hold hold'

/-- A model loads a collection that is made for it. -/
theorem setNext (h : old.Lodged g) (hnew : ¬ old.HasCollection g.nextCollection) (x : Model)
    (n : String) (d : CollectionData) :
    old.Lodged ((g.addCollection d).setModel x
      { g.model x with children := (g.model x).children.insert n g.nextCollection }) :=
  (h.addCollection d).setModel rfl hnew (g.hasCollection_nextCollection d) (h.unheld_next d)

end Lodged

end Made

/-- A model made since may be put, to the snapshot too. -/
theorem Refills.putFetched {old : Graph σ} {name : String} {m far : Model} {d : CollectionData}
    (h : old.Refills name m d) (hfar : ¬ old.HasModel far) (key : String)
    (membership : Membership) :
    old.Refills name m { d with
      membership := membership
      members := d.members.insert key far
      snapshot := d.snapshot.insert key far } where
  members k x hx hold := by
    rw [OrderedMap.get?_insert] at hx
    split at hx
    · exact absurd (Option.some.inj hx ▸ hold) hfar
    · exact h.members k x hx hold
  kept x hx := by
    rw [OrderedMap.get?_insert]
    split
    · exact ⟨far, rfl, fun hold => absurd hold hfar⟩
    · exact h.kept x hx
  snapshot k x hx := by
    rw [OrderedMap.get?_insert] at hx
    split at hx
    · exact Option.some.inj hx ▸ hfar
    · exact h.snapshot k x hx

section Refilling

variable {g : Graph σ} {name : String} {m x : Model}

/-- What is unsaved of a collection that holds unsaved models under their keys. -/
theorem mem_values_insertAll_unsaved {us : List Model} (key : Model → String)
    (hinj : ∀ x ∈ us, ∀ y ∈ us, key x = key y → x = y)
    (hnew : ∀ x ∈ us, (g.model x).record.isNew = true) :
    x ∈ (OrderedMap.empty.insertAll key us).values.filter (fun x => (g.model x).record.isNew) ↔
      x ∈ us := by
  rw [List.mem_filter]
  constructor
  · rintro ⟨hx, -⟩
    exact (OrderedMap.mem_values_of_insertAll hx).resolve_left (by simp [OrderedMap.values])
  · intro hx
    have hget := OrderedMap.get?_insertAll_of_mem (m := OrderedMap.empty) hx
      fun y hy hkey => hinj y hy x hx hkey
    exact ⟨OrderedMap.mem_values_iff.mpr ⟨key x, hget⟩, hnew x hx⟩

/-- After a reset every model has the same unsaved models loaded as before. -/
theorem mem_unsavedChildren_of_reset
    (hmade : ∀ x n c, (g.model x).children.get? n = some c → g.HasCollection c)
    (hinj : ∀ x ∈ g.unsavedChildren m name, ∀ y ∈ g.unsavedChildren m name,
      (g.model x).key = (g.model y).key → x = y) {s : Session} {membership : Membership}
    (n : Model) (x : Model) :
    x ∈ ((g.addCollection ⟨s, membership,
        OrderedMap.empty.insertAll (fun x => (g.model x).key) (g.unsavedChildren m name),
        OrderedMap.empty⟩).setModel m
      { g.model m with children := (g.model m).children.insert name g.nextCollection }
        ).unsavedChildren n name ↔ x ∈ g.unsavedChildren n name := by
  have hrecord : ∀ y, (if m = y then { g.model m with
      children := (g.model m).children.insert name g.nextCollection } else g.model y).record =
        (g.model y).record := by
    intro y
    split
    · rename_i hmy
      rw [hmy]
    · rfl
  have hnew : ∀ x ∈ g.unsavedChildren m name, (g.model x).record.isNew = true := by
    intro x hx
    unfold unsavedChildren at hx
    split at hx
    · exact (List.mem_filter.mp hx).2
    · cases hx
  by_cases hmn : m = n
  · subst hmn
    rw [← mem_values_insertAll_unsaved (fun x => (g.model x).key) hinj hnew]
    conv_lhs => rw [unsavedChildren]
    simp [hrecord]
  · unfold unsavedChildren
    simp only [model_setModel, model_addCollection, if_neg hmn, hrecord, collection_setModel,
      collection_addCollection]
    cases hloaded : (g.model n).children.get? name with
    | none => rfl
    | some c =>
        simp only [if_neg (hmade n name c hloaded).ne_nextCollection]

/-- A collection that is filled with what was unsaved is filled again. -/
theorem Refills.of_unsaved {old : Graph σ} (hold : old.WellFormed) (hm : old.HasModel m)
    {us : List Model} (hus : ∀ x, x ∈ us ↔ x ∈ old.unsavedChildren m name)
    (hkey : ∀ x, old.HasModel x → (g.model x).key = (old.model x).key) (s : Session)
    (membership : Membership) :
    old.Refills name m ⟨s, membership,
      OrderedMap.empty.insertAll (fun x => (g.model x).key) us, OrderedMap.empty⟩ := by
  have hmade : ∀ x ∈ us, old.HasModel x := fun x hx =>
    (hold.of_mem_unsavedChildren hm ((hus x).mp hx)).1
  refine ⟨fun key x hx _ => ?_, fun x hx => ⟨x, ?_, fun _ => rfl⟩, by simp⟩
  · have hmem := OrderedMap.mem_values_of_insertAll (OrderedMap.mem_values_iff.mpr ⟨key, hx⟩)
    exact (hus x).mp (hmem.resolve_left (by simp [OrderedMap.values]))
  · have hxus := (hus x).mpr hx
    rw [← hkey x (hmade x hxus)]
    refine OrderedMap.get?_insertAll_of_mem hxus fun y hy hsame => ?_
    rw [hkey x (hmade x hxus), hkey y (hmade y hy)] at hsame
    exact List.inj_on_of_nodup_map (hold.nodup_keys_unsavedChildren hm name) ((hus y).mp hy) hx
      hsame

end Refilling

namespace Sheds

variable {old g g' : Graph σ} {name : String} {m : Model}

/-- The model is as it was, and the collection that it has loaded is still filled again. -/
theorem of_same (h : old.Sheds name g m) (hmodel : g'.model m = g.model m)
    (hcollection : ∀ c, (g.model m).children.get? name = some c → ¬ old.HasCollection c →
      old.Refills name m (g.collection c) → old.Refills name m (g'.collection c)) :
    old.Sheds name g' m := by
  obtain ⟨r, hresolve, hshed⟩ := h
  refine ⟨r, hresolve, ?_⟩
  by_cases hsingle : r.holdsSingle = true
  · rw [if_pos hsingle] at hshed ⊢
    exact ⟨hmodel ▸ hshed.only, hmodel ▸ hshed.others, hshed.saved, hmodel ▸ hshed.parent⟩
  · rw [if_neg hsingle] at hshed ⊢
    obtain ⟨c, hc, hnew, hrefills⟩ := hshed.collection
    exact ⟨hmodel ▸ hshed.only, hmodel ▸ hshed.others, c, hmodel ▸ hc, hnew,
      hcollection c hc hnew hrefills⟩

theorem parent (h : old.Sheds name g m) {r : Resolved}
    (hresolve : old.registry.resolve (old.model m).modelType.name name = .ok r)
    (hsingle : r.holdsSingle = true) : old.ShedsParent name g m := by
  obtain ⟨r', hresolve', hshed⟩ := h
  obtain rfl : r = r' := Except.ok.inj (hresolve.symm.trans hresolve')
  rwa [if_pos hsingle] at hshed

theorem children (h : old.Sheds name g m) {r : Resolved}
    (hresolve : old.registry.resolve (old.model m).modelType.name name = .ok r)
    (hmany : r.holdsSingle = false) : old.ShedsChildren name g m := by
  obtain ⟨r', hresolve', hshed⟩ := h
  obtain rfl : r = r' := Except.ok.inj (hresolve.symm.trans hresolve')
  rwa [if_neg (by simp [hmany])] at hshed

end Sheds

namespace Disturbed

variable {old g g' : Graph σ} {name : String} {touched shed : List Model} {m x : Model}
  {d : ModelData}

/-- Nothing was disturbed yet. -/
theorem refl (hg : g.WellFormed) (name : String) : g.Disturbed name [] [] g :=
  ⟨.refl g, .refl hg, fun _ _ => .inl rfl, by simp⟩

theorem mono (h : old.Disturbed name touched shed g) {more fewer : List Model}
    (hmore : ∀ m ∈ touched, m ∈ more) (hfewer : ∀ m ∈ fewer, m ∈ shed) :
    old.Disturbed name more fewer g :=
  ⟨h.spares.mono hmore, h.lodged, h.member, fun m hm => h.shed m (hfewer m hm)⟩

/-- More models may be touched. -/
theorem append (h : old.Disturbed name touched shed g) (more : List Model) :
    old.Disturbed name (touched ++ more) shed g :=
  h.mono (fun _ hm => List.mem_append_left _ hm) fun _ hm => hm

/-- Who shed something need not be known. -/
theorem forget (h : old.Disturbed name touched shed g) : old.Disturbed name touched [] g :=
  h.mono (fun _ hm => hm) (by simp)

theorem forgetLast {last : List Model} (h : old.Disturbed name touched (shed ++ last) g) :
    old.Disturbed name touched shed g :=
  h.mono (fun _ hm => hm) fun _ hm => List.mem_append_left _ hm

/-! ## Writes -/

/-- The models of `old` are as they were, and what they shed is still filled again. -/
theorem of_same (h : old.Disturbed name touched shed g) (hspares : old.Spares g' touched)
    (hlodged : old.Lodged g') (hmodel : ∀ m, old.HasModel m → g'.model m = g.model m)
    (hcollection : ∀ m c, old.HasModel m → (g.model m).children.get? name = some c →
      ¬ old.HasCollection c → old.Refills name m (g.collection c) →
        old.Refills name m (g'.collection c)) : old.Disturbed name touched shed g' := by
  have hsheds : ∀ m, old.HasModel m → old.Sheds name g m → old.Sheds name g' m :=
    fun m hm hshed => hshed.of_same (hmodel m hm) fun c => hcollection m c hm
  refine ⟨hspares, hlodged, fun m hm => ?_, fun m hm => ?_⟩
  · rw [hmodel m hm]
    exact (h.member m hm).imp_right (hsheds m hm)
  · exact ⟨(h.shed m hm).1, hsheds m (h.shed m hm).1 (h.shed m hm).2⟩

/-- Models were made that have nothing loaded. -/
theorem forges (h : old.Disturbed name touched shed g) (hbare : g.ForgesBare g') :
    old.Disturbed name touched shed g' := by
  have hforges := hbare.forges
  have hmodel : ∀ m, old.HasModel m → g'.model m = g.model m := fun m hm =>
    hforges.model_eq m (h.spares.hasModel hm)
  refine h.of_same
    { registry := hforges.registry.trans h.spares.registry
      models_size := Nat.le_trans h.spares.models_size hforges.models_le
      collections_size := by rw [hforges.collections]; exact h.spares.collections_size
      model := fun m hm => by rw [hmodel m hm, h.spares.model m hm]
      others := fun m hm hout => by rw [hmodel m hm, h.spares.others m hm hout]
      collection := fun c hc => by rw [hforges.collection_eq, h.spares.collection c hc] }
    (h.lodged.of_loaded (Nat.le_of_eq (by rw [hforges.collections])) fun x n c hc => ?_) hmodel
    fun m c _ _ _ hrefills => by rwa [hforges.collection_eq]
  by_cases hx : g.HasModel x
  · rwa [hforges.model_eq x hx] at hc
  · rw [hbare.bare x hx] at hc
    cases hc

/-- A collection was made. -/
theorem addCollection (h : old.Disturbed name touched shed g) (d : CollectionData) :
    old.Disturbed name touched shed (g.addCollection d) := by
  have hsize : g.collections.size ≤ (g.addCollection d).collections.size := by
    simp [Graph.addCollection]
  have hcollection : ∀ c, g.HasCollection c →
      (g.addCollection d).collection c = g.collection c := fun c hc => by
    rw [collection_addCollection, if_neg hc.ne_nextCollection]
  exact h.of_same
    { h.spares with
      collections_size := Nat.le_trans h.spares.collections_size hsize
      collection := fun c hc => by
        rw [hcollection c (h.spares.hasCollection hc), h.spares.collection c hc] }
    (h.lodged.addCollection d) (fun _ _ => rfl)
    fun m c _ hc _ hrefills => by rwa [hcollection c (h.lodged.made m name c hc)]

/-- A collection that was made since is written to, such that it is still filled again where a
member has loaded it. -/
theorem setCollection (h : old.Disturbed name touched shed g) {c : Collection}
    {d : CollectionData} (hnew : ¬ old.HasCollection c)
    (hd : ∀ m, old.HasModel m → (g.model m).children.get? name = some c →
      old.Refills name m (g.collection c) → old.Refills name m d) :
    old.Disturbed name touched shed (g.setCollection c d) := by
  have hsize : g.collections.size ≤ (g.setCollection c d).collections.size :=
    Cells.size_le_size_set _ _ _
  refine h.of_same
    { h.spares with
      collections_size := Nat.le_trans h.spares.collections_size hsize
      collection := fun e he => ?_ }
    (h.lodged.of_loaded hsize fun _ _ _ hc => hc) (fun _ _ => rfl)
    fun m e hm he _ hrefills => ?_
  · rw [collection_setCollection, if_neg, h.spares.collection e he]
    rintro rfl
    exact hnew he
  · rw [collection_setCollection]
    split
    · rename_i hce
      subst hce
      exact hd m hm he hrefills
    · exact hrefills

/-- A model that was made since is written to. -/
theorem setFresh (h : old.Disturbed name touched shed g) (hx : ¬ old.HasModel x)
    (hlodged : old.Lodged (g.setModel x d)) :
    old.Disturbed name touched shed (g.setModel x d) := by
  have hmodel : ∀ m, old.HasModel m → (g.setModel x d).model m = g.model m := by
    intro m hm
    rw [model_setModel, if_neg]
    rintro rfl
    exact hx hm
  exact h.of_same
    { h.spares with
      models_size := Nat.le_trans h.spares.models_size (Cells.size_le_size_set _ _ _)
      model := fun m hm => by rw [hmodel m hm, h.spares.model m hm]
      others := fun m hm hout => by rw [hmodel m hm, h.spares.others m hm hout] }
    hlodged hmodel fun _ _ _ _ _ hrefills => hrefills

/-- A member is written to, and sheds what it had. -/
theorem setMember (h : old.Disturbed name touched shed g) (hm : old.HasModel m)
    (htouched : m ∈ touched) (hlodged : old.Lodged (g.setModel m d))
    (hsheds : old.Sheds name (g.setModel m d) m) :
    old.Disturbed name touched (shed ++ [m]) (g.setModel m d) := by
  have hmodel : ∀ n, n ≠ m → (g.setModel m d).model n = g.model n := by
    intro n hn
    rw [model_setModel, if_neg (Ne.symm hn)]
  have hkeeps : ∀ n, n ≠ m → old.Sheds name g n → old.Sheds name (g.setModel m d) n :=
    fun n hn hshed => hshed.of_same (hmodel n hn) fun _ _ _ hrefills => hrefills
  have honly : (g.setModel m d).model m = { old.model m with
      parents := ((g.setModel m d).model m).parents
      children := ((g.setModel m d).model m).children } := by
    obtain ⟨r, -, hshed⟩ := hsheds
    split at hshed
    · rw [hshed.only]
    · rw [hshed.only]
  refine ⟨{ h.spares with
      models_size := Nat.le_trans h.spares.models_size (Cells.size_le_size_set _ _ _)
      model := fun n hn => ?_
      others := fun n hn hout => ?_ }, hlodged, fun n hn => ?_, fun n hn => ?_⟩
  · by_cases hnm : n = m
    · exact hnm ▸ honly
    · rw [hmodel n hnm, h.spares.model n hn]
  · rw [hmodel n fun hnm => hout (hnm ▸ htouched), h.spares.others n hn hout]
  · by_cases hnm : n = m
    · exact .inr (hnm ▸ hsheds)
    · rw [hmodel n hnm]
      exact (h.member n hn).imp_right (hkeeps n hnm)
  · by_cases hnm : n = m
    · subst hnm
      exact ⟨hm, hsheds⟩
    · have hold := h.shed n (by simpa [hnm] using hn)
      exact ⟨hold.1, hkeeps n hnm hold.2⟩

/-- A member that is as it was, or shed what it had, may shed its parent. -/
theorem shedsParent (h : old.Disturbed name touched shed g) (hm : old.HasModel m)
    {r : Resolved} (hresolve : old.registry.resolve (old.model m).modelType.name name = .ok r)
    (hsingle : r.holdsSingle = true)
    (hsaved : ∀ p, (old.model m).parents.get? name = some p → (old.model p).record.isNew = false)
    {parents : OrderedMap String Model}
    (hothers : ∀ other, other ≠ name → parents.get? other = (g.model m).parents.get? other)
    (hparent : ∀ p, parents.get? name = some p → ¬ old.HasModel p) :
    old.Sheds name (g.setModel m { g.model m with parents := parents }) m := by
  have hsame : g.model m = { old.model m with parents := (g.model m).parents } ∧
      ∀ other, other ≠ name →
        (g.model m).parents.get? other = (old.model m).parents.get? other := by
    rcases h.member m hm with hold | hshed
    · rw [hold]
      exact ⟨rfl, fun _ _ => rfl⟩
    · have hparent := hshed.parent hresolve hsingle
      exact ⟨hparent.only, hparent.others⟩
  refine ⟨r, hresolve, ?_⟩
  rw [if_pos hsingle]
  refine ⟨?_, fun other hother => ?_, hsaved, fun p hp => ?_⟩
  · rw [model_setModel, if_pos rfl, hsame.1]
  · rw [model_setModel, if_pos rfl, ← hsame.2 other hother]
    exact hothers other hother
  · rw [model_setModel, if_pos rfl] at hp
    exact hparent p hp

/-- A member that is as it was, or shed what it had, may load a collection that is filled
again. -/
theorem shedsChildren (h : old.Disturbed name touched shed g) (hm : old.HasModel m)
    {r : Resolved} (hresolve : old.registry.resolve (old.model m).modelType.name name = .ok r)
    (hmany : r.holdsSingle = false) {c : Collection} (hnew : ¬ old.HasCollection c)
    (hrefills : old.Refills name m (g.collection c)) :
    old.Sheds name (g.setModel m
      { g.model m with children := (g.model m).children.insert name c }) m := by
  have hsame : g.model m = { old.model m with children := (g.model m).children } ∧
      ∀ other, other ≠ name →
        (g.model m).children.get? other = (old.model m).children.get? other := by
    rcases h.member m hm with hold | hshed
    · rw [hold]
      exact ⟨rfl, fun _ _ => rfl⟩
    · have hchildren := hshed.children hresolve hmany
      exact ⟨hchildren.only, hchildren.others⟩
  refine ⟨r, hresolve, ?_⟩
  rw [if_neg (by simp [hmany])]
  refine ⟨?_, fun other hother => ?_, c, ?_, hnew, hrefills⟩
  · rw [model_setModel, if_pos rfl, hsame.1]
  · rw [model_setModel, if_pos rfl, ← hsame.2 other hother, OrderedMap.get?_insert,
      if_neg (Ne.symm hother)]
  · rw [model_setModel, if_pos rfl, OrderedMap.get?_insert, if_pos rfl]

/-- A member loads a collection that is made for it and filled again. -/
theorem setNext (h : old.Disturbed name touched shed g) (hm : old.HasModel m)
    (htouched : m ∈ touched) {r : Resolved}
    (hresolve : old.registry.resolve (old.model m).modelType.name name = .ok r)
    (hmany : r.holdsSingle = false) {d : CollectionData} (hrefills : old.Refills name m d) :
    old.Disturbed name touched (shed ++ [m]) ((g.addCollection d).setModel m
      { g.model m with children := (g.model m).children.insert name g.nextCollection }) := by
  have hnew := h.spares.not_hasCollection_next
  have hadded := h.addCollection d
  refine hadded.setMember hm htouched (h.lodged.setNext hnew m name d)
    (hadded.shedsChildren hm hresolve hmany hnew ?_)
  rw [collection_addCollection, if_pos rfl]
  exact hrefills

/-- A member writes down other parents under the name. -/
theorem setParents (h : old.Disturbed name touched shed g) (hm : old.HasModel m)
    (htouched : m ∈ touched) {r : Resolved}
    (hresolve : old.registry.resolve (old.model m).modelType.name name = .ok r)
    (hsingle : r.holdsSingle = true)
    (hsaved : ∀ p, (old.model m).parents.get? name = some p → (old.model p).record.isNew = false)
    {parents : OrderedMap String Model}
    (hothers : ∀ other, other ≠ name → parents.get? other = (g.model m).parents.get? other)
    (hparent : ∀ p, parents.get? name = some p → ¬ old.HasModel p) :
    old.Disturbed name touched (shed ++ [m])
      (g.setModel m { g.model m with parents := parents }) :=
  h.setMember hm htouched (h.lodged.setParents m parents)
    (h.shedsParent hm hresolve hsingle hsaved hothers hparent)

end Disturbed

end Graph

end RecordGraph
