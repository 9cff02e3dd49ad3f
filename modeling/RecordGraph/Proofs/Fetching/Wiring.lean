/-
# Handing models to one another

Once the far models are known, a fetch hands each of them to the members it belongs to and,
where there is a way back, hands the members to it. Both directions are the same step: a
model takes another one, either as its single parent or into a collection. The state after
any number of such steps is described here by the list of hand-overs alone.

The description needs every model of the wiring to have one slot for what it is handed, and
no two models to share a collection there.
-/
import RecordGraph.Proofs.Fetching.Unloading

namespace RecordGraph

variable {σ : Type}

/-! ## One hand-over -/

/-- Takes a model under a name: as the parent, or into the loaded collection. The snapshot
counts it only if it is stored. -/
def Model.take (x : Model) (single : Bool) (name : String) (y : Model) : Action σ Unit := do
  if single then x.setParent name y
  else
    let c ← x.children name
    if ← y.isNew then c.put y else c.putFetched y

namespace Graph

/-- The graph in which a collection has taken a model. -/
def fill (g : Graph σ) (c : Collection) (membership : Membership) (y : Model) : Graph σ :=
  g.setCollection c
    { g.collection c with
      membership := membership
      members := (g.collection c).members.insert (g.model y).key y
      snapshot :=
        if (g.model y).record.isNew then (g.collection c).snapshot
        else (g.collection c).snapshot.insert (g.model y).key y }

/-- The graph in which a model has a new, empty collection under a name. -/
def openSlot (g : Graph σ) (x : Model) (name : String) (membership : Membership) : Graph σ :=
  (g.addCollection
      ⟨(g.model x).session, membership, OrderedMap.empty, OrderedMap.empty⟩).setModel x
    { g.model x with children := (g.model x).children.insert name g.nextCollection }

end Graph

namespace Model

variable {x y : Model} {name : String} {g g' : Graph σ}

/-- A model is taken into the collection that is loaded, or into one that is made for it. -/
theorem returns_take (h : Returns (x.take false name y) g () g') : ∃ c between membership,
    (between.model x).children.get? name = some c ∧ g' = between.fill c membership y ∧
      (between = g ∨
        (g.model x).children.get? name = none ∧ ∃ opened, between = g.openSlot x name opened) := by
  have hfill : ∀ {c : Collection} {between : Graph σ},
      Returns (do if ← y.isNew then c.put y else c.putFetched y) between () g' →
        ∃ membership, g' = between.fill c membership y := by
    intro c between hrun
    simp only [returns_bind, returns_isNew, and_assoc, exists_eq_left] at hrun
    unfold Graph.fill
    by_cases hnew : (between.model y).record.isNew = true
    · rw [if_pos hnew] at hrun ⊢
      exact Collection.returns_put hrun
    · rw [if_neg hnew] at hrun ⊢
      exact Collection.returns_putFetched hrun
  unfold take at h
  rw [if_neg (by simp), returns_bind] at h
  obtain ⟨c, between, hslot, hrun⟩ := h
  obtain ⟨membership, rfl⟩ := hfill hrun
  rcases returns_children hslot with ⟨hcached, rfl⟩ | ⟨hnone, rfl, -, opened, rfl⟩
  · exact ⟨c, between, membership, hcached, rfl, .inl rfl⟩
  · refine ⟨_, _, membership, ?_, rfl, .inr ⟨hnone, opened, rfl⟩⟩
    simp

end Model

/-! ## Slots -/

/-- Where each model of a wiring takes others: under which name, and whether as its single
parent. -/
structure Slots where
  /-- The name of the relationship. -/
  name : Model → String
  /-- Whether it holds a single parent. -/
  single : Model → Bool

/-- What a model was handed, in order. -/
def received (hands : List (Model × Model)) (x : Model) : List Model :=
  (hands.filter fun hand => hand.1 = x).map Prod.snd

@[simp] theorem received_nil (x : Model) : received [] x = [] := rfl

theorem received_append (hands more : List (Model × Model)) (x : Model) :
    received (hands ++ more) x = received hands x ++ received more x := by
  simp [received]

theorem received_concat (hands : List (Model × Model)) (x y z : Model) :
    received (hands ++ [(x, y)]) z =
      if z = x then received hands z ++ [y] else received hands z := by
  rw [received_append]
  by_cases hz : z = x
  · simp [received, hz]
  · simp [received, hz, Ne.symm hz]

namespace Graph

/-- The collection in a model's slot. -/
def slot? (g : Graph σ) (slots : Slots) (x : Model) : Option Collection :=
  (g.model x).children.get? (slots.name x)

/-- The members of the collection in a model's slot. -/
def slotMembers (g : Graph σ) (slots : Slots) (x : Model) : OrderedMap String Model :=
  (g.slot? slots x).elim OrderedMap.empty fun c => (g.collection c).members

/-- The snapshot of the collection in a model's slot. -/
def slotSnapshot (g : Graph σ) (slots : Slots) (x : Model) : OrderedMap String Model :=
  (g.slot? slots x).elim OrderedMap.empty fun c => (g.collection c).snapshot

/-- Of the models with a slot for a collection, no two have the same collection there. -/
structure Apart (g : Graph σ) (slots : Slots) (takes : Model → Prop) : Prop where
  made : ∀ x c, takes x → slots.single x = false → g.slot? slots x = some c → g.HasCollection c
  inj : ∀ x y c, takes x → takes y → slots.single x = false → slots.single y = false →
    g.slot? slots x = some c → g.slot? slots y = some c → x = y

section Steps

variable {t : Graph σ} {slots : Slots} {takes : Model → Prop} {x y z : Model} {c : Collection}
  {membership : Membership}

@[simp] theorem slot?_setModel_parents (parents : OrderedMap String Model) :
    (t.setModel x { t.model x with parents := parents }).slot? slots z = t.slot? slots z := by
  rw [slot?, slot?, model_setModel]
  split
  · rename_i hxz
    rw [hxz]
  · rfl

@[simp] theorem slot?_openSlot : (t.openSlot x (slots.name x) membership).slot? slots z =
    if z = x then some t.nextCollection else t.slot? slots z := by
  by_cases hzx : z = x
  · simp [slot?, openSlot, hzx]
  · simp [slot?, openSlot, hzx, Ne.symm hzx]

theorem Relinks.openSlot (t : Graph σ) (x : Model) (name : String) (membership : Membership) :
    t.Relinks (t.openSlot x name membership) :=
  (Relinks.addCollection t _).trans (.setModel (t.addCollection _) x (t.model x).parents _)

theorem model_openSlot_of_ne {name : String} (hzx : z ≠ x) :
    (t.openSlot x name membership).model z = t.model z := by
  simp [Graph.openSlot, Ne.symm hzx]

/-- Only what the model has loaded is different. -/
theorem model_openSlot (t : Graph σ) (x : Model) (name : String) (membership : Membership)
    (z : Model) : (t.openSlot x name membership).model z =
      { t.model z with children := ((t.openSlot x name membership).model z).children } := by
  by_cases hzx : z = x
  · simp [hzx, Graph.openSlot]
  · rw [model_openSlot_of_ne hzx]

theorem children_openSlot {name other : String} :
    ((t.openSlot x name membership).model z).children.get? other =
      if x = z ∧ name = other then some t.nextCollection
      else (t.model z).children.get? other := by
  by_cases hx : x = z
  · subst hx
    by_cases hname : name = other
    · simp [Graph.openSlot, hname]
    · simp [Graph.openSlot, hname]
  · rw [model_openSlot_of_ne (Ne.symm hx), if_neg fun h => hx h.1]

theorem collection_openSlot {name : String} (hc : t.HasCollection c) :
    (t.openSlot x name membership).collection c = t.collection c := by
  simp [Graph.openSlot, hc.ne_nextCollection]

/-- A new collection is as empty as the slot was without it. -/
theorem slot_contents_openSlot (hnone : t.slot? slots x = none)
    (hmade : ∀ c, t.slot? slots z = some c → t.HasCollection c) :
    (t.openSlot x (slots.name x) membership).slotMembers slots z = t.slotMembers slots z ∧
      (t.openSlot x (slots.name x) membership).slotSnapshot slots z = t.slotSnapshot slots z := by
  unfold slotMembers slotSnapshot
  rw [slot?_openSlot]
  by_cases hzx : z = x
  · rw [if_pos hzx, hzx, hnone]
    simp [Graph.openSlot]
  · rw [if_neg hzx]
    cases hc : t.slot? slots z with
    | none => exact ⟨rfl, rfl⟩
    | some c => simp [collection_openSlot (hmade c hc)]

theorem slotMembers_fill (hslot : t.slot? slots x = some c) :
    (t.fill c membership y).slotMembers slots x =
      (t.slotMembers slots x).insert (t.model y).key y := by
  have hsame : (t.fill c membership y).slot? slots x = some c := hslot
  rw [slotMembers, hsame, slotMembers, hslot]
  simp [fill]

theorem slotSnapshot_fill (hslot : t.slot? slots x = some c) :
    (t.fill c membership y).slotSnapshot slots x =
      if (t.model y).record.isNew then t.slotSnapshot slots x
      else (t.slotSnapshot slots x).insert (t.model y).key y := by
  have hsame : (t.fill c membership y).slot? slots x = some c := hslot
  rw [slotSnapshot, hsame, slotSnapshot, hslot]
  simp [fill]

/-- Slots with other collections keep their contents. -/
theorem slot_contents_fill_of_ne (hne : t.slot? slots z ≠ some c) :
    (t.fill c membership y).slotMembers slots z = t.slotMembers slots z ∧
      (t.fill c membership y).slotSnapshot slots z = t.slotSnapshot slots z := by
  have hsame : (t.fill c membership y).slot? slots z = t.slot? slots z := rfl
  unfold slotMembers slotSnapshot
  rw [hsame]
  cases hz : t.slot? slots z with
  | none => exact ⟨rfl, rfl⟩
  | some e =>
      have hec : c ≠ e := by
        rintro rfl
        exact hne hz
      simp [fill, hec]

theorem Apart.setModel_parents (h : t.Apart slots takes) (parents : OrderedMap String Model) :
    (t.setModel x { t.model x with parents := parents }).Apart slots takes where
  made z c hz hmany hc := h.made z c hz hmany (by simpa using hc)
  inj z w c hz hw hzmany hwmany hcz hcw :=
    h.inj z w c hz hw hzmany hwmany (by simpa using hcz) (by simpa using hcw)

theorem Apart.openSlot (h : t.Apart slots takes) :
    (t.openSlot x (slots.name x) membership).Apart slots takes where
  made z c hz hmany hc := by
    rw [slot?_openSlot] at hc
    split at hc
    · rw [← Option.some.inj hc]
      exact t.hasCollection_nextCollection _
    · exact (Relinks.openSlot t x _ _).hasCollection (h.made z c hz hmany hc)
  inj z w c hz hw hzmany hwmany hcz hcw := by
    have hnew : ∀ v, takes v → slots.single v = false → t.slot? slots v ≠ some t.nextCollection :=
      fun v hv hmany hc => t.not_hasCollection_nextCollection (h.made v _ hv hmany hc)
    rw [slot?_openSlot] at hcz hcw
    split at hcz
    · rename_i hzx
      split at hcw
      · rename_i hwx
        rw [hzx, hwx]
      · exact absurd (hcw.trans hcz.symm) (hnew w hw hwmany)
    · split at hcw
      · exact absurd (hcz.trans hcw.symm) (hnew z hz hzmany)
      · exact h.inj z w c hz hw hzmany hwmany hcz hcw

theorem Apart.fill (h : t.Apart slots takes) : (t.fill c membership y).Apart slots takes where
  made z e hz hmany he := (Relinks.setCollection t c _).hasCollection (h.made z e hz hmany he)
  inj := h.inj

end Steps

/-- `t` comes from `g` by handing models to those that take them. -/
structure Handed (g t : Graph σ) (slots : Slots) (takes : Model → Prop)
    (hands : List (Model × Model)) : Prop where
  relinks : g.Relinks t
  apart : t.Apart slots takes
  others : ∀ x, ¬ takes x → t.model x = g.model x
  parents : ∀ x, (t.model x).parents =
    if slots.single x then
      (received hands x).foldl (fun ps y => ps.insert (slots.name x) y) (g.model x).parents
    else (g.model x).parents
  children : ∀ x, slots.single x = true → (t.model x).children = (g.model x).children
  elsewhere : ∀ x name, name ≠ slots.name x →
    (t.model x).children.get? name = (g.model x).children.get? name
  members : ∀ x, takes x → slots.single x = false → t.slotMembers slots x =
    (g.slotMembers slots x).insertAll (fun y => (g.model y).key) (received hands x)
  snapshot : ∀ x, takes x → slots.single x = false → t.slotSnapshot slots x =
    (g.slotSnapshot slots x).insertAll (fun y => (g.model y).key)
      ((received hands x).filter fun y => !(g.model y).record.isNew)
  kept : ∀ x c, g.slot? slots x = some c → t.slot? slots x = some c
  made : ∀ x c, t.slot? slots x = some c → g.slot? slots x = some c ∨ ¬ g.HasCollection c
  loaded : ∀ x, slots.single x = false → received hands x ≠ [] → (t.slot? slots x).isSome
  collection : ∀ c, g.HasCollection c →
    (∀ x, takes x → slots.single x = false → g.slot? slots x ≠ some c) →
    t.collection c = g.collection c

namespace Handed

variable {g t t' : Graph σ} {slots : Slots} {takes : Model → Prop}
  {hands : List (Model × Model)} {x y : Model}

/-- Before the first hand-over. -/
theorem refl (hapart : g.Apart slots takes) : g.Handed g slots takes [] where
  relinks := .refl g
  apart := hapart
  others _ _ := rfl
  parents x := by simp
  children _ _ := rfl
  elsewhere _ _ _ := rfl
  members x _ _ := by simp
  snapshot x _ _ := by simp
  kept _ _ h := h
  made _ _ h := .inl h
  loaded := by simp
  collection _ _ _ := rfl

/-- Handing a single parent over. -/
theorem parent (h : g.Handed t slots takes hands) (hx : takes x) (hsingle : slots.single x = true)
    (hrun : Returns (x.setParent (slots.name x) y) t () t') :
    g.Handed t' slots takes (hands ++ [(x, y)]) := by
  rw [Model.returns_setParent] at hrun
  subst hrun
  have hother : ∀ z, slots.single z = false →
      received (hands ++ [(x, y)]) z = received hands z := by
    intro z hz
    rw [received_concat, if_neg]
    rintro rfl
    rw [hsingle] at hz
    exact absurd hz (by simp)
  exact
    { relinks := h.relinks.trans (.setModel t x _ _)
      apart := h.apart.setModel_parents _
      others := by
        intro z hz
        have hne : x ≠ z := by
          rintro rfl
          exact hz hx
        rw [model_setModel, if_neg hne, h.others z hz]
      parents := by
        intro z
        rw [model_setModel, received_concat]
        by_cases hxz : x = z
        · subst hxz
          rw [if_pos rfl, if_pos rfl, if_pos hsingle, List.foldl_append, h.parents x,
            if_pos hsingle]
          rfl
        · rw [if_neg hxz, if_neg (Ne.symm hxz), h.parents z]
      children := by
        intro z hzsingle
        rw [← h.children z hzsingle, model_setModel]
        split
        · rename_i hxz
          rw [hxz]
        · rfl
      elsewhere := by
        intro z name hname
        rw [← h.elsewhere z name hname, model_setModel]
        split
        · rename_i hxz
          rw [hxz]
        · rfl
      members := by
        intro z hz hmany
        rw [hother z hmany, slotMembers, slot?_setModel_parents]
        exact h.members z hz hmany
      snapshot := by
        intro z hz hmany
        rw [hother z hmany, slotSnapshot, slot?_setModel_parents]
        exact h.snapshot z hz hmany
      kept := by
        intro z c hc
        rw [slot?_setModel_parents, h.kept z c hc]
      made := by
        intro z c hc
        rw [slot?_setModel_parents] at hc
        exact h.made z c hc
      loaded := by
        intro z hmany hreceived
        rw [slot?_setModel_parents]
        exact h.loaded z hmany (hother z hmany ▸ hreceived)
      collection := h.collection }

/-- A collection that is made for a slot adds nothing to what was handed over. -/
theorem opened (h : g.Handed t slots takes hands) (hx : takes x)
    (hmany : slots.single x = false) (hnone : t.slot? slots x = none) (membership : Membership) :
    g.Handed (t.openSlot x (slots.name x) membership) slots takes hands where
  relinks := h.relinks.trans (.openSlot t x _ _)
  apart := h.apart.openSlot
  others z hz := by
    rw [model_openSlot_of_ne, h.others z hz]
    rintro rfl
    exact hz hx
  parents z := by
    rw [← h.parents z]
    by_cases hxz : x = z
    · simp [openSlot, hxz]
    · simp [openSlot, hxz]
  children z hsingle := by
    rw [model_openSlot_of_ne, h.children z hsingle]
    rintro rfl
    rw [hmany] at hsingle
    exact absurd hsingle (by simp)
  elsewhere z name hname := by
    rw [← h.elsewhere z name hname]
    by_cases hxz : x = z
    · subst hxz
      simp [openSlot, Ne.symm hname]
    · simp [openSlot, hxz]
  members z hz hzmany := by
    rw [← h.members z hz hzmany]
    exact (slot_contents_openSlot hnone fun c => h.apart.made z c hz hzmany).1
  snapshot z hz hzmany := by
    rw [← h.snapshot z hz hzmany]
    exact (slot_contents_openSlot hnone fun c => h.apart.made z c hz hzmany).2
  kept z c hc := by
    have hkept := h.kept z c hc
    rw [slot?_openSlot, if_neg, hkept]
    rintro rfl
    rw [hnone] at hkept
    exact absurd hkept (by simp)
  made z c hc := by
    rw [slot?_openSlot] at hc
    split at hc
    · refine .inr fun hold => ?_
      exact t.not_hasCollection_nextCollection
        (Option.some.inj hc ▸ h.relinks.hasCollection hold)
    · exact h.made z c hc
  loaded z hzmany hreceived := by
    rw [slot?_openSlot]
    split
    · rfl
    · exact h.loaded z hzmany hreceived
  collection c hc hslots := by
    rw [collection_openSlot (h.relinks.hasCollection hc), h.collection c hc hslots]

/-- Handing a model over into the collection of a slot. -/
theorem filled {c : Collection} (h : g.Handed t slots takes hands) (hx : takes x)
    (hmany : slots.single x = false) (hslot : t.slot? slots x = some c)
    (membership : Membership) :
    g.Handed (t.fill c membership y) slots takes (hands ++ [(x, y)]) := by
  have hothers : ∀ z, takes z → slots.single z = false → z ≠ x → t.slot? slots z ≠ some c :=
    fun z hz hzmany hzx hc => hzx (h.apart.inj z x c hz hx hzmany hmany hc hslot)
  exact
    { relinks := h.relinks.trans (.setCollection t c _)
      apart := h.apart.fill
      others := h.others
      parents := by
        intro z
        rw [fill, model_setCollection, received_concat, h.parents z]
        by_cases hzx : z = x
        · rw [hzx, hmany]
          rfl
        · rw [if_neg hzx]
      children := h.children
      elsewhere := h.elsewhere
      members := by
        intro z hz hzmany
        rw [received_concat]
        by_cases hzx : z = x
        · subst hzx
          rw [if_pos rfl, OrderedMap.insertAll_concat, slotMembers_fill hslot,
            h.members z hz hzmany, h.relinks.key]
        · rw [if_neg hzx, (slot_contents_fill_of_ne (hothers z hz hzmany hzx)).1,
            h.members z hz hzmany]
      snapshot := by
        intro z hz hzmany
        rw [received_concat]
        by_cases hzx : z = x
        · subst hzx
          rw [if_pos rfl, slotSnapshot_fill hslot, h.snapshot z hz hzmany, h.relinks.record,
            h.relinks.key, List.filter_append]
          by_cases hnew : (g.model y).record.isNew = true
          · simp [hnew]
          · simp [hnew, OrderedMap.insertAll_concat]
        · rw [if_neg hzx, (slot_contents_fill_of_ne (hothers z hz hzmany hzx)).2,
            h.snapshot z hz hzmany]
      kept := h.kept
      made := h.made
      loaded := by
        intro z hzmany hreceived
        by_cases hzx : z = x
        · rw [hzx]
          exact Option.isSome_iff_exists.mpr ⟨c, hslot⟩
        · rw [received_concat, if_neg hzx] at hreceived
          exact h.loaded z hzmany hreceived
      collection := by
        intro e he hfree
        rw [fill, collection_setCollection, if_neg]
        · exact h.collection e he hfree
        · rintro rfl
          rcases h.made x c hslot with hold | hnew
          · exact hfree x hx hmany hold
          · exact hnew he }

/-- One hand-over. -/
theorem take (h : g.Handed t slots takes hands) (hx : takes x)
    (hrun : Returns (x.take (slots.single x) (slots.name x) y) t () t') :
    g.Handed t' slots takes (hands ++ [(x, y)]) := by
  cases hsingle : slots.single x with
  | true =>
      rw [Model.take, hsingle, if_pos rfl] at hrun
      exact h.parent hx hsingle hrun
  | false =>
      rw [hsingle] at hrun
      obtain ⟨c, between, membership, hslot, rfl, hbetween⟩ := Model.returns_take hrun
      have hbefore : g.Handed between slots takes hands := by
        rcases hbetween with rfl | ⟨hnone, opened, rfl⟩
        · exact h
        · exact h.opened hx hsingle hnone opened
      exact hbefore.filled hx hsingle hslot membership

end Handed

end Graph

end RecordGraph
