/-
# The links that connecting leaves

A call that connects two models makes one of them known to the other under the relationship,
and, where there is a way back, also the other way round: it leaves one or two links. What a
model has loaded after any number of calls is read off the links that end at it alone: under a
single key the last model that came, everywhere else all of them, each filed under its key.
This needs models on which nothing was loaded before.
-/
import RecordGraph.Proofs.Connecting.Steps
import RecordGraph.Proofs.Saving.Putting
import RecordGraph.Proofs.Saving.Syncing

namespace RecordGraph

variable {σ : Type}

/-! ## Links -/

/-- One direction of a connection: a model comes to another one under a relationship. -/
structure Link where
  /-- The model that holds the relationship. -/
  model : Model
  /-- The name of the relationship. -/
  name : String
  /-- The model that comes. -/
  far : Model
  deriving DecidableEq, Repr

/-- The call that connects the two. -/
def Link.put (l : Link) : Action σ Unit := l.model.put l.name l.far

/-- The models that came to a model under a name, in order. -/
def arrivals (links : List Link) (x : Model) (name : String) : List Model :=
  (links.filter fun l => l.model = x ∧ l.name = name).map Link.far

@[simp] theorem arrivals_nil (x : Model) (name : String) : arrivals [] x name = [] := rfl

theorem arrivals_concat (links : List Link) (l : Link) (x : Model) (name : String) :
    arrivals (links ++ [l]) x name =
      if l.model = x ∧ l.name = name then arrivals links x name ++ [l.far]
      else arrivals links x name := by
  rw [arrivals, List.filter_append, List.map_append]
  by_cases hl : l.model = x ∧ l.name = name
  · simp [arrivals, hl]
  · simp [arrivals, hl]

theorem mem_arrivals {links : List Link} {x y : Model} {name : String} :
    y ∈ arrivals links x name ↔ ⟨x, name, y⟩ ∈ links := by
  simp only [arrivals, List.mem_map, List.mem_filter, decide_eq_true_eq]
  constructor
  · rintro ⟨⟨_, _, _⟩, ⟨hl, rfl, rfl⟩, rfl⟩
    exact hl
  · intro hl
    exact ⟨_, ⟨hl, rfl, rfl⟩, rfl⟩

namespace Graph

/-- What the relationship is called on the far model of a link, if it has a way back. -/
def wayBack? (g : Graph σ) (l : Link) : Option String :=
  match g.registry.resolve (g.model l.model).modelType.name l.name with
  | .ok r => r.inverseOn? (g.model l.far).modelType.name
  | .error _ => none

/-- The links that a call leaves. -/
def linksOf (g : Graph σ) (l : Link) : List Link :=
  l :: (g.wayBack? l).toList.map fun inverse => ⟨l.far, inverse, l.model⟩

/-- A call is in order if the relationship resolves and leads to the type of the far model. -/
def Allows (g : Graph σ) (l : Link) : Prop :=
  ∃ r, g.registry.resolve (g.model l.model).modelType.name l.name = .ok r ∧
    (g.model l.far).modelType.name ∈ r.farTypes

/-- Nothing is loaded on the model. -/
def Bare (g : Graph σ) (x : Model) : Prop :=
  g.HasModel x ∧ (g.model x).parents.isEmpty = true ∧ (g.model x).children.isEmpty = true

instance (g : Graph σ) (x : Model) : Decidable (g.Bare x) :=
  inferInstanceAs (Decidable (_ ∧ _ ∧ _))

/-- The members of the collection that is loaded under a name. -/
def loadedMembers (g : Graph σ) (x : Model) (name : String) : OrderedMap String Model :=
  ((g.model x).children.get? name).elim OrderedMap.empty fun c => (g.collection c).members

/-- On models on which nothing was loaded in `g`, `t` has loaded what the links leave, and no
two of their collections are one. -/
structure Gathers (g t : Graph σ) (links : List Link) : Prop where
  registry : t.registry = g.registry
  modelType : ∀ x, (t.model x).modelType = (g.model x).modelType
  key : ∀ x, (t.model x).key = (g.model x).key
  made : ∀ x name c, g.Bare x → (t.model x).children.get? name = some c → t.HasCollection c
  apart : ∀ x y name other c, g.Bare x → g.Bare y →
    (t.model x).children.get? name = some c → (t.model y).children.get? other = some c →
    x = y ∧ name = other
  parent : ∀ x name, g.Bare x → (g.model x).modelType.holdsSingle name = true →
    (t.model x).parents.get? name = (arrivals links x name).getLast?
  members : ∀ x name, g.Bare x → (g.model x).modelType.holdsSingle name = false →
    t.loadedMembers x name =
      OrderedMap.empty.insertAll (fun y => (g.model y).key) (arrivals links x name)

end Graph

theorem OrderedMap.get?_of_isEmpty {κ α : Type} [DecidableEq κ] {m : OrderedMap κ α}
    (h : m.isEmpty = true) (k : κ) : m.get? k = none := by
  have hempty : m = OrderedMap.empty := OrderedMap.ext (List.isEmpty_iff.mp h)
  rw [hempty, OrderedMap.get?_empty]

namespace Graph

variable {g t t' : Graph σ} {links : List Link} {x y z m far : Model} {name other : String}
  {c : Collection} {membership : Membership}

/-- A new collection is as empty as the relationship was without it. -/
theorem loadedMembers_openSlot (hnone : (t.model x).children.get? name = none)
    (hmade : ∀ c, (t.model z).children.get? other = some c → t.HasCollection c) :
    (t.openSlot x name membership).loadedMembers z other = t.loadedMembers z other := by
  unfold loadedMembers
  rw [children_openSlot]
  by_cases hslot : x = z ∧ name = other
  · obtain ⟨rfl, rfl⟩ := hslot
    rw [if_pos ⟨rfl, rfl⟩, hnone]
    simp [openSlot]
  · rw [if_neg hslot]
    cases hc : (t.model z).children.get? other with
    | none => rfl
    | some c => rw [Option.elim_some, Option.elim_some, collection_openSlot (hmade c hc)]

namespace Gathers

/-! ## Single writes -/

theorem refl (g : Graph σ) : g.Gathers g [] where
  registry := rfl
  modelType _ := rfl
  key _ := rfl
  made x name c hx hc := by
    rw [OrderedMap.get?_of_isEmpty hx.2.2] at hc
    cases hc
  apart x y name other c hx _ hc _ := by
    rw [OrderedMap.get?_of_isEmpty hx.2.2] at hc
    cases hc
  parent x name hx _ := OrderedMap.get?_of_isEmpty hx.2.1 name
  members x name hx _ := by
    rw [loadedMembers, OrderedMap.get?_of_isEmpty hx.2.2]
    rfl

/-- A collection that is made for a relationship adds nothing to what came. -/
theorem opened (h : g.Gathers t links) (hnone : (t.model x).children.get? name = none)
    (membership : Membership) : g.Gathers (t.openSlot x name membership) links where
  registry := h.registry
  modelType z := ((Relinks.openSlot t x name membership).modelType z).trans (h.modelType z)
  key z := ((Relinks.openSlot t x name membership).key z).trans (h.key z)
  made z other c hz hc := by
    rw [children_openSlot] at hc
    split at hc
    · rw [← Option.some.inj hc]
      exact t.hasCollection_nextCollection _
    · exact (Relinks.openSlot t x name membership).hasCollection (h.made z other c hz hc)
  apart z w other another c hz hw hcz hcw := by
    have hnew : ∀ v any, g.Bare v → (t.model v).children.get? any ≠ some t.nextCollection :=
      fun v any hv hc => t.not_hasCollection_nextCollection (h.made v any _ hv hc)
    rw [children_openSlot] at hcz hcw
    split at hcz
    · rename_i hxz
      split at hcw
      · rename_i hxw
        exact ⟨hxz.1.symm.trans hxw.1, hxz.2.symm.trans hxw.2⟩
      · exact absurd (hcw.trans hcz.symm) (hnew w another hw)
    · split at hcw
      · exact absurd (hcz.trans hcw.symm) (hnew z other hz)
      · exact h.apart z w other another c hz hw hcz hcw
  parent z other hz hsingle := by
    rw [← h.parent z other hz hsingle, model_openSlot]
  members z other hz hmany := by
    rw [← h.members z other hz hmany]
    exact loadedMembers_openSlot hnone fun c => h.made z other c hz

/-- A model that comes into a loaded collection. -/
theorem filled (h : g.Gathers t links) (hx : g.Bare x)
    (hmany : (g.model x).modelType.holdsSingle name = false)
    (hslot : (t.model x).children.get? name = some c) (membership : Membership) :
    g.Gathers (t.setCollection c
      { t.collection c with
        membership := membership
        members := (t.collection c).members.insert (t.model y).key y }) (links ++ [⟨x, name, y⟩]) :=
  { registry := h.registry
    modelType := h.modelType
    key := h.key
    made := fun z other e hz he =>
      (Relinks.setCollection t c _).hasCollection (h.made z other e hz he)
    apart := h.apart
    parent := by
      intro z other hz hsingle
      rw [model_setCollection, arrivals_concat, if_neg]
      · exact h.parent z other hz hsingle
      · rintro ⟨rfl, rfl⟩
        rw [hmany] at hsingle
        cases hsingle
    members := by
      intro z other hz hzmany
      rw [arrivals_concat, loadedMembers, model_setCollection]
      by_cases hsame : x = z ∧ name = other
      · obtain ⟨rfl, rfl⟩ := hsame
        rw [if_pos ⟨rfl, rfl⟩, OrderedMap.insertAll_concat, ← h.members x name hx hmany,
          loadedMembers, hslot, ← h.key y]
        simp
      · rw [if_neg hsame, ← h.members z other hz hzmany, loadedMembers]
        cases hz' : (t.model z).children.get? other with
        | none => rfl
        | some e =>
            have hother : c ≠ e := by
              rintro rfl
              exact hsame (h.apart x z name other c hx hz hslot hz')
            simp [hother] }

/-- A model that comes as the single parent. -/
theorem parented (h : g.Gathers t links)
    (hsingle : (g.model x).modelType.holdsSingle name = true)
    (hrun : Returns (x.setParent name y) t () t') : g.Gathers t' (links ++ [⟨x, name, y⟩]) := by
  rw [Model.returns_setParent] at hrun
  have hrelinks : t.Relinks t' := hrun ▸ .setModel t x _ _
  have hchildren : ∀ z, (t'.model z).children = (t.model z).children := by
    intro z
    rw [hrun, model_setModel]
    split
    · rename_i hxz
      rw [hxz]
    · rfl
  exact
    { registry := hrelinks.registry.trans h.registry
      modelType := fun z => (hrelinks.modelType z).trans (h.modelType z)
      key := fun z => (hrelinks.key z).trans (h.key z)
      made := by
        intro z other c hz hc
        rw [hchildren] at hc
        exact hrelinks.hasCollection (h.made z other c hz hc)
      apart := by
        intro z w other another c hz hw hcz hcw
        rw [hchildren] at hcz hcw
        exact h.apart z w other another c hz hw hcz hcw
      parent := by
        intro z other hz hzsingle
        rw [arrivals_concat, hrun, model_setModel]
        by_cases hxz : x = z
        · subst hxz
          rw [if_pos rfl, OrderedMap.get?_insert]
          by_cases hname : name = other
          · simp [hname]
          · simp [hname, h.parent x other hz hzsingle]
        · rw [if_neg hxz, if_neg fun hsame => hxz hsame.1, h.parent z other hz hzsingle]
      members := by
        intro z other hz hmany
        have hother : ¬ (x = z ∧ name = other) := by
          rintro ⟨rfl, rfl⟩
          rw [hsingle] at hmany
          cases hmany
        rw [arrivals_concat, if_neg hother, ← h.members z other hz hmany, loadedMembers,
          hchildren, loadedMembers, hrun]
        rfl }

/-- Writing a record loads nothing. -/
theorem setRecord (h : g.Gathers t links) (m : Model) (record : Record) :
    g.Gathers (t.setRecord m record) links where
  registry := h.registry
  modelType z := by rw [model_setRecord]; exact h.modelType z
  key z := by rw [model_setRecord]; exact h.key z
  made z other c hz hc := by
    rw [model_setRecord] at hc
    exact h.made z other c hz hc
  apart z w other another c hz hw hcz hcw := by
    rw [model_setRecord] at hcz hcw
    exact h.apart z w other another c hz hw hcz hcw
  parent z other hz hsingle := by
    rw [model_setRecord]
    exact h.parent z other hz hsingle
  members z other hz hmany := by
    rw [← h.members z other hz hmany, loadedMembers, model_setRecord, loadedMembers]
    rfl

/-! ## Calls -/

theorem filled_of_put (h : g.Gathers t links) (hx : g.Bare x)
    (hmany : (g.model x).modelType.holdsSingle name = false)
    (hslot : (t.model x).children.get? name = some c) (hrun : Returns (c.put y) t () t') :
    g.Gathers t' (links ++ [⟨x, name, y⟩]) := by
  obtain ⟨membership, rfl⟩ := Collection.returns_put hrun
  exact h.filled hx hmany hslot membership

/-- A model that comes into the collection of a resolved relationship. -/
theorem put_childrenOr {r : Resolved} (h : g.Gathers t links) (hx : g.Bare x)
    (hmany : (g.model x).modelType.holdsSingle name = false)
    (hrun : Returns (do (← x.childrenOr name r).put y) t () t') :
    g.Gathers t' (links ++ [⟨x, name, y⟩]) := by
  obtain ⟨c, between, hslot, hput⟩ := returns_bind.mp hrun
  rcases Model.returns_childrenOr hslot with ⟨hloaded, rfl⟩ | ⟨hnone, rfl, membership, rfl⟩
  · exact h.filled_of_put hx hmany hloaded hput
  · exact (h.opened hnone membership).filled_of_put hx hmany (by simp [children_openSlot]) hput

/-- A model that comes under a name, however many are held there. -/
theorem receivedOne (h : g.Gathers t links) (hx : g.Bare x)
    (hrun : Returns (x.receive ((g.model x).modelType.holdsSingle name) name y) t () t') :
    g.Gathers t' (links ++ [⟨x, name, y⟩]) := by
  cases hsingle : (g.model x).modelType.holdsSingle name with
  | true =>
      rw [Model.receive, hsingle, if_pos rfl] at hrun
      exact h.parented hsingle hrun
  | false =>
      rw [Model.receive, hsingle, if_neg (by simp)] at hrun
      obtain ⟨c, between, hslot, hput⟩ := returns_bind.mp hrun
      rcases Model.returns_children hslot with ⟨hloaded, rfl⟩ | ⟨hnone, rfl, -, membership, rfl⟩
      · exact h.filled_of_put hx hsingle hloaded hput
      · exact (h.opened hnone membership).filled_of_put hx hsingle (by simp [children_openSlot])
          hput

/-- A model that comes on the way back. -/
theorem receivedBack {single : Bool} {inverse : Option String} (h : g.Gathers t links)
    (hx : g.Bare x)
    (hback : ∀ back, inverse = some back → (g.model x).modelType.holdsSingle back = single)
    (hrun : Returns (x.receiveBack single inverse y) t () t') :
    g.Gathers t' (links ++ inverse.toList.map fun back => ⟨x, back, y⟩) := by
  cases inverse with
  | none =>
      obtain rfl := (returns_pure.mp hrun).1
      simpa using h
  | some back =>
      rw [Model.receiveBack, ← hback back rfl] at hrun
      exact h.receivedOne hx hrun

/-- Writing a foreign key, where the identifier is known, loads nothing. -/
theorem stamped {k : ForeignKey} {id : Option String} {cardinality : Cardinality}
    (h : g.Gathers t links) (hrun : Returns (m.stamp k id cardinality) t () t') :
    g.Gathers t' links := by
  cases id with
  | none =>
      obtain rfl := (returns_pure.mp hrun).1
      exact h
  | some id =>
      rw [Model.stamp, Model.addReferenceId, Model.returns_updateRecord] at hrun
      exact hrun ▸ h.setRecord _ _

/-- Connecting from the side with the foreign key. -/
theorem putParent {r : Resolved} {inverse : Option String} (h : g.Gathers t links)
    (hm : g.Bare m) (hfar : g.Bare far)
    (hown : (g.model m).modelType.holdsSingle name = r.holdsSingle)
    (hback : ∀ back, inverse = some back → (g.model far).modelType.holdsSingle back = false)
    (hrun : Returns (m.putParent r name inverse far) t () t') :
    g.Gathers t' (links ++ ⟨m, name, far⟩ :: inverse.toList.map fun back => ⟨far, back, m⟩) := by
  obtain ⟨loaded, stamped, hload, hstamp, hway⟩ := Model.putParent_steps hrun
  have hloaded : g.Gathers loaded (links ++ [⟨m, name, far⟩]) := by
    cases hsingle : r.holdsSingle with
    | true =>
        rw [hsingle, if_pos rfl] at hload
        exact h.parented (hown.trans hsingle) hload
    | false =>
        rw [hsingle, if_neg (by simp)] at hload
        exact h.put_childrenOr hm (hown.trans hsingle) hload
  simpa using (hloaded.stamped hstamp).receivedBack hfar hback hway

/-- Connecting from the side without the foreign key. -/
theorem putChild {r : Resolved} {inverse : Option String} (h : g.Gathers t links)
    (hm : g.Bare m) (hfar : g.Bare far)
    (hown : (g.model m).modelType.holdsSingle name = false)
    (hback : ∀ back, inverse = some back →
      (g.model far).modelType.holdsSingle back = decide (r.cardinality = .single))
    (hrun : Returns (m.putChild r name inverse far) t () t') :
    g.Gathers t' (links ++ ⟨m, name, far⟩ :: inverse.toList.map fun back => ⟨far, back, m⟩) := by
  obtain ⟨loaded, linked, hload, hway, hstamp⟩ := Model.putChild_steps hrun
  have hlinked := (h.put_childrenOr hm hown hload).receivedBack hfar hback hway
  simpa using hlinked.stamped hstamp

/-- A call leaves its links, and is in order if it succeeds. -/
theorem put {l : Link} (hg : g.WellFormed) (h : g.Gathers t links) (hm : g.Bare l.model)
    (hfar : g.Bare l.far) (hrun : Returns l.put t () t') :
    g.Gathers t' (links ++ g.linksOf l) ∧ g.Allows l := by
  obtain ⟨m, name, far⟩ := l
  obtain ⟨r, hresolve, hleads, hparent, hchild⟩ := Model.returns_put hrun
  rw [h.registry, h.modelType] at hresolve
  rw [h.modelType] at hleads hparent hchild
  refine ⟨?_, r, hresolve, hleads⟩
  have htyped := hg.typed m hm.1
  have hown := Registry.holdsSingle_of_resolve hg.registry htyped hresolve
  have hback : ∀ back, r.inverseOn? (g.model far).modelType.name = some back →
      (g.model far).modelType.holdsSingle back = r.heldSingly :=
    fun back => Registry.holdsSingle_inverse hg.registry (hg.typed far hfar.1) hresolve
  have hway : g.wayBack? ⟨m, name, far⟩ = r.inverseOn? (g.model far).modelType.name := by
    rw [wayBack?, hresolve]
  rw [linksOf, hway]
  cases hside : r.side with
  | parent =>
      refine h.putParent hm hfar hown (fun back hinverse => ?_) (hparent hside)
      rw [hback back hinverse, Resolved.heldSingly_of_parent hside]
  | child =>
      refine h.putChild hm hfar ?_ (fun back hinverse => ?_) (hchild hside)
      · rw [hown, Resolved.holdsSingle_of_child hside]
      · rw [hback back hinverse, Resolved.heldSingly_of_child hside]

/-- A run of calls leaves the links of all of them. -/
theorem puts {calls : List Link} {u : Unit} (hg : g.WellFormed)
    (hbare : ∀ l ∈ calls, g.Bare l.model ∧ g.Bare l.far)
    (hrun : Returns (calls.forM Link.put) g u t) :
    g.Gathers t (calls.flatMap g.linksOf) ∧ ∀ l ∈ calls, g.Allows l := by
  refine hrun.forM_invariant
    (fun done t => g.Gathers t (done.flatMap g.linksOf) ∧ ∀ l ∈ done, g.Allows l)
    ⟨.refl g, by simp⟩ ?_
  rintro done l rest t t' hsplit ⟨hdone, hallowed⟩ hturn
  obtain ⟨hm, hfar⟩ := hbare l (by simp [hsplit])
  obtain ⟨hnext, hallows⟩ := hdone.put hg hm hfar hturn
  refine ⟨by simpa using hnext, fun other hother => ?_⟩
  rcases List.mem_append.mp hother with hother | hother
  · exact hallowed other hother
  · exact List.mem_singleton.mp hother ▸ hallows

end Gathers

end Graph

end RecordGraph
