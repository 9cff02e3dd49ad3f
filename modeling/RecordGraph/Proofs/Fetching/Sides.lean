/-
# Loading both sides of a relationship

Fetching for one group of members goes through three states: the relationship is unloaded on
the members, the batches add the far models, and the hand-overs wire the two. Which far model
is handed to which member is a list of pairs, read off the foreign keys; everything else is
the same on both sides.
-/
import RecordGraph.Proofs.Fetching.Batches
import RecordGraph.Proofs.Fetching.Wiring
import RecordGraph.Proofs.Registries

namespace RecordGraph

variable {σ : Type}

/-! ## Attaching as hand-overs -/

namespace Model

variable {x y : Model} {r : Resolved} {name : String} {c : Collection} {g g' : Graph σ}

/-- Asking for a collection by name alone is asking for that of a relationship. -/
theorem exists_childrenOr_of_children (h : Returns (x.children name) g c g') :
    ∃ r, Returns (x.childrenOr name r) g c g' := by
  simp only [children, returns_bind, returns_cachedChildren, and_assoc, exists_eq_left] at h
  cases hloaded : (g.model x).children.get? name with
  | some d =>
      rw [hloaded] at h
      refine ⟨default, returns_bind.mpr ⟨some d, g, ?_, h⟩⟩
      exact returns_cachedChildren.mpr ⟨rfl, hloaded.symm⟩
  | none =>
      simp only [hloaded, returns_bind, returns_resolve, and_assoc, exists_eq_left] at h
      obtain ⟨r, -, h⟩ := h
      exact ⟨r, h⟩

theorem relinks_of_childrenOr (h : Returns (x.childrenOr name r) g c g') : g.Relinks g' := by
  rcases returns_childrenOr h with ⟨-, rfl⟩ | ⟨-, -, membership, rfl⟩
  · exact .refl _
  · exact (Graph.Relinks.addCollection g _).trans (.setModel _ x (g.model x).parents _)

theorem relinks_of_children (h : Returns (x.children name) g c g') : g.Relinks g' := by
  obtain ⟨r, hor⟩ := exists_childrenOr_of_children h
  exact relinks_of_childrenOr hor

/-- A stored model is taken as one that comes from the store. -/
theorem returns_take_of_putFetched (hstored : (g.model y).record.isNew = false)
    (h : Returns (do (← x.children name).putFetched y) g () g') :
    Returns (x.take false name y) g () g' := by
  rw [returns_bind] at h
  obtain ⟨c, between, hslot, hput⟩ := h
  have hstored' : (between.model y).record.isNew = false := by
    rw [(relinks_of_children hslot).record, hstored]
  unfold take
  simp only [Bool.false_eq_true, if_false, returns_bind, returns_isNew]
  refine ⟨c, between, hslot, _, between, ⟨rfl, rfl⟩, ?_⟩
  rw [hstored']
  exact hput

end Model

namespace Fetching

variable {plan : Plan} {g g' t t' : Graph σ}

/-- The hand-overs between a member and a far model: the far model to the member and, where
there is a way back, the member to the far model. -/
def links (plan : Plan) (g : Graph σ) (pair : Model × Model) : List (Model × Model) :=
  match plan.resolved.inverseOn? (g.model pair.2).modelType.name with
  | some _ => [(pair.1, pair.2), (pair.2, pair.1)]
  | none => [(pair.1, pair.2)]

/-- Where the models of a fetch take others. Members, which `old` has already, take them under
the name of the relationship, far models under the name of the way back. -/
def slots (plan : Plan) (old g : Graph σ) : Slots where
  name x :=
    if old.HasModel x then plan.resolved.name
    else (plan.resolved.inverseOn? (g.model x).modelType.name).getD ""
  single x :=
    if old.HasModel x then plan.resolved.holdsSingle else plan.resolved.heldSingly

/-- The models that take others in a fetch: the members and the far models. -/
def takes (members fars : List Model) (x : Model) : Prop := x ∈ members ∨ x ∈ fars

/-- One member and one far model, as the members see it before the fetch. -/
structure Attachable (members fars : List Model) (old g : Graph σ) (near far : Model) :
    Prop where
  member : near ∈ members
  found : far ∈ fars
  known : old.HasModel near
  new : ¬ old.HasModel far
  stored : (g.model far).record.isNew = false

variable {members fars : List Model} {old : Graph σ} {near far : Model}
  {hands : List (Model × Model)}

theorem slots_near (plan : Plan) (g : Graph σ) (h : old.HasModel near) :
    (slots plan old g).name near = plan.resolved.name ∧
      (slots plan old g).single near = plan.resolved.holdsSingle := by
  simp [slots, h]

theorem slots_far (h : ¬ old.HasModel far) {inverse : String}
    (hinverse : plan.resolved.inverseOn? (g.model far).modelType.name = some inverse) :
    (slots plan old g).name far = inverse ∧
      (slots plan old g).single far = plan.resolved.heldSingly := by
  simp [slots, h, hinverse]

/-- Attaching from the side that holds the foreign key. -/
theorem handed_of_attachParent (hside : plan.resolved.side = .parent)
    (hpair : Attachable members fars old g near far)
    (h : g.Handed t (slots plan old g) (takes members fars) hands)
    (hrun : Returns (attachParent plan near far) t () t') :
    g.Handed t' (slots plan old g) (takes members fars) (hands ++ links plan g (near, far)) := by
  have hstored : (t.model far).record.isNew = false := by
    rw [h.relinks.record, hpair.stored]
  obtain ⟨hname, hsingle⟩ := slots_near plan g hpair.known
  unfold attachParent at hrun
  extract_lets wayBack at hrun
  have hforward : ∃ between, Returns (near.take plan.resolved.holdsSingle plan.resolved.name far)
      t () between ∧ Returns (wayBack ⟨⟩) between () t' := by
    by_cases hcard : plan.resolved.cardinality = .single
    · rw [if_pos hcard, returns_bind] at hrun
      obtain ⟨⟨⟩, between, hfirst, hrest⟩ := hrun
      refine ⟨between, ?_, hrest⟩
      simpa [Model.take, Resolved.holdsSingle_of_parent hside, hcard] using hfirst
    · rw [if_neg hcard, returns_bind] at hrun
      obtain ⟨c, after, hslot, hrun⟩ := hrun
      rw [returns_bind] at hrun
      obtain ⟨⟨⟩, between, hput, hrest⟩ := hrun
      refine ⟨between, ?_, hrest⟩
      rw [Resolved.holdsSingle_of_parent hside, decide_eq_false hcard]
      exact Model.returns_take_of_putFetched hstored (returns_bind.mpr ⟨c, after, hslot, hput⟩)
  obtain ⟨between, hfirst, hrest⟩ := hforward
  have hgiven : g.Handed between (slots plan old g) (takes members fars)
      (hands ++ [(near, far)]) :=
    h.take (.inl hpair.member) (by rw [hname, hsingle]; exact hfirst)
  simp only [wayBack, returns_bind, Model.returns_modelType, hgiven.relinks.modelType, and_assoc,
    exists_eq_left] at hrest
  unfold links
  cases hinverse : plan.resolved.inverseOn? (g.model far).modelType.name with
  | none =>
      simp only [hinverse, returns_pure] at hrest
      rw [hrest.1]
      exact hgiven
  | some inverse =>
      simp only [hinverse, returns_bind] at hrest
      obtain ⟨hback, hbackSingle⟩ := slots_far hpair.new hinverse
      have hback' : Returns (far.take false inverse near) between () t' := by
        unfold Model.take
        simpa only [Bool.false_eq_true, if_false, returns_bind] using hrest
      have hboth := hgiven.take (y := near) (.inr hpair.found)
        (by rw [hback, hbackSingle, Resolved.heldSingly_of_parent hside]; exact hback')
      simpa using hboth

/-- Attaching from the other side. The member is stored, or it would not be referred to. -/
theorem handed_of_attachChild (hside : plan.resolved.side = .child)
    (hpair : Attachable members fars old g near far)
    (hnear : (g.model near).record.isNew = false)
    (h : g.Handed t (slots plan old g) (takes members fars) hands)
    (hrun : Returns (attachChild plan near far) t () t') :
    g.Handed t' (slots plan old g) (takes members fars) (hands ++ links plan g (near, far)) := by
  have hstored : (t.model far).record.isNew = false := by
    rw [h.relinks.record, hpair.stored]
  obtain ⟨hname, hsingle⟩ := slots_near plan g hpair.known
  have hmany := Resolved.holdsSingle_of_child hside
  unfold attachChild at hrun
  simp only [returns_bind] at hrun
  obtain ⟨c, after, hslot, ⟨⟩, between, hput, _, _, htype, hrest⟩ := hrun
  have hfirst := Model.returns_take_of_putFetched hstored
    (returns_bind.mpr ⟨c, after, hslot, hput⟩)
  have hgiven : g.Handed between (slots plan old g) (takes members fars)
      (hands ++ [(near, far)]) :=
    h.take (.inl hpair.member) (by rw [hname, hsingle, hmany]; exact hfirst)
  rw [Model.returns_modelType, hgiven.relinks.modelType] at htype
  obtain ⟨hsame, rfl⟩ := htype
  rw [hsame] at hrest
  unfold links
  cases hinverse : plan.resolved.inverseOn? (g.model far).modelType.name with
  | none =>
      simp only [hinverse, returns_pure] at hrest
      rw [hrest.1]
      exact hgiven
  | some inverse =>
      simp only [hinverse] at hrest
      obtain ⟨hback, hbackSingle⟩ := slots_far hpair.new hinverse
      have hback' : Returns (far.take (plan.resolved.cardinality = .single) inverse near)
          between () t' := by
        by_cases hcard : plan.resolved.cardinality = .single
        · rw [if_pos hcard] at hrest
          simpa [Model.take, hcard] using hrest
        · rw [if_neg hcard] at hrest
          have hnear' : (between.model near).record.isNew = false := by
            rw [hgiven.relinks.record, hnear]
          simpa [hcard] using Model.returns_take_of_putFetched hnear' hrest
      have hboth := hgiven.take (y := near) (.inr hpair.found)
        (by rw [hback, hbackSingle, Resolved.heldSingly_of_child hside]; exact hback')
      simpa using hboth

/-! ## Pairs of members and far models -/

/-- All hand-overs of some pairs. -/
def wiring (plan : Plan) (g : Graph σ) (pairs : List (Model × Model)) : List (Model × Model) :=
  pairs.flatMap (links plan g)

theorem wiring_append (pairs more : List (Model × Model)) :
    wiring plan g (pairs ++ more) = wiring plan g pairs ++ wiring plan g more := by
  simp [wiring]

/-- A member takes its far models. -/
theorem received_wiring_near {pairs : List (Model × Model)} (hnear : old.HasModel near)
    (hpairs : ∀ pair ∈ pairs, ¬ old.HasModel pair.2) :
    received (wiring plan g pairs) near =
      (pairs.filter fun pair => pair.1 = near).map Prod.snd := by
  induction pairs with
  | nil => rfl
  | cons pair rest ih =>
      have hne : pair.2 ≠ near := by
        rintro rfl
        exact hpairs pair (by simp) hnear
      have hlinks : received (links plan g pair) near =
          ([pair].filter fun pair => pair.1 = near).map Prod.snd := by
        unfold links
        split
        · by_cases hfirst : pair.1 = near
          · simp [received, hfirst, hne]
          · simp [received, hfirst, hne]
        · by_cases hfirst : pair.1 = near
          · simp [received, hfirst]
          · simp [received, hfirst]
      rw [← List.singleton_append, wiring_append, received_append, List.filter_append,
        List.map_append, ih fun other hother => hpairs other (by simp [hother]), ← hlinks]
      simp [wiring]

/-- A far model that knows a way back takes its members. -/
theorem received_wiring_far {pairs : List (Model × Model)} (hfar : ¬ old.HasModel far)
    (hpairs : ∀ pair ∈ pairs, old.HasModel pair.1) {inverse : String}
    (hinverse : plan.resolved.inverseOn? (g.model far).modelType.name = some inverse) :
    received (wiring plan g pairs) far =
      (pairs.filter fun pair => pair.2 = far).map Prod.fst := by
  induction pairs with
  | nil => rfl
  | cons pair rest ih =>
      have hne : pair.1 ≠ far := by
        rintro rfl
        exact hfar (hpairs pair (by simp))
      have hlinks : received (links plan g pair) far =
          ([pair].filter fun pair => pair.2 = far).map Prod.fst := by
        by_cases hsecond : pair.2 = far
        · simp [links, received, hsecond, hinverse, hne]
        · unfold links
          split
          · simp [received, hsecond, hne]
          · simp [received, hsecond, hne]
      rw [← List.singleton_append, wiring_append, received_append, List.filter_append,
        List.map_append, ih fun other hother => hpairs other (by simp [hother]), ← hlinks]
      simp [wiring]

/-- The pairs of members that hold the foreign key: the far models found for the key of each
member. -/
def parentPairs (plan : Plan) (g : Graph σ) (found : OrderedMap String Model)
    (members : List Model) : List (Model × Model) :=
  members.flatMap fun m =>
    ((g.keyIds plan.resolved.foreignKey m).filterMap found.get?).map fun far => (m, far)

/-- The pairs of far models that hold the foreign key: the members named by the key of each
far model. -/
def childPairs (plan : Plan) (g : Graph σ) (owners : OrderedMap String Model)
    (fars : List Model) : List (Model × Model) :=
  fars.flatMap fun far =>
    ((g.keyIds plan.resolved.foreignKey far).filterMap owners.get?).map fun m => (m, far)

theorem mem_map_snd_filter {pairs : List (Model × Model)} {x : Model} :
    x ∈ (pairs.filter fun pair => pair.1 = near).map Prod.snd ↔ (near, x) ∈ pairs := by
  simp only [List.mem_map, List.mem_filter, decide_eq_true_eq]
  constructor
  · rintro ⟨⟨first, second⟩, ⟨hmem, rfl⟩, rfl⟩
    exact hmem
  · intro hmem
    exact ⟨(near, x), ⟨hmem, rfl⟩, rfl⟩

theorem mem_map_fst_filter {pairs : List (Model × Model)} {x : Model} :
    x ∈ (pairs.filter fun pair => pair.2 = far).map Prod.fst ↔ (x, far) ∈ pairs := by
  simp only [List.mem_map, List.mem_filter, decide_eq_true_eq]
  constructor
  · rintro ⟨⟨first, second⟩, ⟨hmem, rfl⟩, rfl⟩
    exact hmem
  · intro hmem
    exact ⟨(x, far), ⟨hmem, rfl⟩, rfl⟩

theorem mem_parentPairs {lookup : OrderedMap String Model} {x : Model} :
    (near, x) ∈ parentPairs plan g lookup members ↔
      near ∈ members ∧ ∃ id ∈ g.keyIds plan.resolved.foreignKey near, lookup.get? id = some x := by
  simp only [parentPairs, List.mem_flatMap, List.mem_map, List.mem_filterMap, Prod.mk.injEq]
  constructor
  · rintro ⟨_, hm, _, hlookup, rfl, rfl⟩
    exact ⟨hm, hlookup⟩
  · rintro ⟨hm, hlookup⟩
    exact ⟨near, hm, x, hlookup, rfl, rfl⟩

theorem parentPairs_congr {lookup : OrderedMap String Model}
    (hsame : ∀ m ∈ members,
      t.keyIds plan.resolved.foreignKey m = g.keyIds plan.resolved.foreignKey m) :
    parentPairs plan t lookup members = parentPairs plan g lookup members := by
  refine List.flatMap_congr fun m hm => ?_
  rw [hsame m hm]

theorem mem_childPairs {lookup : OrderedMap String Model} {x : Model} :
    (x, far) ∈ childPairs plan g lookup fars ↔
      far ∈ fars ∧ ∃ id ∈ g.keyIds plan.resolved.foreignKey far, lookup.get? id = some x := by
  simp only [childPairs, List.mem_flatMap, List.mem_map, List.mem_filterMap, Prod.mk.injEq]
  constructor
  · rintro ⟨_, hfar, _, hlookup, rfl, rfl⟩
    exact ⟨hfar, hlookup⟩
  · rintro ⟨hfar, hlookup⟩
    exact ⟨far, hfar, x, hlookup, rfl, rfl⟩

/-- A loop over identifiers attaches what is found under them, in order. -/
theorem handed_of_lookups (pair : Model → Model × Model) {lookup : OrderedMap String Model}
    {ids : List String} {attach : Model → Action σ Unit} {u : PUnit}
    (hattach : ∀ x hands t t', (∃ id ∈ ids, lookup.get? id = some x) →
      g.Handed t (slots plan old g) (takes members fars) hands → Returns (attach x) t () t' →
      g.Handed t' (slots plan old g) (takes members fars) (hands ++ links plan g (pair x)))
    (hands : List (Model × Model))
    (h : g.Handed t (slots plan old g) (takes members fars) hands)
    (hrun : Returns (ids.forM fun id => do if let some x := lookup.get? id then attach x) t u t') :
    g.Handed t' (slots plan old g) (takes members fars)
      (hands ++ wiring plan g ((ids.filterMap lookup.get?).map pair)) := by
  refine hrun.forM_invariant (fun done t => g.Handed t (slots plan old g) (takes members fars)
    (hands ++ wiring plan g ((done.filterMap lookup.get?).map pair))) (by simpa [wiring] using h) ?_
  rintro done id rest t t' rfl hdone hturn
  rw [List.filterMap_append, List.map_append, wiring_append, ← List.append_assoc]
  cases hid : lookup.get? id with
  | none =>
      simp only [hid, returns_pure] at hturn
      rw [hturn.1]
      simpa [hid, wiring] using hdone
  | some x =>
      simp only [hid] at hturn
      simpa [hid, wiring] using hattach x _ t t' ⟨id, by simp, hid⟩ hdone hturn

/-- Attaching members that hold the foreign key, one after the other. -/
theorem handed_of_attachParents {found : OrderedMap String Model} {u : PUnit}
    (hside : plan.resolved.side = .parent) (hkey : ∀ m ∈ members, plan.OwnKey g m)
    (hpaired : ∀ m ∈ members, ∀ far id, found.get? id = some far →
      Attachable members found.values old g m far)
    (hapart : g.Apart (slots plan old g) (takes members found.values))
    (hrun : Returns (members.forM fun m => do
      (← m.parentIds plan.resolved.name).forM fun id => do
        if let some target := found.get? id then attachParent plan m target) g u t) :
    g.Handed t (slots plan old g) (takes members found.values)
      (wiring plan g (parentPairs plan g found members)) := by
  refine hrun.forM_invariant (fun done t => g.Handed t (slots plan old g)
    (takes members found.values) (wiring plan g (parentPairs plan g found done)))
    (.refl hapart) ?_
  intro done m rest t t' hsplit hdone hturn
  have hm : m ∈ members := by
    simp [hsplit]
  rw [returns_bind] at hturn
  obtain ⟨ids, _, hids, hturn⟩ := hturn
  obtain ⟨rfl, rfl⟩ := returns_parentIds_of_ownKey hdone.relinks (hkey m hm) hids
  have hnext := handed_of_lookups (fun far => (m, far))
    (fun far hands u u' hfar hhanded hattach =>
      handed_of_attachParent hside (hpaired m hm far hfar.choose hfar.choose_spec.2) hhanded
        hattach) _ hdone hturn
  simpa [parentPairs, wiring_append] using hnext

/-- Attaching far models that hold the foreign key, one after the other. -/
theorem handed_of_attachChildren {owners : OrderedMap String Model} {u : PUnit}
    (hside : plan.resolved.side = .child)
    (hpaired : ∀ far ∈ fars, ∀ m id, owners.get? id = some m →
      Attachable members fars old g m far ∧ (g.model m).record.isNew = false)
    (hapart : g.Apart (slots plan old g) (takes members fars))
    (hrun : Returns (fars.forM fun child => do
      ((← child.record).referenceIds plan.resolved.foreignKey.field
        plan.resolved.foreignKey.column).forM fun id => do
          if let some owner := owners.get? id then attachChild plan owner child) g u t) :
    g.Handed t (slots plan old g) (takes members fars)
      (wiring plan g (childPairs plan g owners fars)) := by
  refine hrun.forM_invariant (fun done t => g.Handed t (slots plan old g)
    (takes members fars) (wiring plan g (childPairs plan g owners done))) (.refl hapart) ?_
  intro done far rest t t' hsplit hdone hturn
  have hfar : far ∈ fars := by
    simp [hsplit]
  rw [returns_bind] at hturn
  obtain ⟨record, _, hrecord, hturn⟩ := hturn
  rw [Model.returns_record, hdone.relinks.record] at hrecord
  obtain ⟨rfl, rfl⟩ := hrecord
  have hnext := handed_of_lookups (fun m => (m, far))
    (fun m hands u u' hm hhanded hattach =>
      handed_of_attachChild hside (hpaired far hfar m hm.choose hm.choose_spec.2).1
        (hpaired far hfar m hm.choose hm.choose_spec.2).2 hhanded hattach) _ hdone hturn
  simpa [childPairs, wiring_append, Graph.keyIds] using hnext

/-! ## One group of members -/

/-- Whether a member keeps what it has loaded: a single parent that is not stored yet. -/
def Plan.keeps (plan : Plan) (g : Graph σ) (m : Model) : Bool :=
  plan.resolved.cardinality = .single &&
    ((g.model m).parents.get? plan.resolved.name).any fun p => (g.model p).record.isNew

theorem returns_holdsUnsavedParent {m : Model} {b : Bool}
    (h : Returns (holdsUnsavedParent plan m) g b g') : g' = g ∧ b = plan.keeps g m := by
  unfold holdsUnsavedParent at h
  unfold Plan.keeps
  by_cases hsingle : plan.resolved.cardinality = .single
  · rw [if_pos hsingle] at h
    simp only [returns_bind, Model.returns_cachedParent, and_assoc, exists_eq_left] at h
    cases hcached : (g.model m).parents.get? plan.resolved.name with
    | none =>
        simp only [hcached, returns_pure] at h
        simp [h.1, h.2]
    | some parent =>
        simp only [hcached, Model.returns_isNew] at h
        simp [h.1, h.2, hsingle]
  · rw [if_neg hsingle, returns_pure] at h
    simp [h.1, h.2, hsingle]

theorem returns_not_holdsUnsavedParent (m : Model) (b : Bool) (t : Graph σ)
    (h : Returns (do return !(← holdsUnsavedParent plan m)) g b t) :
    t = g ∧ b = !plan.keeps g m := by
  simp only [returns_bind, returns_pure] at h
  obtain ⟨held, between, hread, rfl, rfl⟩ := h
  obtain ⟨rfl, rfl⟩ := returns_holdsUnsavedParent hread
  exact ⟨rfl, rfl⟩

/-- A fetch for one group, by the states that it goes through: `unloaded`, where the
relationship was unloaded on the members, and `ran`, where the far models are `found` but not
handed over. -/
structure Loading (plan : Plan) (members : List Model) (g unloaded ran g' : Graph σ)
    (answers : List Record) (found : OrderedMap String Model) (pairs : List (Model × Model)) :
    Prop where
  unload : g.Unloaded unloaded plan.resolved.name plan.resolved.holdsSingle members
  forges : unloaded.OnlyForges ran
  finds : Found unloaded ran plan.query.wrapping answers found
  known : ∀ m ∈ members, unloaded.HasModel m
  paired : ∀ pair ∈ pairs, Attachable members found.values unloaded ran pair.1 pair.2
  handed : ran.Handed g' (slots plan unloaded ran) (takes members found.values)
    (wiring plan ran pairs)

variable {unloaded ran : Graph σ} {answers : List Record} {found : OrderedMap String Model}

theorem Found.new_of_mem_values (h : Found unloaded ran plan.query.wrapping answers found)
    {far : Model} (hfar : far ∈ found.values) :
    ¬ unloaded.HasModel far ∧ (ran.model far).record.isNew = false := by
  obtain ⟨id, hid⟩ := OrderedMap.mem_values_iff.mp hfar
  refine ⟨(h.wraps id far hid).1, ?_⟩
  simp [Record.isNew, (h.record id far hid).2]

theorem Found.attachable (h : Found unloaded ran plan.query.wrapping answers found)
    {m far : Model} (hm : m ∈ members) (hfar : far ∈ found.values) (hthere : unloaded.HasModel m) :
    Attachable members found.values unloaded ran m far := by
  obtain ⟨hnew, hstored⟩ := h.new_of_mem_values hfar
  exact ⟨hm, hfar, hthere, hnew, hstored⟩

/-- When the hand-overs begin, no two models share a collection: each member has the one of
its unloading, and the far models have none. -/
theorem apart_of_unloaded
    (hunload : g.Unloaded unloaded plan.resolved.name plan.resolved.holdsSingle members)
    (hforges : unloaded.OnlyForges ran)
    (hfound : Found unloaded ran plan.query.wrapping answers found)
    (hknown : ∀ m ∈ members, unloaded.HasModel m) :
    ran.Apart (slots plan unloaded ran) (takes members found.values) := by
  have hfar : ∀ x c, x ∈ found.values → ran.slot? (slots plan unloaded ran) x ≠ some c := by
    intro x c hx
    obtain ⟨id, hid⟩ := OrderedMap.mem_values_iff.mp hx
    simp [Graph.slot?, (hfound.wraps id x hid).2.2.children]
  have hnear : ∀ x, x ∈ members → ran.slot? (slots plan unloaded ran) x =
      (unloaded.model x).children.get? plan.resolved.name := by
    intro x hx
    rw [Graph.slot?, (slots_near _ _ (hknown x hx)).1, hforges.model_eq x (hknown x hx)]
  refine ⟨?_, ?_⟩
  · rintro x c (hx | hx) hsingle hc
    · rw [(slots_near _ _ (hknown x hx)).2] at hsingle
      obtain ⟨fresh, hchildren, -, hhas, -⟩ := hunload.fresh hsingle x hx
      rw [hnear x hx, hchildren, OrderedMap.get?_insert, if_pos rfl, Option.some.injEq] at hc
      rw [← hc, Graph.HasCollection, hforges.collections]
      exact hhas
    · exact absurd hc (hfar x c hx)
  · rintro x y c (hx | hx) (hy | hy) hsingle - hcx hcy
    · rw [(slots_near _ _ (hknown x hx)).2] at hsingle
      exact hunload.apart hsingle x hx y hy c (hnear x hx ▸ hcx) (hnear y hy ▸ hcy)
    · exact absurd hcy (hfar y c hy)
    · exact absurd hcx (hfar x c hx)
    · exact absurd hcx (hfar x c hx)

/-- What the batches of a fetch answered. -/
structure Answered (plan : Plan) (Stored : σ → Prop) (Answers : List String → List Record → Prop)
    (g ran : Graph σ) (ids : List String) (answers : List Record) : Prop where
  stored : Stored ran.store
  byBatch : ∃ answered : List (List Record), answers = answered.flatten ∧
    List.Forall₂ Answers
      (batches ((g.session plan.session).config.fetchBatchSize.getD ids.length) ids) answered

/-- A fetch that has nothing to ask for ends with the unloading. -/
theorem loading_of_unloaded {Stored : σ → Prop} {Answers : List String → List Record → Prop}
    (hunload : g.Unloaded unloaded plan.resolved.name plan.resolved.holdsSingle members)
    (hknown : ∀ m ∈ members, unloaded.HasModel m) (hstored : Stored unloaded.store) :
    Loading plan members g unloaded unloaded unloaded [] OrderedMap.empty [] ∧
      Answered plan Stored Answers g unloaded [] [] := by
  have hfound : Found unloaded unloaded plan.query.wrapping [] OrderedMap.empty :=
    .empty _ _ _
  refine ⟨⟨hunload, .refl _, hfound, hknown, by simp, ?_⟩, hstored, [], rfl, ?_⟩
  · exact .refl (apart_of_unloaded hunload (.refl _) hfound hknown)
  · rw [batches]
    exact .nil

section Tracked

-- what is known of the store may depend on what it has answered so far
variable [RecordStore σ] (Stored : List Record → σ → Prop)
  {Answers : List String → List Record → Prop}
  (hanswers : ∀ before ids t rs t', Stored before t.store →
    Returns ((batchQuery plan ids).query.fetch plan.session) t rs t' →
    Stored (before ++ rs) t'.store ∧ Answers ids rs)

include hanswers

/-- The batches, run after the unloading. -/
theorem returns_run_of_unloaded {ids : List String} {name : String} {single : Bool}
    (hunload : g.Unloaded unloaded name single members) (hstored : Stored [] g.store)
    (hrun : Returns (run plan ids) unloaded found ran) :
    ∃ answers, unloaded.OnlyForges ran ∧ Found unloaded ran plan.query.wrapping answers found ∧
      Answered plan (Stored answers) Answers g ran ids answers := by
  have hstored' : Stored [] unloaded.store := by
    rw [hunload.relinks.store]
    exact hstored
  obtain ⟨hforges, answered, hstoredRan, hbatches, hfound⟩ := returns_run hanswers hstored' hrun
  refine ⟨answered.flatten, hforges, hfound, hstoredRan, answered, rfl, ?_⟩
  simpa [hunload.relinks.sessions, Graph.session] using hbatches

/-- Loading the far models of members that hold the foreign key. -/
theorem tracks_parentSide (hside : plan.resolved.side = .parent)
    (hmembers : g.Fetchable plan.resolved.name members)
    (hkey : ∀ m ∈ members, plan.OwnKey g m) (hstored : Stored [] g.store)
    (h : Returns (parentSide plan members) g () g') :
    ∃ unloaded ran answers found,
      Loading plan (members.filter fun m => !plan.keeps g m) g unloaded ran g' answers found
        (parentPairs plan g found (members.filter fun m => !plan.keeps g m)) ∧
      Answered plan (Stored answers) Answers g ran (distinct
        ((members.filter fun m => !plan.keeps g m).map
          (g.keyIds plan.resolved.foreignKey)).flatten) answers := by
  unfold parentSide at h
  rw [returns_bind] at h
  obtain ⟨loading, afterFilter, hfilter, h⟩ := h
  obtain ⟨hread, hloading⟩ := hfilter.filterM_of_reads returns_not_holdsUnsavedParent
  rw [hread] at h
  rw [← hloading]
  have hloads : g.Fetchable plan.resolved.name loading := hloading ▸ hmembers.filter _
  have howned : ∀ m ∈ loading, plan.OwnKey g m := fun m hm =>
    hkey m (List.mem_filter.mp (hloading ▸ hm)).1
  rw [returns_bind] at h
  obtain ⟨idss, unloaded, hunloading, h⟩ := h
  obtain ⟨hunload, rfl⟩ := returns_unloadParents hloads howned hunloading
  rw [← Resolved.holdsSingle_of_parent hside] at hunload
  have hthere : ∀ m ∈ loading, unloaded.HasModel m := fun m hm =>
    hunload.relinks.hasModel (hloads.known m hm)
  simp only at h
  split at h
  · rename_i hempty
    obtain ⟨rfl, -⟩ := returns_pure.mp h
    rw [List.isEmpty_iff.mp hempty]
    have hpairs : parentPairs plan g OrderedMap.empty loading = [] := by
      simp [parentPairs]
    refine ⟨g', g', [], OrderedMap.empty, ?_⟩
    rw [hpairs]
    exact loading_of_unloaded hunload hthere (hunload.relinks.store ▸ hstored)
  · rw [returns_bind] at h
    obtain ⟨found, ran, hrun, hwire⟩ := h
    obtain ⟨answers, hforges, hfound, hanswered⟩ :=
      returns_run_of_unloaded Stored hanswers hunload hstored hrun
    have hran : ∀ m ∈ loading, (ran.model m).record = (g.model m).record ∧
        (ran.model m).modelType = (g.model m).modelType := by
      intro m hm
      rw [hforges.model_eq m (hthere m hm)]
      exact ⟨hunload.relinks.record m, hunload.relinks.modelType m⟩
    have hsame : parentPairs plan ran found loading = parentPairs plan g found loading :=
      parentPairs_congr fun m hm => by rw [Graph.keyIds, (hran m hm).1, Graph.keyIds]
    have hpaired : ∀ m ∈ loading, ∀ far id, found.get? id = some far →
        Attachable loading found.values unloaded ran m far := fun m hm far id hid =>
      hfound.attachable hm (OrderedMap.mem_values_iff.mpr ⟨id, hid⟩) (hthere m hm)
    refine ⟨unloaded, ran, answers, found, ⟨hunload, hforges, hfound, hthere, ?_, ?_⟩,
      hanswered⟩
    · intro pair hpair
      obtain ⟨hm, id, -, hid⟩ := mem_parentPairs.mp hpair
      exact hpaired pair.1 hm pair.2 id hid
    · rw [← hsame]
      refine handed_of_attachParents hside (fun m hm => ?_) hpaired
        (apart_of_unloaded hunload hforges hfound hthere) hwire
      unfold Plan.OwnKey
      rw [(hran m hm).2]
      exact howned m hm

/-- Loading the far models that refer to the members. -/
theorem tracks_childSide (hside : plan.resolved.side = .child)
    (hmembers : g.Fetchable plan.resolved.name members) (hids : g.DistinctIds members)
    (hstored : Stored [] g.store) (h : Returns (childSide plan members) g () g') :
    ∃ unloaded ran answers found owners,
      (∀ id m, owners.get? id = some m ↔ m ∈ members ∧ (g.model m).record.id = some id) ∧
      Loading plan members g unloaded ran g' answers found
        (childPairs plan ran owners found.values) ∧
      Answered plan (Stored answers) Answers g ran owners.keys answers := by
  unfold childSide at h
  rw [returns_bind] at h
  obtain ⟨owners, unloaded, hunloading, h⟩ := h
  obtain ⟨hunload, howners⟩ := returns_unloadChildren hmembers hids hunloading
  rw [← Resolved.holdsSingle_of_child hside] at hunload
  have hthere : ∀ m ∈ members, unloaded.HasModel m := fun m hm =>
    hunload.relinks.hasModel (hmembers.known m hm)
  split at h
  · rename_i hempty
    obtain ⟨rfl, -⟩ := returns_pure.mp h
    have hkeys : owners.keys = [] := by
      rw [OrderedMap.keys, List.isEmpty_iff.mp hempty, List.map_nil]
    have hpairs : childPairs plan g' owners (OrderedMap.empty : OrderedMap String Model).values =
        [] := rfl
    refine ⟨g', g', [], OrderedMap.empty, owners, howners, ?_⟩
    rw [hkeys, hpairs]
    exact loading_of_unloaded hunload hthere (hunload.relinks.store ▸ hstored)
  · rw [returns_bind] at h
    obtain ⟨found, ran, hrun, hwire⟩ := h
    obtain ⟨answers, hforges, hfound, hanswered⟩ :=
      returns_run_of_unloaded Stored hanswers hunload hstored hrun
    have hpaired : ∀ far ∈ found.values, ∀ m id, owners.get? id = some m →
        Attachable members found.values unloaded ran m far ∧
          (ran.model m).record.isNew = false := by
      intro far hfar m id hid
      obtain ⟨hm, hmid⟩ := (howners id m).mp hid
      refine ⟨hfound.attachable hm hfar (hthere m hm), ?_⟩
      rw [hforges.model_eq m (hthere m hm), hunload.relinks.record]
      simp [Record.isNew, hmid]
    refine ⟨unloaded, ran, answers, found, owners, howners,
      ⟨hunload, hforges, hfound, hthere, ?_, ?_⟩, hanswered⟩
    · intro pair hpair
      obtain ⟨hfar, id, -, hid⟩ := mem_childPairs.mp hpair
      exact (hpaired pair.2 hfar pair.1 id hid).1
    · exact handed_of_attachChildren hside hpaired
        (apart_of_unloaded hunload hforges hfound hthere) hwire

end Tracked

variable [RecordStore σ] (Stored : σ → Prop) {Answers : List String → List Record → Prop}
  (hanswers : ∀ ids t rs t', Stored t.store →
    Returns ((batchQuery plan ids).query.fetch plan.session) t rs t' →
    Stored t'.store ∧ Answers ids rs)

include hanswers

/-- Loading the far models of members that hold the foreign key, from a store that stays as it
is. -/
theorem returns_parentSide (hside : plan.resolved.side = .parent)
    (hmembers : g.Fetchable plan.resolved.name members)
    (hkey : ∀ m ∈ members, plan.OwnKey g m) (hstored : Stored g.store)
    (h : Returns (parentSide plan members) g () g') :
    ∃ unloaded ran answers found,
      Loading plan (members.filter fun m => !plan.keeps g m) g unloaded ran g' answers found
        (parentPairs plan g found (members.filter fun m => !plan.keeps g m)) ∧
      Answered plan Stored Answers g ran (distinct
        ((members.filter fun m => !plan.keeps g m).map
          (g.keyIds plan.resolved.foreignKey)).flatten) answers :=
  tracks_parentSide (fun _ => Stored) (fun _ => hanswers) hside hmembers hkey hstored h

/-- Loading the far models that refer to the members, from a store that stays as it is. -/
theorem returns_childSide (hside : plan.resolved.side = .child)
    (hmembers : g.Fetchable plan.resolved.name members) (hids : g.DistinctIds members)
    (hstored : Stored g.store) (h : Returns (childSide plan members) g () g') :
    ∃ unloaded ran answers found owners,
      (∀ id m, owners.get? id = some m ↔ m ∈ members ∧ (g.model m).record.id = some id) ∧
      Loading plan members g unloaded ran g' answers found
        (childPairs plan ran owners found.values) ∧
      Answered plan Stored Answers g ran owners.keys answers :=
  tracks_childSide (fun _ => Stored) (fun _ => hanswers) hside hmembers hids hstored h

end Fetching

end RecordGraph
