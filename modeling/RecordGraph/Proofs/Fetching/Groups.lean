/-
# Fetching group by group

The members of a fetch are grouped by type, and each group is loaded on its own. What a group
does is confined to its members and to the objects it makes: all other models and all older
collections stay as they are, so the groups do not disturb each other.
-/
import RecordGraph.Proofs.Fetching.Sides

namespace RecordGraph

variable {σ : Type}

namespace Graph

/-- Nothing happened to the collections of `g`, nor to its models except for what the members
have loaded. -/
structure Spares (g g' : Graph σ) (members : List Model) : Prop where
  registry : g'.registry = g.registry
  models_size : g.models.size ≤ g'.models.size
  collections_size : g.collections.size ≤ g'.collections.size
  model : ∀ m, g.HasModel m → g'.model m =
    { g.model m with parents := (g'.model m).parents, children := (g'.model m).children }
  others : ∀ m, g.HasModel m → m ∉ members → g'.model m = g.model m
  collection : ∀ c, g.HasCollection c → g'.collection c = g.collection c

namespace Spares

variable {g g' g'' : Graph σ} {members more : List Model}

theorem refl (g : Graph σ) : g.Spares g [] :=
  ⟨rfl, Nat.le_refl _, Nat.le_refl _, fun _ _ => rfl, fun _ _ _ => rfl, fun _ _ => rfl⟩

theorem hasModel (h : g.Spares g' members) {m : Model} (hm : g.HasModel m) : g'.HasModel m :=
  Nat.lt_of_lt_of_le hm h.models_size

theorem hasCollection (h : g.Spares g' members) {c : Collection} (hc : g.HasCollection c) :
    g'.HasCollection c :=
  Nat.lt_of_lt_of_le hc h.collections_size

theorem mono (h : g.Spares g' members) (hmore : ∀ m ∈ members, m ∈ more) : g.Spares g' more :=
  { h with others := fun m hm hout => h.others m hm fun hmem => hout (hmore m hmem) }

theorem trans (first : g.Spares g' members) (second : g'.Spares g'' more) :
    g.Spares g'' (members ++ more) where
  registry := second.registry.trans first.registry
  models_size := Nat.le_trans first.models_size second.models_size
  collections_size := Nat.le_trans first.collections_size second.collections_size
  model m hm := by
    rw [second.model m (first.hasModel hm), first.model m hm]
  others m hm hout := by
    rw [List.mem_append, not_or] at hout
    rw [second.others m (first.hasModel hm) hout.2, first.others m hm hout.1]
  collection c hc := by
    rw [second.collection c (first.hasCollection hc), first.collection c hc]

end Spares

/-- Members that were left out can be fetched as before. -/
theorem Fetchable.of_spares {g g' : Graph σ} {name : String} {members more : List Model}
    (h : g.Fetchable name more) (hspares : g.Spares g' members)
    (hdisjoint : ∀ m ∈ members, m ∉ more) : g'.Fetchable name more where
  nodup := h.nodup
  known m hm := hspares.hasModel (h.known m hm)
  made m hm c hc := by
    rw [hspares.others m (h.known m hm) fun hmem => hdisjoint m hmem hm] at hc
    exact hspares.hasCollection (h.made m hm c hc)

end Graph

namespace Fetching

variable {plan : Plan} {g unloaded ran g' : Graph σ} {members : List Model}
  {answers : List Record} {found : OrderedMap String Model} {pairs : List (Model × Model)}

namespace Loading

variable (h : Loading plan members g unloaded ran g' answers found pairs)

include h

theorem hasModel_of_unloaded {m : Model} (hm : g.HasModel m) : unloaded.HasModel m :=
  h.unload.relinks.hasModel hm

/-- The type, key and record of a model are those with which the hand-overs began. -/
theorem model_eq (m : Model) : g'.model m =
    { ran.model m with parents := (g'.model m).parents, children := (g'.model m).children } :=
  h.handed.relinks.model m

/-- Beside its members a group touches only what it makes. -/
theorem spares : g.Spares g' members where
  registry := h.handed.relinks.registry.trans (h.forges.registry.trans h.unload.relinks.registry)
  models_size := Nat.le_trans h.unload.relinks.models_size
    (Nat.le_trans h.forges.models_le h.handed.relinks.models_size)
  collections_size := by
    have hsame : ran.collections.size = unloaded.collections.size := by
      rw [h.forges.collections]
    exact Nat.le_trans (hsame ▸ h.unload.relinks.collections_size)
      h.handed.relinks.collections_size
  model m hm := by
    rw [h.model_eq m, h.forges.model_eq m (h.hasModel_of_unloaded hm), h.unload.relinks.model m]
  others m hm hout := by
    have hthere := h.hasModel_of_unloaded hm
    rw [h.handed.others m, h.forges.model_eq m hthere, h.unload.others m hout]
    rintro (hmember | hfar)
    · exact hout hmember
    · exact (h.finds.new_of_mem_values hfar).1 hthere
  collection c hc := by
    have hmade : unloaded.HasCollection c := h.unload.relinks.hasCollection hc
    have hthere : ran.HasCollection c := by
      rw [Graph.HasCollection, h.forges.collections]
      exact hmade
    rw [h.handed.collection c hthere, h.forges.collection_eq, h.unload.collection c hc]
    rintro x (hx | hx) hsingle hslot
    · rw [(slots_near _ _ (h.known x hx)).2] at hsingle
      rw [Graph.slot?, (slots_near _ _ (h.known x hx)).1,
        h.forges.model_eq x (h.known x hx)] at hslot
      obtain ⟨fresh, hchildren, hnew, -⟩ := h.unload.fresh hsingle x hx
      rw [hchildren, OrderedMap.get?_insert, if_pos rfl, Option.some.injEq] at hslot
      exact hnew (hslot ▸ hc)
    · obtain ⟨id, hid⟩ := OrderedMap.mem_values_iff.mp hx
      simp [Graph.slot?, (h.finds.wraps id x hid).2.2.children] at hslot

/-- A member takes the far models that it is paired with. -/
theorem received_near {m : Model} (hm : m ∈ members) :
    received (wiring plan ran pairs) m =
      (pairs.filter fun pair => pair.1 = m).map Prod.snd :=
  received_wiring_near (h.known m hm) fun pair hpair => (h.paired pair hpair).new

/-- After loading, a single parent is the last far model that the member is paired with. -/
theorem parents_near {m : Model} (hm : m ∈ members)
    (hsingle : plan.resolved.holdsSingle = true) :
    (g'.model m).parents.get? plan.resolved.name =
      ((pairs.filter fun pair => pair.1 = m).map Prod.snd).getLast? := by
  have hparents := h.handed.parents m
  obtain ⟨hname, hflag⟩ := slots_near plan ran (h.known m hm)
  rw [hflag, hsingle, if_pos rfl, hname, h.received_near hm, h.forges.model_eq m (h.known m hm),
    h.unload.parents m hm, hsingle, if_pos rfl] at hparents
  rw [hparents, OrderedMap.get?_foldl_insert, OrderedMap.get?_erase, if_pos rfl, Option.or_none]

/-- After loading, a collection holds the unsaved models of the old one and then the far models
that the member is paired with; the snapshot has the latter only. -/
theorem collection_near {m : Model} (hm : m ∈ members)
    (hmany : plan.resolved.holdsSingle = false) :
    ∃ c, (g'.model m).children.get? plan.resolved.name = some c ∧ g'.HasCollection c ∧
      (g'.collection c).members =
        (OrderedMap.empty.insertAll (fun x => (g.model x).key)
          (g.unsavedChildren m plan.resolved.name)).insertAll (fun x => (ran.model x).key)
          ((pairs.filter fun pair => pair.1 = m).map Prod.snd) ∧
      (g'.collection c).snapshot =
        OrderedMap.empty.insertAll (fun x => (ran.model x).key)
          ((pairs.filter fun pair => pair.1 = m).map Prod.snd) := by
  obtain ⟨c, hchildren, -, hhas, hmembers, hsnapshot⟩ := h.unload.fresh hmany m hm
  obtain ⟨hname, hflag⟩ := slots_near plan ran (h.known m hm)
  have hbefore : ran.slot? (slots plan unloaded ran) m = some c := by
    rw [Graph.slot?, hname, h.forges.model_eq m (h.known m hm), hchildren, OrderedMap.get?_insert,
      if_pos rfl]
  have hafter := h.handed.kept m c hbefore
  have htake : takes members found.values m := .inl hm
  refine ⟨c, ?_, h.handed.apart.made m c htake (hflag.trans hmany) hafter, ?_, ?_⟩
  · rw [Graph.slot?, hname] at hafter
    exact hafter
  · have hfilled := h.handed.members m htake (hflag.trans hmany)
    rw [Graph.slotMembers, hafter, Graph.slotMembers, hbefore, h.received_near hm] at hfilled
    rw [Option.elim_some, Option.elim_some, h.forges.collection_eq, hmembers] at hfilled
    exact hfilled
  · have hfilled := h.handed.snapshot m htake (hflag.trans hmany)
    rw [Graph.slotSnapshot, hafter, Graph.slotSnapshot, hbefore, h.received_near hm] at hfilled
    rw [Option.elim_some, Option.elim_some, h.forges.collection_eq, hsnapshot] at hfilled
    rw [hfilled, List.filter_eq_self.mpr]
    intro x hx
    obtain ⟨pair, hpair, rfl⟩ := List.mem_map.mp hx
    simp [(h.paired pair (List.mem_filter.mp hpair).1).stored]

/-- If unsaved models and far models are told apart by their keys, a loaded collection lists
the former in their old order and then the latter, each once. -/
theorem values_near {m : Model} (hm : m ∈ members) (hmany : plan.resolved.holdsSingle = false)
    (hunsaved : ((g.unsavedChildren m plan.resolved.name).map fun x => (g.model x).key).Nodup)
    (hapart : ∀ x ∈ g.unsavedChildren m plan.resolved.name, ∀ far ∈ found.values,
      (g.model x).key ≠ (ran.model far).key) :
    ∃ c, (g'.model m).children.get? plan.resolved.name = some c ∧
      (g'.collection c).members.values = g.unsavedChildren m plan.resolved.name ++
        distinct ((pairs.filter fun pair => pair.1 = m).map Prod.snd) ∧
      (g'.collection c).snapshot.values =
        distinct ((pairs.filter fun pair => pair.1 = m).map Prod.snd) := by
  obtain ⟨c, hc, -, hmembers, hsnapshot⟩ := h.collection_near hm hmany
  have hfar : ∀ x ∈ (pairs.filter fun pair => pair.1 = m).map Prod.snd, x ∈ found.values := by
    intro x hx
    obtain ⟨pair, hpair, rfl⟩ := List.mem_map.mp hx
    exact (h.paired pair (List.mem_filter.mp hpair).1).found
  have hinj : ∀ x ∈ (pairs.filter fun pair => pair.1 = m).map Prod.snd,
      ∀ y ∈ (pairs.filter fun pair => pair.1 = m).map Prod.snd,
        (ran.model x).key = (ran.model y).key → x = y := fun x hx y hy hkey =>
    h.finds.eq_of_key_eq (hfar x hx) (hfar y hy) hkey
  refine ⟨c, hc, ?_, ?_⟩
  · rw [hmembers, OrderedMap.values_insertAll ?_ hinj, OrderedMap.values_insertAll_empty hunsaved]
    intro x hx hkey
    rcases OrderedMap.mem_keys_of_insertAll hkey with hnone | ⟨held, hheld, hsame⟩
    · simp at hnone
    · exact hapart held hheld x (hfar x hx) hsame
  · rw [hsnapshot, OrderedMap.values_insertAll (by simp) hinj]
    rfl

/-- A member that holds no single parent keeps its parents. -/
theorem parents_of_many {m : Model} (hm : m ∈ members)
    (hmany : plan.resolved.holdsSingle = false) : (g'.model m).parents = (g.model m).parents := by
  obtain ⟨-, hflag⟩ := slots_near plan ran (h.known m hm)
  rw [h.handed.parents m, hflag, hmany, if_neg (by simp), h.forges.model_eq m (h.known m hm),
    h.unload.parents m hm, hmany, if_neg (by simp)]

/-- A member that holds a single parent keeps its collections. -/
theorem children_of_single {m : Model} (hm : m ∈ members)
    (hsingle : plan.resolved.holdsSingle = true) :
    (g'.model m).children = (g.model m).children := by
  obtain ⟨-, hflag⟩ := slots_near plan ran (h.known m hm)
  rw [h.handed.children m (hflag.trans hsingle), h.forges.model_eq m (h.known m hm),
    h.unload.children hsingle]

/-- Under other names a member keeps what it had loaded. -/
theorem loaded_elsewhere {m : Model} (hm : m ∈ members) {other : String}
    (hother : other ≠ plan.resolved.name) :
    (g'.model m).parents.get? other = (g.model m).parents.get? other ∧
      (g'.model m).children.get? other = (g.model m).children.get? other := by
  obtain ⟨hname, hflag⟩ := slots_near plan ran (h.known m hm)
  have hran := h.forges.model_eq m (h.known m hm)
  have hunloaded : (unloaded.model m).parents.get? other = (g.model m).parents.get? other ∧
      (unloaded.model m).children.get? other = (g.model m).children.get? other := by
    rw [h.unload.parents m hm]
    cases hsingle : plan.resolved.holdsSingle with
    | true =>
        rw [if_pos rfl, OrderedMap.get?_erase, if_neg (Ne.symm hother), h.unload.children hsingle]
        exact ⟨rfl, rfl⟩
    | false =>
        obtain ⟨c, hchildren, -⟩ := h.unload.fresh hsingle m hm
        rw [if_neg (by simp), hchildren, OrderedMap.get?_insert, if_neg (Ne.symm hother)]
        exact ⟨rfl, rfl⟩
  constructor
  · rw [h.handed.parents m, hran, hname, ← hunloaded.1]
    split
    · induction received (wiring plan ran pairs) m using List.reverseRecOn with
      | nil => rfl
      | append_singleton rest far ih =>
          rw [List.foldl_append, List.foldl_cons, List.foldl_nil, OrderedMap.get?_insert,
            if_neg (Ne.symm hother), ih]
    · rfl
  · rw [h.handed.elsewhere m other (hname ▸ hother), hran, hunloaded.2]

/-- A far model that was handed over is one of those found. -/
theorem mem_found {near far : Model} (hpair : (near, far) ∈ pairs) : far ∈ found.values :=
  (h.paired (near, far) hpair).found

/-- A far model that knows a way back takes the members that it is paired with. -/
theorem received_far {far : Model} (hfar : far ∈ found.values) {inverse : String}
    (hinverse : plan.resolved.inverseOn? (ran.model far).modelType.name = some inverse) :
    received (wiring plan ran pairs) far =
      (pairs.filter fun pair => pair.2 = far).map Prod.fst :=
  received_wiring_far (h.finds.new_of_mem_values hfar).1
    (fun pair hpair => (h.paired pair hpair).known) hinverse

/-- A single way back leads to the last member that the far model is paired with. -/
theorem parents_far {far : Model} (hfar : far ∈ found.values) {inverse : String}
    (hinverse : plan.resolved.inverseOn? (ran.model far).modelType.name = some inverse)
    (hsingle : plan.resolved.heldSingly = true) :
    (g'.model far).parents.get? inverse =
      ((pairs.filter fun pair => pair.2 = far).map Prod.fst).getLast? := by
  have hparents := h.handed.parents far
  obtain ⟨hname, hflag⟩ := slots_far (h.finds.new_of_mem_values hfar).1 hinverse
  obtain ⟨id, hid⟩ := OrderedMap.mem_values_iff.mp hfar
  rw [hflag, hsingle, if_pos rfl, hname, h.received_far hfar hinverse,
    (h.finds.wraps id far hid).2.2.parents] at hparents
  rw [hparents, OrderedMap.get?_foldl_insert, OrderedMap.get?_empty, Option.or_none]

/-- Any other way back leads to a collection of the members that the far model is paired
with. -/
theorem collection_far {far : Model} (hfar : far ∈ found.values) {inverse : String}
    (hinverse : plan.resolved.inverseOn? (ran.model far).modelType.name = some inverse)
    (hmany : plan.resolved.heldSingly = false)
    (hpaired : ∃ near, (near, far) ∈ pairs) :
    ∃ c, (g'.model far).children.get? inverse = some c ∧ g'.HasCollection c ∧
      (g'.collection c).members = OrderedMap.empty.insertAll (fun x => (ran.model x).key)
        ((pairs.filter fun pair => pair.2 = far).map Prod.fst) := by
  obtain ⟨hname, hflag⟩ := slots_far (h.finds.new_of_mem_values hfar).1 hinverse
  obtain ⟨id, hid⟩ := OrderedMap.mem_values_iff.mp hfar
  have hreceived := h.received_far hfar hinverse
  have htake : takes members found.values far := .inr hfar
  have hsome : received (wiring plan ran pairs) far ≠ [] := by
    obtain ⟨near, hpair⟩ := hpaired
    rw [hreceived]
    exact List.ne_nil_of_mem (List.mem_map.mpr ⟨_, List.mem_filter.mpr ⟨hpair, by simp⟩, rfl⟩)
  obtain ⟨c, hc⟩ := Option.isSome_iff_exists.mp (h.handed.loaded far (hflag.trans hmany) hsome)
  have hfilled := h.handed.members far htake (hflag.trans hmany)
  have hbefore : ran.slot? (slots plan unloaded ran) far = none := by
    simp [Graph.slot?, (h.finds.wraps id far hid).2.2.children]
  rw [Graph.slotMembers, hc, Graph.slotMembers, hbefore, hreceived] at hfilled
  refine ⟨c, ?_, h.handed.apart.made far c htake (hflag.trans hmany) hc, hfilled⟩
  rw [Graph.slot?, hname] at hc
  exact hc

end Loading

/-! ## From a declaration to a plan -/

/-- The plan of a group comes from what the registry says on its relationship. -/
structure Planned (registry : Registry) (s : Session) (t : ModelType) (name : String)
    (callers : Option Query) (plan : Plan) : Prop where
  session : plan.session = s
  resolved : registry.resolve t.name name = .ok plan.resolved
  declared : ∃ relationship q, t.relationship name = .ok relationship ∧
    registry.relationshipQuery relationship = .ok q ∧
    registry.relationshipCondition relationship = .ok plan.condition ∧
    plan.query = match callers with
      | some callers => q.map (·.copyFrom callers)
      | none => q

theorem returns_fetchGroup [RecordStore σ] {s : Session} {t : ModelType} {name : String}
    {callers : Option Query} (h : Returns (fetchGroup s t name callers members) g () g') :
    ∃ plan, Planned g.registry s t name callers plan ∧
      (plan.resolved.side = .parent → Returns (parentSide plan members) g () g') ∧
      (plan.resolved.side = .child → Returns (childSide plan members) g () g') := by
  simp only [fetchGroup, returns_bind, returns_ofExcept, returns_get, and_assoc,
    exists_eq_left] at h
  obtain ⟨relationship, hrelationship, resolved, hresolved, q, hq, condition, hcondition, h⟩ := h
  refine ⟨⟨s, resolved, _, condition⟩,
    ⟨rfl, hresolved, relationship, q, hrelationship, hq, hcondition, rfl⟩, ?_, ?_⟩
  · intro hside
    simp only at hside
    rw [hside] at h
    exact h
  · intro hside
    simp only at hside
    rw [hside] at h
    exact h

namespace Planned

variable {registry : Registry} {s : Session} {t : ModelType} {name : String}
  {callers : Option Query}

theorem name_eq (hwf : registry.WellFormed) (h : Planned registry s t name callers plan) :
    plan.resolved.name = name :=
  Registry.name_of_resolve hwf h.resolved

/-- A member of the type holds the foreign key of the plan, if the side of the plan has it. -/
theorem ownKey (hwf : registry.WellFormed) (h : Planned registry s t name callers plan)
    (hside : plan.resolved.side = .parent) (ht : registry.get t.name = .ok t) {m : Model}
    (hm : (g.model m).modelType = t) : plan.OwnKey g m := by
  obtain ⟨owner, declared, howner, -, hfiled, -, -, hresolve⟩ :=
    Registry.declared_of_resolve hwf h.resolved
  obtain rfl : t = owner := Except.ok.inj (ht.symm.trans howner)
  intro r k hr hk
  rw [hm, h.name_eq hwf, hfiled] at hr
  obtain rfl := Except.ok.inj hr
  rw [(Registry.resolveRelationship_parent hresolve hside).1] at hk
  exact (Except.ok.inj hk).symm

end Planned

/-! ## Members by type -/

/-- The groups, by the name of their type: every group that is not empty. -/
theorem returns_groupByType {groups : OrderedMap String (List Model)}
    (h : Returns (groupByType members) g groups g') : g' = g ∧ ∀ typeName,
      groups.get? typeName =
        if members.filter (fun m => (g.model m).modelType.name = typeName) = [] then none
        else some (members.filter fun m => (g.model m).modelType.name = typeName) := by
  simp only [groupByType, returns_bind, returns_get, returns_pure, and_assoc,
    exists_eq_left] at h
  obtain ⟨rfl, rfl⟩ := h
  refine ⟨rfl, ?_⟩
  induction members using List.reverseRecOn with
  | nil => simp
  | append_singleton rest m ih =>
      intro typeName
      rw [List.foldl_append, List.foldl_cons, List.foldl_nil, OrderedMap.get?_insert,
        List.filter_append]
      by_cases htype : (g'.model m).modelType.name = typeName
      · have hlast : [m].filter (fun m => (g'.model m).modelType.name = typeName) = [m] := by
          simp [htype]
        rw [if_pos htype, hlast, if_neg (by simp), htype, ih typeName]
        split
        · rename_i hnone
          rw [hnone]
          rfl
        · rfl
      · have hlast : [m].filter (fun m => (g'.model m).modelType.name = typeName) = [] := by
          simp [htype]
        rw [if_neg htype, hlast, List.append_nil, ih typeName]

section Grouped

variable {groups : OrderedMap String (List Model)}
  (hgroups : ∀ typeName, groups.get? typeName =
    if members.filter (fun m => (g.model m).modelType.name = typeName) = [] then none
    else some (members.filter fun m => (g.model m).modelType.name = typeName))

include hgroups

theorem eq_filter_of_mem_groups {typeName : String} {group : List Model}
    (h : (typeName, group) ∈ groups.entries) :
    group = members.filter fun m => (g.model m).modelType.name = typeName := by
  have hget := OrderedMap.get?_eq_some_iff.mpr h
  rw [hgroups] at hget
  split at hget
  · simp at hget
  · exact (Option.some.inj hget).symm

/-- The groups have the members, no others. -/
theorem mem_flatMap_groups {m : Model} : m ∈ groups.entries.flatMap Prod.snd ↔ m ∈ members := by
  rw [List.mem_flatMap]
  constructor
  · rintro ⟨⟨typeName, group⟩, hmem, hm⟩
    rw [eq_filter_of_mem_groups hgroups hmem] at hm
    exact (List.mem_filter.mp hm).1
  · intro hm
    have hown : m ∈ members.filter fun n =>
        (g.model n).modelType.name = (g.model m).modelType.name :=
      List.mem_filter.mpr ⟨hm, by simp⟩
    refine ⟨((g.model m).modelType.name, _), OrderedMap.get?_eq_some_iff.mp ?_, hown⟩
    rw [hgroups, if_neg (List.ne_nil_of_mem hown)]

/-- A member is in the group of its type and in no group before it. -/
theorem not_mem_of_mem_earlier {done rest : List (String × List Model)} {typeName : String}
    {group : List Model} (hsplit : groups.entries = done ++ (typeName, group) :: rest) {m : Model}
    (hm : m ∈ done.flatMap Prod.snd) : m ∉ group := by
  intro hmgroup
  obtain ⟨⟨other, earlier⟩, hearlier, hm⟩ := List.mem_flatMap.mp hm
  have hother : (other, earlier) ∈ groups.entries := by simp [hsplit, hearlier]
  have hthis : (typeName, group) ∈ groups.entries := by simp [hsplit]
  rw [eq_filter_of_mem_groups hgroups hother, List.mem_filter, decide_eq_true_eq] at hm
  rw [eq_filter_of_mem_groups hgroups hthis, List.mem_filter, decide_eq_true_eq] at hmgroup
  have hkeys := groups.distinct
  rw [hsplit, List.map_append, List.nodup_append] at hkeys
  refine hkeys.2.2 other (List.mem_map.mpr ⟨_, hearlier, rfl⟩) typeName (by simp) ?_
  rw [← hm.2, hmgroup.2]

end Grouped

variable [RecordStore σ] {s : Session} {name : String} {callers : Option Query}

/-- The turn of one group: it is left out if its type does not declare the relationship and
there are others. -/
def turn (s : Session) (name : String) (callers : Option Query) (count : Nat)
    (group : String × List Model) : Action σ Bool := do
  let t ← Action.ofExcept ((← get).registry.get group.1)
  if !t.hasRelationship name && 1 < count then return false
  else
    fetchGroup s t name callers group.2
    return true

theorem returns_turn {count : Nat} {group : String × List Model} {declares : Bool}
    (h : Returns (turn s name callers count group) g declares g') :
    (g' = g ∧ 1 < count ∧ ∃ t, g.registry.get group.1 = .ok t ∧ t.hasRelationship name = false) ∨
      ∃ t, g.registry.get group.1 = .ok t ∧
        Returns (fetchGroup s t name callers group.2) g () g' := by
  simp only [turn, returns_bind, returns_get, returns_ofExcept, and_assoc, exists_eq_left] at h
  obtain ⟨t, ht, h⟩ := h
  split at h
  · rename_i hleft
    rw [Bool.and_eq_true, decide_eq_true_eq, Bool.not_eq_true'] at hleft
    exact .inl ⟨(returns_pure.mp h).1, hleft.2, t, ht, hleft.1⟩
  · simp only [returns_bind, returns_pure] at h
    obtain ⟨⟨⟩, _, hgroup, rfl, -⟩ := h
    exact .inr ⟨t, ht, hgroup⟩

end Fetching

section Relationship

open Fetching

variable [RecordStore σ] {g g' : Graph σ} {s : Session} {members : List Model} {name : String}
  {callers : Option Query}

/-- A fetch gives every group its turn. -/
theorem returns_fetchRelationship
    (h : Returns (fetchRelationship s members name callers) g () g') :
    ∃ (groups : OrderedMap String (List Model)) (declared : List Bool),
      (∀ typeName, groups.get? typeName =
        if members.filter (fun m => (g.model m).modelType.name = typeName) = [] then none
        else some (members.filter fun m => (g.model m).modelType.name = typeName)) ∧
      Returns (groups.entries.mapM (turn s name callers groups.size)) g declared g' := by
  unfold fetchRelationship at h
  rw [returns_bind] at h
  obtain ⟨groups, grouped, hgroups, h⟩ := h
  obtain ⟨hsame, hgroup⟩ := returns_groupByType hgroups
  rw [hsame, returns_bind] at h
  obtain ⟨declared, last, hrun, h⟩ := h
  have hlast : g' = last := by
    split at h
    · exact (returns_pure.mp h).1
    · split at h
      · exact absurd h returns_throw
      · exact (returns_pure.mp h).1
  rw [hlast]
  exact ⟨groups, declared, hgroup, hrun⟩

/-- A fetch gives the members their turns, type by type. What the turn of one group keeps up, for the
members before it and for those of the group, holds of all members in the end. -/
theorem invariant_of_fetchRelationship (Inv : List Model → Graph σ → Prop) (start : Inv [] g)
    (step : ∀ (done group : List Model) (typeName : String) (count : Nat) (t t' : Graph σ)
      (declares : Bool),
      group = members.filter (fun m => (g.model m).modelType.name = typeName) →
      (∀ m ∈ done, m ∈ members) → (∀ m ∈ done, m ∉ group) → Inv done t →
      Returns (turn s name callers count (typeName, group)) t declares t' → Inv (done ++ group) t')
    (h : Returns (fetchRelationship s members name callers) g () g') :
    ∃ all, (∀ m, m ∈ all ↔ m ∈ members) ∧ Inv all g' := by
  obtain ⟨groups, declared, hgroups, hrun⟩ := returns_fetchRelationship h
  refine ⟨groups.entries.flatMap Prod.snd, fun m => mem_flatMap_groups hgroups, ?_⟩
  refine hrun.mapM_invariant (fun done _ t => Inv (done.flatMap Prod.snd) t) start ?_
  rintro done ⟨typeName, group⟩ rest - t declares t' hsplit hdone hturn
  rw [List.flatMap_append, List.flatMap_singleton]
  refine step _ _ _ _ _ _ _ (eq_filter_of_mem_groups hgroups (by simp [hsplit])) (fun m hm => ?_)
    (fun m hm => not_mem_of_mem_earlier hgroups hsplit hm) hdone hturn
  rw [← mem_flatMap_groups hgroups, hsplit, List.flatMap_append]
  exact List.mem_append_left _ hm

/-- Members of one type are one group. -/
theorem returns_fetchRelationship_of_one_type {typeName : String} (hsome : members ≠ [])
    (htypes : ∀ m ∈ members, (g.model m).modelType.name = typeName)
    (h : Returns (fetchRelationship s members name callers) g () g') :
    ∃ t, g.registry.get typeName = .ok t ∧
      Returns (fetchGroup s t name callers members) g () g' := by
  obtain ⟨groups, declared, hgroups, hrun⟩ := returns_fetchRelationship h
  have hall : members.filter (fun m => (g.model m).modelType.name = typeName) = members := by
    rw [List.filter_eq_self]
    intro m hm
    simp [htypes m hm]
  have hnone : ∀ other, other ≠ typeName →
      members.filter (fun m => (g.model m).modelType.name = other) = [] := by
    intro other hother
    rw [List.filter_eq_nil_iff]
    intro m hm
    simp [htypes m hm, Ne.symm hother]
  have hentries : groups = OrderedMap.empty.insert typeName members := by
    refine OrderedMap.eq_singleton fun other => ?_
    rw [hgroups]
    by_cases hother : other = typeName
    · rw [hother, hall, if_neg hsome, if_pos rfl]
    · rw [hnone other hother, if_pos rfl, if_neg (Ne.symm hother)]
  rw [hentries] at hrun
  have hone : (OrderedMap.empty.insert typeName members).entries = [(typeName, members)] := rfl
  rw [hone, List.mapM_cons, returns_bind] at hrun
  obtain ⟨b, between, hturn, hrun⟩ := hrun
  simp only [List.mapM_nil, returns_bind, returns_pure] at hrun
  obtain ⟨_, _, ⟨rfl, -⟩, rfl, -⟩ := hrun
  rcases returns_turn hturn with ⟨-, hcount, -⟩ | hgroup
  · exact absurd hcount (Nat.lt_irrefl 1)
  · exact hgroup

end Relationship

end RecordGraph
