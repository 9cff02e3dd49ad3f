/-
# The way back

After a fetch both directions can be read. A far model that the fetch has brought into a
member's relationship leads back to this very member: as its single parent where the far
record holds a single key, else in a collection. Both sides of a relationship and all groups
of members establish the same relation, and reading it neither changes the graph nor makes a
call on the store.

The way back is read through the far type, all of whose relationships are resolved together.
A far type with another relationship that cannot be resolved can be fetched from the side
that holds nothing, but not be read afterwards.
-/
import RecordGraph.Proofs.Fetching.Groups
import RecordGraph.Proofs.Upholding.Histories

namespace RecordGraph

variable {σ : Type}

namespace Graph

/-- What a model has loaded under a name: the parent, or the members of a collection. -/
def LeadsTo (g : Graph σ) (m : Model) (name : String) (x : Model) : Prop :=
  (g.model m).parents.get? name = some x ∨
    ∃ c, (g.model m).children.get? name = some c ∧ x ∈ (g.collection c).members.values

/-- The way from `x` under `inverse` leads to `m`: to it alone, or to a collection with it. -/
def LeadsBack (g : Graph σ) (single : Bool) (x : Model) (inverse : String) (m : Model) : Prop :=
  if single then (g.model x).parents.get? inverse = some m
  else ∃ c, (g.model x).children.get? inverse = some c ∧ g.HasCollection c ∧
    m ∈ (g.collection c).members.values

end Graph

namespace Fetching.Loading

variable {plan : Plan} {g unloaded ran g' : Graph σ} {members : List Model}
  {answers : List Record} {found : OrderedMap String Model} {pairs : List (Model × Model)}
  {m x : Model}

/-- What a member leads to after loading it led to before, or the two are a pair. -/
theorem paired_of_leadsTo (h : Loading plan members g unloaded ran g' answers found pairs)
    (hmade : ∀ c, (g.model m).children.get? plan.resolved.name = some c → g.HasCollection c)
    (hm : m ∈ members) (hleads : g'.LeadsTo m plan.resolved.name x) :
    g.LeadsTo m plan.resolved.name x ∨ (m, x) ∈ pairs := by
  cases hsingle : plan.resolved.holdsSingle with
  | true =>
      rcases hleads with hparent | ⟨c, hc, hx⟩
      · rw [h.parents_near hm hsingle] at hparent
        exact .inr (mem_map_snd_filter.mp (List.mem_of_getLast? hparent))
      · rw [h.children_of_single hm hsingle] at hc
        rw [h.spares.collection c (hmade c hc)] at hx
        exact .inl (.inr ⟨c, hc, hx⟩)
  | false =>
      rcases hleads with hparent | ⟨c, hc, hx⟩
      · rw [h.parents_of_many hm hsingle] at hparent
        exact .inl (.inl hparent)
      · obtain ⟨loaded, hloaded, -, hmembers, -⟩ := h.collection_near hm hsingle
        obtain rfl : loaded = c := Option.some.inj (hloaded.symm.trans hc)
        rw [hmembers] at hx
        rcases OrderedMap.mem_values_of_insertAll hx with hheld | hx
        · rcases OrderedMap.mem_values_of_insertAll hheld with hnone | hheld
          · simp [OrderedMap.values] at hnone
          · unfold Graph.unsavedChildren at hheld
            split at hheld
            · rename_i previous hprevious
              exact .inl (.inr ⟨previous, hprevious, (List.mem_filter.mp hheld).1⟩)
            · simp at hheld
        · exact .inr (mem_map_snd_filter.mp hx)

/-- A far model leads back to each member that it is paired with. -/
theorem leadsBack_of_paired (h : Loading plan members g unloaded ran g' answers found pairs)
    (hkeys : g.DistinctKeys members)
    (hpair : (m, x) ∈ pairs) {inverse : String}
    (hinverse : plan.resolved.inverseOn? (ran.model x).modelType.name = some inverse)
    (honly : plan.resolved.heldSingly = true → ∀ n, (n, x) ∈ pairs → n = m) :
    g'.LeadsBack plan.resolved.heldSingly x inverse m := by
  have hfound := h.mem_found hpair
  have hmem := mem_map_fst_filter.mpr hpair
  unfold Graph.LeadsBack
  cases hsingle : plan.resolved.heldSingly with
  | true =>
      rw [if_pos rfl, h.parents_far hfound hinverse hsingle]
      cases hlast : ((pairs.filter fun pair => pair.2 = x).map Prod.fst).getLast? with
      | none =>
          rw [List.getLast?_eq_none_iff] at hlast
          rw [hlast] at hmem
          simp at hmem
      | some n => rw [honly hsingle n (mem_map_fst_filter.mp (List.mem_of_getLast? hlast))]
  | false =>
      obtain ⟨c, hc, hhas, hmembers⟩ := h.collection_far hfound hinverse hsingle ⟨m, hpair⟩
      rw [if_neg (by simp)]
      refine ⟨c, hc, hhas, OrderedMap.mem_values_iff.mpr ⟨(ran.model m).key, ?_⟩⟩
      rw [hmembers]
      refine OrderedMap.get?_insertAll_of_mem hmem fun n hn hkey => ?_
      have hknown := (h.paired _ (mem_map_fst_filter.mp hn)).member
      have hmember := (h.paired _ hpair).member
      rw [h.forges.model_eq n (h.known n hknown), h.forges.model_eq m (h.known m hmember),
        h.unload.relinks.key, h.unload.relinks.key] at hkey
      exact hkeys n hknown m hmember hkey

end Fetching.Loading

/-! ## Whole groups -/

namespace Graph

/-- The fetch from `g` to `g'` has wired a member: what it leads to now it led to before, or
else is new and leads back to the member. -/
def Wires (g g' : Graph σ) (name : String) (m : Model) : Prop :=
  ∀ x, g'.LeadsTo m name x → g.LeadsTo m name x ∨
    ¬ g.HasModel x ∧ g'.HasModel x ∧ ∀ r inverse,
      g.registry.resolve (g.model m).modelType.name name = .ok r →
      r.inverseOn? (g'.model x).modelType.name = some inverse →
      (r.heldSingly = true → (g'.keyIds r.foreignKey x).length ≤ 1) →
      g'.LeadsBack r.heldSingly x inverse m

/-- The state after a fetch for some members. -/
structure Fetched (g g' : Graph σ) (name : String) (members : List Model) : Prop where
  spares : g.Spares g' members
  made : ∀ m ∈ members, ∀ c, (g'.model m).children.get? name = some c → g'.HasCollection c
  wires : ∀ m ∈ members, g.Wires g' name m

variable {g g' g'' : Graph σ} {name : String} {members more : List Model} {m x : Model}

/-- A model whose loaded things were not touched leads where it led before. -/
theorem leadsTo_of_model_eq (hmodel : g'.model m = g.model m)
    (hmade : ∀ c, (g.model m).children.get? name = some c → g.HasCollection c)
    (hcollection : ∀ c, g.HasCollection c → g'.collection c = g.collection c)
    (h : g'.LeadsTo m name x) : g.LeadsTo m name x := by
  unfold LeadsTo at h
  rw [hmodel] at h
  rcases h with hparent | ⟨c, hc, hx⟩
  · exact .inl hparent
  · exact .inr ⟨c, hc, hcollection c (hmade c hc) ▸ hx⟩

/-- A way back stays while the far model and the collections are not touched. -/
theorem leadsBack_of_model_eq {single : Bool} {inverse : String}
    (h : g.LeadsBack single x inverse m) (hmodel : g'.model x = g.model x)
    (hcollections : ∀ c, g.HasCollection c →
      g'.HasCollection c ∧ g'.collection c = g.collection c) : g'.LeadsBack single x inverse m := by
  unfold LeadsBack at h ⊢
  rw [hmodel]
  cases single with
  | true => exact h
  | false =>
      obtain ⟨c, hc, hhas, hm⟩ := h
      exact ⟨c, hc, (hcollections c hhas).1, by rw [(hcollections c hhas).2]; exact hm⟩

/-- Two fetches for different members do not disturb each other. -/
theorem Fetched.trans (first : g.Fetched g' name members) (second : g'.Fetched g'' name more)
    (hmembers : ∀ m ∈ members, g.HasModel m) (hmore : g.Fetchable name more)
    (hdisjoint : ∀ m ∈ members, m ∉ more) : g.Fetched g'' name (members ++ more) := by
  have huntouched : ∀ x, g'.HasModel x → x ∉ more → g''.model x = g'.model x :=
    second.spares.others
  have hcollections : ∀ c, g'.HasCollection c →
      g''.HasCollection c ∧ g''.collection c = g'.collection c := fun c hc =>
    ⟨second.spares.hasCollection hc, second.spares.collection c hc⟩
  refine ⟨first.spares.trans second.spares, ?_, ?_⟩
  · intro m hm c hc
    rcases List.mem_append.mp hm with hm | hm
    · rw [huntouched m (first.spares.hasModel (hmembers m hm)) (hdisjoint m hm)] at hc
      exact second.spares.hasCollection (first.made m hm c hc)
    · exact second.made m hm c hc
  · intro m hm x hleads
    rcases List.mem_append.mp hm with hm | hm
    · have hthere := first.spares.hasModel (hmembers m hm)
      have hleads := leadsTo_of_model_eq (huntouched m hthere (hdisjoint m hm)) (first.made m hm)
        second.spares.collection hleads
      refine (first.wires m hm x hleads).imp_right ?_
      rintro ⟨hnew, hhas, hback⟩
      have hsame := huntouched x hhas fun hx => hnew (hmore.known x hx)
      refine ⟨hnew, second.spares.hasModel hhas, fun r inverse hr hinverse hsingle => ?_⟩
      rw [keyIds, hsame] at hsingle
      rw [hsame] at hinverse
      exact leadsBack_of_model_eq (hback r inverse hr hinverse hsingle) hsame hcollections
    · have hout : m ∉ members := fun hmem => hdisjoint m hmem hm
      have hsame := first.spares.others m (hmore.known m hm) hout
      rcases second.wires m hm x hleads with hbefore | ⟨hnew, hhas, hback⟩
      · exact .inl (leadsTo_of_model_eq hsame (hmore.made m hm) first.spares.collection hbefore)
      · refine .inr ⟨fun hold => hnew (first.spares.hasModel hold), hhas, ?_⟩
        rw [first.spares.registry, hsame] at hback
        exact hback

/-- Members that a fetch leaves out lead where they led before. -/
theorem Fetched.append_untouched (h : g.Fetched g' name members) (hmore : g.Fetchable name more)
    (hdisjoint : ∀ m ∈ members, m ∉ more) : g.Fetched g' name (members ++ more) := by
  have hsame : ∀ m ∈ more, g'.model m = g.model m := fun m hm =>
    h.spares.others m (hmore.known m hm) fun hmem => hdisjoint m hmem hm
  refine ⟨h.spares.mono fun m hm => List.mem_append_left _ hm, ?_, ?_⟩
  · intro m hm c hc
    rcases List.mem_append.mp hm with hm | hm
    · exact h.made m hm c hc
    · rw [hsame m hm] at hc
      exact h.spares.hasCollection (hmore.made m hm c hc)
  · intro m hm x hleads
    rcases List.mem_append.mp hm with hm | hm
    · exact h.wires m hm x hleads
    · exact .inl (leadsTo_of_model_eq (hsame m hm) (hmore.made m hm) h.spares.collection hleads)

/-- Only which members there are matters. -/
theorem Fetched.of_same_members (h : g.Fetched g' name members)
    (hsame : ∀ m, m ∈ members ↔ m ∈ more) : g.Fetched g' name more where
  spares := h.spares.mono fun m hm => (hsame m).mp hm
  made m hm := h.made m ((hsame m).mpr hm)
  wires m hm := h.wires m ((hsame m).mpr hm)

end Graph

namespace Fetching

variable {plan : Plan} {g g' : Graph σ} {members : List Model}

/-- The members that a group has loaded are wired, if their pairs are those that the claimed
side of the relationship makes. -/
theorem Loading.wires {unloaded ran : Graph σ} {answers : List Record}
    {found : OrderedMap String Model} {pairs : List (Model × Model)} {name : String}
    (h : Loading plan members g unloaded ran g' answers found pairs)
    (hname : plan.resolved.name = name)
    (hmade : ∀ m ∈ members, ∀ c, (g.model m).children.get? name = some c → g.HasCollection c)
    (hkeys : g.DistinctKeys members)
    (honly : ∀ m n x, plan.resolved.heldSingly = true →
      (ran.keyIds plan.resolved.foreignKey x).length ≤ 1 →
      (m, x) ∈ pairs → (n, x) ∈ pairs → n = m)
    {m : Model} (hm : m ∈ members)
    (hresolved : g.registry.resolve (g.model m).modelType.name name = .ok plan.resolved) :
    g.Wires g' name m := by
  subst hname
  intro x hleads
  rcases h.paired_of_leadsTo (hmade m hm) hm hleads with hbefore | hpair
  · exact .inl hbefore
  · obtain ⟨id, hid⟩ := OrderedMap.mem_values_iff.mp (h.mem_found hpair)
    refine .inr ⟨fun hold => (h.paired _ hpair).new (h.hasModel_of_unloaded hold),
      h.handed.relinks.hasModel (h.finds.wraps id x hid).2.1, ?_⟩
    intro r inverse hr hinverse hsingle
    obtain rfl : plan.resolved = r := Except.ok.inj (hresolved.symm.trans hr)
    rw [h.handed.relinks.modelType] at hinverse
    rw [h.handed.relinks.keyIds] at hsingle
    exact h.leadsBack_of_paired hkeys hpair hinverse fun hheld n hn =>
      honly m n x hheld (hsingle hheld) hpair hn

/-- A member's collection exists after it was loaded. -/
theorem Loading.hasCollection {unloaded ran : Graph σ} {answers : List Record}
    {found : OrderedMap String Model} {pairs : List (Model × Model)}
    (h : Loading plan members g unloaded ran g' answers found pairs)
    {m : Model} (hm : m ∈ members) {c : Collection}
    (hmade : ∀ c, (g.model m).children.get? plan.resolved.name = some c → g.HasCollection c)
    (hc : (g'.model m).children.get? plan.resolved.name = some c) : g'.HasCollection c := by
  cases hsingle : plan.resolved.holdsSingle with
  | true =>
      rw [h.children_of_single hm hsingle] at hc
      exact h.spares.hasCollection (hmade c hc)
  | false =>
      obtain ⟨loaded, hloaded, hhas, -⟩ := h.collection_near hm hsingle
      exact Option.some.inj (hloaded.symm.trans hc) ▸ hhas

/-- Of a far model whose key holds one identifier there is one pair. -/
theorem eq_of_childPairs {owners : OrderedMap String Model} {fars : List Model} {m n x : Model}
    (hlength : (g.keyIds plan.resolved.foreignKey x).length ≤ 1)
    (hm : (m, x) ∈ childPairs plan g owners fars) (hn : (n, x) ∈ childPairs plan g owners fars) :
    n = m := by
  obtain ⟨-, id, hid, hownerId⟩ := mem_childPairs.mp hm
  obtain ⟨-, other, hother, hownerOther⟩ := mem_childPairs.mp hn
  obtain ⟨only, honly⟩ := List.length_eq_one_iff.mp
    (Nat.le_antisymm hlength (List.length_pos_of_mem hid))
  rw [honly, List.mem_singleton] at hid hother
  rw [hid] at hownerId
  rw [hother, hownerId] at hownerOther
  exact (Option.some.inj hownerOther).symm

/-- What was loaded is wired. -/
theorem Loading.fetched {unloaded ran : Graph σ} {answers : List Record}
    {found : OrderedMap String Model} {pairs : List (Model × Model)} {name : String}
    (h : Loading plan members g unloaded ran g' answers found pairs)
    (hname : plan.resolved.name = name) (hmembers : g.Fetchable name members)
    (hkeys : g.DistinctKeys members)
    (honly : ∀ m n x, plan.resolved.heldSingly = true →
      (ran.keyIds plan.resolved.foreignKey x).length ≤ 1 →
      (m, x) ∈ pairs → (n, x) ∈ pairs → n = m)
    (hresolved : ∀ m ∈ members,
      g.registry.resolve (g.model m).modelType.name name = .ok plan.resolved) :
    g.Fetched g' name members where
  spares := h.spares
  made m hm _ hc := h.hasCollection hm (hname ▸ hmembers.made m hm) (hname ▸ hc)
  wires m hm := h.wires hname hmembers.made hkeys honly hm (hresolved m hm)

/-- A group is wired, whichever side holds the foreign key and whatever the store answers. -/
theorem returns_fetchGroup_fetched [RecordStore σ] {s : Session} {t : ModelType} {name : String}
    {callers : Option Query} (hregistry : g.registry.WellFormed)
    (ht : g.registry.get t.name = .ok t) (htypes : ∀ m ∈ members, (g.model m).modelType = t)
    (hmembers : g.Fetchable name members) (hids : g.DistinctIds members)
    (hkeys : g.DistinctKeys members)
    (h : Returns (fetchGroup s t name callers members) g () g') : g.Fetched g' name members := by
  obtain ⟨plan, hplan, hparent, hchild⟩ := returns_fetchGroup h
  have hname := hplan.name_eq hregistry
  have hresolved : ∀ m ∈ members,
      g.registry.resolve (g.model m).modelType.name name = .ok plan.resolved := by
    intro m hm
    rw [htypes m hm]
    exact hplan.resolved
  -- nothing has to be known of the answers
  have hanswers : ∀ (ids : List String) (u : Graph σ) (rs : List Record) (u' : Graph σ), True →
      Returns ((batchQuery plan ids).query.fetch plan.session) u rs u' → True ∧ True :=
    fun _ _ _ _ _ _ => ⟨trivial, trivial⟩
  cases hside : plan.resolved.side with
  | parent =>
      obtain ⟨unloaded, ran, answers, found, hloading, -⟩ := returns_parentSide
        (fun _ => True) hanswers hside (hname ▸ hmembers)
        (fun m hm => hplan.ownKey hregistry hside ht (htypes m hm)) trivial (hparent hside)
      have hloaded : g.Fetched g' name (members.filter fun m => !plan.keeps g m) := by
        refine hloading.fetched hname (hmembers.filter _) ?_ ?_ ?_
        · intro m hm n hn
          exact hkeys m (List.mem_filter.mp hm).1 n (List.mem_filter.mp hn).1
        · intro m n x hheld
          rw [Resolved.heldSingly_of_parent hside] at hheld
          exact absurd hheld (by simp)
        · exact fun m hm => hresolved m (List.mem_filter.mp hm).1
      -- the others keep an unsaved parent
      refine (hloaded.append_untouched (hmembers.filter (plan.keeps g)) ?_).of_same_members ?_
      · intro m hm hkept
        simp [(List.mem_filter.mp hkept).2] at hm
      · intro m
        cases hkeeps : plan.keeps g m with
        | true => simp [hkeeps]
        | false => simp [hkeeps]
  | child =>
      obtain ⟨unloaded, ran, answers, found, owners, -, hloading, -⟩ := returns_childSide
        (fun _ => True) hanswers hside (hname ▸ hmembers) hids trivial (hchild hside)
      exact hloading.fetched hname hmembers hkeys
        (fun m n x _ hlength hm hn => eq_of_childPairs hlength hm hn) hresolved

end Fetching

/-! ## Members of any types -/

/-- A name without a point is a path of one step. -/
theorem pathSteps_of_no_point {name : String} (h : '.' ∉ name.toList) :
    pathSteps name = [name] := by
  have hnone : ∀ c ∈ name.toList, (c == '.') = false := by
    intro c hc
    rw [beq_eq_false_iff_ne]
    rintro rfl
    exact h hc
  rw [pathSteps, List.splitOn, List.splitOnP_eq_singleton hnone, List.map_singleton,
    String.ofList_toList]

variable {g g' : Graph σ}

/-- Reading a way back that a fetch has wired answers the member or a collection with it, and
changes nothing. -/
theorem Graph.LeadsBack.returns_read {r back : Resolved} {inverse : String} {x m : Model}
    (hback : g.registry.resolve (g.model x).modelType.name inverse = .ok back)
    (hsingle : back.holdsSingle = r.heldSingly) (h : g.LeadsBack r.heldSingly x inverse m) :
    ∃ related, Returns (x.read inverse) g related g ∧
      if r.heldSingly then related = .model m
      else ∃ c, related = .collection c ∧ m ∈ (g.collection c).members.values := by
  have hresolve : Returns (x.resolve inverse) g back g := Model.returns_resolve.mpr ⟨rfl, hback⟩
  unfold Graph.LeadsBack at h
  cases hheld : r.heldSingly with
  | true =>
      rw [hheld, if_pos rfl] at h
      refine ⟨.model m, ?_, rfl⟩
      rw [Model.read, returns_bind]
      refine ⟨back, g, hresolve, ?_⟩
      rw [hsingle, hheld, if_pos rfl, returns_bind]
      exact ⟨some m, g, Model.returns_cachedParent.mpr ⟨rfl, h.symm⟩, returns_pure.mpr ⟨rfl, rfl⟩⟩
  | false =>
      rw [hheld, if_neg (by simp)] at h
      obtain ⟨c, hc, -, hm⟩ := h
      refine ⟨.collection c, ?_, c, rfl, hm⟩
      rw [Model.read, returns_bind]
      refine ⟨back, g, hresolve, ?_⟩
      rw [hsingle, hheld, if_neg (by simp), returns_bind]
      exact ⟨c, g, Model.returns_childrenOr_of_loaded back hc, returns_pure.mpr ⟨rfl, rfl⟩⟩

variable [RecordStore σ] {s : Session} {members : List Model} {name : String}
  {callers : Option Query}

/-- The turn of one group wires its members and leaves those wired that had their turn. -/
theorem Graph.Fetched.of_turn {t t' : Graph σ} {done group : List Model} {typeName : String}
    {count : Nat} {b : Bool} (hg : g.WellFormed) (hdone : g.Fetched t name done)
    (hknown : ∀ m ∈ done, g.HasModel m) (hgroup : g.Fetchable name group)
    (hids : g.DistinctIds group) (hkeys : g.DistinctKeys group)
    (htypes : ∀ m ∈ group, (g.model m).modelType.name = typeName)
    (hdisjoint : ∀ m ∈ done, m ∉ group)
    (h : Returns (Fetching.turn s name callers count (typeName, group)) t b t') :
    g.Fetched t' name (done ++ group) := by
  have hsame : ∀ m ∈ group, t.model m = g.model m := fun m hm =>
    hdone.spares.others m (hgroup.known m hm) fun hmem => hdisjoint m hmem hm
  have hregistry := hdone.spares.registry
  rcases Fetching.returns_turn h with ⟨rfl, -⟩ | ⟨u, hu, hfetch⟩
  · exact hdone.append_untouched hgroup hdisjoint
  · rw [hregistry] at hu
    obtain ⟨rfl, -⟩ := hg.registry _ u (Registry.get_eq_ok.mp hu)
    have hown : ∀ m ∈ group, (t.model m).modelType = u := by
      intro m hm
      have hregistered := hg.typed m (hgroup.known m hm)
      rw [htypes m hm] at hregistered
      rw [hsame m hm]
      exact Except.ok.inj (hregistered.symm.trans hu)
    have hfetched : t.Fetched t' name group :=
      Fetching.returns_fetchGroup_fetched (hregistry ▸ hg.registry) (hregistry ▸ hu) hown
        (hgroup.of_spares hdone.spares hdisjoint) (hids.of_model_eq hsame)
        (hkeys.of_model_eq hsame) hfetch
    exact hdone.trans hfetched hknown hgroup hdisjoint

/-- A fetch wires all its members, of whatever types they are. -/
theorem returns_fetchRelationship_fetched (hg : g.WellFormed) (hnodup : members.Nodup)
    (hmembers : ∀ m ∈ members, g.HasModel m) (hids : g.DistinctIds members)
    (hkeys : g.DistinctKeys members)
    (h : Returns (fetchRelationship s members name callers) g () g') :
    g.Fetched g' name members := by
  have hfetchable := hg.fetchable hnodup hmembers name
  have hall : ∃ all, (∀ m, m ∈ all ↔ m ∈ members) ∧ g.Fetched g' name all := by
    refine invariant_of_fetchRelationship (fun done t => g.Fetched t name done)
      ⟨.refl g, by simp, by simp⟩ ?_ h
    intro done group typeName count t t' declares hgroup hknown hdisjoint hdone hturn
    have hin : ∀ m ∈ group, m ∈ members ∧ (g.model m).modelType.name = typeName := by
      intro m hm
      rw [hgroup, List.mem_filter, decide_eq_true_eq] at hm
      exact hm
    exact hdone.of_turn hg (fun m hm => hmembers m (hknown m hm)) (hgroup ▸ hfetchable.filter _)
      (fun m hm n hn => hids m (hin m hm).1 n (hin n hn).1)
      (fun m hm n hn => hkeys m (hin m hm).1 n (hin n hn).1) (fun m hm => (hin m hm).2) hdisjoint
      hturn
  obtain ⟨all, hsame, hall⟩ := hall
  exact hall.of_same_members hsame

/-- Both directions can be read after a fetch. Every model `t` that the fetch has made and
brought into the relationship of a member `m` leads back to `m` under the name of the inverse,
provided that the relationships of the type of `t` resolve: to `m` itself where `t` holds a
single key, else to a collection that contains `m`. The graph, and with it the store, is the
same after reading. -/
theorem fetchRelationship_leads_back (hg : g.WellFormed) (hnodup : members.Nodup)
    (hmembers : ∀ m ∈ members, g.HasModel m) (hids : g.DistinctIds members)
    (hkeys : g.DistinctKeys members)
    (hfetch : Returns (fetchRelationship s members name callers) g () g')
    {m t : Model} (hm : m ∈ members) (hnew : ¬ g.HasModel t) (hleads : g'.LeadsTo m name t)
    {resolved back : Resolved} {inverse : String}
    (hresolved : g.registry.resolve (g.model m).modelType.name name = .ok resolved)
    (hinverse : resolved.inverseOn? (g'.model t).modelType.name = some inverse)
    (hkey : resolved.side = .child → resolved.cardinality = .single →
      (g'.keyIds resolved.foreignKey t).length ≤ 1)
    (hback : g.registry.resolve (g'.model t).modelType.name inverse = .ok back) :
    ∃ related, Returns (t.read inverse) g' related g' ∧
      (('.' ∉ inverse.toList) →
        Returns ((Related.model t).get (pathSteps inverse)) g' related g') ∧
      if resolved.side = .child ∧ resolved.cardinality = .single then related = .model m
      else ∃ c, related = .collection c ∧ m ∈ (g'.collection c).members.values := by
  have hfetched := returns_fetchRelationship_fetched hg hnodup hmembers hids hkeys hfetch
  have hregistry := hfetched.spares.registry
  have hwired : g'.LeadsBack resolved.heldSingly t inverse m := by
    rcases hfetched.wires m hm t hleads with hbefore | ⟨-, -, hwired⟩
    · rcases hbefore with hparent | ⟨c, hc, ht⟩
      · exact absurd (hg.parents m name t (hmembers m hm) hparent) hnew
      · obtain ⟨key, hkey⟩ := OrderedMap.mem_values_iff.mp ht
        have hmade := hg.children m name c (hmembers m hm) hc
        exact absurd (hg.members c key t hmade hkey) hnew
    · refine hwired resolved inverse hresolved hinverse fun hheld => ?_
      rw [Resolved.heldSingly, Bool.and_eq_true, decide_eq_true_eq, decide_eq_true_eq] at hheld
      exact hkey hheld.1 hheld.2
  have hsingle := Registry.holdsSingle_wayBack hg.registry hresolved hinverse hback
  obtain ⟨related, hread, hrelated⟩ := hwired.returns_read (hregistry ▸ hback) hsingle
  refine ⟨related, hread, fun hpoint => ?_, ?_⟩
  · rw [pathSteps_of_no_point hpoint, Related.get, returns_bind]
    exact ⟨related, g', hread, returns_pure.mpr ⟨rfl, rfl⟩⟩
  · unfold Resolved.heldSingly at hrelated
    simpa only [Bool.and_eq_true, decide_eq_true_eq] using hrelated

namespace Library

/-- The article that was fetched for the first author leads back to this author. -/
theorem stocked_leads_back :
    ¬ authors.HasModel ⟨3⟩ ∧ stocked.LeadsTo ⟨0⟩ "articles" ⟨3⟩ ∧
      Returns ((Related.model ⟨3⟩).get (pathSteps "author")) stocked (.model ⟨0⟩) stocked := by
  have hsound := reachable_authors.sound MemoryStore.keeps_filed
  have hnew : ¬ authors.HasModel ⟨3⟩ := by
    decide +kernel
  have hleads : stocked.LeadsTo ⟨0⟩ "articles" ⟨3⟩ :=
    .inr ⟨⟨1⟩, by decide +kernel, by decide +kernel⟩
  have hresolved := eq_ok_of_isOk (x := authors.registry.resolve
    (authors.model ⟨0⟩).modelType.name "articles") (by decide +kernel) default
  have hback := eq_ok_of_isOk (x := authors.registry.resolve
    (stocked.model ⟨3⟩).modelType.name "author") (by decide +kernel) default
  obtain ⟨related, -, hget, hrelated⟩ := fetchRelationship_leads_back hsound.wellFormed
    (by decide +kernel) (by decide +kernel) (by decide +kernel) (by decide +kernel)
    returns_stocked (by decide +kernel) hnew hleads hresolved (by decide +kernel)
    (by decide +kernel) hback
  rw [if_pos (by decide +kernel)] at hrelated
  exact ⟨hnew, hleads, hrelated ▸ hget (by decide +kernel)⟩

/-- An article type with a relationship whose counterpart nobody declares. It is registered all
the same. -/
def reviewedArticle : ModelType := article.declare (.referenced "reviews" "author" "reviewed")

/-- The graph with one author forged, where articles are of this type. -/
def reviewers : Graph MemoryStore :=
  (Model.forgeById session "author" "ann" (opened [author, reviewedArticle])).2

theorem reachable_reviewers : Graph.Reachable MemoryStore.Filed reviewers := by
  have htypes : ∀ t ∈ [author, reviewedArticle], t.WellFormed := by
    simp [wellFormed_author, reviewedArticle, wellFormed_article.declare]
  exact .call (reachable_opened htypes) (.forgeById _ _ _)

/-- The graph after the articles of this author were fetched. -/
def reviewed : Graph MemoryStore := (fetchRelationship session [⟨0⟩] "articles" none reviewers).2

/-- Without the proviso on the far type the way back may be closed: an article is fetched
for its author and has the author as its parent, but reading the parent fails, because the
other relationship of the article does not resolve. -/
theorem reviewed_not_leads_back :
    reviewers.WellFormed ∧ reviewers.HasModel ⟨0⟩ ∧ reviewers.DistinctIds [⟨0⟩] ∧
      reviewers.DistinctKeys [⟨0⟩] ∧
      Returns (fetchRelationship session [⟨0⟩] "articles" none) reviewers () reviewed ∧
      ¬ reviewers.HasModel ⟨1⟩ ∧ reviewed.LeadsTo ⟨0⟩ "articles" ⟨1⟩ ∧
      (∃ resolved, reviewers.registry.resolve (reviewers.model ⟨0⟩).modelType.name "articles" =
          .ok resolved ∧ resolved.side = .child ∧ resolved.cardinality = .single ∧
        resolved.inverseOn? (reviewed.model ⟨1⟩).modelType.name = some "author" ∧
        (reviewed.keyIds resolved.foreignKey ⟨1⟩).length ≤ 1) ∧
      (reviewed.model ⟨1⟩).parents.get? "author" = some ⟨0⟩ ∧
      ∀ related g'', ¬ Returns ((Related.model ⟨1⟩).get (pathSteps "author")) reviewed related
        g'' := by
  have hsound := reachable_reviewers.sound MemoryStore.keeps_filed
  refine ⟨hsound.wellFormed, by decide +kernel, by decide +kernel, by decide +kernel,
    returns_of_isOk (by decide +kernel) (), by decide +kernel,
    .inr ⟨⟨0⟩, by decide +kernel, by decide +kernel⟩, ?_, by decide +kernel,
    not_returns_of_not_isOk (by decide +kernel)⟩
  exact ⟨_, eq_ok_of_isOk (by decide +kernel) default, by decide +kernel, by decide +kernel,
    by decide +kernel, by decide +kernel⟩

end Library

end RecordGraph
