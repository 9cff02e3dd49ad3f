/-
# Which parent a key names

A relationship to a single parent is loaded by looking up every identifier in the foreign key of a
member, and handing over what is found one after the other. So the parent that stays is the last one
that was found. The identifier that counts as that of the parent is the first one in the key. The
two are the same if the key does not hold different identifiers.

This is said of any members, of several types and as often as they occur, and of any store. What a
store answers to a query does not matter, as only records under the identifiers that were asked for
are looked up again.
-/
import RecordGraph.Proofs.Fetching.Counting
import RecordGraph.Proofs.Reading.Paths

namespace RecordGraph

variable {σ : Type}

/-! ## One group of members -/

namespace Fetching

variable {plan : Plan} {g g' : Graph σ} {members : List Model} {m : Model}

/-- The last far model that a member is paired with is the last one found under the identifiers in
its key, however often the member occurs. -/
theorem getLast?_parentPairs (plan : Plan) (g : Graph σ) (found : OrderedMap String Model)
    (members : List Model) (m : Model) :
    (((parentPairs plan g found members).filter fun pair => pair.1 = m).map Prod.snd).getLast? =
      if m ∈ members then
        ((g.keyIds plan.resolved.foreignKey m).filterMap found.get?).getLast?
      else none := by
  induction members using List.reverseRecOn with
  | nil => rfl
  | append_singleton rest n ih =>
      have happend : parentPairs plan g found (rest ++ [n]) = parentPairs plan g found rest ++
          ((g.keyIds plan.resolved.foreignKey n).filterMap found.get?).map fun far => (n, far) := by
        simp [parentPairs]
      rw [happend, List.filter_append, List.map_append, List.getLast?_append, ih, List.filter_map,
        List.map_map]
      by_cases hn : n = m
      · simp only [hn, Function.comp_def]
        split <;> simp
      · simp [hn, Ne.symm hn, Function.comp_def]

/-- Single parents are unloaded. -/
theorem parents_of_unloadParents (hsingle : plan.resolved.cardinality = .single)
    {idss : List (List String)} (h : Returns (members.mapM (unloadParents plan)) g idss g') :
    ∀ m ∈ members, (g'.model m).parents.get? plan.resolved.name = none := by
  refine h.mapM_invariant (fun done _ t =>
    ∀ m ∈ done, (t.model m).parents.get? plan.resolved.name = none) (by simp) ?_
  intro done n rest _ t ids t' _ hdone hturn
  rw [unloadParents, if_pos hsingle, returns_bind] at hturn
  obtain ⟨_, between, hremove, hids⟩ := hturn
  obtain ⟨rfl, -⟩ := Model.returns_parentIds.mp hids
  rw [Model.returns_removeParent] at hremove
  subst hremove
  intro m hm
  rw [Graph.model_setModel]
  split
  · simp
  · rename_i hne
    exact hdone m (by simpa [Ne.symm hne] using hm)

variable [RecordStore σ]

/-- Whatever the store answers, what is found under an identifier is a new model of a record with
that identifier. -/
theorem finds_of_run {ids : List String} {found : OrderedMap String Model}
    (h : Returns (run plan ids) g found g') :
    g.OnlyForges g' ∧ ∃ answers, Found g g' plan.query.wrapping answers found := by
  obtain ⟨hforges, answered, -, -, hfound⟩ := @returns_run σ g g' found _ plan (fun _ _ => True)
    (fun _ _ => True) (fun _ _ _ _ _ _ _ => ⟨trivial, trivial⟩) ids trivial h
  exact ⟨hforges, answered.flatten, hfound⟩

/-- Handing over what a run has found makes the last model found for the key of a member its parent,
if its parent was unloaded before. -/
theorem parents_of_attachParents {unloaded ran : Graph σ} {found : OrderedMap String Model}
    {ids : List String} {u : PUnit} (hside : plan.resolved.side = .parent)
    (hsingle : plan.resolved.holdsSingle = true) (hknown : ∀ n ∈ members, unloaded.HasModel n)
    (hkey : ∀ n ∈ members, plan.OwnKey unloaded n)
    (hrun : Returns (run plan ids) unloaded found ran)
    (hwire : Returns (members.forM fun n => do
      (← n.parentIds plan.resolved.name).forM fun id => do
        if let some target := found.get? id then attachParent plan n target) ran u g')
    (hm : m ∈ members) (hnone : (unloaded.model m).parents.get? plan.resolved.name = none) :
    (∀ id p, found.get? id = some p → g'.HasModel p ∧ (g'.model p).record.id = some id) ∧
      (g'.model m).parents.get? plan.resolved.name =
        ((unloaded.keyIds plan.resolved.foreignKey m).filterMap found.get?).getLast? := by
  obtain ⟨hforges, answers, hfound⟩ := finds_of_run hrun
  have hran : ∀ n ∈ members, ran.model n = unloaded.model n := fun n hn =>
    hforges.model_eq n (hknown n hn)
  -- members have no slots to share, and what was found has nothing loaded
  have hslots : ∀ x, takes members found.values x → (slots plan unloaded ran).single x = false →
      ran.slot? (slots plan unloaded ran) x = none := by
    rintro x (hx | hx) hmany
    · rw [(slots_near plan ran (hknown x hx)).2, hsingle] at hmany
      cases hmany
    · obtain ⟨id, hid⟩ := OrderedMap.mem_values_iff.mp hx
      simp [Graph.slot?, (hfound.wraps id x hid).2.2.children]
  have hapart : ran.Apart (slots plan unloaded ran) (takes members found.values) := by
    refine ⟨fun x c hx hmany hc => ?_, fun x y c hx _ hmany _ hc _ => ?_⟩ <;>
      cases (hslots x hx hmany).symm.trans hc
  have hhanded := handed_of_attachParents hside
    (fun n hn => by rw [Plan.OwnKey, hran n hn]; exact hkey n hn)
    (fun n hn far id hid => hfound.attachable hn (OrderedMap.mem_values_iff.mpr ⟨id, hid⟩)
      (hknown n hn)) hapart hwire
  refine ⟨fun id p hp => ?_, ?_⟩
  · rw [hhanded.relinks.record]
    exact ⟨hhanded.relinks.hasModel (hfound.wraps id p hp).2.1, (hfound.record id p hp).2⟩
  · have hnew : ∀ pair ∈ parentPairs plan ran found members, ¬ unloaded.HasModel pair.2 := by
      intro pair hpair
      obtain ⟨-, id, -, hid⟩ := mem_parentPairs.mp hpair
      exact (hfound.wraps id pair.2 hid).1
    have hlast := getLast?_parentPairs plan ran found members m
    rw [if_pos hm, Graph.keyIds, hran m hm] at hlast
    have hparents := hhanded.parents m
    obtain ⟨hname, hflag⟩ := slots_near plan ran (hknown m hm)
    rw [hflag, hsingle, if_pos rfl, hname, received_wiring_near (hknown m hm) hnew,
      hran m hm] at hparents
    rw [hparents, OrderedMap.get?_foldl_insert, hnone, Option.or_none, hlast, Graph.keyIds]

/-- After loading, the single parent of a member is the last one that was found for its key, unless
it held an unsaved one. -/
theorem parents_of_parentSide (hside : plan.resolved.side = .parent)
    (hsingle : plan.resolved.cardinality = .single) (hknown : ∀ n ∈ members, g.HasModel n)
    (hkey : ∀ n ∈ members, plan.OwnKey g n) (h : Returns (parentSide plan members) g () g')
    (hm : m ∈ members) (hfree : plan.keeps g m = false) :
    ∃ found : String → Option Model,
      (∀ id p, found id = some p → g'.HasModel p ∧ (g'.model p).record.id = some id) ∧
      (g'.model m).parents.get? plan.resolved.name =
        ((g.keyIds plan.resolved.foreignKey m).filterMap found).getLast? := by
  unfold parentSide at h
  obtain ⟨loading, afterFilter, hfilter, h⟩ := returns_bind.mp h
  obtain ⟨hread, hloading⟩ := hfilter.filterM_of_reads returns_not_holdsUnsavedParent
  rw [hread] at h
  have hloads : m ∈ loading := hloading ▸ List.mem_filter.mpr ⟨hm, by rw [hfree]; rfl⟩
  have hmember : ∀ n ∈ loading, n ∈ members := fun n hn => (List.mem_filter.mp (hloading ▸ hn)).1
  obtain ⟨idss, unloaded, hunloading, h⟩ := returns_bind.mp h
  have hnone := parents_of_unloadParents hsingle hunloading m hloads
  obtain ⟨hunload, rfl⟩ := relinks_of_unloadParents (fun n hn => hkey n (hmember n hn)) hunloading
  simp only at h
  split at h
  · rename_i hempty
    obtain ⟨rfl, -⟩ := returns_pure.mp h
    have hids : g.keyIds plan.resolved.foreignKey m = [] := by
      refine List.eq_nil_iff_forall_not_mem.mpr fun id hid => ?_
      have hin : id ∈ distinct (loading.map (g.keyIds plan.resolved.foreignKey)).flatten :=
        mem_distinct.mpr (List.mem_flatten.mpr ⟨_, List.mem_map.mpr ⟨m, hloads, rfl⟩, hid⟩)
      rw [List.isEmpty_iff.mp hempty] at hin
      cases hin
    exact ⟨fun _ => none, by simp, by rw [hids, hnone]; rfl⟩
  · obtain ⟨found, ran, hrun, hwire⟩ := returns_bind.mp h
    have hholds : plan.resolved.holdsSingle = true := by
      rw [Resolved.holdsSingle_of_parent hside, hsingle]
      rfl
    obtain ⟨hfound, hparent⟩ := parents_of_attachParents hside hholds
      (fun n hn => hunload.hasModel (hknown n (hmember n hn)))
      (fun n hn => by rw [Plan.OwnKey, hunload.modelType]; exact hkey n (hmember n hn)) hrun hwire
      hloads hnone
    exact ⟨found.get?, hfound, by rw [hparent, hunload.keyIds]⟩

end Fetching

/-! ## Any members -/

/-- In `t` the model has a parent under the name, if that relationship holds a single one and its
parent in `g` was not an unsaved one: the last model found for the identifiers in its key, if any
was found. -/
def Graph.GotParent (g t : Graph σ) (name : String) (m : Model) : Prop :=
  ∀ r, g.registry.resolve (g.model m).modelType.name name = .ok r → r.holdsSingle = true →
    (∀ p, (g.model m).parents.get? name = some p → (g.model p).record.isNew = false) →
    ∃ found : String → Option Model,
      (∀ id p, found id = some p → t.HasModel p ∧ (t.model p).record.id = some id) ∧
      (t.model m).parents.get? name = ((g.keyIds r.foreignKey m).filterMap found).getLast?

namespace Graph.GotParent

variable {g t t' : Graph σ} {name : String} {m : Model} {members : List Model}

/-- Other models are fetched for after that. -/
theorem later (h : g.GotParent t name m) (hspares : t.Spares t' members) (hm : t.HasModel m)
    (hout : m ∉ members) : g.GotParent t' name m := by
  intro r hr hsingle hsaved
  obtain ⟨found, hfound, hparent⟩ := h r hr hsingle hsaved
  refine ⟨found, fun id p hp => ?_, by rw [hspares.others m hm hout, hparent]⟩
  obtain ⟨hmade, hid⟩ := hfound id p hp
  exact ⟨hspares.hasModel hmade, by rw [hspares.model p hmade, hid]⟩

/-- Other models were fetched for before that. -/
theorem earlier (h : t.GotParent t' name m) (hspares : g.Spares t members) (hg : g.WellFormed)
    (hm : g.HasModel m) (hout : m ∉ members) : g.GotParent t' name m := by
  have hsame := hspares.others m hm hout
  intro r hr hsingle hsaved
  rw [← hspares.registry, ← hsame] at hr
  obtain ⟨found, hfound, hparent⟩ := h r hr hsingle fun p hp => by
    rw [hsame] at hp
    rw [hspares.model p (hg.parents m name p hm hp)]
    exact hsaved p hp
  exact ⟨found, hfound, by rw [hparent, Graph.keyIds, hsame, Graph.keyIds]⟩

end Graph.GotParent

section Fetch

variable [RecordStore σ] {g g' : Graph σ} {s : Session} {members : List Model} {name : String}
  {callers : Option Query}

/-- Fetching for members of the type. -/
theorem gotParent_of_fetchGroup {u : ModelType} (hg : g.WellFormed)
    (hknown : ∀ m ∈ members, g.HasModel m) (htype : ∀ m ∈ members, (g.model m).modelType = u)
    (h : Returns (Fetching.fetchGroup s u name callers members) g () g') :
    ∀ m ∈ members, g.GotParent g' name m := by
  intro m hm r hr hsingle hsaved
  obtain ⟨plan, hplan, hparent, -⟩ := Fetching.returns_fetchGroup h
  have hu : g.registry.get u.name = .ok u := by
    rw [← htype m hm]
    exact hg.typed m (hknown m hm)
  rw [htype m hm] at hr
  obtain rfl := Except.ok.inj (hplan.resolved.symm.trans hr)
  rw [Resolved.holdsSingle, Bool.and_eq_true, decide_eq_true_eq, decide_eq_true_eq] at hsingle
  obtain ⟨hside, hcardinality⟩ := hsingle
  have hname := hplan.name_eq hg.registry
  have hfree : plan.keeps g m = false := by
    unfold Fetching.Plan.keeps
    rw [hname]
    cases hheld : (g.model m).parents.get? name with
    | none => simp
    | some p => simp [hsaved p hheld]
  have hgot := Fetching.parents_of_parentSide hside hcardinality hknown
    (fun n hn => hplan.ownKey hg.registry hside hu (htype n hn)) (hparent hside) hm hfree
  rwa [hname] at hgot

variable {Kept : σ → Prop}

/-- In the turn of its group a member gets its parent, and nothing else of the graph is touched but
the group. -/
theorem gotParent_of_turn (hkept : RecordStore.Keeps Kept) (hg : g.Sound Kept)
    {count : Nat} {typeName : String} {declares : Bool}
    (hgroup : ∀ m ∈ members, g.HasModel m ∧ (g.model m).modelType.name = typeName)
    (h : Returns (Fetching.turn s name callers count (typeName, members)) g declares g') :
    g'.Sound Kept ∧ g.Spares g' members ∧ ∀ m ∈ members, g.GotParent g' name m := by
  have hwf := hg.wellFormed
  obtain ⟨hsound, -⟩ := (Fetching.upholds_turn hkept hg name callers count hgroup).of_returns h
  have hdisturbed := (Fetching.ends_turn s callers hwf (.refl hwf name) count
    (fun m hm => (hgroup m hm).1) (fun _ _ => rfl) fun m hm => (hgroup m hm).2).answers _ _ h
  refine ⟨hsound, hdisturbed.spares, ?_⟩
  rcases Fetching.returns_turn h with ⟨-, -, t, ht, hnot⟩ | ⟨t, ht, hfetch⟩
  · intro m hm r hr
    obtain ⟨u, declared, hu, -, hdeclared, -⟩ := Registry.declared_of_resolve hwf.registry hr
    rw [(hgroup m hm).2, ht] at hu
    obtain rfl := Except.ok.inj hu
    rw [ModelType.hasRelationship, OrderedMap.contains,
      ModelType.relationship_eq_ok.mp hdeclared] at hnot
    cases hnot
  · refine gotParent_of_fetchGroup hwf (fun m hm => (hgroup m hm).1) (fun m hm => ?_) hfetch
    have htyped := hwf.typed m (hgroup m hm).1
    rw [(hgroup m hm).2, ht] at htyped
    exact (Except.ok.inj htyped).symm

/-- A fetch gives every member its parent. -/
theorem gotParent_of_fetchRelationship (hkept : RecordStore.Keeps Kept) (hg : g.Sound Kept)
    (hmembers : ∀ m ∈ members, g.HasModel m)
    (h : Returns (fetchRelationship s members name callers) g () g') :
    ∀ m ∈ members, g.GotParent g' name m := by
  have hall : ∃ all, (∀ m, m ∈ all ↔ m ∈ members) ∧
      g'.Sound Kept ∧ g.Spares g' all ∧ ∀ m ∈ all, g.GotParent g' name m := by
    refine invariant_of_fetchRelationship (fun done t =>
      t.Sound Kept ∧ g.Spares t done ∧ ∀ m ∈ done, g.GotParent t name m) ⟨hg, .refl g, by simp⟩ ?_ h
    rintro done group typeName count t t' declares hgroup hdone hdisjoint ⟨ht, hspares, hgot⟩ hturn
    have hin : ∀ m ∈ group, m ∈ members ∧ (g.model m).modelType.name = typeName := by
      intro m hm
      rw [hgroup, List.mem_filter, decide_eq_true_eq] at hm
      exact hm
    have hout : ∀ m ∈ group, m ∉ done := fun m hm hmem => hdisjoint m hmem hm
    have hknown : ∀ m ∈ group, t.HasModel m ∧ (t.model m).modelType.name = typeName :=
      fun m hm => ⟨hspares.hasModel (hmembers m (hin m hm).1), by
        rw [hspares.others m (hmembers m (hin m hm).1) (hout m hm), (hin m hm).2]⟩
    obtain ⟨ht', hspares', hgot'⟩ := gotParent_of_turn hkept ht hknown hturn
    refine ⟨ht', hspares.trans hspares', fun m hm => ?_⟩
    rcases List.mem_append.mp hm with hearlier | hgrouped
    · exact (hgot m hearlier).later hspares' (hspares.hasModel (hmembers m (hdone m hearlier)))
        (hdisjoint m hearlier)
    · exact (hgot' m hgrouped).earlier hspares hg.wellFormed (hmembers m (hin m hgrouped).1)
        (hout m hgrouped)
  obtain ⟨all, hsame, -, -, hgot⟩ := hall
  exact fun m hm => hgot m ((hsame m).mpr hm)

/-- The parent that a fetch gives to a member stays with it when the relationship is read. -/
theorem gotParent_of_fetch (hkept : RecordStore.Keeps Kept) (hg : g.Sound Kept)
    {r answer : Related} (hr : g.HasRelated r) (h : Returns (r.fetch [name] callers) g answer g') :
    ∀ m ∈ g.membersOf r, g.GotParent g' name m ∧ (g'.model m).record = (g.model m).record ∧
      (g'.model m).modelType = (g.model m).modelType ∧ g'.registry = g.registry := by
  intro m hm
  have hknown := hg.wellFormed.hasModel_of_mem_membersOf hr
  rw [Related.fetch_singleton] at h
  obtain ⟨t, hfetch, hread⟩ := Related.returns_fetchStep.mp h
  obtain ⟨ht, -⟩ := (upholds_fetchRelationship hkept hg _ hknown name callers).of_returns hfetch
  have hspares := ((ends_fetchRelationship hg.wellFormed hknown).answers _ _ hfetch).spares
  obtain ⟨hthere, -⟩ := hspares.content hr
  obtain ⟨-, -, hopens, -⟩ := (Related.mirrors_read ht.wellFormed
    (.refl ht.wellFormed fun _ _ => True) hthere (ht.wellFormed.within_content hthere)
    fun _ _ => trivial).answers _ _ hread
  refine ⟨fun resolved hresolved hsingle hsaved => ?_, ?_, ?_, ?_⟩
  · obtain ⟨found, hfound, hparent⟩ :=
      gotParent_of_fetchRelationship hkept hg hknown hfetch m hm resolved hresolved hsingle hsaved
    refine ⟨found, fun id p hp => ?_, by rw [hopens.parents, hparent]⟩
    obtain ⟨hmade, hid⟩ := hfound id p hp
    exact ⟨(hopens.hasModel_iff p).mpr hmade, by rw [hopens.model p, hid]⟩
  · rw [hopens.model m, hspares.model m (hknown m hm)]
  · rw [hopens.modelType, hspares.model m (hknown m hm)]
  · rw [hopens.registry, hspares.registry]

/-- After a fetch the parent of a model is the last one found for the identifiers in its key, while
the identifier that counts as that of its parent is the first one of them. If the key does not hold
different identifiers, then the model has no parent, or one with that identifier. This holds of
every model that was fetched for, of any relationship to a single parent, unless the model held an
unsaved parent, which it keeps. -/
theorem fetch_names_parent (hkept : RecordStore.Keeps Kept) (hg : g.Sound Kept)
    {r answer : Related} (hr : g.HasRelated r) (h : Returns (r.fetch [name] callers) g answer g')
    {m : Model} (hm : m ∈ g.membersOf r) {resolved : Resolved}
    (hresolved : g.registry.resolve (g.model m).modelType.name name = .ok resolved)
    (hsingle : resolved.holdsSingle = true)
    (hsaved : ∀ p, (g.model m).parents.get? name = some p → (g.model p).record.isNew = false) :
    ∃ (ids : List String) (found : String → Option Model),
      (Returns (m.parentIds name) g' ids g' ∧ Returns (m.parentId? name) g' ids.head? g') ∧
      (∀ id p, found id = some p → (g'.model p).record.id = some id) ∧
      Returns (m.read name) g' ((ids.filterMap found).getLast?.elim .none .model) g' ∧
      ((∀ id ∈ ids, ids.head? = some id) → ∀ p, (ids.filterMap found).getLast? = some p →
        (g'.model p).record.id = ids.head?) := by
  obtain ⟨hgot, hrecord, htype, hregistry⟩ := gotParent_of_fetch hkept hg hr h m hm
  obtain ⟨found, hfound, hparent⟩ := hgot resolved hresolved hsingle hsaved
  have hknown := hg.wellFormed.hasModel_of_mem_membersOf hr m hm
  have hids : Returns (m.parentIds name) g' (g.keyIds resolved.foreignKey m) g' := by
    obtain ⟨u, declared, hu, -, hdeclared, -, -, hresolve⟩ :=
      Registry.declared_of_resolve hg.wellFormed.registry hresolved
    obtain rfl := Except.ok.inj ((hg.wellFormed.typed m hknown).symm.trans hu)
    have hside : resolved.side = .parent := by
      rw [Resolved.holdsSingle, Bool.and_eq_true, decide_eq_true_eq] at hsingle
      exact hsingle.1
    rw [Model.returns_parentIds, htype, hrecord]
    exact ⟨rfl, declared, resolved.foreignKey, hdeclared,
      (Registry.resolveRelationship_parent hresolve hside).1, rfl⟩
  refine ⟨g.keyIds resolved.foreignKey m, found, ⟨hids, ?_⟩, fun id p hp => (hfound id p hp).2, ?_,
    ?_⟩
  · exact returns_bind.mpr ⟨_, g', hids, returns_pure.mpr ⟨rfl, rfl⟩⟩
  · refine returns_bind.mpr ⟨resolved, g', ?_, ?_⟩
    · rw [Model.returns_resolve, hregistry, htype]
      exact ⟨rfl, hresolved⟩
    · rw [if_pos hsingle]
      refine returns_bind.mpr ⟨_, g', Model.returns_cachedParent.mpr ⟨rfl, rfl⟩, ?_⟩
      rw [hparent]
      cases ((g.keyIds resolved.foreignKey m).filterMap found).getLast? with
      | none => exact returns_pure.mpr ⟨rfl, rfl⟩
      | some p => exact returns_pure.mpr ⟨rfl, rfl⟩
  · intro hsame p hp
    obtain ⟨id, hid, hpid⟩ := List.mem_filterMap.mp (List.mem_of_getLast? hp)
    rw [(hfound id p hpid).2, hsame id hid]

end Fetch

namespace Library

/-- An article that refers to these authors, forged. Two authors are stored. -/
def bylined (writers : List String) : Graph MemoryStore :=
  let authors := ["ann", "bob"].map fun id => (Record.new "node" "author").withId id
  let g := Graph.new (filled (authors ++ [signed "cells" "Cells" writers .multiple]))
    (registry [author, article])
  let g := (Session.start ⟨"PLH", .and, some 1, false⟩ g).2
  (Model.forgeById session "article" "cells" g).2

theorem reachable_bylined (writers : List String) :
    Graph.Reachable MemoryStore.Filed (bylined writers) := by
  have htypes : ∀ t ∈ [author, article], t.WellFormed := by
    simp [wellFormed_author, wellFormed_article]
  exact .call (.call (.new (filed_filled _) (wellFormed_registry htypes)) (.start _))
    (.forgeById _ _ _)

/-- The graph after the author of the article was fetched. -/
def attributed (writers : List String) : Graph MemoryStore :=
  ((Related.model ⟨0⟩).fetch ["author"] none (bylined writers)).2

/-- An article of one author has this author as its parent. -/
theorem attributed_names_parent : ∃ p,
    Returns (Model.read ⟨0⟩ "author") (attributed ["ann"]) (.model p) (attributed ["ann"]) ∧
      Returns (Model.parentId? ⟨0⟩ "author") (attributed ["ann"]) (some "ann")
        (attributed ["ann"]) ∧
      ((attributed ["ann"]).model p).record.id = some "ann" := by
  have hthere : (bylined ["ann"]).HasRelated (.model ⟨0⟩) :=
    show (bylined ["ann"]).HasModel ⟨0⟩ from by decide +kernel
  have hfetch : Returns ((Related.model ⟨0⟩).fetch ["author"] none) (bylined ["ann"]) _
      (attributed ["ann"]) := returns_of_isOk (by decide +kernel) .none
  have hresolved := eq_ok_of_isOk (x := (bylined ["ann"]).registry.resolve
    ((bylined ["ann"]).model ⟨0⟩).modelType.name "author") (by decide +kernel) default
  have hnone : ((bylined ["ann"]).model ⟨0⟩).parents.get? "author" = none := by decide +kernel
  obtain ⟨ids, found, ⟨hids, hfirst⟩, -, hread, hnames⟩ := fetch_names_parent
    MemoryStore.keeps_filed ((reachable_bylined _).sound MemoryStore.keeps_filed) hthere hfetch
    (m := ⟨0⟩) (by decide +kernel) hresolved (by decide +kernel) (by simp [hnone])
  have hone : (Model.parentIds ⟨0⟩ "author" (attributed ["ann"])).1.toOption = some ["ann"] := by
    decide +kernel
  rw [show Model.parentIds ⟨0⟩ "author" (attributed ["ann"]) = _ from hids] at hone
  obtain rfl := Option.some.inj hone
  have hsome : (Model.read ⟨0⟩ "author" (attributed ["ann"])).1.toOption ≠ some .none := by
    decide +kernel
  rw [show Model.read ⟨0⟩ "author" (attributed ["ann"]) = _ from hread] at hsome
  cases hparent : (["ann"].filterMap found).getLast? with
  | none => exact absurd (by rw [hparent]; rfl) hsome
  | some p =>
      rw [hparent] at hread
      exact ⟨p, hread, hfirst, hnames (by simp) p hparent⟩

/-- An article of two authors has the second one as its parent, and the identifier of the first one
for that of its parent. -/
theorem attributed_not_names_parent :
    Graph.Reachable MemoryStore.Filed (bylined ["ann", "bob"]) ∧
    (resolvedOf (bylined ["ann", "bob"]) ⟨0⟩ "author").holdsSingle = true ∧
    ((bylined ["ann", "bob"]).model ⟨0⟩).parents.get? "author" = none ∧
    ((Related.model ⟨0⟩).fetch ["author"] none (bylined ["ann", "bob"])).1.isOk = true ∧
    (Model.read ⟨0⟩ "author" (attributed ["ann", "bob"])).1.toOption = some (.model ⟨2⟩) ∧
    ((attributed ["ann", "bob"]).model ⟨2⟩).record.id = some "bob" ∧
    (Model.parentId? ⟨0⟩ "author" (attributed ["ann", "bob"])).1.toOption = some (some "ann") := by
  refine ⟨reachable_bylined _, ?_⟩
  decide +kernel

end Library

end RecordGraph
