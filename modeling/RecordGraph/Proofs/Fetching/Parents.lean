/-
# Loading parents

A relationship whose members hold the foreign key. The identifiers of all members are asked
for once each, in batches, and looked up again member by member. For every identifier there
is at most one model, whichever batch has brought it and however many members refer to it, so
members that refer to one record share the model.
-/
import RecordGraph.Proofs.Fetching.Answers
import RecordGraph.Proofs.Upholding.Histories

namespace RecordGraph

/-! ## What a query makes of a record -/

namespace ModelQuery

/-- Whether the query selects a record and has a type for it. -/
def yields (q : ModelQuery) (r : Record) : Bool :=
  q.query.buildRoot.toOption.any (·.holds r) && (q.wrapping.typeFor? r).isSome

/-- The record under an identifier, if the query makes a model of it. -/
def yieldFrom? (q : ModelQuery) (store : MemoryStore) (id : String) : Option Record :=
  ((store.recordsOf q.query.entityType).get? id).filter q.yields

end ModelQuery

/-- The query of a relationship yields the records that meet its condition and have a type. -/
theorem ModelQuery.yields_of_relationshipQuery {registry : Registry} {relationship : Relationship}
    {q : ModelQuery} (h : registry.relationshipQuery relationship = .ok q) :
    ∃ entityType c, q.query = Query.ofBase entityType [c] ∧
      ∀ r, q.yields r = true ↔ c.holds r = true ∧ (q.wrapping.typeFor? r).isSome = true := by
  obtain ⟨entityType, c, hquery, hsound⟩ := Registry.relationshipQuery_eq_ofBase h
  refine ⟨entityType, c, hquery, fun r => ?_⟩
  obtain ⟨built, hbuilt⟩ :=
    Query.exists_build_ofBase entityType (show ∀ d ∈ [c], d.fault? = none by simpa using hsound)
  have hroot := Query.buildRoot_of_build hbuilt
  rw [yields, hquery, hroot, Bool.and_eq_true]
  have hholds := Query.holds_root_ofBase hbuilt r
  simpa [Except.toOption] using fun _ => hholds

/-! ## One model for every identifier -/

namespace Fetching

variable {plan : Plan} {g unloaded ran g' : Graph MemoryStore} {members : List Model}
  {answers : List Record} {found : OrderedMap String Model} {pairs : List (Model × Model)}
  {ids : List String} {m : Model}

/-- Under an identifier stands a model of the record that is stored there, if the record is an
answer and the query has a type for it. -/
theorem Loading.record_of_answer (hfiled : g.store.Filed)
    (h : Loading plan members g unloaded ran g' answers found pairs) {entityType id : String}
    {meets : Record → Bool}
    (hmeets : ∀ r ∈ answers, r ∈ (g.store.recordsOf entityType).values ∧ meets r = true)
    (hasked : ∀ r, (g.store.recordsOf entityType).get? id = some r → meets r = true →
      r ∈ answers) :
    (found.get? id).map (fun x => (g'.model x).record) =
      ((g.store.recordsOf entityType).get? id).filter fun r =>
        meets r && (plan.query.wrapping.typeFor? r).isSome := by
  cases hfound : found.get? id with
  | some x =>
      obtain ⟨hanswer, hown⟩ := h.finds.record id x hfound
      obtain ⟨hstored, hmet⟩ := hmeets _ hanswer
      obtain ⟨key, hkey⟩ := OrderedMap.mem_values_iff.mp hstored
      rw [(hfiled entityType key _ hkey).1, Option.some.injEq] at hown
      have htype : (plan.query.wrapping.typeFor? (ran.model x).record).isSome = true := by
        rw [(h.finds.wraps id x hfound).2.2.typeFor, Option.isSome_some]
      rw [← hown, hkey, Option.map_some, h.handed.relinks.record, Option.filter_some, hmet, htype]
      rfl
  | none =>
      cases hstored : (g.store.recordsOf entityType).get? id with
      | none => rfl
      | some r =>
          have hnot : ¬ (meets r && (plan.query.wrapping.typeFor? r).isSome) = true := by
            rw [Bool.and_eq_true]
            rintro ⟨hmet, htype⟩
            obtain ⟨x, hx⟩ := h.finds.complete r (hasked r hstored hmet) htype id
              (hfiled entityType id r hstored).1
            rw [hfound] at hx
            cases hx
          rw [Option.map_none, Option.filter_some, if_neg hnot]

/-- Under an identifier that was asked for stands a model of exactly the record that the query
yields. -/
theorem Loading.record_of_asked {Stored : MemoryStore → Prop} {registry : Registry}
    {relationship : Relationship} {entityType : String} {c : Condition}
    (hfiled : g.store.Filed) (hquery : registry.relationshipQuery relationship = .ok plan.query)
    (hbase : plan.query.query = Query.ofBase entityType [c])
    (h : Loading plan members g unloaded ran g' answers found pairs)
    (hanswered : Answered plan Stored (Selects g.store entityType [c] idField) g ran ids answers)
    {id : String} (hid : id ∈ ids) :
    (found.get? id).map (fun x => (g'.model x).record) = plan.query.yieldFrom? g.store id := by
  obtain ⟨other, condition, hother, hyields⟩ := ModelQuery.yields_of_relationshipQuery hquery
  obtain ⟨rfl, rfl⟩ : other = entityType ∧ condition = c := by
    rw [hbase] at hother
    simpa [Query.ofBase, Query.new, eq_comm] using hother
  have hentity : plan.query.query.entityType = other := by
    rw [hbase]
    rfl
  have hyield : plan.query.yields = fun r =>
      condition.holds r && (plan.query.wrapping.typeFor? r).isSome := by
    funext r
    rw [Bool.eq_iff_iff, hyields, Bool.and_eq_true]
  rw [ModelQuery.yieldFrom?, hentity, hyield]
  apply h.record_of_answer hfiled
  · intro r hr
    obtain ⟨hstored, hmeets⟩ := hanswered.meets hr
    exact ⟨hstored, hmeets _ (by simp)⟩
  · intro r hstored hmeets
    apply hanswered.mem_of_asked (OrderedMap.mem_values_iff.mpr ⟨id, hstored⟩)
      (by simpa using hmeets) hid
    simp [Record.valuesAt, (hfiled other id r hstored).1]

/-- A member is paired with what was found under its identifiers, in their order. -/
theorem filter_parentPairs (hnodup : members.Nodup) (hm : m ∈ members) :
    ((parentPairs plan g found members).filter fun pair => pair.1 = m).map Prod.snd =
      (g.keyIds plan.resolved.foreignKey m).filterMap found.get? := by
  have hpairs : ∀ n, ((((g.keyIds plan.resolved.foreignKey n).filterMap found.get?).map
      fun far => (n, far)).filter fun pair => pair.1 = m).map Prod.snd =
        if n = m then (g.keyIds plan.resolved.foreignKey m).filterMap found.get? else [] := by
    intro n
    rw [List.filter_map, List.map_map]
    by_cases hn : n = m
    · simp [hn, Function.comp_def]
    · simp [hn, Function.comp_def]
  induction members with
  | nil => simp at hm
  | cons n rest ih =>
      rw [parentPairs, List.flatMap_cons, List.filter_append, List.map_append, hpairs n]
      rw [List.nodup_cons] at hnodup
      have hrest : m ∉ rest → ((parentPairs plan g found rest).filter
          fun pair => pair.1 = m).map Prod.snd = [] := by
        intro hout
        rw [List.map_eq_nil_iff, List.filter_eq_nil_iff]
        intro pair hpair
        obtain ⟨hmem, -⟩ := mem_parentPairs.mp hpair
        rw [decide_eq_true_eq]
        rintro rfl
        exact hout hmem
      by_cases hn : n = m
      · subst hn
        rw [if_pos rfl]
        exact (congrArg _ (hrest hnodup.1)).trans (List.append_nil _)
      · have hm' : m ∈ rest := by simpa [Ne.symm hn] using hm
        rw [if_neg hn, List.nil_append]
        exact ih hnodup.2 hm'

/-- A single member whose key holds at most one identifier has the model found under it. -/
theorem Loading.parents_of_parentPairs
    (h : Loading plan members g unloaded ran g' answers found (parentPairs plan g found members))
    (hside : plan.resolved.side = .parent) (hsingle : plan.resolved.cardinality = .single)
    (hnodup : members.Nodup) (hm : m ∈ members)
    (hlength : (g.keyIds plan.resolved.foreignKey m).length ≤ 1) :
    (g'.model m).parents.get? plan.resolved.name =
      (g.keyIds plan.resolved.foreignKey m).head?.bind found.get? := by
  have hholds : plan.resolved.holdsSingle = true := by
    rw [Resolved.holdsSingle_of_parent hside, hsingle]
    rfl
  rw [h.parents_near hm hholds, filter_parentPairs hnodup hm]
  cases hids : g.keyIds plan.resolved.foreignKey m with
  | nil => rfl
  | cons id others =>
      obtain rfl : others = [] := by
        rw [hids, List.length_cons] at hlength
        exact List.length_eq_zero_iff.mp (by omega)
      cases hid : found.get? id with
      | none => simp [hid]
      | some x => simp [hid]

/-- A multiple member has its unsaved models and then those found under its identifiers. -/
theorem Loading.children_of_parentPairs {Stored : MemoryStore → Prop}
    {entityType path : String} {cs : List Condition} (hg : g.WellFormed) (hfiled : g.store.Filed)
    (hapart : g.PlaceholdersApart) (hmembers : ∀ m ∈ members, g.HasModel m)
    (hnodup : members.Nodup)
    (h : Loading plan members g unloaded ran g' answers found (parentPairs plan g found members))
    (hanswered : Answered plan Stored (Selects g.store entityType cs path) g ran ids answers)
    (hside : plan.resolved.side = .parent) (hmultiple : plan.resolved.cardinality = .multiple)
    (hm : m ∈ members) :
    ∃ c, (g'.model m).children.get? plan.resolved.name = some c ∧
      (g'.collection c).members.values = g.unsavedChildren m plan.resolved.name ++
        (distinct (g.keyIds plan.resolved.foreignKey m)).filterMap found.get? := by
  have hholds : plan.resolved.holdsSingle = false := by
    rw [Resolved.holdsSingle_of_parent hside, hmultiple]
    rfl
  obtain ⟨c, hc, hvalues, -⟩ := h.values_near hm hholds
    (hg.nodup_keys_unsavedChildren (hmembers m hm) _)
    fun x hx y hy => h.key_ne_of_unsaved hg hfiled hapart hmembers hanswered hm hx hy
  -- no model is found under two identifiers
  have hown : ∀ id other x, found.get? id = some x → found.get? other = some x → id = other := by
    intro id other x hx hx'
    have hid := (h.finds.record id x hx).2
    rw [(h.finds.record other x hx').2, Option.some.injEq] at hid
    exact hid.symm
  refine ⟨c, hc, ?_⟩
  rw [hvalues, filter_parentPairs hnodup hm,
    distinct_filterMap _ fun id _ other _ x => hown id other x]

end Fetching

namespace Graph

/-- The model holds a parent that is not stored yet. -/
def HoldsUnsavedParent (g : Graph MemoryStore) (m : Model) (name : String) : Prop :=
  ∃ p, (g.model m).parents.get? name = some p ∧ (g.model p).record.isNew = true

end Graph

theorem Fetching.Plan.keeps_eq_true_iff {plan : Plan} {g : Graph MemoryStore} {m : Model} :
    plan.keeps g m = true ↔ plan.resolved.cardinality = .single ∧
      g.HoldsUnsavedParent m plan.resolved.name := by
  simp [Plan.keeps, Graph.HoldsUnsavedParent, Option.any_eq_true]

/-- What fetching parents leaves on the store in memory. One function `found` tells for all
members which model an identifier leads to: for every identifier that is asked for, a model of
the record that the relationship's query yields under it, if there is one. A member that holds
an unsaved single parent keeps it. Any other single member whose key holds at most one
identifier has the model found under it as its parent. A multiple member has a collection:
first the unsaved models that it held before, in order, then the models found under its
identifiers, in the order in which these occur first, each once. -/
theorem fetchRelationship_loads_parents {g g' : Graph MemoryStore} {s : Session}
    {members : List Model} {typeName name : String} {t : ModelType} {relationship : Relationship}
    {resolved : Resolved} {q : ModelQuery} (hg : g.WellFormed) (hfiled : g.store.Filed)
    (hapart : g.PlaceholdersApart) (hmembers : ∀ m ∈ members, g.HasModel m)
    (hnodup : members.Nodup) (htypes : ∀ m ∈ members, (g.model m).modelType.name = typeName)
    (ht : g.registry.get typeName = .ok t) (hrelationship : t.relationship name = .ok relationship)
    (hq : g.registry.relationshipQuery relationship = .ok q)
    (hresolved : g.registry.resolve typeName name = .ok resolved) (hside : resolved.side = .parent)
    (hfetch : Returns (fetchRelationship s members name none) g () g') :
    ∃ found : String → Option Model,
      (∀ m ∈ members, (resolved.cardinality = .single → ¬ g.HoldsUnsavedParent m name) →
        ∀ id ∈ g.keyIds resolved.foreignKey m,
          (found id).map (fun x => (g'.model x).record) = q.yieldFrom? g.store id) ∧
      (resolved.cardinality = .single → ∀ m ∈ members,
        (∀ p, (g.model m).parents.get? name = some p → (g.model p).record.isNew = true →
          (g'.model m).parents.get? name = some p ∧ (g'.model p).record.isNew = true) ∧
        (¬ g.HoldsUnsavedParent m name → (g.keyIds resolved.foreignKey m).length ≤ 1 →
          (g'.model m).parents.get? name = (g.keyIds resolved.foreignKey m).head?.bind found)) ∧
      (resolved.cardinality = .multiple → ∀ m ∈ members, ∃ c,
        (g'.model m).children.get? name = some c ∧
        (g'.collection c).members.values = g.unsavedChildren m name ++
          (distinct (g.keyIds resolved.foreignKey m)).filterMap found) := by
  by_cases hsome : members = []
  · exact ⟨fun _ => none, by simp [hsome]⟩
  obtain ⟨u, plan, rfl, hu, htyped, hplan, rfl, hparent, -⟩ :=
    Fetching.exists_planned_of_one_type hg hsome hmembers htypes hresolved hfetch
  obtain rfl : t = u := Except.ok.inj (ht.symm.trans hu)
  have hname := hplan.name_eq hg.registry
  obtain ⟨declared, asked, hdeclared, hasked, -, hquery⟩ := hplan.declared
  obtain rfl : relationship = declared := Except.ok.inj (hrelationship.symm.trans hdeclared)
  obtain rfl : q = asked := Except.ok.inj (hq.symm.trans hasked)
  simp only at hquery
  subst hquery
  obtain ⟨entityType, c, unloaded, ran, answers, found, hbase, hloading, hanswered⟩ :=
    hplan.returns_parentSide hg hfiled hside ht htyped hnodup hmembers (hparent hside)
  have hloads : ∀ m ∈ members, ¬ (plan.resolved.cardinality = .single ∧
      g.HoldsUnsavedParent m name) → m ∈ members.filter fun m => !plan.keeps g m := by
    intro m hm hfree
    rw [List.mem_filter, Bool.not_eq_true', ← Bool.not_eq_true, Fetching.Plan.keeps_eq_true_iff,
      hname]
    exact ⟨hm, hfree⟩
  refine ⟨found.get?, ?_, ?_, ?_⟩
  · intro m hm hfree id hid
    have hload := hloads m hm fun hheld => hfree hheld.1 hheld.2
    refine hloading.record_of_asked hfiled hq hbase hanswered ?_
    rw [mem_distinct, List.mem_flatten]
    exact ⟨_, List.mem_map.mpr ⟨m, hload, rfl⟩, hid⟩
  · intro hsingle m hm
    refine ⟨fun p hp hnew => ?_, fun hfree hlength => ?_⟩
    · have hkept : m ∉ members.filter fun m => !plan.keeps g m := by
        rw [List.mem_filter, not_and, Bool.not_eq_true', Bool.not_eq_false,
          Fetching.Plan.keeps_eq_true_iff, hname]
        exact fun _ => ⟨hsingle, p, hp, hnew⟩
      have hthere := hg.parents m name p (hmembers m hm) hp
      rw [hloading.spares.others m (hmembers m hm) hkept, hloading.spares.model p hthere]
      exact ⟨hp, hnew⟩
    · have hload := hloads m hm fun hheld => hfree hheld.2
      rw [← hname]
      exact hloading.parents_of_parentPairs hside hsingle (hnodup.filter _) hload hlength
  · intro hmultiple m hm
    have hload := hloads m hm fun hheld => by
      rw [hmultiple] at hheld
      exact absurd hheld.1 (by simp)
    rw [← hname]
    exact hloading.children_of_parentPairs hg hfiled hapart
      (fun m hm => hmembers m (List.mem_filter.mp hm).1) (hnodup.filter _) hanswered hside
      hmultiple hload

namespace Library

/-- The graph with both stored articles forged, and an unsaved one that refers to the author of
the first. -/
def drafts : Graph MemoryStore :=
  let g := (Model.forgeById session "article" "cells" (opened [author, article])).2
  let g := (Model.forgeById session "article" "trees" g).2
  let g := (Model.forgeNew session "article" g).2
  (Model.setField ⟨2⟩ "writer" (.object [("target_id", .text "ann")]) g).2

theorem reachable_drafts : Graph.Reachable MemoryStore.Filed drafts := by
  have htypes : ∀ t ∈ [author, article], t.WellFormed := by
    simp [wellFormed_author, wellFormed_article]
  refine .call (.call (.call (.call (reachable_opened htypes) (.forgeById _ _ _))
    (.forgeById _ _ _)) (.forgeNew _ _)) (.setField ?_ _ _)
  decide +kernel

/-- The type of the articles, their relationship to the author, its query and what it amounts
to, all as the registry has them. -/
def articleType : ModelType := (drafts.registry.get "article").toOption.getD default

def writer : Relationship := (articleType.relationship "author").toOption.getD default

def writerQuery : ModelQuery := (drafts.registry.relationshipQuery writer).toOption.getD default

def writerOf : Resolved := (drafts.registry.resolve "article" "author").toOption.getD default

/-- The three articles, the unsaved one last. -/
def listed : List Model := [⟨0⟩, ⟨1⟩, ⟨2⟩]

/-- The graph after the authors of the articles were fetched. -/
def credited : Graph MemoryStore := (fetchRelationship session listed "author" none drafts).2

/-- There is one model for each author; the first and the last article share it. -/
theorem credited_authors : ∃ found : String → Option Model,
    Returns (fetchRelationship session listed "author" none) drafts () credited ∧
      (credited.model ⟨0⟩).parents.get? "author" = found "ann" ∧
      (credited.model ⟨1⟩).parents.get? "author" = found "bob" ∧
      (credited.model ⟨2⟩).parents.get? "author" = found "ann" ∧
      ((found "ann").map fun x => (credited.model x).record.id) = some (some "ann") ∧
      ((found "bob").map fun x => (credited.model x).record.id) = some (some "bob") := by
  have hsound := reachable_drafts.sound MemoryStore.keeps_filed
  have htype : drafts.registry.get "article" = .ok articleType :=
    eq_ok_of_isOk (by decide +kernel) default
  have hwriter : articleType.relationship "author" = .ok writer :=
    eq_ok_of_isOk (by decide +kernel) default
  have hquery : drafts.registry.relationshipQuery writer = .ok writerQuery :=
    eq_ok_of_isOk (by decide +kernel) default
  have hresolved : drafts.registry.resolve "article" "author" = .ok writerOf :=
    eq_ok_of_isOk (by decide +kernel) default
  have hfetch : Returns (fetchRelationship session listed "author" none) drafts () credited :=
    returns_of_isOk (by decide +kernel) ()
  obtain ⟨found, hrecords, hparents, -⟩ := fetchRelationship_loads_parents hsound.wellFormed
    hsound.store (by decide +kernel) (by decide +kernel) (by decide +kernel) (by decide +kernel)
    htype hwriter hquery hresolved (by decide +kernel) hfetch
  have hfree : ∀ m ∈ listed, ¬ drafts.HoldsUnsavedParent m "author" := by
    have hnone : ∀ m ∈ listed, (drafts.model m).parents.get? "author" = none := by
      decide +kernel
    rintro m hm ⟨p, hp, -⟩
    rw [hnone m hm] at hp
    cases hp
  have hkeys : ∀ m ∈ listed, (drafts.keyIds writerOf.foreignKey m).length ≤ 1 := by
    decide +kernel
  have hparent := fun m hm => (hparents (by decide +kernel) m hm).2 (hfree m hm) (hkeys m hm)
  have hid : ∀ m ∈ listed, ∀ id ∈ drafts.keyIds writerOf.foreignKey m,
      ((found id).map fun x => (credited.model x).record.id) =
        (writerQuery.yieldFrom? drafts.store id).map Record.id := by
    intro m hm id hasked
    rw [← hrecords m hm (fun _ => hfree m hm) id hasked, Option.map_map]
    rfl
  refine ⟨found, hfetch, hparent ⟨0⟩ (by decide), hparent ⟨1⟩ (by decide),
    hparent ⟨2⟩ (by decide), ?_, ?_⟩
  · rw [hid ⟨0⟩ (by decide) "ann" (by decide +kernel)]
    decide +kernel
  · rw [hid ⟨1⟩ (by decide) "bob" (by decide +kernel)]
    decide +kernel

end Library

end RecordGraph
