/-
# Fetching what a caller asks for

What a caller copies onto a fetch takes away from what is loaded, record by record: of the
records that the plain fetch loads for a member, those stay that meet the caller's conditions,
under the caller's logic, and its blocks. No record comes to a member that the plain fetch does
not give to it, whatever the logic. Unsaved models are left out of account by both, and so are
the base conditions of the caller's query.
-/
import RecordGraph.Proofs.CopiedQueries
import RecordGraph.Proofs.Fetching.Transparency

namespace RecordGraph

/-! ## Copying onto a relationship's query -/

namespace Query

/-- A query with base conditions only is narrowed by what the callers of another one set. -/
theorem meets_copyFrom_ofBase (entityType : String) (cs : List Condition) (q : Query)
    (r : Record) : ((ofBase entityType cs).copyFrom q).meets r =
      ((ofBase entityType cs).meets r && q.meetsCallers r) := by
  have hcallers : ((ofBase entityType cs).copyFrom q).callersHold r = q.callersHold r := by
    refine callersHold_congr rfl ?_ fun _ => rfl
    cases hlogic : q.logic with
    | none => simp [copyFrom, hlogic, ofBase, new]
    | some text => simp [copyFrom, hlogic]
  have hblocks : ((ofBase entityType cs).copyFrom q).blocksHold r = q.blocksHold r := rfl
  have hbase : (ofBase entityType cs).meets r = cs.all (·.holds r) := by
    simp [meets, ofBase, new, callerLogic, Except.toOption]
  rw [hbase, meets_eq_base_and_meetsCallers, meetsCallers, meetsCallers, hcallers, hblocks]
  rfl

end Query

namespace Graph

variable {σ : Type}

/-- What a fetch leaves loaded for a member, whatever it finds: an unsaved single parent, the
unsaved models of a collection, and what is loaded where the relationship does not look. -/
def kept (g : Graph σ) (m : Model) (r : Resolved) : List Record :=
  if r.holdsSingle then
    if ((g.model m).parents.get? r.name).any fun p => (g.model p).record.isNew then
      g.loaded m r.name
    else g.loadedChildren m r.name
  else g.loadedParents m r.name ++ g.pendingRecords m r.name

/-- These are unsaved, where a relationship to a single parent has no collection loaded under its
name and any other one no parent. -/
theorem isNew_of_mem_kept {g : Graph σ} {m : Model} {r : Resolved}
    (hslot : if r.holdsSingle then (g.model m).children.get? r.name = none
      else (g.model m).parents.get? r.name = none) {x : Record} (hx : x ∈ g.kept m r) :
    x.isNew = true := by
  unfold kept at hx
  by_cases hsingle : r.holdsSingle = true
  · rw [if_pos hsingle] at hslot hx
    have hchildren : g.loadedChildren m r.name = [] := by
      rw [loadedChildren, hslot]
    split at hx
    · rename_i hnew
      rw [loaded, hchildren, List.append_nil, loadedParents, List.mem_map] at hx
      obtain ⟨p, hp, rfl⟩ := hx
      rw [Option.mem_toList.mp hp, Option.any_some] at hnew
      exact hnew
    · rw [hchildren] at hx
      cases hx
  · rw [if_neg hsingle] at hslot hx
    rw [loadedParents, hslot, Option.toList_none, List.map_nil, List.nil_append, pendingRecords,
      List.mem_map] at hx
    obtain ⟨y, hy, rfl⟩ := hx
    unfold unsavedChildren at hy
    split at hy
    · exact (List.mem_filter.mp hy).2
    · cases hy

end Graph

namespace Fetching

/-! ## What is expected with a caller's query and without -/

/-- The records that a member of a group gets beside what is kept. -/
def Plan.fetched (plan : Plan) (g : Graph MemoryStore) (group : List Model) (m : Model) :
    List Record :=
  let ids := g.keyIds plan.resolved.foreignKey m
  match plan.resolved.side with
  | .child => plan.share g (group.filterMap fun m => (g.model m).record.id) m
  | .parent =>
    if plan.keeps g m then []
    else if plan.resolved.cardinality = .single then
      (ids.filterMap (plan.yieldFrom? g.store)).getLast?.toList
    else (distinct ids).filterMap (plan.yieldFrom? g.store)

variable {plan : Plan} {g : Graph MemoryStore} {group : List Model} {m : Model}

/-- A member has loaded what is kept and what it gets. -/
theorem Plan.expected_perm : (plan.expected g group m).Perm
    (g.kept m plan.resolved ++ plan.fetched g group m) := by
  cases hside : plan.resolved.side with
  | child =>
      have hmany := Resolved.holdsSingle_of_child hside
      simp only [expected, fetched, Graph.kept, hside, hmany, Bool.false_eq_true, if_false]
      rw [List.append_assoc]
  | parent =>
      have hholds := Resolved.holdsSingle_of_parent hside
      by_cases hsingle : plan.resolved.cardinality = .single
      · have hkeeps : plan.keeps g m =
            ((g.model m).parents.get? plan.resolved.name).any fun p =>
              (g.model p).record.isNew := by
          simp [keeps, hsingle]
        simp only [expected, fetched, Graph.kept, hside, hholds, hsingle, ← hkeeps, decide_true,
          if_true]
        cases plan.keeps g m with
        | true => simp
        | false => exact List.perm_append_comm
      · have hkeeps : plan.keeps g m = false := by
          simp [keeps, hsingle]
        simp only [expected, fetched, Graph.kept, hside, hholds, hsingle, hkeeps, decide_false,
          Bool.false_eq_true, if_false]
        rw [List.append_assoc]

/-- What a member gets is stored. -/
theorem Plan.isNew_of_mem_fetched (hfiled : g.store.Filed) {r : Record}
    (hr : r ∈ plan.fetched g group m) : r.isNew = false := by
  have hstored : ∀ ids : List String,
      r ∈ ids.filterMap (plan.yieldFrom? g.store) → r.isNew = false := by
    intro ids hids
    obtain ⟨id, -, hid⟩ := List.mem_filterMap.mp hids
    rw [yieldFrom?, Option.filter_eq_some_iff] at hid
    rw [Record.isNew, (hfiled _ id r hid.1).1, Option.isNone_some]
  unfold fetched at hr
  cases hside : plan.resolved.side with
  | child =>
      simp only [hside, share, List.mem_filter] at hr
      obtain ⟨id, hid⟩ := OrderedMap.mem_values_iff.mp
        (Plan.mem_stored.mp (Plan.mem_selection.mp hr.1).1).1
      rw [Record.isNew, (hfiled _ id r hid).1, Option.isNone_some]
  | parent =>
      simp only [hside] at hr
      split at hr
      · cases hr
      · split at hr
        · exact hstored _ (List.mem_of_getLast? (Option.mem_toList.mp hr))
        · exact hstored _ hr

/-- One plan is the other with a caller's query copied onto it. -/
structure Plan.Narrows (plan plain : Plan) (q : Query) : Prop where
  resolved : plan.resolved = plain.resolved
  condition : plan.condition = plain.condition
  query : plan.query = plain.query.map (·.copyFrom q)
  base : ∃ entityType cs, plain.query.query = Query.ofBase entityType cs

namespace Plan.Narrows

variable {plain : Plan} {q : Query}

theorem meets (h : plan.Narrows plain q) (r : Record) :
    plan.query.query.meets r = (plain.query.query.meets r && q.meetsCallers r) := by
  obtain ⟨entityType, cs, hbase⟩ := h.base
  have hquery : plan.query.query = plain.query.query.copyFrom q := by
    rw [h.query]
    rfl
  rw [hquery, hbase, Query.meets_copyFrom_ofBase]

theorem wraps (h : plan.Narrows plain q) (r : Record) : plan.wraps r = plain.wraps r := by
  rw [Plan.wraps, Plan.wraps, h.query]
  rfl

theorem entityType (h : plan.Narrows plain q) :
    plan.query.query.entityType = plain.query.query.entityType := by
  rw [h.query]
  rfl

/-- A batch selects the records of the plain batch that meet what the caller set. -/
theorem selection_perm (h : plan.Narrows plain q) (store : MemoryStore) (ids : List String) :
    (plan.selection store ids).Perm ((plain.selection store ids).filter q.meetsCallers) := by
  have hmeets : (batchQuery plan ids).query.meets = fun r =>
      (q.meetsCallers r && (batchQuery plain ids).query.meets r) := by
    funext r
    rw [batchQuery, batchQuery, ModelQuery.map, ModelQuery.map, Query.meets_addBase,
      Query.meets_addBase, h.meets, h.condition]
    ac_rfl
  have hentity : (batchQuery plan ids).query.entityType =
      (batchQuery plain ids).query.entityType := h.entityType
  rw [Plan.selection, Plan.selection, MemoryStore.answersTo, MemoryStore.answersTo, hentity]
  refine (List.mergeSort_perm _ _).trans ?_
  rw [hmeets, ← List.filter_filter]
  exact (List.mergeSort_perm _ _).symm.filter _

theorem yieldFrom?_eq (h : plan.Narrows plain q) (store : MemoryStore) (id : String) :
    plan.yieldFrom? store id = (plain.yieldFrom? store id).filter q.meetsCallers := by
  rw [Plan.yieldFrom?, Plan.yieldFrom?, Option.filter_filter, h.entityType]
  congr 1
  funext r
  rw [h.meets, h.wraps]
  ac_rfl

theorem filterMap_yieldFrom? (h : plan.Narrows plain q) (store : MemoryStore)
    (ids : List String) : ids.filterMap (plan.yieldFrom? store) =
      (ids.filterMap (plain.yieldFrom? store)).filter q.meetsCallers := by
  rw [List.filter_filterMap]
  exact List.filterMap_congr fun id _ => h.yieldFrom?_eq store id

/-- What a member gets is what it gets without the caller, if it meets what the caller set. A
single key that holds several identifiers is excluded: the last one counts that is found. -/
theorem fetched_perm (h : plan.Narrows plain q)
    (hsingle : plain.resolved.holdsSingle = true →
      (g.keyIds plain.resolved.foreignKey m).length ≤ 1) :
    (plan.fetched g group m).Perm ((plain.fetched g group m).filter q.meetsCallers) := by
  have hkeeps : plan.keeps g m = plain.keeps g m := by
    rw [Plan.keeps, Plan.keeps, h.resolved]
  unfold Plan.fetched
  rw [hkeeps, h.resolved]
  cases hside : plain.resolved.side with
  | child =>
      simp only [Plan.share, h.resolved, h.wraps]
      rw [List.filter_comm]
      exact (h.selection_perm g.store _).filter _
  | parent =>
      simp only
      cases plain.keeps g m with
      | true => exact .refl _
      | false =>
          simp only [Bool.false_eq_true, if_false, h.filterMap_yieldFrom?]
          split
          · rename_i hcardinality
            have hshort := hsingle (by
              rw [Resolved.holdsSingle_of_parent hside, hcardinality]
              rfl)
            cases hids : g.keyIds plain.resolved.foreignKey m with
            | nil => exact .refl _
            | cons id rest =>
                obtain rfl : rest = [] := by
                  simpa [hids] using hshort
                cases hyield : plain.yieldFrom? g.store id with
                | none => simp [hyield]
                | some r => cases hmeets : q.meetsCallers r <;> simp [hyield, hmeets]
          · exact .refl _

end Plan.Narrows

/-- The plan with a caller's query narrows the plan without. -/
theorem Planned.narrows {registry : Registry} {s : Session} {t : ModelType} {name : String}
    {plain : Plan} {q : Query} (h : Planned registry s t name (some q) plan)
    (hplain : Planned registry s t name none plain) : plan.Narrows plain q := by
  obtain ⟨relationship, asked, hrelationship, hasked, hcondition, hquery⟩ := h.declared
  obtain ⟨again, asked', hrelationship', hasked', hcondition', hquery'⟩ := hplain.declared
  obtain rfl := Except.ok.inj (hrelationship.symm.trans hrelationship')
  obtain rfl := Except.ok.inj (hasked.symm.trans hasked')
  simp only at hquery hquery'
  obtain ⟨entityType, c, hbase, -⟩ := Registry.relationshipQuery_eq_ofBase hasked
  refine ⟨Except.ok.inj (h.resolved.symm.trans hplain.resolved),
    Except.ok.inj (hcondition.symm.trans hcondition'), ?_, entityType, [c], ?_⟩
  · rw [hquery, hquery']
  · rw [hquery', hbase]

end Fetching

/-! ## A query that asks for a policy and names none

Such a query fails before it reaches the store. So a fetch with it answers only if it has nothing
to ask for, and then it answers what it does without the tags.
-/

section Refines

variable {S α β : Type}

/-- Whatever the first action answers, the second one answers too. -/
def Refines (a b : ExceptT Error (StateM S) α) : Prop :=
  ∀ s x s', Returns a s x s' → Returns b s x s'

namespace Refines

theorem refl (a : ExceptT Error (StateM S) α) : Refines a a := fun _ _ _ h => h

theorem bind {a b : ExceptT Error (StateM S) α} {f f' : α → ExceptT Error (StateM S) β}
    (h : Refines a b) (hf : ∀ x, Refines (f x) (f' x)) : Refines (a >>= f) (b >>= f') := by
  intro s y s' hrun
  obtain ⟨x, between, hfirst, hsecond⟩ := returns_bind.mp hrun
  exact returns_bind.mpr ⟨x, between, h s x between hfirst, hf x between y s' hsecond⟩

theorem mapM {f f' : α → ExceptT Error (StateM S) β} (h : ∀ x, Refines (f x) (f' x))
    (xs : List α) : Refines (xs.mapM f) (xs.mapM f') := by
  induction xs with
  | nil => exact refl _
  | cons x rest ih =>
      rw [List.mapM_cons, List.mapM_cons]
      exact (h x).bind fun y => ih.bind fun ys => refl _

end Refines

end Refines

/-- A query that has the tag for access policies and names no policy answers nothing. -/
theorem Query.not_returns_fetch_of_tagged {σ : Type} [RecordStore σ] {q : Query} {s : Session}
    {g g' : Graph σ} {rs : List Record} (hpolicy : q.accessPolicy = none)
    (htag : accessPolicyTag ∈ q.tags) : ¬ Returns (q.fetch s) g rs g' := by
  intro h
  simp only [fetch, fetchIds, Session.execute, returns_bind, returns_ofExcept, and_assoc,
    exists_eq_left] at h
  obtain ⟨ids, afterQuery, ⟨built, hbuilt, prepared, between, hprepared, -⟩, -⟩ := h
  unfold Query.build at hbuilt
  rw [except_bind_eq_ok] at hbuilt
  obtain ⟨root, -, hanswer⟩ := hbuilt
  simp only [hpolicy, except_pure_eq_ok, StoreQuery.foldl_addTag] at hanswer
  subst hanswer
  unfold Session.prepare at hprepared
  rw [if_pos ?_] at hprepared
  · exact returns_throw hprepared
  · rw [StoreQuery.hasTag, List.contains_iff_mem, StoreQuery.mem_foldl_insertText]
    exact .inr htag

namespace Fetching

variable {σ : Type} [RecordStore σ] {plan : Plan}

/-- With such a query there is nothing to run for. -/
theorem Plan.refines_run (hpolicy : plan.query.query.accessPolicy = none)
    (htag : accessPolicyTag ∈ plan.query.query.tags) (other : ModelQuery) (ids : List String) :
    Refines (S := Graph σ) (run plan ids) (run { plan with query := other } ids) := by
  intro g found g' h
  cases ids with
  | nil =>
      simp only [run, batches, List.foldlM_nil] at h ⊢
      exact h
  | cons id rest =>
      simp only [run, returns_bind, Session.returns_config, and_assoc, exists_eq_left, batches,
        List.foldlM_cons, runBatch, ModelQuery.fetchModels] at h
      obtain ⟨_, _, ⟨_, _, ⟨rs, between, hfetch, -⟩, -⟩, -⟩ := h
      exact absurd hfetch (Query.not_returns_fetch_of_tagged hpolicy htag)

theorem Plan.refines_parentSide (plan : Plan) (hpolicy : plan.query.query.accessPolicy = none)
    (htag : accessPolicyTag ∈ plan.query.query.tags) (other : ModelQuery) (members : List Model) :
    Refines (S := Graph σ) (parentSide plan members)
      (parentSide { plan with query := other } members) := by
  unfold parentSide
  refine .bind (.refl _) fun near => .bind (.refl _) fun idss => ?_
  by_cases hnone : (distinct idss.flatten).isEmpty = true
  · rw [if_pos hnone, if_pos hnone]
    exact .refl _
  · rw [if_neg hnone, if_neg hnone]
    exact .bind (Plan.refines_run hpolicy htag other _) fun targets => .refl _

theorem Plan.refines_childSide (plan : Plan) (hpolicy : plan.query.query.accessPolicy = none)
    (htag : accessPolicyTag ∈ plan.query.query.tags) (other : ModelQuery) (members : List Model) :
    Refines (S := Graph σ) (childSide plan members)
      (childSide { plan with query := other } members) := by
  unfold childSide
  refine .bind (.refl _) fun owners => ?_
  by_cases hnone : owners.isEmpty = true
  · rw [if_pos hnone, if_pos hnone]
    exact .refl _
  · rw [if_neg hnone, if_neg hnone]
    exact .bind (Plan.refines_run hpolicy htag other _) fun children => .refl _

/-- A fetch with such a query answers only what it answers without the tags. -/
theorem refines_fetchRelationship {q : Query} (hpolicy : q.accessPolicy = none)
    (htag : accessPolicyTag ∈ q.tags) (s : Session) (members : List Model) (name : String) :
    Refines (S := Graph σ) (fetchRelationship s members name (some q))
      (fetchRelationship s members name (some { q with tags := [] })) := by
  have hgroup : ∀ t group, Refines (S := Graph σ) (fetchGroup s t name (some q) group)
      (fetchGroup s t name (some { q with tags := [] }) group) := by
    intro t group g u g' h
    simp only [fetchGroup, returns_bind, returns_ofExcept, returns_get, and_assoc,
      exists_eq_left] at h ⊢
    obtain ⟨relationship, hrelationship, resolved, hresolved, asked, hasked, condition,
      hcondition, h⟩ := h
    refine ⟨relationship, hrelationship, resolved, hresolved, asked, hasked, condition,
      hcondition, ?_⟩
    obtain ⟨entityType, c, hbase, -⟩ := Registry.relationshipQuery_eq_ofBase hasked
    have hplanPolicy : (asked.query.copyFrom q).accessPolicy = none := by
      rw [Query.copyFrom, hpolicy, hbase]
      rfl
    have hplanTag : accessPolicyTag ∈ (asked.query.copyFrom q).tags :=
      List.mem_append_right _ htag
    cases hside : resolved.side with
    | parent =>
        simp only [hside] at h ⊢
        exact Plan.refines_parentSide ⟨s, resolved, _, condition⟩ hplanPolicy hplanTag
          (asked.map (·.copyFrom { q with tags := [] })) group g u g' h
    | child =>
        simp only [hside] at h ⊢
        exact Plan.refines_childSide ⟨s, resolved, _, condition⟩ hplanPolicy hplanTag
          (asked.map (·.copyFrom { q with tags := [] })) group g u g' h
  unfold fetchRelationship
  refine .bind (.refl _) fun groups => .bind (Refines.mapM (fun entry => ?_) _) fun declared =>
    .refl _
  refine .bind (.refl _) fun g => .bind (.refl _) fun t => ?_
  by_cases hleft : (!t.hasRelationship name && decide (1 < groups.size)) = true
  · rw [if_pos hleft, if_pos hleft]
    exact .refl _
  · rw [if_neg hleft, if_neg hleft]
    exact .bind (hgroup t entry.2) fun _ => .refl _

end Fetching

/-! ## What a caller's query leaves -/

open Fetching

/-- A fetch with a caller's query, cut to no range and meant for no access policy, loads for
every member what the fetch without it loads, less the records that do not meet what the query
asks for: its conditions under its logic or conjunction, and its blocks. What is kept is kept by
both. -/
theorem fetchRelationship_filters {g h h' : Graph MemoryStore} {s : Session}
    {members : List Model} {name : String} {q : Query} (hg : g.WellFormed)
    (hfiled : g.store.Filed) (hapart : g.PlaceholdersApart)
    (hmembers : ∀ m ∈ members, g.HasModel m) (hnodup : members.Nodup)
    (hids : g.DistinctIds members) (hrange : q.range = none) (hpolicy : q.accessPolicy = none)
    (hplain : Returns (fetchRelationship s members name none) g () h)
    (hfiltered : Returns (fetchRelationship s members name (some q)) g () h') :
    ∀ m ∈ members, ∀ r, g.registry.resolve (g.model m).modelType.name name = .ok r →
      (r.holdsSingle = true → (g.keyIds r.foreignKey m).length ≤ 1) →
      ∃ fetched : List Record, (h.loaded m name).Perm (g.kept m r ++ fetched) ∧
        (h'.loaded m name).Perm (g.kept m r ++ fetched.filter q.meetsCallers) ∧
        ∀ x ∈ fetched, x.isNew = false := by
  -- a query that fails before it reaches the store has found nothing to ask for
  obtain ⟨own, hown, hsame, hrun⟩ : ∃ own : Query, own.Plain ∧
      own.meetsCallers = q.meetsCallers ∧
      Returns (fetchRelationship s members name (some own)) g () h' := by
    by_cases htag : accessPolicyTag ∈ q.tags
    · exact ⟨{ q with tags := [] }, ⟨hrange, hpolicy, by simp⟩, rfl,
        refines_fetchRelationship hpolicy htag s members name g () h' hfiltered⟩
    · exact ⟨q, ⟨hrange, hpolicy, htag⟩, rfl, hfiltered⟩
  intro m hm r hr hsingle
  have hfirst := settles_of_returns_fetchRelationship hg hfiled hapart hmembers hnodup hids
    (by simp) hplain m hm
  have hsecond := settles_of_returns_fetchRelationship hg hfiled hapart hmembers hnodup hids
    (by simpa using hown) hrun m hm
  have hdeclared : (g.model m).modelType.hasRelationship name = true := by
    obtain ⟨t, declared, ht, -, hdeclared, -⟩ := Registry.declared_of_resolve hg.registry hr
    obtain rfl := Except.ok.inj ((hg.typed m (hmembers m hm)).symm.trans ht)
    rw [ModelType.hasRelationship, OrderedMap.contains,
      ModelType.relationship_eq_ok.mp hdeclared, Option.isSome_some]
  cases hfirst with
  | undeclared hnone _ => exact absurd (hdeclared.symm.trans hnone) (by simp)
  | declared plain hplanned hperm _ =>
      cases hsecond with
      | undeclared hnone _ => exact absurd (hdeclared.symm.trans hnone) (by simp)
      | declared plan hplanned' hperm' _ =>
          have hnarrows := hplanned'.narrows hplanned
          obtain rfl : plain.resolved = r := Except.ok.inj (hplanned.resolved.symm.trans hr)
          refine ⟨plain.fetched g (sameType g members m) m, hperm.trans Plan.expected_perm, ?_,
            fun x hx => Plan.isNew_of_mem_fetched hfiled hx⟩
          have hexpected := hperm'.trans Plan.expected_perm
          rw [hnarrows.resolved] at hexpected
          rw [← hsame]
          exact hexpected.trans ((hnarrows.fetched_perm hsingle).append_left _)

namespace Library

/-- The catalogue with an unsaved article put to the first author. -/
def drafting (articles : List Record) : Graph MemoryStore :=
  (Model.put ⟨0⟩ "articles" ⟨2⟩ (Model.forgeNew session "article" (catalogue article articles)).2).2

theorem reachable_drafting (articles : List Record)
    (hthere : (Model.forgeNew session "article" (catalogue article articles)).2.HasModel ⟨0⟩ ∧
      (Model.forgeNew session "article" (catalogue article articles)).2.HasModel ⟨2⟩) :
    Graph.Reachable MemoryStore.Filed (drafting articles) :=
  .call (.call (reachable_catalogue wellFormed_article articles) (.forgeNew _ _))
    (.connect hthere.1 hthere.2 _)

/-- The first author has two stored articles beside the unsaved one. -/
def stacked : Graph MemoryStore :=
  drafting [signed "cells" "Cells" ["ann"] .single, signed "trees" "Trees" ["ann"] .single]

/-- The graph after the articles were fetched for both authors. -/
def readWith (callers : Option Query) (g : Graph MemoryStore) : Graph MemoryStore :=
  (fetchRelationship session both "articles" callers g).2

theorem returns_readWith (callers : Option Query) {g : Graph MemoryStore}
    (h : (@fetchRelationship MemoryStore MemoryStore.brief session both "articles" callers
      g).1.isOk = true) :
    Returns (fetchRelationship session both "articles" callers) g () (readWith callers g) := by
  refine returns_of_isOk ?_ ()
  rw [fetchRelationship_brief]
  exact h

/-- Pages of one title or the other, by the logic of a caller. -/
def twoTitles : Query :=
  { Query.ofBundle "node" "page" with
    conditions := [.eq "title" (.text "Cells"), .eq "title" (.text "Roots")]
    logic := some "OR(1,2)" }

/-- The unsaved article stays, and of the others the author gets those that are asked for; that
the caller's own query is for pages does not matter. -/
theorem shelf_filtered :
    Returns (fetchRelationship session both "articles" none) stacked () (readWith none stacked) ∧
      Returns (fetchRelationship session both "articles" (some twoTitles)) stacked ()
        (readWith (some twoTitles) stacked) ∧
      readBy (readWith none stacked) ⟨0⟩ = [none, some "cells", some "trees"] ∧
      readBy (readWith (some twoTitles) stacked) ⟨0⟩ = [none, some "cells"] ∧
      ∃ r, stacked.registry.resolve "author" "articles" = .ok r ∧ ∀ m ∈ both,
        ∃ fetched : List Record,
          ((readWith none stacked).loaded m "articles").Perm (stacked.kept m r ++ fetched) ∧
          ((readWith (some twoTitles) stacked).loaded m "articles").Perm
            (stacked.kept m r ++ fetched.filter twoTitles.meetsCallers) ∧
          ∀ x ∈ fetched, x.isNew = false := by
  have hsound : Graph.Sound MemoryStore.Filed stacked :=
    (reachable_drafting _ (by decide +kernel)).sound MemoryStore.keeps_filed
  have hplain := returns_readWith none (g := stacked) (by decide +kernel)
  have hfiltered := returns_readWith (some twoTitles) (g := stacked) (by decide +kernel)
  have hresolved := eq_ok_of_isOk (x := stacked.registry.resolve "author" "articles")
    (by decide +kernel) default
  have htype : ∀ m ∈ both, (stacked.model m).modelType.name = "author" := by
    decide +kernel
  have hholds :
      ((stacked.registry.resolve "author" "articles").toOption.getD default).holdsSingle =
      false := by
    decide +kernel
  refine ⟨hplain, hfiltered, ?_, ?_, _, hresolved, fun m hm => ?_⟩
  · rw [readWith, fetchRelationship_brief]
    decide +kernel
  · rw [readWith, fetchRelationship_brief]
    decide +kernel
  · exact fetchRelationship_filters hsound.wellFormed hsound.store (by decide +kernel)
      (by decide +kernel) (by decide) (by decide +kernel) rfl rfl hplain hfiltered m hm _
      (htype m hm ▸ hresolved) fun hsingle => absurd (hsingle.symm.trans hholds) (by simp)

/-- An article is stored under the identifier that reads like the key of the unsaved one. -/
def clash : Graph MemoryStore := drafting [signed "PLH1" "Cells" ["ann"] .single]

/-- Articles that are not there. -/
def untitled : Query := (Query.new "node").addCondition (.eq "title" (.text "Seas"))

/-- There the plain fetch puts the stored article in the place of the unsaved one, which stays if
the caller's query leaves the stored one out. -/
theorem clash_not_kept_alike : Graph.Reachable MemoryStore.Filed clash ∧
    Returns (fetchRelationship session both "articles" none) clash () (readWith none clash) ∧
    Returns (fetchRelationship session both "articles" (some untitled)) clash ()
      (readWith (some untitled) clash) ∧
    readBy clash ⟨0⟩ = [none] ∧
    readBy (readWith none clash) ⟨0⟩ = [some "PLH1"] ∧
    readBy (readWith (some untitled) clash) ⟨0⟩ = [none] := by
  refine ⟨reachable_drafting _ (by decide +kernel), returns_readWith _ (by decide +kernel),
    returns_readWith _ (by decide +kernel), by decide +kernel, ?_, ?_⟩
  · rw [readWith, fetchRelationship_brief]
    decide +kernel
  · rw [readWith, fetchRelationship_brief]
    decide +kernel

end Library

end RecordGraph
