/-
# What is fetched and what is attached

A fetch notes its queries type by type. Of the records that the queries of a type bring back,
exactly those are attached to a member that are dealt to it by the text of an identifier, so a
record can be fetched that is attached to nobody: its key or its bundle may spell a number in
another way than what it is compared with. Where comparing goes no further than reading, no
record is dropped.
-/
import RecordGraph.Proofs.Fetching.Dealing

namespace RecordGraph

namespace Fetching

variable {σ : Type} {g now next : Graph MemoryStore} {members group done : List Model}
  {s : Session} {name : String} {callers : Option Query}
  {turns : List (ModelType × List StoreQuery)}

/-- The members of a type. -/
def ofType (g : Graph σ) (members : List Model) (t : ModelType) : List Model :=
  members.filter fun m => (g.model m).modelType.name = t.name

/-- The state of a fetch when some members have had their turn. For each type that had one, in
order, it is said which queries were noted meanwhile, and what became of their answers. -/
structure Dealing (g now : Graph MemoryStore) (s : Session) (name : String)
    (callers : Option Query) (members done : List Model)
    (turns : List (ModelType × List StoreQuery)) : Prop where
  sound : now.Sound MemoryStore.Filed
  spares : g.Spares now done
  records : now.store.records = g.store.records
  executed : now.store.executed = g.store.executed ++ turns.flatMap Prod.snd
  past : ∀ turn ∈ turns, ∀ m ∈ ofType g members turn.1, m ∈ done
  deals : ∀ turn ∈ turns, ∃ plan, Planned g.registry s turn.1 name callers plan ∧
    plan.Deals g now (ofType g members turn.1)
      (turn.2.flatMap (g.store.returned plan.query.query.entityType))
  covers : ∀ m ∈ done, (g.model m).modelType.hasRelationship name = true →
    ∃ turn ∈ turns, turn.1 = (g.model m).modelType

/-- A group is left out whose type does not declare the relationship. -/
theorem Dealing.skip (hdone : Dealing g now s name callers members done turns)
    (hundeclared : ∀ m ∈ group, (g.model m).modelType.hasRelationship name = false) :
    Dealing g now s name callers members (done ++ group) turns where
  sound := hdone.sound
  spares := hdone.spares.mono fun _ hm => List.mem_append_left _ hm
  records := hdone.records
  executed := hdone.executed
  past turn hturn m hm := List.mem_append_left _ (hdone.past turn hturn m hm)
  deals := hdone.deals
  covers m hm hdeclared := by
    rcases List.mem_append.mp hm with hm | hm
    · exact hdone.covers m hm hdeclared
    · rw [hundeclared m hm] at hdeclared
      cases hdeclared

/-- A group that was fetched for has had its turn, and takes nothing from the others. -/
theorem Dealing.add {u : ModelType} {plan : Plan} {asked : List StoreQuery} (hg : g.WellFormed)
    (hmembers : ∀ m ∈ members, g.HasModel m)
    (hdone : Dealing g now s name callers members done turns)
    (hgroup : group = ofType g members u) (htypes : ∀ m ∈ group, (g.model m).modelType = u)
    (hdisjoint : ∀ m ∈ done, m ∉ group) (hsound : next.Sound MemoryStore.Filed)
    (hspares : now.Spares next group) (hrecords : next.store.records = now.store.records)
    (hexecuted : next.store.executed = now.store.executed ++ asked)
    (hplan : Planned g.registry s u name callers plan)
    (hdeals : plan.Deals now next group
      (asked.flatMap (g.store.returned plan.query.query.entityType))) :
    Dealing g next s name callers members (done ++ group) (turns ++ [(u, asked)]) where
  sound := hsound
  spares := hdone.spares.trans hspares
  records := hrecords.trans hdone.records
  executed := by
    rw [hexecuted, hdone.executed, List.flatMap_append, List.flatMap_singleton,
      List.append_assoc]
  past turn hturn m hm := by
    rcases List.mem_append.mp hturn with hturn | hturn
    · exact List.mem_append_left _ (hdone.past turn hturn m hm)
    · rw [List.mem_singleton.mp hturn, ← hgroup] at hm
      exact List.mem_append_right _ hm
  deals turn hturn := by
    have hthere : ∀ {v : ModelType}, ∀ m ∈ ofType g members v, g.HasModel m := fun m hm =>
      hmembers m (List.mem_filter.mp hm).1
    rcases List.mem_append.mp hturn with hturn | hturn
    · obtain ⟨earlier, hearlier, hdealt⟩ := hdone.deals turn hturn
      refine ⟨earlier, hearlier, hdealt.of_spares hg hdone.sound.wellFormed (.refl g) hspares
        (fun m hm => ⟨hthere m hm, by simp⟩) fun m hm => ?_⟩
      exact ⟨hdone.spares.hasModel (hthere m hm), hdisjoint m (hdone.past turn hturn m hm)⟩
    · rw [List.mem_singleton.mp hturn]
      subst hgroup
      exact ⟨plan, hplan, hdeals.of_spares hg hsound.wellFormed hdone.spares (.refl next)
        (fun m hm => ⟨hthere m hm, fun hmem => hdisjoint m hmem hm⟩)
        fun m hm => ⟨hspares.hasModel (hdone.spares.hasModel (hthere m hm)), by simp⟩⟩
  covers m hm hdeclared := by
    rcases List.mem_append.mp hm with hm | hm
    · obtain ⟨turn, hturn, htype⟩ := hdone.covers m hm hdeclared
      exact ⟨turn, List.mem_append_left _ hturn, htype⟩
    · exact ⟨(u, asked), by simp, (htypes m hm).symm⟩

/-- The turn of a group hands out what is dealt to its members. -/
theorem Dealing.of_turn {typeName : String} {count : Nat} {b : Bool} (hg : g.WellFormed)
    (hmembers : ∀ m ∈ members, g.HasModel m) (hnodup : members.Nodup)
    (hids : g.DistinctIds members)
    (hgroup : group = members.filter fun m => (g.model m).modelType.name = typeName)
    (hdone : Dealing g now s name callers members done turns)
    (hdisjoint : ∀ m ∈ done, m ∉ group)
    (hturn : Returns (turn s name callers count (typeName, group)) now b next) :
    ∃ turns, Dealing g next s name callers members (done ++ group) turns := by
  have hin : ∀ m ∈ group, m ∈ members := fun m hm => (List.mem_filter.mp (hgroup ▸ hm)).1
  obtain ⟨hsound, hmodel, u, rfl, hu, htypes, ⟨rfl, hundeclared⟩ | hfetch⟩ :=
    turn_cases hg hmembers hgroup hdone.sound hdone.spares hdisjoint hturn
  · exact ⟨turns, hdone.skip fun m hm => by rw [htypes m hm, hundeclared]⟩
  · obtain ⟨plan, hplan, hparent, hchild⟩ := returns_fetchGroup hfetch
    have hgroupIds : g.DistinctIds group := fun m hm n hn => hids m (hin m hm) n (hin n hn)
    obtain ⟨hspares, answers, hnoted, hdeals⟩ := hplan.deals_group hdone.sound.wellFormed
      hdone.sound.store hu (fun m hm => hmodel m hm ▸ htypes m hm) (hgroup ▸ hnodup.filter _)
      (fun m hm => hdone.spares.hasModel (hmembers m (hin m hm))) (hgroupIds.of_model_eq hmodel)
      hparent hchild
    obtain ⟨asked, hasked, rfl⟩ := hnoted.executed
    rw [MemoryStore.returned_of_records hdone.records] at hdeals
    exact ⟨_, hdone.add hg hmembers hgroup htypes hdisjoint hsound hspares hnoted.records hasked
      (hdone.spares.registry ▸ hplan) hdeals⟩

end Fetching

open Fetching

variable {g g' : Graph MemoryStore} {s : Session} {members : List Model} {name : String}
  {callers : Option Query}

/-- What a fetch brings back and what it hands out. It notes its queries type by type; every
member of a type that declares the relationship has its turn. With the records that the queries
of a type bring back, each member of the type has exactly those attached that are dealt to it, by
the text of identifiers; and every one of these records that can be told so is attached to some
member. -/
theorem fetchRelationship_deals (hg : g.WellFormed) (hfiled : g.store.Filed)
    (hmembers : ∀ m ∈ members, g.HasModel m) (hnodup : members.Nodup)
    (hids : g.DistinctIds members)
    (h : Returns (fetchRelationship s members name callers) g () g') :
    ∃ turns : List (ModelType × List StoreQuery),
      g'.store.executed = g.store.executed ++ turns.flatMap Prod.snd ∧
      (∀ m ∈ members, (g.model m).modelType.hasRelationship name = true →
        ∃ turn ∈ turns, turn.1 = (g.model m).modelType) ∧
      ∀ turn ∈ turns, ∃ plan, Planned g.registry s turn.1 name callers plan ∧
        plan.Deals g g' (ofType g members turn.1)
          (turn.2.flatMap (g.store.returned plan.query.query.entityType)) := by
  obtain ⟨groups, declared, hgroups, hrun⟩ := returns_fetchRelationship h
  obtain ⟨turns, hall⟩ : ∃ turns, Dealing g g' s name callers members
      (groups.entries.flatMap Prod.snd) turns := by
    refine hrun.mapM_invariant (fun done _ now => ∃ turns,
      Dealing g now s name callers members (done.flatMap Prod.snd) turns)
      ⟨[], ⟨hg, hfiled⟩, .refl g, rfl, by simp, by simp, by simp, by simp⟩ ?_
    rintro done ⟨typeName, group⟩ rest - now b next hsplit ⟨turns, hdone⟩ hturn
    rw [List.flatMap_append, List.flatMap_singleton]
    exact hdone.of_turn hg hmembers hnodup hids
      (eq_filter_of_mem_groups hgroups (by simp [hsplit]))
      (fun m hm => not_mem_of_mem_earlier hgroups hsplit hm) hturn
  exact ⟨turns, hall.executed,
    fun m hm => hall.covers m ((mem_flatMap_groups hgroups).mpr hm), hall.deals⟩

namespace Library

/-- A graph over some records in which one of them has a model. -/
def issued (types : List ModelType) (rs : List Record) (typeName id : String) :
    Graph MemoryStore :=
  let g := (Session.start Config.standard (Graph.new (filled rs) (registry types))).2
  (Model.forgeById session typeName id g).2

theorem reachable_issued {types : List ModelType} (htypes : ∀ t ∈ types, t.WellFormed)
    (rs : List Record) (typeName id : String) :
    Graph.Reachable MemoryStore.Filed (issued types rs typeName id) :=
  .call (.call (.new (filed_filled rs) (wellFormed_registry htypes)) (.start _))
    (.forgeById _ _ _)

/-- The graph after a relationship was fetched for this model. -/
def sought (g : Graph MemoryStore) (name : String) : Graph MemoryStore :=
  (fetchRelationship session [⟨0⟩] name none g).2

/-- What the relationship of this model amounts to. -/
def sense (g : Graph MemoryStore) (name : String) : Resolved :=
  (g.registry.resolve (g.model ⟨0⟩).modelType.name name).toOption.getD default

/-- An author with the number one, an article that refers to this author, and an article that
spells the number in another way. -/
def numbered : Graph MemoryStore :=
  issued [author, article] [(Record.new "node" "author").withId "1",
    signed "cells" "Cells" ["1"] .single, signed "roots" "Roots" ["01"] .single] "author" "1"

theorem reachable_numbered : Graph.Reachable MemoryStore.Filed numbered :=
  reachable_issued (by simp [wellFormed_author, wellFormed_article]) _ _ _

/-- The article that refers to the author as the number is spelled can be told, and is attached. -/
theorem numbered_deals :
    Returns (fetchRelationship session [⟨0⟩] "articles" none) numbered ()
        (sought numbered "articles") ∧
      ((sought numbered "articles").attached ⟨0⟩ (sense numbered "articles")).map Record.id =
        [some "cells"] ∧
      ∃ (asked : List StoreQuery) (plan : Plan),
        Planned numbered.registry session author "articles" none plan ∧
        plan.Deals numbered (sought numbered "articles") [⟨0⟩]
          (asked.flatMap (numbered.store.returned plan.query.query.entityType)) ∧
        plan.Told numbered [⟨0⟩] (signed "cells" "Cells" ["1"] .single) := by
  have hsound := reachable_numbered.sound MemoryStore.keeps_filed
  have hfetch : Returns (fetchRelationship session [⟨0⟩] "articles" none) numbered ()
      (sought numbered "articles") := by
    refine returns_of_isOk ?_ ()
    rw [fetchRelationship_brief]
    decide +kernel
  have hattached : ((sought numbered "articles").attached ⟨0⟩ (sense numbered "articles")).map
      Record.id = [some "cells"] := by
    rw [sought, fetchRelationship_brief]
    decide +kernel
  obtain ⟨turns, -, hcovers, hdeals⟩ := fetchRelationship_deals hsound.wellFormed hsound.store
    (by decide +kernel) (by decide) (by decide +kernel) hfetch
  obtain ⟨⟨t, asked⟩, hturn, htype⟩ := hcovers ⟨0⟩ (by simp) (by decide +kernel)
  obtain ⟨plan, hplan, hdealt⟩ := hdeals _ hturn
  obtain rfl : t = author := htype
  refine ⟨hfetch, hattached, asked, plan, hplan, hdealt, ?_⟩
  have hsense : numbered.registry.resolve author.name "articles" =
      .ok (sense numbered "articles") := eq_ok_of_isOk (by decide +kernel) default
  have hresolved : plan.resolved = sense numbered "articles" :=
    Except.ok.inj (hplan.resolved.symm.trans hsense)
  obtain ⟨relationship, q, hrelationship, hq, -, hquery⟩ := hplan.declared
  obtain ⟨far, -, -, rfl⟩ := Registry.relationshipQuery_of_child hsound.wellFormed.registry
    hplan.resolved (by rw [hresolved]; decide +kernel) rfl hrelationship hq
  refine ⟨?_, ?_, ?_⟩
  · rw [Plan.wraps, hquery]
    rfl
  · simp only [Plan.path, Plan.asksFor, hresolved]
    decide +kernel
  · rw [hresolved]
    decide +kernel

/-- When the relationship is fetched for the model, which is stored, a record comes back that is
not attached to it. -/
structure Drops (g : Graph MemoryStore) (name : String) (r : Record) : Prop where
  reachable : Graph.Reachable MemoryStore.Filed g
  saved : (g.model ⟨0⟩).record.isNew = false
  unasked : g.store.executed = []
  returns : Returns (fetchRelationship session [⟨0⟩] name none) g () (sought g name)
  returned : ∃ q ∈ (sought g name).store.executed, r ∈ g.store.returned r.entityType q
  dropped : r ∉ (sought g name).attached ⟨0⟩ (sense g name)

/-- That a record is dropped can be evaluated. -/
def dropsBriefly (g : Graph MemoryStore) (name : String) (r : Record) : Bool :=
  let run := @fetchRelationship MemoryStore MemoryStore.brief session [⟨0⟩] name none g
  run.1.isOk && !(g.model ⟨0⟩).record.isNew && g.store.executed.isEmpty &&
    run.2.store.executed.any (fun q =>
      q.entityType = r.entityType && q.range.isNone && q.root.holds r) &&
    ((run.2.attached ⟨0⟩ (sense g name)).map Record.id).all (· ≠ r.id)

theorem drops_of_brief {g : Graph MemoryStore} {name : String} {r : Record}
    (hreachable : Graph.Reachable MemoryStore.Filed g)
    (hstored : r ∈ (g.store.recordsOf r.entityType).values)
    (h : dropsBriefly g name r = true) : Drops g name r := by
  simp only [dropsBriefly, ← fetchRelationship_brief, Bool.and_eq_true, Bool.not_eq_true',
    List.isEmpty_iff, List.any_eq_true, List.all_eq_true, decide_eq_true_eq,
    Option.isNone_iff_eq_none] at h
  obtain ⟨⟨⟨⟨hok, hsaved⟩, hunasked⟩, q, hq, ⟨hentity, hrange⟩, hroot⟩, hdropped⟩ := h
  refine ⟨hreachable, hsaved, hunasked, returns_of_isOk hok (), ⟨q, hq, ?_⟩, fun hmem => ?_⟩
  · have hfiled := (hreachable.sound MemoryStore.keeps_filed).store
    rw [← hentity, hfiled.returned_eq, StoreQuery.slice, hrange, MemoryStore.select,
      List.mem_mergeSort, List.mem_filter, hentity]
    exact ⟨hstored, hroot⟩
  · exact hdropped r.id (List.mem_map.mpr ⟨r, hmem, rfl⟩) rfl

/-- An article with two writers where there is room for one author. -/
def cosigned : Graph MemoryStore :=
  issued [author, article] [(Record.new "node" "author").withId "ann",
    (Record.new "node" "author").withId "bob", signed "cells" "Cells" ["ann", "bob"] .multiple]
    "article" "cells"

/-- The first volume of a work. -/
def first : ModelType := ModelType.new "first" "node" "1"

/-- The second volume of a work. -/
def second : ModelType := ModelType.new "second" "node" "2"

/-- A review of any volume. -/
def review : ModelType :=
  (ModelType.new "review" "node" "review").declare
    (.polymorphicField "volume" "of" ["first", "second"])

/-- A review of a volume whose bundle spells the number in another way. -/
def misfiled : Graph MemoryStore :=
  issued [first, second, review] [(Record.new "node" "01").withId "cells",
    ((Record.new "node" "review").withId "praise").setReferenceIds "of" "target_id" ["cells"]
      .single] "review" "praise"

/-- Records come back that are attached to nobody: a key or a bundle that spells a number in
another way compares with it, and of two authors one has no room. -/
theorem spellings_drop :
    Drops numbered "articles" (signed "roots" "Roots" ["01"] .single) ∧
      Drops cosigned "author" ((Record.new "node" "author").withId "ann") ∧
      Drops misfiled "volume" ((Record.new "node" "01").withId "cells") := by
  have hreview : review.WellFormed := (ModelType.wellFormed_new _ _ _).declare _
  refine ⟨drops_of_brief reachable_numbered ?_ (by decide +kernel),
    drops_of_brief (reachable_issued (by simp [wellFormed_author, wellFormed_article]) _ _ _) ?_
      (by decide +kernel),
    drops_of_brief (reachable_issued ?_ _ _ _) ?_ (by decide +kernel)⟩
  · exact OrderedMap.mem_values_iff.mpr ⟨"roots", rfl⟩
  · exact OrderedMap.mem_values_iff.mpr ⟨"ann", rfl⟩
  · simp [first, second, hreview, ModelType.wellFormed_new]
  · exact OrderedMap.mem_values_iff.mpr ⟨"cells", rfl⟩

end Library

end RecordGraph
