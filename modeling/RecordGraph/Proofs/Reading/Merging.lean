/-
# What reading a collection merges

Reading a collection under a name puts what its members have loaded there into one new collection,
member by member: what they hold now into its members, what they were loaded with into its
snapshot, each model under its key. Of several models of one key the last one stays, at the place of
the first. The two maps are filled independently, so the difference between them, which is what
saving the new collection deletes, can be read off the two lists that they are filled from.

No query is made, and nothing is assumed of the store or of how the members came to hold what they
hold.
-/
import RecordGraph.Proofs.Fetching.Transparency
import RecordGraph.Proofs.Reading.Answers
import RecordGraph.Proofs.Saving.Children

namespace RecordGraph

variable {σ α : Type}

/-! ## What the members have loaded -/

namespace Graph

variable (g : Graph σ)

/-- The models that a model has loaded under a name. -/
def currentUnder (name : String) (m : Model) : List Model :=
  if (g.model m).modelType.holdsSingle name then ((g.model m).parents.get? name).toList
  else ((g.model m).children.get? name).elim [] fun c => (g.collection c).members.values

/-- The models that a model was loaded with under a name: those in the snapshot of its collection.
A single parent is taken for its own snapshot. -/
def originalsUnder (name : String) (m : Model) : List Model :=
  if (g.model m).modelType.holdsSingle name then ((g.model m).parents.get? name).toList
  else ((g.model m).children.get? name).elim [] fun c => (g.collection c).snapshot.values

/-- The members that take part when a collection is read under a name. -/
def readers (d : CollectionData) (name : String) : List Model :=
  d.members.values.filter fun m =>
    !(d.isPolymorphic && !(g.model m).modelType.hasRelationship name)

end Graph

/-- The models that would come into a snapshot. -/
def Content.originals : Content → List Model
  | .none => []
  | .model m => [m]
  | .collection d => d.snapshot.values

namespace Graph

variable {g : Graph σ} {d d' : CollectionData} {m : Model} {y : Content} {name : String}

/-- Looking under a name finds what the model has loaded. -/
theorem models_of_look (hg : g.WellFormed) (hm : g.HasModel m) (h : g.look m name = .ok y) :
    y.models = g.currentUnder name m ∧ y.originals = g.originalsUnder name m := by
  simp only [look, except_bind_eq_ok] at h
  obtain ⟨r, hresolve, h⟩ := h
  rw [currentUnder, originalsUnder, hg.holdsSingle_eq hm hresolve]
  split at h
  · rename_i hsingle
    rw [if_pos hsingle, if_pos hsingle]
    split at h
    · rename_i p hp
      obtain rfl := Except.ok.inj h
      rw [hp]
      exact ⟨rfl, rfl⟩
    · rename_i hnone
      obtain rfl := Except.ok.inj h
      rw [hnone]
      exact ⟨rfl, rfl⟩
  · rename_i hmany
    rw [if_neg hmany, if_neg hmany]
    split at h
    · rename_i c hc
      obtain rfl := Except.ok.inj h
      rw [hc]
      exact ⟨rfl, rfl⟩
    · rename_i hnone
      simp only [blankFor, except_bind_eq_ok, except_pure_eq_ok] at h
      obtain ⟨_, ⟨_, -, rfl⟩, rfl⟩ := h
      rw [hnone]
      exact ⟨rfl, rfl⟩

/-! ## What is merged -/

/-- The models were filed by their keys, some among the members and some in the snapshot. -/
structure Filled (g : Graph σ) (d : CollectionData) (current originals : List Model)
    (d' : CollectionData) : Prop where
  members : d'.members = d.members.insertAll (fun x => (g.model x).key) current
  snapshot : d'.snapshot = d.snapshot.insertAll (fun x => (g.model x).key) originals

theorem Filled.refl (g : Graph σ) (d : CollectionData) : g.Filled d [] [] d := ⟨rfl, rfl⟩

theorem Filled.trans {e : CollectionData} {current originals more others : List Model}
    (first : g.Filled d current originals d') (second : g.Filled d' more others e) :
    g.Filled d (current ++ more) (originals ++ others) e where
  members := by rw [OrderedMap.insertAll_append, ← first.members, second.members]
  snapshot := by rw [OrderedMap.insertAll_append, ← first.snapshot, second.snapshot]

theorem filled_of_joined (h : g.joined d m = .ok d') : g.Filled d [m] [] d' := by
  obtain ⟨membership, rfl⟩ := CollectionData.eq_of_taking h
  exact ⟨rfl, rfl⟩

theorem filled_of_noted (h : g.noted d m = .ok d') : g.Filled d [] [m] d' := by
  obtain ⟨membership, rfl⟩ := CollectionData.eq_of_taking h
  exact ⟨rfl, rfl⟩

theorem filled_of_fetched (h : g.fetched d m = .ok d') : g.Filled d [m] [m] d' := by
  obtain ⟨membership, rfl⟩ := CollectionData.eq_of_taking h
  exact ⟨rfl, rfl⟩

/-- A fold whose every turn files some models files all of them. -/
theorem filled_of_foldlM {f : CollectionData → α → Except Error CollectionData} {xs : List α}
    (current originals : α → List Model) (h : xs.foldlM f d = .ok d')
    (turn : ∀ x ∈ xs, ∀ e e', f e x = .ok e' → g.Filled e (current x) (originals x) e') :
    g.Filled d (xs.flatMap current) (xs.flatMap originals) d' := by
  induction xs generalizing d with
  | nil => exact Except.ok.inj h ▸ .refl g d
  | cons x rest ih =>
      rw [List.foldlM_cons, except_bind_eq_ok] at h
      obtain ⟨e, hfirst, hrest⟩ := h
      exact (turn x (by simp) d e hfirst).trans (ih hrest fun z hz => turn z (by simp [hz]))

/-- Merging files the models that are looked at. -/
theorem filled_of_merged (h : g.merged d y = .ok d') : g.Filled d y.models y.originals d' := by
  cases y with
  | none => exact Except.ok.inj h ▸ .refl g d
  | model m => exact filled_of_fetched h
  | collection other =>
      simp only [merged, except_bind_eq_ok] at h
      obtain ⟨e, hjoined, hnoted⟩ := h
      have hfirst := filled_of_foldlM ([·]) (fun _ => []) hjoined
        fun x _ _ _ => filled_of_joined
      have hsecond := filled_of_foldlM (fun _ => []) ([·]) hnoted
        fun x _ _ _ => filled_of_noted
      have hnone : ∀ xs : List Model, xs.flatMap (fun _ => ([] : List Model)) = [] := fun xs =>
        List.flatMap_eq_nil_iff.mpr fun _ _ => rfl
      simpa [hnone, Content.models, Content.originals] using hfirst.trans hsecond

/-- What is merged of a collection: the models of all that take part. -/
theorem filled_of_lookAll (hg : g.WellFormed) (hmembers : ∀ m ∈ d.members.values, g.HasModel m)
    (h : g.lookAll d name = .ok d') :
    d'.members = OrderedMap.empty.insertAll (fun x => (g.model x).key)
        ((g.readers d name).flatMap (g.currentUnder name)) ∧
      d'.snapshot = OrderedMap.empty.insertAll (fun x => (g.model x).key)
        ((g.readers d name).flatMap (g.originalsUnder name)) := by
  obtain ⟨blank, hblank, hmerged⟩ := except_bind_eq_ok.mp h
  have hempty : blank.members = OrderedMap.empty ∧ blank.snapshot = OrderedMap.empty := by
    unfold emptyFor at hblank
    split at hblank
    · simp only [blankFor, except_bind_eq_ok, except_pure_eq_ok] at hblank
      obtain ⟨_, -, _, -, rfl⟩ := hblank
      exact ⟨rfl, rfl⟩
    · obtain rfl := Except.ok.inj hblank
      exact ⟨rfl, rfl⟩
  have hfilled := filled_of_foldlM (g := g)
    (fun m => if !(d.isPolymorphic && !(g.model m).modelType.hasRelationship name)
      then g.currentUnder name m else [])
    (fun m => if !(d.isPolymorphic && !(g.model m).modelType.hasRelationship name)
      then g.originalsUnder name m else []) hmerged fun m hm e e' hturn => by
    split at hturn
    · rename_i hleft
      rw [hleft]
      exact Except.ok.inj hturn ▸ .refl g e
    · rename_i htakes
      obtain ⟨y, hlook, hmerge⟩ := except_bind_eq_ok.mp hturn
      obtain ⟨hmodels, horiginals⟩ := models_of_look hg (hmembers m hm) hlook
      rw [Bool.not_eq_true] at htakes
      rw [htakes, ← hmodels, ← horiginals]
      exact filled_of_merged hmerge
  rw [readers, flatMap_filter, flatMap_filter]
  exact ⟨hempty.1 ▸ hfilled.members, hempty.2 ▸ hfilled.snapshot⟩

end Graph

/-! ## What is left of the snapshot -/

namespace CollectionData

variable {d : CollectionData} {x : Model}

/-- A model is removed if it stands in the snapshot under a key that no member has. -/
theorem mem_removed_iff :
    x ∈ d.removed ↔ ∃ key, d.snapshot.get? key = some x ∧ key ∉ d.members.keys := by
  simp only [removed, List.mem_map, List.mem_filter, Prod.exists, exists_eq_right,
    Bool.not_eq_true', ← Bool.not_eq_true, OrderedMap.contains_iff_mem_keys,
    OrderedMap.get?_eq_some_iff]

/-- If the snapshot has every model under its own key, the removed ones have different keys. -/
theorem nodup_keys_removed {key : Model → String}
    (h : ∀ k x, d.snapshot.get? k = some x → key x = k) : (d.removed.map key).Nodup := by
  have hkeys : d.removed.map key =
      (d.snapshot.entries.filter fun e => !d.members.contains e.1).map Prod.fst := by
    rw [removed, List.map_map]
    refine List.map_congr_left fun e he => ?_
    exact h e.1 e.2 (OrderedMap.get?_eq_some_iff.mpr (List.mem_filter.mp he).1)
  rw [hkeys]
  exact d.snapshot.distinct.sublist (List.filter_sublist.map Prod.fst)

end CollectionData

/-- Two maps are filled, one with the current models and one with the original ones, each under its
key. Of the latter those are removed that are the last ones of their key, which no current one
has. -/
theorem mem_removed_of_filled {d : CollectionData} {key : Model → String}
    {current originals : List Model} (hmembers : d.members = OrderedMap.empty.insertAll key current)
    (hsnapshot : d.snapshot = OrderedMap.empty.insertAll key originals) (x : Model) :
    x ∈ d.removed ↔ (originals.filter fun y => key y = key x).getLast? = some x ∧
      ∀ y ∈ current, key y ≠ key x := by
  rw [CollectionData.mem_removed_iff, hmembers, hsnapshot, OrderedMap.keys_insertAll_empty]
  simp only [OrderedMap.get?_insertAll, OrderedMap.get?_empty, Option.or_none, mem_distinct,
    List.mem_map, not_exists, not_and]
  constructor
  · rintro ⟨k, hlast, hnone⟩
    obtain rfl : key x = k := by
      simpa using (List.mem_filter.mp (List.mem_of_getLast? hlast)).2
    exact ⟨hlast, hnone⟩
  · rintro ⟨hlast, hnone⟩
    exact ⟨key x, hlast, hnone⟩

/-! ## Reading -/

section Read

variable {g g' : Graph σ} {c result : Collection} {name : String}

/-- Reading a collection leaves the graph but for empty collections, and answers what merging
gives. -/
theorem Collection.lookAll_of_read (hg : g.WellFormed) (hc : g.HasCollection c)
    (h : Returns (c.read name) g result g') : ∃ asked, g.OnlyOpens asked g' ∧
      g.lookAll (g.collection c) name = .ok (g'.collection result) := by
  obtain ⟨d, hlook, hcollects⟩ := (Collection.mirrors_read hg (.refl hg fun _ _ => True)
    (hg.within_content (r := .collection c) hc) fun _ _ => trivial).answers result g' h
  exact ⟨_, hcollects.opens, hlook.trans (congrArg _ hcollects.holds.symm)⟩

/-- Reading a collection of one type keeps apart what is held and what is to be deleted. The keys of
what it answers are those of the models that the members have loaded, each once, in the order in
which they first occur. To be deleted is, for each key that none of these models has, the last model
of the key in the snapshots of the members, if it is stored; so there is one at most for a key, and
none of a key that any member still holds. -/
theorem read_keeps_difference (hg : g.WellFormed) (hc : g.HasCollection c)
    (hone : (g.collection c).isPolymorphic = false) (h : Returns (c.read name) g result g')
    {current originals : List Model}
    (hcurrent : current = (g.collection c).members.values.flatMap (g.currentUnder name))
    (horiginals : originals = (g.collection c).members.values.flatMap (g.originalsUnder name)) :
    (g'.collection result).members.keys = distinct (current.map fun x => (g.model x).key) ∧
    ∃ gone, Returns result.modelsToDelete g' gone g' ∧
      (gone.map fun x => (g.model x).key).Nodup ∧
      ∀ x, x ∈ gone ↔ (g.model x).record.isNew = false ∧
        (originals.filter fun y => (g.model y).key = (g.model x).key).getLast? = some x ∧
        ∀ y ∈ current, (g.model y).key ≠ (g.model x).key := by
  obtain ⟨asked, hopens, hlook⟩ := Collection.lookAll_of_read hg hc h
  have hall : g.readers (g.collection c) name = (g.collection c).members.values := by
    simp [Graph.readers, hone]
  obtain ⟨hmembers, hsnapshot⟩ := Graph.filled_of_lookAll hg (fun m => hg.member hc) hlook
  rw [hall] at hmembers hsnapshot
  rw [← hcurrent] at hmembers
  rw [← horiginals] at hsnapshot
  have hunder : ∀ k x, (g'.collection result).snapshot.get? k = some x → (g.model x).key = k := by
    intro k x hx
    rw [hsnapshot, OrderedMap.get?_insertAll, OrderedMap.get?_empty, Option.or_none] at hx
    simpa using (List.mem_filter.mp (List.mem_of_getLast? hx)).2
  refine ⟨by rw [hmembers, OrderedMap.keys_insertAll_empty], _, g'.returns_removedStored result,
    ?_, fun x => ?_⟩
  · exact (CollectionData.nodup_keys_removed hunder).sublist (List.filter_sublist.map _)
  · rw [Graph.removedStored, List.mem_filter, mem_removed_of_filled hmembers hsnapshot,
      hopens.model x, Bool.not_eq_true', and_comm]

end Read

namespace Library

/-- The graph with the articles of both authors fetched into a shelf each. -/
def shelves : Graph MemoryStore :=
  let g := (Collection.forgeByIds session "author" ["ann", "bob"] (opened [author, article])).2
  ((Related.collection ⟨0⟩).fetch ["articles"] none g).2

theorem reachable_shelves : Graph.Reachable MemoryStore.Filed shelves := by
  have htypes : ∀ t ∈ [author, article], t.WellFormed := by
    simp [wellFormed_author, wellFormed_article]
  refine .call (.call (reachable_opened htypes) (.forgeByIds _ _ _))
    (.fetch (r := .collection ⟨0⟩) (?_ : Graph.HasCollection _ ⟨0⟩) _ _)
  decide +kernel

/-- The article of the first author was moved to the shelf of the second one, and the article
of the second one was removed. -/
def weeded : Graph MemoryStore :=
  let g := (Collection.put ⟨2⟩ ⟨2⟩ shelves).2
  (Collection.remove ⟨2⟩ "trees" (Collection.remove ⟨1⟩ "cells" g).2).2

theorem reachable_weeded : Graph.Reachable MemoryStore.Filed weeded := by
  refine .call (.call (.call reachable_shelves (.put ?_ ?_)) (.remove ?_ _)) (.remove ?_ _)
  all_goals decide +kernel

/-- The article that was moved stays, and only the other one is to be deleted. -/
theorem weeded_keeps_difference : ∃ result read gone,
    Returns (Collection.read ⟨0⟩ "articles") weeded result read ∧
      (read.collection result).members.keys = ["cells"] ∧
      Returns result.modelsToDelete read gone read ∧ ∀ x, x ∈ gone ↔ x = ⟨3⟩ := by
  have hwf : weeded.WellFormed := (reachable_weeded.sound MemoryStore.keeps_filed).wellFormed
  have hread : Returns (Collection.read ⟨0⟩ "articles") weeded _ _ :=
    returns_of_isOk (by decide +kernel) default
  have hcurrent : [⟨2⟩] = (weeded.collection ⟨0⟩).members.values.flatMap
      (weeded.currentUnder "articles") := by decide +kernel
  have horiginals : [⟨2⟩, ⟨3⟩] = (weeded.collection ⟨0⟩).members.values.flatMap
      (weeded.originalsUnder "articles") := by decide +kernel
  obtain ⟨hkeys, gone, hdelete, -, hgone⟩ := read_keeps_difference hwf (by decide +kernel)
    (by decide +kernel) hread hcurrent horiginals
  refine ⟨_, _, gone, hread, hkeys.trans (by decide +kernel), hdelete, fun x => ?_⟩
  rw [hgone]
  constructor
  · rintro ⟨-, hlast, hother⟩
    have hsnapshot := (List.mem_filter.mp (List.mem_of_getLast? hlast)).1
    rcases List.mem_cons.mp hsnapshot with rfl | hsecond
    · exact absurd rfl (hother _ (by simp))
    · exact List.mem_singleton.mp hsecond
  · rintro rfl
    decide +kernel

/-- The only article is stored under an identifier that reads like a placeholder. It was removed
from the shelf of its author, and an unsaved article was noted in the snapshot of the other shelf. -/
def disguised : Graph MemoryStore :=
  let stored := ["ann", "bob"].map fun id => (Record.new "node" "author").withId id
  let g := Graph.new (filled (stored ++ [written "PLH1" "ann"])) (registry [author, article])
  let g := (Session.start ⟨"PLH", .and, some 1, false⟩ g).2
  let g := (Collection.forgeByIds session "author" ["ann", "bob"] g).2
  let g := ((Related.collection ⟨0⟩).fetch ["articles"] none g).2
  let g := (Model.forgeNew session "article" g).2
  (Collection.remove ⟨1⟩ "PLH1" (Collection.putSnapshot ⟨2⟩ ⟨3⟩ g).2).2

theorem reachable_disguised : Graph.Reachable MemoryStore.Filed disguised := by
  have htypes : ∀ t ∈ [author, article], t.WellFormed := by
    simp [wellFormed_author, wellFormed_article]
  refine .call (.call (.call (.call (.call (.call (.new (filed_filled _)
    (wellFormed_registry htypes)) (.start _)) (.forgeByIds _ _ _))
    (.fetch (r := .collection ⟨0⟩) (?_ : Graph.HasCollection _ ⟨0⟩) _ _)) (.forgeNew _ _))
    (.putSnapshot ?_ ?_)) (.remove ?_ _)
  all_goals decide +kernel

/-- The stored article was in a snapshot and is in no shelf, but the unsaved one with the same key
has taken its place in the merged snapshot, so that it is not to be deleted. -/
theorem disguised_not_deleted : Graph.Reachable MemoryStore.Filed disguised ∧
    (disguised.collection ⟨0⟩).isPolymorphic = false ∧
    ⟨2⟩ ∈ disguised.originalsUnder "articles" ⟨0⟩ ∧ (disguised.model ⟨2⟩).record.isNew = false ∧
    (∀ m ∈ (disguised.collection ⟨0⟩).members.values,
      disguised.currentUnder "articles" m = []) ∧
    ∃ result read, Returns (Collection.read ⟨0⟩ "articles") disguised result read ∧
      Returns result.modelsToDelete read [] read := by
  refine ⟨reachable_disguised, by decide +kernel, by decide +kernel, by decide +kernel,
    by decide +kernel, _, _, returns_of_isOk (by decide +kernel) default, ?_⟩
  have hnone : (Collection.read ⟨0⟩ "articles" disguised).2.removedStored
      ((Collection.read ⟨0⟩ "articles" disguised).1.toOption.getD default) = [] := by
    decide +kernel
  exact hnone ▸ Graph.returns_removedStored _ _

end Library

end RecordGraph
