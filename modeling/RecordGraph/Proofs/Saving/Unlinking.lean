/-
# Taking removed models out of a relationship

Where a relationship does not cascade, saving it stores the models that were removed from the
collection without the identifier of the owner. The owner is taken off the way back first, since
storing a model writes its foreign keys anew from what it has loaded. But only this one owner
object is taken off: a removed model that has loaded another model of the owner's record refers
to the owner again when it is stored.
-/
import RecordGraph.Proofs.Saving.Children
import RecordGraph.Proofs.Upholding.Histories

namespace RecordGraph

namespace Graph

/-- Once the owner is taken off the way back, nothing that the model has loaded along the key is
stored under the identifier. -/
structure LetsGo {σ : Type} (g : Graph σ) (m : Model) (k : ForeignKey) (back : Option String)
    (owner : Model) (id : String) : Prop where
  parent : ∀ name r p, g.registry.resolve (g.model m).modelType.name name = .ok r →
    r.foreignKey = k → r.cardinality = .single → (g.model m).parents.get? name = some p →
    (back = some name ∧ p = owner) ∨ ∃ other, (g.model p).record.id = some other ∧ other ≠ id
  children : ∀ name r e, g.registry.resolve (g.model m).modelType.name name = .ok r →
    r.foreignKey = k → r.cardinality = .multiple → r.side = .parent →
    (g.model m).children.get? name = some e →
    ∀ x ∈ (if back = some name then (g.collection e).members.values.erase owner
      else (g.collection e).members.values),
      ∃ other, (g.model x).record.id = some other ∧ other ≠ id

/-- After the owner was taken off, storing the model leaves the identifier out of the key. -/
theorem LetsGo.syncKeeps {g t between : Graph MemoryStore} {m owner : Model} {k : ForeignKey}
    {back : Option String} {id : String} (h : g.LetsGo m k back owner id)
    (ht : g.Unlinks owner t) (hfrom : t.UnlinkedFrom between m back owner) :
    between.SyncKeeps m k (id ∉ ·) := by
  have hunlinks := ht.trans hfrom.unlinks
  intro name r held ids hresolve hfield hpoints hheld
  rw [hunlinks.registry, hunlinks.modelType m] at hresolve
  by_cases hcolumn : r.foreignKey.column = k.column
  · have hkey : r.foreignKey = k := by
      cases hr : r.foreignKey
      cases k
      simp_all
    rw [if_pos hcolumn]
    suffices hids : id ∉ ids from fun hmem =>
      hids (Cardinality.mem_of_mem_keeps (List.mem_filter.mp hmem).1)
    cases hpoints with
    | @parent p own hsingle hloaded hown =>
        rcases h.parent name r p hresolve hkey hsingle (hunlinks.parents m name p hloaded) with
          ⟨hback, rfl⟩ | ⟨other, hother, hne⟩
        · exact absurd hloaded (hfrom.parent name hback)
        · have hsame := hunlinks.keepsIds.id p other hother
          rw [hown, Option.some.injEq] at hsame
          simpa [hsame] using hne.symm
    | @children e hmultiple hside hloaded hstored =>
        have hloadedLate : (t.model m).children.get? name = some e := by
          rwa [← hfrom.unlinks.children m]
        have hloadedFirst : (g.model m).children.get? name = some e := by
          rwa [← hunlinks.children m]
        have hothers := h.children name r e hresolve hkey hmultiple hside hloadedFirst
        intro hmem
        rcases mem_joinIds.mp hmem with hbefore | hmember
        · exact hheld hkey (List.mem_filter.mp hbefore).1
        · obtain ⟨x, hx, hown⟩ := mem_memberIds.mp hmember
          have hleft : x ∈ (if back = some name then (g.collection e).members.values.erase owner
              else (g.collection e).members.values) := by
            split
            · rename_i hback
              rw [hfrom.members name e hback hloadedLate] at hx
              exact ((ht.values e).erase owner).subset hx
            · exact (hunlinks.values e).subset hx
          obtain ⟨other, hother, hne⟩ := hothers x hleft
          have hsame := hunlinks.keepsIds.id x other hother
          rw [hown, Option.some.injEq] at hsame
          exact hne hsame.symm
  · rw [if_neg hcolumn]
    exact List.not_mem_nil

end Graph

/-- What saving a relationship that does not cascade leaves of a removed model. Nothing is
deleted, and if every removed model that wraps the same record lets the owner go, the record is
stored and its key does not contain the identifier of the owner. -/
theorem save_unlinks_removed {g g' : Graph MemoryStore} {p : Model} {name pid : String}
    {r : Resolved} {declared : Relationship} {c : Collection} (hg : g.WellFormed)
    (hp : g.HasModel p)
    (hresolve : g.registry.resolve (g.model p).modelType.name name = .ok r)
    (hdeclared : (g.model p).modelType.relationship name = .ok declared)
    (hcascades : declared.cascadingDelete = false)
    (hside : r.side = .child) (hplain : r.foreignKey.Plain)
    (hid : (g.model p).record.id = some pid)
    (hloaded : (g.model p).children.get? name = some c)
    (hsave : Returns ((Related.model p).save (some [name])) g () g') :
    g'.store.deleted = g.store.deleted ∧ g'.store.calls.deletes = g.store.calls.deletes ∧
      ∀ m ∈ (g.collection c).removed, ∀ entityType id, g.IsStoredAs m entityType id →
        (∀ n ∈ (g.collection c).removed, g'.SameRecord n m →
          g.LetsGo n r.foreignKey (r.inverseOn? (g.model n).modelType.name) p pid) →
        ∃ record, g'.stored entityType id = some record ∧
          pid ∉ record.referenceIds r.foreignKey.field r.foreignKey.column := by
  have hc := hg.children p name c hp hloaded
  obtain ⟨stamped, saved, last, relationship, hstamped, -, -, -, hmembers, hrelationship, hlast,
    rfl⟩ := Model.returns_saveChildren hplain hg hc
      (Model.returns_save_children hresolve hside hid hloaded hsave)
  obtain rfl : declared = relationship := Except.ok.inj (hdeclared.symm.trans hrelationship)
  rw [if_neg (by simp [hcascades])] at hlast
  obtain ⟨hstores, -⟩ := Collection.returns_saveModels (P := fun _ => True) (S := fun _ => False)
    (hstamped.wellFormed hg) ((hstamped.hasCollection c).mpr hc) hplain (fun _ hn => hn.elim)
    hmembers
  have hsaved := hstamped.trans hstores
  have hgone : ∀ n, n ∈ saved.removedStored c ↔
      n ∈ (g.collection c).removed ∧ (saved.model n).record.isNew = false :=
    fun _ => hsaved.mem_removedStored
  obtain ⟨hunlinks, -, -, -, -, hwritten⟩ := Model.returns_unlinkAll
    (F := fun _ => True) (P := (pid ∉ ·))
    (S := fun n => g.LetsGo n r.foreignKey (r.inverseOn? (g.model n).modelType.name) p pid) hplain
    (hsaved.wellFormed hg)
    (fun n hn => (hsaved.hasModel n).mpr (hg.removedMember hc ((hgone n).mp hn).1))
    (fun _ _ _ ids _ hmem => by
      have hleft := Cardinality.mem_of_mem_keeps (List.mem_filter.mp hmem).1
      simp at hleft)
    (fun _ _ => trivial)
    (fun n _ hn t between ht hfrom => by
      rw [hsaved.modelType n] at hfrom
      exact hn.syncKeeps ((hsaved.unlinks p).trans ht) hfrom) hlast
  have hall := (hsaved.unlinks p).trans hunlinks
  refine ⟨hall.deleted, hall.deletes, fun m hm entityType id hat hletsGo => ?_⟩
  have hstored : m ∈ saved.removedStored c := by
    refine (hgone m).mpr ⟨hm, ?_⟩
    rw [Record.isNew, hsaved.keepsIds.id m id hat.2]
    rfl
  have hat' := hall.keepsIds.isStoredAs hat
  cases hwritten entityType id with
  | before _ hnone => exact absurd hat' (hnone m hstored)
  | written n hn hatn record hrecord hfree =>
      exact ⟨record, hrecord, hfree
        (hletsGo n ((hgone n).mp hn).1 (Graph.sameRecord_of_isStoredAs hatn hat')) trivial⟩

namespace Library

/-- The graph in which the only article of an author was fetched. -/
def shelved : Graph MemoryStore :=
  let g := (Model.forgeById session "author" "ann" (opened [author, article])).2
  ((Related.model ⟨0⟩).fetch ["articles"] none g).2

/-- The graph after the article was removed from the collection. -/
def cleared : Graph MemoryStore := (Collection.remove ⟨0⟩ "cells" shelved).2

theorem reachable_cleared : Graph.Reachable MemoryStore.Filed cleared := by
  have htypes : ∀ t ∈ [author, article], t.WellFormed := by
    simp [wellFormed_author, wellFormed_article]
  refine .call (.call (.call (reachable_opened htypes) (.forgeById _ _ _)) (.fetch ?_ _ _))
    (.remove ?_ _)
  · change Graph.HasModel _ ⟨0⟩
    decide +kernel
  · decide +kernel

/-- The article has nothing loaded but the author that it was fetched for. -/
theorem cleared_letsGo (k : ForeignKey) : cleared.LetsGo ⟨1⟩ k (some "author") ⟨0⟩ "ann" where
  parent name r p _ _ _ hloaded := by
    have hentry := OrderedMap.get?_eq_some_iff.mp hloaded
    have hentries : (cleared.model ⟨1⟩).parents.entries = [("author", ⟨0⟩)] := by
      decide +kernel
    rw [hentries, List.mem_singleton, Prod.mk.injEq] at hentry
    obtain ⟨rfl, rfl⟩ := hentry
    exact .inl ⟨rfl, rfl⟩
  children name r e _ _ _ _ hloaded := by
    have hentry := OrderedMap.get?_eq_some_iff.mp hloaded
    have hentries : (cleared.model ⟨1⟩).children.entries = [] := by
      decide +kernel
    rw [hentries] at hentry
    cases hentry

/-- What the relationship to the articles amounts to. -/
def shelf : Resolved :=
  (cleared.registry.resolve (cleared.model ⟨0⟩).modelType.name "articles").toOption.getD default

/-- The graph after the relationship was saved. -/
def withdrawn : Graph MemoryStore := ((Related.model ⟨0⟩).save (some ["articles"]) cleared).2

/-- The removed article is kept, and has no author any more. -/
theorem withdrawn_article : withdrawn.store.deleted = cleared.store.deleted ∧
    ∃ record, withdrawn.stored "node" "cells" = some record ∧
      "ann" ∉ record.referenceIds "writer" "target_id" := by
  have hsound := reachable_cleared.sound MemoryStore.keeps_filed
  have hresolve : cleared.registry.resolve (cleared.model ⟨0⟩).modelType.name "articles" =
      .ok shelf := eq_ok_of_isOk (by decide +kernel) default
  have hdeclared := eq_ok_of_isOk (x := (cleared.model ⟨0⟩).modelType.relationship "articles")
    (by decide +kernel) default
  have hkey : shelf.foreignKey = ⟨"writer", "target_id"⟩ := by
    decide +kernel
  have hback : shelf.inverseOn? (cleared.model ⟨1⟩).modelType.name = some "author" := by
    decide +kernel
  have hid : (cleared.model ⟨0⟩).record.id = some "ann" := by
    decide +kernel
  have hremoved : (cleared.collection ⟨0⟩).removed = [⟨1⟩] := by
    decide +kernel
  have hsave : Returns ((Related.model ⟨0⟩).save (some ["articles"])) cleared () withdrawn :=
    returns_of_isOk (by decide +kernel) ()
  obtain ⟨hdeleted, -, hunlinked⟩ := save_unlinks_removed hsound.wellFormed
    (by decide +kernel) hresolve hdeclared (by decide +kernel) (by decide +kernel)
    (by decide +kernel) hid (c := ⟨0⟩) (by decide +kernel) hsave
  rw [hkey] at hunlinked
  refine ⟨hdeleted, hunlinked ⟨1⟩ ?_ "node" "cells" (by decide +kernel) ?_⟩
  · rw [hremoved]
    exact List.mem_singleton_self _
  · rw [hremoved]
    intro n hn _
    rw [List.mem_singleton.mp hn, hback]
    exact cleared_letsGo _

/-- The graph in which the article has fetched its author by itself before it was removed, and
so has another model of the author loaded. -/
def consulted : Graph MemoryStore :=
  (Collection.remove ⟨0⟩ "cells" ((Related.model ⟨1⟩).fetch ["author"] none shelved).2).2

/-- The graph after the relationship was saved. -/
def retained : Graph MemoryStore := ((Related.model ⟨0⟩).save (some ["articles"]) consulted).2

/-- A removed model that has loaded the owner anew is not taken out of the relationship: the
article refers to the author still. -/
theorem retained_not_unlinked :
    Returns ((Related.model ⟨0⟩).save (some ["articles"])) consulted () retained ∧
      (consulted.model ⟨0⟩).record.id = some "ann" ∧
      (∃ c, (consulted.model ⟨0⟩).children.get? "articles" = some c ∧
        (consulted.collection c).removed = [⟨1⟩]) ∧
      consulted.IsStoredAs ⟨1⟩ "node" "cells" ∧
      (retained.stored "node" "cells").map (·.referenceIds "writer" "target_id") =
        some ["ann"] :=
  ⟨returns_of_isOk (by decide +kernel) (), by decide +kernel,
    ⟨⟨0⟩, by decide +kernel, by decide +kernel⟩, by decide +kernel, by decide +kernel⟩

end Library

end RecordGraph
