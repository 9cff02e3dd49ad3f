/-
# How deep deletions go

A deletion goes from a record to what hangs on it. Where nothing hangs below itself, each step
down leaves one more stored record behind, so that there are no more levels than records; a
deletion then never gets to the depth at which it is cut off. That is said without a limit in
sight: whatever stood at the bottom, the run would be the same one.
-/
import Mathlib.Data.Finset.Card
import RecordGraph.Proofs.Deleting.Erasures

namespace RecordGraph

open Relation

/-! ## Runs that agree -/

section Runs

variable {S α β : Type}

/-- Two sequences run alike if their second parts do wherever the first part leads. -/
theorem run_bind_congr {a : ExceptT Error (StateM S) α} {f f' : α → ExceptT Error (StateM S) β}
    {s : S} (h : ∀ x t, Returns a s x t → f' x t = f x t) : (a >>= f') s = (a >>= f) s := by
  rw [run_bind, run_bind]
  rcases hrun : a s with ⟨answer, t⟩
  cases answer with
  | ok x => exact h x t hrun
  | error e => rfl

/-- Two loops run alike if every turn does, wherever the turns before it lead. -/
theorem run_forM_congr {f f' : α → ExceptT Error (StateM S) PUnit} {xs : List α} {s : S}
    (h : ∀ done x rest t, xs = done ++ x :: rest → Returns (done.forM f) s ⟨⟩ t →
      f' x t = f x t) : xs.forM f' s = xs.forM f s := by
  induction xs generalizing s with
  | nil => rfl
  | cons x rest ih =>
      have hfirst : f' x s = f x s := h [] x rest s rfl (returns_pure.mpr ⟨rfl, rfl⟩)
      have hrest : ∀ v t, Returns (f x) s v t → rest.forM f' t = rest.forM f t := by
        intro v t hturn
        refine ih fun done y others u hsplit hdone => ?_
        refine h (x :: done) y others u (by simp [hsplit]) ?_
        exact returns_bind.mpr ⟨v, t, hturn, hdone⟩
      calc (f' x >>= fun _ => rest.forM f') s
          = (f x >>= fun _ => rest.forM f') s := by rw [run_bind, run_bind, hfirst]
        _ = (f x >>= fun _ => rest.forM f) s := run_bind_congr hrest

end Runs

/-! ## Levels below a node -/

namespace Node

variable {registry : Registry} {s s' : MemoryStore} {log : List RecordKey} {x y : Node}

/-- There are at most so many levels below a node. -/
def Within (registry : Registry) (s : MemoryStore) : Nat → Node → Prop
  | 0, x => ∀ y, ¬ Hangs registry s x y
  | levels + 1, x => ∀ y, Hangs registry s x y → Within registry s levels y

theorem Within.of_takes (h : s.Takes log s') {levels : Nat} (hx : Within registry s levels x) :
    Within registry s' levels x := by
  induction levels generalizing x with
  | zero => exact fun y hy => hx y (Hangs.of_takes h hy)
  | succ levels ih => exact fun y hy => ih (hx y (Hangs.of_takes h hy))

end Node

namespace MemoryStore

/-- The keys of all records. -/
def keys (s : MemoryStore) : List RecordKey :=
  s.records.entries.flatMap fun e => e.2.keys.map fun id => (e.1, id)

variable {s : MemoryStore}

theorem length_keys : s.keys.length = s.total := by
  have hsum : ∀ (byIds : List (OrderedMap String Record)) start,
      byIds.foldl (fun n byId => n + byId.size) start =
        start + (byIds.map OrderedMap.size).sum := by
    intro byIds
    induction byIds with
    | nil => simp
    | cons byId rest ih =>
        intro start
        rw [List.foldl_cons, ih, List.map_cons, List.sum_cons, Nat.add_assoc]
  rw [total, hsum, keys, List.length_flatMap, OrderedMap.values, List.map_map, Nat.zero_add]
  simp [Function.comp_def, OrderedMap.keys, OrderedMap.size]

theorem mem_keys {entityType id : String} {r : Record}
    (h : (s.recordsOf entityType).get? id = some r) : (entityType, id) ∈ s.keys := by
  cases hbyId : s.records.get? entityType with
  | none => simp [recordsOf, hbyId] at h
  | some byId =>
      rw [recordsOf, hbyId, Option.getD_some] at h
      have hid : id ∈ byId.keys := by
        rw [← OrderedMap.contains_iff_mem_keys, OrderedMap.contains, h, Option.isSome_some]
      exact List.mem_flatMap.mpr ⟨(entityType, byId), OrderedMap.get?_eq_some_iff.mp hbyId,
        List.mem_map.mpr ⟨id, hid, rfl⟩⟩

end MemoryStore

namespace Node

variable {registry : Registry} {s : MemoryStore} {x y : Node}

open Classical in
/-- The stored keys of all that hangs below a node. -/
noncomputable def keysBelow (registry : Registry) (s : MemoryStore) (x : Node) :
    Finset RecordKey :=
  s.keys.toFinset.filter fun k => ∃ y, Below registry s x y ∧ y.key = k

theorem mem_keysBelow_iff {k : RecordKey} : k ∈ keysBelow registry s x ↔
    k ∈ s.keys ∧ ∃ y, Below registry s x y ∧ y.key = k := by
  simp [keysBelow]

theorem mem_keysBelow (hy : Below registry s x y) : y.key ∈ keysBelow registry s x := by
  obtain ⟨r, hstands⟩ := Below.stands hy
  exact mem_keysBelow_iff.mpr ⟨MemoryStore.mem_keys hstands.stored, y, hy, rfl⟩

/-- One level further down there is less below. -/
theorem card_keysBelow_lt (happart : s.TellsTypesApart registry)
    (hacyclic : ∀ z, Below registry s x z → ¬ Below registry s z z)
    (hy : Hangs registry s x y) :
    (keysBelow registry s y).card < (keysBelow registry s x).card := by
  refine Finset.card_lt_card (Finset.ssubset_iff_subset_ne.mpr ⟨fun k hk => ?_, fun hsame => ?_⟩)
  · obtain ⟨hstored, z, hz, hkey⟩ := mem_keysBelow_iff.mp hk
    exact mem_keysBelow_iff.mpr ⟨hstored, z, .head hy hz, hkey⟩
  · obtain ⟨-, z, hz, hkey⟩ := mem_keysBelow_iff.mp (hsame ▸ mem_keysBelow (TransGen.single hy))
    obtain ⟨_, hzstands⟩ := Below.stands hz
    obtain ⟨_, hystands⟩ := Below.stands (.single hy)
    obtain rfl := hzstands.eq_of_key_eq happart hystands hkey
    exact hacyclic z (.single hy) hz

/-- Where nothing below hangs below itself there are no more levels than records. -/
theorem within_total (happart : s.TellsTypesApart registry)
    (hacyclic : ∀ z, Below registry s x z → ¬ Below registry s z z) :
    Within registry s s.total x := by
  suffices hall : ∀ levels (x : Node), (∀ z, Below registry s x z → ¬ Below registry s z z) →
      (keysBelow registry s x).card ≤ levels → Within registry s levels x by
    refine hall _ x hacyclic ?_
    calc (keysBelow registry s x).card
        ≤ s.keys.toFinset.card := Finset.card_le_card fun k hk =>
          List.mem_toFinset.mpr (mem_keysBelow_iff.mp hk).1
      _ ≤ s.keys.length := List.toFinset_card_le _
      _ = s.total := MemoryStore.length_keys
  intro levels
  induction levels with
  | zero =>
      intro x _ hnone y hy
      have hmem := mem_keysBelow (TransGen.single hy)
      rw [Finset.card_eq_zero.mp (Nat.le_zero.mp hnone)] at hmem
      simp at hmem
  | succ levels ih =>
      intro x hacyclic hcard y hy
      refine ih y (fun z hz => hacyclic z (.head hy hz)) ?_
      have hless := card_keysBelow_lt happart hacyclic hy
      omega

end Node

/-! ## Deletions -/

namespace Model

section Levels

variable {σ : Type} [RecordStore σ]

/-- Deletes a model as far down as is said, and at the bottom goes on in the given way. -/
def deleteDownTo (bottom : Model → Action σ Unit) : Nat → Model → Action σ Unit
  | 0 => bottom
  | depth + 1 => deleteBy (deleteDownTo bottom depth)

/-- The deletions of the library fail at the bottom. -/
theorem deleteWithin_eq_deleteDownTo (depth : Nat) : deleteWithin (σ := σ) depth =
    deleteDownTo (fun m => do throw (.endlessCascade (← m.key))) depth := by
  induction depth with
  | zero => rfl
  | succ depth ih =>
      funext m
      rw [deleteWithin_succ, deleteDownTo, ih]

/-- Nothing happens to an unsaved model. -/
theorem deleteBy_of_isNew {g : Graph σ} {m : Model} (hnew : (g.model m).record.isNew = true)
    (inner : Model → Action σ Unit) :
    deleteBy inner m g = (pure () : Action σ Unit) g := by
  have hread : (m.isNew : Action σ Bool) g = (.ok true, g) := by
    rw [← hnew]
    rfl
  rw [deleteBy, run_bind, hread]
  rfl

/-- A stored model is deleted behind what its relationships lead to. -/
theorem deleteBy_of_stored {g : Graph σ} {m : Model} (hstored : (g.model m).record.isNew = false)
    (inner : Model → Action σ Unit) :
    deleteBy inner m g = (do
      (g.model m).modelType.cascades.forM (cascade inner m)
      Action.call (RecordStore.delete (← m.record))) g := by
  have hread : (m.isNew : Action σ Bool) g = (.ok false, g) := by
    rw [← hstored]
    rfl
  rw [deleteBy, run_bind, hread]
  rfl

end Levels

variable {g : Graph MemoryStore} {m : Model}

/-- What is done further down makes no difference if it makes none to unsaved models and to
models of what hangs on the node. -/
theorem deleteBy_congr {inner inner' : Model → Action MemoryStore Unit}
    (hinner : ErasesAll inner) (hsteps : g.registry.CascadesStepwise) (hg : g.WellFormed)
    (hfiled : g.store.Filed) (hm : g.HasModel m) (hnew : (g.model m).record.isNew = false)
    (hagree : ∀ log u n, g.Deletes log u → u.HasModel n →
      ((u.model n).record.isNew = false → Node.Hangs g.registry g.store (g.node m) (u.node n)) →
      inner' n u = inner n u) :
    deleteBy inner' m g = deleteBy inner m g := by
  rw [deleteBy_of_stored hnew, deleteBy_of_stored hnew, run_bind, run_bind,
    run_forM_congr fun done name rest t hsplit hdone => ?_]
  have hname : name ∈ (g.model m).modelType.cascades := by
    simp [hsplit]
  obtain ⟨log, hdeletes, -⟩ := returns_cascades hinner hg hfiled hm hnew
    (fun other hother => by simp [hsplit, hother]) hdone
  have hfiledt := hdeletes.takes.filed hfiled
  have hmt := hdeletes.grows.model m hm
  refine run_bind_congr fun r between hfetch => run_bind_congr fun ms fetched hmodels =>
    run_forM_congr fun before n after u hms hbefore => ?_
  obtain ⟨hfetched, hthere⟩ :=
    deletes_of_returns_fetch hdeletes.wellFormed hfiledt hmt hfetch hmodels
  obtain ⟨log', hdeletes', -⟩ := returns_deleteAll hinner hfetched.wellFormed
    (hfetched.takes.filed hfiledt) (fun x hx => hthere x (by simp [hms, hx])) hbefore
  have hn : fetched.HasModel n := hthere n (by simp [hms])
  refine hagree _ u n (hdeletes.trans (hfetched.trans hdeletes'))
    (hdeletes'.grows.model n hn) fun hstored => ?_
  rw [hsteps _ (hg.typed m hm) name hname] at hfetch
  have hhangs := (returns_follow hdeletes.wellFormed hfiledt hmt
    ((hdeletes.isNew_eq hm).trans hnew) (by rwa [hdeletes.grows.modelType m hm]) hfetch
    hmodels).hanging n (by simp [hms]) (fetched.node n)
    (Graph.shows_node ((hdeletes'.isNew_eq hn).symm.trans hstored))
  rw [hdeletes.node_eq hm, hdeletes.grows.registry] at hhangs
  rw [hdeletes'.node_eq hn]
  exact ⟨name, hname, ((Node.hangsAlong_of_takes hdeletes.takes).mp hhangs).1⟩

/-- A deletion goes two levels further down than the record has levels below it, to unsaved
models and not beyond. -/
theorem deleteDownTo_eq (bottom : Model → Action MemoryStore Unit) {levels : Nat}
    (hsteps : g.registry.CascadesStepwise) (hg : g.WellFormed) (hfiled : g.store.Filed)
    (hm : g.HasModel m) (hwithin : (g.model m).record.isNew = false →
      Node.Within g.registry g.store levels (g.node m)) :
    deleteDownTo bottom (levels + 2) m g = m.deleteWithin (levels + 2) g := by
  induction levels generalizing g m with
  | zero =>
      cases hnew : (g.model m).record.isNew with
      | true => rw [deleteDownTo, deleteWithin_succ, deleteBy_of_isNew hnew, deleteBy_of_isNew hnew]
      | false =>
          refine deleteBy_congr (erasesAll_deleteWithin 1) hsteps hg hfiled hm hnew
            fun log u n hdeletes hn hhangs => ?_
          cases hn : (u.model n).record.isNew with
          | true => rw [deleteDownTo, deleteWithin_succ, deleteBy_of_isNew hn, deleteBy_of_isNew hn]
          | false => exact absurd (hhangs hn) (hwithin hnew _)
  | succ levels ih =>
      cases hnew : (g.model m).record.isNew with
      | true => rw [deleteDownTo, deleteWithin_succ, deleteBy_of_isNew hnew, deleteBy_of_isNew hnew]
      | false =>
          refine deleteBy_congr (erasesAll_deleteWithin (levels + 2)) hsteps hg hfiled hm hnew
            fun log u n hdeletes hn hhangs => ?_
          refine ih (hdeletes.grows.registry ▸ hsteps) hdeletes.wellFormed
            (hdeletes.takes.filed hfiled) hn fun hstored => ?_
          rw [hdeletes.grows.registry]
          exact (hwithin hnew _ (hhangs hstored)).of_takes hdeletes.takes

/-- Where nothing that hangs below the record hangs below itself, its deletion ends before the
depth runs out. -/
theorem deleteDownTo_eq_delete (bottom : Model → Action MemoryStore Unit)
    (hsteps : g.registry.CascadesStepwise) (happart : g.store.TellsTypesApart g.registry)
    (hg : g.WellFormed) (hfiled : g.store.Filed) (hm : g.HasModel m)
    (hacyclic : ∀ y, Node.Below g.registry g.store (g.node m) y →
      ¬ Node.Below g.registry g.store y y) :
    deleteDownTo bottom (g.store.total + 2) m g = m.delete g := by
  rw [delete_run]
  exact deleteDownTo_eq bottom hsteps hg hfiled hm fun _ => Node.within_total happart hacyclic

end Model

end RecordGraph
