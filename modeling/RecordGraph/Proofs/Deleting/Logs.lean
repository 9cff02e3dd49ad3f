/-
# Logs of deletions

What the deletion of a node notes before the node itself, and what the deletions of several
nodes note one after the other, as statements about the store in which they begin. Both are
put together step by step: a node is done with when everything that hangs on it along one
relationship after the other has been deleted, and each of these deletions begins in a store
from which the log so far is gone.
-/
import RecordGraph.Proofs.Deleting.Cascades

namespace RecordGraph

open Relation

namespace Node

variable {registry : Registry} {s s' : MemoryStore} {log log' : List RecordKey} {x y z : Node}
  {xs ys : List Node} {name : String} {names : List String} {k : RecordKey}

/-- Every entry is the key of a node with the property and stands behind the keys of all that
hangs on this node. -/
inductive InOrder (registry : Registry) (s : MemoryStore) (P : Node → Prop) :
    List RecordKey → Prop where
  | nil : InOrder registry s P []
  | snoc {log : List RecordKey} {y : Node} (h : InOrder registry s P log) (hy : P y)
      (hbefore : ∀ z, Hangs registry s y z → z.key ∈ log) : InOrder registry s P (log ++ [y.key])

/-- The deletion of a node has noted the log before the node itself, once it has followed the
relationships of the names. -/
structure Noted (registry : Registry) (s : MemoryStore) (x : Node) (names : List String)
    (log : List RecordKey) : Prop where
  reached : ∀ k ∈ log, Reaches registry s x k
  inOrder : registry.CascadesStepwise → InOrder registry s (Below registry s x) log
  complete : registry.CascadesStepwise → ∀ name ∈ names, ∀ y, HangsAlong registry s name x y →
    y.key ∈ log
  nodup : registry.CascadesStepwise → s.TellsTypesApart registry → Branches registry s x →
    log.Nodup

/-- The deletions of the nodes, one after the other, have noted the log. -/
structure NotedAll (registry : Registry) (s : MemoryStore) (xs : List Node)
    (log : List RecordKey) : Prop where
  reached : ∀ k ∈ log, ∃ x ∈ xs, k = x.key ∨ Reaches registry s x k
  inOrder : registry.CascadesStepwise →
    InOrder registry s (fun y => ∃ x ∈ xs, ReflTransGen (Hangs registry s) x y) log
  complete : ∀ x ∈ xs, x.key ∈ log
  nodup : registry.CascadesStepwise → s.TellsTypesApart registry →
    (∀ x ∈ xs, (∃ r, x.Stands registry s r) ∧ Branches registry s x) →
    xs.Pairwise (fun a b => a.key ≠ b.key ∧ ¬ Below registry s a b) → log.Nodup
  once : registry.CascadesStepwise → ∀ before x after, xs = before ++ x :: after →
    (∀ y ∈ before ++ after, y.key ≠ x.key) →
    (∀ y ∈ before ++ [x], ¬ Reaches registry s y x.key) → log.count x.key = 1

/-! ## Logs in order -/

namespace InOrder

variable {P Q : Node → Prop}

theorem mono (h : InOrder registry s P log) (hQ : ∀ y, P y → Q y) : InOrder registry s Q log := by
  induction h with
  | nil => exact .nil
  | snoc _ hy hbefore ih => exact .snoc ih (hQ _ hy) hbefore

/-- A second log is put behind the first one, without whose records it began. -/
theorem append (h : InOrder registry s P log) (htakes : s.Takes log s')
    (h' : InOrder registry s' Q log') (hQ : ∀ y, Q y → P y) :
    InOrder registry s P (log ++ log') := by
  induction h' with
  | nil => rwa [List.append_nil]
  | snoc _ hy hbefore ih =>
      rw [← List.append_assoc]
      refine .snoc ih (hQ _ hy) fun z hz => ?_
      by_cases hgone : z.key ∈ log
      · exact List.mem_append_left _ hgone
      · exact List.mem_append_right _ (hbefore z ((hangs_of_takes htakes).mpr ⟨hz, hgone⟩))

/-- What is noted once is noted behind all that hangs on it. -/
theorem before (happart : s.TellsTypesApart registry) (hstands : ∀ y, P y →
    ∃ r, y.Stands registry s r) (h : InOrder registry s P log) {before after : List RecordKey}
    (hlog : log = before ++ y.key :: after) (hy : ∃ r, y.Stands registry s r)
    (hz : Hangs registry s y z) : z.key ∈ before := by
  induction h generalizing after with
  | nil => simp at hlog
  | @snoc front w h hw hbefore ih =>
      rcases List.eq_nil_or_concat after with rfl | ⟨rest, last, rfl⟩
      · obtain ⟨rfl, hkey⟩ := List.append_inj' hlog rfl
        obtain ⟨r, hwstands⟩ := hstands w hw
        obtain ⟨r', hystands⟩ := hy
        have hsame : w = y := hwstands.eq_of_key_eq happart hystands (by simpa using hkey)
        exact hbefore z (hsame ▸ hz)
      · have hfront : front ++ [w.key] = (before ++ y.key :: rest) ++ [last] := by
          simpa using hlog
        exact ih (List.append_inj' hfront rfl).1

/-- Whatever hangs below a noted node is noted. -/
theorem mem_of_below (happart : s.TellsTypesApart registry) (hstands : ∀ y, P y →
    ∃ r, y.Stands registry s r) (h : InOrder registry s P log)
    (hy : ∃ r, y.Stands registry s r) (hkey : y.key ∈ log) (hz : Below registry s y z) :
    z.key ∈ log := by
  induction hz with
  | single hz =>
      obtain ⟨before, after, hlog⟩ := List.append_of_mem hkey
      exact hlog ▸ List.mem_append_left _ (h.before happart hstands hlog hy hz)
  | tail hbelow hz ih =>
      obtain ⟨before, after, hlog⟩ := List.append_of_mem ih
      exact hlog ▸ List.mem_append_left _ (h.before happart hstands hlog (Below.stands hbelow) hz)

/-- No noted node hangs below itself: the first entry of such a circle would stand behind
another one. -/
theorem not_below_self (happart : s.TellsTypesApart registry) (hstands : ∀ y, P y →
    ∃ r, y.Stands registry s r) (h : InOrder registry s P log)
    (hy : ∃ r, y.Stands registry s r) (hkey : y.key ∈ log) : ¬ Below registry s y y := by
  induction h with
  | nil => simp at hkey
  | @snoc front w h hw hbefore ih =>
      by_cases hfront : y.key ∈ front
      · exact ih hfront
      · intro hcircle
        have hlast : y.key = w.key := by
          simpa [hfront] using hkey
        obtain ⟨z, hz, hback⟩ := TransGen.head'_iff.mp hcircle
        have hsame : w = y := by
          obtain ⟨r, hwstands⟩ := hstands w hw
          obtain ⟨r', hystands⟩ := hy
          exact hwstands.eq_of_key_eq happart hystands hlast.symm
        have hnoted := hbefore z (hsame ▸ hz)
        rcases reflTransGen_iff_eq_or_transGen.mp hback with rfl | hback
        · exact hfront hnoted
        · have hzstands : ∃ r, z.Stands registry s r := Below.stands (.single hz)
          exact hfront (h.mem_of_below happart hstands hzstands hnoted hback)

end InOrder

/-! ## Reaching step by step -/

/-- Where no cascade follows a path, what is reached hangs below. -/
theorem Reaches.exists_below (hsteps : registry.CascadesStepwise)
    (hx : registry.get x.type.name = .ok x.type) (hk : Reaches registry s x k) :
    ∃ y, Below registry s x y ∧ y.key = k := by
  rcases hk with hbelow | ⟨y, hy, hroams⟩
  · exact hbelow
  · refine absurd hroams (not_roams hsteps ?_)
    rcases reflTransGen_iff_eq_or_transGen.mp hy with rfl | hbelow
    · exact hx
    · obtain ⟨_, hstands⟩ := Below.stands hbelow
      exact hstands.registered

/-- What is reached in a store from which the log is gone is not in the log. -/
theorem Reaches.not_mem_of_takes (hsteps : registry.CascadesStepwise)
    (hx : registry.get x.type.name = .ok x.type) (htakes : s.Takes log s')
    (hk : Reaches registry s' x k) : k ∉ log := by
  obtain ⟨y, hy, rfl⟩ := hk.exists_below hsteps hx
  obtain ⟨_, hstands⟩ := Below.stands hy
  exact ((stands_of_takes htakes).mp hstands).2

/-- A node that stands in the store is not noted before its turn. -/
theorem Noted.key_not_mem (h : Noted registry s x names log) (hsteps : registry.CascadesStepwise)
    (happart : s.TellsTypesApart registry) (hstands : ∃ r, x.Stands registry s r) :
    x.key ∉ log := by
  intro hkey
  refine (h.inOrder hsteps).not_below_self happart (fun _ hy => hy.stands) hstands hkey ?_
  obtain ⟨_, hxstands⟩ := hstands
  obtain ⟨y, hy, hsame⟩ := (h.reached _ hkey).exists_below hsteps hxstands.registered
  obtain ⟨_, hystands⟩ := Below.stands hy
  exact hystands.eq_of_key_eq happart hxstands hsame ▸ hy

/-- A node that stands in the store is not noted with nodes of which it is none, nor below one. -/
theorem NotedAll.key_not_mem (h : NotedAll registry s xs log) (hsteps : registry.CascadesStepwise)
    (happart : s.TellsTypesApart registry) (hall : ∀ w ∈ xs, ∃ r, w.Stands registry s r)
    (hstands : ∃ r, x.Stands registry s r)
    (hx : ∀ w ∈ xs, w.key ≠ x.key ∧ ¬ Below registry s w x) : x.key ∉ log := by
  intro hkey
  obtain ⟨w, hw, hreach⟩ := h.reached _ hkey
  obtain ⟨hne, hapart⟩ := hx w hw
  rcases hreach with hsame | hreach
  · exact hne hsame.symm
  · obtain ⟨_, hxstands⟩ := hstands
    obtain ⟨_, hwstands⟩ := hall w hw
    obtain ⟨y, hy, hsame⟩ := hreach.exists_below hsteps hwstands.registered
    obtain ⟨_, hystands⟩ := Below.stands hy
    exact hapart (hystands.eq_of_key_eq happart hxstands hsame ▸ hy)

/-! ## Putting logs together -/

theorem Noted.nil : Noted registry s x [] [] where
  reached := by simp
  inOrder _ := .nil
  complete := by simp
  nodup _ _ _ := List.nodup_nil

theorem NotedAll.nil : NotedAll registry s [] [] where
  reached := by simp
  inOrder _ := .nil
  complete := by simp
  nodup _ _ _ _ := List.nodup_nil
  once _ := by simp

/-- One more node is deleted, in a store without the records of the log so far. -/
theorem NotedAll.snoc (h : NotedAll registry s xs log) (htakes : s.Takes log s')
    (hx : registry.get x.type.name = .ok x.type)
    (h' : Noted registry s' x x.type.cascades log') :
    NotedAll registry s (xs ++ [x]) (log ++ log' ++ [x.key]) where
  reached k hk := by
    simp only [List.mem_append, List.mem_singleton] at hk
    rcases hk with (hk | hk) | rfl
    · obtain ⟨w, hw, hreach⟩ := h.reached k hk
      exact ⟨w, List.mem_append_left _ hw, hreach⟩
    · exact ⟨x, by simp, .inr ((h'.reached k hk).of_takes htakes)⟩
    · exact ⟨x, by simp, .inl rfl⟩
  inOrder hsteps := by
    have hfront : InOrder registry s
        (fun y => ∃ w ∈ xs ++ [x], ReflTransGen (Hangs registry s) w y) log := by
      refine (h.inOrder hsteps).mono ?_
      rintro y ⟨w, hw, hy⟩
      exact ⟨w, List.mem_append_left _ hw, hy⟩
    refine .snoc (hfront.append htakes (h'.inOrder hsteps) fun y hy => ?_) ⟨x, by simp, .refl⟩
      fun z hz => ?_
    · exact ⟨x, by simp, (Below.of_takes htakes hy).to_reflTransGen⟩
    · by_cases hgone : z.key ∈ log
      · exact List.mem_append_left _ hgone
      · obtain ⟨name, hname, hz⟩ := (hangs_of_takes htakes).mpr ⟨hz, hgone⟩
        exact List.mem_append_right _ (h'.complete hsteps name hname z hz)
  complete w hw := by
    rcases List.mem_append.mp hw with hw | hw
    · exact List.mem_append_left _ (List.mem_append_left _ (h.complete w hw))
    · rw [List.mem_singleton.mp hw]
      simp
  nodup hsteps happart hall hpairs := by
    obtain ⟨hpairs, -, hlast⟩ := List.pairwise_append.mp hpairs
    obtain ⟨⟨r, hstands⟩, hbranches⟩ := hall x (by simp)
    have hfront := h.nodup hsteps happart (fun w hw => hall w (List.mem_append_left _ hw)) hpairs
    have hback := h'.nodup hsteps (happart.of_takes htakes) (hbranches.of_takes htakes)
    -- the record of the node is still there when its turn comes
    have hthere : x.key ∉ log := h.key_not_mem hsteps happart
      (fun w hw => (hall w (List.mem_append_left _ hw)).1) ⟨r, hstands⟩
      fun w hw => hlast w hw x (by simp)
    have hown : x.key ∉ log' := h'.key_not_mem hsteps (happart.of_takes htakes)
      ⟨r, (stands_of_takes htakes).mpr ⟨hstands, hthere⟩⟩
    refine List.nodup_append.mpr ⟨List.nodup_append.mpr ⟨hfront, hback, ?_⟩, by simp, ?_⟩
    · rintro k hk _ hk' rfl
      exact (h'.reached k hk').not_mem_of_takes hsteps hx htakes hk
    · rintro k hk _ hlast rfl
      rw [List.mem_singleton] at hlast
      subst hlast
      rcases List.mem_append.mp hk with hk | hk
      · exact hthere hk
      · exact hown hk
  once hsteps before y after hxs hothers hreaches := by
    rw [List.count_append, List.count_append]
    rcases List.eq_nil_or_concat after with rfl | ⟨rest, last, rfl⟩
    · obtain ⟨rfl, hlast⟩ := List.append_inj' hxs rfl
      obtain rfl : x = y := by simpa using hlast
      have hfront : x.key ∉ log := by
        intro hkey
        obtain ⟨w, hw, hsame | hreach⟩ := h.reached _ hkey
        · exact hothers w (by simp [hw]) hsame.symm
        · exact hreaches w (by simp [hw]) hreach
      have hback : x.key ∉ log' := fun hkey =>
        hreaches x (by simp) ((h'.reached _ hkey).of_takes htakes)
      simp [List.count_eq_zero_of_not_mem hfront, List.count_eq_zero_of_not_mem hback]
    · have hsplit : xs ++ [x] = (before ++ y :: rest) ++ [last] := by
        simpa using hxs
      obtain ⟨rfl, hlast⟩ := List.append_inj' hsplit rfl
      obtain rfl : x = last := by simpa using hlast
      have hfront : log.count y.key = 1 :=
        h.once hsteps before y rest rfl (fun w hw => hothers w (by simp at hw ⊢; tauto)) hreaches
      -- the record is gone by the time the last node is deleted
      have hgone : y.key ∈ log := List.count_pos_iff.mp (by omega)
      have hback : y.key ∉ log' := fun hkey =>
        (h'.reached _ hkey).not_mem_of_takes hsteps hx htakes hgone
      have hapart : x.key ≠ y.key := hothers x (by simp)
      simp [hfront, List.count_eq_zero_of_not_mem hback, hapart]

/-- One more relationship is followed: all that hangs along it is deleted. -/
theorem Noted.along (h : Noted registry s x names log) (htakes : s.Takes log s')
    (hname : name ∈ x.type.cascades) (hys : ∀ y, y ∈ ys ↔ HangsAlong registry s' name x y)
    (hkeys : ys.Pairwise fun a b => a.key ≠ b.key) (h' : NotedAll registry s' ys log') :
    Noted registry s x (names ++ [name]) (log ++ log') := by
  have hhangs : ∀ y ∈ ys, Hangs registry s x y := fun y hy =>
    Hangs.of_takes htakes ⟨name, hname, (hys y).mp hy⟩
  refine ⟨fun k hk => ?_, fun hsteps => ?_, fun hsteps other hother y hy => ?_,
    fun hsteps happart hbranches => ?_⟩
  · rcases List.mem_append.mp hk with hk | hk
    · exact h.reached k hk
    · obtain ⟨y, hy, rfl | hreach⟩ := h'.reached k hk
      · exact .inl ⟨y, .single (hhangs y hy), rfl⟩
      · exact (hreach.of_takes htakes).of_hangs (hhangs y hy)
  · refine (h.inOrder hsteps).append htakes (h'.inOrder hsteps) ?_
    rintro z ⟨y, hy, hz⟩
    exact .head' (hhangs y hy) (ReflTransGen.mono (fun _ _ => Hangs.of_takes htakes) _ _ hz)
  · rcases List.mem_append.mp hother with hother | hlast
    · exact List.mem_append_left _ (h.complete hsteps other hother y hy)
    · rw [List.mem_singleton.mp hlast] at hy
      by_cases hgone : y.key ∈ log
      · exact List.mem_append_left _ hgone
      · exact List.mem_append_right _
          (h'.complete y ((hys y).mpr ((hangsAlong_of_takes htakes).mpr ⟨hy, hgone⟩)))
  · have hall : ∀ y ∈ ys, (∃ r, y.Stands registry s' r) ∧ Branches registry s' y := fun y hy =>
      ⟨((hys y).mp hy).stands, (hbranches.of_hangs (hhangs y hy)).of_takes htakes⟩
    have hpairs : ys.Pairwise fun a b => a.key ≠ b.key ∧ ¬ Below registry s' a b := by
      refine hkeys.imp_of_mem fun {a b} ha hb hne => ⟨hne, ?_⟩
      exact hbranches.of_takes htakes x .refl name hname a b ((hys a).mp ha) ((hys b).mp hb)
    refine List.nodup_append.mpr ⟨h.nodup hsteps happart hbranches,
      h'.nodup hsteps (happart.of_takes htakes) hall hpairs, ?_⟩
    rintro k hk _ hk' rfl
    obtain ⟨y, hy, hreach⟩ := h'.reached k hk'
    obtain ⟨r, hystands⟩ := (hall y hy).1
    rcases hreach with rfl | hreach
    · exact ((stands_of_takes htakes).mp hystands).2 hk
    · exact hreach.not_mem_of_takes hsteps hystands.registered htakes hk

/-- A node that roams may note whatever it likes. -/
theorem Noted.of_roams (hx : registry.get x.type.name = .ok x.type) (hroams : x.Roams)
    (log : List RecordKey) : Noted registry s x names log where
  reached _ _ := .inr ⟨x, .refl, hroams⟩
  inOrder hsteps := absurd hroams (not_roams hsteps hx)
  complete hsteps := absurd hroams (not_roams hsteps hx)
  nodup hsteps := absurd hroams (not_roams hsteps hx)

/-- A complete log has the keys of the nodes below, and no others. -/
theorem Noted.mem_iff (hsteps : registry.CascadesStepwise) (happart : s.TellsTypesApart registry)
    (hx : registry.get x.type.name = .ok x.type) (h : Noted registry s x x.type.cascades log) :
    k ∈ log ↔ ∃ y, Below registry s x y ∧ y.key = k := by
  constructor
  · exact fun hk => (h.reached k hk).exists_below hsteps hx
  · rintro ⟨y, hy, rfl⟩
    obtain ⟨z, ⟨name, hname, hz⟩, hback⟩ := TransGen.head'_iff.mp hy
    have hfirst := h.complete hsteps name hname z hz
    rcases reflTransGen_iff_eq_or_transGen.mp hback with rfl | hback
    · exact hfirst
    · exact (h.inOrder hsteps).mem_of_below happart (fun _ hw => hw.stands) hz.stands hfirst hback

end Node

end RecordGraph
