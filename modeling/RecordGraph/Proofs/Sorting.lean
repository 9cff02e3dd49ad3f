/-
# Sorting and leaving out

Records are sorted by values that need not be comparable, and pairs that cannot be compared
count as equal. So sort orders rank only those records among which they are transitive and
total. Where they do, records can be left out before sorting or after it with the same
outcome, because sorting keeps the order of records that count as equal.
-/
import RecordGraph.Record.Order

namespace RecordGraph

section Stable

variable {α : Type} {le : α → α → Bool}

/-- A list is split by a test in one way only. -/
theorem append_inj_of_split {q : α → Bool} {xs ys xs' ys' : List α}
    (hxs : ∀ x ∈ xs, q x = true) (hys : ∀ y ∈ ys, q y = false)
    (hxs' : ∀ x ∈ xs', q x = true) (hys' : ∀ y ∈ ys', q y = false)
    (h : xs ++ ys = xs' ++ ys') : xs = xs' ∧ ys = ys' := by
  have hkept : ∀ {us vs : List α}, (∀ x ∈ us, q x = true) → (∀ y ∈ vs, q y = false) →
      (us ++ vs).filter q = us := by
    intro us vs hus hvs
    have hnone : vs.filter q = [] := List.filter_eq_nil_iff.mpr fun y hy => by simp [hvs y hy]
    rw [List.filter_append, List.filter_eq_self.mpr hus, hnone, List.append_nil]
  have hfirst : xs = xs' := by
    rw [← hkept hxs hys, h, hkept hxs' hys']
  subst hfirst
  exact ⟨rfl, List.append_cancel_left h⟩

/-- Leaving members out of a sorted list, or sorting what is left, if the order ranks all
values. -/
theorem filter_mergeSort_of_total (htrans : ∀ a b c, le a b = true → le b c = true → le a c = true)
    (htotal : ∀ a b, (le a b || le b a) = true) (p : α → Bool) (l : List α) :
    (l.mergeSort le).filter p = (l.filter p).mergeSort le := by
  induction l with
  | nil => simp
  | cons a rest ih =>
      obtain ⟨before, after, hsorted, hrest, hbefore⟩ := List.mergeSort_cons htrans htotal a rest
      rw [hrest, List.filter_append] at ih
      have hafter : ∀ b ∈ after, (!le a b) = false := by
        have hpairs := List.pairwise_mergeSort htrans htotal (a :: rest)
        rw [hsorted, List.pairwise_append, List.pairwise_cons] at hpairs
        intro b hb
        simp [hpairs.2.1.1 b hb]
      cases hp : p a with
      | false =>
          have hout : ¬ p a = true := by simp [hp]
          rw [hsorted, List.filter_append, List.filter_cons_of_neg hout, ih,
            List.filter_cons_of_neg hout]
      | true =>
          obtain ⟨first, last, hkept, hothers, hfirst⟩ :=
            List.mergeSort_cons htrans htotal a (rest.filter p)
          have hlast : ∀ b ∈ last, (!le a b) = false := by
            have hpairs := List.pairwise_mergeSort htrans htotal (a :: rest.filter p)
            rw [hkept, List.pairwise_append, List.pairwise_cons] at hpairs
            intro b hb
            simp [hpairs.2.1.1 b hb]
          -- the member goes to the same place among the others
          obtain ⟨rfl, rfl⟩ := append_inj_of_split
            (fun b hb => hbefore b (List.mem_filter.mp hb).1)
            (fun b hb => hafter b (List.mem_filter.mp hb).1) hfirst hlast (ih.trans hothers)
          rw [hsorted, List.filter_append, List.filter_cons_of_pos hp, List.filter_cons_of_pos hp,
            hkept]

/-- The same for an order that ranks the members of the list. -/
theorem filter_mergeSort {l : List α}
    (htrans : ∀ a ∈ l, ∀ b ∈ l, ∀ c ∈ l, le a b = true → le b c = true → le a c = true)
    (htotal : ∀ a ∈ l, ∀ b ∈ l, (le a b || le b a) = true) (p : α → Bool) :
    (l.mergeSort le).filter p = (l.filter p).mergeSort le := by
  -- the order ranks all members of the subtype
  have hranked : (l.attach.mergeSort fun a b => le a.1 b.1).filter (p ∘ Subtype.val) =
      (l.attach.filter (p ∘ Subtype.val)).mergeSort fun a b => le a.1 b.1 := by
    apply filter_mergeSort_of_total
    · exact fun a b c => htrans a.1 a.2 b.1 b.2 c.1 c.2
    · exact fun a b => htotal a.1 a.2 b.1 b.2
  have hmapped : ∀ xs : List { a // a ∈ l },
      (xs.mergeSort fun a b => le a.1 b.1).map Subtype.val = (xs.map Subtype.val).mergeSort le :=
    fun xs => List.map_mergeSort fun _ _ _ _ => rfl
  calc (l.mergeSort le).filter p
      = ((l.attach.mergeSort fun a b => le a.1 b.1).map Subtype.val).filter p := by
        rw [hmapped, l.attach_map_subtype_val]
    _ = ((l.attach.filter (p ∘ Subtype.val)).map Subtype.val).mergeSort le := by
        rw [List.filter_map, hranked, hmapped]
    _ = (l.filter p).mergeSort le := by
        rw [← List.filter_map, l.attach_map_subtype_val]

/-- Sorts two by one comparison. This can be evaluated in proofs, where merging cannot. -/
def sortBriefly (le : α → α → Bool) : List α → List α
  | [] => []
  | [a] => [a]
  | [a, b] => if le a b then [a, b] else [b, a]
  | l => l.mergeSort le

theorem sortBriefly_eq (l : List α) : sortBriefly le l = l.mergeSort le := by
  match l with
  | [] => simp [sortBriefly]
  | [a] => simp [sortBriefly]
  | [a, b] =>
      simp [sortBriefly, List.mergeSort, List.MergeSort.Internal.splitInTwo, List.merge]
  | _ :: _ :: _ :: _ => rfl

end Stable

namespace Record

/-- The sort orders rank the records: of any two one may stand before the other, and what may
stand before a record may stand before all that this record may stand before. -/
structure Ranked (sorts : List (String × SortDirection)) (rs : List Record) : Prop where
  trans : ∀ a ∈ rs, ∀ b ∈ rs, ∀ c ∈ rs,
    precedes sorts a b = true → precedes sorts b c = true → precedes sorts a c = true
  total : ∀ a ∈ rs, ∀ b ∈ rs, (precedes sorts a b || precedes sorts b a) = true

instance (sorts : List (String × SortDirection)) (rs : List Record) :
    Decidable (Ranked sorts rs) :=
  decidable_of_iff
    ((∀ a ∈ rs, ∀ b ∈ rs, ∀ c ∈ rs,
      precedes sorts a b = true → precedes sorts b c = true → precedes sorts a c = true) ∧
      ∀ a ∈ rs, ∀ b ∈ rs, (precedes sorts a b || precedes sorts b a) = true)
    ⟨fun h => ⟨h.1, h.2⟩, fun h => ⟨h.trans, h.total⟩⟩

theorem Ranked.of_subset {sorts : List (String × SortDirection)} {rs some : List Record}
    (h : Ranked sorts rs) (hsome : ∀ r ∈ some, r ∈ rs) : Ranked sorts some where
  trans a ha b hb c hc := h.trans a (hsome a ha) b (hsome b hb) c (hsome c hc)
  total a ha b hb := h.total a (hsome a ha) b (hsome b hb)

theorem Ranked.filter_mergeSort {sorts : List (String × SortDirection)} {rs : List Record}
    (h : Ranked sorts rs) (p : Record → Bool) :
    (rs.mergeSort (precedes sorts)).filter p = (rs.filter p).mergeSort (precedes sorts) :=
  RecordGraph.filter_mergeSort h.trans h.total p

end Record

end RecordGraph
