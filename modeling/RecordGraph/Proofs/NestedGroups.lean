/-
# What a nested group of conditions means

A group named by the logic of another one is not a block of its own there: what it appends is
spliced into the block that names it. What it appends is the same wherever it is named, so a
group is described by the logic over these lists. Under AND a list counts as what the nested
group means on its own. Under OR each of its predicates is an alternative of its own, so there
the nested group keeps its meaning only if it appends exactly one predicate.

The main statement is `holds_splices_nested`; at the end stands a group for which the meaning
of the nested group is lost under OR.
-/
import RecordGraph.Proofs.QueryMeaning

namespace RecordGraph

/-! ## Entries and their meaning -/

namespace ConditionEntry

/-- Whether a record meets an entry: a condition as such, a nested group as it selects on its
own. -/
def meets (r : Record) : ConditionEntry → Bool
  | .condition c => c.holds r
  | .group entries logic c =>
      ((⟨entries, logic, c⟩ : ConditionGroup).applyOn (PredicateGroup.empty .and)).toOption.any
        (·.holds r)

/-- The truth values that an entry gives to a block: a condition its own, a nested group that of
each predicate that it appends on its own. -/
def truths (r : Record) : ConditionEntry → List Bool
  | .condition c => [c.holds r]
  | .group entries logic c =>
      (((⟨entries, logic, c⟩ : ConditionGroup).applyOn (PredicateGroup.empty .and)).toOption.map
        fun own => own.members.map (·.holds r)).getD []

end ConditionEntry

namespace ConditionGroup

/-- Whether a record meets the entry at a position. -/
def meets (g : ConditionGroup) (r : Record) (i : Nat) : Bool := (g.entries[i]?).any (·.meets r)

/-- The truth values that the entry at a position gives to a block. -/
def truths (g : ConditionGroup) (r : Record) (i : Nat) : List Bool :=
  ((g.entries[i]?).map (·.truths r)).getD []

/-- The nested group at a position. -/
def nested? (g : ConditionGroup) (i : Nat) : Option ConditionGroup :=
  match g.entries[i]? with
  | some (.group entries logic c) => some ⟨entries, logic, c⟩
  | _ => none

theorem getElem?_of_nested? {g nested : ConditionGroup} {i : Nat}
    (h : g.nested? i = some nested) : g.entries[i]? = some nested.toEntry := by
  unfold nested? at h
  split at h
  · rename_i entries logic c hentry
    obtain rfl := Option.some.inj h
    exact hentry
  · cases h

end ConditionGroup

namespace ConditionEntry

/-- The truth values of what an entry adds. -/
theorem map_added_eq_truths {e : ConditionEntry} (h : e.fill.Adds e.fill.added) (r : Record) :
    e.fill.added.map (·.holds r) = e.truths r := by
  cases e with
  | condition c =>
      rw [ConditionEntry.fill] at h ⊢
      have hadds := Condition.adds_fill (h (PredicateGroup.empty .and))
      rw [hadds.added_eq, truths, List.map_singleton, c.holds_toPredicate]
  | group entries logic c =>
      rw [fill_group] at h ⊢
      have happly := ConditionGroup.applyOn_of_adds h (PredicateGroup.empty .and)
      rw [truths, happly]
      simp [Except.toOption]

/-- An entry is met when each of its truth values is true. -/
theorem all_truths {e : ConditionEntry} (h : e.fill.Adds e.fill.added) (r : Record) :
    (e.truths r).all id = e.meets r := by
  cases e with
  | condition c => simp [truths, meets]
  | group entries logic c =>
      rw [fill_group] at h
      have happly := ConditionGroup.applyOn_of_adds h (PredicateGroup.empty .and)
      rw [truths, meets, happly]
      simp [Except.toOption, PredicateGroup.holds_eq_eval, Conjunction.eval]

end ConditionEntry

namespace ConditionGroup

theorem fill_of_nested? {g nested : ConditionGroup} {i : Nat} (h : g.nested? i = some nested) :
    (ConditionEntry.fillings g.entries)[i]? = some nested.fill := by
  rw [ConditionEntry.fillings_eq_map, List.getElem?_map, getElem?_of_nested? h, Option.map_some,
    toEntry, ConditionEntry.fill_group]

/-- The truth values of what the entry at a position adds are those that it gives to a block, and
all of them are true where the entry is met. -/
theorem map_addedAt {g : ConditionGroup} {i : Nat}
    (hnamed : ∀ f, (ConditionEntry.fillings g.entries)[i]? = some f → f.Adds f.added)
    (hi : i < g.entries.length) (r : Record) :
    (Logic.addedAt (ConditionEntry.fillings g.entries) i).map (·.holds r) = g.truths r i ∧
      (g.truths r i).all id = g.meets r i := by
  have hentry : g.entries[i]? = some g.entries[i] := List.getElem?_eq_getElem hi
  have hfilling : (ConditionEntry.fillings g.entries)[i]? = some g.entries[i].fill := by
    rw [ConditionEntry.fillings_eq_map, List.getElem?_map, hentry, Option.map_some]
  have hadds := hnamed _ hfilling
  rw [Logic.addedAt, hfilling, truths, meets, hentry]
  exact ⟨ConditionEntry.map_added_eq_truths hadds r, ConditionEntry.all_truths hadds r⟩

/-- An entry gives one truth value, if it is no nested group that appends another number of
predicates on its own. -/
theorem length_truths {g : ConditionGroup} {i : Nat} (hi : i < g.entries.length)
    (hone : ∀ nested, g.nested? i = some nested → ∃ own,
      nested.applyOn (PredicateGroup.empty .and) = .ok own ∧ own.members.length = 1) (r : Record) :
    (g.truths r i).length = 1 := by
  have hentry : g.entries[i]? = some g.entries[i] := List.getElem?_eq_getElem hi
  rw [truths, hentry]
  cases hkind : g.entries[i] with
  | condition c => simp [ConditionEntry.truths]
  | group entries logic c =>
      obtain ⟨own, hown, hlength⟩ := hone ⟨entries, logic, c⟩ (by rw [nested?, hentry, hkind])
      simp [ConditionEntry.truths, hown, Except.toOption, hlength]

/-- The entries of a group are spliced into the blocks of its logic. A nested group that the logic
names applies to every block, and always by the same predicates, those that it appends on its
own. So under OR each of them is an alternative of its own, and a record is selected as the logic
says, a nested group counting as it selects on its own, if each nested group named directly under
an OR appends exactly one predicate. -/
theorem holds_splices_nested {g : ConditionGroup} {filled : PredicateGroup}
    (h : g.applyOn (PredicateGroup.empty .and) = .ok filled) :
    ∃ es, g.expressions = .ok es ∧
      (∀ i ∈ Logic.indicesOf es, ∀ nested, g.nested? i = some nested →
        ∃ own, nested.applyOn (PredicateGroup.empty .and) = .ok own ∧
          ∀ block, nested.applyOn block =
            .ok { block with members := block.members ++ own.members }) ∧
      (∀ r, filled.holds r = (Logic.spliceEach Conjunction.eval (g.truths r) es).all id) ∧
      ((∀ i ∈ Logic.alternativesOf .and es, ∀ nested, g.nested? i = some nested →
          ∀ own, nested.applyOn (PredicateGroup.empty .and) = .ok own → own.members.length = 1) →
        ∀ r, filled.holds r = true ↔ ∀ e ∈ es, e.eval (g.meets r) = true) := by
  obtain ⟨es, hes, hfilled, hnamed⟩ := spliced_of_applyOn h
  have hbound := indicesOf_lt_of_expressions hes
  have hspliced : ∀ r,
      filled.holds r = (Logic.spliceEach Conjunction.eval (g.truths r) es).all id := by
    intro r
    have htruths := Logic.map_holds_spliceEach fun i hi =>
      (map_addedAt (hnamed i hi) (hbound i hi) r).1
    rw [hfilled, PredicateGroup.holds_eq_eval, PredicateGroup.empty, List.nil_append, htruths,
      Conjunction.eval]
  refine ⟨es, hes, fun i hi nested hnested => ?_, hspliced, fun hone r => ?_⟩
  · have hadds := hnamed i hi _ (fill_of_nested? hnested)
    exact ⟨_, applyOn_of_adds hadds _, applyOn_of_adds hadds⟩
  · have happended : ∀ i ∈ Logic.alternativesOf .and es, (g.truths r i).length = 1 := by
      intro i hi
      have hi' := Logic.mem_indicesOf_of_alternativesOf es hi
      refine length_truths (hbound i hi') (fun nested hnested => ?_) r
      have hadds := hnamed i hi' _ (fill_of_nested? hnested)
      have hown := applyOn_of_adds hadds (PredicateGroup.empty .and)
      exact ⟨_, hown, hone i hi nested hnested _ hown⟩
    have hcounts := Logic.eval_spliceEach es .and happended fun i hi =>
      (map_addedAt (hnamed i hi) (hbound i hi) r).2
    calc filled.holds r = true
        ↔ Conjunction.and.eval (Logic.spliceEach Conjunction.eval (g.truths r) es) = true := by
          rw [hspliced r, Conjunction.eval]
      _ ↔ ∀ e ∈ es, e.eval (g.meets r) = true := by
          rw [hcounts, Logic.evalEach_eq_map]
          simp [Conjunction.eval]

/-- A nested group of two predicates, titled `Roots` and signed by Ann. -/
def signedRoots : ConditionGroup :=
  ⟨[.condition (.eq "title" (.text "Roots")), .condition (.eq "author" (.text "ann"))],
    some "1,2", .and⟩

/-- A nested group without logic, titled `Cells` or `Trees`. -/
def cellsOrTrees : ConditionGroup :=
  ⟨[.condition (.eq "title" (.text "Cells")), .condition (.eq "title" (.text "Trees"))],
    none, .or⟩

/-- What is open, roots signed by Ann, and what is titled `Cells` or `Trees`, under some
logic. -/
def shelf (logic : String) : ConditionGroup :=
  ⟨[.condition (.eq "status" (.text "open")), signedRoots.toEntry, cellsOrTrees.toEntry],
    some logic, .and⟩

/-- Roots by Ann that are open or titled `Cells` or `Trees`: the group of two predicates stands
under AND, the one of a single predicate under OR. -/
theorem shelf_keeps_meaning : ∃ filled,
    (shelf "AND(2,OR(1,3))").applyOn (PredicateGroup.empty .and) = .ok filled ∧
      ∃ es, (shelf "AND(2,OR(1,3))").expressions = .ok es ∧ Logic.alternativesOf .and es = [0, 2] ∧
        ∀ r, filled.holds r = true ↔ ∀ e ∈ es, e.eval ((shelf "AND(2,OR(1,3))").meets r) = true := by
  have hfilled := eq_ok_of_isOk
    (x := (shelf "AND(2,OR(1,3))").applyOn (PredicateGroup.empty .and)) (by decide +kernel) default
  refine ⟨_, hfilled, ?_⟩
  obtain ⟨es, hes, -, -, hmeaning⟩ := holds_splices_nested hfilled
  have halternatives : ((shelf "AND(2,OR(1,3))").expressions.toOption.map
      (Logic.alternativesOf .and)) = some [0, 2] := by
    decide +kernel
  have hpositions : Logic.alternativesOf .and es = [0, 2] := by
    rw [hes] at halternatives
    exact Option.some.inj halternatives
  refine ⟨es, hes, hpositions, hmeaning fun i hi nested hnested own hown => ?_⟩
  have hlength : ((cellsOrTrees.applyOn (PredicateGroup.empty .and)).toOption.map
      fun own => own.members.length) = some 1 := by
    decide +kernel
  obtain rfl | rfl : i = 0 ∨ i = 2 := by simpa [hpositions] using hi
  · cases hnested
  · obtain rfl : cellsOrTrees = nested := Option.some.inj hnested
    rw [hown] at hlength
    exact Option.some.inj hlength

/-- Closed roots by somebody else are selected by what is open or else are roots signed by Ann,
since the title is an alternative of its own there. -/
theorem shelf_loses_meaning :
    ¬ ∀ (g : ConditionGroup) (filled : PredicateGroup) (es : List Logic.Expr) (r : Record),
      g.applyOn (PredicateGroup.empty .and) = .ok filled → g.expressions = .ok es →
        (filled.holds r = true ↔ ∀ e ∈ es, e.eval (g.meets r) = true) := by
  intro hmeaning
  have hfilled := eq_ok_of_isOk
    (x := (shelf "OR(1,2)").applyOn (PredicateGroup.empty .and)) (by decide +kernel) default
  have hes := eq_ok_of_isOk (x := (shelf "OR(1,2)").expressions) (by decide +kernel) default
  have hiff := hmeaning _ _ _
    ((Record.new "node" "article").set "title" (.text "Roots")) hfilled hes
  exact absurd hiff (by decide +kernel)

end ConditionGroup

end RecordGraph
