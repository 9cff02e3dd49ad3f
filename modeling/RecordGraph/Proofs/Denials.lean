/-
# Denials

`<>` denies `=`, and `NOT IN` denies `IN`. A store compares the values that a record has, and
where it has none it meets no comparison, not even a denial. A condition on a field that may be
absent makes up for this exactly: its denial selects the records that it does not select itself,
whatever stands at the path. So the denial counts as the opposite truth value wherever it takes
the place of the condition, in a block or among the entries of groups at any depth.
-/
import RecordGraph.Proofs.NestedGroups

namespace RecordGraph

/-! ## Complements -/

/-- The comparison that denies a comparison, if there is one. -/
def Operator.denial? : Operator → Option Operator
  | .equal => some .notEqual
  | .isIn => some .notIn
  | _ => none

variable {c : Condition} {asks denies : Operator}

theorem Operator.cases_of_denial? (h : asks.denial? = some denies) :
    asks = .equal ∧ denies = .notEqual ∨ asks = .isIn ∧ denies = .notIn := by
  cases asks <;> cases h
  · exact .inl ⟨rfl, rfl⟩
  · exact .inr ⟨rfl, rfl⟩

namespace Condition

/-- A denial takes the values that its comparison takes. -/
theorem validate_denial (h : asks.denial? = some denies)
    (hvalid : (c.withOperator asks).validate = .ok ()) :
    (c.withOperator denies).validate = .ok () := by
  have hfault : (c.withOperator denies).fault? = (c.withOperator asks).fault? := by
    obtain ⟨rfl, rfl⟩ | ⟨rfl, rfl⟩ := Operator.cases_of_denial? h
    · rfl
    · rfl
  unfold validate at hvalid ⊢
  rw [hfault]
  cases hasks : (c.withOperator asks).fault? with
  | none => rfl
  | some fault =>
      rw [hasks] at hvalid
      cases hvalid

/-- A record meets a denial exactly if it does not meet the condition, if the field may be
absent. -/
theorem holds_denial (h : asks.denial? = some denies) (habsent : c.fieldMayBeAbsent = true)
    (r : Record) : (c.withOperator denies).holds r = !(c.withOperator asks).holds r := by
  have hvalues (values : List Value) :
      denies.holdsOf values c.value = !asks.holdsOf values c.value := by
    obtain ⟨rfl, rfl⟩ | ⟨rfl, rfl⟩ := Operator.cases_of_denial? h
    · rfl
    · rfl
  have hasks : asks.isNegation = false := by
    obtain ⟨rfl, -⟩ | ⟨rfl, -⟩ := Operator.cases_of_denial? h
    · rfl
    · rfl
  have hdenies : denies.isNegation = true := by
    obtain ⟨-, rfl⟩ | ⟨-, rfl⟩ := Operator.cases_of_denial? h
    · rfl
    · rfl
  unfold holds withOperator
  by_cases hnone : (r.valuesAt c.field).isEmpty = true
  · simp [hnone, hasks, hdenies, habsent]
  · simp [hnone, hvalues]

end Condition

/-- What is appended to a block counts by the conjunction of the block. -/
theorem PredicateGroup.holds_append (g : PredicateGroup) (ps : List Predicate) (r : Record) :
    ({ g with members := g.members ++ ps } : PredicateGroup).holds r =
      g.conjunction.eval [g.holds r, g.conjunction.eval (ps.map (·.holds r))] := by
  rw [holds_eq_eval, List.map_append, Conjunction.eval_append, ← g.holds_eq_eval]

theorem PredicateGroup.holds_add (g : PredicateGroup) (p : Predicate) (r : Record) :
    (g.add p).holds r = g.conjunction.eval [g.holds r, p.holds r] := by
  rw [add, g.holds_append [p] r, List.map_singleton, Conjunction.eval_singleton]

/-! ## Places among the entries of a group -/

/-- Two lists that differ in one place agree in all others. -/
theorem getElem?_elsewhere {α : Type} {xs ys : List α} {a b : α} {i : Nat} (hi : i ≠ xs.length) :
    (xs ++ a :: ys)[i]? = (xs ++ b :: ys)[i]? := by
  rw [List.getElem?_append, List.getElem?_append]
  split
  · rfl
  · rw [List.getElem?_cons, List.getElem?_cons, if_neg (by omega), if_neg (by omega)]

/-- A place for an entry among the other entries of a group. -/
structure Place where
  /-- The entries before it. -/
  before : List ConditionEntry
  /-- The entries behind it. -/
  after : List ConditionEntry
  /-- The logic of the group. -/
  logic : Option String
  /-- The conjunction of the group. -/
  conjunction : Conjunction

namespace Place

variable {place : Place} {e e' : ConditionEntry}

/-- The group with an entry at the place. -/
def group (place : Place) (e : ConditionEntry) : ConditionGroup :=
  ⟨place.before ++ e :: place.after, place.logic, place.conjunction⟩

/-- The truth values that the entries give to a block, position by position, when the one at the
place gives some. -/
def listed (place : Place) (r : Record) (own : List Bool) : List (List Bool) :=
  place.before.map (·.truths r) ++ own :: place.after.map (·.truths r)

/-- The compiled logic of the group. -/
def expressions (place : Place) : Except Error (List Logic.Expr) :=
  ConditionGroup.compileLogic place.logic place.conjunction
    (place.before.length + 1 + place.after.length)

/-- The truth values that the group gives to a block, when the entry at the place gives some. -/
def truths (place : Place) (r : Record) (own : List Bool) : List Bool :=
  match place.expressions with
  | .error _ => []
  | .ok es => Logic.spliceEach Conjunction.eval (fun i => ((place.listed r own)[i]?).getD []) es

/-- The logic does not depend on the entry at the place. -/
theorem expressions_group (place : Place) (e : ConditionEntry) :
    (place.group e).expressions = place.expressions := by
  rw [ConditionGroup.expressions, if_neg (by simp [group]), ConditionGroup.compile, group,
    List.length_append, List.length_cons, expressions]
  congr 1
  omega

/-- The listed truth values are those of the entries, if the right ones are listed at the place. -/
theorem getD_listed {r : Record} {own : List Bool} {i : Nat}
    (hown : i = place.before.length → e.truths r = own) :
    ((place.listed r own)[i]?).getD [] = (place.group e).truths r i := by
  rw [listed, ConditionGroup.truths, group, ← List.getElem?_map, List.map_append, List.map_cons]
  by_cases hplace : i = place.before.length
  · rw [hown hplace]
  · rw [getElem?_elsewhere (b := e.truths r) (by rwa [List.length_map])]

/-- The other entries are the same whatever stands at the place. -/
theorem getElem?_group (place : Place) (e e' : ConditionEntry) {i : Nat}
    (hi : i ≠ place.before.length) :
    (place.group e).entries[i]? = (place.group e').entries[i]? := by
  rw [group, group, getElem?_elsewhere hi]

theorem getElem?_group_self (place : Place) (e : ConditionEntry) :
    (place.group e).entries[place.before.length]? = some e := by
  simp [group]

end Place

namespace ConditionEntry

variable {e e' : ConditionEntry} {place : Place} {r : Record} {own : List Bool}

/-- The entry can be filled in; then it adds the same to every block. -/
def Applies (e : ConditionEntry) : Prop := e.fill.Adds e.fill.added

theorem applies_of_returns {g filled : PredicateGroup} (h : Returns e.fill g () filled) :
    e.Applies :=
  e.fill_uniform g filled h

/-- A condition whose value goes with its operator can be filled in. -/
theorem applies_condition {c : Condition} (h : c.validate = .ok ()) : (condition c).Applies := by
  have hfill : Returns (condition c).fill (.empty .and) () (.add (.empty .and) c.toPredicate) := by
    rw [fill]
    exact Condition.returns_fill.mpr (Condition.applyOn_eq_ok.mpr ⟨h, rfl⟩)
  exact applies_of_returns hfill

/-- A group adds what is spliced from its entries, if its logic compiles and the entries that it
names can be filled in. -/
theorem adds_group {es : List Logic.Expr} (hes : place.expressions = .ok es)
    (happlies : ∀ i ∈ Logic.indicesOf es, ∀ named, (place.group e).entries[i]? = some named →
      named.Applies) : (place.group e).toEntry.fill.Adds
        (Logic.spliceEach .group (Logic.addedAt (fillings (place.group e).entries)) es) := by
  rw [ConditionGroup.toEntry, fill_group,
    ConditionGroup.fill_of_expressions ((place.expressions_group e).trans hes)]
  refine Logic.adds_fillEach es fun i hi f hf => ?_
  rw [fillings_eq_map, List.getElem?_map, Option.map_eq_some_iff] at hf
  obtain ⟨named, hnamed, rfl⟩ := hf
  exact happlies i hi named hnamed

/-- A group that can be filled in has a compiled logic, and the entries that it names can be
filled in. -/
theorem named_of_applies (h : (place.group e).toEntry.Applies) :
    ∃ es, place.expressions = .ok es ∧ ∀ i ∈ Logic.indicesOf es, ∀ named,
      (place.group e).entries[i]? = some named → named.Applies := by
  rw [Applies, ConditionGroup.toEntry, fill_group] at h
  obtain ⟨es, hes, -, hadds⟩ :=
    ConditionGroup.spliced_of_applyOn (ConditionGroup.applyOn_of_adds h (.empty .and))
  refine ⟨es, (place.expressions_group e).symm.trans hes, fun i hi named hnamed => ?_⟩
  refine hadds i hi named.fill ?_
  rw [fillings_eq_map, List.getElem?_map, hnamed, Option.map_some]

/-- Whether a group can be filled in depends on the entry at a place only by whether this entry
can. -/
theorem applies_group (h : e.Applies → e'.Applies) (happlies : (place.group e).toEntry.Applies) :
    (place.group e').toEntry.Applies := by
  obtain ⟨es, hes, hnamed⟩ := named_of_applies happlies
  refine (adds_group hes fun i hi named hentry => ?_).self
  by_cases hplace : i = place.before.length
  · subst hplace
    rw [place.getElem?_group_self] at hentry
    obtain rfl := Option.some.inj hentry
    exact h (hnamed _ hi e (place.getElem?_group_self e))
  · exact hnamed i hi named ((place.getElem?_group e e' hplace).trans hentry)

/-- A group gives the truth values that its logic makes of those of its entries. -/
theorem truths_group (happlies : (place.group e).toEntry.Applies)
    (hown : e.Applies → e.truths r = own) :
    (place.group e).toEntry.truths r = place.truths r own := by
  obtain ⟨es, hes, hnamed⟩ := named_of_applies happlies
  have hentry : ∀ i ∈ Logic.indicesOf es,
      (Logic.addedAt (fillings (place.group e).entries) i).map (·.holds r) =
        ((place.listed r own)[i]?).getD [] := by
    intro i hi
    have hlisted : ((place.listed r own)[i]?).getD [] = (place.group e).truths r i := by
      refine Place.getD_listed ?_
      rintro rfl
      exact hown (hnamed _ hi e (place.getElem?_group_self e))
    rw [hlisted, Logic.addedAt, fillings_eq_map, List.getElem?_map, ConditionGroup.truths]
    cases hthere : (place.group e).entries[i]? with
    | none => rfl
    | some named => exact map_added_eq_truths (hnamed i hi named hthere) r
  rw [← map_added_eq_truths happlies r, (adds_group hes hnamed).added_eq,
    Logic.map_holds_spliceEach hentry, Place.truths, hes]

/-! ## Entries at any depth -/

/-- The entry within groups, each at a place of the next one, from the innermost on. -/
def placed (e : ConditionEntry) : List Place → ConditionEntry
  | [] => e
  | place :: outer => (place.group e).toEntry.placed outer

/-- The truth values that the outermost of these groups gives, when the entry gives some. -/
def truthsThrough (r : Record) (own : List Bool) : List Place → List Bool
  | [] => own
  | place :: outer => truthsThrough r (place.truths r own) outer

theorem applies_placed (places : List Place) (h : e.Applies → e'.Applies)
    (happlies : (e.placed places).Applies) : (e'.placed places).Applies := by
  induction places generalizing e e' with
  | nil => exact h happlies
  | cons place outer ih => exact ih (applies_group h) happlies

theorem truths_placed (places : List Place) (hown : e.Applies → e.truths r = own)
    (happlies : (e.placed places).Applies) :
    (e.placed places).truths r = truthsThrough r own places := by
  induction places generalizing e own with
  | nil => exact hown happlies
  | cons place outer ih => exact ih (fun hgroup => truths_group hgroup hown) happlies

/-- Wherever the entry is filled in, it counts as one truth value for each record: in a block by
the conjunction of the block, and within groups by their logic. -/
def CountsAs (e : ConditionEntry) (truth : Record → Bool) : Prop :=
  ∀ (places : List Place) (g filled : PredicateGroup),
    Returns (e.placed places).fill g () filled → ∀ r, filled.holds r =
      g.conjunction.eval [g.holds r, g.conjunction.eval (truthsThrough r [truth r] places)]

/-- A condition counts as what its predicate says. -/
theorem countsAs_condition (c : Condition) : (condition c).CountsAs c.toPredicate.holds := by
  intro places g filled h r
  have happlies := applies_of_returns h
  have hown : (condition c).truths r = [c.toPredicate.holds r] := by
    rw [truths, c.holds_toPredicate]
  obtain rfl := (h.unique (happlies g)).2
  rw [g.holds_append, map_added_eq_truths happlies, truths_placed places (fun _ => hown) happlies]

end ConditionEntry

/-! ## Denials in place of conditions -/

/-- A condition with a fitting value on a field that may be absent appends a predicate, its denial
another one, and a record meets the one exactly if it does not meet the other. Neither depends on
the block. So the denial can stand wherever the condition can, and counts there as the opposite
truth value. -/
theorem Condition.denial_complements (hdenial : asks.denial? = some denies)
    (habsent : c.fieldMayBeAbsent = true) (hvalid : (c.withOperator asks).validate = .ok ()) :
    ∃ asked denied : Predicate, (∀ r, denied.holds r = !asked.holds r) ∧
      (∀ g : PredicateGroup, (c.withOperator asks).applyOn g = .ok (g.add asked) ∧
        (c.withOperator denies).applyOn g = .ok (g.add denied) ∧
        ∀ r, (g.add asked).holds r = g.conjunction.eval [g.holds r, asked.holds r] ∧
          (g.add denied).holds r = g.conjunction.eval [g.holds r, !asked.holds r]) ∧
      (ConditionEntry.condition (c.withOperator asks)).CountsAs asked.holds ∧
      (ConditionEntry.condition (c.withOperator denies)).CountsAs (fun r => !asked.holds r) ∧
      ∀ (places : List Place) (g : PredicateGroup),
        (∃ filled, Returns ((ConditionEntry.condition (c.withOperator asks)).placed places).fill
          g () filled) ↔
        ∃ filled, Returns ((ConditionEntry.condition (c.withOperator denies)).placed places).fill
          g () filled := by
  have hvalidDenial := validate_denial hdenial hvalid
  have hcomplement : ∀ r, (c.withOperator denies).toPredicate.holds r =
      !(c.withOperator asks).toPredicate.holds r := by
    intro r
    rw [holds_toPredicate, holds_toPredicate, holds_denial hdenial habsent r]
  refine ⟨_, _, hcomplement, fun g => ⟨applyOn_eq_ok.mpr ⟨hvalid, rfl⟩,
    applyOn_eq_ok.mpr ⟨hvalidDenial, rfl⟩, fun r => ⟨g.holds_add _ r, ?_⟩⟩,
    ConditionEntry.countsAs_condition _, ?_, ?_⟩
  · rw [g.holds_add, hcomplement r]
  · have hcounts := ConditionEntry.countsAs_condition (c.withOperator denies)
    rwa [funext hcomplement] at hcounts
  · intro places g
    constructor
    · rintro ⟨filled, h⟩
      exact ⟨_, ConditionEntry.applies_placed places
        (fun _ => ConditionEntry.applies_condition hvalidDenial)
        (ConditionEntry.applies_of_returns h) g⟩
    · rintro ⟨filled, h⟩
      exact ⟨_, ConditionEntry.applies_placed places
        (fun _ => ConditionEntry.applies_condition hvalid)
        (ConditionEntry.applies_of_returns h) g⟩

/-- A record without tags, one with nothing but nulls for tags, and one with two tags. -/
def taggings : List Record :=
  [Record.new "node" "article",
    (Record.new "node" "article").set "tags" (.list [.null, .object [("name", .null)]]),
    (Record.new "node" "article").set "tags"
      (.list [.object [("name", .text "moss")], .object [("name", .text "fern")]])]

/-- The condition that asks for one of two tags, or denies it. -/
def fernOrOak (op : Operator) : Condition :=
  .new "tags.name" op (.list [.text "fern", .text "oak"])

/-- The records without tags and with nulls have neither of the two tags. -/
theorem taggings_complement : ∃ asked denied : Predicate,
    (∀ g, (fernOrOak .isIn).applyOn g = .ok (g.add asked) ∧
      (fernOrOak .notIn).applyOn g = .ok (g.add denied)) ∧
    taggings.map (fun r => (asked.holds r, denied.holds r)) =
      [(false, true), (false, true), (true, false)] := by
  obtain ⟨asked, denied, hcomplement, happlies, -⟩ :=
    Condition.denial_complements (c := fernOrOak .isIn)
      (show Operator.isIn.denial? = some .notIn from rfl) rfl rfl
  have hasked : asked = ((fernOrOak .isIn).withOperator .isIn).toPredicate := by
    have hadded := (Condition.applyOn_eq_ok.mp (happlies (.empty .and)).1).2
    simpa [PredicateGroup.add] using hadded
  refine ⟨asked, denied, fun g => ⟨(happlies g).1, (happlies g).2.1⟩, ?_⟩
  simp only [hcomplement, hasked]
  decide +kernel

end RecordGraph
