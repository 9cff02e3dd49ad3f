/-
# What conditions add to a block

Conditions, nested groups and the logic over them fill a block of predicates. What they add does
not depend on the block, so it is described by lists: the list of a nested group is spliced into
the block of the conjunction that names it. Under AND a spliced list counts as one truth value,
that of all its members together. Under OR each member is an alternative of its own, and the list
counts as one truth value only if it has one member.

Filling that fails is left out, but for what has to have succeeded before.
-/
import RecordGraph.Predicate.Matching
import RecordGraph.Proofs.CompiledLogic
import RecordGraph.Proofs.Returns
import RecordGraph.Query.Basic

namespace RecordGraph

/-! ## Splicing -/

namespace Conjunction

@[simp] theorem eval_singleton (c : Conjunction) (b : Bool) : c.eval [b] = b := by
  cases c <;> simp [eval]

theorem eval_append (c : Conjunction) (xs ys : List Bool) :
    c.eval (xs ++ ys) = c.eval [c.eval xs, c.eval ys] := by
  cases c <;> simp [eval]

end Conjunction

namespace Logic

variable {α β : Type}

mutual

/-- What an expression puts into the block in which it stands, when the entry at a position
puts a list there. A conjunction puts there one thing, made of all that its children put
together. -/
def Expr.splice (block : Conjunction → List α → α) (named : Nat → List α) : Expr → List α
  | .condition i => named i
  | .group c children => [block c (spliceEach block named children)]

/-- What several expressions put into the block in which they stand. -/
def spliceEach (block : Conjunction → List α → α) (named : Nat → List α) : List Expr → List α
  | [] => []
  | e :: rest => e.splice block named ++ spliceEach block named rest

end

mutual

/-- The positions that an expression names directly under an OR, when it stands under `c`. -/
def Expr.alternatives (c : Conjunction) : Expr → List Nat
  | .condition i => if c = .or then [i] else []
  | .group c' children => alternativesOf c' children

/-- The positions that several expressions name directly under an OR, when they stand
under `c`. -/
def alternativesOf (c : Conjunction) : List Expr → List Nat
  | [] => []
  | e :: rest => e.alternatives c ++ alternativesOf c rest

end

section Reading

variable {block : Conjunction → List α → α} {block' : Conjunction → List β → β}
variable {named : Nat → List α} {named' : Nat → List β} {f : α → β}

mutual

/-- Splicing commutes with a reading of the blocks, if it reads the named entries right. -/
theorem Expr.map_splice (hblock : ∀ c xs, f (block c xs) = block' c (xs.map f)) :
    ∀ e : Expr, (∀ i ∈ e.indices, (named i).map f = named' i) →
      (e.splice block named).map f = e.splice block' named'
  | .condition i => by
      intro hnamed
      exact hnamed i (by simp [Expr.indices])
  | .group c children => by
      intro hnamed
      rw [Expr.indices] at hnamed
      rw [Expr.splice, Expr.splice, List.map_singleton, hblock,
        map_spliceEach hblock children hnamed]

/-- Splicing several expressions commutes with a reading of the blocks. -/
theorem map_spliceEach (hblock : ∀ c xs, f (block c xs) = block' c (xs.map f)) :
    ∀ es : List Expr, (∀ i ∈ indicesOf es, (named i).map f = named' i) →
      (spliceEach block named es).map f = spliceEach block' named' es
  | [] => by
      intro _
      simp [spliceEach]
  | e :: rest => by
      intro hnamed
      simp only [indicesOf, List.mem_append] at hnamed
      rw [spliceEach, spliceEach, List.map_append,
        Expr.map_splice hblock e fun i hi => hnamed i (.inl hi),
        map_spliceEach hblock rest fun i hi => hnamed i (.inr hi)]

end

end Reading

/-- The truth values of predicates that are spliced. -/
theorem map_holds_spliceEach {named : Nat → List Predicate} {truths : Nat → List Bool}
    {r : Record} {es : List Expr}
    (h : ∀ i ∈ indicesOf es, (named i).map (·.holds r) = truths i) :
    (spliceEach .group named es).map (·.holds r) = spliceEach Conjunction.eval truths es := by
  refine map_spliceEach (fun c ps => ?_) es h
  rw [Predicate.holds, Predicate.holdEach_eq_map]

mutual

theorem Expr.mem_indices_of_alternatives {c : Conjunction} {i : Nat} :
    ∀ e : Expr, i ∈ e.alternatives c → i ∈ e.indices
  | .condition j => by
      intro hi
      rw [Expr.alternatives] at hi
      split at hi
      · rwa [Expr.indices]
      · cases hi
  | .group c' children => by
      intro hi
      rw [Expr.alternatives] at hi
      rw [Expr.indices]
      exact mem_indicesOf_of_alternativesOf children hi

theorem mem_indicesOf_of_alternativesOf {c : Conjunction} {i : Nat} :
    ∀ es : List Expr, i ∈ alternativesOf c es → i ∈ indicesOf es
  | [] => by simp [alternativesOf]
  | e :: rest => by
      intro hi
      rw [alternativesOf, List.mem_append] at hi
      rw [indicesOf, List.mem_append]
      exact hi.imp (Expr.mem_indices_of_alternatives e) (mem_indicesOf_of_alternativesOf rest)

end

theorem evalEach_eq_map (holds : Nat → Bool) (es : List Expr) :
    evalEach holds es = es.map (·.eval holds) := by
  induction es with
  | nil => simp [evalEach]
  | cons e rest ih => simp [evalEach, ih]

variable {truths : Nat → List Bool} {holds : Nat → Bool}

mutual

/-- In the block of its conjunction an expression counts as its own truth value, where an entry
counts as all of its truth values, if the entries named directly under OR have one each. -/
theorem Expr.eval_splice : ∀ (e : Expr) (c : Conjunction),
    (∀ i ∈ e.alternatives c, (truths i).length = 1) →
      (∀ i ∈ e.indices, (truths i).all id = holds i) →
        c.eval (e.splice Conjunction.eval truths) = e.eval holds
  | .condition i, .and => by
      intro _ hall
      exact hall i (by simp [Expr.indices])
  | .condition i, .or => by
      intro hone hall
      obtain ⟨b, hb⟩ := List.length_eq_one_iff.mp (hone i (by simp [Expr.alternatives]))
      rw [Expr.splice, Expr.eval, ← hall i (by simp [Expr.indices]), hb]
      simp [Conjunction.eval]
  | .group c' children, c => by
      intro hone hall
      rw [Expr.alternatives] at hone
      rw [Expr.indices] at hall
      rw [Expr.splice, Conjunction.eval_singleton, Expr.eval,
        eval_spliceEach children c' hone hall]

/-- The same for several expressions in one block. -/
theorem eval_spliceEach : ∀ (es : List Expr) (c : Conjunction),
    (∀ i ∈ alternativesOf c es, (truths i).length = 1) →
      (∀ i ∈ indicesOf es, (truths i).all id = holds i) →
        c.eval (spliceEach Conjunction.eval truths es) = c.eval (evalEach holds es)
  | [], c => by
      intro _ _
      rw [spliceEach, evalEach]
  | e :: rest, c => by
      intro hone hall
      simp only [alternativesOf, indicesOf, List.mem_append] at hone hall
      have hfirst := Expr.eval_splice e c (fun i hi => hone i (.inl hi)) fun i hi =>
        hall i (.inl hi)
      have hrest := eval_spliceEach rest c (fun i hi => hone i (.inr hi)) fun i hi =>
        hall i (.inr hi)
      calc c.eval (spliceEach Conjunction.eval truths (e :: rest))
          = c.eval [c.eval (e.splice Conjunction.eval truths),
              c.eval (spliceEach Conjunction.eval truths rest)] := by
            rw [spliceEach, Conjunction.eval_append]
        _ = c.eval ([e.eval holds] ++ evalEach holds rest) := by
            rw [hfirst, hrest, Conjunction.eval_append c [_], Conjunction.eval_singleton]
        _ = c.eval (evalEach holds (e :: rest)) := by
            rw [evalEach, List.singleton_append]

end

end Logic

/-! ## The same wherever it is named -/

namespace Filling

/-- Filling adds these predicates, whatever block it fills. -/
def Adds (f : Filling) (ps : List Predicate) : Prop :=
  ∀ block : PredicateGroup, Returns f block () { block with members := block.members ++ ps }

/-- What filling adds to a block of its own. -/
def added (f : Filling) : List Predicate := (f (PredicateGroup.empty .and)).2.members

/-- Filling that succeeds on some block adds the same to every block. -/
def Uniform (f : Filling) : Prop :=
  ∀ block filled, Returns f block () filled → f.Adds f.added

theorem Adds.added_eq {f : Filling} {ps : List Predicate} (h : f.Adds ps) : f.added = ps := by
  have hrun : f (PredicateGroup.empty .and) = _ := h (PredicateGroup.empty .and)
  rw [added, hrun]
  exact List.nil_append ps

theorem Adds.self {f : Filling} {ps : List Predicate} (h : f.Adds ps) : f.Adds f.added := by
  rw [h.added_eq]
  exact h

theorem adds_pure : Adds (pure ()) [] := by
  intro block
  simp [returns_pure]

theorem Adds.bind {first second : Filling} {ps qs : List Predicate} (hfirst : first.Adds ps)
    (hsecond : second.Adds qs) : Adds (first >>= fun _ => second) (ps ++ qs) := by
  intro block
  rw [returns_bind]
  exact ⟨(), _, hfirst block, by simpa using hsecond { block with members := block.members ++ ps }⟩

end Filling

theorem Condition.returns_fill {c : Condition} {g g' : PredicateGroup} :
    Returns c.fill g () g' ↔ c.applyOn g = .ok g' := by
  unfold Returns fill
  cases happly : c.applyOn g with
  | error e => simp
  | ok filled => simp

/-- A condition applies if its value goes with its operator, and then appends its predicate. -/
theorem Condition.applyOn_eq_ok {c : Condition} {g g' : PredicateGroup} :
    c.applyOn g = .ok g' ↔ c.validate = .ok () ∧ g' = g.add c.toPredicate := by
  unfold applyOn
  cases c.validate with
  | error e => simp
  | ok u => simp [eq_comm]

/-- A condition that applies to one block adds its predicate to every block. -/
theorem Condition.adds_fill {c : Condition} {block filled : PredicateGroup}
    (h : Returns c.fill block () filled) : c.fill.Adds [c.toPredicate] := by
  intro other
  rw [Condition.returns_fill, Condition.applyOn_eq_ok] at h ⊢
  exact ⟨h.1, rfl⟩

namespace Logic

/-- A conjunction is filled in only if its children fill a block of its own. -/
theorem returns_fillEach_of_group {entries : List Filling} {c : Conjunction}
    {children : List Expr} {g g' : PredicateGroup}
    (h : Returns ((Expr.group c children).fill entries) g () g') :
    ∃ block, Returns (fillEach entries children) (PredicateGroup.empty c) () block := by
  rw [Expr.fill, Returns] at h
  rcases hblock : fillEach entries children (PredicateGroup.empty c) with ⟨answer, block⟩
  rw [hblock] at h
  cases answer with
  | error e => simp at h
  | ok u => exact ⟨block, hblock⟩

/-- A conjunction adds the block that its children fill. -/
theorem adds_fill_group {entries : List Filling} {c : Conjunction} {children : List Expr}
    {ps : List Predicate} (h : (fillEach entries children).Adds ps) :
    Filling.Adds ((Expr.group c children).fill entries) [.group c ps] := by
  intro block
  have hrun : fillEach entries children (PredicateGroup.empty c) = _ := h (PredicateGroup.empty c)
  rw [Returns, Expr.fill, hrun]
  simp [PredicateGroup.add, PredicateGroup.toPredicate]

/-- What the entry at a position adds. -/
def addedAt (entries : List Filling) (i : Nat) : List Predicate :=
  ((entries[i]?).map Filling.added).getD []

variable {entries : List Filling}

mutual

/-- An expression adds to every block what is spliced from its entries, if each of them adds the
same to every block. -/
theorem Expr.adds_fill : ∀ e : Expr,
    (∀ i ∈ e.indices, ∀ f, entries[i]? = some f → f.Adds f.added) →
      Filling.Adds (e.fill entries) (e.splice .group (addedAt entries))
  | .condition i => by
      intro hnamed
      rw [Expr.fill, Expr.splice, addedAt]
      cases hentry : entries[i]? with
      | none => exact Filling.adds_pure
      | some f => exact hnamed i (by simp [Expr.indices]) f hentry
  | .group c children => by
      intro hnamed
      rw [Expr.indices] at hnamed
      exact adds_fill_group (adds_fillEach children hnamed)

/-- Several expressions add to every block what is spliced from their entries. -/
theorem adds_fillEach : ∀ es : List Expr,
    (∀ i ∈ indicesOf es, ∀ f, entries[i]? = some f → f.Adds f.added) →
      Filling.Adds (fillEach entries es) (spliceEach .group (addedAt entries) es)
  | [] => by
      intro _
      rw [fillEach, spliceEach]
      exact Filling.adds_pure
  | e :: rest => by
      intro hnamed
      simp only [indicesOf, List.mem_append] at hnamed
      rw [fillEach, spliceEach]
      exact (Expr.adds_fill e fun i hi => hnamed i (.inl hi)).bind
        (adds_fillEach rest fun i hi => hnamed i (.inr hi))

end

mutual

/-- Where an expression is filled in, each entry that it names was filled in. -/
theorem Expr.adds_of_returns_fill (hentries : ∀ f ∈ entries, f.Uniform) :
    ∀ (e : Expr) (block filled : PredicateGroup), Returns (e.fill entries) block () filled →
      ∀ i ∈ e.indices, ∀ f, entries[i]? = some f → f.Adds f.added
  | .condition j => by
      intro block filled h i hi f hf
      obtain rfl : i = j := by simpa [Expr.indices] using hi
      rw [Expr.fill, hf, Option.getD_some] at h
      exact hentries f (List.mem_of_getElem? hf) block filled h
  | .group c children => by
      intro block filled h
      obtain ⟨inner, hinner⟩ := returns_fillEach_of_group h
      rw [Expr.indices]
      exact adds_of_returns_fillEach hentries children _ _ hinner

/-- Where several expressions are filled in, each entry that they name was filled in. -/
theorem adds_of_returns_fillEach (hentries : ∀ f ∈ entries, f.Uniform) :
    ∀ (es : List Expr) (block filled : PredicateGroup),
      Returns (fillEach entries es) block () filled →
        ∀ i ∈ indicesOf es, ∀ f, entries[i]? = some f → f.Adds f.added
  | [] => by simp [indicesOf]
  | e :: rest => by
      intro block filled h i hi
      rw [fillEach, returns_bind] at h
      obtain ⟨⟨⟩, between, hfirst, hothers⟩ := h
      rw [indicesOf, List.mem_append] at hi
      exact hi.elim (Expr.adds_of_returns_fill hentries e _ _ hfirst i)
        (adds_of_returns_fillEach hentries rest _ _ hothers i)

end

end Logic

theorem ConditionEntry.fillings_eq_map (es : List ConditionEntry) :
    fillings es = es.map fill := by
  induction es with
  | nil => rfl
  | cons e rest ih => rw [fillings, ih, List.map_cons]

namespace ConditionGroup

/-- The logic of a group, compiled. A group with neither entries nor logic asks for nothing. -/
def expressions (g : ConditionGroup) : Except Error (List Logic.Expr) :=
  if g.entries.isEmpty && g.logic.isNone then .ok [] else g.compile

/-- The logic of a group names no position without an entry. -/
theorem indicesOf_lt_of_expressions {g : ConditionGroup} {es : List Logic.Expr}
    (h : g.expressions = .ok es) : ∀ i ∈ Logic.indicesOf es, i < g.entries.length := by
  unfold expressions at h
  split at h
  · obtain rfl := Except.ok.inj h
    simp [Logic.indicesOf]
  · exact Logic.indicesOf_lt_of_compile h

/-- Filling in a group fills in the expressions of its logic, or fails as its logic does. -/
theorem fill_eq (g : ConditionGroup) : g.fill = match g.expressions with
    | .error e => throw e
    | .ok es => Logic.fillEach (ConditionEntry.fillings g.entries) es := by
  rw [fill, fillFrom, ConditionEntry.fillings_eq_map, List.isEmpty_map, List.length_map,
    expressions, compile]
  cases hnothing : g.entries.isEmpty && g.logic.isNone with
  | true => simp [Logic.fillEach]
  | false =>
      cases hcompiled : compileLogic g.logic g.conjunction g.entries.length with
      | error e => simp
      | ok es => simp

theorem fill_of_expressions {g : ConditionGroup} {es : List Logic.Expr}
    (h : g.expressions = .ok es) :
    g.fill = Logic.fillEach (ConditionEntry.fillings g.entries) es := by
  rw [fill_eq, h]

/-- A group that is filled in fills in the expressions of its logic. -/
theorem returns_fillEach_of_fill {g : ConditionGroup} {block filled : PredicateGroup}
    (h : Returns g.fill block () filled) : ∃ es, g.expressions = .ok es ∧
      g.fill = Logic.fillEach (ConditionEntry.fillings g.entries) es := by
  cases hexpressions : g.expressions with
  | error e =>
      rw [fill_eq, hexpressions] at h
      exact absurd h returns_throw
  | ok es => exact ⟨es, rfl, fill_of_expressions hexpressions⟩

end ConditionGroup

namespace ConditionEntry

theorem fill_group (entries : List ConditionEntry) (logic : Option String) (c : Conjunction) :
    (group entries logic c).fill = (⟨entries, logic, c⟩ : ConditionGroup).fill := by
  rw [fill, ConditionGroup.fill]

mutual

/-- An entry adds the same to every block. -/
theorem fill_uniform : ∀ e : ConditionEntry, e.fill.Uniform
  | .condition c => by
      intro block filled h
      rw [ConditionEntry.fill] at h ⊢
      exact (Condition.adds_fill h).self
  | .group entries logic c => by
      intro block filled h
      rw [fill_group] at h ⊢
      obtain ⟨es, -, hfill⟩ := ConditionGroup.returns_fillEach_of_fill h
      rw [hfill] at h ⊢
      exact (Logic.adds_fillEach es
        (Logic.adds_of_returns_fillEach (fillings_uniform entries) es block filled h)).self

/-- Each of several entries adds the same to every block. -/
theorem fillings_uniform : ∀ es : List ConditionEntry, ∀ f ∈ fillings es, f.Uniform
  | [] => by simp [fillings]
  | e :: rest => by
      intro f hf
      rw [fillings, List.mem_cons] at hf
      cases hf with
      | inl hhead => exact hhead ▸ fill_uniform e
      | inr htail => exact fillings_uniform rest f htail

end

end ConditionEntry

namespace ConditionGroup

theorem applyOn_eq_ok {block : ConditionGroup} {g g' : PredicateGroup} :
    block.applyOn g = .ok g' ↔ Returns block.fill g () g' := by
  unfold applyOn Returns
  rcases hrun : block.fill g with ⟨answer, filled⟩
  cases answer with
  | error e => simp
  | ok u => simp

/-- A group that adds the same to every block applies to every block. -/
theorem applyOn_of_adds {g : ConditionGroup} {ps : List Predicate} (h : g.fill.Adds ps)
    (block : PredicateGroup) :
    g.applyOn block = .ok { block with members := block.members ++ ps } :=
  applyOn_eq_ok.mpr (h block)

/-- A group that applies to a block puts there what is spliced from its entries, each of which
adds the same to every block. -/
theorem spliced_of_applyOn {g : ConditionGroup} {block filled : PredicateGroup}
    (h : g.applyOn block = .ok filled) :
    ∃ es, g.expressions = .ok es ∧
      filled = { block with
        members := block.members ++
          Logic.spliceEach .group (Logic.addedAt (ConditionEntry.fillings g.entries)) es } ∧
      ∀ i ∈ Logic.indicesOf es, ∀ f, (ConditionEntry.fillings g.entries)[i]? = some f →
        f.Adds f.added := by
  have hrun := applyOn_eq_ok.mp h
  obtain ⟨es, hes, hfill⟩ := returns_fillEach_of_fill hrun
  rw [hfill] at hrun
  have hnamed := Logic.adds_of_returns_fillEach (ConditionEntry.fillings_uniform g.entries) es _ _
    hrun
  exact ⟨es, hes, (hrun.unique (Logic.adds_fillEach es hnamed block)).2, hnamed⟩

/-- Applying a group of conditions keeps the target's conjunction. -/
theorem conjunction_applyOn {block : ConditionGroup} {g g' : PredicateGroup}
    (h : block.applyOn g = .ok g') : g'.conjunction = g.conjunction := by
  obtain ⟨es, -, rfl, -⟩ := spliced_of_applyOn h
  rfl

end ConditionGroup

end RecordGraph
