/-
# Violations along a path

Validating along a path reports the models that the path leads to, one after the other, each under
the names and keys that lead to it. Here these ways are listed on their own, as a function of the
graph that writes nothing: a way goes through what is loaded, and branches at a collection into
its members. A model that is reached by several ways is reported once for each.

The path of a complaint is put together from the end. A complaint without a path of its own is
about the step before it, and a blank step is then taken for no step at all. So such a complaint
under blank keys comes out under what is before them.
-/
import Mathlib.Data.List.DropRight
import RecordGraph.Graph.Validating
import RecordGraph.Proofs.Reading.Answers

namespace RecordGraph

variable {σ : Type} {g : Graph σ}

/-! ## Joined paths -/

/-- Steps of which the last one is not blank are not joined to a blank text. -/
theorem isEmpty_intercalate {steps : List String}
    (h : ∀ hsome : steps ≠ [], ¬ (steps.getLast hsome).isEmpty = true) :
    (".".intercalate steps).isEmpty = steps.isEmpty := by
  rcases steps with _ | ⟨step, _ | ⟨next, rest⟩⟩
  · rfl
  · simpa using h
  · simp [String.intercalate_cons_cons]

theorem rdropWhile_cons {α : Type} (p : α → Bool) (x : α) (xs : List α) :
    (x :: xs).rdropWhile p =
      if (xs.rdropWhile p).isEmpty then [x].rdropWhile p else x :: xs.rdropWhile p := by
  induction xs using List.reverseRecOn with
  | nil => simp
  | append_singleton xs y ih =>
      rw [← List.cons_append, List.rdropWhile_concat, List.rdropWhile_concat]
      split
      · exact ih
      · simp

namespace Violation

/-- The complaint at the end of some steps: they are joined by points, and its own path comes
last. Without a path of its own, the steps before the blank ones at the end are all there is. -/
def along (steps : List String) (v : Violation) : Violation :=
  { v with
    path := ".".intercalate
      (if v.path.isEmpty then steps.rdropWhile (·.isEmpty) else steps ++ [v.path]) }

/-- The path of the complaint as the last one of the steps, without the blank ones at the end. -/
theorem along_eq (steps : List String) (v : Violation) : v.along steps =
    { v with path := ".".intercalate ((steps ++ [v.path]).rdropWhile (·.isEmpty)) } := by
  rw [along, List.rdropWhile_concat]

theorem along_nil (v : Violation) : v.along [] = v := by
  obtain ⟨path, message⟩ := v
  cases hblank : path.isEmpty with
  | true => simp [along, String.isEmpty_iff.mp hblank]
  | false => simp [along, hblank]

/-- One step more at the beginning is what merging puts before the path. -/
theorem along_cons (step : String) (steps : List String) (v : Violation) :
    v.along (step :: steps) = (v.along steps).under step := by
  have hlast := isEmpty_intercalate fun hsome =>
    List.rdropWhile_last_not String.isEmpty (steps ++ [v.path]) hsome
  rw [along_eq, along_eq, under, List.cons_append, rdropWhile_cons]
  simp only [hlast]
  cases hkept : ((steps ++ [v.path]).rdropWhile String.isEmpty).isEmpty with
  | true =>
      rw [if_pos rfl, if_pos rfl, List.rdropWhile_singleton]
      split
      · rename_i hblank
        rw [String.isEmpty_iff.mp hblank]
        rfl
      · rfl
  | false =>
      rw [if_neg (by simp), if_neg (by simp),
        String.intercalate_cons_of_ne_nil (by simpa using hkept)]

end Violation

/-! ## Ways along a path -/

/-- A way along a path: the names and keys that were taken, and the model that was reached. -/
structure Way where
  /-- The names of relationships and the keys of members, in order. -/
  steps : List String
  /-- The model at the end. -/
  model : Model

/-- The way that begins with some more steps. -/
def Way.behind (w : Way) (steps : List String) : Way := ⟨steps ++ w.steps, w.model⟩

namespace Graph

/-- The ways along a path through what is loaded, those through one member of a collection before
those through the next one. -/
def ways (g : Graph σ) : List String → Model → List Way
  | [], m => [⟨[], m⟩]
  | name :: rest, m =>
    match g.look m name with
    | .error _ | .ok .none => []
    | .ok (.model other) => (g.ways rest other).map (·.behind [name])
    | .ok (.collection d) =>
      d.members.entries.flatMap fun (key, member) =>
        (g.ways rest member).map (·.behind [name, key])

/-- A path can be followed from a model, by these names and keys, to a model. -/
inductive LeadsAlong (g : Graph σ) : List String → Model → List String → Model → Prop where
  | here (m : Model) : g.LeadsAlong [] m [] m
  | model {m other far : Model} {name : String} {rest steps : List String}
      (hlook : g.look m name = .ok (.model other)) (h : g.LeadsAlong rest other steps far) :
      g.LeadsAlong (name :: rest) m (name :: steps) far
  | member {m member far : Model} {name key : String} {rest steps : List String}
      {d : CollectionData} (hlook : g.look m name = .ok (.collection d))
      (hmember : d.members.get? key = some member) (h : g.LeadsAlong rest member steps far) :
      g.LeadsAlong (name :: rest) m (name :: key :: steps) far

section Ways

variable {m : Model} {name : String} {rest : List String}

theorem ways_of_none (h : g.look m name = .ok .none) : g.ways (name :: rest) m = [] := by
  rw [ways, h]

theorem ways_of_model {other : Model} (h : g.look m name = .ok (.model other)) :
    g.ways (name :: rest) m = (g.ways rest other).map (·.behind [name]) := by
  rw [ways, h]

theorem ways_of_collection {d : CollectionData} (h : g.look m name = .ok (.collection d)) :
    g.ways (name :: rest) m = d.members.entries.flatMap fun e =>
      (g.ways rest e.2).map (·.behind [name, e.1]) := by
  rw [ways, h]

theorem ways_of_error {e : Error} (h : g.look m name = .error e) :
    g.ways (name :: rest) m = [] := by
  rw [ways, h]

/-- What is listed are the ways that lead along the path. -/
theorem mem_ways_iff {path : List String} {w : Way} :
    w ∈ g.ways path m ↔ g.LeadsAlong path m w.steps w.model := by
  induction path generalizing m w with
  | nil =>
      rw [ways, List.mem_singleton]
      constructor
      · rintro rfl
        exact .here m
      · obtain ⟨steps, far⟩ := w
        intro h
        cases h
        rfl
  | cons name rest ih =>
      constructor
      · intro h
        cases hlook : g.look m name with
        | error e => rw [ways_of_error hlook] at h; cases h
        | ok x =>
            cases x with
            | none => rw [ways_of_none hlook] at h; cases h
            | model other =>
                rw [ways_of_model hlook, List.mem_map] at h
                obtain ⟨w, hw, rfl⟩ := h
                exact .model hlook (ih.mp hw)
            | collection d =>
                rw [ways_of_collection hlook, List.mem_flatMap] at h
                obtain ⟨⟨key, member⟩, hentry, h⟩ := h
                obtain ⟨w, hw, rfl⟩ := List.mem_map.mp h
                exact .member hlook (OrderedMap.get?_eq_some_iff.mpr hentry) (ih.mp hw)
      · obtain ⟨steps, far⟩ := w
        intro h
        cases h with
        | model hlook h =>
            rw [ways_of_model hlook]
            exact List.mem_map.mpr ⟨⟨_, far⟩, ih.mpr h, rfl⟩
        | member hlook hmember h =>
            rw [ways_of_collection hlook]
            exact List.mem_flatMap.mpr ⟨_, OrderedMap.get?_eq_some_iff.mp hmember,
              List.mem_map.mpr ⟨⟨_, far⟩, ih.mpr h, rfl⟩⟩

theorem mem_steps_behind {ws : List Way} {taken steps : List String} :
    steps ∈ (ws.map (·.behind taken)).map (·.steps) ↔
      ∃ after ∈ ws.map (·.steps), taken ++ after = steps := by
  simp [Way.behind]

/-- No two ways take the same names and keys. -/
theorem nodup_ways (g : Graph σ) (path : List String) (m : Model) :
    ((g.ways path m).map (·.steps)).Nodup := by
  induction path generalizing m with
  | nil => simp [ways]
  | cons name rest ih =>
      have hbehind (taken : List String) (far : Model) :
          (((g.ways rest far).map (·.behind taken)).map (·.steps)).Nodup := by
        have hsteps := (ih far).map (List.append_right_injective taken)
        rw [List.map_map] at hsteps ⊢
        exact hsteps
      cases hlook : g.look m name with
      | error e => simp [ways_of_error hlook]
      | ok x =>
          cases x with
          | none => simp [ways_of_none hlook]
          | model other =>
              rw [ways_of_model hlook]
              exact hbehind [name] other
          | collection d =>
              rw [ways_of_collection hlook, List.map_flatMap, List.nodup_flatMap]
              refine ⟨fun e _ => hbehind [name, e.1] e.2, ?_⟩
              have hkeys : d.members.entries.Pairwise fun e f => e.1 ≠ f.1 :=
                List.pairwise_map.mp d.members.distinct
              -- ways through different members differ in the key of the member
              refine hkeys.imp fun {e f} hne => List.disjoint_left.mpr fun steps he hf => ?_
              obtain ⟨after, -, rfl⟩ := mem_steps_behind.mp he
              obtain ⟨other, -, hsame⟩ := mem_steps_behind.mp hf
              simp only [List.cons_append, List.nil_append, List.cons.injEq, true_and] at hsame
              exact hne hsame.1.symm

end Ways

/-- What is reported of the model at the end of a way. -/
def report (g : Graph σ) (w : Way) : ViolationList :=
  ((g.model w.model).modelType.violations (g.model w.model).record).map (·.along w.steps)

/-- What is reported of all models that a path leads to. -/
def reports (g : Graph σ) (path : List String) (m : Model) : ViolationList :=
  (g.ways path m).flatMap g.report

section Reports

variable {m : Model} {name : String} {rest : List String}

theorem reports_nil (g : Graph σ) (m : Model) :
    g.reports [] m = (g.model m).modelType.violations (g.model m).record := by
  have hnil : (fun v : Violation => v.along []) = id := funext Violation.along_nil
  simp [reports, ways, report, hnil]

/-- One step more at the beginning is what merging puts before the paths. -/
theorem flatMap_report_behind (ws : List Way) (step : String) :
    (ws.map (·.behind [step])).flatMap g.report =
      ViolationList.under (ws.flatMap g.report) step := by
  rw [ViolationList.under, List.map_flatMap, List.flatMap_map]
  refine List.flatMap_congr fun w _ => ?_
  rw [report, report, List.map_map]
  exact List.map_congr_left fun v _ => v.along_cons step w.steps

theorem reports_of_none (h : g.look m name = .ok .none) : g.reports (name :: rest) m = [] := by
  rw [reports, ways_of_none h, List.flatMap_nil]

theorem reports_of_model {other : Model} (h : g.look m name = .ok (.model other)) :
    g.reports (name :: rest) m = (g.reports rest other).under name := by
  rw [reports, ways_of_model h, flatMap_report_behind, reports]

theorem reports_of_collection {d : CollectionData} (h : g.look m name = .ok (.collection d)) :
    g.reports (name :: rest) m = ViolationList.under
      (d.members.entries.flatMap fun e => (g.reports rest e.2).under e.1) name := by
  rw [reports, ways_of_collection h, List.flatMap_assoc, ViolationList.under, List.map_flatMap]
  refine List.flatMap_congr fun e _ => ?_
  have htwice : (g.ways rest e.2).map (·.behind [name, e.1]) =
      ((g.ways rest e.2).map (·.behind [e.1])).map (·.behind [name]) := by
    rw [List.map_map]
    rfl
  rw [htwice, flatMap_report_behind, flatMap_report_behind]
  rfl

end Reports

end Graph

/-! ## What validating reports -/

theorem Collection.returns_requireSingleType {c : Collection} {operation : String} {u : Unit}
    {t t' : Graph σ} (h : Returns (c.requireSingleType operation) t u t') : t' = t := by
  have hdata : Returns (c.data : Action σ _) t (t.collection c) t := rfl
  unfold requireSingleType at h
  rw [returns_bind] at h
  obtain ⟨d, t'', hread, h⟩ := h
  obtain ⟨rfl, rfl⟩ := hread.unique hdata
  split at h
  · exact absurd h returns_throw
  · exact (returns_pure.mp h).1

/-- Each member reports what is to be reported of it, under its key. -/
theorem Collection.returns_validateEach {asked : Model → String → Prop} {c : Collection}
    {check : Model → Action σ ViolationList} (reports : Model → ViolationList) {t t' : Graph σ}
    {vs : ViolationList} (h : g.OnlyOpens asked t)
    (hcheck : ∀ m ∈ (t.collection c).members.values, ∀ u found u', g.OnlyOpens asked u →
      Returns (check m) u found u' → g.OnlyOpens asked u' ∧ found = reports m)
    (hrun : Returns (c.validateEach check) t vs t') :
    g.OnlyOpens asked t' ∧
      vs = (t.collection c).members.entries.flatMap fun e => (reports e.2).under e.1 := by
  have hentries : Returns (c.entries : Action σ _) t (t.collection c).members.entries t := rfl
  unfold validateEach at hrun
  rw [returns_bind] at hrun
  obtain ⟨entries, u, hread, hrun⟩ := hrun
  obtain ⟨rfl, rfl⟩ := hread.unique hentries
  rw [returns_bind] at hrun
  obtain ⟨answers, last, hloop, hanswer⟩ := hrun
  obtain ⟨rfl, rfl⟩ := returns_pure.mp hanswer
  have hall := hloop.mapM_invariant (fun done answers u => g.OnlyOpens asked u ∧
    answers = done.map fun e => (reports e.2).under e.1) ⟨h, rfl⟩ ?_
  · exact ⟨hall.1, by rw [hall.2, List.flatMap_def]⟩
  · rintro done ⟨key, m⟩ rest answers v y v' hsplit ⟨hv, rfl⟩ hturn
    rw [returns_bind] at hturn
    obtain ⟨found, v'', hfound, hanswer⟩ := hturn
    obtain ⟨rfl, rfl⟩ := returns_pure.mp hanswer
    have hmember : m ∈ (u.collection c).members.values :=
      List.mem_map.mpr ⟨(key, m), by simp [hsplit], rfl⟩
    obtain ⟨hopens, rfl⟩ := hcheck m hmember v found v' hv hfound
    exact ⟨hopens, by simp⟩

namespace Model

/-- Along a path a model reports what its ways lead to, and nothing is written but empty
collections. -/
theorem returns_validate (hg : g.WellFormed) {asked : Model → String → Prop}
    (hasked : ∀ m name, asked m name) {path : List String} {m : Model} {t t' : Graph σ}
    {vs : ViolationList} (h : g.OnlyOpens asked t) (hm : g.HasModel m)
    (hrun : Returns (m.validate path) t vs t') :
    g.OnlyOpens asked t' ∧ vs = g.reports path m := by
  induction path generalizing m t t' vs with
  | nil =>
      have hown : Returns (m.validate [] : Action σ _) t
          ((t.model m).modelType.violations (t.model m).record) t := by
        rw [validate]
        rfl
      obtain ⟨rfl, rfl⟩ := hrun.unique hown
      refine ⟨h, ?_⟩
      rw [g.reports_nil, h.model m]
  | cons name rest ih =>
      rw [validate, returns_bind] at hrun
      obtain ⟨x, u, hread, hrun⟩ := hrun
      obtain ⟨y, hlook, hu, rfl, -, -⟩ :=
        (mirrors_read hg h hm (hasked m name)).answers x u hread
      have hwithin := Graph.within_of_look hg hm hlook
      cases x with
      | none =>
          obtain ⟨rfl, rfl⟩ := returns_pure.mp hrun
          exact ⟨hu, by rw [Graph.reports_of_none hlook]; rfl⟩
      | model other =>
          obtain ⟨nested, v, hnested, hanswer⟩ := returns_bind.mp hrun
          obtain ⟨rfl, rfl⟩ := returns_pure.mp hanswer
          obtain ⟨hopens, rfl⟩ := ih hu hwithin hnested
          exact ⟨hopens, (Graph.reports_of_model hlook).symm⟩
      | collection c =>
          have hmembers : Returns (c.validateEach (validate rest) >>= fun nested =>
              pure (nested.under name)) u vs t' := by
            simp only at hrun
            split at hrun
            · obtain ⟨⟨⟩, v, hsingle, hrun⟩ := returns_bind.mp hrun
              exact Collection.returns_requireSingleType hsingle ▸ hrun
            · exact hrun
          obtain ⟨nested, v, hnested, hanswer⟩ := returns_bind.mp hmembers
          obtain ⟨rfl, rfl⟩ := returns_pure.mp hanswer
          obtain ⟨hopens, rfl⟩ := Collection.returns_validateEach (g.reports rest) hu
            (fun member hmember _ _ _ hv hfound => ih hv (hwithin.1 member hmember) hfound) hnested
          exact ⟨hopens, (Graph.reports_of_collection hlook).symm⟩

end Model

/-- Validating a model along a path reports what the rules of their types find wrong with the
models that the path leads to through what is loaded: in order, once for each way that leads to
them, and nothing else. Each complaint comes under the names of the relationships and the keys of
the members on its way, joined by points; one without a path of its own under as much of them as
ends with a step that is not blank. The store is not called. -/
theorem validate_reports_ways [RecordStore σ] {Kept : σ → Prop} (hkept : RecordStore.Keeps Kept)
    (hg : Graph.Reachable Kept g) {m : Model} (hm : g.HasModel m) (path : String)
    {vs : ViolationList} {t : Graph σ} (h : Returns (m.validate (pathSteps path)) g vs t) :
    vs = (g.ways (pathSteps path) m).flatMap (fun w =>
        ((g.model w.model).modelType.violations (g.model w.model).record).map
          (·.along w.steps)) ∧
      (∀ w, w ∈ g.ways (pathSteps path) m ↔ g.LeadsAlong (pathSteps path) m w.steps w.model) ∧
      ((g.ways (pathSteps path) m).map (·.steps)).Nodup ∧ t.store = g.store := by
  have hwf := (hg.sound hkept).wellFormed
  obtain ⟨hopens, hreports⟩ := Model.returns_validate hwf (fun _ _ => trivial)
    (Graph.OnlyOpens.refl hwf fun _ _ => True) hm h
  exact ⟨hreports, fun _ => Graph.mem_ways_iff, g.nodup_ways _ m, hopens.store⟩

namespace Library

/-- Authors, who need a name. -/
def namedAuthor : ModelType := author.requireField "name"

/-- Articles, of which a complaint about the article as a whole says that it has no title. -/
def titledArticle : ModelType :=
  article.addValidator fun r =>
    if (r.get? "title").isNone then [⟨"", "An article has a title."⟩] else []

/-- The graph with two articles put to an author without a name. -/
def anonymous : Graph MemoryStore :=
  let g := (Model.forgeById session "author" "ann" (opened [namedAuthor, article])).2
  let g := (Model.forgeById session "article" "cells" g).2
  let g := (Model.forgeById session "article" "trees" g).2
  let g := (Model.put ⟨0⟩ "articles" ⟨1⟩ g).2
  (Model.put ⟨0⟩ "articles" ⟨2⟩ g).2

theorem reachable_anonymous : Graph.Reachable MemoryStore.Filed anonymous := by
  have htypes : ∀ t ∈ [namedAuthor, article], t.WellFormed := by
    simp [namedAuthor, wellFormed_author.requireField, wellFormed_article]
  refine .call (.call (.call (.call (.call (reachable_opened htypes) (.forgeById _ _ _))
    (.forgeById _ _ _)) (.forgeById _ _ _)) (.connect ?_ ?_ _)) (.connect ?_ ?_ _)
  all_goals decide +kernel

/-- The author is reported once for each article that leads back to her. -/
theorem anonymous_reported_twice : ∃ vs t,
    Returns (Model.validate (pathSteps "articles.author") ⟨0⟩) anonymous vs t ∧
      Graph.Reachable MemoryStore.Filed anonymous ∧ anonymous.HasModel ⟨0⟩ ∧
      vs = [.notBlank "articles.cells.author.name", .notBlank "articles.trees.author.name"] ∧
      t.store = anonymous.store := by
  have hmade : anonymous.HasModel ⟨0⟩ := by
    decide +kernel
  have hrun : Returns (Model.validate (pathSteps "articles.author") ⟨0⟩) anonymous _ _ :=
    returns_of_isOk (by decide +kernel) []
  obtain ⟨hreports, -, -, hstore⟩ :=
    validate_reports_ways MemoryStore.keeps_filed reachable_anonymous hmade "articles.author" hrun
  refine ⟨_, _, hrun, reachable_anonymous, hmade, hreports.trans ?_, hstore⟩
  decide +kernel

/-- The graph with an article that goes by a blank identifier put to an author. -/
def unlabeled : Graph MemoryStore :=
  let g := (Model.forgeById session "author" "ann" (opened [author, titledArticle])).2
  let g := (Model.forgeRecord session ((Record.new "node" "article").withId "") g).2
  (Model.put ⟨0⟩ "articles" ⟨1⟩ g).2

theorem reachable_unlabeled : Graph.Reachable MemoryStore.Filed unlabeled := by
  have htypes : ∀ t ∈ [author, titledArticle], t.WellFormed := by
    simp [titledArticle, wellFormed_article.addValidator, wellFormed_author]
  refine .call (.call (.call (reachable_opened htypes) (.forgeById _ _ _)) (.forgeRecord _ _))
    (.connect ?_ ?_ _)
  all_goals decide +kernel

/-- A complaint without a path of its own about a member under a blank key comes out as one about
the relationship. -/
theorem unlabeled_not_joined : ¬ ∀ (g : Graph MemoryStore) (m : Model) (path : String)
    (vs : ViolationList) (t : Graph MemoryStore), Graph.Reachable MemoryStore.Filed g →
      g.HasModel m → Returns (m.validate (pathSteps path)) g vs t →
        vs = (g.ways (pathSteps path) m).flatMap fun w =>
          ((g.model w.model).modelType.violations (g.model w.model).record).map fun v =>
            { v with
              path := ".".intercalate
                (if v.path.isEmpty then w.steps else w.steps ++ [v.path]) } := by
  intro hjoined
  have hrun : Returns (Model.validate (pathSteps "articles") ⟨0⟩) unlabeled _ _ :=
    returns_of_isOk (by decide +kernel) []
  have hequal := hjoined unlabeled ⟨0⟩ "articles" _ _ reachable_unlabeled (by decide +kernel) hrun
  exact absurd hequal (by decide +kernel)

end Library

end RecordGraph
