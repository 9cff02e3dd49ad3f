/-
# Descriptions

Short texts that show what an object is: its type, its keys and names, not its contents.
-/
import RecordGraph.Graph.Related
import RecordGraph.Text.Quoted

namespace RecordGraph

variable {σ : Type}

open Text (quoted quotedList described)

/-- A value that may be missing. -/
def describedOption (text : Option String) : String :=
  match text with
  | none => "None"
  | some t => "Some(" ++ t ++ ")"

namespace Config

/-- The settings. -/
def description (c : Config) : String :=
  described "OrmConfig"
    [("placeholder_prefix", quoted c.placeholderPrefix),
     ("default_conjunction", match c.defaultConjunction with | .and => "And" | .or => "Or"),
     ("fetch_batch_size", describedOption (c.fetchBatchSize.map toString)),
     ("trace_queries", if c.traceQueries then "true" else "false")]

end Config

namespace AccessPolicy

/-- The name of the policy. -/
def description (p : AccessPolicy) : String := described "AccessPolicy" [("name", quoted p.name)]

end AccessPolicy

namespace ModelType

/-- The names that make up the type. -/
def description (t : ModelType) : String :=
  described "ModelType"
    [("name", quoted t.name),
     ("entity_type", quoted t.entityType),
     ("bundle", quoted t.bundle),
     ("relationships", quotedList t.relationships.keys),
     ("required_fields", quotedList t.requiredFields),
     ("validators", toString t.validators.length)]

end ModelType

namespace Session

/-- The settings of the session and what it has given out. -/
def description (s : Session) : Action σ String := do
  let d ← s.data
  return described "Session"
    [("config", d.config.description),
     ("placeholders", toString d.placeholders),
     ("access_policies", quotedList d.policies.keys)]

end Session

namespace Model

/-- The key, the type and the identifier. -/
def description (m : Model) : Action σ String := do
  let d ← m.data
  return described "Model"
    [("key", quoted d.key),
     ("model_type", quoted d.modelType.name),
     ("id", describedOption (d.record.id.map quoted))]

end Model

namespace Collection

/-- What the collection admits, and the keys of its members and of its snapshot. -/
def description (c : Collection) : Action σ String := do
  let d ← c.data
  let membership := match d.membership with
    | .ofType t => t.name
    | .ofEntity e => "polymorphic(" ++ e.getD "?" ++ ")"
  return described "Collection"
    [("constraint", quoted membership),
     ("models", quotedList d.members.keys),
     ("original_models", quotedList d.snapshot.keys)]

end Collection

namespace Related

/-- What is there, shown as itself. -/
def description (r : Related) : Action σ String :=
  match r with
  | .none => return "None"
  | .model m => m.description
  | .collection c => c.description

end Related

end RecordGraph
