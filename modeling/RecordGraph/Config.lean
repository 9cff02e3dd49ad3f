/-
# Settings

What a session can be set up with. Settings come from the caller or from variables, and are
checked before a session is opened.
-/
import RecordGraph.Condition.Conjunction
import RecordGraph.Text.Numeral

namespace RecordGraph

/-- The settings of a session. -/
structure Config where
  /-- What the keys of unsaved models begin with. -/
  placeholderPrefix : String
  /-- The conjunction that new queries start with. -/
  defaultConjunction : Conjunction
  /-- How many identifiers one fetching query asks for at most. -/
  fetchBatchSize : Option Nat
  /-- Whether queries are traced. -/
  traceQueries : Bool
  deriving DecidableEq, Repr

namespace Config

/-- The settings used when nothing else is said. -/
def standard : Config := ⟨"PLH", .and, none, false⟩

instance : Inhabited Config := ⟨standard⟩

/-- Checks the settings. -/
def validate (c : Config) : Except Error Unit :=
  if Text.isBlankText c.placeholderPrefix then .error (.configuration .emptyPrefix)
  else if c.fetchBatchSize = some 0 then .error (.configuration .zeroBatch)
  else .ok ()

/-- The truth value that a variable spells; in lower case, blanks around it aside. -/
def truth? (s : String) : Option Bool :=
  if ["1", "true", "yes", "on"].contains s then some true
  else if ["0", "false", "no", "off", ""].contains s then some false
  else none

/-- The settings that variables give. The names of the variables begin with the name of the
family that they belong to; a variable that is not set leaves its setting as it is. -/
def ofVariables (family : String) (lookup : String → Option String) : Except Error Config := do
  let name (suffix : String) : String := family ++ "_" ++ suffix
  let mut config := standard
  if let some value := lookup (name "PLACEHOLDER_PREFIX") then
    config := { config with placeholderPrefix := value }
  if let some value := lookup (name "DEFAULT_CONJUNCTION") then
    match Conjunction.parse? value with
    | some c => config := { config with defaultConjunction := c }
    | none => throw (.configuration (.notAConjunction (name "DEFAULT_CONJUNCTION") value))
  if let some value := lookup (name "FETCH_BATCH_SIZE") then
    match Text.word? (Text.trim value) with
    | some n => config := { config with fetchBatchSize := some n }
    | none => throw (.configuration (.notANumber (name "FETCH_BATCH_SIZE") value))
  if let some value := lookup (name "TRACE_QUERIES") then
    let spelling := Text.lower (Text.trim value)
    match truth? spelling with
    | some b => config := { config with traceQueries := b }
    | none => throw (.configuration (.notATruthValue (name "TRACE_QUERIES") spelling))
  config.validate
  return config

end Config

end RecordGraph
