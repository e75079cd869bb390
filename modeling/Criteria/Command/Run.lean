import Criteria.Command.Arguments
import Criteria.Command.ConfigFile
import Criteria.Schema.Document
import Criteria.Search

/-!
# Runs of the command

* `Host` — what the command asks of its surroundings: files and standard input.
* `run` — the outcome of an invocation: its warnings, and a printed result or a failure.
* `Select.print` — a query as text with one comment line for each bind value, or as a JSON object.
-/

namespace Criteria

/-- A bind value in a comment line of its own, after the number of its placeholder. -/
def bindLine (value : BindValue × Nat) : String :=
  "\n-- " ++ toString value.2 ++ ": " ++ value.1.json.text

/-- A query for a backend with its bind values. -/
def Select.print (b : Backend) (q : Select) : Command.Format → String
  | .text => q.sql b ++ Text.join "" ((q.bindings.zipIdx 1).map bindLine)
  | .json => (Json.object [("sql", .string (q.sql b)), ("params", .array (q.bindings.map BindValue.json))]).text

namespace Command

/-! ## Failures -/

/-- Why an invocation has no result. -/
inductive Failure where
  | configMissing (path : String)
  | configUnreadable (path : String)
  | configMalformed (path : String)
  | noSchema
  | schemaUnusable (path : String)
  | paramsUnreadable (path : String)
  | inputUnreadable
  | paramsMalformed
  | build (error : SearchError)
  | compile (error : SearchError)

/-- The message of a failure. -/
def Failure.message : Failure → String
  | configMissing path => "Config file not found: " ++ path
  | configUnreadable path => "Failed to read config file: " ++ path
  | configMalformed path => "Failed to parse config file: " ++ path
  | noSchema => "No schema document given (use --schema or set \"schema\" in the config file)"
  | schemaUnusable path => "Failed to load schema: " ++ path ++ ": Schema load error"
  | paramsUnreadable path => "Failed to read parameters file: " ++ path
  | inputUnreadable => "Failed to read parameters from stdin"
  | paramsMalformed => "Parameters must be a JSON object"
  | build error => "Failed to build search: " ++ error.message
  | compile error => "Failed to compile search: " ++ error.message

/-- What a run says on the side, and its result. -/
structure Outcome where
  warnings : List String
  result : Except Failure String

/-! ## Configuration -/

/-- A complete choice of schema document, backend and settings. -/
structure Config where
  schema : String
  backend : Backend
  settings : Settings

/-- The choices of an invocation before those of a file, and those before the defaults. -/
def Config.layer (i : Invocation) (file : ConfigFile) : Except Failure Config :=
  match i.schema.or file.schema with
  | none => .error .noSchema
  | some schema =>
    let usual := Settings.default
    .ok {
      schema := schema
      backend := (i.backend.or file.backend).getD .usual
      settings := {
        orGroupKey := file.search.orGroupKey.getD usual.orGroupKey
        andGroupKey := file.search.andGroupKey.getD usual.andGroupKey
        conditionKey := file.search.conditionKey.getD usual.conditionKey
        sortKey := file.search.sortKey.getD usual.sortKey
        ignoreUnknown := (i.ignoreUnknown.or file.search.ignoreUnknown).getD usual.ignoreUnknown
        distinct := (i.distinct.or file.search.distinct).getD usual.distinct } }

/-- What is said of a file with unknown fields. -/
def warnings (file : ConfigFile) : List String :=
  if file.unknown.isEmpty then []
  else ["Unknown fields in config file (possible typos) fields=" ++ Text.join ", " file.unknown]

/-! ## Surroundings -/

/-- What the command asks of its surroundings. A text is missing where there is no file, or where it is no text. -/
structure Host (m : Type → Type) where
  pathExists : String → m Bool
  readText : String → m (Option String)
  readInput : m (Option String)

variable {m : Type → Type} [Monad m]

/-- The file that is looked for where none is given. -/
def localConfig : String := "sift.json"

/-- The configuration file at a path. -/
def readConfig (host : Host m) (path : String) : m (Except Failure ConfigFile) := do
  match ← host.readText path with
  | none => return .error (.configUnreadable path)
  | some text =>
    match ConfigFile.parse? text with
    | none => return .error (.configMalformed path)
    | some file => return .ok file

/-- The configuration file of an invocation, or no choice where none is given and none is there. -/
def findConfig (host : Host m) (i : Invocation) : m (Except Failure ConfigFile) := do
  match i.config with
  | some path => if ← host.pathExists path then readConfig host path else return .error (.configMissing path)
  | none => if ← host.pathExists localConfig then readConfig host localConfig else return .ok .empty

/-- The text of the parameters: given in place, in a file after an at sign, or on standard input for a hyphen. -/
def paramsText (host : Host m) (params : String) : m (Except Failure String) := do
  if params = "-" then
    match ← host.readInput with
    | some text => return .ok text
    | none => return .error .inputUnreadable
  else
    match Text.afterStart? "@" params with
    | some path =>
      match ← host.readText path with
      | some text => return .ok text
      | none => return .error (.paramsUnreadable path)
    | none => return .ok params

/-! ## Runs -/

/-- The printed query of parameters. -/
def compile (i : Invocation) (config : Config) (schema : Schema) (params : String) : Except Failure String :=
  match (Json.parse? params).bind Json.fields? with
  | none => .error .paramsMalformed
  | some params =>
    match Search.build schema.catalog i.root config.settings params with
    | .error e => .error (.build e)
    | .ok search =>
      match search.select schema.catalog with
      | .error e => .error (.compile e)
      | .ok query => .ok (query.print config.backend i.format)

/-- The result of an invocation with a complete configuration. The schema is read before the parameters. -/
def runWith (host : Host m) (i : Invocation) (config : Config) : m (Except Failure String) := do
  match (← host.readText config.schema).bind Schema.parse? with
  | none => return .error (.schemaUnusable config.schema)
  | some schema =>
    match ← paramsText host i.params with
    | .error e => return .error e
    | .ok params => return compile i config schema params

/-- The outcome of an invocation. -/
def run (host : Host m) (i : Invocation) : m Outcome := do
  match ← findConfig host i with
  | .error e => return ⟨[], .error e⟩
  | .ok file =>
    match Config.layer i file with
    | .error e => return ⟨warnings file, .error e⟩
    | .ok config => return ⟨warnings file, ← runWith host i config⟩

end Command

end Criteria
