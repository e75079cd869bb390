import Criteria.Sql.Backend

/-!
# Command line arguments

* `Argument.ofText` — one argument: an option with or without its value, the end of options, or a positional argument.
* `Given.read?` — the arguments in order. An option is given once at most, and its value may be the next argument.
* `Request.parse?` — what is asked for. Options that are not given are looked up in the environment, and there is no
  request if an argument is missing, superfluous or not valid.
-/

namespace Criteria.Command

/-- How the result is printed. -/
inductive Format where
  /-- The query and a comment line for each bind value. -/
  | text
  /-- An object of the query and its bind values. -/
  | json
  deriving DecidableEq

/-- The formats by name. -/
def Format.byName : Keyed Format := [("text", text), ("json", json)]

/-- An option with a value. -/
inductive OptionName where
  | schema
  | config
  | backend
  | distinct
  | ignoreUnknown
  | format
  deriving DecidableEq

namespace OptionName

/-- Options by their long names. -/
def long : Keyed OptionName :=
  [("schema", schema), ("config", config), ("backend", backend), ("distinct", distinct),
    ("ignore-unknown", ignoreUnknown), ("format", format)]

/-- Options by their letters. -/
def letter? : Char → Option OptionName
  | 's' => some schema
  | 'c' => some config
  | 'b' => some backend
  | 'f' => some format
  | _ => none

/-- The environment variable that stands for an option. -/
def environmentName? : OptionName → Option String
  | schema => some "SIFT_SCHEMA"
  | config => some "SIFT_CONFIG"
  | backend => some "SIFT_BACKEND"
  | distinct => some "SIFT_DISTINCT"
  | ignoreUnknown | format => none

end OptionName

/-- Reads "true" and "false". -/
def truth? : String → Option Bool
  | "true" => some true
  | "false" => some false
  | _ => none

/-- Reads a path, which is not empty. -/
def path? (s : String) : Option String := if s = "" then none else some s

/-- Whether a text is a value of an option. -/
def OptionName.accepts : OptionName → String → Bool
  | schema, s | config, s => (path? s).isSome
  | backend, s => (Backend.ofText? s).isSome
  | distinct, s | ignoreUnknown, s => (truth? s).isSome
  | format, s => (Format.byName.get? s).isSome

/-! ## Single arguments -/

/-- One argument. -/
inductive Argument where
  | positional (s : String)
  | option (o : OptionName) (value : Option String)
  | help
  | version
  /-- Two hyphens: all that follows is positional. -/
  | endOfOptions
  | unknown

/-- Whether an argument cannot be the value of the option before it: it starts with a hyphen and goes on. -/
def isOptionLike (s : String) : Bool :=
  match s.toList with
  | '-' :: _ :: _ => true
  | _ => false

/-- An argument after two hyphens: a name, and perhaps a value after an equals sign. -/
def longArgument (cs : List Char) : Argument :=
  let name := String.ofList (cs.takeWhile (· ≠ '='))
  let value := match cs.dropWhile (· ≠ '=') with
    | [] => none
    | _ :: rest => some (String.ofList rest)
  match OptionName.long.get? name with
  | some o => .option o value
  | none => if name = "help" ∧ value = none then .help else if name = "version" ∧ value = none then .version else .unknown

/-- An argument after one hyphen: a letter, and perhaps a value with or without an equals sign before it. -/
def letterArgument (letter : Char) (cs : List Char) : Argument :=
  match OptionName.letter? letter with
  | some o =>
    match cs with
    | [] => .option o none
    | '=' :: rest => .option o (some (String.ofList rest))
    | rest => .option o (some (String.ofList rest))
  | none => if letter = 'h' then .help else if letter = 'V' then .version else .unknown

/-- Reads one argument. -/
def Argument.ofText (s : String) : Argument :=
  match s.toList with
  | ['-', '-'] => .endOfOptions
  | '-' :: '-' :: cs => longArgument cs
  | '-' :: letter :: cs => letterArgument letter cs
  | _ => .positional s

/-! ## All arguments -/

/-- What has been given so far. -/
structure Given where
  positionals : List String
  options : List (OptionName × String)

namespace Given

/-- The text given for an option. -/
def text? (g : Given) (o : OptionName) : Option String := (g.options.find? fun pair => pair.1 == o).map Prod.snd

/-- Gives an option that has not been given. -/
def give? (g : Given) (o : OptionName) (s : String) : Option Given :=
  if (g.text? o).isSome ∨ ¬o.accepts s then none else some { g with options := g.options ++ [(o, s)] }

/-- Takes one more positional argument: there are two at most. -/
def take? (g : Given) (s : String) : Option Given :=
  if g.positionals.length < 2 then some { g with positionals := g.positionals ++ [s] } else none

/-- How the arguments end. -/
inductive Outcome where
  | help
  | version
  | all (g : Given)

/-- Reads the arguments from left to right; `pending` is the option whose value comes next. A request for help or for the
version ends the reading. -/
def read? (g : Given) (pending : Option OptionName) : List String → Option Outcome
  | [] => if pending = none then some (.all g) else none
  | arg :: rest =>
    match pending with
    | some o =>
      if isOptionLike arg then none
      else
        match g.give? o arg with
        | some g => read? g none rest
        | none => none
    | none =>
      match Argument.ofText arg with
      | .positional s =>
        match g.take? s with
        | some g => read? g none rest
        | none => none
      | .option o none => read? g (some o) rest
      | .option o (some value) =>
        match g.give? o value with
        | some g => read? g none rest
        | none => none
      | .help => some .help
      | .version => some .version
      | .endOfOptions => (rest.foldlM take? g).map .all
      | .unknown => none

/-- Adds an option from the environment unless it has been given. -/
def addVariable? (env : String → Option String) (g : Given) (o : OptionName) : Option Given :=
  match g.text? o, o.environmentName?.bind env with
  | none, some s => g.give? o s
  | _, _ => some g

/-- Adds the options from the environment. -/
def addVariables? (env : String → Option String) (g : Given) : Option Given :=
  OptionName.long.values.foldlM (addVariable? env) g

end Given

/-! ## Requests -/

/-- What to compile, and how. -/
structure Invocation where
  root : String
  params : String
  schema : Option String
  config : Option String
  backend : Option Backend
  distinct : Option Bool
  ignoreUnknown : Option Bool
  format : Format

/-- The parameters of those who give none: an empty object. -/
def defaultParams : String := "\x7b\x7d"

/-- The invocation of complete arguments; the root entity has to be among them. -/
def Given.invocation? (g : Given) : Option Invocation :=
  match g.positionals with
  | [] => none
  | root :: rest =>
    some {
      root := root
      params := rest.head?.getD defaultParams
      schema := g.text? .schema
      config := g.text? .config
      backend := (g.text? .backend).bind Backend.ofText?
      distinct := (g.text? .distinct).bind truth?
      ignoreUnknown := (g.text? .ignoreUnknown).bind truth?
      format := ((g.text? .format).bind fun s => Format.byName.get? s).getD .text }

/-- What is asked for. -/
inductive Request where
  | help
  | version
  | compile (i : Invocation)

/-- Reads the arguments and the environment. -/
def Request.parse? (env : String → Option String) (args : List String) : Option Request :=
  match (Given.mk [] []).read? none args with
  | some .help => some .help
  | some .version => some .version
  | some (.all g) => ((g.addVariables? env).bind Given.invocation?).map .compile
  | none => none

end Criteria.Command
