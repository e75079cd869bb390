import Criteria.Command.Help
import Criteria.Command.Run

/-!
# The command

`main` reads the arguments, and prints the query on standard output, and warnings and failures on standard error.
-/

open Criteria.Command

/-- The surroundings of the process. -/
def processHost : Host IO where
  pathExists path := do
    match ← (IO.FS.readFile path).toBaseIO with
    | .error (.noFileOrDirectory ..) => return false
    | _ => return true
  readText path := do
    match ← (IO.FS.readFile path).toBaseIO with
    | .ok text => return some text
    | .error _ => return none
  readInput := do
    return String.fromUTF8? (← (← IO.getStdin).readBinToEnd)

/-- The values of the environment variables that stand for options. -/
def readEnvironment : IO (List (String × String)) := do
  let names := OptionName.long.filterMap fun pair => pair.2.environmentName?
  names.filterMapM fun name => do
    return (← IO.getEnv name).map fun value => (name, value)

/-- Runs the command; the result is its exit code. -/
def main (args : List String) : IO UInt32 := do
  let env ← readEnvironment
  match Request.parse? (fun name => env.lookup name) args with
  | none => IO.eprintln usage; return 2
  | some .help => IO.println helpText; return 0
  | some .version => IO.println versionText; return 0
  | some (.compile i) =>
    let outcome ← run processHost i
    for warning in outcome.warnings do
      IO.eprintln ("WARN " ++ warning)
    match outcome.result with
    | .ok text => IO.println text; return 0
    | .error e => IO.eprintln ("\nError: " ++ e.message ++ "\n"); return 1
