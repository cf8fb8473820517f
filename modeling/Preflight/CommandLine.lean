import Preflight.Directory.FileSystem
import Preflight.Report

/-!
# The command line

`-C DIR` changes the directory, `-d DIR` names a module, `-p NAME=VALUE` supplies a parameter and
`-F FORMAT` chooses between YAML and JSON. The report goes to the output and the diagnostics to the
error output.

* A value stands in the argument after its option or in the same one, behind `=` or, for a short
  option, right behind its letter.
* The exit code is 0, 1 if there are errors among the diagnostics, and 2 if a module cannot be
  loaded.
-/

namespace Preflight

/-- The formats of a report. -/
inductive Format where
  | yaml
  | json
  deriving DecidableEq, Repr

/-- The text of a report in a format. -/
def Format.render : Format → Datum → String
  | .yaml, d => Yaml.document d
  | .json, d => Json.pretty d

/-- The options that take a value. -/
inductive Flag where
  | enter
  | directory
  | parameter
  | format
  deriving DecidableEq, Repr

/-- The option of a word behind two hyphens. -/
def Flag.ofWord? : String → Option Flag
  | "directory" => some .enter
  | "dir" => some .directory
  | "param" => some .parameter
  | "output-format" => some .format
  | _ => none

/-- The option of a letter behind a hyphen. -/
def Flag.ofLetter? : Char → Option Flag
  | 'C' => some .enter
  | 'd' => some .directory
  | 'p' => some .parameter
  | 'F' => some .format
  | _ => none

/-- What the arguments ask for. -/
structure Options where
  /-- The directories to change to, one after another. -/
  enter : List String
  /-- The directories of the modules. -/
  directories : List String
  input : Input
  format? : Option Format

namespace Options

/-- The options before any argument. -/
def start : Options := ⟨[], [], [], none⟩

/-- Sets an option; fails on a value that it does not take and on a second format. -/
def set (o : Options) (value : String) : Flag → Option Options
  | .enter => if value = "" then failure else some { o with enter := o.enter ++ [value] }
  | .directory =>
    if value = "" then failure else some { o with directories := o.directories ++ [value] }
  | .parameter => (Supplied.parse? value).map fun s => { o with input := o.input ++ [s] }
  | .format =>
    if o.format?.isSome then failure
    else if value = "yaml" then some { o with format? := some .yaml }
    else if value = "json" then some { o with format? := some .json }
    else failure

/-- The option that an argument names, with the value in the same argument if there is one. -/
def flag? (arg : List Char) : Option (Flag × Option String) :=
  match arg with
  | '-' :: '-' :: word => do
    let flag ← Flag.ofWord? (String.ofList (word.takeWhile (· ≠ '=')))
    match word.dropWhile (· ≠ '=') with
    | [] => return (flag, none)
    | _ :: value => return (flag, some (String.ofList value))
  | '-' :: letter :: value => do
    let flag ← Flag.ofLetter? letter
    match value with
    | [] => return (flag, none)
    | '=' :: value => return (flag, some (String.ofList value))
    | value => return (flag, some (String.ofList value))
  | _ => failure

/-- Whether an argument cannot be the value of the option before it. -/
def startsFlag (arg : String) : Bool := arg ≠ "-" && arg.toList.head? = some '-'

/-- Reads arguments, of which the first may be the value of an option. -/
def parseFrom (o : Options) (pending : Option Flag) : List String → Option Options
  | [] => if pending.isSome then failure else some o
  | arg :: args => match pending with
    | some flag => if startsFlag arg then failure else do parseFrom (← o.set arg flag) none args
    | none => match flag? arg.toList with
      | some (flag, some value) => do parseFrom (← o.set value flag) none args
      | some (flag, none) => parseFrom o (some flag) args
      | none => if arg = "--" ∧ args = [] then some o else failure

/-- Reads all arguments. -/
def parse? (args : List String) : Option Options := parseFrom start none args

end Options

/-- How a run ends. -/
structure Outcome where
  exitCode : Nat
  output : String
  errors : String

namespace CommandLine

variable {m : Type → Type} [Monad m]

/-- Changes the directory several times; fails with a message. -/
def enterAll (fs : FileSystem m) (current : String) : List String → m (Except String String)
  | [] => return .ok current
  | path :: paths => do
    match ← fs.resolve current path with
    | .error err =>
      return .error ("Failed to resolve path for -C/--directory " ++ path ++ "\n" ++ err.message ++
        "\n")
    | .ok place =>
      if place.isDirectory then enterAll fs place.path paths
      else
        return .error ("Failed to set work directory to " ++ place.path ++ "\n" ++
          PathError.notDirectory.message ++ "\n")

/-- Loads the modules of several directories; fails with a message. -/
def loadAll (fs : FileSystem m) (current : String) : List String → m (Except String (List Module))
  | [] => return .ok []
  | path :: paths => do
    match ← fs.load current path with
    | .error err =>
      return .error ("Failed to load " ++ path ++ "\n" ++ String.join (err.lines.map (· ++ "\n")))
    | .ok loaded => return (loaded :: ·) <$> (← loadAll fs current paths)

/-- The outcome of an extraction. -/
def outcome (format : Format) (o : Output) : Outcome :=
  ⟨if o.hasErrors then 1 else 0, format.render o.report,
    String.join (o.diagnostics.map fun d => d.text ++ "\n")⟩

/-- Does what the options ask for. -/
def runOptions (fs : FileSystem m) (current : String) (o : Options) : m Outcome := do
  match ← enterAll fs current o.enter with
  | .error message => return ⟨1, "", message⟩
  | .ok directory =>
    match ← loadAll fs directory (if o.directories = [] then ["."] else o.directories) with
    | .error message => return ⟨2, "", message⟩
    | .ok modules => return outcome (o.format?.getD .yaml) (extract o.input modules).1

/-- Runs with some arguments in a directory; none if the arguments cannot be understood. -/
def run (fs : FileSystem m) (current : String) (args : List String) : m (Option Outcome) := do
  match Options.parse? args with
  | none => return none
  | some o => return some (← runOptions fs current o)

end CommandLine
end Preflight
