import SavedFilter.Document
import SavedFilter.Settings.Basic

/-!
# The program

`run` says for arguments, environment and files what the program writes and how it exits: with 0
when it has done its work, with 1 when the settings or the document could not be loaded, and with 2
when the command line is not understood or a checked filter has no usable condition.  A run that
fails writes nothing but its error.
-/

namespace SavedFilter

structure Report where
  query : Query
  valid : Bool
  deriving DecidableEq, Repr

namespace Report

def ofGroup (ops : Operators) (token : String) (g : Group) : Report :=
  ⟨g.query ops token, g.isValid⟩

def toJson (r : Report) : Json :=
  .obj [("expression", .str r.query.text), ("parameters", r.query.valuesJson),
    ("valid", .bool r.valid)]

def text (pretty : Bool) (r : Report) : String :=
  if pretty then r.toJson.prettyText else r.toJson.compactText

end Report

namespace Program
open CommandLine

inductive Failure where
  | settings (f : Settings.Fault)
  | unreadable (path : String)
  | document (path : String) (f : Document.LoadFault)
  deriving Repr

/-- the text of a fault; a bad value is named once as a fault and once as its cause -/
def documentMessage (f : Document.LoadFault) : String :=
  match f with
  | .value e => f.message ++ ": " ++ e.message
  | f => f.message

def Failure.message : Failure → String
  | .settings f => f.message
  | .unreadable path => "Failed to read filter document: " ++ path
  | .document path f => "Failed to load filter document: " ++ path ++ ": " ++ documentMessage f

def loadDocument (files : Files) (path : String) : Except Failure Group :=
  match (files path).text? with
  | none => .error (.unreadable path)
  | some s => (Document.load s).mapError (.document path)

structure Outcome where
  exit : Nat
  output : String
  error : Option String
  warnings : List Warning
  deriving DecidableEq, Repr

def checkCode (g : Group) : Nat := if g.isValid then 0 else 2

def checkLine (g : Group) : String := if g.isValid then "valid" else "invalid"

def execute (files : Files) (s : Settings) : Command → Except Failure (Nat × String)
  | .check file => (loadDocument files file).map fun g => (checkCode g, checkLine g)
  | .compile file _ =>
    (loadDocument files file).map fun g => (0, (Report.ofGroup .builtin s.token g).text s.pretty)
  | .operators => .ok (0, Operators.builtin.listing)

def request (i : Invocation) : Request :=
  ⟨i.config, i.token,
    match i.command with
    | .compile _ pretty => pretty
    | _ => false⟩

def runInvocation (files : Files) (i : Invocation) : Outcome :=
  match Settings.load files (request i) with
  | .error f => ⟨1, "", some f.message, []⟩
  | .ok (settings, warnings) =>
    match execute files settings i.command with
    | .error f => ⟨1, "", some f.message, warnings⟩
    | .ok (code, line) => ⟨code, line ++ "\n", none, warnings⟩

def versionText : String := "sieve 0.1.0\n"

/-- A summary in words of its own, the same for every command, with the options of all of them.  It
stands in for a text that is generated from the declared arguments: that one tells of the command
that is asked about, lists `--pretty` with `compile` alone, and names the environment variable that
may stand for an option. -/
def helpText : String :=
  "Compile saved query filters into predicate expressions\n\n" ++
  "Usage: sieve [OPTIONS] <COMMAND>\n\n" ++
  "Commands:\n" ++
  "  check      Report whether a saved filter has at least one usable condition\n" ++
  "  compile    Print the compiled expression and its parameters\n" ++
  "  operators  List registered operator codes\n" ++
  "  help       Print this message\n\n" ++
  "Options:\n" ++
  "  -c, --config <CONFIG>          Path to config file\n" ++
  "      --comparison <COMPARISON>  Token passed as the comparison argument of string methods\n" ++
  "      --pretty                   Pretty-print the output of compile\n" ++
  "  -h, --help                     Print help\n" ++
  "  -V, --version                  Print version\n"

def run (files : Files) (env : Environment) (args : List String) : Outcome :=
  match parse env args with
  | .error .help => ⟨0, helpText, none, []⟩
  | .error .version => ⟨0, versionText, none, []⟩
  | .error .usage => ⟨2, "", none, []⟩
  | .ok i => runInvocation files i

/-- the paths that a run may ask for -/
def paths (env : Environment) (args : List String) : List String :=
  match parse env args with
  | .error _ => []
  | .ok i =>
    let document := match i.command with
      | .check file => [file]
      | .compile file _ => [file]
      | .operators => []
    i.config.toList ++ Settings.defaultPath :: document

end Program
end SavedFilter
