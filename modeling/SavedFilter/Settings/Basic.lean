import SavedFilter.CommandLine
import SavedFilter.Settings.File
import SavedFilter.Query.Compose

/-!
# Settings

What is not given on the command line comes from a settings file, and what the file does not give
has a default.  The file is the one that is named, which must exist, or else `sieve.json`, if that
exists.
-/

namespace SavedFilter

inductive Entry where
  | missing
  | unreadable
  | content (bytes : ByteArray)

abbrev Files := String → Entry

def Entry.isMissing : Entry → Bool
  | .missing => true
  | _ => false

/-- the text of an entry, if it can be read and is UTF-8 -/
def Entry.text? : Entry → Option String
  | .content bytes => String.fromUTF8? bytes
  | _ => none

/-- something that a person should know, though it stops nothing -/
structure Warning where
  message : String
  fields : Option String
  deriving DecidableEq, Repr

structure Request where
  config : Option String
  token : Option String
  pretty : Bool
  deriving DecidableEq, Repr

structure Settings where
  token : String
  pretty : Bool
  deriving DecidableEq, Repr

namespace Settings

inductive Fault where
  | notFound (path : String)
  | unreadable (path : String)
  | invalid (path : String)
  deriving DecidableEq, Repr

def Fault.message : Fault → String
  | .notFound path => "Config file not found: " ++ path
  | .unreadable path => "Failed to read config file: " ++ path
  | .invalid path => "Failed to parse config file: " ++ path

def defaultPath : String := "sieve.json"

def path? (files : Files) (r : Request) : Except Fault (Option String) :=
  match r.config with
  | some path => if (files path).isMissing then .error (.notFound path) else .ok (some path)
  | none => .ok (if (files defaultPath).isMissing then none else some defaultPath)

def readFile (files : Files) (path : String) : Except Fault FileSettings :=
  match (files path).text? with
  | none => .error (.unreadable path)
  | some s => (FileSettings.read s.toList).mapError fun _ => .invalid path

def merge (r : Request) (f : FileSettings) : Settings :=
  ⟨(r.token <|> f.token).getD defaultToken, r.pretty || f.pretty.getD false⟩

def unknownWarning (f : FileSettings) : List Warning :=
  if f.unknown.isEmpty then []
  else [⟨"Unknown fields in config file (possible typos)", some (", ".intercalate f.unknown)⟩]

def load (files : Files) (r : Request) : Except Fault (Settings × List Warning) := do
  let file ← match ← path? files r with
    | none => .ok FileSettings.none
    | some path => readFile files path
  .ok (merge r file, unknownWarning file)

end Settings
end SavedFilter
