import SavedFilter.Program

/-!
# The executable

Reads the environment and the files that a run may ask for, and writes what the run ends with.
-/

namespace SavedFilter

/-- what is found at a path; a path that leads through a file leads nowhere -/
def readEntry (path : String) : IO Entry := do
  try
    discard (IO.FS.realPath path)
  catch _ =>
    return .missing
  try
    return .content (← IO.FS.readBinFile path)
  catch _ =>
    return .unreadable

/-- the entries of some paths; every other path is missing -/
def readEntries (paths : List String) : IO Files := do
  let entries ← paths.mapM fun path => return (path, ← readEntry path)
  return fun path => (entries.lookup path).getD .missing

def writeWarning (w : Warning) : IO Unit :=
  IO.eprintln ("WARN " ++ w.message ++
    match w.fields with
    | some fields => " fields=" ++ fields
    | none => "")

end SavedFilter

open SavedFilter

def main (args : List String) : IO UInt32 := do
  let env : CommandLine.Environment :=
    ⟨← IO.getEnv "SIEVE_CONFIG", ← IO.getEnv "SIEVE_COMPARISON"⟩
  let outcome := Program.run (← readEntries (Program.paths env args)) env args
  outcome.warnings.forM writeWarning
  IO.print outcome.output
  match outcome.error with
  | some message => IO.eprint ("\nError: " ++ message ++ "\n\n")
  | none => pure ()
  return outcome.exit.toUInt32
