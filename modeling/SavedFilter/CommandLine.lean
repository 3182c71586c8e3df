/-!
# The command line

    [options] check <file> [options]
    [options] compile <file> [--pretty] [options]
    [options] operators [options]

The options `-c`/`--config <path>` and `--comparison <token>` may stand before the command and
behind it, once on each side; the inner one wins.  Their value is attached, with `=` or, for the
letter, without, or it is the next argument.  `--` ends the options of its side.  What is given on
neither side comes from the environment.

A side is read from left to right into a `Draft`.  An argument that may be a value waits in the
draft until the next option or the end shows that it is complete; only then it is accepted.  Thus of
two faults the one that is found first counts, and a call for help that comes before it wins.
-/

namespace SavedFilter.CommandLine

inductive Refusal where
  | help
  | version
  | usage
  deriving DecidableEq, Repr

inductive Command where
  | check (file : String)
  | compile (file : String) (pretty : Bool)
  | operators
  deriving DecidableEq, Repr

structure Invocation where
  command : Command
  config : Option String
  token : Option String
  deriving DecidableEq, Repr

/-- the variables that stand in for missing options -/
structure Environment where
  config : Option String
  token : Option String
  deriving DecidableEq, Repr

/-! ## arguments -/

inductive Form where
  /-- two hyphens, which end the options -/
  | escape
  | long (name : String) (attached : Option String)
  | short (letter : Char) (attached : Option String)
  | plain
  deriving DecidableEq, Repr

def attachedValue : List Char → Option String
  | '=' :: v => some (String.ofList v)
  | _ => none

def shortValue (cs : List Char) : Option String :=
  if cs.isEmpty then none else some (String.ofList (if cs.head? = some '=' then cs.drop 1 else cs))

def form (arg : String) : Form :=
  match arg.toList with
  | ['-', '-'] => .escape
  | '-' :: '-' :: cs =>
    .long (String.ofList (cs.takeWhile (· != '='))) (attachedValue (cs.dropWhile (· != '=')))
  | ['-'] => .plain
  | '-' :: letter :: cs => .short letter (shortValue cs)
  | _ => .plain

inductive CommandName where
  | check
  | compile
  | operators
  deriving DecidableEq, Repr

def CommandName.ofText? (s : String) : Option CommandName :=
  if s = "check" then some .check
  else if s = "compile" then some .compile
  else if s = "operators" then some .operators
  else none

/-- the side of the command: in front of it, or behind its name -/
abbrev Side := Option CommandName

inductive Slot where
  | config
  | token
  | file
  deriving DecidableEq, Repr

/-- what an option is for: it has a value for a slot, or does something by itself -/
inductive Switch where
  | value (slot : Slot)
  | pretty
  | help
  | version
  deriving DecidableEq, Repr

def longSwitch? (side : Side) (name : String) : Option Switch :=
  if name = "config" then some (.value .config)
  else if name = "comparison" then some (.value .token)
  else if name = "help" then some .help
  else if name = "version" ∧ side = none then some .version
  else if name = "pretty" ∧ side = some .compile then some .pretty
  else none

def shortSwitch? (side : Side) (letter : Char) : Option Switch :=
  if letter = 'c' then some (.value .config)
  else if letter = 'h' then some .help
  else if letter = 'V' ∧ side = none then some .version
  else none

/-! ## drafts -/

structure Draft where
  config : Option String
  token : Option String
  file : Option String
  pretty : Bool
  /-- the slot whose value is not accepted yet, and the value, unless it is still to come -/
  pending : Option (Slot × Option String)
  deriving DecidableEq, Repr

namespace Draft

def empty : Draft := ⟨none, none, none, false, none⟩

/-- a value for a slot, which must not have one yet; a path must not be empty -/
def accept (d : Draft) (slot : Slot) (v : String) : Except Refusal Draft :=
  match slot with
  | .config => if d.config.isSome ∨ v = "" then .error .usage else .ok { d with config := some v }
  | .token => if d.token.isSome then .error .usage else .ok { d with token := some v }
  | .file => if d.file.isSome ∨ v = "" then .error .usage else .ok { d with file := some v }

/-- the draft with the value that waits accepted -/
def settle (d : Draft) : Except Refusal Draft :=
  match d.pending with
  | none => .ok d
  | some (_, none) => .error .usage
  | some (slot, some v) => accept { d with pending := none } slot v

def option (d : Draft) (slot : Slot) (attached : Option String) : Except Refusal Draft := do
  let d ← d.settle
  match attached with
  | some v => d.accept slot v
  | none => .ok { d with pending := some (slot, none) }

/-- the slot that the next argument is a value for -/
def awaited (d : Draft) : Option Slot :=
  match d.pending with
  | some (slot, none) => some slot
  | _ => none

def act (d : Draft) (s : Switch) : Except Refusal Draft :=
  match s with
  | .value _ => .error .usage
  | .pretty => if d.pretty then .error .usage else .ok { d with pretty := true }
  | .help => .error .help
  | .version => .error .version

/-- an option by its long name, which without a value must not have one attached -/
def long (d : Draft) (s : Switch) (attached : Option String) : Except Refusal Draft :=
  match s with
  | .value slot => d.option slot attached
  | s => if attached.isSome then .error .usage else d.settle >>= (act · s)

/-- An option by its letter.  What is attached to one without value would be more letters, but the
options that are known end the reading. -/
def short (d : Draft) (s : Switch) (attached : Option String) : Except Refusal Draft :=
  match s with
  | .value slot => d.option slot attached
  | s => d.settle >>= (act · s)

def positional (d : Draft) (side : Side) (arg : String) : Except Refusal Draft :=
  if side = none ∨ side = some .operators then .error .usage
  else do
    let d ← d.settle
    if d.file.isSome then .error .usage else .ok { d with pending := some (.file, some arg) }

end Draft

/-- one argument on a side where options have not ended -/
def step (side : Side) (d : Draft) (arg : String) : Except Refusal Draft :=
  match form arg with
  | .long name attached =>
    match longSwitch? side name with
    | some s => d.long s attached
    | none => .error .usage
  | .short letter attached =>
    match shortSwitch? side letter with
    | some s => d.short s attached
    | none => .error .usage
  | .escape | .plain =>
    match d.awaited with
    | some slot => .ok { d with pending := some (slot, some arg) }
    | none => d.positional side arg

def plainArguments (side : Side) (d : Draft) (args : List String) : Except Refusal Draft :=
  args.foldlM (Draft.positional · side ·) d

def inner (name : CommandName) (d : Draft) : List String → Except Refusal Draft
  | [] => d.settle
  | arg :: args =>
    if form arg = .escape then plainArguments (some name) d args >>= Draft.settle
    else step (some name) d arg >>= fun d => inner name d args

/-- what is asked for behind the word `help`: at most one command -/
def helpOn : List String → Refusal
  | [] => .help
  | [arg] => if arg = "help" ∨ (CommandName.ofText? arg).isSome then .help else .usage
  | _ => .usage

/-- the side in front of the command, with the command and what is behind its name -/
def outer (d : Draft) : List String → Except Refusal (Draft × CommandName × List String)
  | [] => .error .usage
  | arg :: args =>
    if d.awaited.isNone ∧ arg = "help" then .error (helpOn args)
    else
      match d.awaited, CommandName.ofText? arg with
      | none, some name => .ok (d, name, args)
      | _, _ =>
        if form arg = .escape then .error .usage
        else step none d arg >>= fun d => outer d args

/-- A side that names no settings file takes it from the environment, where it must not be empty. -/
def checkEnvironment (env : Environment) (d : Draft) : Except Refusal Unit :=
  if d.config.isNone ∧ env.config = some "" then .error .usage else .ok ()

def commandOf (name : CommandName) (d : Draft) : Except Refusal Command :=
  match name, d.file with
  | .check, some file => .ok (.check file)
  | .compile, some file => .ok (.compile file d.pretty)
  | .operators, _ => .ok .operators
  | .check, none | .compile, none => .error .usage

def parse (env : Environment) (args : List String) : Except Refusal Invocation := do
  let (before, name, rest) ← outer .empty args
  let behind ← inner name .empty rest
  checkEnvironment env behind
  let command ← commandOf name behind
  let before ← before.settle
  checkEnvironment env before
  .ok ⟨command, behind.config <|> before.config <|> env.config,
    behind.token <|> before.token <|> env.token⟩

end SavedFilter.CommandLine
