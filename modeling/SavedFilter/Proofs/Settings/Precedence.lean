import SavedFilter.Program
import SavedFilter.Proofs.CommandLine.Values
import SavedFilter.Proofs.Settings.File

/-!
# Which setting counts

A setting may be given behind the command, in front of it, in the environment and in one settings
file, and the highest of these layers counts.  The file is found by the same order, except that a
file which nobody has named need not exist:

* `load_eq`, `load_congr`   what is loaded, and that only one path is looked at;
* `request_of_parse`        what the command line and the environment ask for;
* `Resolves`, `load_resolves`   the file that is used, and each setting by its layers;
* `load_precedence`         that, and no layer counts below one that gives something.
-/

namespace SavedFilter

/-- the path of the one file that is looked for -/
def Request.path (r : Request) : String := r.config.getD Settings.defaultPath

namespace Settings
open CommandLine

section
variable {files files' : Files} {r : Request}

theorem load_eq (files : Files) (r : Request) :
    load files r =
      if (files r.path).isMissing then
        match r.config with
        | some path => .error (.notFound path)
        | none => .ok (merge r .none, [])
      else (readFile files r.path).map fun f => (merge r f, unknownWarning f) := by
  have hread : ∀ path, (readFile files path >>= fun f => .ok (merge r f, unknownWarning f)) =
      (readFile files path).map fun f => (merge r f, unknownWarning f) := by
    intro path
    cases readFile files path <;> rfl
  unfold load path? Request.path
  cases r.config with
  | none =>
    cases hm : (files defaultPath).isMissing
    · simp only [Option.getD_none, hm, Bool.false_eq_true, if_false]
      exact hread defaultPath
    · simp only [Option.getD_none, hm, if_true]
      rfl
  | some path =>
    cases hm : (files path).isMissing
    · simp only [Option.getD_some, hm, Bool.false_eq_true, if_false]
      exact hread path
    · simp only [Option.getD_some, hm, if_true]
      rfl

/-- only the one file that is looked for decides what is loaded -/
theorem load_congr (h : files' r.path = files r.path) :
    load files' r = load files r := by
  simp only [load_eq, readFile, h]

end

/-! ## what is asked for -/

section
variable {env : Environment} {args : List String} {i : Invocation} {l : Layout}

theorem pretty_request {name : CommandName} {d : Draft} (h : commandOf name d = .ok i.command) :
    (Program.request i).pretty = (decide (name = .compile) && d.pretty) := by
  obtain ⟨command, config, token⟩ := i
  obtain ⟨_, _, file, pretty, _⟩ := d
  cases name <;> cases file <;> cases h <;> rfl

theorem request_of_parse (hl : l.Writes args) (h : parse env args = .ok i) :
    Program.request i = ⟨highest (l.layers .config env.config),
      highest (l.layers .token env.token), decide l.AsksPretty⟩ := by
  obtain ⟨-, hconfig, htoken⟩ := values_of_parse hl h
  obtain ⟨-, behind, -, hbehind, -, -, hcommand, -⟩ := (parse_eq_ok_iff hl).mp h
  have hpretty : (Program.request i).pretty = decide l.AsksPretty := by
    rw [pretty_request hcommand, Draft.pretty_of_takes hbehind, List.contains_eq_mem]
    exact (Bool.decide_and _ _).symm
  rw [← hconfig, ← htoken, ← hpretty]
  rfl

/-! ## the layers -/

/-- The file that is used is the one that is named, or else that at the default path; it exists. -/
def Uses (files : Files) (env : Environment) (l : Layout) (path : String) : Prop :=
  path = (highest (l.layers .config env.config)).getD defaultPath ∧ ¬ (files path).isMissing

/-- what a file sets is what stands at its places in the value that its text has -/
def Stands (f : FileSettings) (v : Json) : Prop :=
  FileSettings.Holds (fun s w => w = .str s) f.token
      ((v.get? "compiler").bind (Json.part? "comparison")) ∧
    FileSettings.Holds (fun b w => w = .bool b) f.pretty
      ((v.get? "output").bind (Json.part? "pretty"))

/-- The settings `s` have the token of the highest layer that gives one, with that of the file
`f` as the lowest layer, and output is indented if the command line or the file asks for it. -/
structure Merges (env : Environment) (l : Layout) (f : FileSettings) (s : Settings) : Prop where
  token : s.token = (highest (l.layers .token env.token ++ [f.token])).getD defaultToken
  pretty : s.pretty = true ↔ l.AsksPretty ∨ f.pretty = some true

/-- What is loaded, for the file that is used if there is one. -/
structure Resolves (files : Files) (env : Environment) (l : Layout)
    (loaded : Except Fault (Settings × List Warning)) : Prop where
  /-- a file that is named must exist, whatever there is at the default path -/
  missing : ∀ path, highest (l.layers .config env.config) = some path →
    (files path).isMissing → loaded = .error (.notFound path)
  without_file : highest (l.layers .config env.config) = none → (files defaultPath).isMissing →
    ∃ s, loaded = .ok (s, []) ∧ Merges env l .none s
  refused : ∀ path e, Uses files env l path → readFile files path = .error e → loaded = .error e
  read : ∀ path f, Uses files env l path → readFile files path = .ok f →
    (∃ s, loaded = .ok (s, unknownWarning f) ∧ Merges env l f s) ∧
      ∀ text v, (files path).text? = some text → Json.parseText text = .ok v → Stands f v

theorem merges_merge (hl : l.Writes args) (h : parse env args = .ok i) (f : FileSettings) :
    Merges env l f (merge (Program.request i) f) := by
  rw [request_of_parse hl h]
  refine ⟨?_, ?_⟩
  · rw [highest_append]
    show (highest (l.layers .token env.token) <|> f.token).getD defaultToken = _
    cases highest (l.layers .token env.token) <;> cases f.token <;> rfl
  · show (decide l.AsksPretty || f.pretty.getD false) = true ↔ _
    rw [Bool.or_eq_true, decide_eq_true_iff]
    refine or_congr_right ?_
    cases f.pretty with
    | none => exact iff_of_false (fun h => nomatch h) (fun h => nomatch h)
    | some b => exact Option.some_inj.symm

theorem stands_of_readFile {files : Files} {path text : String} {f : FileSettings} {v : Json}
    (h : readFile files path = .ok f) (htext : (files path).text? = some text)
    (hv : Json.parseText text = .ok v) : Stands f v := by
  rw [readFile, htext] at h
  exact FileSettings.holds_of_read (mapError_eq_ok.mp h) hv

theorem load_resolves (files : Files) (hl : l.Writes args) (h : parse env args = .ok i) :
    Resolves files env l (load files (Program.request i)) := by
  have hmerges := merges_merge hl h
  have hconfig : (Program.request i).config = highest (l.layers .config env.config) :=
    congrArg Request.config (request_of_parse hl h)
  have hpath : (Program.request i).path =
      (highest (l.layers .config env.config)).getD defaultPath := by
    rw [Request.path, hconfig]
  have hloaded : ∀ path, Uses files env l path → load files (Program.request i) =
      (readFile files path).map fun f => (merge (Program.request i) f, unknownWarning f) := by
    rintro path ⟨rfl, hexists⟩
    rw [load_eq, hpath, if_neg hexists]
  refine ⟨?missing, ?without_file, ?refused, ?read⟩
  case missing =>
    intro path hnamed hmissing
    rw [hnamed] at hconfig hpath
    rw [Option.getD_some] at hpath
    rw [load_eq, hpath, if_pos hmissing, hconfig]
  case without_file =>
    intro hnone hmissing
    rw [hnone] at hconfig hpath
    rw [Option.getD_none] at hpath
    rw [load_eq, hpath, if_pos hmissing, hconfig]
    exact ⟨_, rfl, hmerges .none⟩
  case refused =>
    intro path e huses he
    rw [hloaded path huses, he]
    rfl
  case read =>
    intro path f huses hf
    rw [hloaded path huses, hf]
    exact ⟨⟨_, rfl, hmerges f⟩, fun text v => stands_of_readFile hf⟩

end

/-! ## what lower layers do -/

/-- Two runs have the same of what a layer gives, if they have the same layers down to it: neither
those below it nor the files count. -/
structure Screens (env env' : Environment) (l l' : Layout) (r r' : Request)
    (loaded loaded' : Except Fault (Settings × List Warning)) : Prop where
  config : ∀ n path, (l.layers .config env.config).take n = (l'.layers .config env'.config).take n →
    some path ∈ (l.layers .config env.config).take n → r.config = r'.config
  token : ∀ n t, (l.layers .token env.token).take n = (l'.layers .token env'.token).take n →
    some t ∈ (l.layers .token env.token).take n →
    ∀ s w s' w', loaded = .ok (s, w) → loaded' = .ok (s', w') → s.token = s'.token
  pretty : l.AsksPretty → l'.AsksPretty →
    ∀ s w s' w', loaded = .ok (s, w) → loaded' = .ok (s', w') → s.pretty = s'.pretty

section
variable {files files' : Files} {env env' : Environment} {args args' : List String}
  {i i' : Invocation} {l l' : Layout}

theorem exists_merge_of_load {r : Request} {s : Settings} {w : List Warning}
    (h : load files r = .ok (s, w)) : ∃ f, s = merge r f := by
  rw [load_eq] at h
  split_ifs at h
  · split at h
    · exact nomatch h
    · exact ⟨_, (congrArg Prod.fst (Except.ok.inj h)).symm⟩
  · obtain ⟨f, -, hf⟩ := map_eq_ok.mp h
    exact ⟨f, (congrArg Prod.fst hf).symm⟩

theorem token_merge {r : Request} {t : String} (h : r.token = some t) (f : FileSettings) :
    (merge r f).token = t := by
  rw [merge, h]
  rfl

theorem pretty_merge {r : Request} (h : r.pretty = true) (f : FileSettings) :
    (merge r f).pretty = true := by
  rw [merge, h]
  rfl

theorem load_screens (hl : l.Writes args) (h : parse env args = .ok i) (hl' : l'.Writes args')
    (h' : parse env' args' = .ok i') :
    Screens env env' l l' (Program.request i) (Program.request i')
      (load files (Program.request i)) (load files' (Program.request i')) := by
  rw [request_of_parse hl h, request_of_parse hl' h']
  refine ⟨?config, ?token, ?pretty⟩
  case config =>
    intro n path hsame hmem
    obtain ⟨_, hb, hb'⟩ := highest_congr hsame hmem
    exact hb.trans hb'.symm
  case token =>
    intro n t hsame hmem s w s' w' hs hs'
    obtain ⟨_, hb, hb'⟩ := highest_congr hsame hmem
    obtain ⟨f, rfl⟩ := exists_merge_of_load hs
    obtain ⟨f', rfl⟩ := exists_merge_of_load hs'
    rw [token_merge hb, token_merge hb']
  case pretty =>
    intro hl hl' s w s' w' hs hs'
    obtain ⟨f, rfl⟩ := exists_merge_of_load hs
    obtain ⟨f', rfl⟩ := exists_merge_of_load hs'
    rw [pretty_merge (decide_eq_true hl), pretty_merge (decide_eq_true hl')]

end

/-- a settings file of its own beside the one at the default path -/
def ownBesideDefault : Files := fun path =>
  if path = "own.json" then
    .content ("\x7b\"compiler\": [\"own\"], \"output\": \x7b\"pretty\": true\x7d\x7d").toUTF8
  else if path = defaultPath then .content ("\x7b\"compiler\": [\"default\"]\x7d").toUTF8
  else .missing

end Settings
end SavedFilter
