import SavedFilter.Proofs.CommandLine.Values

/-!
# Spelling and place of options

An option may be written in several ways and stand in front of the command or, among its file and
its flag, anywhere behind it.  Neither matters:

* `Written`, `Item`       an option as it is written, and what may stand behind a command;
* `Arrangement`           a command with options on both sides, in any order and spelling;
* `exists_takes`          a side that gives every slot one value at most is accepted;
* `usage_of_parse`        a side that is spelled is refused for its usage only, never as a call
                          for help;
* `parse_arranged`        an arrangement is its command, with the inner one of two options for a
                          slot; two on the same side are refused.
-/

namespace SavedFilter.CommandLine

/-! ## written options -/

/-- an option as it is written: its value is attached to it, or is the next argument -/
inductive Written where
  /-- `-c path` -/
  | letter (path : String)
  /-- `-cpath` -/
  | letterJoined (path : String)
  /-- `-c=path` -/
  | letterEquals (path : String)
  /-- `--config path` -/
  | config (path : String)
  /-- `--config=path` -/
  | configEquals (path : String)
  /-- `--comparison token` -/
  | comparison (token : String)
  /-- `--comparison=token` -/
  | comparisonEquals (token : String)
  deriving DecidableEq

namespace Written

def arguments : Written → List String
  | .letter v => ["-c", v]
  | .letterJoined v => ["-c" ++ v]
  | .letterEquals v => ["-c=" ++ v]
  | .config v => ["--config", v]
  | .configEquals v => ["--config=" ++ v]
  | .comparison v => ["--comparison", v]
  | .comparisonEquals v => ["--comparison=" ++ v]

def slot : Written → Slot
  | .letter _ | .letterJoined _ | .letterEquals _ | .config _ | .configEquals _ => .config
  | .comparison _ | .comparisonEquals _ => .token

def value : Written → String
  | .letter v | .letterJoined v | .letterEquals v | .config v | .configEquals v => v
  | .comparison v | .comparisonEquals v => v

def given (o : Written) : Given := .value o.slot o.value

/-- The value looks neither like an option nor like one that is attached with `=`.  A path is not
empty. -/
def IsPlain (o : Written) : Prop :=
  o.value.toList.head? ≠ some '-' ∧ o.value.toList.head? ≠ some '=' ∧
    (o.slot = .config → o.value ≠ "")

instance (o : Written) : Decidable o.IsPlain :=
  inferInstanceAs (Decidable (_ ∧ _ ∧ (_ → _)))

theorem slot_ne_file (o : Written) : o.slot ≠ .file := by
  cases o <;> exact Slot.noConfusion

theorem pretty_notMem_given (os : List Written) : Given.pretty ∉ os.map given := by
  intro h
  obtain ⟨o, -, ho⟩ := List.mem_map.mp h
  exact Given.noConfusion ho

end Written

/-- what stands behind the name of a command -/
inductive Item where
  | option (o : Written)
  | file (path : String)
  | pretty
  deriving DecidableEq

/-! ### spelling items -/

theorem opens_config : Opens .config "--config" := by
  have h : Opens .config ("--" ++ "config") := .name rfl
  exact h

theorem opens_comparison : Opens .token "--comparison" := by
  have h : Opens .token ("--" ++ "comparison") := .name rfl
  exact h

theorem gives_configEquals (side : Side) (v : String) :
    Gives side (.value .config v) ("--config=" ++ v) := by
  have h : Gives side (.value .config v) ("--" ++ "config" ++ "=" ++ v) := .name rfl v
  exact h

theorem gives_comparisonEquals (side : Side) (v : String) :
    Gives side (.value .token v) ("--comparison=" ++ v) := by
  have h : Gives side (.value .token v) ("--" ++ "comparison" ++ "=" ++ v) := .name rfl v
  exact h

namespace Item

def arguments : Item → List String
  | .option o => o.arguments
  | .file path => [path]
  | .pretty => ["--pretty"]

def given : Item → Given
  | .option o => o.given
  | .file path => .value .file path
  | .pretty => .pretty

/-- the item may stand on the side, and its value does not look like an option -/
def FitsOn (side : Side) : Item → Prop
  | .option o => o.IsPlain
  | .file path => TakesFile side ∧ path ≠ "" ∧ path.toList.head? ≠ some '-'
  | .pretty => side = some .compile

variable {side : Side} {i : Item} {items : List Item} {gs : List Given} {args : List String}

theorem spells_cons (h : i.FitsOn side) (hrest : Spells side gs args) :
    Spells side (i.given :: gs) (i.arguments ++ args) := by
  cases i with
  | option o =>
    obtain ⟨hdash, hequals, hne⟩ := h
    cases o with
    | letter v => exact .opens .letter (.inr hdash) hrest
    | letterJoined v => exact .gives (.letter (hne rfl) hequals) hrest
    | letterEquals v => exact .gives (.letterEquals v) hrest
    | config v => exact .opens opens_config (.inr hdash) hrest
    | configEquals v => exact .gives (gives_configEquals side v) hrest
    | comparison v => exact .opens opens_comparison (.inr hdash) hrest
    | comparisonEquals v => exact .gives (gives_comparisonEquals side v) hrest
  | file path => exact .gives (.file h.1 (.inr h.2.2)) hrest
  | pretty => exact .gives (.pretty h) hrest

/-- items spell what they give -/
theorem spells_items (h : ∀ i ∈ items, i.FitsOn side) :
    Spells side (items.map given) (items.flatMap arguments) := by
  induction items with
  | nil => exact .nil
  | cons i items ih =>
    obtain ⟨hi, hitems⟩ := List.forall_mem_cons.mp h
    rw [List.map_cons, List.flatMap_cons]
    exact spells_cons hi (ih hitems)

end Item

/-! ## sides that are accepted, and refusals -/

/-- a value that may be accepted: a path is not empty -/
def Given.IsFilled : Given → Prop
  | .value slot v => slot ≠ .token → v ≠ ""
  | .pretty => True

theorem Item.isFilled_given {side : Side} {i : Item} (h : i.FitsOn side) : i.given.IsFilled := by
  cases i with
  | option o =>
    intro hslot
    apply h.2.2
    cases hs : o.slot with
    | config => rfl
    | token => exact absurd hs hslot
    | file => exact absurd hs o.slot_ne_file
  | file path => exact fun _ => h.2.1
  | pretty => trivial

namespace Draft
variable {d e : Draft} {g : Given} {gs : List Given} {slot : Slot} {v : String} {r : Refusal}

theorem exists_accept (hd : d.value? slot = none) (hv : slot ≠ .token → v ≠ "") :
    ∃ e, d.accept slot v = .ok e := by
  cases slot with
  | config =>
    have hd : d.config = none := hd
    exact ⟨{ d with config := some v }, if_neg (by simp [hd, hv])⟩
  | token =>
    have hd : d.token = none := hd
    exact ⟨{ d with token := some v }, if_neg (by simp [hd])⟩
  | file =>
    have hd : d.file = none := hd
    exact ⟨{ d with file := some v }, if_neg (by simp [hd, hv])⟩

theorem exists_take
    (hvalues : ∀ slot, ((d.value? slot).toList ++ (g.value? slot).toList).length ≤ 1)
    (hpretty : g = .pretty → d.pretty = false) (hg : g.IsFilled) : ∃ e, d.take g = .ok e := by
  cases g with
  | value slot v =>
    apply exists_accept _ hg
    have hlength := hvalues slot
    rw [Given.value?, if_pos rfl] at hlength
    cases hd : d.value? slot with
    | none => rfl
    | some w =>
      rw [hd] at hlength
      have htwo : ([w] ++ [v]).length ≤ 1 := hlength
      exact absurd htwo (Nat.not_succ_le_self 1)
  | pretty =>
    refine ⟨{ d with pretty := true }, if_neg ?_⟩
    rw [hpretty rfl]
    exact Bool.false_ne_true

theorem pretties_of_take (h : d.take g = .ok e) (hpretty : g = .pretty → d.pretty = false) :
    e.pretty.toNat + gs.count .pretty = d.pretty.toNat + (g :: gs).count .pretty := by
  rw [pretty_of_take h]
  cases g with
  | value slot v =>
    have hne : Given.value slot v ≠ .pretty := Given.noConfusion
    rw [List.count_cons_of_ne hne, beq_eq_false_iff_ne.mpr hne, Bool.or_false]
  | pretty =>
    rw [hpretty rfl, List.count_cons_self]
    show 1 + _ = 0 + _
    omega

/-- **A side is accepted** if it gives every slot one value at most, no empty path, and wants
indentation once at most. -/
theorem exists_takes (hvalues : ∀ slot, ((d.value? slot).toList ++ values slot gs).length ≤ 1)
    (hpretty : d.pretty.toNat + gs.count .pretty ≤ 1) (hgs : ∀ g ∈ gs, g.IsFilled) :
    ∃ e, gs.foldlM take d = .ok e := by
  induction gs generalizing d with
  | nil => exact ⟨d, rfl⟩
  | cons g gs ih =>
    obtain ⟨hg, hgs⟩ := List.forall_mem_cons.mp hgs
    have hflag : g = .pretty → d.pretty = false := by
      rintro rfl
      rw [List.count_cons_self] at hpretty
      cases hd : d.pretty with
      | false => rfl
      | true =>
        rw [hd, Bool.toNat_true] at hpretty
        omega
    have hlength : ∀ slot, ((d.value? slot).toList ++ (g.value? slot).toList).length +
        (values slot gs).length ≤ 1 := by
      intro slot
      rw [← List.length_append, List.append_assoc, ← values_cons]
      exact hvalues slot
    obtain ⟨d', hd'⟩ := exists_take (fun slot => le_trans (Nat.le_add_right _ _) (hlength slot))
      hflag hg
    have hrest : ∃ e, gs.foldlM take d' = .ok e := by
      apply ih _ _ hgs
      · intro slot
        rw [List.length_append, value?_of_take hd']
        exact hlength slot
      · rwa [pretties_of_take hd' hflag]
    obtain ⟨e, he⟩ := hrest
    exact ⟨e, bind_eq_ok.mpr ⟨d', hd', he⟩⟩

/-- the draft of such a side, read from the start, has just what the side gives -/
theorem exists_takes_empty (hvalues : ∀ slot, (values slot gs).length ≤ 1)
    (hpretty : gs.count .pretty ≤ 1) (hgs : ∀ g ∈ gs, g.IsFilled) :
    ∃ e, gs.foldlM take .empty = .ok e ∧ (∀ slot, e.value? slot = (values slot gs).head?) ∧
      e.pretty = gs.contains .pretty := by
  have hempty : ∀ slot, (Draft.value? .empty slot).toList = [] := by
    intro slot
    cases slot <;> rfl
  obtain ⟨e, he⟩ : ∃ e, gs.foldlM take .empty = .ok e := by
    apply exists_takes _ _ hgs
    · intro slot
      rw [hempty, List.nil_append]
      exact hvalues slot
    · show 0 + gs.count .pretty ≤ 1
      rwa [Nat.zero_add]
  refine ⟨e, he, fun slot => ?_, pretty_of_takes he⟩
  have hvalue := values_of_takes he slot
  rw [hempty, List.nil_append] at hvalue
  rw [← hvalue, Option.head?_toList]

theorem usage_of_accept (h : d.accept slot v = .error r) : r = .usage := by
  unfold accept at h
  cases slot <;>
    (dsimp only at h; split_ifs at h; exact (Except.error.inj h).symm)

theorem usage_of_take (h : d.take g = .error r) : r = .usage := by
  cases g with
  | value slot v => exact usage_of_accept h
  | pretty =>
    unfold take act at h
    dsimp only at h
    split_ifs at h
    exact (Except.error.inj h).symm

theorem usage_of_takes (h : gs.foldlM take d = .error r) : r = .usage := by
  obtain ⟨g, -, d', hstep⟩ := exists_of_foldlM_eq_error h
  exact usage_of_take hstep

end Draft

theorem usage_of_checkEnvironment {env : Environment} {d : Draft} {r : Refusal}
    (h : checkEnvironment env d = .error r) : r = .usage := by
  unfold checkEnvironment at h
  split_ifs at h
  exact (Except.error.inj h).symm

theorem usage_of_commandOf {name : CommandName} {d : Draft} {r : Refusal}
    (h : commandOf name d = .error r) : r = .usage := by
  unfold commandOf at h
  split at h
  iterate 3 exact nomatch h
  all_goals exact (Except.error.inj h).symm

/-- **What is spelled is no call for help**: if it is refused, then for its usage. -/
theorem usage_of_parse {l : Layout} {args : List String} {env : Environment} {r : Refusal}
    (hl : l.Writes args) (h : parse env args = .error r) : r = .usage := by
  obtain ⟨x, htakes, hparse⟩ := parse_of_writes hl env
  rw [hparse] at h
  rcases bind_eq_error.mp h with hx | ⟨d, hd, h⟩
  · rw [hx] at htakes
    exact Draft.usage_of_takes htakes.symm
  rcases bind_eq_error.mp h with hbehind | ⟨behind, -, h⟩
  · exact Draft.usage_of_takes hbehind
  rcases bind_eq_error.mp h with henv | ⟨-, -, h⟩
  · exact usage_of_checkEnvironment henv
  rcases bind_eq_error.mp h with hcommand | ⟨command, -, h⟩
  · exact usage_of_commandOf hcommand
  rcases bind_eq_error.mp h with hsettle | ⟨before, -, h⟩
  · rw [hd] at htakes
    exact Draft.usage_of_takes (htakes.symm.trans hsettle)
  rcases bind_eq_error.mp h with henv | ⟨-, -, h⟩
  · exact usage_of_checkEnvironment henv
  · exact nomatch h

/-! ## arrangements -/

namespace Command

def name : Command → CommandName
  | .check _ => .check
  | .compile _ _ => .compile
  | .operators => .operators

/-- the file and the flag of a command -/
def own : Command → List Item
  | .check file => [.file file]
  | .compile file true => [.file file, .pretty]
  | .compile file false => [.file file]
  | .operators => []

end Command

/-- A command with options in front of it and behind its name.  Those behind it stand in any order
with the file and the flag of the command. -/
structure Arrangement where
  command : Command
  before : List Written
  behind : List Written
  items : List Item
  order : items.Perm (command.own ++ behind.map .option)
  plain_before : ∀ o ∈ before, o.IsPlain
  plain_behind : ∀ o ∈ behind, o.IsPlain
  plain_file : ∀ path, .file path ∈ command.own → path ≠ "" ∧ path.toList.head? ≠ some '-'

/-- the values of the options for a slot -/
def valuesFor (slot : Slot) (os : List Written) : List String :=
  os.filterMap fun o => if o.slot = slot then some o.value else none

theorem values_given (slot : Slot) (os : List Written) :
    values slot (os.map Written.given) = valuesFor slot os := by
  rw [values, List.filterMap_map]
  rfl

theorem valuesFor_file (os : List Written) : valuesFor .file os = [] := by
  apply List.filterMap_eq_nil_iff.mpr
  intro o _
  exact if_neg o.slot_ne_file

namespace Command
variable {d : Draft}

theorem mem_own {c : Command} {i : Item} (h : i ∈ c.own) :
    (∃ path, i = .file path ∧ TakesFile (some c.name)) ∨ i = .pretty ∧ c.name = .compile := by
  cases c with
  | check file => exact .inl ⟨file, List.mem_singleton.mp h, .inl rfl⟩
  | compile file pretty =>
    cases pretty with
    | false => exact .inl ⟨file, List.mem_singleton.mp h, .inr rfl⟩
    | true =>
      rcases List.mem_cons.mp h with hfile | hflag
      · exact .inl ⟨file, hfile, .inr rfl⟩
      · exact .inr ⟨List.mem_singleton.mp hflag, rfl⟩
  | operators => exact absurd h List.not_mem_nil

/-- what belongs to a command gives no option -/
theorem values_own {slot : Slot} (h : slot ≠ .file) (c : Command) :
    values slot (c.own.map Item.given) = [] := by
  have hfile : ∀ path gs, values slot (.value .file path :: gs) = values slot gs := by
    intro path gs
    rw [values_cons, Given.value?, if_neg h.symm]
    rfl
  cases c with
  | check file => exact hfile file []
  | compile file pretty => cases pretty <;> exact hfile file _
  | operators => rfl

theorem length_values_file_own (c : Command) :
    (values .file (c.own.map Item.given)).length ≤ 1 := by
  rcases c with file | ⟨file, pretty⟩ | _
  · exact Nat.le_refl 1
  · cases pretty <;> exact Nat.le_refl 1
  · exact Nat.zero_le 1

theorem count_pretty_own (c : Command) : (c.own.map Item.given).count .pretty ≤ 1 := by
  rcases c with file | ⟨file, pretty⟩ | _
  · exact Nat.zero_le 1
  · cases pretty
    · exact Nat.zero_le 1
    · exact Nat.le_refl 1
  · exact Nat.zero_le 1

/-- a command is told by its name and by what belongs to it -/
theorem commandOf_name (c : Command)
    (hfile : d.file = (values .file (c.own.map Item.given)).head?)
    (hpretty : d.pretty = (c.own.map Item.given).contains .pretty) :
    commandOf c.name d = .ok c := by
  cases c with
  | check file =>
    have hfile : d.file = some file := hfile
    simp only [commandOf, name, hfile]
  | compile file pretty =>
    have hd : d.file = some file ∧ d.pretty = pretty := by
      cases pretty <;> exact ⟨hfile, hpretty⟩
    simp only [commandOf, name, hd.1, hd.2]
  | operators => rfl

end Command

namespace Arrangement
variable (a : Arrangement)

def arguments : List String :=
  a.before.flatMap Written.arguments ++ a.command.name.text :: a.items.flatMap Item.arguments

/-- no option is given twice on the same side -/
def IsOnce : Prop :=
  ∀ slot, (valuesFor slot a.before).length ≤ 1 ∧ (valuesFor slot a.behind).length ≤ 1

/-- the value of the option behind the command, or else of the one in front of it -/
def option (slot : Slot) : Option String :=
  (valuesFor slot a.behind).head? <|> (valuesFor slot a.before).head?

def layout : Layout :=
  ⟨a.before.map Written.given, a.command.name, a.items.map Item.given⟩

theorem fits_own : ∀ i ∈ a.command.own, i.FitsOn (some a.command.name) := by
  intro i hi
  rcases Command.mem_own hi with ⟨path, rfl, hside⟩ | ⟨rfl, hname⟩
  · exact ⟨hside, a.plain_file path hi⟩
  · exact congrArg some hname

theorem fits_items : ∀ i ∈ a.items, i.FitsOn (some a.command.name) := by
  intro i hi
  rcases List.mem_append.mp (a.order.mem_iff.mp hi) with hown | hoption
  · exact a.fits_own i hown
  · obtain ⟨o, ho, rfl⟩ := List.mem_map.mp hoption
    exact a.plain_behind o ho

theorem writes_arguments : a.layout.Writes a.arguments := by
  have hbefore : ∀ i ∈ a.before.map Item.option, i.FitsOn none := by
    intro i hi
    obtain ⟨o, ho, rfl⟩ := List.mem_map.mp hi
    exact a.plain_before o ho
  have hfront := Item.spells_items hbefore
  rw [List.map_map, List.flatMap_map] at hfront
  exact ⟨_, _, rfl, hfront, Item.spells_items a.fits_items⟩

/-! ### what the sides give -/

theorem values_before (slot : Slot) : values slot a.layout.before = valuesFor slot a.before :=
  values_given slot a.before

/-- what is given behind the name, in the order of the file and the flag before the options -/
theorem perm_behind : a.layout.behind.Perm
    (a.command.own.map Item.given ++ a.behind.map Written.given) := by
  have horder := a.order.map Item.given
  rwa [List.map_append, List.map_map] at horder

theorem values_behind (slot : Slot) : (values slot a.layout.behind).Perm
    (values slot (a.command.own.map Item.given) ++ valuesFor slot a.behind) := by
  have hperm := a.perm_behind.filterMap (Given.value? slot)
  rw [List.filterMap_append] at hperm
  rwa [← values_given]

theorem values_behind_option {slot : Slot} (h : slot ≠ .file) :
    (values slot a.layout.behind).Perm (valuesFor slot a.behind) := by
  have hperm := a.values_behind slot
  rwa [Command.values_own h, List.nil_append] at hperm

theorem values_behind_file :
    (values .file a.layout.behind).Perm (values .file (a.command.own.map Item.given)) := by
  have hperm := a.values_behind .file
  rwa [valuesFor_file, List.append_nil] at hperm

theorem count_pretty_behind :
    a.layout.behind.count .pretty = (a.command.own.map Item.given).count .pretty := by
  rw [a.perm_behind.count_eq, List.count_append,
    List.count_eq_zero_of_not_mem (Written.pretty_notMem_given a.behind), Nat.add_zero]

theorem contains_pretty_behind :
    a.layout.behind.contains .pretty = (a.command.own.map Item.given).contains .pretty := by
  rw [Bool.eq_iff_iff, List.contains_iff_mem, List.contains_iff_mem, a.perm_behind.mem_iff,
    List.mem_append, or_iff_left (Written.pretty_notMem_given a.behind)]

theorem isFilled_behind : ∀ g ∈ a.layout.behind, g.IsFilled := by
  intro g hg
  obtain ⟨i, hi, rfl⟩ := List.mem_map.mp hg
  exact Item.isFilled_given (a.fits_items i hi)

theorem isFilled_before : ∀ g ∈ a.layout.before, g.IsFilled := by
  intro g hg
  obtain ⟨o, ho, rfl⟩ := List.mem_map.mp hg
  have hfits : Item.FitsOn none (.option o) := a.plain_before o ho
  exact Item.isFilled_given hfits

end Arrangement

/-! ## reading an arrangement -/

theorem eq_of_perm_of_length_le_one {α : Type} {xs ys : List α} (h : xs.Perm ys)
    (hys : ys.length ≤ 1) : xs = ys := by
  match ys, hys with
  | [], _ => exact h.eq_nil
  | [y], _ => exact List.perm_singleton.mp h

namespace Arrangement
variable {a : Arrangement}

/-- what is read in front of the command -/
theorem exists_before (h : a.IsOnce) :
    ∃ before, a.layout.before.foldlM Draft.take .empty = .ok before ∧
      ∀ slot, before.value? slot = (valuesFor slot a.before).head? := by
  have hcount : a.layout.before.count .pretty = 0 :=
    List.count_eq_zero_of_not_mem (Written.pretty_notMem_given a.before)
  obtain ⟨before, htakes, hvalues, -⟩ :=
    Draft.exists_takes_empty (fun slot => (a.values_before slot).symm ▸ (h slot).1)
      (hcount.symm ▸ Nat.zero_le 1) a.isFilled_before
  refine ⟨before, htakes, fun slot => ?_⟩
  rw [hvalues, a.values_before]

/-- what is read behind its name -/
theorem exists_behind (h : a.IsOnce) :
    ∃ behind, a.layout.behind.foldlM Draft.take .empty = .ok behind ∧
      commandOf a.command.name behind = .ok a.command ∧
      ∀ slot, slot ≠ .file → behind.value? slot = (valuesFor slot a.behind).head? := by
  have hoption : ∀ slot, slot ≠ .file → values slot a.layout.behind = valuesFor slot a.behind :=
    fun slot hslot => eq_of_perm_of_length_le_one (a.values_behind_option hslot) (h slot).2
  have hfile := eq_of_perm_of_length_le_one a.values_behind_file a.command.length_values_file_own
  have hlength : ∀ slot, (values slot a.layout.behind).length ≤ 1 := by
    intro slot
    by_cases hslot : slot = .file
    · rw [hslot, hfile]
      exact a.command.length_values_file_own
    · rw [hoption slot hslot]
      exact (h slot).2
  obtain ⟨behind, htakes, hvalues, hpretty⟩ :=
    Draft.exists_takes_empty hlength (a.count_pretty_behind ▸ a.command.count_pretty_own)
      a.isFilled_behind
  refine ⟨behind, htakes, ?_, fun slot hslot => ?_⟩
  · apply a.command.commandOf_name
    · rw [← hfile]
      exact hvalues .file
    · rw [hpretty, a.contains_pretty_behind]
  · rw [hvalues, hoption slot hslot]

theorem parse_of_isOnce (h : a.IsOnce) (env : Environment) (henv : env.config ≠ some "") :
    parse env a.arguments =
      .ok ⟨a.command, a.option .config <|> env.config, a.option .token <|> env.token⟩ := by
  obtain ⟨before, hbefore, hfront⟩ := exists_before h
  obtain ⟨behind, hbehind, hcommand, hback⟩ := exists_behind h
  have hcheck : ∀ d, checkEnvironment env d = .ok () := fun d => if_neg fun h => henv h.2
  have hlayers : ∀ slot v, slot ≠ .file →
      (a.option slot <|> v) = (behind.value? slot <|> before.value? slot <|> v) := by
    intro slot v hslot
    rw [option, hback slot hslot, hfront slot]
    cases (valuesFor slot a.behind).head? <;> rfl
  exact (parse_eq_ok_iff a.writes_arguments).mpr ⟨before, behind, hbefore, hbehind, hcheck behind,
    hcheck before, hcommand, hlayers .config _ Slot.noConfusion, hlayers .token _ Slot.noConfusion⟩

end Arrangement

/-- **Spelling and place of options do not matter.**  An arrangement is read as its command, with
the option behind the name before the one in front of it, and the variables of the environment
behind both.  An option that is given twice on one side is refused. -/
theorem parse_arranged (a : Arrangement) :
    (a.IsOnce →
      parse ⟨none, none⟩ a.arguments = .ok ⟨a.command, a.option .config, a.option .token⟩) ∧
    (a.IsOnce → ∀ env : Environment, env.config ≠ some "" → parse env a.arguments =
      .ok ⟨a.command, a.option .config <|> env.config, a.option .token <|> env.token⟩) ∧
    ∀ slot, (2 ≤ (valuesFor slot a.before).length ∨ 2 ≤ (valuesFor slot a.behind).length) →
      ∀ env, parse env a.arguments = .error .usage := by
  refine ⟨fun h => ?_, fun h env henv => Arrangement.parse_of_isOnce h env henv, ?_⟩
  · have hnone : ∀ o : Option String, (o <|> none) = o := by
      intro o
      cases o <;> rfl
    have hparse := Arrangement.parse_of_isOnce h ⟨none, none⟩ (fun h => nomatch h)
    rwa [hnone, hnone] at hparse
  · intro slot htwice env
    cases hparse : parse env a.arguments with
    | error r => rw [usage_of_parse a.writes_arguments hparse]
    | ok i =>
      obtain ⟨hbehind, hbefore⟩ := (values_of_parse a.writes_arguments hparse).1 slot
      rw [a.values_before] at hbefore
      rw [(a.values_behind slot).length_eq, List.length_append] at hbehind
      omega

/-- every option on both sides, values that look like commands, an empty token; and a path that is
given twice -/
theorem parse_arranged_mixed :
    let a : Arrangement :=
      { command := .compile "operators" true
        before := [.comparisonEquals "compile", .letter "check"]
        behind := [.comparison "", .letterJoined "help"]
        items := [.pretty, .option (.comparison ""), .file "operators",
          .option (.letterJoined "help")]
        order := by decide
        plain_before := by decide
        plain_behind := by decide
        plain_file := by
          intro path h
          obtain rfl : path = "operators" := by simpa [Command.own] using h
          decide }
    let twice : Arrangement :=
      { command := .operators
        before := [.letterEquals "x", .configEquals "y"]
        behind := []
        items := []
        order := .refl _
        plain_before := by decide
        plain_behind := by decide
        plain_file := fun _ h => nomatch h }
    a.IsOnce ∧ a.arguments = ["--comparison=compile", "-c", "check", "compile", "--pretty",
        "--comparison", "", "operators", "-chelp"] ∧
      parse ⟨none, none⟩ a.arguments = .ok ⟨.compile "operators" true, some "help", some ""⟩ ∧
      twice.arguments = ["-c=x", "--config=y", "operators"] ∧
      2 ≤ (valuesFor .config twice.before).length ∧
      parse ⟨some "z", none⟩ twice.arguments = .error .usage := by
  intro a twice
  have honce : a.IsOnce := by
    intro slot
    cases slot <;> decide
  have htwo : 2 ≤ (valuesFor .config twice.before).length := by decide
  exact ⟨honce, rfl, (parse_arranged a).1 honce, rfl, htwo,
    (parse_arranged twice).2.2 .config (.inl htwo) _⟩

end SavedFilter.CommandLine
