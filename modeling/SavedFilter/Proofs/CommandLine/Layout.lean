import SavedFilter.Proofs.CommandLine.Forms
import SavedFilter.Proofs.Except

/-!
# What a command line gives

A side of a command line gives values for slots, and may ask for indented output.  `Spells` says
with which arguments it does so, and a command line that is accepted is one command with such a side
in front of it and one behind its name:

* `Spells`, `Layout.Writes`     the arguments of a side, and of a whole command line;
* `inner_of_spells`, `exists_outer_of_spells`   reading a side takes what it gives, one after the
                                other;
* `spells_of_inner`, `spells_of_outer`   every side that is accepted is spelled like this;
* `exists_layout_of_parse`, `parse_eq_ok_iff`   so is every command line; it means what it gives.
-/

namespace SavedFilter.CommandLine

/-! ## spelling -/

namespace CommandName

def text : CommandName → String
  | .check => "check"
  | .compile => "compile"
  | .operators => "operators"

theorem ofText?_text (name : CommandName) : ofText? name.text = some name := by cases name <;> rfl

theorem text_of_ofText? {s : String} {name : CommandName} (h : ofText? s = some name) :
    s = name.text := by
  unfold ofText? at h
  split_ifs at h with h₁ h₂ h₃
  · rw [h₁, ← Option.some.inj h]; rfl
  · rw [h₂, ← Option.some.inj h]; rfl
  · rw [h₃, ← Option.some.inj h]; rfl

end CommandName

/-- what is given on a side -/
inductive Given where
  | value (slot : Slot) (v : String)
  | pretty
  deriving DecidableEq, Repr

/-- the name of the option that has a value for the slot -/
def Slot.option? : Slot → Option String
  | .config => some "config"
  | .token => some "comparison"
  | .file => none

def TakesFile (side : Side) : Prop := side = some .check ∨ side = some .compile

/-- an option whose value is the next argument -/
inductive Opens : Slot → String → Prop
  | name {slot : Slot} {name : String} (h : slot.option? = some name) : Opens slot ("--" ++ name)
  | letter : Opens .config "-c"

/-- something that one argument gives by itself -/
inductive Gives (side : Side) : Given → String → Prop
  | name {slot : Slot} {name : String} (h : slot.option? = some name) (v : String) :
    Gives side (.value slot v) ("--" ++ name ++ "=" ++ v)
  | letterEquals (v : String) : Gives side (.value .config v) ("-c=" ++ v)
  | letter {v : String} (hne : v ≠ "") (h : v.toList.head? ≠ some '=') :
    Gives side (.value .config v) ("-c" ++ v)
  | pretty (h : side = some .compile) : Gives side .pretty "--pretty"
  | file {v : String} (h : TakesFile side) (hv : IsValue v) : Gives side (.value .file v) v

/-- the arguments with which a side gives something; behind two hyphens every argument is a file -/
inductive Spells (side : Side) : List Given → List String → Prop
  | nil : Spells side [] []
  | gives {g : Given} {arg : String} {gs : List Given} {args : List String}
    (h : Gives side g arg) (hrest : Spells side gs args) : Spells side (g :: gs) (arg :: args)
  | opens {slot : Slot} {arg v : String} {gs : List Given} {args : List String}
    (h : Opens slot arg) (hv : IsValue v) (hrest : Spells side gs args) :
    Spells side (.value slot v :: gs) (arg :: v :: args)
  | escape (hside : side ≠ none) (files : List String) (h : files = [] ∨ TakesFile side) :
    Spells side (files.map (.value .file)) ("--" :: files)

/-- a command, with what is given in front of it and behind its name -/
structure Layout where
  before : List Given
  name : CommandName
  behind : List Given

def Layout.Writes (l : Layout) (args : List String) : Prop :=
  ∃ front back, args = front ++ l.name.text :: back ∧ Spells none l.before front ∧
    Spells (some l.name) l.behind back

/-! ## steps -/

namespace Draft

def take (d : Draft) : Given → Except Refusal Draft
  | .value slot v => d.accept slot v
  | .pretty => d.act .pretty

theorem settle_of_pending {d : Draft} (h : d.pending = none) : d.settle = .ok d := by
  rw [settle, h]

theorem pending_accept {d e : Draft} {slot : Slot} {v : String} (h : d.accept slot v = .ok e) :
    e.pending = d.pending := by
  cases slot <;> (unfold accept at h; dsimp only at h; split_ifs at h; rw [← Except.ok.inj h])

theorem pending_take {d e : Draft} {g : Given} (h : d.take g = .ok e) : e.pending = d.pending := by
  cases g with
  | value slot v => exact pending_accept h
  | pretty =>
    unfold take act at h
    dsimp only at h
    split_ifs at h
    rw [← Except.ok.inj h]

theorem pending_settle {d e : Draft} (h : d.settle = .ok e) : e.pending = none := by
  unfold settle at h
  split at h
  · next hp => rw [← Except.ok.inj h, hp]
  · exact nomatch h
  · exact pending_accept h

theorem awaited_of_pending {d : Draft} (h : d.pending = none) : d.awaited = none := by
  rw [awaited, h]

/-- what has been settled stays as it is -/
theorem settle_bind_settle {d : Draft} {f : Draft → Except Refusal Draft}
    (hf : ∀ d e, f d = .ok e → e.pending = d.pending) :
    (d.settle >>= f) >>= settle = d.settle >>= f := by
  cases hd : d.settle with
  | error e => rfl
  | ok d' =>
    show f d' >>= settle = f d'
    cases he : f d' with
    | error e => rfl
    | ok e => exact settle_of_pending ((hf d' e he).trans (pending_settle hd))

theorem positional_bind_settle {side : Side} (h : TakesFile side) (d : Draft) (v : String) :
    d.positional side v >>= settle = d.settle >>= (accept · .file v) := by
  have hside : ¬ (side = none ∨ side = some .operators) := by
    rcases h with rfl | rfl <;> decide
  rw [positional, if_neg hside]
  cases hd : d.settle with
  | error e => rfl
  | ok d' =>
    have hp := pending_settle hd
    show (if d'.file.isSome then _ else _) >>= settle = d'.accept .file v
    split_ifs with hfile
    · exact (if_pos (.inl hfile)).symm
    · obtain ⟨config, token, file, pretty, pending⟩ := d'
      obtain rfl : pending = none := hp
      rfl

theorem awaited_positional {side : Side} {d e : Draft} {v : String}
    (h : d.positional side v = .ok e) : TakesFile side ∧ e.awaited = none := by
  unfold positional at h
  split_ifs at h with hside
  obtain ⟨d', -, h⟩ := bind_eq_ok.mp h
  split_ifs at h
  refine ⟨?_, ?_⟩
  · cases side with
    | none => exact absurd (.inl rfl) hside
    | some name =>
      cases name with
      | check => exact .inl rfl
      | compile => exact .inr rfl
      | operators => exact absurd (.inr rfl) hside
  · rw [← Except.ok.inj h]
    rfl

end Draft

section
variable {side : Side} {slot : Slot} {name arg v : String} {g : Given} {d e : Draft}

theorem longSwitch?_eq_value_iff :
    longSwitch? side name = some (.value slot) ↔ slot.option? = some name := by
  unfold longSwitch?
  cases slot <;> split_ifs <;> simp_all [Slot.option?, eq_comm]

theorem plain_name (h : slot.option? = some name) : name ≠ "" ∧ '=' ∉ name.toList := by
  cases slot with
  | config => obtain rfl := Option.some.inj h; decide
  | token => obtain rfl := Option.some.inj h; decide
  | file => exact nomatch h

theorem form_of_opens (h : Opens slot arg) :
    (∃ name, slot.option? = some name ∧ form arg = .long name none) ∨
      slot = .config ∧ form arg = .short 'c' none := by
  cases h with
  | name h => exact .inl ⟨_, h, form_long (plain_name h).1 (plain_name h).2⟩
  | letter => exact .inr ⟨rfl, rfl⟩

/-- what is given by one argument is an option with its value, or the file of a command -/
theorem form_of_gives (h : Gives side g arg) :
    (∃ name attached, form arg = .long name attached) ∨
      (∃ v, form arg = .short 'c' (some v)) ∨ TakesFile side ∧ form arg = .plain := by
  cases h with
  | name h v => exact .inl ⟨_, _, form_long_equals (plain_name h).1 (plain_name h).2 v⟩
  | letterEquals v => exact .inr (.inl ⟨v, form_letter_equals v⟩)
  | letter hne h => exact .inr (.inl ⟨_, form_letter hne h⟩)
  | pretty h => exact .inl ⟨"pretty", none, rfl⟩
  | file h hv => exact .inr (.inr ⟨h, form_eq_plain_iff.mpr hv⟩)

theorem step_of_opens (h : Opens slot arg) (d : Draft) : step side d arg = d.option slot none := by
  rcases form_of_opens h with ⟨name, hslot, hform⟩ | ⟨rfl, hform⟩
  · simp only [step, hform, longSwitch?_eq_value_iff.mpr hslot, Draft.long]
  · simp only [step, hform]
    rfl

theorem step_value (hv : IsValue v) (hd : d.awaited = some slot) :
    step side d v = .ok { d with pending := some (slot, some v) } := by
  simp only [step, form_eq_plain_iff.mpr hv, hd]

theorem step_of_gives (h : Gives side g arg) (hd : d.awaited = none) :
    step side d arg >>= Draft.settle = d.settle >>= (Draft.take · g) ∧
      ∀ e, step side d arg = .ok e → e.awaited = none := by
  have hsettled : step side d arg = d.settle >>= (Draft.take · g) →
      step side d arg >>= Draft.settle = d.settle >>= (Draft.take · g) ∧
        ∀ e, step side d arg = .ok e → e.awaited = none := by
    intro hstep
    rw [hstep]
    refine ⟨Draft.settle_bind_settle fun _ _ => Draft.pending_take, fun e he => ?_⟩
    obtain ⟨d', hd', he⟩ := bind_eq_ok.mp he
    exact Draft.awaited_of_pending ((Draft.pending_take he).trans (Draft.pending_settle hd'))
  cases h with
  | name h v =>
    apply hsettled
    have hform := form_long_equals (plain_name h).1 (plain_name h).2 v
    simp only [step, hform, longSwitch?_eq_value_iff.mpr h, Draft.long]
    rfl
  | letterEquals v =>
    apply hsettled
    simp only [step, form_letter_equals]
    rfl
  | letter hne h =>
    apply hsettled
    simp only [step, form_letter hne h]
    rfl
  | pretty h =>
    apply hsettled
    rw [h]
    rfl
  | file h hv =>
    have hstep : step side d arg = d.positional side arg := by
      simp only [step, form_eq_plain_iff.mpr hv, hd]
    rw [hstep]
    exact ⟨Draft.positional_bind_settle h d arg, fun e he => (Draft.awaited_positional he).2⟩

theorem IsValue.form_ne_escape (hv : IsValue v) : form v ≠ .escape := by
  rw [form_eq_plain_iff.mpr hv]
  exact Form.noConfusion

theorem Opens.form_ne (h : Opens slot arg) : form arg ≠ .escape ∧ form arg ≠ .plain := by
  rcases form_of_opens h with ⟨_, _, h⟩ | ⟨_, h⟩ <;>
    (rw [h]; exact ⟨Form.noConfusion, Form.noConfusion⟩)

theorem Gives.form_ne_escape (h : Gives side g arg) : form arg ≠ .escape := by
  rcases form_of_gives h with ⟨_, _, h⟩ | ⟨_, h⟩ | ⟨_, h⟩ <;> (rw [h]; exact Form.noConfusion)

/-- in front of a command only options are given -/
theorem Gives.form_ne_plain (h : Gives none g arg) : form arg ≠ .plain := by
  rcases form_of_gives h with ⟨_, _, h⟩ | ⟨_, h⟩ | ⟨h | h, _⟩
  · rw [h]; exact Form.noConfusion
  · rw [h]; exact Form.noConfusion
  · exact nomatch h
  · exact nomatch h

end

/-! ## reading a side that is spelled -/

section
variable {name : CommandName} {gs : List Given} {args : List String} {d : Draft}

theorem settle_awaited (d : Draft) (slot : Slot) (v : String) (hp : d.pending = none) :
    Draft.settle { d with pending := some (slot, some v) } = d.accept slot v := by
  obtain ⟨config, token, file, pretty, pending⟩ := d
  obtain rfl : pending = none := hp
  rfl

theorem plainArguments_bind_settle {side : Side} {files : List String}
    (h : files = [] ∨ TakesFile side) (d : Draft) :
    plainArguments side d files >>= Draft.settle =
      d.settle >>= ((files.map (Given.value .file)).foldlM Draft.take ·) := by
  induction files generalizing d with
  | nil =>
    show d.settle = _
    cases d.settle <;> rfl
  | cons f fs ih =>
    have hside : TakesFile side := h.resolve_left (List.cons_ne_nil f fs)
    have hf := Draft.positional_bind_settle hside d f
    show (d.positional side f >>= (plainArguments side · fs)) >>= Draft.settle = _
    rw [bind_assoc]
    simp only [ih (.inr hside)]
    rw [← bind_assoc, hf, bind_assoc]
    rfl

/-- reading a side takes what it gives, one after the other -/
theorem inner_of_spells (h : Spells (some name) gs args) (hd : d.awaited = none) :
    inner name d args = d.settle >>= (gs.foldlM Draft.take ·) := by
  induction h generalizing d with
  | nil =>
    show d.settle = _
    cases d.settle <;> rfl
  | gives h hrest ih =>
    obtain ⟨hstep, hawaited⟩ := step_of_gives h hd
    rw [inner, if_neg h.form_ne_escape]
    show _ = d.settle >>= fun d => d.take _ >>= (List.foldlM Draft.take · _)
    rw [← bind_assoc, ← hstep, bind_assoc]
    cases hs : step (some name) d _ with
    | error e => rfl
    | ok e => exact ih (hawaited e hs)
  | opens h hv hrest ih =>
    rw [inner, if_neg h.form_ne.1, step_of_opens h d, Draft.option]
    cases hs : d.settle with
    | error e => rfl
    | ok e =>
      show inner name { e with pending := some (_, none) } (_ :: _) = e.accept _ _ >>= _
      rw [inner, if_neg hv.form_ne_escape, step_value hv rfl]
      show inner name { e with pending := some (_, some _) } _ = _
      rw [ih rfl, settle_awaited e _ _ (Draft.pending_settle hs)]
  | escape hside files h => exact plainArguments_bind_settle h d

theorem outer_cons {arg : String} (hd : d.awaited = none → form arg ≠ .plain)
    (he : form arg ≠ .escape) : outer d (arg :: args) = step none d arg >>= (outer · args) := by
  have hword : d.awaited = none → arg ≠ "help" ∧ CommandName.ofText? arg = none := by
    intro hn
    refine ⟨?_, Option.eq_none_iff_forall_ne_some.mpr fun name hname => ?_⟩
    · rintro rfl
      exact hd hn rfl
    · rw [CommandName.text_of_ofText? hname] at hd
      exact hd hn (by cases name <;> rfl)
  rw [outer]
  cases hn : d.awaited with
  | none =>
    obtain ⟨hhelp, hname⟩ := hword hn
    rw [if_neg (fun h => hhelp h.2), hname]
    exact if_neg he
  | some slot =>
    rw [if_neg (fun h => nomatch h.1)]
    exact if_neg he

theorem outer_text (hd : d.awaited = none) (rest : List String) :
    outer d (name.text :: rest) = .ok (d, name, rest) := by
  have hhelp : name.text ≠ "help" := by cases name <;> decide
  rw [outer, hd, if_neg (fun h => hhelp h.2), CommandName.ofText?_text]

/-- Reading the side in front of a command finds the command, or fails as taking what the side gives
does.  The last value is not accepted yet. -/
theorem exists_outer_of_spells (h : Spells none gs args) (hd : d.awaited = none)
    (rest : List String) :
    ∃ x, outer d (args ++ name.text :: rest) = x.map (·, name, rest) ∧
      x >>= Draft.settle = d.settle >>= (gs.foldlM Draft.take ·) := by
  induction h generalizing d with
  | nil =>
    refine ⟨.ok d, outer_text hd rest, ?_⟩
    show d.settle = _
    cases d.settle <;> rfl
  | gives h hrest ih =>
    obtain ⟨hstep, hawaited⟩ := step_of_gives h hd
    rw [List.cons_append, outer_cons (fun _ => h.form_ne_plain) h.form_ne_escape]
    show ∃ x, _ ∧ _ = d.settle >>= fun d => d.take _ >>= (List.foldlM Draft.take · _)
    rw [← bind_assoc, ← hstep, bind_assoc]
    cases hs : step none d _ with
    | error e => exact ⟨.error e, rfl, rfl⟩
    | ok e => exact ih (hawaited e hs)
  | @opens slot arg v gs args h hv hrest ih =>
    rw [List.cons_append, outer_cons (fun _ => h.form_ne.2) h.form_ne.1, step_of_opens h d,
      Draft.option]
    cases hs : d.settle with
    | error e => exact ⟨.error e, rfl, rfl⟩
    | ok e =>
      have hawaits : Draft.awaited { e with pending := some (slot, none) } = some slot := rfl
      obtain ⟨x, hx, htakes⟩ := ih (d := { e with pending := some (slot, some v) }) rfl
      refine ⟨x, ?_, ?_⟩
      · show outer { e with pending := some (slot, none) } (v :: _) = _
        rw [outer_cons (fun hn => nomatch hawaits.symm.trans hn) hv.form_ne_escape,
          step_value hv hawaits]
        exact hx
      · rw [htakes, settle_awaited e _ _ (Draft.pending_settle hs)]
        rfl
  | escape hside files h => exact absurd rfl hside

end

/-! ## sides that are accepted -/

section
variable {side : Side} {slot : Slot} {arg : String} {d e : Draft}

theorem awaited_of_settle (h : d.settle = .ok e) : d.awaited = none := by
  unfold Draft.settle at h
  unfold Draft.awaited
  split at h
  · next hp => rw [hp]
  · exact nomatch h
  · next hp => rw [hp]

/-- what an argument does on a side that accepts it -/
inductive Reads (side : Side) (arg : String) : Option Slot → Option Slot → Prop
  | gives {g : Given} (h : Gives side g arg) : Reads side arg none none
  | opens {slot : Slot} (h : Opens slot arg) : Reads side arg none (some slot)
  | value {slot : Slot} (h : IsValue arg) : Reads side arg (some slot) none

theorem reads_of_option {attached : Option String}
    (hgives : ∀ v, attached = some v → Gives side (.value slot v) arg)
    (hopens : attached = none → Opens slot arg) (h : d.option slot attached = .ok e) :
    Reads side arg d.awaited e.awaited := by
  obtain ⟨d', hd', h⟩ := bind_eq_ok.mp h
  rw [awaited_of_settle hd']
  cases attached with
  | some v =>
    have hp := (Draft.pending_accept h).trans (Draft.pending_settle hd')
    rw [Draft.awaited_of_pending hp]
    exact .gives (hgives v rfl)
  | none =>
    rw [← Except.ok.inj h]
    exact .opens (hopens rfl)

theorem reads_of_pretty {attached : Option String} {name : String}
    (hs : longSwitch? side name = some .pretty) (hform : form arg = .long name attached)
    (h : d.long .pretty attached = .ok e) : Reads side arg d.awaited e.awaited := by
  have hname : name = "pretty" ∧ side = some .compile := by
    unfold longSwitch? at hs
    split_ifs at hs <;> simp_all
  cases attached with
  | some v => exact nomatch h
  | none =>
    obtain ⟨d', hd', h⟩ := bind_eq_ok.mp h
    have hp := (Draft.pending_take (g := .pretty) h).trans (Draft.pending_settle hd')
    rw [awaited_of_settle hd', Draft.awaited_of_pending hp, long_of_form hform, hname.1]
    exact .gives (.pretty hname.2)

/-- a call for help or for the version is never accepted -/
theorem not_ok_of_act {s : Switch} (hs : s = .help ∨ s = .version) :
    (d.settle >>= (Draft.act · s)) ≠ .ok e := by
  intro h
  obtain ⟨d', -, h⟩ := bind_eq_ok.mp h
  rcases hs with rfl | rfl <;> exact nomatch h

theorem reads_of_long {name : String} {attached : Option String} {s : Switch}
    (hform : form arg = .long name attached) (hs : longSwitch? side name = some s)
    (h : d.long s attached = .ok e) : Reads side arg d.awaited e.awaited := by
  cases s with
  | value slot =>
    have hslot := longSwitch?_eq_value_iff.mp hs
    refine reads_of_option (fun v hv => ?_) (fun hn => ?_) h
    · rw [long_of_form hform, hv, attachedText, ← String.append_assoc]
      exact .name hslot v
    · rw [long_of_form hform, hn, attachedText, String.append_empty]
      exact .name hslot
  | pretty => exact reads_of_pretty hs hform h
  | help | version =>
    unfold Draft.long at h
    dsimp only at h
    split_ifs at h
    exact absurd h (not_ok_of_act (by decide))

theorem reads_of_short {letter : Char} {attached : Option String} {s : Switch}
    (hform : form arg = .short letter attached) (hs : shortSwitch? side letter = some s)
    (h : d.short s attached = .ok e) : Reads side arg d.awaited e.awaited := by
  unfold shortSwitch? at hs
  split_ifs at hs with hc
  · rw [hc] at hform
    rw [← Option.some.inj hs] at h
    change d.option .config attached = .ok e at h
    refine reads_of_option (fun v hv => ?_) (fun hn => ?_) h
    · rw [hv] at hform
      rcases letter_of_form_attached hform with rfl | ⟨rfl, hne, hhead⟩
      · exact .letterEquals v
      · exact .letter hne hhead
    · rw [hn] at hform
      rw [letter_of_form hform]
      exact .letter
  · rw [← Option.some.inj hs] at h
    exact absurd h (not_ok_of_act (.inl rfl))
  · rw [← Option.some.inj hs] at h
    exact absurd h (not_ok_of_act (.inr rfl))

theorem reads_of_step (h : step side d arg = .ok e) (he : form arg ≠ .escape) :
    Reads side arg d.awaited e.awaited := by
  unfold step at h
  split at h
  · next hform =>
    split at h
    · next hs => exact reads_of_long hform hs h
    · exact nomatch h
  · next hform =>
    split at h
    · next hs => exact reads_of_short hform hs h
    · exact nomatch h
  · next hform => exact absurd hform he
  · next hform =>
    have hv := form_eq_plain_iff.mp hform
    split at h
    · next slot hd =>
      rw [hd, ← Except.ok.inj h]
      exact .value hv
    · next hd =>
      obtain ⟨hside, he⟩ := Draft.awaited_positional h
      rw [hd, he]
      exact .gives (.file hside hv)

end

section
variable {name : CommandName} {args : List String} {d e : Draft}

/-- the arguments behind those that the draft has seen, whose first may be a value that it awaits -/
def SpellsBehind (side : Side) (args : List String) : Option Slot → Prop
  | none => ∃ gs, Spells side gs args
  | some _ => ∃ v rest gs, args = v :: rest ∧ IsValue v ∧ Spells side gs rest

theorem SpellsBehind.cons {side : Side} {arg : String} {awaited awaited' : Option Slot}
    (h : Reads side arg awaited awaited') (hargs : SpellsBehind side args awaited') :
    SpellsBehind side (arg :: args) awaited := by
  cases h with
  | gives h =>
    obtain ⟨gs, hgs⟩ := hargs
    exact ⟨_ :: gs, .gives h hgs⟩
  | opens h =>
    obtain ⟨v, rest, gs, rfl, hv, hgs⟩ := hargs
    exact ⟨_ :: gs, .opens h hv hgs⟩
  | value h =>
    obtain ⟨gs, hgs⟩ := hargs
    exact ⟨arg, args, gs, rfl, h, hgs⟩

theorem spells_of_plainArguments {side : Side} (hside : side ≠ none)
    (h : plainArguments side d args >>= Draft.settle = .ok e) :
    SpellsBehind side ("--" :: args) d.awaited := by
  obtain ⟨d', hd', h⟩ := bind_eq_ok.mp h
  cases args with
  | nil =>
    obtain rfl := Except.ok.inj hd'
    rw [awaited_of_settle h]
    exact ⟨_, .escape hside [] (.inl rfl)⟩
  | cons f fs =>
    obtain ⟨d₁, hd₁, -⟩ := bind_eq_ok.mp hd'
    have hfile := (Draft.awaited_positional hd₁).1
    have hd : d.awaited = none := by
      unfold Draft.positional at hd₁
      split_ifs at hd₁
      obtain ⟨d₂, hd₂, -⟩ := bind_eq_ok.mp hd₁
      exact awaited_of_settle hd₂
    rw [hd]
    exact ⟨_, .escape hside (f :: fs) (.inr hfile)⟩

theorem spells_of_inner (h : inner name d args = .ok e) :
    SpellsBehind (some name) args d.awaited := by
  induction args generalizing d with
  | nil =>
    rw [awaited_of_settle h]
    exact ⟨[], .nil⟩
  | cons arg args ih =>
    rw [inner] at h
    split_ifs at h with hform
    · rw [form_eq_escape_iff.mp hform]
      exact spells_of_plainArguments (Option.some_ne_none name) h
    · obtain ⟨d', hd', h⟩ := bind_eq_ok.mp h
      exact .cons (reads_of_step hd' hform) (ih h)

theorem spells_of_outer {r : Draft × CommandName × List String} (h : outer d args = .ok r) :
    ∃ front, args = front ++ r.2.1.text :: r.2.2 ∧ SpellsBehind none front d.awaited := by
  induction args generalizing d with
  | nil => exact nomatch h
  | cons arg args ih =>
    rw [outer] at h
    split at h
    · exact nomatch h
    · split at h
      · next name hd hname =>
        obtain rfl := Except.ok.inj h
        rw [CommandName.text_of_ofText? hname, hd]
        exact ⟨[], rfl, [], .nil⟩
      · split_ifs at h with hform
        obtain ⟨d', hd', h⟩ := bind_eq_ok.mp h
        obtain ⟨front, rfl, hfront⟩ := ih h
        exact ⟨arg :: front, rfl, .cons (reads_of_step hd' hform) hfront⟩

end

/-! ## whole command lines -/

section
variable {env : Environment} {args : List String} {i : Invocation}

/-- every command line that is accepted is a command with a side in front of it and one behind -/
theorem exists_layout_of_parse (h : parse env args = .ok i) : ∃ l : Layout, l.Writes args := by
  obtain ⟨⟨before, name, rest⟩, houter, h⟩ := bind_eq_ok.mp h
  obtain ⟨behind, hinner, -⟩ := bind_eq_ok.mp h
  obtain ⟨front, hargs, gs, hgs⟩ := spells_of_outer houter
  obtain ⟨gs', hgs'⟩ := spells_of_inner hinner
  exact ⟨⟨gs, name, gs'⟩, front, rest, hargs, hgs, hgs'⟩

/-- a command line that is spelled: what is found in front of the command, where the last value is
not accepted yet, then what is given behind it, and then the checks -/
theorem parse_of_writes {l : Layout} (hl : l.Writes args) (env : Environment) :
    ∃ x, x >>= Draft.settle = l.before.foldlM Draft.take .empty ∧
      parse env args = x >>= fun d => l.behind.foldlM Draft.take .empty >>= fun behind =>
        checkEnvironment env behind >>= fun _ => commandOf l.name behind >>= fun command =>
        d.settle >>= fun before => checkEnvironment env before >>= fun _ =>
        .ok ⟨command, behind.config <|> before.config <|> env.config,
          behind.token <|> before.token <|> env.token⟩ := by
  obtain ⟨front, back, rfl, hfront, hback⟩ := hl
  obtain ⟨x, houter, htakes⟩ : ∃ x,
      outer .empty (front ++ l.name.text :: back) = x.map (·, l.name, back) ∧
        x >>= Draft.settle = l.before.foldlM Draft.take .empty :=
    exists_outer_of_spells hfront rfl back
  have hinner : inner l.name .empty back = l.behind.foldlM Draft.take .empty :=
    inner_of_spells hback rfl
  refine ⟨x, htakes, ?_⟩
  rw [parse, houter, ← hinner]
  cases x <;> rfl

/-- **A command line means what its two sides give.** -/
theorem parse_eq_ok_iff {l : Layout} (hl : l.Writes args) :
    parse env args = .ok i ↔ ∃ before behind, l.before.foldlM Draft.take .empty = .ok before ∧
      l.behind.foldlM Draft.take .empty = .ok behind ∧ checkEnvironment env behind = .ok () ∧
      checkEnvironment env before = .ok () ∧ commandOf l.name behind = .ok i.command ∧
      i.config = (behind.config <|> before.config <|> env.config) ∧
      i.token = (behind.token <|> before.token <|> env.token) := by
  obtain ⟨x, hx, hparse⟩ := parse_of_writes hl env
  rw [hparse, ← hx]
  constructor
  · intro h
    obtain ⟨d, hd, h⟩ := bind_eq_ok.mp h
    obtain ⟨behind, hbehind, h⟩ := bind_eq_ok.mp h
    obtain ⟨⟨⟩, henv, h⟩ := bind_eq_ok.mp h
    obtain ⟨command, hcommand, h⟩ := bind_eq_ok.mp h
    obtain ⟨before, hbefore, h⟩ := bind_eq_ok.mp h
    obtain ⟨⟨⟩, henv', h⟩ := bind_eq_ok.mp h
    obtain rfl := Except.ok.inj h
    exact ⟨before, behind, bind_eq_ok.mpr ⟨d, hd, hbefore⟩, hbehind, henv, henv', hcommand, rfl,
      rfl⟩
  · rintro ⟨before, behind, hbefore, hbehind, henv, henv', hcommand, hconfig, htoken⟩
    obtain ⟨d, hd, hbefore⟩ := bind_eq_ok.mp hbefore
    refine bind_eq_ok.mpr ⟨d, hd, bind_eq_ok.mpr ⟨behind, hbehind, bind_eq_ok.mpr ⟨(), henv,
      bind_eq_ok.mpr ⟨_, hcommand, bind_eq_ok.mpr ⟨before, hbefore, bind_eq_ok.mpr ⟨(), henv',
      ?_⟩⟩⟩⟩⟩⟩
    rw [← hconfig, ← htoken]

end

end SavedFilter.CommandLine
