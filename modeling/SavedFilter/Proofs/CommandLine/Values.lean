import SavedFilter.Proofs.CommandLine.Layout

/-!
# The values of options

What an accepted command line gives for a slot is what its invocation has:

* `values`, `Layout.AsksPretty`   what a side gives for a slot, and whether it wants indentation;
* `values_of_takes`               a side is accepted only if it gives one value for a slot at most;
* `layers`, `values_of_parse`     the side behind the command comes before the one in front of it,
                                  and both before the environment.
-/

namespace SavedFilter.CommandLine

def Given.value? (slot : Slot) : Given → Option String
  | .value s v => if s = slot then some v else none
  | .pretty => none

/-- the values that are given for a slot -/
def values (slot : Slot) (gs : List Given) : List String := gs.filterMap (Given.value? slot)

theorem values_cons (slot : Slot) (g : Given) (gs : List Given) :
    values slot (g :: gs) = (g.value? slot).toList ++ values slot gs := by
  rw [values, values, List.filterMap_cons]
  cases g.value? slot <;> rfl

/-- indented output is asked for, which only `compile` knows -/
def Layout.AsksPretty (l : Layout) : Prop := l.name = .compile ∧ Given.pretty ∈ l.behind

instance (l : Layout) : Decidable l.AsksPretty :=
  inferInstanceAs (Decidable (l.name = .compile ∧ Given.pretty ∈ l.behind))

/-! ## drafts -/

namespace Draft
variable {gs : List Given} {g : Given} {d e : Draft} {slot s : Slot} {v : String}

def value? (d : Draft) : Slot → Option String
  | .config => d.config
  | .token => d.token
  | .file => d.file

/-- a value is accepted for a slot without one; nothing else changes -/
theorem value?_of_accept (h : d.accept s v = .ok e) :
    d.value? s = none ∧ e.pretty = d.pretty ∧
      ∀ slot, e.value? slot = if s = slot then some v else d.value? slot := by
  have hfree {p : Prop} (o : Option String) (h : ¬ (o.isSome ∨ p)) : o = none :=
    Option.not_isSome_iff_eq_none.mp (not_or.mp h).1
  unfold accept at h
  cases s with
  | config | file =>
    dsimp only at h
    split_ifs at h with hrefused
    rw [← Except.ok.inj h]
    exact ⟨hfree _ hrefused, rfl, by rintro (_ | _ | _) <;> rfl⟩
  | token =>
    dsimp only at h
    split_ifs at h with hrefused
    rw [← Except.ok.inj h]
    exact ⟨Option.not_isSome_iff_eq_none.mp hrefused, rfl, by rintro (_ | _ | _) <;> rfl⟩

theorem value?_of_take (h : d.take g = .ok e) (slot : Slot) :
    (e.value? slot).toList = (d.value? slot).toList ++ (g.value? slot).toList := by
  cases g with
  | value s v =>
    obtain ⟨hfree, -, hvalue⟩ := value?_of_accept h
    rw [hvalue, Given.value?]
    split_ifs with hs
    · rw [← hs, hfree]
      rfl
    · exact (List.append_nil _).symm
  | pretty =>
    unfold take act at h
    dsimp only at h
    split_ifs at h
    rw [← Except.ok.inj h]
    exact (List.append_nil _).symm

theorem pretty_of_take (h : d.take g = .ok e) : e.pretty = (d.pretty || g == .pretty) := by
  cases g with
  | value s v => exact (value?_of_accept h).2.1.trans (Bool.or_false _).symm
  | pretty =>
    unfold take act at h
    dsimp only at h
    split_ifs at h
    rw [← Except.ok.inj h]
    exact (Bool.or_true _).symm

/-- **What a side gives for a slot** is what its draft has in the end, so there is one value at
most. -/
theorem values_of_takes (h : gs.foldlM take d = .ok e) (slot : Slot) :
    (e.value? slot).toList = (d.value? slot).toList ++ values slot gs := by
  induction gs generalizing d with
  | nil =>
    rw [← Except.ok.inj h]
    exact (List.append_nil _).symm
  | cons g gs ih =>
    obtain ⟨d', hd', h⟩ := bind_eq_ok.mp h
    rw [ih h, value?_of_take hd', List.append_assoc, values_cons]

theorem pretty_of_takes (h : gs.foldlM take d = .ok e) :
    e.pretty = (d.pretty || gs.contains .pretty) := by
  induction gs generalizing d with
  | nil =>
    rw [← Except.ok.inj h]
    exact (Bool.or_false _).symm
  | cons g gs ih =>
    obtain ⟨d', hd', h⟩ := bind_eq_ok.mp h
    rw [ih h, pretty_of_take hd', List.contains_cons, Bool.or_assoc, BEq.comm]

end Draft

/-! ## layers -/

/-- the highest layer that gives something -/
def highest {α : Type} (layers : List (Option α)) : Option α := layers.findSome? id

/-- where the value for a slot may come from: behind the command, in front of it, or from the
environment -/
def Layout.layers (l : Layout) (slot : Slot) (env : Option String) : List (Option String) :=
  [(values slot l.behind).head?, (values slot l.before).head?, env]

theorem highest_append {α : Type} (layers layers' : List (Option α)) :
    highest (layers ++ layers') = (highest layers).or (highest layers') := List.findSome?_append

/-- what stands below a layer that gives something does not count -/
theorem highest_congr {α : Type} {layers layers' : List (Option α)} {n : Nat}
    (h : layers.take n = layers'.take n) {a : α} (ha : some a ∈ layers.take n) :
    ∃ b, highest layers = some b ∧ highest layers' = some b := by
  have hsome : (highest (layers.take n)).isSome := List.findSome?_isSome_iff.mpr ⟨_, ha, rfl⟩
  obtain ⟨b, hb⟩ := Option.isSome_iff_exists.mp hsome
  have htake : ∀ layers : List (Option α), highest (layers.take n) = some b →
      highest layers = some b := by
    intro layers hb
    rw [← List.take_append_drop n layers, highest_append, hb]
    rfl
  exact ⟨b, htake layers hb, htake layers' (h ▸ hb)⟩

section
variable {env : Environment} {args : List String} {i : Invocation} {l : Layout}

/-- **An accepted command line gives one value at most on each side**, and the highest layer that
has one is what the invocation has. -/
theorem values_of_parse (hl : l.Writes args) (h : parse env args = .ok i) :
    (∀ slot, (values slot l.behind).length ≤ 1 ∧ (values slot l.before).length ≤ 1) ∧
      i.config = highest (l.layers .config env.config) ∧
      i.token = highest (l.layers .token env.token) := by
  obtain ⟨before, behind, hbefore, hbehind, -, -, -, hconfig, htoken⟩ := (parse_eq_ok_iff hl).mp h
  have hside : ∀ {gs : List Given} {d : Draft}, gs.foldlM Draft.take .empty = .ok d → ∀ slot,
      values slot gs = (d.value? slot).toList := by
    intro gs d hd slot
    rw [Draft.values_of_takes hd]
    cases slot <;> rfl
  have hlayers : ∀ slot env, highest (l.layers slot env) =
      (behind.value? slot <|> before.value? slot <|> env) := by
    intro slot env
    rw [Layout.layers, hside hbehind, hside hbefore]
    cases behind.value? slot <;> cases before.value? slot <;> cases env <;> rfl
  refine ⟨fun slot => ?_, hconfig.trans (hlayers .config _).symm,
    htoken.trans (hlayers .token _).symm⟩
  rw [hside hbehind, hside hbefore]
  exact ⟨Option.length_toList_le, Option.length_toList_le⟩

end

end SavedFilter.CommandLine
