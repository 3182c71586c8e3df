import SavedFilter.Proofs.Json.Skip

/-!
# What a reader takes

A reader takes a part off the front of a text.  How far that part goes and what it is read as does
not hang on what stands behind it, so long as no number could go on there:

* `Takes`, `IsLocal`   a part that is read alike in front of every rest, and readers that take such
                       parts only;
* `takes_of_first`     a reader that goes on behind the first character;
* `isLocal_string`, `isLocal_number`, `isLocal_scalar`   the readers of values without parts;
* `isLocal_items`      the reader of items, if the reader of one item is local.
-/

namespace SavedFilter.Json
open Reader Text

section
variable {α β : Type}

/-- The part is read as `a`, whatever stands behind it.  Loops take no more rounds than the part has
characters. -/
def Takes (read : Nat → List Char → Except Fault (α × List Char)) (t : List Char) (a : α) : Prop :=
  ∀ fuel rest, t.length < fuel → Stops continuesNumber rest → read fuel (t ++ rest) = .ok (a, rest)

/-- a reader that takes such parts only -/
def IsLocal (read : Nat → List Char → Except Fault (α × List Char)) : Prop :=
  ∀ fuel cs a rest, read fuel cs = .ok (a, rest) → ∃ t, cs = t ++ rest ∧ Takes read t a

variable {read : Nat → List Char → Except Fault (α × List Char)}

theorem IsLocal.map (h : IsLocal read) (f : α → β) :
    IsLocal fun n cs => (read n cs).map fun r => (f r.1, r.2) := by
  intro fuel cs b rest hr
  obtain ⟨⟨a, rest'⟩, ha, he⟩ := map_eq_ok.mp hr
  obtain ⟨rfl, rfl⟩ := Prod.mk.inj he
  obtain ⟨t, hcs, ht⟩ := h fuel cs a _ ha
  refine ⟨t, hcs, fun n rest' hn hs => ?_⟩
  dsimp only
  rw [ht n rest' hn hs]
  rfl

/-- a reader that reads the first character itself and goes on behind it -/
theorem takes_of_first {readBehind : Nat → List Char → Except Fault (α × List Char)}
    (h : IsLocal readBehind) {c : Char} (heq : ∀ n cs, read n (c :: cs) = readBehind n cs)
    (fuel : Nat) {cs : List Char} {a : α} {rest : List Char}
    (hr : read fuel (c :: cs) = .ok (a, rest)) : ∃ t, c :: cs = t ++ rest ∧ Takes read t a := by
  rw [heq] at hr
  obtain ⟨t, rfl, ht⟩ := h fuel cs a rest hr
  refine ⟨c :: t, rfl, fun n rest hn hs => ?_⟩
  rw [List.length_cons] at hn
  exact (heq n _).trans (ht n rest (by omega) hs)

/-- what is read may be refused for what it is -/
theorem IsLocal.check (h : IsLocal read) (check : α → Except Fault β) :
    IsLocal fun n cs => read n cs >>= fun r => (check r.1).map (·, r.2) := by
  intro fuel cs b rest hr
  obtain ⟨⟨a, rest'⟩, ha, hb⟩ := bind_eq_ok.mp hr
  obtain ⟨b', hb', he⟩ := map_eq_ok.mp hb
  obtain ⟨rfl, rfl⟩ := Prod.mk.inj he
  obtain ⟨t, hcs, ht⟩ := h fuel cs a _ ha
  refine ⟨t, hcs, fun n rest hn hs => ?_⟩
  show read n (t ++ rest) >>= _ = _
  rw [ht n rest hn hs]
  exact map_eq_ok.mpr ⟨b', hb', rfl⟩

theorem IsLocal.congr {read' : Nat → List Char → Except Fault (α × List Char)}
    (h : IsLocal read) (heq : ∀ n cs, read' n cs = read n cs) : IsLocal read' := by
  obtain rfl : read' = read := funext fun n => funext fun cs => heq n cs
  exact h

end

/-! ## strings -/

section
variable {γ : Type} {f g : List Char → Except Fault γ} {out : List Char → γ} {u cs rest : List Char}

/-- a unit that is taken in front of a part makes a longer part -/
theorem takes_unit (hunit : ∀ cs, f (u ++ cs) = g cs)
    (h : ∃ t, cs = t ++ rest ∧ ∀ rest, g (t ++ rest) = .ok (out rest)) :
    ∃ t, u ++ cs = t ++ rest ∧ ∀ rest, f (t ++ rest) = .ok (out rest) := by
  obtain ⟨t, rfl, ht⟩ := h
  refine ⟨u ++ t, (List.append_assoc ..).symm, fun rest => ?_⟩
  rw [List.append_assoc, hunit, ht]

end

theorem stringBody_hex {high : Option Nat} {done : List Char} {h₁ h₂ h₃ h₄ : Char}
    (hall : [h₁, h₂, h₃, h₄].all isHex = true) (rest : List Char) :
    stringBody high done ('\\' :: 'u' :: h₁ :: h₂ :: h₃ :: h₄ :: rest) =
      match high with
      | some h =>
        if isLowSurrogate (ofHex [h₁, h₂, h₃, h₄]) then
          stringBody none (pairChar h (ofHex [h₁, h₂, h₃, h₄]) :: done) rest
        else .error .malformed
      | none =>
        if isLowSurrogate (ofHex [h₁, h₂, h₃, h₄]) then .error .malformed
        else if isHighSurrogate (ofHex [h₁, h₂, h₃, h₄]) then
          stringBody (some (ofHex [h₁, h₂, h₃, h₄])) done rest
        else stringBody none (Char.ofNat (ofHex [h₁, h₂, h₃, h₄]) :: done) rest := by
  rw [stringBody.eq_def]
  cases high <;> simp [hall]

theorem takes_stringBody {high : Option Nat} {done cs : List Char} {r : List Char × List Char}
    (h : stringBody high done cs = .ok r) :
    ∃ t, cs = t ++ r.2 ∧ ∀ rest, stringBody high done (t ++ rest) = .ok (r.1, rest) := by
  -- the cases are the units of a string; those that are refused are left out at once
  fun_induction stringBody high done cs
  all_goals try (cases h; done)
  case case3 h₁ h₂ h₃ h₄ _ hall _ _ hlow ih =>
    refine takes_unit (u := ['\\', 'u', h₁, h₂, h₃, h₄]) (fun cs => ?_) (ih h)
    exact (stringBody_hex hall cs).trans (if_pos hlow)
  case case6 h₁ h₂ h₃ h₄ _ hall _ hlow hhigh ih =>
    refine takes_unit (u := ['\\', 'u', h₁, h₂, h₃, h₄]) (fun cs => ?_) (ih h)
    exact (stringBody_hex hall cs).trans ((if_neg hlow).trans (if_pos hhigh))
  case case7 h₁ h₂ h₃ h₄ _ hall _ hlow hhigh ih =>
    refine takes_unit (u := ['\\', 'u', h₁, h₂, h₃, h₄]) (fun cs => ?_) (ih h)
    exact (stringBody_hex hall cs).trans ((if_neg hlow).trans (if_neg hhigh))
  case case10 e _ he x hx ih =>
    exact takes_unit (u := ['\\', e]) (stringBody_letter _ · he hx) (ih h)
  case case13 high _ _ hhigh _ =>
    obtain rfl := Option.not_isSome_iff_eq_none.mp hhigh
    rw [← Except.ok.inj h]
    exact ⟨['"'], rfl, stringBody_quote _⟩
  case case15 high _ c _ hb hhigh hq hs ih =>
    obtain rfl := Option.not_isSome_iff_eq_none.mp hhigh
    exact takes_unit (u := [c]) (stringBody_plain _ · hq hb hs) (ih h)

theorem takes_string {cs : List Char} {r : String × List Char} (h : string cs = .ok r) :
    ∃ t, cs = t ++ r.2 ∧ ∀ rest, string (t ++ rest) = .ok (r.1, rest) := by
  obtain ⟨p, hp, rfl⟩ := map_eq_ok.mp h
  obtain ⟨t, hcs, ht⟩ := takes_stringBody hp
  refine ⟨t, hcs, fun rest => ?_⟩
  rw [string, ht]
  rfl

theorem isLocal_string : IsLocal fun _ => string := by
  intro fuel cs s rest h
  obtain ⟨t, hcs, ht⟩ := takes_string h
  exact ⟨t, hcs, fun _ rest _ _ => ht rest⟩

/-- the white space in front of what stands first -/
theorem exists_gap {cs ds : List Char} (h : skipSpace cs = ds) :
    ∃ gap, cs = gap ++ ds ∧ ∀ c ∈ gap, isSpace c = true :=
  ⟨cs.takeWhile isSpace, h ▸ List.takeWhile_append_dropWhile.symm,
    fun _ hc => List.mem_takeWhile_imp hc⟩

theorem not_isSpace_of_skipSpace {cs ds : List Char} {c : Char} (h : skipSpace cs = c :: ds) :
    isSpace c = false := by
  have hhead := List.head?_dropWhile_not isSpace cs
  rw [← skipSpace, h] at hhead
  simpa using hhead

theorem takes_key {cs : List Char} {r : String × List Char} (h : key cs = .ok r) :
    ∃ t, cs = t ++ r.2 ∧ ∀ rest, key (t ++ rest) = .ok (r.1, rest) := by
  unfold key at h
  split at h
  · next ds hds =>
    obtain ⟨⟨k, es⟩, hk, hcolon⟩ := bind_eq_ok.mp h
    dsimp only at hcolon
    split at hcolon
    · next fs hfs =>
      rw [← Except.ok.inj hcolon]
      obtain ⟨t, hds', ht⟩ := takes_string hk
      obtain ⟨gap, hcs, hgap⟩ := exists_gap hds
      obtain ⟨gap', hes, hgap'⟩ := exists_gap hfs
      dsimp only at hds' ht
      refine ⟨gap ++ '"' :: (t ++ (gap' ++ [':'])), by simp [hcs, hds', hes], fun rest => ?_⟩
      have htext : gap ++ '"' :: (t ++ (gap' ++ [':'])) ++ rest =
          gap ++ '"' :: (t ++ (gap' ++ ':' :: rest)) := by simp
      rw [htext]
      simp only [key, skipSpace_gap hgap (c := '"') rfl, ht, bind, Except.bind,
        skipSpace_gap hgap' (c := ':') rfl]
    · cases hcolon
  · cases h

/-! ## words and numbers -/

theorem eq_append_of_word {w cs rest : List Char} (h : word w cs = .ok rest) : cs = w ++ rest := by
  induction w generalizing cs with
  | nil => exact Except.ok.inj h
  | cons c w ih =>
    cases cs with
    | nil => cases h
    | cons d cs =>
      unfold word at h
      split_ifs at h with hcd
      rw [ih h, hcd, List.cons_append]

theorem word_append (w rest : List Char) : word w (w ++ rest) = .ok rest := by
  induction w with
  | nil => rfl
  | cons c w ih =>
    unfold word
    exact (if_pos rfl).trans ih

theorem isLocal_word {α : Type} (w : List Char) (a : α) :
    IsLocal fun _ cs => (word w cs).map (a, ·) := by
  intro fuel cs a' rest h
  obtain ⟨rest', hrest, he⟩ := map_eq_ok.mp h
  obtain ⟨rfl, rfl⟩ := Prod.mk.inj he
  refine ⟨w, eq_append_of_word hrest, fun n rest hn hs => ?_⟩
  dsimp only
  rw [word_append]
  rfl

theorem someDigits_eq_ok {cs : List Char} {r : List Char × List Char} (h : someDigits cs = .ok r) :
    cs = r.1 ++ r.2 ∧ r.1 ≠ [] ∧ ∀ c ∈ r.1, c.isDigit = true := by
  unfold someDigits at h
  split at h
  · cases h
  · next hne =>
    rw [← Except.ok.inj h]
    exact ⟨List.takeWhile_append_dropWhile.symm, hne, fun c hc => List.mem_takeWhile_imp hc⟩

theorem wholeDigits_eq_ok {cs : List Char} {r : List Char × List Char}
    (h : wholeDigits cs = .ok r) :
    someDigits cs = .ok r ∧ (r.1.head? = some '0' → r.1 = ['0']) := by
  unfold wholeDigits at h
  split at h
  · cases h
  · next hne =>
    refine ⟨h, fun hzero => ?_⟩
    obtain ⟨ds, rest⟩ := r
    cases ds with
    | nil => cases hzero
    | cons d ds =>
      obtain rfl : d = '0' := Option.some.inj hzero
      cases ds with
      | nil => rfl
      | cons d ds => exact absurd h (hne d ds rest)

theorem fractionPart_eq_ok {cs : List Char} {r : Option (List Char) × List Char}
    (h : fractionPart cs = .ok r) :
    cs = Numeral.fractionText r.1 ++ r.2 ∧
      ∀ ds, r.1 = some ds → ds ≠ [] ∧ ∀ c ∈ ds, c.isDigit = true := by
  unfold fractionPart at h
  split at h
  · obtain ⟨p, hp, rfl⟩ := map_eq_ok.mp h
    obtain ⟨hcs, hdigits⟩ := someDigits_eq_ok hp
    refine ⟨congrArg ('.' :: ·) hcs, ?_⟩
    rintro ds he
    exact Option.some.inj he ▸ hdigits
  · rw [← Except.ok.inj h]
    exact ⟨rfl, fun e he => absurd he.symm (Option.some_ne_none e)⟩

theorem exponentPart_eq_ok {cs : List Char} {r : Option (Bool × List Char) × List Char}
    (h : exponentPart cs = .ok r) :
    (∃ t, Numeral.SpellsExponent t r.1 ∧ cs = t ++ r.2) ∧
      ∀ e, r.1 = some e → e.2 ≠ [] ∧ ∀ c ∈ e.2, c.isDigit = true := by
  unfold exponentPart at h
  split at h
  · rw [← Except.ok.inj h]
    exact ⟨⟨[], .none, rfl⟩, fun e he => absurd he.symm (Option.some_ne_none e)⟩
  · next mark cs =>
    split_ifs at h with hmark
    · split at h
      · obtain ⟨p, hp, rfl⟩ := map_eq_ok.mp h
        obtain ⟨hcs, hdigits⟩ := someDigits_eq_ok hp
        refine ⟨⟨mark :: '-' :: p.1, .minus p.1 hmark, by rw [hcs]; rfl⟩, ?_⟩
        rintro e he
        exact Option.some.inj he ▸ hdigits
      · obtain ⟨p, hp, rfl⟩ := map_eq_ok.mp h
        obtain ⟨hcs, hdigits⟩ := someDigits_eq_ok hp
        refine ⟨⟨mark :: '+' :: p.1, .plus p.1 hmark, by rw [hcs]; rfl⟩, ?_⟩
        rintro e he
        exact Option.some.inj he ▸ hdigits
      · obtain ⟨p, hp, rfl⟩ := map_eq_ok.mp h
        obtain ⟨hcs, hdigits⟩ := someDigits_eq_ok hp
        refine ⟨⟨mark :: p.1, .bare p.1 hmark, by rw [hcs]; rfl⟩, ?_⟩
        rintro e he
        exact Option.some.inj he ▸ hdigits
    · rw [← Except.ok.inj h]
      exact ⟨⟨[], .none, rfl⟩, fun e he => absurd he.symm (Option.some_ne_none e)⟩

/-- what is taken for a number is one of its texts -/
theorem spells_of_numeral {negative : Bool} {cs : List Char} {r : Numeral × List Char}
    (h : numeral negative cs = .ok r) :
    r.1.negative = negative ∧ ∃ t, r.1.Spells t ∧ cs = t ++ r.2 := by
  obtain ⟨whole, hwhole, h⟩ := bind_eq_ok.mp h
  obtain ⟨fraction, hfraction, h⟩ := bind_eq_ok.mp h
  obtain ⟨exponent, hexponent, h⟩ := bind_eq_ok.mp h
  obtain ⟨hdigits, hzero⟩ := wholeDigits_eq_ok hwhole
  obtain ⟨hcs, hne, hall⟩ := someDigits_eq_ok hdigits
  obtain ⟨hcs', hdecimals⟩ := fractionPart_eq_ok hfraction
  obtain ⟨⟨t, ht, hcs''⟩, hpower⟩ := exponentPart_eq_ok hexponent
  rw [← Except.ok.inj h]
  have hwritten : (Numeral.mk negative whole.1 fraction.1 exponent.1).IsWritten :=
    ⟨hne, hall, hzero, fun ds he => (hdecimals ds he).1, fun ds he => (hdecimals ds he).2,
      fun e he => (hpower e he).1, fun e he => (hpower e he).2⟩
  refine ⟨rfl, _, ⟨hwritten, t, ht, rfl⟩, ?_⟩
  rw [hcs, hcs', hcs'', List.append_assoc, List.append_assoc]

theorem isLocal_numeral (negative : Bool) : IsLocal fun _ => numeral negative := by
  intro fuel cs n rest h
  obtain ⟨hsign, t, ht, hcs⟩ := spells_of_numeral h
  refine ⟨t, hcs, fun _ rest _ hs => ?_⟩
  rw [← hsign]
  exact numeral_spelled ht hs

theorem isLocal_number (negative : Bool) : IsLocal fun _ => number negative := by
  intro fuel cs v rest h
  obtain ⟨⟨n, rest'⟩, hn, h⟩ := bind_eq_ok.mp h
  obtain ⟨hsign, t, ht, hcs⟩ := spells_of_numeral hn
  dsimp only at h
  split at h
  · next w hw =>
    obtain ⟨rfl, rfl⟩ := Prod.mk.inj (Except.ok.inj h)
    refine ⟨t, hcs, fun _ rest _ hs => ?_⟩
    rw [← hsign]
    exact number_spelled ht hw hs
  · cases h

/-- a reader whose first character is given -/
theorem IsLocal.cons {α : Type} {read : List Char → Except Fault (α × List Char)}
    (h : IsLocal fun _ => read) (hnil : ∀ r, read [] ≠ .ok r) (c : Char) :
    IsLocal fun _ cs => read (c :: cs) := by
  intro fuel cs v rest hr
  obtain ⟨t, hcs, ht⟩ := h fuel (c :: cs) v rest hr
  cases t with
  | nil => exact absurd (ht 1 [] Nat.zero_lt_one stops_nil) (hnil _)
  | cons d t =>
    obtain ⟨rfl, htail⟩ := List.cons.inj hcs
    exact ⟨t, htail, fun n rest hn hs => ht (n + 1) rest (Nat.succ_lt_succ hn) hs⟩

/-! ## values -/

theorem isLocal_scalar (c : Char) : IsLocal fun _ => scalar c := by
  by_cases hq : c = '"'
  · exact (isLocal_string.map Json.str).congr fun _ cs => by rw [scalar, if_pos hq]
  by_cases hm : c = '-'
  · exact (isLocal_number true).congr fun _ cs => by rw [scalar, if_neg hq, if_pos hm]
  by_cases hd : c.isDigit = true
  · exact ((isLocal_number false).cons (fun _ => error_ne_ok) c).congr fun _ cs => by
      rw [scalar, if_neg hq, if_neg hm, if_pos hd]
  by_cases ht : c = 't'
  · exact (isLocal_word "rue".toList (.bool true)).congr fun _ cs => by
      rw [scalar, if_neg hq, if_neg hm, if_neg hd, if_pos ht]
  by_cases hf : c = 'f'
  · exact (isLocal_word "alse".toList (.bool false)).congr fun _ cs => by
      rw [scalar, if_neg hq, if_neg hm, if_neg hd, if_neg ht, if_pos hf]
  by_cases hn : c = 'n'
  · exact (isLocal_word "ull".toList .null).congr fun _ cs => by
      rw [scalar, if_neg hq, if_neg hm, if_neg hd, if_neg ht, if_neg hf, if_pos hn]
  · intro fuel cs v rest h
    dsimp only at h
    rw [scalar, if_neg hq, if_neg hm, if_neg hd, if_neg ht, if_neg hf, if_neg hn] at h
    cases h

section
variable {α : Type} {read : Nat → List Char → Except Fault (α × List Char)}

/-- a part is read in front of a mark behind it, with white space between the two -/
theorem Takes.before_mark {t : List Char} {a : α} (h : Takes read t a) {gap : List Char}
    (hgap : ∀ c ∈ gap, isSpace c = true) {mark : Char} (hmark : continuesNumber mark = false)
    {t' : List Char} {fuel : Nat} (hlen : (t ++ (gap ++ mark :: t')).length ≤ fuel)
    (rest : List Char) :
    read fuel (t ++ (gap ++ mark :: t') ++ rest) = .ok (a, gap ++ mark :: (t' ++ rest)) := by
  have htext : t ++ (gap ++ mark :: t') ++ rest = t ++ (gap ++ mark :: (t' ++ rest)) := by simp
  rw [List.length_append, List.length_append, List.length_cons] at hlen
  rw [htext]
  exact h fuel _ (by omega) (stops_gap hgap hmark _)

theorem takes_moreItems (hread : IsLocal read) {n fuel : Nat} {done : List α} {cs : List Char}
    {r : List α × List Char} (h : moreItems (read fuel) n done cs = .ok r) :
    ∃ t, cs = t ++ r.2 ∧ ∀ n' fuel' rest, t.length ≤ n' → t.length ≤ fuel' →
      moreItems (read fuel') n' done (t ++ rest) = .ok (r.1, rest) := by
  induction n generalizing done cs with
  | zero => cases h
  | succ n ih =>
    obtain ⟨⟨v, ds⟩, hv, hmore⟩ := bind_eq_ok.mp h
    obtain ⟨t, hcs, ht⟩ := hread fuel cs v ds hv
    -- the mark behind the item stands for a round of the loop
    have hlen : ∀ (gap t' : List Char) (mark : Char),
        t'.length + 1 ≤ (t ++ (gap ++ mark :: t')).length := by
      intro gap t' mark
      rw [List.length_append, List.length_append, List.length_cons]
      omega
    dsimp only at hmore
    split at hmore
    · next es hes =>
      obtain ⟨gap, hds, hgap⟩ := exists_gap hes
      obtain ⟨t', hes', ht'⟩ := ih hmore
      refine ⟨t ++ (gap ++ ',' :: t'), by simp [hcs, hds, hes'], ?_⟩
      intro n' fuel' rest hn hfuel
      have hround := hlen gap t' ','
      obtain ⟨k, rfl⟩ : ∃ k, n' = k + 1 := ⟨n' - 1, by omega⟩
      rw [moreItems_comma hgap (ht.before_mark hgap rfl hfuel rest)]
      exact ht' k fuel' rest (by omega) (by omega)
    · next es hes =>
      obtain ⟨gap, hds, hgap⟩ := exists_gap hes
      rw [← Except.ok.inj hmore]
      refine ⟨t ++ (gap ++ [']']), by simp [hcs, hds], ?_⟩
      intro n' fuel' rest hn hfuel
      have hround := hlen gap [] ']'
      obtain ⟨k, rfl⟩ : ∃ k, n' = k + 1 := ⟨n' - 1, by omega⟩
      rw [moreItems_close hgap (ht.before_mark hgap rfl hfuel rest), List.reverse_cons]
      rfl
    · cases hmore

theorem isLocal_items (hread : IsLocal read) : IsLocal fun n => items (read n) n := by
  intro fuel cs vs rest h
  dsimp only [items] at h
  split at h
  · next es hes =>
    obtain ⟨gap, hcs, hgap⟩ := exists_gap hes
    obtain ⟨rfl, rfl⟩ := Prod.mk.inj (Except.ok.inj h)
    refine ⟨gap ++ [']'], by simp [hcs], fun n rest hn hs => ?_⟩
    simp only [items, List.append_assoc, List.singleton_append, skipSpace_gap hgap (c := ']') rfl]
  · next hne =>
    obtain ⟨t, hds, ht⟩ := takes_moreItems hread h
    cases t with
    | nil => cases ht 0 0 [] le_rfl le_rfl
    | cons c t =>
      obtain ⟨gap, hcs, hgap⟩ := exists_gap hds
      have hspace : isSpace c = false := not_isSpace_of_skipSpace hds
      have hclose : c ≠ ']' := fun hc => hne _ (hc ▸ hds)
      refine ⟨gap ++ c :: t, by simp [hcs], fun n rest hn hs => ?_⟩
      have hfirst : skipSpace (gap ++ c :: t ++ rest) = c :: t ++ rest := by
        rw [List.append_assoc, List.cons_append, skipSpace_gap hgap hspace]
      rw [List.length_append] at hn
      dsimp only [items]
      split
      · next es hes => exact absurd (List.cons.inj (hfirst.symm.trans hes)).1 hclose
      · rw [hfirst]
        exact ht n n rest (by omega) (by omega)

end

end SavedFilter.Json
