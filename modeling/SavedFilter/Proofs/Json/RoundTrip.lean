import SavedFilter.Json.Printer
import SavedFilter.Proofs.Json.Doubles

/-!
# JSON that is read back

A value that is written is read back as itself, in either layout:

* `Gaps`             the white space of a layout; `render` and `pretty` are two of them;
* `Writable`         the values that have a text: integers that 64 bits hold, finite doubles, and
                     objects with every key once;
* `parse_compactText`, `parse_prettyText`  such a value, not nested too deeply, is read back.
-/

namespace SavedFilter.Json
open Text Binary64 Reader

/-! ## strings -/

section
variable (done rest : List Char)

theorem stringBody_quote : stringBody none done ('"' :: rest) = .ok (done.reverse, rest) := by
  rw [stringBody.eq_def]
  rfl

theorem stringBody_letter {e x : Char} (he : e ≠ 'u') (hx : unescape? e = some x) :
    stringBody none done ('\\' :: e :: rest) = stringBody none (x :: done) rest := by
  rw [stringBody.eq_def]
  simp only [if_true, if_neg he, hx]

theorem stringBody_plain {c : Char} (hq : c ≠ '"') (hb : c ≠ '\\') (hs : ¬ c < ' ') :
    stringBody none done (c :: rest) = stringBody none (c :: done) rest := by
  rw [stringBody.eq_def]
  simp only [hq, hb, hs, if_false, Option.isSome_none, Bool.false_eq_true]

/-- a control character is escaped by its four hexadecimal digits -/
theorem stringBody_control {c : Char} (h : c < ' ') :
    stringBody none done ('\\' :: 'u' :: hex 4 c.toNat ++ rest) =
      stringBody none (c :: done) rest := by
  have hlt : c.toNat < 32 := h
  have hvalue : ofHex (hex 4 c.toNat) = c.toNat := by
    rw [ofHex_hex]
    exact Nat.mod_eq_of_lt (by omega)
  have hall : (hex 4 c.toNat).all isHex = true :=
    List.all_eq_true.mpr fun _ hx => isHex_of_mem_hex hx
  have hlen := length_hex 4 c.toNat
  generalize hex 4 c.toNat = ds at hvalue hall hlen
  obtain ⟨h₁, h₂, h₃, h₄, rfl⟩ := List.length_eq_four.mp hlen
  have hlow : isLowSurrogate c.toNat = false := by simp [isLowSurrogate]; omega
  have hhigh : isHighSurrogate c.toNat = false := by simp [isHighSurrogate]; omega
  show stringBody none done ('\\' :: 'u' :: h₁ :: h₂ :: h₃ :: h₄ :: rest) = _
  rw [stringBody.eq_def]
  simp only [if_true, hall, hvalue, hlow, hhigh, Char.ofNat_toNat, Bool.false_eq_true, if_false]

/-- what a character is written as is read as that character -/
theorem stringBody_escape (c : Char) :
    stringBody none done (escape c ++ rest) = stringBody none (c :: done) rest := by
  unfold escape
  split_ifs with h₁ h₂ h₃ h₄ h₅ h₆ h₇ h₈
  · rw [h₁]
    exact stringBody_letter done rest (by decide) rfl
  · rw [h₂]
    exact stringBody_letter done rest (by decide) rfl
  · rw [h₃]
    exact stringBody_letter done rest (by decide) rfl
  · rw [h₄]
    exact stringBody_letter done rest (by decide) rfl
  · rw [h₅]
    exact stringBody_letter done rest (by decide) rfl
  · rw [h₆]
    exact stringBody_letter done rest (by decide) rfl
  · rw [h₇]
    exact stringBody_letter done rest (by decide) rfl
  · exact stringBody_control done rest h₈
  · exact stringBody_plain done rest h₁ h₂ h₈

end

theorem stringBody_flatMap_escape (cs done rest : List Char) :
    stringBody none done (cs.flatMap escape ++ '"' :: rest) = .ok (done.reverse ++ cs, rest) := by
  induction cs generalizing done with
  | nil =>
    rw [List.flatMap_nil, List.nil_append, stringBody_quote, List.append_nil]
  | cons c cs ih =>
    rw [List.flatMap_cons, List.append_assoc, stringBody_escape, ih, List.reverse_cons,
      List.append_assoc]
    rfl

theorem string_quoted (s : String) (rest : List Char) :
    string (s.toList.flatMap escape ++ '"' :: rest) = .ok (s, rest) := by
  rw [string, stringBody_flatMap_escape]
  show Except.ok (String.ofList ([].reverse ++ s.toList), rest) = _
  rw [List.reverse_nil, List.nil_append, String.ofList_toList]

/-! ## white space -/

theorem skipSpace_append {gap : List Char} (h : ∀ c ∈ gap, isSpace c = true) (cs : List Char) :
    skipSpace (gap ++ cs) = skipSpace cs :=
  List.dropWhile_append_of_pos h

theorem skipSpace_cons {c : Char} (h : isSpace c = false) (cs : List Char) :
    skipSpace (c :: cs) = c :: cs := by
  rw [skipSpace, List.dropWhile_cons_of_neg (by rw [h]; decide)]

theorem skipSpace_gap {gap : List Char} (h : ∀ c ∈ gap, isSpace c = true) {c : Char}
    (hc : isSpace c = false) (cs : List Char) : skipSpace (gap ++ c :: cs) = c :: cs := by
  rw [skipSpace_append h, skipSpace_cons hc]

theorem not_continuesNumber_of_isSpace {c : Char} (h : isSpace c = true) :
    continuesNumber c = false := by
  simp only [isSpace, Bool.or_eq_true, beq_iff_eq] at h
  rcases h with ((rfl | rfl) | rfl) | rfl <;> decide

/-- a number ends where white space or some other character stands -/
theorem stops_gap {gap : List Char} (h : ∀ c ∈ gap, isSpace c = true) {c : Char}
    (hc : continuesNumber c = false) (cs : List Char) :
    Stops continuesNumber (gap ++ c :: cs) := by
  cases gap with
  | nil => exact stops_cons _ hc
  | cons d ds => exact stops_cons _ (not_continuesNumber_of_isSpace (h d (List.mem_cons_self ..)))

theorem stops_of_isSpace {gap : List Char} (h : ∀ c ∈ gap, isSpace c = true) :
    Stops continuesNumber gap :=
  fun c hc => not_continuesNumber_of_isSpace (h c (List.mem_of_mem_head? hc))

/-! ## values without parts -/

section
variable {fuel depth : Nat} {rest : List Char}

theorem value_append {gap : List Char} (h : ∀ c ∈ gap, isSpace c = true) (cs : List Char) :
    value fuel depth (gap ++ cs) = value fuel depth cs := by
  cases depth <;> simp only [value, skipSpace_append h]

theorem value_scalar {c : Char} {cs : List Char} (hs : isSpace c = false) (ha : c ≠ '[')
    (ho : c ≠ '{') : value fuel depth (c :: cs) = scalar c cs := by
  cases depth <;> simp only [value, skipSpace_cons hs, ha, ho, or_self, if_false]

theorem isDigit_of_number {negative : Bool} {cs : List Char} {r : Json × List Char}
    (h : number negative cs = .ok r) : ∃ d ds, cs = d :: ds ∧ d.isDigit = true := by
  cases cs with
  | nil => cases h
  | cons d ds =>
    refine ⟨d, ds, rfl, ?_⟩
    by_contra hd
    rw [number, numeral, wholeDigits, someDigits, List.takeWhile_cons_of_neg hd] at h
    cases h

def signed (negative : Bool) (cs : List Char) : List Char := if negative then '-' :: cs else cs

theorem value_signed {negative : Bool} {cs : List Char} {r : Json × List Char}
    (h : number negative cs = .ok r) : value fuel depth (signed negative cs) = .ok r := by
  cases negative with
  | true =>
    refine (value_scalar rfl (by decide) (by decide)).trans (Eq.trans ?_ h)
    exact (if_neg (by decide)).trans (if_pos rfl)
  | false =>
    obtain ⟨d, ds, rfl, hd⟩ := isDigit_of_number h
    have hne : ∀ c : Char, c.isDigit = false → d ≠ c := by
      intro c hc
      exact ne_of_isDigit hd hc
    have hs : isSpace d = false := by
      simp only [isSpace, Bool.or_eq_false_iff, beq_eq_false_iff_ne]
      exact ⟨⟨⟨hne _ rfl, hne _ rfl⟩, hne _ rfl⟩, hne _ rfl⟩
    rw [signed, if_neg Bool.false_ne_true, value_scalar hs (hne _ rfl) (hne _ rfl), scalar,
      if_neg (hne _ rfl), if_neg (hne _ rfl), if_pos hd]
    exact h

theorem value_integer {n : Int} (hn : FitsInteger n) (h : Stops continuesNumber rest) :
    value fuel depth (integer n ++ rest) = .ok (.int n, rest) := by
  have htext : integer n ++ rest = signed (decide (n < 0)) (decimal n.natAbs ++ rest) := by
    by_cases hneg : n < 0 <;> simp [integer, signed, hneg]
  rw [htext]
  exact value_signed (number_integer hn h)

theorem value_double {x : Binary64} (hx : x.isFinite = true) (h : Stops continuesNumber rest) :
    value fuel depth (doubleText x ++ rest) = .ok (.double x, rest) := by
  have htext : doubleText x ++ rest = signed x.isNegative (magnitudeText x.magnitude ++ rest) := by
    cases hneg : x.isNegative <;> simp [doubleText, signed, hneg]
  rw [htext, value_signed (number_magnitudeText (decide_eq_true_iff.mp hx) _ h),
    ofMagnitude_magnitude]

theorem value_quoted (s : String) : value fuel depth (quoted s ++ rest) = .ok (.str s, rest) := by
  have htext : quoted s ++ rest = '"' :: (s.toList.flatMap escape ++ '"' :: rest) := by
    simp [quoted]
  rw [htext, value_scalar rfl (by decide) (by decide), scalar, if_pos rfl,
    string_quoted]
  rfl

end

/-! ## layouts -/

/-- the white space of a layout: in front of what stands at a level, and behind a colon -/
structure Gaps where
  line : Nat → List Char
  colon : List Char
  isSpace_line : ∀ level, ∀ c ∈ line level, isSpace c = true
  isSpace_colon : ∀ c ∈ colon, isSpace c = true

namespace Gaps

def tight : Gaps := ⟨fun _ => [], [], (fun _ _ h => nomatch h), (fun _ h => nomatch h)⟩

theorem isSpace_newLine (level : Nat) : ∀ c ∈ newLine level, isSpace c = true := by
  intro c hc
  rcases List.mem_cons.mp hc with rfl | hc
  · rfl
  · rw [List.eq_of_mem_replicate hc]
    rfl

/-- a line for every item and every member -/
def wide : Gaps := ⟨newLine, [' '], isSpace_newLine, List.forall_mem_singleton.mpr rfl⟩

@[simp] theorem line_tight (level : Nat) : tight.line level = [] := rfl
@[simp] theorem colon_tight : tight.colon = [] := rfl
@[simp] theorem line_wide (level : Nat) : wide.line level = newLine level := rfl
@[simp] theorem colon_wide : wide.colon = [' '] := rfl

variable (g : Gaps)

mutual

/-- the text of a value that begins at `level` -/
def text (level : Nat) : Json → List Char
  | .arr [] => ['[', ']']
  | .arr (v :: vs) =>
    '[' :: (g.line (level + 1) ++ text (level + 1) v ++ more (level + 1) vs ++ g.line level
      ++ [']'])
  | .obj [] => ['{', '}']
  | .obj ((k, v) :: ms) =>
    '{' :: (g.line (level + 1) ++ quoted k ++ ':' :: (g.colon ++ text (level + 1) v)
      ++ moreMembers (level + 1) ms ++ g.line level ++ ['}'])
  | v => scalarText v

def more (level : Nat) : List Json → List Char
  | [] => []
  | v :: vs => ',' :: (g.line level ++ text level v ++ more level vs)

def moreMembers (level : Nat) : List (String × Json) → List Char
  | [] => []
  | (k, v) :: ms =>
    ',' :: (g.line level ++ quoted k ++ ':' :: (g.colon ++ text level v) ++ moreMembers level ms)

end

mutual

theorem text_tight : ∀ (level : Nat) (v : Json), tight.text level v = render v
  | _, .null | _, .bool _ | _, .int _ | _, .double _ | _, .str _ => rfl
  | _, .arr [] => rfl
  | level, .arr (v :: vs) => by
    simp only [text, render, renderItems, text_tight _ v, more_tight _ vs, line_tight,
      List.nil_append, List.append_nil]
  | _, .obj [] => rfl
  | level, .obj ((k, v) :: ms) => by
    simp only [text, render, renderMembers, text_tight _ v, moreMembers_tight _ ms, line_tight,
      colon_tight, List.nil_append, List.append_nil, List.append_assoc, List.cons_append]

theorem more_tight : ∀ (level : Nat) (vs : List Json), tight.more level vs = renderMore vs
  | _, [] => rfl
  | level, v :: vs => by
    simp only [more, renderMore, text_tight _ v, more_tight _ vs, line_tight, List.nil_append]

theorem moreMembers_tight : ∀ (level : Nat) (ms : List (String × Json)),
    tight.moreMembers level ms = renderMoreMembers ms
  | _, [] => rfl
  | level, (k, v) :: ms => by
    simp only [moreMembers, renderMoreMembers, text_tight _ v, moreMembers_tight _ ms, line_tight,
      colon_tight, List.nil_append, List.append_assoc, List.cons_append]

end

mutual

theorem text_wide : ∀ (level : Nat) (v : Json), wide.text level v = pretty level v
  | _, .null | _, .bool _ | _, .int _ | _, .double _ | _, .str _ => rfl
  | _, .arr [] => rfl
  | level, .arr (v :: vs) => by
    simp only [text, pretty, text_wide _ v, more_wide _ vs, line_wide]
  | _, .obj [] => rfl
  | level, .obj ((k, v) :: ms) => by
    simp only [text, pretty, text_wide _ v, moreMembers_wide _ ms, line_wide, colon_wide,
      List.cons_append, List.nil_append]

theorem more_wide : ∀ (level : Nat) (vs : List Json), wide.more level vs = prettyMore level vs
  | _, [] => rfl
  | level, v :: vs => by
    simp only [more, prettyMore, text_wide _ v, more_wide _ vs, line_wide]

theorem moreMembers_wide : ∀ (level : Nat) (ms : List (String × Json)),
    wide.moreMembers level ms = prettyMoreMembers level ms
  | _, [] => rfl
  | level, (k, v) :: ms => by
    simp only [moreMembers, prettyMoreMembers, text_wide _ v, moreMembers_wide _ ms, line_wide,
      colon_wide, List.cons_append, List.nil_append]

end

end Gaps

/-! ## values with parts -/

mutual

def Writable : Json → Prop
  | .int n => FitsInteger n
  | .double x => x.isFinite = true
  | .arr items => AllWritable items
  | .obj members => (members.map Prod.fst).Nodup ∧ MembersWritable members
  | .null | .bool _ | .str _ => True

def AllWritable : List Json → Prop
  | [] => True
  | v :: vs => v.Writable ∧ AllWritable vs

def MembersWritable : List (String × Json) → Prop
  | [] => True
  | (_, v) :: ms => v.Writable ∧ MembersWritable ms

end

mutual

/-- the number of arrays and objects on the longest path down -/
def nesting : Json → Nat
  | .arr items => nestingOfAll items + 1
  | .obj members => nestingOfMembers members + 1
  | .null | .bool _ | .int _ | .double _ | .str _ => 0

def nestingOfAll : List Json → Nat
  | [] => 0
  | v :: vs => max v.nesting (nestingOfAll vs)

def nestingOfMembers : List (String × Json) → Nat
  | [] => 0
  | (_, v) :: ms => max v.nesting (nestingOfMembers ms)

end

theorem put_of_not_mem {α : Type} {ms : List (String × α)} {key : String} (v : α)
    (h : key ∉ ms.map Prod.fst) : put ms key v = ms ++ [(key, v)] := by
  induction ms with
  | nil => rfl
  | cons m ms ih =>
    rw [List.map_cons, List.mem_cons, not_or] at h
    rw [put, if_neg (Ne.symm h.1), ih h.2, List.cons_append]

theorem foldl_put_of_nodup {α : Type} {done ms : List (String × α)}
    (h : ((done ++ ms).map Prod.fst).Nodup) :
    ms.foldl (fun ms m => put ms m.1 m.2) done = done ++ ms := by
  induction ms generalizing done with
  | nil => exact (List.append_nil done).symm
  | cons m ms ih =>
    have hput : put done m.1 m.2 = done ++ [m] := by
      apply put_of_not_mem
      intro hm
      rw [List.map_append, List.map_cons, List.nodup_append] at h
      exact h.2.2 _ hm _ (List.mem_cons_self ..) rfl
    rw [List.foldl_cons, hput, ih (by rwa [List.append_assoc]), List.append_assoc]
    rfl

/-- members whose keys are different stay as they are -/
theorem collapse_of_nodup {α : Type} {ms : List (String × α)} (h : (ms.map Prod.fst).Nodup) :
    collapse ms = ms := foldl_put_of_nodup h

/-! ## reading items and members -/

theorem skipSpace_skipSpace (cs : List Char) : skipSpace (skipSpace cs) = skipSpace cs :=
  List.dropWhile_idempotent isSpace cs

section
variable {fuel depth n : Nat} {cs ds gap : List Char} (hgap : ∀ c ∈ gap, isSpace c = true)

theorem value_skipSpace (cs : List Char) :
    value fuel depth (skipSpace cs) = value fuel depth cs := by
  cases depth <;> simp only [value, skipSpace_skipSpace]

theorem items_of_value {r : Json × List Char} (h : value fuel depth cs = .ok r) :
    items (value fuel depth) n cs = moreItems (value fuel depth) n [] (skipSpace cs) := by
  rw [items]
  split
  · next ds hds =>
    rw [← value_skipSpace, hds, value_scalar rfl (by decide) (by decide)] at h
    exact nomatch h
  · rfl

theorem key_skipSpace (cs : List Char) : key (skipSpace cs) = key cs := by
  simp only [key, skipSpace_skipSpace]

theorem members_of_key {α : Type} {readAt : String → List Char → Except Fault (α × List Char)}
    {r : String × List Char} (h : key cs = .ok r) :
    members readAt n cs = moreMembers readAt n [] (skipSpace cs) := by
  rw [members]
  split
  · next ds hds =>
    rw [← key_skipSpace, hds] at h
    exact nomatch h
  · rfl

include hgap

theorem moreItems_comma {α : Type} {read : List Char → Except Fault (α × List Char)} {v : α}
    {done : List α} (h : read cs = .ok (v, gap ++ ',' :: ds)) :
    moreItems read (n + 1) done cs = moreItems read n (v :: done) ds := by
  simp only [moreItems, h, bind, Except.bind, skipSpace_gap hgap (c := ',') rfl]

theorem moreItems_close {α : Type} {read : List Char → Except Fault (α × List Char)} {v : α}
    {done : List α} (h : read cs = .ok (v, gap ++ ']' :: ds)) :
    moreItems read (n + 1) done cs = .ok (done.reverse ++ [v], ds) := by
  simp only [moreItems, h, bind, Except.bind, skipSpace_gap hgap (c := ']') rfl,
    List.reverse_cons]

theorem key_quoted (k : String) (ds : List Char) :
    key (gap ++ (quoted k ++ ':' :: ds)) = .ok (k, ds) := by
  have htext : quoted k ++ ':' :: ds = '"' :: (k.toList.flatMap escape ++ '"' :: ':' :: ds) := by
    simp [quoted]
  rw [htext]
  simp only [key, skipSpace_gap hgap (c := '"') rfl, string_quoted, bind, Except.bind,
    skipSpace_cons (c := ':') rfl]

theorem moreMembers_comma {α : Type} {readAt : String → List Char → Except Fault (α × List Char)}
    {k : String} {v : α} {done : List (String × α)} {cs' : List Char} (hk : key cs = .ok (k, cs'))
    (h : readAt k cs' = .ok (v, gap ++ ',' :: ds)) :
    moreMembers readAt (n + 1) done cs = moreMembers readAt n ((k, v) :: done) ds := by
  simp only [moreMembers, hk, h, bind, Except.bind, skipSpace_gap hgap (c := ',') rfl]

theorem moreMembers_close {α : Type} {readAt : String → List Char → Except Fault (α × List Char)}
    {k : String} {v : α} {done : List (String × α)} {cs' : List Char} (hk : key cs = .ok (k, cs'))
    (h : readAt k cs' = .ok (v, gap ++ '}' :: ds)) :
    moreMembers readAt (n + 1) done cs = .ok (done.reverse ++ [(k, v)], ds) := by
  simp only [moreMembers, hk, h, bind, Except.bind, skipSpace_gap hgap (c := '}') rfl,
    List.reverse_cons]

end

/-! ## whole values -/

section
variable (g : Gaps) (fuel : Nat)

theorem stops_more (level : Nat) (vs : List Json) {gap : List Char}
    (hgap : ∀ c ∈ gap, isSpace c = true) (rest : List Char) :
    Stops continuesNumber (g.more level vs ++ (gap ++ ']' :: rest)) := by
  cases vs with
  | nil => exact stops_gap hgap rfl rest
  | cons v vs => exact stops_cons _ rfl

theorem stops_moreMembers (level : Nat) (ms : List (String × Json)) {gap : List Char}
    (hgap : ∀ c ∈ gap, isSpace c = true) (rest : List Char) :
    Stops continuesNumber (g.moreMembers level ms ++ (gap ++ '}' :: rest)) := by
  cases ms with
  | nil => exact stops_gap hgap rfl rest
  | cons m ms => exact stops_cons _ rfl

mutual

/-- one value in front of a text with which no number could go on -/
theorem value_text : ∀ (v : Json) (level depth : Nat) (rest : List Char), v.Writable →
    v.nesting ≤ depth → (g.text level v).length ≤ fuel → Stops continuesNumber rest →
    value fuel depth (g.text level v ++ rest) = .ok (v, rest)
  | .null, _, _, _, _, _, _, _ => value_scalar rfl (by decide) (by decide)
  | .bool true, _, _, _, _, _, _, _ => value_scalar rfl (by decide) (by decide)
  | .bool false, _, _, _, _, _, _, _ => value_scalar rfl (by decide) (by decide)
  | .int _, _, _, _, hw, _, _, hs => value_integer hw hs
  | .double _, _, _, _, hw, _, _, hs => value_double hw hs
  | .str s, _, _, _, _, _, _, _ => value_quoted s
  | .arr [], _, depth + 1, _, _, _, _, _ => rfl
  | .obj [], _, depth + 1, _, _, _, _, _ => rfl
  | .arr (v :: vs), level, depth + 1, rest, hw, hn, hf, hs => by
    have hlen : (g.text (level + 1) v).length + (g.more (level + 1) vs).length + 2 ≤ fuel := by
      refine le_trans ?_ hf
      simp only [Gaps.text, List.length_cons, List.length_append, List.length_nil]
      omega
    have hnest : max v.nesting (nestingOfAll vs) ≤ depth := Nat.le_of_succ_le_succ hn
    have htext : g.text level (.arr (v :: vs)) ++ rest = '[' :: (g.line (level + 1) ++
        (g.text (level + 1) v ++ (g.more (level + 1) vs ++ (g.line level ++ ']' :: rest)))) := by
      simp [Gaps.text]
    have hv := value_text v (level + 1) depth _ hw.1 (le_trans (le_max_left _ _) hnest) (by omega)
      (stops_more g (level + 1) vs (g.isSpace_line level) rest)
    rw [← value_append (g.isSpace_line (level + 1))] at hv
    have hitems := moreItems_more vs (level + 1) depth fuel v [] _ _ _ hw.2
      (le_trans (le_max_right _ _) hnest) (by omega) le_rfl (g.isSpace_line level)
      ((value_skipSpace _).trans hv)
    rw [htext, value, skipSpace_cons rfl]
    show (items (value fuel depth) fuel _).map _ = _
    rw [items_of_value hv, hitems]
    rfl
  | .obj ((k, v) :: ms), level, depth + 1, rest, hw, hn, hf, hs => by
    have hlen : (g.text (level + 1) v).length + (g.moreMembers (level + 1) ms).length + 2 ≤
        fuel := by
      refine le_trans ?_ hf
      simp only [Gaps.text, List.length_cons, List.length_append, List.length_nil]
      omega
    have hnest : max v.nesting (nestingOfMembers ms) ≤ depth := Nat.le_of_succ_le_succ hn
    have htext : g.text level (.obj ((k, v) :: ms)) ++ rest = '{' :: (g.line (level + 1) ++
        (quoted k ++ ':' :: (g.colon ++ (g.text (level + 1) v ++ (g.moreMembers (level + 1) ms ++
          (g.line level ++ '}' :: rest)))))) := by
      simp [Gaps.text]
    have hk := key_quoted (g.isSpace_line (level + 1)) k (g.colon ++ (g.text (level + 1) v ++
      (g.moreMembers (level + 1) ms ++ (g.line level ++ '}' :: rest))))
    have hv := value_text v (level + 1) depth _ hw.2.1 (le_trans (le_max_left _ _) hnest)
      (by omega) (stops_moreMembers g (level + 1) ms (g.isSpace_line level) rest)
    rw [← value_append g.isSpace_colon] at hv
    have hmembers := moreMembers_more ms (level + 1) depth fuel k v [] _ _ _ _ hw.2.2
      (le_trans (le_max_right _ _) hnest) (by omega) le_rfl (g.isSpace_line level)
      ((key_skipSpace _).trans hk) hv
    rw [htext, value, skipSpace_cons rfl]
    show (members (fun _ => value fuel depth) fuel _).map _ = _
    rw [members_of_key hk, hmembers]
    show Except.ok (Json.obj (collapse ((k, v) :: ms)), rest) = _
    rw [collapse_of_nodup hw.1]

/-- the items behind the first one, which has been read -/
theorem moreItems_more : ∀ (vs : List Json) (level depth n : Nat) (v : Json) (done : List Json)
    (cs gap rest : List Char), AllWritable vs → nestingOfAll vs ≤ depth →
    (g.more level vs).length < n → n ≤ fuel → (∀ c ∈ gap, isSpace c = true) →
    value fuel depth cs = .ok (v, g.more level vs ++ (gap ++ ']' :: rest)) →
    moreItems (value fuel depth) n done cs = .ok (done.reverse ++ v :: vs, rest)
  | _, _, _, 0, _, _, _, _, _, _, _, hl, _, _, _ => absurd hl (Nat.not_lt_zero _)
  | [], _, _, n + 1, _, _, _, _, _, _, _, _, _, hgap, hv => moreItems_close hgap hv
  | w :: ws, level, depth, n + 1, v, done, cs, gap, rest, hw, hn, hl, hf, hgap, hv => by
    have hlen : (g.text level w).length + (g.more level ws).length < n := by
      refine lt_of_le_of_lt ?_ (Nat.lt_of_succ_lt_succ hl)
      simp only [List.length_append]
      omega
    have hmore : g.more level (w :: ws) ++ (gap ++ ']' :: rest) = [] ++ ',' :: (g.line level ++
        (g.text level w ++ (g.more level ws ++ (gap ++ ']' :: rest)))) := by
      simp [Gaps.more]
    rw [hmore] at hv
    have hw' := value_text w level depth _ hw.1 (le_trans (le_max_left _ _) hn) (by omega)
      (stops_more g level ws hgap rest)
    rw [← value_append (g.isSpace_line level)] at hw'
    rw [moreItems_comma (List.forall_mem_nil _) hv, moreItems_more ws level depth n w (v :: done) _
      gap rest hw.2 (le_trans (le_max_right _ _) hn) (by omega) (by omega) hgap hw',
      List.reverse_cons, List.append_assoc]
    rfl

theorem moreMembers_more : ∀ (ms : List (String × Json)) (level depth n : Nat) (k : String)
    (v : Json) (done : List (String × Json)) (cs cs' gap rest : List Char), MembersWritable ms →
    nestingOfMembers ms ≤ depth → (g.moreMembers level ms).length < n → n ≤ fuel →
    (∀ c ∈ gap, isSpace c = true) → key cs = .ok (k, cs') →
    value fuel depth cs' = .ok (v, g.moreMembers level ms ++ (gap ++ '}' :: rest)) →
    moreMembers (fun _ => value fuel depth) n done cs = .ok (done.reverse ++ (k, v) :: ms, rest)
  | _, _, _, 0, _, _, _, _, _, _, _, _, _, hl, _, _, _, _ => absurd hl (Nat.not_lt_zero _)
  | [], _, _, n + 1, _, _, _, _, _, _, _, _, _, _, _, hgap, hk, hv => moreMembers_close hgap hk hv
  | (k', w) :: ms, level, depth, n + 1, k, v, done, cs, cs', gap, rest, hw, hn, hl, hf, hgap, hk,
      hv => by
    have hlen : (g.text level w).length + (g.moreMembers level ms).length < n := by
      refine lt_of_le_of_lt ?_ (Nat.lt_of_succ_lt_succ hl)
      simp only [List.length_append, List.length_cons]
      omega
    have hmore : g.moreMembers level ((k', w) :: ms) ++ (gap ++ '}' :: rest) = [] ++ ',' ::
        (g.line level ++ (quoted k' ++ ':' :: (g.colon ++ (g.text level w ++
          (g.moreMembers level ms ++ (gap ++ '}' :: rest)))))) := by
      simp [Gaps.moreMembers]
    rw [hmore] at hv
    have hk' := key_quoted (g.isSpace_line level) k' (g.colon ++ (g.text level w ++
      (g.moreMembers level ms ++ (gap ++ '}' :: rest))))
    have hw' := value_text w level depth _ hw.1 (le_trans (le_max_left _ _) hn) (by omega)
      (stops_moreMembers g level ms hgap rest)
    rw [← value_append g.isSpace_colon] at hw'
    rw [moreMembers_comma (List.forall_mem_nil _) hk hv, moreMembers_more ms level depth n k' w
      ((k, v) :: done) _ _ gap rest hw.2 (le_trans (le_max_right _ _) hn) (by omega) (by omega) hgap
      hk' hw', List.reverse_cons, List.append_assoc]
    rfl

end

/-- **A value is read back from its text in every layout**, unless it is nested too deeply.  White
space may follow the text. -/
theorem parse_text_append {v : Json} (level : Nat) (hw : v.Writable) (hn : v.nesting ≤ maxNesting)
    {gap : List Char} (hgap : ∀ c ∈ gap, isSpace c = true) :
    parse (g.text level v ++ gap) = .ok v := by
  have hlen : (g.text level v).length ≤ (g.text level v ++ gap).length + 1 := by
    rw [List.length_append]
    omega
  have hend : skipSpace gap = [] := List.dropWhile_eq_nil_iff.mpr hgap
  rw [parse, value_text g _ v level maxNesting gap hw hn hlen (stops_of_isSpace hgap)]
  show atEnd (v, gap) = _
  rw [atEnd, hend]
  rfl

theorem parse_text {v : Json} (level : Nat) (hw : v.Writable) (hn : v.nesting ≤ maxNesting) :
    parse (g.text level v) = .ok v := by
  rw [← List.append_nil (g.text level v)]
  exact parse_text_append g level hw hn (List.forall_mem_nil _)

end

/-- **The compact text of a value is read as that value.** -/
theorem parseText_compactText {v : Json} (hw : v.Writable) (hn : v.nesting ≤ maxNesting) :
    parseText v.compactText = .ok v := by
  rw [parseText, compactText, String.toList_ofList, ← Gaps.text_tight 0]
  exact parse_text _ 0 hw hn

/-- **The indented text of a value is read as that value.** -/
theorem parseText_prettyText {v : Json} (hw : v.Writable) (hn : v.nesting ≤ maxNesting) :
    parseText v.prettyText = .ok v := by
  rw [parseText, prettyText, String.toList_ofList, ← Gaps.text_wide 0]
  exact parse_text _ 0 hw hn

end SavedFilter.Json
