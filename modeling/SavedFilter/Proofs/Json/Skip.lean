import SavedFilter.Json.Skip
import SavedFilter.Proofs.Except
import SavedFilter.Proofs.Json.RoundTrip

/-!
# Passing over what can be read

What the reader takes for a value is passed over as far as the value goes, so the two agree on what
stands behind it:

* `string_of_stringBody`, `scalar_of_scalar`   values without parts;
* `Resumes`          passing over a value, whatever brackets wait behind it;
* `value_of_value`   a value that can be read is passed over;
* `value_compactText`   and so is the text of a value, however deeply it is nested.
-/

namespace SavedFilter.Json.Skip
open Reader Text

/-! ## strings -/

section
variable {cs rest : List Char} {c e : Char}

theorem string_hex {h₁ h₂ h₃ h₄ : Char} (h : [h₁, h₂, h₃, h₄].all isHex = true) :
    string ('\\' :: 'u' :: h₁ :: h₂ :: h₃ :: h₄ :: rest) = string rest := by
  rw [string.eq_def]
  simp only [if_true, h]

theorem string_letter (he : e ≠ 'u') (h : (unescape? e).isSome) :
    string ('\\' :: e :: rest) = string rest := by
  rw [string.eq_def]
  simp only [if_true, if_neg he, h]

theorem string_quote : string ('"' :: rest) = .ok rest := by
  rw [string.eq_def]
  rfl

theorem string_plain (hb : c ≠ '\\') (hq : c ≠ '"') (hs : ¬ c < ' ') :
    string (c :: rest) = string rest := by
  rw [string.eq_def]
  simp only [if_neg hb, if_neg hq, if_neg hs]

end

theorem string_of_stringBody {high : Option Nat} {done cs : List Char}
    {r : List Char × List Char} (h : stringBody high done cs = .ok r) :
    string cs = .ok r.2 ∧ r.2.length < cs.length := by
  -- the cases are the units of a string; those that are refused are left out at once
  fun_induction stringBody high done cs
  all_goals try (cases h; done)
  case case3 hall _ _ _ ih | case6 hall _ _ _ ih | case7 hall _ _ _ ih =>
    obtain ⟨hskip, hlt⟩ := ih h
    rw [string_hex hall]
    refine ⟨hskip, ?_⟩
    simp only [List.length_cons]
    omega
  case case10 he x hx ih =>
    obtain ⟨hskip, hlt⟩ := ih h
    rw [string_letter he (hx ▸ rfl)]
    refine ⟨hskip, ?_⟩
    simp only [List.length_cons]
    omega
  case case13 =>
    rw [string_quote, ← Except.ok.inj h]
    exact ⟨rfl, Nat.lt_succ_self _⟩
  case case15 hb _ hq hs ih =>
    obtain ⟨hskip, hlt⟩ := ih h
    rw [string_plain hb hq hs]
    exact ⟨hskip, hlt.trans (Nat.lt_succ_self _)⟩

theorem string_of_string {cs : List Char} {r : String × List Char} (h : Reader.string cs = .ok r) :
    string cs = .ok r.2 ∧ r.2.length < cs.length := by
  obtain ⟨p, hp, rfl⟩ := map_eq_ok.mp h
  exact string_of_stringBody hp

theorem length_skipSpace_le (cs : List Char) : (skipSpace cs).length ≤ cs.length :=
  (List.dropWhile_suffix _).length_le

theorem key_of_key {cs : List Char} {r : String × List Char} (h : Reader.key cs = .ok r) :
    key cs = .ok r.2 ∧ r.2.length < cs.length := by
  unfold Reader.key at h
  split at h
  · next ds hds =>
    obtain ⟨⟨k, es⟩, hk, h⟩ := bind_eq_ok.mp h
    obtain ⟨hskip, hlt⟩ := string_of_string hk
    have hspace := length_skipSpace_le cs
    have hspace' := length_skipSpace_le es
    dsimp only at h hskip hlt
    split at h
    · next fs hfs =>
      rw [← Except.ok.inj h]
      rw [hds, List.length_cons] at hspace
      rw [hfs, List.length_cons] at hspace'
      refine ⟨?_, by dsimp only; omega⟩
      simp only [key, hds, hskip, bind, Except.bind, hfs]
    · cases h
  · cases h

/-! ## numbers and words -/

theorem length_of_word {w cs r : List Char} (h : word w cs = .ok r) : r.length ≤ cs.length := by
  induction w generalizing cs with
  | nil => exact (congrArg List.length (Except.ok.inj h)).ge
  | cons c w ih =>
    cases cs with
    | nil => cases h
    | cons d cs =>
      unfold word at h
      split_ifs at h
      exact (ih h).trans (Nat.le_succ _)

theorem length_of_someDigits {cs : List Char} {r : List Char × List Char}
    (h : someDigits cs = .ok r) : r.2.length < cs.length := by
  unfold someDigits at h
  split at h
  · cases h
  · next hne =>
    rw [← Except.ok.inj h]
    have happend :=
      congrArg List.length (List.takeWhile_append_dropWhile (p := Char.isDigit) (l := cs))
    have hpos := List.length_pos_iff.mpr hne
    rw [List.length_append] at happend
    dsimp only
    omega

theorem length_of_fractionPart {cs : List Char} {r : Option (List Char) × List Char}
    (h : fractionPart cs = .ok r) : r.2.length ≤ cs.length := by
  unfold fractionPart at h
  split at h
  · obtain ⟨p, hp, rfl⟩ := map_eq_ok.mp h
    exact (length_of_someDigits hp).le.trans (Nat.le_succ _)
  · rw [← Except.ok.inj h]

theorem length_of_exponentPart {cs : List Char} {r : Option (Bool × List Char) × List Char}
    (h : exponentPart cs = .ok r) : r.2.length ≤ cs.length := by
  unfold exponentPart at h
  split at h
  · rw [← Except.ok.inj h]
  · split_ifs at h
    · split at h
      all_goals
        obtain ⟨p, hp, rfl⟩ := map_eq_ok.mp h
        have hlt := length_of_someDigits hp
        simp only [List.length_cons] at hlt ⊢
        omega
    · rw [← Except.ok.inj h]

theorem length_of_numeral {negative : Bool} {cs : List Char} {r : Numeral × List Char}
    (h : numeral negative cs = .ok r) : r.2.length < cs.length := by
  obtain ⟨whole, hwhole, h⟩ := bind_eq_ok.mp h
  obtain ⟨fraction, hfraction, h⟩ := bind_eq_ok.mp h
  obtain ⟨exponent, hexponent, h⟩ := bind_eq_ok.mp h
  have hdigits : someDigits cs = .ok whole := by
    unfold wholeDigits at hwhole
    split at hwhole
    · cases hwhole
    · exact hwhole
  have h₁ := length_of_someDigits hdigits
  have h₂ := length_of_fractionPart hfraction
  have h₃ := length_of_exponentPart hexponent
  rw [← Except.ok.inj h]
  dsimp only
  omega

theorem numeral_of_number {negative : Bool} {cs : List Char} {r : Json × List Char}
    (h : number negative cs = .ok r) : ∃ n, numeral negative cs = .ok (n, r.2) := by
  obtain ⟨⟨n, ds⟩, hn, h⟩ := bind_eq_ok.mp h
  dsimp only at h
  split at h
  · rw [← Except.ok.inj h]
    exact ⟨n, hn⟩
  · cases h

theorem scalar_of_scalar {c : Char} {cs : List Char} {r : Json × List Char}
    (h : Reader.scalar c cs = .ok r) : scalar c cs = .ok r.2 ∧ r.2.length ≤ cs.length := by
  unfold scalar
  by_cases hq : c = '"'
  · rw [if_pos hq]
    rw [Reader.scalar, if_pos hq] at h
    obtain ⟨p, hp, rfl⟩ := map_eq_ok.mp h
    exact (string_of_string hp).imp_right Nat.le_of_lt
  rw [if_neg hq]
  by_cases hm : c = '-'
  · rw [if_pos hm]
    rw [Reader.scalar, if_neg hq, if_pos hm] at h
    obtain ⟨n, hn⟩ := numeral_of_number h
    rw [hn]
    exact ⟨rfl, (length_of_numeral hn).le⟩
  rw [if_neg hm]
  by_cases hd : c.isDigit = true
  · rw [if_pos hd]
    rw [Reader.scalar, if_neg hq, if_neg hm, if_pos hd] at h
    obtain ⟨n, hn⟩ := numeral_of_number h
    rw [hn]
    exact ⟨rfl, Nat.le_of_lt_succ (length_of_numeral hn)⟩
  rw [if_neg hd, h]
  refine ⟨rfl, ?_⟩
  rw [Reader.scalar, if_neg hq, if_neg hm, if_neg hd] at h
  split_ifs at h
  all_goals
    obtain ⟨ds, hds, rfl⟩ := map_eq_ok.mp h
    exact length_of_word hds

/-! ## values -/

/-- to pass over what stands behind a value, when `opened` brackets wait there -/
def resume (n : Nat) (opened : List Bracket) (cs : List Char) : Except Fault (List Char) :=
  closing opened cs >>= fun r => if r.1.isEmpty then .ok r.2 else values n r.1 r.2

theorem values_succ (n : Nat) (opened : List Bracket) (cs : List Char) :
    values (n + 1) opened cs =
      advance opened cs >>= fun r => if r.1.isEmpty then .ok r.2 else values n r.1 r.2 := rfl

section
variable {n : Nat} {opened : List Bracket} {b : Bracket} {cs ds rest : List Char} {c : Char}

theorem resume_close (h : skipSpace cs = b.closing :: rest) :
    resume n (b :: opened) cs = resume n opened rest := by
  have hne : b.closing ≠ ',' := by cases b <;> decide
  have hclosing : closing (b :: opened) cs = closing opened rest := by
    simp only [closing, h, if_neg hne, if_true]
  rw [resume, hclosing]
  rfl

theorem resume_comma_array (h : skipSpace cs = ',' :: rest) :
    resume n (.array :: opened) cs = values n (.array :: opened) rest := by
  simp only [resume, closing, h]
  rfl

theorem resume_comma_object (h : skipSpace cs = ',' :: rest) (hk : key rest = .ok ds) :
    resume n (.object :: opened) cs = values n (.object :: opened) ds := by
  simp only [resume, closing, h, hk]
  rfl

/-- The text is passed over up to `rest`, whatever brackets wait there.  It takes no more steps than
the text has characters. -/
def Resumes (cs rest : List Char) : Prop :=
  ∃ k, k + rest.length ≤ cs.length ∧ ∀ n opened, values (n + k) opened cs = resume n opened rest

/-- the same for the items of an array or the members of an object that has been opened; `rest`
stands behind it -/
def ResumesIn (b : Bracket) (cs rest : List Char) : Prop :=
  ∃ k, k + rest.length ≤ cs.length ∧
    ∀ n opened, values (n + k) (b :: opened) cs = resume n opened rest

theorem resumes_of_scalar {r : Json × List Char} (hs : skipSpace cs = c :: ds) (ha : c ≠ '[')
    (ho : c ≠ '{') (h : Reader.scalar c ds = .ok r) : Resumes cs r.2 := by
  obtain ⟨hscalar, hlen⟩ := scalar_of_scalar h
  have hspace := length_skipSpace_le cs
  rw [hs, List.length_cons] at hspace
  refine ⟨1, by omega, fun n opened => ?_⟩
  have hadvance : advance opened cs = closing opened r.2 := by
    simp only [advance, hs, if_neg ha, if_neg ho, hscalar]
    rfl
  rw [values_succ, hadvance]
  rfl

/-- white space in front does not matter -/
theorem resumes_of_skipSpace (h : Resumes (skipSpace cs) rest) : Resumes cs rest := by
  obtain ⟨k, hk, hresume⟩ := h
  refine ⟨k, hk.trans (length_skipSpace_le cs), fun n opened => ?_⟩
  rw [← hresume n opened]
  cases n + k with
  | zero => rfl
  | succ n => rw [values_succ, values_succ, advance, advance, skipSpace_skipSpace]

theorem length_lt_of_skipSpace (h : skipSpace cs = c :: rest) : rest.length < cs.length := by
  have hle := length_skipSpace_le cs
  rw [h, List.length_cons] at hle
  exact hle

theorem resumesIn_close (hv : Resumes cs ds) (h : skipSpace ds = b.closing :: rest) :
    ResumesIn b cs rest := by
  obtain ⟨k, hk, hresume⟩ := hv
  have hlt := length_lt_of_skipSpace h
  exact ⟨k, by omega, fun n opened => (hresume n _).trans (resume_close h)⟩

theorem resumesIn_comma {es : List Char} (hv : Resumes cs ds) (hlen : es.length ≤ ds.length)
    (h : ∀ n opened, resume n (b :: opened) ds = values n (b :: opened) es)
    (hmore : ResumesIn b es rest) : ResumesIn b cs rest := by
  obtain ⟨k, hk, hresume⟩ := hv
  obtain ⟨k', hk', hresume'⟩ := hmore
  refine ⟨k' + k, by omega, fun n opened => ?_⟩
  rw [← Nat.add_assoc, hresume, h, hresume']

end

section
variable {α : Type}

theorem resumesIn_of_moreItems {read : List Char → Except Fault (α × List Char)}
    (hread : ∀ cs r, read cs = .ok r → Resumes cs r.2) {fuel : Nat} {done : List α}
    {cs : List Char} {r : List α × List Char} (h : moreItems read fuel done cs = .ok r) :
    ResumesIn .array cs r.2 := by
  induction fuel generalizing done cs with
  | zero => cases h
  | succ fuel ih =>
    obtain ⟨⟨v, ds⟩, hv, h⟩ := bind_eq_ok.mp h
    have hv := hread cs _ hv
    dsimp only at h
    split at h
    · next es hes =>
      exact resumesIn_comma hv (length_lt_of_skipSpace hes).le (fun _ _ => resume_comma_array hes)
        (ih h)
    · next es hes =>
      rw [← Except.ok.inj h]
      exact resumesIn_close hv hes
    · cases h

theorem resumesIn_of_moreMembers {readAt : String → List Char → Except Fault (α × List Char)}
    (hread : ∀ k cs r, readAt k cs = .ok r → Resumes cs r.2) {fuel : Nat}
    {done : List (String × α)} {cs : List Char} {r : List (String × α) × List Char}
    (h : moreMembers readAt fuel done cs = .ok r) :
    ∃ ds, key cs = .ok ds ∧ ds.length < cs.length ∧ ResumesIn .object ds r.2 := by
  induction fuel generalizing done cs with
  | zero => cases h
  | succ fuel ih =>
    obtain ⟨⟨k, ds⟩, hk, h⟩ := bind_eq_ok.mp h
    obtain ⟨⟨v, es⟩, hv, h⟩ := bind_eq_ok.mp h
    obtain ⟨hkey, hlt⟩ := key_of_key hk
    have hv : Resumes ds es := hread k ds _ hv
    refine ⟨ds, hkey, hlt, ?_⟩
    dsimp only at h
    split at h
    · next fs hfs =>
      obtain ⟨gs, hgs, hlt', hmore⟩ := ih h
      have hlen := length_lt_of_skipSpace hfs
      exact resumesIn_comma hv (by omega) (fun _ _ => resume_comma_object hfs hgs) hmore
    · next fs hfs =>
      rw [← Except.ok.inj h]
      exact resumesIn_close hv hfs
    · cases h

end

section
variable {cs ds rest : List Char} {n : Nat} {opened : List Bracket}

theorem resumes_array {α : Type} {read : List Char → Except Fault (α × List Char)}
    (hread : ∀ cs r, read cs = .ok r → Resumes cs r.2) (hs : skipSpace cs = '[' :: ds)
    {fuel : Nat} {r : List α × List Char} (h : items read fuel ds = .ok r) : Resumes cs r.2 := by
  have hlt := length_lt_of_skipSpace hs
  have hspace := length_skipSpace_le ds
  unfold items at h
  split at h
  · next es hes =>
    rw [← Except.ok.inj h]
    have hlen := length_lt_of_skipSpace hes
    refine ⟨1, by dsimp only; omega, fun n opened => ?_⟩
    have hadvance : advance opened cs = closing opened es := by
      simp only [advance, hs, if_true, hes]
    rw [values_succ, hadvance]
    rfl
  · next hne =>
    obtain ⟨k, hk, hresume⟩ := resumesIn_of_moreItems hread h
    refine ⟨k + 1, by omega, fun n opened => ?_⟩
    have hadvance : advance opened cs = .ok (.array :: opened, skipSpace ds) := by
      simp only [advance, hs, if_true]
    rw [← Nat.add_assoc, values_succ, hadvance]
    exact hresume n opened

theorem resumes_object {α : Type} {readAt : String → List Char → Except Fault (α × List Char)}
    (hread : ∀ k cs r, readAt k cs = .ok r → Resumes cs r.2) (hs : skipSpace cs = '{' :: ds)
    {fuel : Nat} {r : List (String × α) × List Char} (h : members readAt fuel ds = .ok r) :
    Resumes cs r.2 := by
  have hlt := length_lt_of_skipSpace hs
  have hspace := length_skipSpace_le ds
  unfold members at h
  split at h
  · next es hes =>
    rw [← Except.ok.inj h]
    have hlen := length_lt_of_skipSpace hes
    refine ⟨1, by dsimp only; omega, fun n opened => ?_⟩
    have hadvance : advance opened cs = closing opened es := by
      simp only [advance, hs, Char.reduceEq, if_false, if_true, hes]
    rw [values_succ, hadvance]
    rfl
  · next hne =>
    obtain ⟨es, hkey, hlen, k, hk, hresume⟩ := resumesIn_of_moreMembers hread h
    refine ⟨k + 1, by omega, fun n opened => ?_⟩
    have hadvance : advance opened cs = .ok (.object :: opened, es) := by
      simp only [advance, hs, Char.reduceEq, if_false, if_true, hkey]
      rfl
    rw [← Nat.add_assoc, values_succ, hadvance]
    exact hresume n opened

theorem resumes_of_value {fuel depth : Nat} {r : Json × List Char}
    (h : Reader.value fuel depth cs = .ok r) : Resumes cs r.2 := by
  induction depth generalizing cs r with
  | zero =>
    unfold Reader.value at h
    split at h
    · cases h
    · next c ds hs =>
      split_ifs at h with hopen
      obtain ⟨ha, ho⟩ := not_or.mp hopen
      exact resumes_of_scalar hs ha ho h
  | succ depth ih =>
    unfold Reader.value at h
    split at h
    · cases h
    · next c ds hs =>
      split_ifs at h with ha ho
      · obtain ⟨p, hp, rfl⟩ := map_eq_ok.mp h
        exact resumes_array (fun _ _ hv => ih hv) (ha ▸ hs) hp
      · obtain ⟨p, hp, rfl⟩ := map_eq_ok.mp h
        exact resumes_object (fun _ _ _ hv => ih hv) (ho ▸ hs) hp
      · exact resumes_of_scalar hs ha ho h

theorem value_of_resumes (h : Resumes cs rest) : value cs = .ok rest := by
  obtain ⟨k, hk, hresume⟩ := h
  obtain ⟨n, hn⟩ : ∃ n, cs.length + 1 = n + k := ⟨cs.length + 1 - k, by omega⟩
  rw [value, hn, hresume]
  rfl

/-- **A value that can be read is passed over**, and what stands behind it is the same. -/
theorem value_of_value {fuel depth : Nat} {r : Json × List Char}
    (h : Reader.value fuel depth cs = .ok r) : value cs = .ok r.2 :=
  value_of_resumes (resumes_of_value h)

end

/-- nesting has no limit where a value is passed over -/
theorem value_compactText {v : Json} (hw : v.Writable) : value v.compactText.toList = .ok [] := by
  have hread := value_text Gaps.tight (render v).length.succ v 0 v.nesting [] hw le_rfl
    (by rw [Gaps.text_tight]; exact Nat.le_succ _) stops_nil
  rw [Gaps.text_tight, List.append_nil] at hread
  rw [compactText, String.toList_ofList]
  exact value_of_value hread

end SavedFilter.Json.Skip
