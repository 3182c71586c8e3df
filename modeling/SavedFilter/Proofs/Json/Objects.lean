import Mathlib.Data.List.Forall2
import SavedFilter.Proofs.Json.Passing

/-!
# Objects taken apart

The text of an object is a list of members with commas between them, each of them a key with its
colon and the text of a value.  A reader of members reads each of them as if it stood alone:

* `MemberText`, `ObjectText`   the texts of a member and of an object, by the grammar alone;
* `members_text`       if the values are read, so are the members of the object;
* `reads_of_members`   if the members of an object are read, so are their values;
* `exists_of_members`  what is read as members is the text of some;
* `SameAt.exists_found`   two objects with the same members, but for some, are read alike there;
* `isLocal_value`      the reader of values takes the same part in front of every rest.
-/

namespace SavedFilter.Json
open Reader Text

/-- a text that is one value by the grammar of JSON, with white space around it -/
def IsText (cs : List Char) : Prop :=
  ∃ gap, (∀ c ∈ gap, isSpace c = true) ∧ Skip.value cs = .ok gap

/-- the text of a member: a key with the colon behind it, and a value -/
structure MemberText where
  key : String
  head : List Char
  body : List Char
  key_head : Reader.key head = .ok (key, [])
  isText_body : IsText body

/-- the text of an object: its members, and white space around it and behind its brace -/
structure ObjectText where
  front : List Char
  inside : List Char
  members : List MemberText
  back : List Char
  isSpace_front : ∀ c ∈ front, isSpace c = true
  isSpace_inside : ∀ c ∈ inside, isSpace c = true
  isSpace_back : ∀ c ∈ back, isSpace c = true

def MemberText.text (m : MemberText) : List Char := m.head ++ m.body

/-- the members with commas between them, up to the brace that closes the object -/
def membersText (ms : List MemberText) : List Char :=
  [','].intercalate (ms.map MemberText.text) ++ ['}']

def ObjectText.text (o : ObjectText) : List Char :=
  o.front ++ '{' :: (o.inside ++ membersText o.members ++ o.back)

theorem ObjectText.length_lt_text (o : ObjectText) :
    (membersText o.members).length < o.text.length := by
  simp only [text, List.length_append, List.length_cons]
  omega

theorem ObjectText.skipSpace_text (o : ObjectText) :
    skipSpace o.text = '{' :: (o.inside ++ membersText o.members ++ o.back) :=
  skipSpace_gap o.isSpace_front (c := '{') rfl _

section
variable (m m' : MemberText) (ms : List MemberText) (rest : List Char)

theorem membersText_singleton : membersText [m] ++ rest = m.head ++ (m.body ++ '}' :: rest) := by
  simp [membersText, MemberText.text, List.intercalate]

theorem membersText_cons : membersText (m :: m' :: ms) ++ rest =
    m.head ++ (m.body ++ ',' :: (membersText (m' :: ms) ++ rest)) := by
  simp [membersText, MemberText.text, List.intercalate]

theorem length_membersText_singleton :
    (membersText [m]).length = m.head.length + m.body.length + 1 := by
  have h := congrArg List.length (membersText_singleton m [])
  simp only [List.length_append, List.length_cons, List.length_nil] at h
  omega

theorem length_membersText_cons : (membersText (m :: m' :: ms)).length =
    m.head.length + m.body.length + (membersText (m' :: ms)).length + 1 := by
  have h := congrArg List.length (membersText_cons m m' ms [])
  simp only [List.length_append, List.length_cons, List.length_nil] at h
  omega

end

theorem MemberText.key_append (m : MemberText) (rest : List Char) :
    Reader.key (m.head ++ rest) = .ok (m.key, rest) := by
  obtain ⟨t, ht, hkey⟩ := takes_key m.key_head
  rw [ht, List.append_nil]
  exact hkey rest

/-! ## readers of members -/

section
variable {α : Type}

/-- the text is read as `a`, but for white space behind it -/
def ReadsAs (read : Nat → List Char → Except Fault (α × List Char)) (cs : List Char) (a : α) :
    Prop :=
  ∃ t gap, cs = t ++ gap ∧ (∀ c ∈ gap, isSpace c = true) ∧ Takes read t a

theorem readsAs_of_read {read : Nat → List Char → Except Fault (α × List Char)} (h : IsLocal read)
    {n : Nat} {cs : List Char} {r : α × List Char} (hr : read n cs = .ok r)
    (hgap : ∀ c ∈ r.2, isSpace c = true) : ReadsAs read cs r.1 := by
  obtain ⟨t, hcs, ht⟩ := h n cs r.1 r.2 hr
  exact ⟨t, r.2, hcs, hgap, ht⟩

theorem ReadsAs.exists_read {read : Nat → List Char → Except Fault (α × List Char)}
    {cs : List Char} {a : α} (h : ReadsAs read cs a) {fuel : Nat} (hlen : cs.length < fuel) :
    ∃ gap, (∀ c ∈ gap, isSpace c = true) ∧ read fuel cs = .ok (a, gap) := by
  obtain ⟨t, gap, rfl, hgap, ht⟩ := h
  rw [List.length_append] at hlen
  exact ⟨gap, hgap, ht fuel gap (by omega) (stops_of_isSpace hgap)⟩

/-- what is made of what is read -/
theorem readsAs_map_iff {β : Type} {read : Nat → List Char → Except Fault (α × List Char)}
    (h : IsLocal read) {f : α → β} {cs : List Char} {b : β} :
    ReadsAs (fun n cs => (read n cs).map fun r => (f r.1, r.2)) cs b ↔
      ∃ a, ReadsAs read cs a ∧ f a = b := by
  constructor
  · intro hb
    obtain ⟨gap, hgap, hr⟩ := hb.exists_read (Nat.lt_succ_self _)
    obtain ⟨r, hread, he⟩ := map_eq_ok.mp hr
    obtain ⟨rfl, rfl⟩ := Prod.mk.inj he
    exact ⟨r.1, readsAs_of_read h hread hgap, rfl⟩
  · rintro ⟨a, ha, rfl⟩
    obtain ⟨gap, hgap, hr⟩ := ha.exists_read (Nat.lt_succ_self _)
    exact readsAs_of_read (h.map f) (map_eq_ok.mpr ⟨_, hr, rfl⟩) hgap

theorem ReadsAs.before_mark {read : Nat → List Char → Except Fault (α × List Char)}
    {cs : List Char} {a : α} (h : ReadsAs read cs a) (mark : Char)
    (hmark : continuesNumber mark = false) (fuel : Nat) (hlen : cs.length < fuel)
    (rest : List Char) :
    ∃ gap, (∀ c ∈ gap, isSpace c = true) ∧
      read fuel (cs ++ mark :: rest) = .ok (a, gap ++ mark :: rest) := by
  obtain ⟨t, gap, rfl, hgap, ht⟩ := h
  rw [List.length_append] at hlen
  refine ⟨gap, hgap, ?_⟩
  rw [List.append_assoc]
  exact ht fuel _ (by omega) (stops_gap hgap hmark rest)

variable {readAt : Nat → String → List Char → Except Fault (α × List Char)}

/-- the member is read as this key and value -/
def MemberText.ReadsAs (readAt : Nat → String → List Char → Except Fault (α × List Char))
    (m : MemberText) (p : String × α) : Prop :=
  m.key = p.1 ∧ Json.ReadsAs (fun n => readAt n m.key) m.body p.2

/-! ### members that are read one by one -/

theorem moreMembers_skipSpace (fuel n : Nat) (done : List (String × α)) (cs : List Char) :
    moreMembers (readAt fuel) n done (skipSpace cs) = moreMembers (readAt fuel) n done cs := by
  cases n with
  | zero => rfl
  | succ n => simp only [moreMembers, key_skipSpace]

theorem moreMembers_text {fuel : Nat} {ms : List MemberText} {m : MemberText}
    {found : List (String × α)} (h : List.Forall₂ (MemberText.ReadsAs readAt) (m :: ms) found)
    {n : Nat} {done : List (String × α)} {rest : List Char}
    (hn : (membersText (m :: ms)).length ≤ n) (hfuel : (membersText (m :: ms)).length ≤ fuel) :
    moreMembers (readAt fuel) n done (membersText (m :: ms) ++ rest) =
      .ok (done.reverse ++ found, rest) := by
  induction ms generalizing m n done found with
  | nil =>
    obtain ⟨⟨k, a⟩, ps, ⟨rfl, ha⟩, hps, rfl⟩ := List.forall₂_cons_left_iff.mp h
    obtain rfl := List.forall₂_nil_left_iff.mp hps
    rw [length_membersText_singleton] at hn hfuel
    obtain ⟨gap, hgap, hread⟩ := ha.before_mark '}' rfl fuel (by omega) rest
    obtain ⟨j, rfl⟩ : ∃ j, n = j + 1 := ⟨n - 1, by omega⟩
    rw [membersText_singleton]
    exact moreMembers_close hgap (m.key_append _) hread
  | cons m' ms ih =>
    obtain ⟨⟨k, a⟩, ps, ⟨rfl, ha⟩, hps, rfl⟩ := List.forall₂_cons_left_iff.mp h
    rw [length_membersText_cons] at hn hfuel
    obtain ⟨gap, hgap, hread⟩ := ha.before_mark ',' rfl fuel (by omega)
      (membersText (m' :: ms) ++ rest)
    obtain ⟨j, rfl⟩ : ∃ j, n = j + 1 := ⟨n - 1, by omega⟩
    rw [membersText_cons, moreMembers_comma hgap (m.key_append _) hread,
      ih hps (by omega) (by omega), List.reverse_cons, List.append_assoc]
    rfl

/-! ### members that have been read -/

section
variable (hread : ∀ k, IsValueReader fun n => readAt n k)
include hread

/-- what is read of a value that stands in front of a mark is all of it -/
theorem reads_body {m : MemberText} {fuel : Nat} (mark : Char) {rest : List Char}
    {r : α × List Char} (hmark : continuesNumber mark = false)
    (h : readAt fuel m.key (m.body ++ mark :: rest) = .ok r) :
    Json.ReadsAs (fun n => readAt n m.key) m.body r.1 ∧
      ∃ gap, (∀ c ∈ gap, isSpace c = true) ∧ r.2 = gap ++ mark :: rest := by
  obtain ⟨gap, hgap, hbody⟩ := m.isText_body
  obtain ⟨t, hsplit, ht⟩ := Skip.isLocal_value _ _ hbody
  have hpasses := (hread m.key).passes h
  rw [hsplit, List.append_assoc, ht _ (stops_gap hgap hmark rest)] at hpasses
  have hrest := (Except.ok.inj hpasses).symm
  obtain ⟨t', hcs, ht'⟩ := (hread m.key).isLocal fuel _ r.1 r.2 h
  rw [hrest, ← List.append_assoc] at hcs
  have hbody' : m.body = t' ++ gap := List.append_cancel_right hcs
  exact ⟨⟨t', gap, hbody', hgap, ht'⟩, gap, hgap, hrest⟩

theorem reads_of_moreMembers {fuel n : Nat} {ms : List MemberText} {m : MemberText}
    {done : List (String × α)} {rest : List Char} {r : List (String × α) × List Char}
    (h : moreMembers (readAt fuel) n done (membersText (m :: ms) ++ rest) = .ok r) :
    ∃ found, r = (done.reverse ++ found, rest) ∧
      List.Forall₂ (MemberText.ReadsAs readAt) (m :: ms) found := by
  induction n generalizing ms m done with
  | zero => cases h
  | succ n ih =>
    obtain ⟨⟨k, cs⟩, hk, h⟩ := bind_eq_ok.mp h
    obtain ⟨⟨a, ds⟩, ha, h⟩ := bind_eq_ok.mp h
    dsimp only at ha h
    cases ms with
    | nil =>
      rw [membersText_singleton, m.key_append] at hk
      obtain ⟨rfl, rfl⟩ := Prod.mk.inj (Except.ok.inj hk)
      obtain ⟨hbody, gap, hgap, rfl⟩ := reads_body hread '}' rfl ha
      rw [skipSpace_gap hgap (c := '}') rfl] at h
      refine ⟨[(m.key, a)], ?_, .cons ⟨rfl, hbody⟩ .nil⟩
      rw [← Except.ok.inj h, List.reverse_cons]
    | cons m' ms =>
      rw [membersText_cons, m.key_append] at hk
      obtain ⟨rfl, rfl⟩ := Prod.mk.inj (Except.ok.inj hk)
      obtain ⟨hbody, gap, hgap, rfl⟩ := reads_body hread ',' rfl ha
      rw [skipSpace_gap hgap (c := ',') rfl] at h
      obtain ⟨found, rfl, hfound⟩ := ih h
      refine ⟨(m.key, a) :: found, ?_, .cons ⟨rfl, hbody⟩ hfound⟩
      rw [List.reverse_cons, List.append_assoc]
      rfl

/-- a key and a value that have been read are the text of a member -/
theorem exists_member {fuel : Nat} {cs ds es : List Char} {k : String} {a : α}
    (hk : key cs = .ok (k, ds)) (ha : readAt fuel k ds = .ok (a, es)) {c : Char} {fs : List Char}
    (hes : skipSpace es = c :: fs) : ∃ m : MemberText, cs = m.text ++ c :: fs := by
  obtain ⟨head, hcs, hhead⟩ := takes_key hk
  obtain ⟨t, hds, ht⟩ := (hread k).isLocal fuel ds a es ha
  obtain ⟨gap, hes', hgap⟩ := exists_gap hes
  have hstops := stops_of_isSpace hgap
  have hbody : Skip.value (t ++ gap) = .ok gap :=
    (hread k).passes (ht (t.length + 1) gap (Nat.lt_succ_self _) hstops)
  have hkey : key head = .ok (k, []) := by
    have := hhead []
    rwa [List.append_nil] at this
  refine ⟨⟨k, head, t ++ gap, hkey, gap, hgap, hbody⟩, ?_⟩
  dsimp only at hcs
  simp [MemberText.text, hcs, hds, hes']

theorem exists_of_moreMembers {fuel n : Nat} {done : List (String × α)} {cs : List Char}
    {r : List (String × α) × List Char} (h : moreMembers (readAt fuel) n done cs = .ok r) :
    ∃ m ms, cs = membersText (m :: ms) ++ r.2 := by
  induction n generalizing done cs with
  | zero => cases h
  | succ n ih =>
    obtain ⟨⟨k, ds⟩, hk, h⟩ := bind_eq_ok.mp h
    obtain ⟨⟨a, es⟩, ha, h⟩ := bind_eq_ok.mp h
    dsimp only at ha h
    split at h
    · next fs hfs =>
      obtain ⟨m, hm⟩ := exists_member hread hk ha hfs
      obtain ⟨m', ms, hms⟩ := ih h
      refine ⟨m, m' :: ms, ?_⟩
      rw [membersText_cons, hm, hms, MemberText.text, List.append_assoc]
    · next fs hfs =>
      obtain ⟨m, hm⟩ := exists_member hread hk ha hfs
      refine ⟨m, [], ?_⟩
      rw [membersText_singleton, hm, MemberText.text, List.append_assoc, ← Except.ok.inj h]
    · cases h

end

/-! ### all members of an object -/

section
variable {fuel n : Nat} {gap : List Char} (hgap : ∀ c ∈ gap, isSpace c = true)
  {ms : List MemberText} {rest : List Char}
include hgap

/-- behind its brace an object is read member by member, or it has none -/
theorem members_membersText_cons (m : MemberText) (ms : List MemberText) :
    members (readAt fuel) n (gap ++ membersText (m :: ms) ++ rest) =
      moreMembers (readAt fuel) n [] (membersText (m :: ms) ++ rest) := by
  obtain ⟨cs, hcs⟩ : ∃ cs, membersText (m :: ms) ++ rest = m.head ++ cs := by
    cases ms with
    | nil => exact ⟨_, membersText_singleton m rest⟩
    | cons m' ms => exact ⟨_, membersText_cons m m' ms rest⟩
  have hkey : key (gap ++ (m.head ++ cs)) = .ok (m.key, cs) := by
    rw [← m.key_append cs]
    simp only [key, skipSpace_append hgap]
  rw [List.append_assoc, hcs, members_of_key hkey, skipSpace_append hgap, moreMembers_skipSpace]

theorem members_membersText_nil :
    members (readAt fuel) n (gap ++ membersText [] ++ rest) = .ok ([], rest) := by
  have htext : gap ++ membersText [] ++ rest = gap ++ '}' :: rest := by
    simp [membersText, List.intercalate]
  rw [htext]
  simp only [members, skipSpace_gap hgap (c := '}') rfl]

/-- **If the values of an object are read, so are its members.** -/
theorem members_text {found : List (String × α)}
    (h : List.Forall₂ (MemberText.ReadsAs readAt) ms found)
    (hn : (membersText ms).length ≤ n) (hfuel : (membersText ms).length ≤ fuel) :
    members (readAt fuel) n (gap ++ membersText ms ++ rest) = .ok (found, rest) := by
  cases ms with
  | nil =>
    rw [List.forall₂_nil_left_iff.mp h]
    exact members_membersText_nil hgap
  | cons m ms =>
    rw [members_membersText_cons hgap, moreMembers_text h hn hfuel]
    rfl

/-- **If the members of an object are read, so are their values.** -/
theorem reads_of_members (hread : ∀ k, IsValueReader fun n => readAt n k)
    (fuel : Nat) {r : List (String × α) × List Char}
    (h : members (readAt fuel) n (gap ++ membersText ms ++ rest) = .ok r) :
    r.2 = rest ∧ List.Forall₂ (MemberText.ReadsAs readAt) ms r.1 := by
  cases ms with
  | nil =>
    rw [members_membersText_nil hgap] at h
    rw [← Except.ok.inj h]
    exact ⟨rfl, .nil⟩
  | cons m ms =>
    rw [members_membersText_cons hgap] at h
    obtain ⟨found, rfl, hfound⟩ := reads_of_moreMembers hread h
    exact ⟨rfl, hfound⟩

end

/-- **What is read as members is the text of some.** -/
theorem exists_of_members (hread : ∀ k, IsValueReader fun n => readAt n k) {fuel n : Nat}
    {cs : List Char} {r : List (String × α) × List Char} (h : members (readAt fuel) n cs = .ok r) :
    ∃ gap ms, (∀ c ∈ gap, isSpace c = true) ∧ cs = gap ++ membersText ms ++ r.2 := by
  unfold members at h
  split at h
  · next ds hds =>
    obtain ⟨gap, hcs, hgap⟩ := exists_gap hds
    refine ⟨gap, [], hgap, ?_⟩
    rw [hcs, ← Except.ok.inj h]
    simp [membersText, List.intercalate]
  · obtain ⟨gap, hcs, hgap⟩ := exists_gap (rfl : skipSpace cs = skipSpace cs)
    obtain ⟨m, ms, hms⟩ := exists_of_moreMembers hread h
    refine ⟨gap, m :: ms, hgap, ?_⟩
    rw [List.append_assoc, ← hms, ← hcs]

/-- what is read as an object, but for white space, is the text of one -/
theorem exists_objectText (hread : ∀ k, IsValueReader fun n => readAt n k) (fuel : Nat)
    {n : Nat} {cs ds : List Char} {r : List (String × α) × List Char}
    (hs : skipSpace cs = '{' :: ds) (h : members (readAt fuel) n ds = .ok r)
    (hback : ∀ c ∈ r.2, isSpace c = true) : ∃ o : ObjectText, o.text = cs := by
  obtain ⟨front, hcs, hfront⟩ := exists_gap hs
  obtain ⟨inside, ms, hinside, hds⟩ := exists_of_members hread h
  exact ⟨⟨front, inside, ms, r.2, hfront, hinside, hback⟩, by rw [hcs, hds]; rfl⟩

theorem isLocal_members (hread : ∀ k, IsValueReader fun n => readAt n k) :
    IsLocal fun n => members (readAt n) n := by
  intro fuel cs found rest h
  obtain ⟨gap, ms, hgap, hcs⟩ := exists_of_members hread h
  rw [hcs] at h
  obtain ⟨-, hfound⟩ := reads_of_members hgap hread fuel h
  refine ⟨gap ++ membersText ms, hcs, fun n rest hn _ => ?_⟩
  rw [List.length_append] at hn
  exact members_text hgap hfound (by omega) (by omega)

/-! ### objects that differ in some members -/

/-- two members with one key, and texts of values that are related there -/
def MemberText.Related (R : String → List Char → List Char → Prop) (m m' : MemberText) : Prop :=
  m.key = m'.key ∧ R m.key m.body m'.body

/-- The two objects have related members at the `known` keys, in one order. -/
def ObjectText.SameAt (known : String → Bool) (R : String → List Char → List Char → Prop)
    (o o' : ObjectText) : Prop :=
  List.Forall₂ (MemberText.Related R)
    (o.members.filter (known ·.key)) (o'.members.filter (known ·.key))

section
variable {known : String → Bool} {ms : List MemberText}

theorem keys_of_reads {found : List (String × α)}
    (h : List.Forall₂ (MemberText.ReadsAs readAt) ms found) :
    found.map Prod.fst = ms.map MemberText.key := by
  induction h with
  | nil => rfl
  | cons hm _ ih => rw [List.map_cons, List.map_cons, ih, hm.1]

theorem exists_of_reads {found : List (String × α)}
    (h : List.Forall₂ (MemberText.ReadsAs readAt) ms found) :
    ∀ m ∈ ms, ∃ a, Json.ReadsAs (fun n => readAt n m.key) m.body a := by
  induction h with
  | nil => exact List.forall_mem_nil _
  | cons hm _ ih => exact List.forall_mem_cons.mpr ⟨⟨_, hm.2⟩, ih⟩

/-- what holds of all that a reader gives holds of what the members are read as -/
theorem forall_of_reads {P : String → α → Prop}
    (hP : ∀ n k cs r, readAt n k cs = .ok r → P k r.1) {found : List (String × α)}
    (h : List.Forall₂ (MemberText.ReadsAs readAt) ms found) : ∀ p ∈ found, P p.1 p.2 := by
  induction h with
  | nil => exact List.forall_mem_nil _
  | @cons m p ms ps hm _ ih =>
    obtain ⟨hkey, hread⟩ := hm
    obtain ⟨gap, -, hread⟩ := hread.exists_read (Nat.lt_succ_self _)
    exact List.forall_mem_cons.mpr ⟨hkey ▸ hP _ _ _ _ hread, ih⟩

/-- what is picked of members can be picked of the known ones, if the others have nothing -/
theorem filterMap_filter_known {γ : Type} {pick : α → Option γ} {found : List (String × α)}
    (h : ∀ p ∈ found, known p.1 = false → pick p.2 = none) :
    (found.filter (known ·.1)).filterMap (pick ·.2) = found.filterMap (pick ·.2) := by
  rw [List.filterMap_filter]
  refine List.filterMap_congr fun p hp => ?_
  cases hk : known p.1 with
  | true => rfl
  | false => exact (h p hp hk).symm

/-- what is picked of the known members only hangs on them -/
theorem filterMap_eq_of_filter {γ : Type} (pick : α → Option γ)
    (hother : ∀ n k cs r, readAt n k cs = .ok r → known k = false → pick r.1 = none)
    {ms ms' : List MemberText} {found found' : List (String × α)}
    (h : List.Forall₂ (MemberText.ReadsAs readAt) ms found)
    (h' : List.Forall₂ (MemberText.ReadsAs readAt) ms' found')
    (hsame : found'.filter (known ·.1) = found.filter (known ·.1)) :
    found'.filterMap (pick ·.2) = found.filterMap (pick ·.2) := by
  have hnone := forall_of_reads (P := fun k a => known k = false → pick a = none) hother h
  have hnone' := forall_of_reads (P := fun k a => known k = false → pick a = none) hother h'
  rw [← filterMap_filter_known hnone, ← filterMap_filter_known hnone', hsame]

theorem reads_filter {found : List (String × α)}
    (h : List.Forall₂ (MemberText.ReadsAs readAt) ms found) :
    List.Forall₂ (MemberText.ReadsAs readAt) (ms.filter (known ·.key))
      (found.filter (known ·.1)) := by
  induction h with
  | nil => exact .nil
  | @cons m p ms ps hm _ ih =>
    rw [List.filter_cons, List.filter_cons, hm.1]
    split
    · exact .cons hm ih
    · exact ih

/-- if every other member is read as something, all members are -/
theorem exists_of_reads_filter {ps : List (String × α)}
    (hknown : List.Forall₂ (MemberText.ReadsAs readAt) (ms.filter (known ·.key)) ps)
    (hother : ∀ m ∈ ms, known m.key = false →
      ∃ a, Json.ReadsAs (fun n => readAt n m.key) m.body a) :
    ∃ found, List.Forall₂ (MemberText.ReadsAs readAt) ms found ∧
      found.filter (known ·.1) = ps := by
  induction ms generalizing ps with
  | nil => exact ⟨[], .nil, (List.forall₂_nil_left_iff.mp hknown).symm⟩
  | cons m ms ih =>
    obtain ⟨hm, hms⟩ := List.forall_mem_cons.mp hother
    rw [List.filter_cons] at hknown
    split_ifs at hknown with hk
    · obtain ⟨p, ps, hp, hps, rfl⟩ := List.forall₂_cons_left_iff.mp hknown
      obtain ⟨found, hfound, rfl⟩ := ih hps hms
      refine ⟨p :: found, .cons hp hfound, ?_⟩
      rw [List.filter_cons, if_pos (hp.1 ▸ hk)]
    · obtain ⟨a, ha⟩ := hm (Bool.not_eq_true _ ▸ hk)
      obtain ⟨found, hfound, rfl⟩ := ih hknown hms
      refine ⟨(m.key, a) :: found, .cons ⟨rfl, ha⟩ hfound, ?_⟩
      rw [List.filter_cons, if_neg hk]

variable {R : String → List Char → List Char → Prop}

theorem reads_of_related {ms ms' : List MemberText} {ps : List (String × α)}
    (hps : List.Forall₂ (MemberText.ReadsAs readAt) ms ps)
    (hms : List.Forall₂ (MemberText.Related R) ms ms')
    (hR : ∀ k b b' a, R k b b' → Json.ReadsAs (fun n => readAt n k) b a →
      Json.ReadsAs (fun n => readAt n k) b' a) :
    List.Forall₂ (MemberText.ReadsAs readAt) ms' ps := by
  induction hms generalizing ps with
  | nil => exact hps
  | @cons m m' ms ms' hm _ ih =>
    obtain ⟨p, ps, ⟨hkey, hread⟩, hrest, rfl⟩ := List.forall₂_cons_left_iff.mp hps
    obtain ⟨hsame, hbody⟩ := hm
    have hread' : Json.ReadsAs (fun n => readAt n m'.key) m'.body p.2 :=
      hsame ▸ hR m.key _ _ _ hbody hread
    exact .cons ⟨hsame.symm.trans hkey, hread'⟩ (ih hrest)

/-- **Members of other names do not matter to what is read at the known ones**, so long as they are
read at all. -/
theorem ObjectText.SameAt.exists_found {o o' : ObjectText} (h : o.SameAt known R o')
    {found : List (String × α)}
    (hfound : List.Forall₂ (MemberText.ReadsAs readAt) o.members found)
    (hR : ∀ k b b' a, R k b b' → Json.ReadsAs (fun n => readAt n k) b a →
      Json.ReadsAs (fun n => readAt n k) b' a)
    (hother : ∀ m ∈ o'.members, known m.key = false →
      ∃ a, Json.ReadsAs (fun n => readAt n m.key) m.body a) :
    ∃ found', List.Forall₂ (MemberText.ReadsAs readAt) o'.members found' ∧
      found'.filter (known ·.1) = found.filter (known ·.1) :=
  exists_of_reads_filter (reads_of_related (reads_filter hfound) h hR) hother

end

end

/-! ## the reader of values -/

/-- a reader that goes by the first character behind the white space -/
theorem isLocal_of_first {α : Type} {read : Nat → List Char → Except Fault (α × List Char)}
    (readFrom : Char → Nat → List Char → Except Fault (α × List Char))
    (hfrom : ∀ c, IsLocal (readFrom c))
    (heq : ∀ n cs, read n cs =
      match skipSpace cs with
      | [] => .error .endOfText
      | c :: cs => readFrom c n cs) : IsLocal read := by
  intro fuel cs a rest h
  rw [heq] at h
  split at h
  · cases h
  · next c ds hds =>
    obtain ⟨gap, hcs, hgap⟩ := exists_gap hds
    obtain ⟨t, rfl, ht⟩ := hfrom c fuel ds a rest h
    refine ⟨gap ++ c :: t, by simp [hcs], fun n rest hn hs => ?_⟩
    rw [List.length_append, List.length_cons] at hn
    rw [heq, List.append_assoc, List.cons_append, skipSpace_gap hgap (not_isSpace_of_skipSpace hds)]
    exact ht n rest (by omega) hs

/-- **A value is read alike in front of every rest.** -/
theorem isLocal_value (depth : Nat) : IsLocal fun n => value n depth := by
  induction depth with
  | zero =>
    refine isLocal_of_first (fun c _ cs =>
      if c = '[' ∨ c = '{' then .error .malformed else scalar c cs) (fun c => ?_) fun n cs => rfl
    by_cases hc : c = '[' ∨ c = '{'
    · intro fuel cs v rest h
      cases (if_pos hc).symm.trans h
    · exact (isLocal_scalar c).congr fun _ _ => if_neg hc
  | succ depth ih =>
    refine isLocal_of_first (fun c n cs =>
      if c = '[' then (items (value n depth) n cs).map fun r => (.arr r.1, r.2)
      else if c = '{' then
        (members (fun _ => value n depth) n cs).map fun r => (.obj (collapse r.1), r.2)
      else scalar c cs) (fun c => ?_) fun n cs => rfl
    by_cases ha : c = '['
    · exact ((isLocal_items ih).map Json.arr).congr fun _ _ => if_pos ha
    by_cases ho : c = '{'
    · have hmembers := isLocal_members fun _ => ⟨ih, Skip.value_of_value⟩
      exact (hmembers.map fun ms => Json.obj (collapse ms)).congr fun _ _ =>
        (if_neg ha).trans (if_pos ho)
    · exact (isLocal_scalar c).congr fun _ _ => (if_neg ha).trans (if_neg ho)

theorem isValueReader_value (depth : Nat) : IsValueReader fun n => value n depth :=
  ⟨isLocal_value depth, Skip.value_of_value⟩

end SavedFilter.Json
