import Mathlib.Logic.Relation
import SavedFilter.Json.Skip
import SavedFilter.Proofs.Document.FirstFault
import SavedFilter.Proofs.Json.Edits
import SavedFilter.Proofs.Rule.Members

/-!
# The order of keys and foreign keys

A document may be edited in the order of its keys, and in keys that no rule has, and it is loaded as
before (`load_edited`).  What is told about the document may name another member than before, as the
first one that is wrong, but not another kind of fault.

* `MemberAlike`   two values of a key that no reader of this key tells apart;
* `LooksAlike`    so two objects are read alike, whatever keys they have beside those of rules;
* `Alike`         what an edit keeps, by the place of the value;
* `alike_of_edit` every edit keeps it.
-/

namespace SavedFilter.Document
open Json Shape

/-! ## values that a reader does not tell apart -/

/-- the values `v` and `w` of a key are read alike -/
structure MemberAlike (key : String) (v w : Json) : Prop where
  kind : ∀ inner k, Shape.kind inner v = .ok k ↔ Shape.kind inner w = .ok k
  text : ∀ s, Shape.text v = .ok s ↔ Shape.text w = .ok s
  tag : ∀ t, Shape.tag v = .ok t ↔ Shape.tag w = .ok t
  envelope : Scalar.ofEnvelope v = Scalar.ofEnvelope w
  join : ∀ inner j, Shape.join inner v = .ok j ↔ Shape.join inner w = .ok j
  rules : key = "filters" → ∀ inner rs, readRules inner v = .ok rs ↔ readRules inner w = .ok rs
  check : key = "filters" → checkItems (itemsOf v) = checkItems (itemsOf w)

theorem MemberAlike.refl (key : String) (v : Json) : MemberAlike key v v :=
  ⟨fun _ _ => Iff.rfl, fun _ => Iff.rfl, fun _ => Iff.rfl, rfl, fun _ _ => Iff.rfl,
    fun _ _ _ => Iff.rfl, fun _ => rfl⟩

/-- what is found under the keys of rules is read alike -/
def LooksAlike (ms ns : List (String × Json)) : Prop :=
  ∀ key ∈ ruleKeys, Option.Rel (MemberAlike key) (ms.lookup key) (ns.lookup key)

section
variable {α : Type} {key : String} {read : Json → Except ShapeFault α} {absent x : α}

theorem readsAs_congr {o o' : Option Json} (ho : Option.Rel (MemberAlike key) o o')
    (hread : ∀ v w, MemberAlike key v w → (read v = .ok x ↔ read w = .ok x)) :
    ReadsAs read absent o x ↔ ReadsAs read absent o' x := by
  cases ho with
  | none => rfl
  | some h => exact hread _ _ h

end

section
variable {ms ns : List (String × Json)} (hms : (ms.map Prod.fst).Nodup)
  (hns : (ns.map Prod.fst).Nodup)
  (h : LooksAlike ms ns)
include hms hns h

theorem conditionOfMembers_congr (c d : Condition) :
    conditionOfMembers c ms = .ok d ↔ conditionOfMembers c ns = .ok d := by
  rw [conditionOfMembers_eq_ok_iff hms, conditionOfMembers_eq_ok_iff hns]
  have hfield := h "field" (by decide)
  have hoperator := h "operator" (by decide)
  have hvalue := h "value" (by decide)
  have htag := h "id" (by decide)
  rw [readsAs_congr hfield fun _ _ hm => hm.text _,
    readsAs_congr hoperator fun _ _ hm => hm.text _,
    readsAs_congr hvalue fun _ _ hm => by rw [Shape.value, Shape.value, hm.envelope],
    readsAs_congr htag fun _ _ hm => hm.tag _]

theorem groupOfMembers_congr (inner : Bool) (g g' : Group) :
    groupOfMembers inner g ms = .ok g' ↔ groupOfMembers inner g ns = .ok g' := by
  rw [groupOfMembers_eq_ok_iff hms, groupOfMembers_eq_ok_iff hns]
  have hjoin := h "logic" (by decide)
  have hrules := h "filters" (by decide)
  have htag := h "id" (by decide)
  rw [readsAs_congr hjoin fun _ _ hm => hm.join inner _,
    readsAs_congr hrules fun _ _ hm => hm.rules rfl inner _,
    readsAs_congr htag fun _ _ hm => hm.tag _]

theorem rule_obj_congr (inner : Bool) (r : Rule) :
    rule inner (.obj ms) = .ok r ↔ rule inner (.obj ns) = .ok r := by
  rw [rule_obj_eq_ok_iff, rule_obj_eq_ok_iff]
  simp only [conditionOfMembers_congr hms hns h, groupOfMembers_congr hms hns h]
  obtain ⟨ht, ht'⟩ | ⟨t, t', ht, ht', hm⟩ := rel_cases (h "type" (by decide))
  · rw [ht, ht']
  · simp only [ht, ht', Option.some.injEq, exists_eq_left', hm.kind]

end

section
variable {ms ns : List (String × Json)}
  (h : LooksAlike ms ns)
include h

theorem checkValue_congr : checkValue (.obj ms) = checkValue (.obj ns) := by
  rw [checkValue, checkValue, Json.get?, Json.get?]
  obtain ⟨hv, hv'⟩ | ⟨v, v', hv, hv', hm⟩ := rel_cases (h "value" (by decide))
  · rw [hv, hv']
  · rw [hv, hv']
    exact congrArg (Except.map fun _ => ()) hm.envelope

theorem checkValues_congr : checkValues (.obj ms) = checkValues (.obj ns) := by
  rw [checkValues_eq, checkValues_eq, filters_eq, filters_eq]
  obtain ⟨hv, hv'⟩ | ⟨v, v', hv, hv', hm⟩ := rel_cases (h "filters" (by decide))
  · rw [hv, hv']
  · rw [hv, hv']
    exact hm.check rfl

end

/-! ## items -/

section
variable {v w : Json} {xs ys : List Json}

theorem rules_congr {inner : Bool} (h : ∀ r, rule inner v = .ok r ↔ rule inner w = .ok r)
    (rs : List Rule) :
    rules inner (xs ++ v :: ys) = .ok rs ↔ rules inner (xs ++ w :: ys) = .ok rs := by
  induction xs generalizing rs with
  | nil => simp only [List.nil_append, rules, bind_eq_ok, h]
  | cons x xs ih => simp only [List.cons_append, rules, bind_eq_ok, ih]

theorem checkItems_congr (h : checkValue v = checkValue w) (h' : checkValues v = checkValues w) :
    checkItems (xs ++ v :: ys) = checkItems (xs ++ w :: ys) := by
  induction xs with
  | nil => simp only [List.nil_append, checkItems, h, h']
  | cons x xs ih => simp only [List.cons_append, checkItems, ih]

theorem forall₂_item {R : Json → Json → Prop} (hrefl : ∀ a, R a a) (h : R v w) :
    List.Forall₂ R (xs ++ v :: ys) (xs ++ w :: ys) := by
  have hsame (zs : List Json) : List.Forall₂ R zs zs := List.forall₂_same.mpr fun a _ => hrefl a
  exact List.rel_append (hsame xs) (.cons h (hsame ys))

end

/-! ## one edit -/

section
variable {p : Place} {v w : Json}

/-- nothing that is edited is a literal -/
theorem ofLiteral_edited (h : Edit p v w) (k : Scalar.Kind) :
    Scalar.ofLiteral k v = Scalar.ofLiteral k w := by
  rcases h.nested with ⟨ms, ns, rfl, rfl⟩ | ⟨xs, ys, rfl, rfl⟩
  · cases k <;> rfl
  · cases k <;> rfl

theorem ofEnvelope_of_length_ne {items : List Json} (h : items.length ≠ 2) :
    Scalar.ofEnvelope (.arr items) = .error (.itemCount items.length) := by
  rcases items with _ | ⟨a, _ | ⟨b, _ | ⟨c, items⟩⟩⟩
  · rfl
  · cases a <;> rfl
  · exact absurd rfl h
  · cases a <;> rfl

theorem ofEnvelope_edited (h : Edit p v w) : Scalar.ofEnvelope v = Scalar.ofEnvelope w := by
  cases h with
  | reorder _ _ => rfl
  | foreign _ _ => rfl
  | member _ _ => rfl
  | @item _ xs ys v w h =>
    have hlength : (xs ++ v :: ys).length = (xs ++ w :: ys).length := by simp
    by_cases htwo : (xs ++ v :: ys).length = 2
    · rw [List.length_append, List.length_cons] at htwo
      rcases xs with _ | ⟨a, xs⟩
      · -- the first of two items is no name
        obtain ⟨b, rfl⟩ := List.length_eq_one_iff.mp (show ys.length = 1 by simpa using htwo)
        rcases h.nested with ⟨ms, ns, rfl, rfl⟩ | ⟨xs, ys, rfl, rfl⟩
        · rfl
        · rfl
      · rw [List.length_cons] at htwo
        obtain rfl := List.length_eq_zero_iff.mp (show xs.length = 0 by omega)
        obtain rfl := List.length_eq_zero_iff.mp (show ys.length = 0 by omega)
        cases a with
        | str tag =>
          show Scalar.ofEnvelope (.arr [.str tag, v]) = Scalar.ofEnvelope (.arr [.str tag, w])
          simp only [Scalar.ofEnvelope, ofLiteral_edited h]
        | _ => rfl
    · rw [ofEnvelope_of_length_ne htwo, ofEnvelope_of_length_ne (hlength ▸ htwo), hlength]

theorem joinContent_edited (h : Edit p v w) (hp : p ≠ .rule) (inner : Bool) (u : Unit) :
    joinContent inner v = .ok u ↔ joinContent inner w = .ok u := by
  cases h with
  | @reorder _ ms ns _ hperm =>
    cases ms with
    | nil => rw [hperm.nil_eq]
    | cons m ms =>
      cases ns with
      | nil => exact absurd hperm.eq_nil (List.cons_ne_nil m ms)
      | cons n ns => exact iff_of_false error_ne_ok error_ne_ok
  | foreign _ _ => exact absurd rfl hp
  | @member _ ms ns key v w _ _ =>
    cases ms with
    | nil => exact iff_of_false error_ne_ok error_ne_ok
    | cons m ms => exact iff_of_false error_ne_ok error_ne_ok
  | item _ => exact iff_of_false error_ne_ok error_ne_ok

theorem join_of_length_ne {ms : List (String × Json)} (h : ms.length ≠ 1) (inner : Bool) :
    Shape.join inner (.obj ms) = .error .joinKeys := by
  rcases ms with _ | ⟨⟨key, v⟩, _ | ⟨m, ms⟩⟩
  · rfl
  · exact absurd rfl h
  · rfl

theorem join_edited (h : Edit p v w) (hp : p ≠ .rule) (inner : Bool) (j : Join) :
    Shape.join inner v = .ok j ↔ Shape.join inner w = .ok j := by
  cases h with
  | @reorder _ ms ns _ hperm =>
    by_cases hone : ms.length = 1
    · obtain ⟨m, rfl⟩ := List.length_eq_one_iff.mp hone
      rw [List.singleton_perm.mp hperm]
    · rw [join_of_length_ne hone, join_of_length_ne (hperm.length_eq ▸ hone)]
  | foreign _ _ => exact absurd rfl hp
  | @member _ ms ns key v w _ h =>
    have hlength : (ms ++ (key, v) :: ns).length = (ms ++ (key, w) :: ns).length := by simp
    by_cases hone : (ms ++ (key, v) :: ns).length = 1
    · rw [List.length_append, List.length_cons] at hone
      obtain rfl := List.length_eq_zero_iff.mp (show ms.length = 0 by omega)
      obtain rfl := List.length_eq_zero_iff.mp (show ns.length = 0 by omega)
      have hcontent := joinContent_edited h (Place.ofKey_ne_rule key) inner
      show (joinOfName key >>= fun j => joinContent inner v >>= fun _ => .ok j) = .ok _ ↔
        (joinOfName key >>= fun j => joinContent inner w >>= fun _ => .ok j) = .ok _
      simp only [bind_eq_ok, hcontent]
    · rw [join_of_length_ne hone, join_of_length_ne (hlength ▸ hone)]
  | item _ => exact iff_of_false error_ne_ok error_ne_ok

/-! ## what an edit keeps -/

/-- What an edit keeps of a value.  Other places are not read as rules; what is read there is seen
from the value itself. -/
def Alike : Place → Json → Json → Prop
  | .rule, v, w => checkValue v = checkValue w ∧ checkValues v = checkValues w ∧
      (∀ inner r, rule inner v = .ok r ↔ rule inner w = .ok r) ∧
      ∀ g, Group.ofJson v = .ok g ↔ Group.ofJson w = .ok g
  | .rules, v, w => (∀ inner rs, readRules inner v = .ok rs ↔ readRules inner w = .ok rs) ∧
      checkItems (itemsOf v) = checkItems (itemsOf w)
  | .other, _, _ => True

/-- what has been edited is read alike under a key -/
theorem memberAlike_of_edit {key : String} (h : Edit p v w) (hp : p ≠ .rule)
    (hkey : key = "filters" → p = .rules) (halike : Alike p v w) : MemberAlike key v w := by
  have henvelope := ofEnvelope_edited h
  have hjoin := join_edited h hp
  have hfilters (hk : key = "filters") : Alike .rules v w := hkey hk ▸ halike
  rcases h.nested with ⟨ms, ns, rfl, rfl⟩ | ⟨xs, ys, rfl, rfl⟩
  -- neither an object nor an array is a text, so both readings fail
  all_goals exact ⟨fun _ _ => iff_of_false error_ne_ok error_ne_ok,
    fun _ => iff_of_false error_ne_ok error_ne_ok,
    fun _ => iff_of_false error_ne_ok error_ne_ok,
    henvelope, hjoin, fun hk => (hfilters hk).1, fun hk => (hfilters hk).2⟩

end

/-- objects are read alike if that holds of what they have under the keys of rules -/
theorem alike_obj {p : Place} {ms ns : List (String × Json)} (hms : (ms.map Prod.fst).Nodup)
    (hns : (ns.map Prod.fst).Nodup) (h : LooksAlike ms ns) : Alike p (.obj ms) (.obj ns) := by
  cases p with
  | rule => exact ⟨checkValue_congr h, checkValues_congr h, rule_obj_congr hms hns h,
      groupOfMembers_congr hms hns h false (.empty .and)⟩
  | rules => exact ⟨fun _ _ => iff_of_false error_ne_ok error_ne_ok, rfl⟩
  | other => trivial

/-- and so are arrays in the place of a rule, one item of which has been edited -/
theorem alike_arr {xs ys : List Json} {v w : Json} (h : ∀ key, MemberAlike key v w) :
    Alike .rule (.arr (xs ++ v :: ys)) (.arr (xs ++ w :: ys)) := by
  have hzip (keys : List String) (xs : List Json) :
      LooksAlike (keys.zip (xs ++ v :: ys)) (keys.zip (xs ++ w :: ys)) :=
    fun key _ => lookup_zip_rel (forall₂_item (MemberAlike.refl key) (h key)) keys
  have hlength (xs : List Json) : (xs ++ v :: ys).length = (xs ++ w :: ys).length := by simp
  refine ⟨rfl, rfl, fun inner r => ?_, fun g => ?_⟩
  · cases xs with
    | nil =>
      rw [List.nil_append, List.nil_append, rule_arr_eq_ok_iff, rule_arr_eq_ok_iff]
      simp only [(h "type").kind]
    | cons x xs =>
      have hcondition := conditionOfMembers_congr (nodup_zip (by decide) _)
        (nodup_zip (by decide) _) (hzip conditionKeys xs)
      have hgroup := groupOfMembers_congr (nodup_zip (by decide) _) (nodup_zip (by decide) _)
        (hzip groupKeys xs)
      rw [List.cons_append, List.cons_append, rule_arr_eq_ok_iff, rule_arr_eq_ok_iff]
      simp only [hcondition, hgroup, hlength xs]
  · have hgroup := groupOfMembers_congr (nodup_zip (by decide) _) (nodup_zip (by decide) _)
      (hzip groupKeys xs)
    rw [ofJson_arr_eq_ok_iff, ofJson_arr_eq_ok_iff, hgroup, hlength xs]

/-- **One edit is not seen by the reader.** -/
theorem alike_of_edit {p : Place} {v w : Json} (h : Edit p v w) : Alike p v w := by
  induction h with
  | @reorder p ms ns hms hperm =>
    refine alike_obj hms ((hperm.map Prod.fst).nodup_iff.mp hms) fun key _ => ?_
    exact rel_of_eq (MemberAlike.refl key) (lookup_perm hperm hms)
  | @foreign ms key v hkey hms =>
    refine alike_obj (List.nodup_cons.mp hms).2 hms fun k hk => ?_
    have hne : k ≠ key := fun he => hkey (he ▸ hk)
    exact rel_of_eq (MemberAlike.refl k) (lookup_cons_of_ne hne).symm
  | @member p ms ns key v w hms h ih =>
    have hkeys : (ms ++ (key, w) :: ns).map Prod.fst = (ms ++ (key, v) :: ns).map Prod.fst := by
      simp
    refine alike_obj hms (hkeys ▸ hms) fun k _ => ?_
    refine lookup_rel_of_member (MemberAlike.refl k) (fun hk => ?_) ms ns
    refine memberAlike_of_edit h (Place.ofKey_ne_rule key) (fun hfilters => ?_) ih
    rw [← hk, hfilters, Place.ofKey_filters]
  | @item p xs ys v w h ih =>
    cases p with
    | rule =>
      have hp : Place.rule.ofItem ≠ .rule := by decide
      exact alike_arr fun key => memberAlike_of_edit h hp (fun _ => rfl) ih
    | rules =>
      obtain ⟨hvalue, hvalues, hrule, -⟩ := ih
      exact ⟨fun inner => rules_congr (hrule inner), checkItems_congr hvalue hvalues⟩
    | other => trivial

/-! ## documents -/

/-- the kinds of faults of a document; one that is no JSON and one that is no filter are not told
apart -/
inductive FaultKind where
  | tooLarge (size : Nat)
  | notFilter
  | value (f : Scalar.EnvelopeFault)
  | tooDeep (depth : Nat)
  deriving DecidableEq, Repr

def LoadFault.kind : LoadFault → FaultKind
  | .tooLarge size => .tooLarge size
  | .json _ | .shape _ => .notFilter
  | .value f => .value f
  | .tooDeep depth => .tooDeep depth

theorem ofJson_alike {v w : Json} (h : Alike .rule v w) :
    (ofJson v).mapError LoadFault.kind = (ofJson w).mapError LoadFault.kind := by
  obtain ⟨-, hvalues, -, hgroup⟩ := h
  rw [ofJson, ofJson, hvalues]
  cases checkValues w with
  | error f => rfl
  | ok u =>
    cases hw : Group.ofJson w with
    | ok g => rw [(hgroup g).mpr hw]
    | error f =>
      cases hv : Group.ofJson v with
      | ok g => cases hw.symm.trans ((hgroup g).mp hv)
      | error f' => rfl

theorem ofJson_edited {v w : Json} (h : Relation.EqvGen (Edit .rule) v w) :
    (ofJson v).mapError LoadFault.kind = (ofJson w).mapError LoadFault.kind := by
  induction h with
  | rel v w h => exact ofJson_alike (alike_of_edit h)
  | refl v => rfl
  | symm v w _ ih => exact ih.symm
  | trans u v w _ _ ih₁ ih₂ => exact ih₁.trans ih₂

/-- **Neither the order of keys nor foreign keys matter.**  Two documents of allowed size differ
only in the order of the keys of their objects, and in keys that no rule has, in the root and in the
items of `filters`.  Then they are loaded as the same tree, or refused for the same kind of fault,
with the same fault of a value or the same depth.  This asks that what is foreign can be read: it
may be no JSON for the reader on either side, as a number that is too great is none, but not on one
side only. -/
theorem load_edited {s t : String} (hs : s.utf8ByteSize ≤ maxSize) (ht : t.utf8ByteSize ≤ maxSize)
    (h : (∃ v w, parseText s = .ok v ∧ parseText t = .ok w ∧ Relation.EqvGen (Edit .rule) v w) ∨
      ∃ f f', parseText s = .error f ∧ parseText t = .error f') :
    (load s).mapError LoadFault.kind = (load t).mapError LoadFault.kind := by
  obtain ⟨v, w, hv, hw, h⟩ | ⟨f, f', hf, hf'⟩ := h
  · rw [load_of_parse hs hv, load_of_parse ht hw]
    exact ofJson_edited h
  · rw [load_of_parse_error hs hf, load_of_parse_error ht hf']
    rfl

/-- a rule with its keys the other way round, in a root with one key more -/
theorem load_edited_note :
    let v : Json := .obj [("logic", .str "or"), ("filters", .arr [
      .obj [("type", .str "filter"), ("field", .str "a")]])]
    let w : Json := .obj [("note", .bool true), ("filters", .arr [
      .obj [("field", .str "a"), ("type", .str "filter")]]), ("logic", .str "or")]
    Relation.EqvGen (Edit .rule) v w ∧
      load v.compactText = .ok ⟨.or, [.condition ⟨"a", "", .null, none⟩], none⟩ ∧
      load w.compactText = .ok ⟨.or, [.condition ⟨"a", "", .null, none⟩], none⟩ := by
  intro v w
  let inner : Json := .arr [.obj [("field", .str "a"), ("type", .str "filter")]]
  have hinner : Edit .rule v (.obj [("logic", .str "or"), ("filters", inner)]) :=
    @Edit.member .rule [("logic", .str "or")] [] "filters" _ inner (by decide)
      (@Edit.item .rules [] [] _ _ (.reorder (by decide) (.swap _ _ _)))
  have horder : Edit .rule (.obj [("logic", .str "or"), ("filters", inner)])
      (.obj [("filters", inner), ("logic", .str "or")]) := .reorder (by decide) (.swap _ _ _)
  have hforeign : Edit .rule (.obj [("filters", inner), ("logic", .str "or")]) w :=
    .foreign (by decide) (by decide)
  have hedits : Relation.EqvGen (Edit .rule) v w :=
    .trans _ _ _ (.rel _ _ hinner) (.trans _ _ _ (.rel _ _ horder) (.rel _ _ hforeign))
  have hv : parseText v.compactText = .ok v := parseText_compactText (by simp [v, Writable,
    MembersWritable, AllWritable]) (by decide)
  have hw : parseText w.compactText = .ok w := parseText_compactText (by simp [w, Writable,
    MembersWritable, AllWritable]) (by decide)
  have hvs : v.compactText.utf8ByteSize ≤ maxSize := by decide +kernel
  have hws : w.compactText.utf8ByteSize ≤ maxSize := by decide +kernel
  have hload : load v.compactText = .ok ⟨.or, [.condition ⟨"a", "", .null, none⟩], none⟩ :=
    load_of_parse hvs hv
  have hsame := load_edited hvs hws (.inl ⟨v, w, hv, hw, hedits⟩)
  rw [hload] at hsame
  exact ⟨hedits, hload, mapError_eq_ok.mp hsame.symm⟩

/-- The grammar of JSON alone is not enough: the value of a foreign key may be a number that is too
great for the reader. -/
theorem exists_foreign_refused :
    "x" ∉ ruleKeys ∧ Json.Skip.value "\x7b\x7d".toList = .ok [] ∧
      Json.Skip.value "\x7b\"x\":1e400\x7d".toList = .ok [] ∧
      load "\x7b\x7d" = .ok (.empty .and) ∧
      ∃ f, load "\x7b\"x\":1e400\x7d" = .error (.json f) := by
  refine ⟨by decide, by decide +kernel, by decide +kernel, rfl, ?_⟩
  have hsize : "\x7b\"x\":1e400\x7d".utf8ByteSize ≤ maxSize := by decide +kernel
  have hnone : (parseText "\x7b\"x\":1e400\x7d").toOption = none :=
    Option.isNone_iff_eq_none.mp (by decide +kernel)
  obtain ⟨f, hf⟩ := toOption_eq_none.mp hnone
  exact ⟨f, load_of_parse_error hsize hf⟩

end SavedFilter.Document
