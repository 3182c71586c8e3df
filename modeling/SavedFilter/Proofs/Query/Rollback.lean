import SavedFilter.Proofs.Query.Scripts

/-!
# Composing in place

`Rule.compose?` answers with a longer buffer or with none.  Here the same is done in one buffer: a
group writes its parenthesis and its word before it is known whether a member follows, remembers how
long the text was, in bytes, and cuts it there if nothing followed; a condition does so with the
values that were bound for it.

* `Text.truncate?`   a text cut at a byte, which must stand between two characters;
* `Rule.visit?`      the visit in place, with the calls that were made;
* `visit?_eq`        it never cuts a character in two, and comes to what composing comes to; the
                     values that it adds are those bound in calls that wrote a text;
* `visit_extends`    so a visit only adds to what the buffer held.
-/

set_option linter.unusedSectionVars false

namespace SavedFilter

/-! ## cutting a text -/

namespace Text

/-- A text cut at a byte; cutting behind its end leaves it as it is.  There is no answer where the
byte is inside a character. -/
def truncate? (s : String) (n : Nat) : Option String :=
  if s.utf8ByteSize < n then some s
  else if h : (String.Pos.Raw.mk n).IsValid s then some (s.sliceTo ⟨⟨n⟩, h⟩).copy
  else none

/-- what has been added behind a text is cut off at the size of the text -/
theorem truncate?_append (s t : String) : truncate? (s ++ t) s.utf8ByteSize = some s := by
  have hsize : ¬ (s ++ t).utf8ByteSize < s.utf8ByteSize := by
    rw [String.utf8ByteSize_append]
    omega
  have hvalid : (String.Pos.Raw.mk s.utf8ByteSize).IsValid (s ++ t) :=
    String.Pos.Raw.isValid_iff_exists_append.mpr ⟨s, t, rfl, rfl⟩
  have hsplits : String.Pos.Splits (s := s ++ t) ⟨⟨s.utf8ByteSize⟩, hvalid⟩ s t := ⟨rfl, rfl⟩
  rw [truncate?, if_neg hsize, dif_pos hvalid, hsplits.copy_sliceTo_eq]

end Text

namespace Buffer

/-- the length of the text in bytes -/
def size (b : Buffer) : Nat := b.query.text.utf8ByteSize

def truncate? (b : Buffer) (n : Nat) : Option Buffer :=
  (Text.truncate? b.query.text n).map fun s => ⟨⟨s, b.query.values⟩, b.token⟩

/-- the buffer with the first `n` values only -/
def unbind (b : Buffer) (n : Nat) : Buffer := ⟨⟨b.query.text, b.query.values.take n⟩, b.token⟩

theorem size_add (b : Buffer) (q : Query) : (b.add q).size = b.size + q.text.utf8ByteSize :=
  String.utf8ByteSize_append

theorem size_add_eq_iff (b : Buffer) (q : Query) : (b.add q).size = b.size ↔ q.text = "" := by
  rw [size_add, Nat.add_eq_left, String.utf8ByteSize_eq_zero_iff]

theorem truncate?_write (b : Buffer) (s : String) : (b.write s).truncate? b.size = some b := by
  show (Text.truncate? (b.query.text ++ s) b.query.text.utf8ByteSize).map _ = _
  rw [Text.truncate?_append]
  show some (Buffer.mk ⟨b.query.text, b.query.values ++ []⟩ b.token) = some b
  rw [List.append_nil]

theorem unbind_add (b : Buffer) {q : Query} (h : q.text = "") : (b.add q).unbind b.next = b := by
  show Buffer.mk ⟨b.query.text ++ q.text, (b.query.values ++ q.values).take b.query.values.length⟩
    b.token = b
  rw [h, String.append_empty, List.take_left]

end Buffer

/-! ## the visit -/

section
variable (writers : String → Condition → Script)

def Condition.visit (b : Buffer) (c : Condition) : Buffer × List Call :=
  if c.isUsable then
    let (after, call) := (writers c.operatorCode c).run b
    (if after.size = b.size then after.unbind b.next else after, [call])
  else (b, [])

namespace Rule

mutual

def visit? (b : Buffer) : Rule → Option (Buffer × List Call)
  | .condition c => some (c.visit writers b)
  | .group join members _ =>
    if members.isEmpty then some (b, [])
    else do
      let (after, started, calls) ← visitAll? join (b.write "(") false members
      if started then some (after.write ")", calls)
      else
        let back ← after.truncate? b.size
        some (back, calls)

/-- The members of a group, one after the other; the answer also tells whether one has been
written. -/
def visitAll? (join : Join) (b : Buffer) (started : Bool) :
    List Rule → Option (Buffer × Bool × List Call)
  | [] => some (b, started, [])
  | r :: rs => do
    let body := if started then b.write (separator join) else b
    let (after, calls) ← visit? body r
    if after.size = body.size then
      let back ← after.truncate? b.size
      let (last, started, more) ← visitAll? join back started rs
      some (last, started, calls ++ more)
    else
      let (last, started, more) ← visitAll? join after true rs
      some (last, started, calls ++ more)

end

end Rule

end

/-! ## visiting is composing -/

section
variable {ops : Operators} {writers : String → Condition → Script} (hops : ops.Performs writers)
include hops

/-- a condition whose call writes nothing leaves the buffer as it was, also its values -/
theorem Condition.visit_eq (b : Buffer) (c : Condition) :
    ∃ calls, c.visit writers b = ((c.compose? ops b).getD b, calls) ∧
      ((c.compose? ops b).getD b).bindings = b.bindings ++ Call.kept calls := by
  unfold visit compose?
  split_ifs with hu
  · obtain ⟨hafter, hbound⟩ := (writers c.operatorCode c).run_eq b
    have htext : ((writers c.operatorCode c).query b).text =
        ((writers c.operatorCode c).run b).2.text := rfl
    rw [← hops c.operatorCode c b] at hafter hbound htext
    generalize ops.find c.operatorCode c b = q at hafter hbound htext ⊢
    generalize (writers c.operatorCode c).run b = result at hafter hbound htext ⊢
    obtain ⟨after, call⟩ := result
    obtain rfl : after = b.add q := hafter
    refine ⟨[call], ?_⟩
    by_cases ht : q.text = ""
    · have hcall : call.wrote = false := by
        rw [Bool.eq_false_iff, ne_eq, Call.wrote_iff, not_not]
        exact htext.symm.trans ht
      rw [Call.kept_singleton_of_not hcall, List.append_nil]
      simp only [Buffer.size_add_eq_iff, Query.isEmpty_iff, ht, if_true, Buffer.unbind_add b ht]
      exact ⟨rfl, rfl⟩
    · have hcall : call.wrote = true := call.wrote_iff.mpr fun h => ht (htext.trans h)
      rw [Call.kept_singleton hcall]
      simp only [Buffer.size_add_eq_iff, Query.isEmpty_iff, ht, if_false]
      refine ⟨rfl, ?_⟩
      rw [Option.getD_some, Buffer.bindings_add, ← hbound]
  · exact ⟨[], rfl, (List.append_nil _).symm⟩

namespace Rule

mutual

theorem visit?_eq : ∀ (r : Rule) (b : Buffer), ∃ calls,
    r.visit? writers b = some ((r.compose? ops b).getD b, calls) ∧
      ((r.compose? ops b).getD b).bindings = b.bindings ++ Call.kept calls
  | .condition c, b => by
    obtain ⟨calls, hvisit, hkept⟩ := c.visit_eq hops b
    exact ⟨calls, congrArg some hvisit, hkept⟩
  | .group join members tag, b => by
    rw [visit?]
    split_ifs with hempty
    · rw [List.isEmpty_iff.mp hempty]
      exact ⟨[], rfl, (List.append_nil _).symm⟩
    · obtain ⟨calls, hvisit, hkept⟩ := visitAll?_eq join members (b.write "(") false
      refine ⟨calls, ?_⟩
      rw [hvisit, compose?]
      rw [Buffer.bindings_write] at hkept
      cases hm : composeAll? ops join (b.write "(") false members with
      | some longer =>
        rw [hm] at hkept
        refine ⟨rfl, ?_⟩
        show (longer.write ")").bindings = _
        rwa [Buffer.bindings_write]
      | none =>
        rw [hm] at hkept
        refine ⟨?_, ?_⟩
        · show ((b.write "(").truncate? b.size >>= fun back => some (back, calls)) = _
          rw [Buffer.truncate?_write]
          rfl
        · show b.bindings = _
          rwa [Option.getD_none, Buffer.bindings_write] at hkept

theorem visitAll?_eq (join : Join) : ∀ (rs : List Rule) (b : Buffer) (started : Bool), ∃ calls,
    visitAll? writers join b started rs = some ((composeAll? ops join b started rs).getD b,
      (composeAll? ops join b started rs).isSome, calls) ∧
      ((composeAll? ops join b started rs).getD b).bindings = b.bindings ++ Call.kept calls
  | [], b, started => by
    refine ⟨[], ?_, ?_⟩
    · cases started <;> rfl
    · cases started <;> exact (List.append_nil _).symm
  | r :: rs, b, started => by
    -- the word in front of the member, if there is one
    obtain ⟨word, hword⟩ : ∃ word,
        (if started then b.write (separator join) else b) = b.write word := by
      cases started with
      | true => exact ⟨separator join, rfl⟩
      | false => exact ⟨"", b.add_none.symm⟩
    obtain ⟨calls, hvisit, hkept⟩ := visit?_eq r (b.write word)
    rw [visitAll?, composeAll?, hword]
    dsimp only
    rw [hvisit]
    cases hr : r.compose? ops (b.write word) with
    | none =>
      obtain ⟨more, hmore, hkeptMore⟩ := visitAll?_eq join rs b started
      rw [hr, Option.getD_none, Buffer.bindings_write] at hkept
      refine ⟨calls ++ more, ?_, ?_⟩
      · simp only [Option.getD_none, Option.bind_eq_bind, Option.bind_some, if_true,
          Buffer.truncate?_write, hmore]
      · rw [Call.kept_append, ← List.append_assoc, ← hkept]
        exact hkeptMore
    | some longer =>
      obtain ⟨q, hq, rfl⟩ := exists_of_compose? hr
      obtain ⟨more, hmore, hkeptMore⟩ := visitAll?_eq join rs ((b.write word).add q) true
      obtain ⟨last, hlast⟩ := exists_composeAll?_started join rs ((b.write word).add q)
      rw [hlast] at hmore hkeptMore
      rw [hr, Option.getD_some, Buffer.bindings_write] at hkept
      refine ⟨calls ++ more, ?_, ?_⟩
      · simp only [Option.getD_some, Option.bind_eq_bind, Option.bind_some,
          Buffer.size_add_eq_iff, hq, if_false, hmore, hlast]
      · rw [Call.kept_append, ← List.append_assoc, ← hkept]
        simp only [hlast]
        exact hkeptMore

end

end Rule

end

/-! ## what a visit leaves behind -/

/-- what is composed of a group stands in parentheses -/
theorem Rule.exists_of_compose?_group {ops : Operators} {join : Join} {members : List Rule}
    {tag : Option String} {b longer : Buffer}
    (h : (Rule.group join members tag).compose? ops b = some longer) :
    ∃ q : Query, longer = b.add (⟨"(", []⟩ ++ q ++ ⟨")", []⟩) := by
  obtain ⟨inner, hinner, rfl⟩ := Option.map_eq_some_iff.mp h
  obtain ⟨q, -, rfl⟩ := exists_of_composeAll? hinner
  exact ⟨q, by simp only [Buffer.write, Buffer.add_add]⟩

/-- composing puts a query behind what the buffer held, which is nothing at all or has a text, and
that of a group stands in parentheses -/
theorem Rule.exists_getD_compose? (ops : Operators) (r : Rule) (b : Buffer) :
    ∃ q : Query, (r.compose? ops b).getD b = b.add q ∧ (q.text = "" → q.values = []) ∧
      ∀ join members tag, r = .group join members tag → q.text ≠ "" →
        ∃ s, q.text = "(" ++ s ++ ")" := by
  cases hr : r.compose? ops b with
  | none => exact ⟨.none, b.add_none.symm, fun _ => rfl, fun _ _ _ _ h => absurd rfl h⟩
  | some longer =>
    cases r with
    | condition c =>
      obtain ⟨q, hq, rfl⟩ := exists_of_compose? hr
      exact ⟨q, rfl, fun h => absurd h hq, fun _ _ _ h => nomatch h⟩
    | group join members tag =>
      obtain ⟨q, rfl⟩ := exists_of_compose?_group hr
      refine ⟨_, rfl, fun h => ?_, fun _ _ _ _ _ => ⟨q.text, rfl⟩⟩
      have hempty : ")" = "" := (String.append_eq_empty_iff.mp h).2
      exact absurd hempty (by decide)

/-- **A visit only adds to what the buffer held.**  The scripts of a table may write and bind as
they like and look at all that the buffer holds.  Whatever it held, the visit puts a query behind it
and leaves the token; a query without text binds nothing, and one of a group stands in parentheses.
A value that was bound in a call that wrote a text is found at its number in the end; and the values
of the query, with their numbers, are just these. -/
theorem visit_extends {ops : Operators} {writers : String → Condition → Script}
    (hops : ops.Performs writers) (b : Builder) (r : Rule) :
    ∃ q calls, r.visit? writers ⟨b.output, b.token⟩ = some (⟨b.output ++ q, b.token⟩, calls) ∧
      b.visit ops r = ⟨b.token, b.output ++ q⟩ ∧
      (q.text = "" → q.values = []) ∧
      (∀ join members tag, r = .group join members tag → q.text ≠ "" →
        ∃ s, q.text = "(" ++ s ++ ")") ∧
      (∀ call ∈ calls, call.text ≠ "" → ∀ p ∈ call.bound,
        (b.output ++ q).values[p.2]? = some p.1) ∧
      q.values.zipIdx b.output.values.length = Call.kept calls := by
  obtain ⟨calls, hvisit, hkept⟩ := r.visit?_eq hops ⟨b.output, b.token⟩
  obtain ⟨q, hq, hnone, hgroup⟩ := r.exists_getD_compose? ops ⟨b.output, b.token⟩
  rw [hq] at hvisit hkept
  have hnumbers : q.values.zipIdx b.output.values.length = Call.kept calls := by
    rw [Buffer.bindings_add] at hkept
    exact List.append_cancel_left hkept
  refine ⟨q, calls, hvisit, ?_, hnone, hgroup, fun call hcall htext p hp => ?_, hnumbers⟩
  · rw [Builder.visit, hq]
    rfl
  · have hmem : p ∈ Call.kept calls := Call.mem_kept.mpr ⟨call, hcall, htext, hp⟩
    have hbinding : p ∈ (Buffer.add ⟨b.output, b.token⟩ q).bindings := by
      rw [hkept]
      exact List.mem_append_right _ hmem
    exact List.mem_zipIdx_iff_getElem?.mp hbinding

/-- behind a text and a value, a group whose first member binds twice and writes nothing: its
parenthesis stays, its values go, and the next value has the number of the first one that went -/
theorem visit_extends_silent :
    let silent : Condition → Script := fun c =>
      .bind c.value fun _ => .bind (.text "lost") fun _ => .write "" .stop
    let ops := Operators.empty.insert "silent" fun c => (silent c).query
    let writers : String → Condition → Script := fun code =>
      if Operators.normalForm "silent" = Operators.normalForm code then silent
      else Form.script (.comparison "==")
    let r : Rule := .group .or [.condition ⟨"A", "silent", .bool true, none⟩,
      .condition ⟨"B", "equal", .bool false, none⟩] none
    ops.Performs writers ∧
    r.visit? writers ⟨⟨"é", [.null]⟩, "t"⟩ = some (⟨⟨"é(B == @1)", [.null, .bool false]⟩, "t"⟩,
      [⟨"", [(.bool true, 1), (.text "lost", 2)]⟩, ⟨"B == @1", [(.bool false, 1)]⟩]) ∧
    (Builder.mk "t" ⟨"é", [.null]⟩).visit ops r = ⟨"t", ⟨"é(B == @1)", [.null, .bool false]⟩⟩ := by
  intro silent ops writers r
  have hops : ops.Performs writers := Operators.performs_empty.insert "silent" silent
  have hvisit : r.visit? writers ⟨⟨"é", [.null]⟩, "t"⟩ =
      some (⟨⟨"é(B == @1)", [.null, .bool false]⟩, "t"⟩,
        [⟨"", [(.bool true, 1), (.text "lost", 2)]⟩, ⟨"B == @1", [(.bool false, 1)]⟩]) := by
    decide +kernel
  obtain ⟨q, calls, hq, hbuilder, -⟩ := visit_extends hops ⟨"t", ⟨"é", [.null]⟩⟩ r
  have hbuffer := congrArg Prod.fst (Option.some.inj (hq.symm.trans hvisit))
  refine ⟨hops, hvisit, ?_⟩
  rw [hbuilder]
  exact congrArg (fun b : Buffer => Builder.mk b.token b.query) hbuffer

end SavedFilter
