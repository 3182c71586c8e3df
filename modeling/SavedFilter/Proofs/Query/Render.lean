import SavedFilter.Proofs.Query.Entries
import SavedFilter.Query.Workbench

/-!
# What a rule compiles to

A query is composed in a buffer that every emitter sees.  Here is the same query without a buffer,
by the structure of the rule:

* `Rule.render? emit n`   a condition gives what `emit` says when `n` values are bound, a group
                          joins what its members give and numbers them one after the other;
* `compose?_eq`           composing puts just this to the end of any buffer;
* `build_eq_render`       a builder's output is what its rule renders to, whatever it held before.

This needs emitters that look at no more of the buffer than the count of its values and its token
(`Emitter.IsPositional`); the built-in ones do not, and of a table only what it still holds has to
be of this kind (`Operators.IsPositional`).
-/

set_option linter.unusedSectionVars false

namespace SavedFilter

/-! ## emitters that do not look at the text -/

/-- what is added depends on the condition, on how many values are bound, and on the token -/
def Emitter.IsPositional (e : Emitter) : Prop :=
  ∀ (c : Condition) (b b' : Buffer), b.next = b'.next → b.token = b'.token → e c b = e c b'

def Buffer.numbered (token : String) (n : Nat) : Buffer := ⟨⟨"", List.replicate n .null⟩, token⟩

namespace Emitter

def emit (e : Emitter) (token : String) (n : Nat) (c : Condition) : Query := e c (.numbered token n)

theorem IsPositional.eq_emit {e : Emitter} (h : e.IsPositional) (c : Condition) (b : Buffer) :
    e c b = e.emit b.token b.next c := by
  refine h c b _ ?_ rfl
  show b.next = (List.replicate b.next Scalar.null).length
  rw [List.length_replicate]

theorem isPositional_comparison (symbol : String) : (comparison symbol).IsPositional := by
  intro c b b' hn _
  simp only [comparison, hn]

theorem isPositional_nullTest (symbol : String) : (nullTest symbol).IsPositional := by
  intro c b b' _ _
  rfl

theorem isPositional_call (method : String) (negated : Bool) :
    (call method negated).IsPositional := by
  intro c b b' hn ht
  simp only [call, hn, ht]

end Emitter

namespace Operators

theorem isPositional_of_mem_builtinEntries : ∀ e ∈ builtinEntries, e.2.IsPositional := by
  simp only [builtinEntries, List.forall_mem_cons, List.not_mem_nil, false_imp_iff, implies_true,
    and_true]
  exact ⟨Emitter.isPositional_call _ _, Emitter.isPositional_call _ _,
    Emitter.isPositional_call _ _, Emitter.isPositional_call _ _, Emitter.isPositional_call _ _,
    Emitter.isPositional_call _ _, Emitter.isPositional_comparison _,
    Emitter.isPositional_comparison _, Emitter.isPositional_comparison _,
    Emitter.isPositional_comparison _, Emitter.isPositional_comparison _,
    Emitter.isPositional_comparison _, Emitter.isPositional_nullTest _,
    Emitter.isPositional_nullTest _⟩

/-- every emitter that a condition can reach in the table is positional -/
def IsPositional (ops : Operators) : Prop := ∀ code, (ops.find code).IsPositional

/-- entries that have been replaced by later ones may be of any kind -/
theorem isPositional_insert {ops : Operators} {code : String} {e : Emitter}
    (he : e.IsPositional)
    (h : ∀ other, normalForm code ≠ normalForm other → (ops.find other).IsPositional) :
    (ops.insert code e).IsPositional := by
  intro other
  rw [find_insert]
  split_ifs with hn
  · exact he
  · exact h other hn

theorem isPositional_insertAll {entries : List (String × Emitter)}
    (h : ∀ e ∈ entries, e.2.IsPositional) : (empty.insertAll entries).IsPositional := by
  intro code
  rw [find_insertAll]
  exact latest_mem h (Emitter.isPositional_comparison _) _

theorem isPositional_builtin : builtin.IsPositional :=
  isPositional_insertAll isPositional_of_mem_builtinEntries

/-- a code is looked up among the entries first, and then in the table that they are put into -/
theorem IsPositional.insertAll {ops : Operators} (hops : ops.IsPositional)
    {entries : List (String × Emitter)} (h : (empty.insertAll entries).IsPositional) :
    (ops.insertAll entries).IsPositional := by
  intro code
  have he := h code
  rw [find_insertAll_getD] at he ⊢
  cases hf : entries.reverse.find? fun e => normalForm e.1 == normalForm code with
  | none => exact hops code
  | some e =>
    rw [hf] at he
    exact he

end Operators

/-! ## rendering -/

namespace Query

/-- queries in parentheses with a word between them; no queries give nothing -/
def enclose? (join : Join) : List Query → Option Query
  | [] => .none
  | qs => some ⟨"(" ++ (Rule.separator join).intercalate (qs.map text) ++ ")",
      (qs.map values).flatten⟩

/-- queries with the word in front of each -/
def following (join : Join) (qs : List Query) : Query :=
  ⟨String.join (qs.map fun q => Rule.separator join ++ q.text), (qs.map values).flatten⟩

theorem following_nil (join : Join) : following join [] = none := rfl

theorem following_cons (join : Join) (q : Query) (qs : List Query) :
    following join (q :: qs) = ⟨Rule.separator join, []⟩ ++ (q ++ following join qs) := by
  simp [following, append_def, String.append_assoc]

theorem intercalate_cons (s t : String) (ts : List String) :
    s.intercalate (t :: ts) = t ++ String.join (ts.map (s ++ ·)) := by
  induction ts generalizing t with
  | nil => simp
  | cons u us ih => rw [String.intercalate_cons_cons, ih]; simp [String.append_assoc]

theorem enclose?_cons (join : Join) (q : Query) (qs : List Query) :
    enclose? join (q :: qs) = some (⟨"(", []⟩ ++ (q ++ following join qs) ++ ⟨")", []⟩) := by
  simp [enclose?, following, append_def, intercalate_cons, String.append_assoc, Function.comp_def]

end Query

namespace Rule
variable (emit : Nat → Condition → Query)

def renderCondition? (n : Nat) (c : Condition) : Option Query :=
  if Text.trim c.field.toList = [] then none
  else if (emit n c).text = "" then none
  else some (emit n c)

mutual

def render? (n : Nat) : Rule → Option Query
  | .condition c => renderCondition? emit n c
  | .group join members _ => Query.enclose? join (renderAll n members)

/-- What the members of a group give, those left out that give nothing.  Each begins behind the
values of the ones before it. -/
def renderAll (n : Nat) : List Rule → List Query
  | [] => []
  | r :: rs =>
    match render? n r with
    | none => renderAll n rs
    | some q => q :: renderAll (n + q.values.length) rs

end

end Rule

/-! ## composing is rendering -/

theorem Condition.isUsable_iff (c : Condition) :
    c.isUsable = true ↔ Text.trim c.field.toList ≠ [] := by
  rw [isUsable, Text.allBlank, ne_eq, Text.trim_eq_nil_iff]
  cases c.field.toList.all Text.isBlank <;> simp

theorem Query.isEmpty_iff (q : Query) : q.isEmpty = true ↔ q.text = "" := String.isEmpty_iff

theorem Buffer.next_add (b : Buffer) (q : Query) : (b.add q).next = b.next + q.values.length :=
  List.length_append

namespace Rule

section
variable {ops : Operators} {token : String} {emit : Nat → Condition → Query}
  (h : ∀ (c : Condition) (b : Buffer), b.token = token →
    ops.find c.operatorCode c b = emit b.next c)
include h

theorem composeCondition?_eq (b : Buffer) (hb : b.token = token) (c : Condition) :
    c.compose? ops b = (renderCondition? emit b.next c).map b.add := by
  unfold Condition.compose? renderCondition?
  simp only [h c b hb, Condition.isUsable_iff, Query.isEmpty_iff]
  by_cases hf : Text.trim c.field.toList = []
  · simp [hf]
  · by_cases ht : (emit b.next c).text = "" <;> simp [hf, ht]

mutual

/-- a rule that renders to a query puts it to the end of the buffer, and one that does not leaves
nothing behind -/
theorem compose?_eq (b : Buffer) (hb : b.token = token) (r : Rule) :
    r.compose? ops b = (render? emit b.next r).map b.add := by
  cases r with
  | condition c => exact composeCondition?_eq h b hb c
  | group join members tag =>
    have hn : (b.write "(").next = b.next := Buffer.next_add b _
    have hm := composeAll?_first join (b.write "(") hb members
    rw [hn] at hm
    rw [compose?, hm, render?]
    cases renderAll emit b.next members with
    | nil => rfl
    | cons q qs =>
      rw [Query.enclose?_cons]
      simp only [Option.map_some, Buffer.write, Buffer.add_add]

/-- members behind one that has been written: each comes behind the word of the group -/
theorem composeAll?_more (join : Join) (b : Buffer) (hb : b.token = token) (rs : List Rule) :
    composeAll? ops join b true rs
      = some (b.add (Query.following join (renderAll emit b.next rs))) := by
  cases rs with
  | nil => rw [composeAll?_nil, renderAll, Query.following_nil, Buffer.add_none]; rfl
  | cons r rs =>
    have hn : (b.write (separator join)).next = b.next := Buffer.next_add b _
    have hr := compose?_eq (b.write (separator join)) hb r
    rw [hn] at hr
    rw [composeAll?, if_pos rfl, hr, renderAll]
    cases render? emit b.next r with
    | none => exact composeAll?_more join b hb rs
    | some q =>
      have hq : ((b.write (separator join)).add q).next = b.next + q.values.length := by
        rw [Buffer.next_add, hn]
      simp only [Option.map_some]
      rw [composeAll?_more join ((b.write (separator join)).add q) hb rs, hq, Query.following_cons]
      simp only [Buffer.write, Buffer.add_add, Query.append_assoc]

/-- the members of a group from the first one on: one that gives nothing leaves no word behind -/
theorem composeAll?_first (join : Join) (b : Buffer) (hb : b.token = token) (rs : List Rule) :
    composeAll? ops join b false rs = match renderAll emit b.next rs with
      | [] => none
      | q :: qs => some (b.add (q ++ Query.following join qs)) := by
  cases rs with
  | nil => rfl
  | cons r rs =>
    rw [composeAll?, if_neg Bool.false_ne_true, compose?_eq b hb r, renderAll]
    cases render? emit b.next r with
    | none => exact composeAll?_first join b hb rs
    | some q =>
      simp only [Option.map_some]
      rw [composeAll?_more join (b.add q) hb rs, Buffer.next_add, Buffer.add_add]

end

theorem query_eq (r : Rule) : r.query ops token = (render? emit 0 r).getD .none := by
  have hr := compose?_eq h (.empty token) rfl r
  rw [show (Buffer.empty token).next = 0 from rfl] at hr
  rw [query, hr]
  cases render? emit 0 r with
  | none => rfl
  | some q =>
    show Query.none ++ q = q
    exact Query.none_append q

end

/-! ## tables of positional emitters -/

def emitOf (entries : List (String × Emitter)) (token : String) (n : Nat) (c : Condition) : Query :=
  (Operators.latest entries c.operatorKey).emit token n c

theorem find_eq_emitOf {entries : List (String × Emitter)}
    (h : (Operators.empty.insertAll entries).IsPositional) (token : String) (c : Condition)
    (b : Buffer) (hb : b.token = token) :
    (Operators.empty.insertAll entries).find c.operatorCode c b
      = emitOf entries token b.next c := by
  rw [(h c.operatorCode).eq_emit, Operators.find_operatorCode, hb]
  rfl

/-- what a rule renders to with the emitters of some entries; nothing is the empty query -/
def rendered (entries : List (String × Emitter)) (token : String) (r : Rule) : Query :=
  (render? (emitOf entries token) 0 r).getD .none

theorem query_insertAll {entries : List (String × Emitter)}
    (h : (Operators.empty.insertAll entries).IsPositional) (token : String) (r : Rule) :
    r.query (Operators.empty.insertAll entries) token = r.rendered entries token :=
  query_eq (find_eq_emitOf h token) r

end Rule

/-- **A builder's output is what its rule renders to.**  The table starts empty or with the
built-in operators and takes any further entries; what it then holds of them has to be positional,
and the three built-in families are. -/
theorem build_eq_render (entries : List (String × Emitter))
    (h : (Operators.empty.insertAll entries).IsPositional) (b : Builder) (r : Rule) :
    b.build (Operators.empty.insertAll entries) (some r) = ⟨b.token, r.rendered entries b.token⟩ ∧
    b.build (Operators.builtin.insertAll entries) (some r)
      = ⟨b.token, r.rendered (Operators.builtinEntries ++ entries) b.token⟩ ∧
    (∀ symbol, (Emitter.comparison symbol).IsPositional) ∧
    (∀ symbol, (Emitter.nullTest symbol).IsPositional) ∧
    (∀ method negated, (Emitter.call method negated).IsPositional) := by
  have hall : (Operators.empty.insertAll (Operators.builtinEntries ++ entries)).IsPositional := by
    rw [← Operators.builtin_insertAll]
    exact Operators.isPositional_builtin.insertAll h
  refine ⟨?_, ?_, Emitter.isPositional_comparison, Emitter.isPositional_nullTest,
    Emitter.isPositional_call⟩
  · rw [← Rule.query_insertAll h]
    rfl
  · rw [← Rule.query_insertAll hall, ← Operators.builtin_insertAll]
    rfl

/-- a table in which an entry that looks at the text has been replaced by a positional one, and a
rule in which the first, a middle and the last member of a group give nothing -/
theorem build_eq_render_matches :
    let entries : List (String × Emitter) :=
      [("matches", fun _ b => ⟨b.query.text, []⟩), (" MATCHES ", .call "Matches" true)]
    (Operators.empty.insertAll entries).IsPositional ∧
    (Builder.mk "t" ⟨"(A", [.null]⟩).build (Operators.builtin.insertAll entries)
        (some (.group .or
          [.condition ⟨" ", "equal", .bool true, none⟩,
            .condition ⟨"A", "matches", .text "x", none⟩,
            .group .and [.condition ⟨"", "", .null, none⟩] none,
            .group .and [.condition ⟨"B", "Is-Null", .text "y", none⟩,
              .condition ⟨"C", "unheard-of", .bool false, none⟩] none,
            .group .or [] none] none))
      = ⟨"t", ⟨"(!A.Matches(@0, t) or (B == NULL and C == @1))", [.text "x", .bool false]⟩⟩ := by
  intro entries
  have hcode : Operators.normalForm " MATCHES " = Operators.normalForm "matches" := by decide
  have h : (Operators.empty.insertAll entries).IsPositional := by
    apply Operators.isPositional_insert (Emitter.isPositional_call "Matches" true)
    intro other hne
    show ((Operators.empty.insert "matches" _).find other).IsPositional
    rw [Operators.find_insert, if_neg fun he => hne (hcode.trans he), Operators.find_empty]
    exact Emitter.isPositional_comparison _
  refine ⟨h, ?_⟩
  rw [(build_eq_render entries h _ _).2.1]
  decide +kernel

end SavedFilter
