import SavedFilter.Proofs.Query.Forms

/-!
# What composing puts into the buffer

The emitters of a table may be of any kind here, and each may look at all that the buffer holds when
its turn comes.  Still

* `exists_of_compose?`   what is composed stands behind what the buffer held, and has a text;
* `compose?_eq_none`     a rule without a usable condition puts nothing there;
* `isSome_compose?`      where no emitter is silent, every other rule puts something there;

and so of the query of a rule

* `values_query_of_text_eq`   a query without text binds nothing;
* `isValid_of_text_query`     a rule whose query has a text has a usable condition;
* `text_query_ne_iff`         where no emitter is silent, the converse holds too.
-/

set_option linter.unusedSectionVars false

namespace SavedFilter

/-- no emitter that a condition can reach in the table is ever silent -/
def Operators.Speaks (ops : Operators) : Prop := ∀ code c b, (ops.find code c b).text ≠ ""

theorem Form.text_emitter_ne (f : Form) (c : Condition) (b : Buffer) :
    (f.emitter c b).text ≠ "" := by
  rw [f.isPositional_emitter.eq_emit]
  exact f.text_emit_ne b.token b.next c

theorem Operators.OfForms.speaks {ops : Operators} (h : ops.OfForms) : ops.Speaks := by
  intro code c b
  obtain ⟨f, hf⟩ := h code
  rw [hf]
  exact f.text_emitter_ne c b

section
variable {ops : Operators}

theorem Condition.compose?_eq_some {c : Condition} {b longer : Buffer} :
    c.compose? ops b = some longer ↔
      c.isUsable = true ∧ (ops.find c.operatorCode c b).text ≠ "" ∧
        b.add (ops.find c.operatorCode c b) = longer := by
  unfold compose?
  by_cases hu : c.isUsable = true
  · by_cases ht : (ops.find c.operatorCode c b).text = "" <;>
      simp [hu, ht, Query.isEmpty_iff]
  · simp [hu]

namespace Rule

/-! ## nothing is lost -/

mutual

/-- what is composed stands behind what the buffer held, and it has a text -/
theorem exists_of_compose? : ∀ {r : Rule} {b longer : Buffer}, r.compose? ops b = some longer →
    ∃ q : Query, q.text ≠ "" ∧ longer = b.add q
  | .condition c, b, longer, h => by
    obtain ⟨-, ht, rfl⟩ := Condition.compose?_eq_some.mp h
    exact ⟨_, ht, rfl⟩
  | .group join members tag, b, longer, h => by
    obtain ⟨inner, hinner, rfl⟩ := Option.map_eq_some_iff.mp h
    obtain ⟨q, -, rfl⟩ := exists_of_composeAll? hinner
    refine ⟨⟨"(", []⟩ ++ q ++ ⟨")", []⟩, ?_, ?_⟩
    · intro he
      exact absurd (String.append_eq_empty_iff.mp he).2 (by decide)
    · simp only [Buffer.write, Buffer.add_add]

/-- the same of the members of a group; where one has been written before, there may be no more -/
theorem exists_of_composeAll? {join : Join} : ∀ {rs : List Rule} {b longer : Buffer}
    {started : Bool}, composeAll? ops join b started rs = some longer →
    ∃ q : Query, (started = false → q.text ≠ "") ∧ longer = b.add q
  | [], b, longer, started, h => by
    rw [composeAll?_nil] at h
    cases started with
    | false => exact nomatch h
    | true =>
      obtain rfl := Option.some.inj h
      exact ⟨.none, fun hs => absurd hs (by decide), b.add_none.symm⟩
  | r :: rs, b, longer, started, h => by
    rw [composeAll?] at h
    cases hr : r.compose? ops (if started then b.write (separator join) else b) with
    | none =>
      rw [hr] at h
      exact exists_of_composeAll? h
    | some next =>
      rw [hr] at h
      obtain ⟨q, hq, rfl⟩ := exists_of_compose? hr
      obtain ⟨p, -, rfl⟩ := exists_of_composeAll? h
      cases started with
      | false =>
        refine ⟨q ++ p, fun _ he => hq (String.append_eq_empty_iff.mp he).1, ?_⟩
        exact Buffer.add_add b q p
      | true =>
        refine ⟨⟨separator join, []⟩ ++ q ++ p, fun hs => absurd hs (by decide), ?_⟩
        simp only [if_true, Buffer.write, Buffer.add_add]

end

/-- behind a member that has been written a group is never taken back -/
theorem exists_composeAll?_started (join : Join) (rs : List Rule) (b : Buffer) :
    ∃ last, composeAll? ops join b true rs = some last := by
  induction rs generalizing b with
  | nil => exact ⟨b, rfl⟩
  | cons r rs ih =>
    rw [composeAll?]
    cases r.compose? ops (if true then b.write (separator join) else b) with
    | none => exact ih b
    | some longer => exact ih longer

/-! ## rules without a usable condition -/

mutual

/-- a rule without a usable condition leaves the buffer as it is -/
theorem compose?_eq_none : ∀ (r : Rule) (b : Buffer), r.isValid = false → r.compose? ops b = none
  | .condition c, b, h => if_neg (Bool.eq_false_iff.mp h)
  | .group join members tag, b, h => by
    rw [compose?, composeAll?_of_anyValid_eq_false members _ false h]
    rfl

theorem composeAll?_of_anyValid_eq_false {join : Join} : ∀ (rs : List Rule) (b : Buffer)
    (started : Bool), anyValid rs = false →
    composeAll? ops join b started rs = if started then some b else none
  | [], _, _, _ => rfl
  | r :: rs, b, started, h => by
    obtain ⟨hr, hrs⟩ := Bool.or_eq_false_iff.mp h
    rw [composeAll?, compose?_eq_none r _ hr]
    exact composeAll?_of_anyValid_eq_false rs b started hrs

end

/-! ## rules with one -/

section
variable (hops : ops.Speaks)
include hops

mutual

/-- where no emitter is silent, just the rules with a usable condition are written -/
theorem isSome_compose? : ∀ (r : Rule) (b : Buffer), (r.compose? ops b).isSome = r.isValid
  | .condition c, b => by
    have ht : (ops.find c.operatorCode c b).text ≠ "" := hops c.operatorCode c b
    rw [compose?, Condition.compose?, isValid]
    cases c.isUsable <;> simp [Query.isEmpty_iff, ht]
  | .group join members tag, b => by
    rw [compose?, Option.isSome_map, isSome_composeAll? members _ false, Bool.false_or]
    rfl

theorem isSome_composeAll? {join : Join} : ∀ (rs : List Rule) (b : Buffer) (started : Bool),
    (composeAll? ops join b started rs).isSome = (started || anyValid rs)
  | [], b, started => by cases started <;> rfl
  | r :: rs, b, started => by
    have hr := isSome_compose? r (if started then b.write (separator join) else b)
    rw [composeAll?, anyValid_cons, ← hr]
    cases r.compose? ops (if started then b.write (separator join) else b) with
    | none => exact isSome_composeAll? rs b started
    | some next =>
      show (composeAll? ops join next true rs).isSome = (started || true)
      rw [isSome_composeAll? rs next true, Bool.or_true, Bool.true_or]

end

end

/-! ## queries -/

variable (token : String)

/-- a query is nothing at all, or has a text and is what composing has put into an empty buffer -/
theorem query_cases (r : Rule) :
    (r.compose? ops (.empty token) = none ∧ r.query ops token = .none) ∨
      (r.compose? ops (.empty token)).isSome = true ∧ (r.query ops token).text ≠ "" := by
  cases hr : r.compose? ops (.empty token) with
  | none => exact .inl ⟨rfl, by rw [query, hr]; rfl⟩
  | some longer =>
    obtain ⟨q, hq, rfl⟩ := exists_of_compose? hr
    refine .inr ⟨rfl, ?_⟩
    rw [query, hr]
    show (Query.none ++ q).text ≠ ""
    rwa [Query.none_append]

theorem values_query_of_text_eq {r : Rule} (h : (r.query ops token).text = "") :
    (r.query ops token).values = [] := by
  rcases query_cases token r with ⟨-, hq⟩ | ⟨-, hq⟩
  · rw [hq]
    rfl
  · exact absurd h hq

theorem isValid_of_text_query {r : Rule} (h : (r.query ops token).text ≠ "") :
    r.isValid = true := by
  rcases query_cases token r with ⟨-, hq⟩ | ⟨hr, -⟩
  · rw [hq] at h
    exact absurd rfl h
  · by_contra hv
    rw [compose?_eq_none r _ (Bool.eq_false_iff.mpr hv)] at hr
    exact nomatch hr

/-- where no emitter is silent, just the rules with a usable condition have a text -/
theorem text_query_ne_iff (hops : ops.Speaks) (r : Rule) :
    (r.query ops token).text ≠ "" ↔ r.isValid = true := by
  refine ⟨isValid_of_text_query token, ?_⟩
  intro hv
  rcases query_cases token r with ⟨hr, -⟩ | ⟨-, hq⟩
  · have hsome := isSome_compose? hops r (.empty token)
    rw [hr, hv] at hsome
    exact nomatch hsome
  · exact hq

end Rule

end
end SavedFilter
