import SqlTree.Proofs.Run

set_option autoImplicit false

/-!
# Parsers that run alike

Two parsers run alike on few tokens if they cannot be told apart where fewer than some number of
tokens is ahead. Parsers that differ only in the bounds on their loops and on their depth do so, as
each turn of a loop takes a token, and each part inside another one is reached after a token.

## Main definitions

* `SqlTree.Parser.Alike` — two parsers run alike where fewer than `k` tokens are ahead.
* `SqlTree.Parser.Steps` — what a parser accepts has at least one token.
* `SqlTree.Parser.Progress` — a step that goes on takes a token.

## Main results

* `SqlTree.Parser.Alike.iterate` — loops whose steps make progress run alike.
-/

namespace SqlTree

/-- Behind the last token is the end of input. -/
def Cursor.Ends (cursor : Cursor) : Prop :=
  cursor.last.kind = .endOfInput

/-- Going on by a token keeps the end of input at the end. -/
lemma Cursor.Ends.advance {cursor : Cursor} (ends : cursor.Ends) : cursor.advance.Ends := by
  unfold Cursor.Ends
  rwa [Cursor.advance_last]

namespace Parser

variable {α β : Type} {k : Nat}

/-- Where a run stops, the tokens still end with the end of input: a run only goes on. -/
lemma ends_of_accepted {dialect : Dialect} {parser : Parser α} {cursor stop : Cursor} {value : α}
    (run : parser.run dialect cursor = .accepted value stop) (ends : cursor.Ends) :
    stop.Ends := by
  obtain ⟨count, rfl⟩ := accepted_advances parser run
  unfold Cursor.Ends at ends ⊢
  rwa [(Cursor.iterate_advance cursor count).2.1]

/-- Where a token of another kind is next, a token is ahead. -/
lemma ahead_of_ends {cursor : Cursor} (ends : cursor.Ends)
    (kind : cursor.current.kind ≠ .endOfInput) : 0 < cursor.ahead.length := by
  rw [List.length_pos_iff]
  intro empty
  apply kind
  unfold Cursor.current Cursor.peek
  rw [empty]
  exact ends

/-! ## Taking tokens -/

/-- What the parser accepts has at least one token, unless there is none. -/
def Steps (parser : Parser α) : Prop :=
  ∀ ⦃dialect cursor value stop⦄, parser.run dialect cursor = .accepted value stop →
    stop.ahead.length ≤ cursor.ahead.length - 1

/-- A step that goes on takes a token. -/
def Progress (parser : Parser (Option α)) : Prop :=
  ∀ ⦃dialect cursor value stop⦄, cursor.Ends →
    parser.run dialect cursor = .accepted (some value) stop →
      stop.ahead.length < cursor.ahead.length

namespace Steps

variable {parser : Parser α} {next : α → Parser β}

/-- A sequence takes a token if its first part does. -/
lemma bind (first : Steps parser) : Steps (parser >>= next) := by
  intro dialect cursor value stop run
  obtain ⟨part, middle, one, le, -⟩ := accepted_bind run
  exact Nat.le_trans le (first one)

/-- A sequence takes a token if its second part does. -/
lemma skip (second : ∀ value, Steps (next value)) : Steps (parser >>= next) := by
  intro dialect cursor value stop run
  obtain ⟨part, middle, one, -, two⟩ := accepted_bind run
  have := accepted_length one
  have := second part two
  omega

/-- A parser that accepts nothing takes a token whenever it accepts something. -/
lemma of_unexpected (expected : String) : Steps (unexpected expected : Parser α) :=
  fun _ _ _ _ run => absurd run not_accepted_unexpected

/-- A choice takes a token if both of its branches do. -/
lemma ite {condition : Prop} [Decidable condition] {first second : Parser α}
    (yes : Steps first) (no : Steps second) : Steps (if condition then first else second) := by
  split
  · exact yes
  · exact no

/-- Going on by a token takes it: at the end of input it is not accepted. -/
lemma advance : Steps advance := by
  intro dialect cursor value stop run
  rw [← run_bind_pure] at run
  obtain ⟨-, -, run⟩ := accepted_advance run
  obtain ⟨-, rfl⟩ := accepted_pure run
  simp

/-- A required keyword is a token. -/
lemma expectKeyword (word : Keyword) : Steps (expectKeyword word) := by
  unfold Parser.expectKeyword
  exact .skip fun _ => .ite (.bind advance) (.of_unexpected _)

/-- A required symbol is a token. -/
lemma expectSymbol (which : Symbol) : Steps (expectSymbol which) := by
  unfold Parser.expectSymbol
  exact .skip fun _ => .ite (.bind advance) (.of_unexpected _)

/-- A name is a token. -/
lemma identifier : Steps identifier := by
  unfold Parser.identifier
  exact .skip fun _ => .ite (.bind advance) (.of_unexpected _)

end Steps

/-! ## Running alike -/

/-- The parsers run alike where fewer than `k` tokens are ahead. -/
def Alike (k : Nat) (p q : Parser α) : Prop :=
  ∀ ⦃dialect cursor⦄, cursor.Ends → cursor.ahead.length < k →
    p.run dialect cursor = q.run dialect cursor

/-- A loop that collects what its steps yield makes progress. -/
lemma Progress.collect {step : Parser (Option α)} (progress : Progress step) (parts : List α) :
    Progress (do return (← step).map (· :: parts)) := by
  intro dialect cursor value stop ends run
  obtain ⟨next, middle, inner, -, last⟩ := accepted_bind run
  obtain ⟨eq, rfl⟩ := accepted_pure last
  obtain ⟨part, rfl, -⟩ := Option.map_eq_some_iff.mp eq
  exact progress ends inner

namespace Alike

variable {p q : Parser α} {f g : α → Parser β}

/-- A parser runs like itself. -/
lemma refl (p : Parser α) : Alike k p p :=
  fun _ _ _ _ => rfl

/-- Parsers that run alike with some tokens ahead do so with fewer. -/
lemma mono {m : Nat} (alike : Alike k p q) (le : m ≤ k) : Alike m p q :=
  fun _ _ ends few => alike ends (Nat.lt_of_lt_of_le few le)

/-- Sequences run alike if their parts do: after the first part no more tokens are ahead than
before. -/
lemma bind (first : Alike k p q) (second : ∀ value, Alike k (f value) (g value)) :
    Alike k (p >>= f) (q >>= g) := by
  intro dialect cursor ends few
  rw [run_bind, run_bind, ← first ends few]
  split
  · next run =>
    exact second _ (ends_of_accepted run ends) (Nat.lt_of_le_of_lt (accepted_length run) few)
  · rfl

/-- After a token, fewer tokens are ahead. -/
lemma after (steps : Steps p) (some : 0 < k) (first : Alike (k + 1) p q)
    (second : ∀ value, Alike k (f value) (g value)) : Alike (k + 1) (p >>= f) (q >>= g) := by
  intro dialect cursor ends few
  rw [run_bind, run_bind, ← first ends few]
  split
  · next run =>
    have := steps run
    exact second _ (ends_of_accepted run ends) (by omega)
  · rfl

/-- **Loops run alike** if each turn takes a token and the bounds suffice for the tokens ahead. -/
lemma iterate {σ : Type} {step step' : σ → Parser (Option σ)} {fuel fuel' : Nat}
    (alike : ∀ state, Alike k (step state) (step' state))
    (progress : ∀ state, Progress (step state))
    (enough : k ≤ fuel) (enough' : k ≤ fuel') (state : σ) :
    Alike k (iterate step fuel state) (iterate step' fuel' state) := by
  intro dialect cursor ends few
  replace enough := Nat.lt_of_lt_of_le few enough
  replace enough' := Nat.lt_of_lt_of_le few enough'
  induction fuel generalizing state cursor fuel' with
  | zero => exact absurd enough (Nat.not_lt_zero _)
  | succ fuel ih =>
    obtain ⟨fuel', rfl⟩ : ∃ more, fuel' = more + 1 := ⟨fuel' - 1, by omega⟩
    rw [Parser.iterate, Parser.iterate, run_bind, run_bind, ← alike state ends few]
    split
    · next next stop run =>
      cases next with
      | none => rfl
      | some next =>
        have := progress state ends run
        exact ih next (ends_of_accepted run ends) (by omega) (by omega) (by omega)
    · rfl

/-- Repetitions run alike if their steps do and make progress, and the bounds suffice. -/
lemma many {step step' : Parser (Option α)} {fuel fuel' : Nat} (alike : Alike k step step')
    (progress : Progress step) (enough : k ≤ fuel) (enough' : k ≤ fuel') :
    Alike k (many fuel step) (many fuel' step') := by
  have turn (parts : List α) : Alike k (collect step parts) (collect step' parts) :=
    .bind alike fun _ => .refl _
  unfold Parser.many
  refine .bind (.iterate turn (fun parts => progress.collect parts) enough enough' []) ?_
  exact fun parts => .refl _

end Alike

/-! ## Progress -/

namespace Progress

variable {parser : Parser (Option α)}

/-- What comes after a symbol makes progress, since the symbol is a token. -/
lemma afterSymbol {which : Symbol} (part : Parser α) :
    Progress (do if ← eatSymbol which then return some (← part) else return none) := by
  intro dialect cursor value stop ends run
  rw [run_eatSymbol_bind] at run
  split at run
  · next at_ =>
    have := accepted_length run
    have some := @ahead_of_ends cursor ends (by
      change cursor.current.isSymbol which = true at at_
      unfold Token.isSymbol at at_
      intro kind
      rw [kind] at at_
      exact absurd at_ Bool.false_ne_true)
    simp only [Cursor.advance_ahead, List.length_tail] at this
    omega
  · exact absurd (accepted_pure run).1 (by simp)

/-- A part that is there where a keyword is. -/
lemma whenKeyword {test : View → Bool} {part : Parser α} (steps : Steps part)
    (keyword : ∀ view, test view = true → view.current.kind ≠ .endOfInput) :
    Progress (whenever test part) := by
  intro dialect cursor value stop ends run
  unfold Parser.whenever at run
  rw [run_sees_bind] at run
  split at run
  · next at_ =>
    obtain ⟨value, middle, inner, -, last⟩ := accepted_bind run
    obtain ⟨-, rfl⟩ := accepted_pure last
    have := steps inner
    have := ahead_of_ends ends (keyword _ at_)
    omega
  · exact absurd (accepted_pure run).1 (by simp)

end Progress

end Parser

end SqlTree
