import SqlTree.Proofs.Bounds.Alike

set_option autoImplicit false

/-!
# Parsers whose bounds suffice

A loop whose turns take tokens ends before the tokens ahead run out, and a part that is reached
after a token has fewer tokens ahead than the whole. So where few tokens are ahead no bound is
reached, and other bounds would not change anything. Both facts are kept together, since they hold
of a parser for the same reason.

## Main definitions

* `SqlTree.Parser.Ample` — no bound is reached where fewer than `k` tokens are ahead.
* `SqlTree.Parser.Tireless` — a parser has no bounds that it could reach.
* `SqlTree.Parser.Settles` — a parser reaches no bound, and another one runs alike, where fewer than
  `k` tokens are ahead.
* `SqlTree.Parser.Guarded` — moreover the parsers take a token before their bounds matter.

## Main results

* `SqlTree.Parser.Settles.iterate` — loops whose steps make progress settle.
-/

namespace SqlTree

namespace Parser

variable {α β : Type} {k : Nat}

/-! ## Bounds that are not reached -/

/-- No bound is reached where fewer than `k` tokens are ahead. -/
def Ample (k : Nat) (parser : Parser α) : Prop :=
  ∀ ⦃dialect cursor error stop⦄, cursor.Ends → cursor.ahead.length < k →
    parser.run dialect cursor = .rejected error stop → error.kind ≠ .exhausted

namespace Ample

variable {parser : Parser α} {next : α → Parser β}

/-- If no bound is reached with some tokens ahead, none is with fewer. -/
lemma mono {m : Nat} (ample : Ample k parser) (le : m ≤ k) : Ample m parser :=
  fun _ _ _ _ ends few => ample ends (Nat.lt_of_lt_of_le few le)

/-- A rejected sequence is rejected in its first or in its second part. -/
lemma of_parts {dialect : Dialect} {cursor stop : Cursor} {error : ParseError}
    (run : (parser >>= next).run dialect cursor = .rejected error stop) (ends : cursor.Ends) :
    parser.run dialect cursor = .rejected error stop ∨
      ∃ value middle, parser.run dialect cursor = .accepted value middle ∧ middle.Ends ∧
        (next value).run dialect middle = .rejected error stop := by
  rw [run_bind] at run
  split at run
  · next value middle first => exact .inr ⟨value, middle, first, ends_of_accepted first ends, run⟩
  · next other place first =>
    obtain ⟨rfl, rfl⟩ : other = error ∧ place = stop := by simpa using run
    exact .inl first

/-- A sequence reaches no bound if its parts do not. -/
lemma bind (first : Ample k parser) (second : ∀ value, Ample k (next value)) :
    Ample k (parser >>= next) := by
  intro dialect cursor error stop ends few run
  obtain rejected | ⟨value, middle, accepted, ends', rejected⟩ := of_parts run ends
  · exact first ends few rejected
  · exact second value ends' (Nat.lt_of_le_of_lt (accepted_length accepted) few) rejected

/-- After a token, fewer tokens are ahead. -/
lemma after (steps : Steps parser) (some : 0 < k) (first : Ample (k + 1) parser)
    (second : ∀ value, Ample k (next value)) : Ample (k + 1) (parser >>= next) := by
  intro dialect cursor error stop ends few run
  obtain rejected | ⟨value, middle, accepted, ends', rejected⟩ := of_parts run ends
  · exact first ends few rejected
  · have := steps accepted
    exact second value ends' (by omega) rejected

/-- A loop ends before the tokens ahead run out, if each turn takes one of them. -/
lemma iterate {σ : Type} {step : σ → Parser (Option σ)} {fuel : Nat}
    (ample : ∀ state, Ample k (step state)) (progress : ∀ state, Progress (step state))
    (enough : k ≤ fuel) (state : σ) : Ample k (iterate step fuel state) := by
  intro dialect cursor error stop ends few run
  replace enough := Nat.lt_of_lt_of_le few enough
  induction fuel generalizing state cursor with
  | zero => exact absurd enough (Nat.not_lt_zero _)
  | succ fuel ih =>
    obtain rejected | ⟨next, middle, accepted, ends', rejected⟩ := of_parts run ends
    · exact ample state ends few rejected
    · cases next with
      | none => cases rejected
      | some next =>
        have := progress state ends accepted
        exact ih next ends' (by omega) rejected (by omega)

end Ample

/-- An error about a token tells of no bound. -/
lemma kind_unexpected_ne (expected : String) (found : Token) :
    (ParseError.unexpected expected found).kind ≠ .exhausted := by
  dsimp only [ParseError.kind]
  split <;> simp

/-- The parser has no bounds that it could reach. -/
class Tireless (parser : Parser α) : Prop where
  ample : ∀ k, Ample k parser

namespace Tireless

variable {parser : Parser α} {next : α → Parser β}

instance (value : α) : Tireless (pure value : Parser α) :=
  ⟨fun _ _ _ _ _ _ _ run => nomatch run⟩

instance (expected : String) : Tireless (unexpected expected : Parser α) where
  ample k dialect cursor error stop _ _ run := by
    obtain ⟨rfl, -⟩ : _ = error ∧ cursor = stop := by simpa [unexpected, Parser.run] using run
    exact kind_unexpected_ne _ _

instance (reason : String) (span : Span) : Tireless (invalid reason span : Parser α) where
  ample k dialect cursor error stop _ _ run := by
    obtain ⟨rfl, -⟩ : _ = error ∧ cursor = stop := by simpa [invalid, Parser.run] using run
    simp [ParseError.kind]

instance (feature : Feature) (construct : String) (span : Span) :
    Tireless (require feature construct span) where
  ample k dialect cursor error stop _ _ run := by
    unfold require at run
    simp only [Parser.run] at run
    split at run
    · cases run
    · obtain ⟨rfl, -⟩ : _ = error ∧ cursor = stop := by simpa using run
      simp [ParseError.kind]

instance : Tireless advance where
  ample k dialect cursor error stop _ _ run := by
    unfold advance at run
    simp only [Parser.run] at run
    split at run
    · obtain ⟨rfl, -⟩ : _ = error ∧ cursor = stop := by simpa using run
      exact kind_unexpected_ne _ _
    · cases run

instance : Tireless view := ⟨fun _ _ _ _ _ _ _ run => nomatch run⟩

instance : Tireless current := ⟨fun _ _ _ _ _ _ _ run => nomatch run⟩

instance : Tireless here := ⟨fun _ _ _ _ _ _ _ run => nomatch run⟩

instance : Tireless isDrift := ⟨fun _ _ _ _ _ _ _ run => nomatch run⟩

instance (test : View → Bool) : Tireless (sees test) := ⟨fun _ _ _ _ _ _ _ run => nomatch run⟩

instance (start : Span) : Tireless (spanFrom start) := ⟨fun _ _ _ _ _ _ _ run => nomatch run⟩

instance (start : Nat) : Tireless (textFrom start) := ⟨fun _ _ _ _ _ _ _ run => nomatch run⟩

instance bind [first : Tireless parser] [second : ∀ value, Tireless (next value)] :
    Tireless (parser >>= next) :=
  ⟨fun k => (first.ample k).bind fun value => (second value).ample k⟩

instance {condition : Prop} [Decidable condition] {first second : Parser α}
    [yes : Tireless first] [no : Tireless second] :
    Tireless (if condition then first else second) := by
  split
  · exact yes
  · exact no

instance (word : Keyword) : Tireless (eatKeyword word) := by
  unfold eatKeyword
  infer_instance

instance (which : Symbol) : Tireless (eatSymbol which) := by
  unfold eatSymbol
  infer_instance

/-- A choice by the next keyword. -/
instance (word : Keyword) {first second : Parser α} [Tireless first] [Tireless second] :
    Tireless (do if ← eatKeyword word then first else second) :=
  have : ∀ taken, Tireless (if taken = true then first else second) := fun _ => inferInstance
  bind

instance (word : Keyword) : Tireless (expectKeyword word) := by
  unfold expectKeyword
  infer_instance

instance (which : Symbol) : Tireless (expectSymbol which) := by
  unfold expectSymbol
  infer_instance

instance (words : List Keyword) : Tireless (expectKeywords words) := by
  induction words with
  | nil => exact inferInstanceAs (Tireless (pure ()))
  | cons word words ih =>
    unfold expectKeywords
    infer_instance

instance (expected : String) : Tireless (expectEnd expected) := by
  unfold expectEnd
  infer_instance

instance : Tireless identifier := by
  unfold identifier
  infer_instance

instance (word : Keyword) [part : Tireless parser] : Tireless (afterKeyword word parser) := by
  unfold afterKeyword
  infer_instance

instance (test : View → Bool) [part : Tireless parser] : Tireless (whenever test parser) := by
  unfold whenever
  infer_instance

end Tireless

/-! ## Settling -/

/-- The first parser reaches no bound, and the second one runs alike, where fewer than `k` tokens
are ahead. -/
structure Settles (k : Nat) (p q : Parser α) : Prop where
  alike : Alike k p q
  ample : Ample k p

namespace Settles

variable {p q : Parser α} {f g : α → Parser β}

/-- A parser without bounds settles with itself. -/
lemma refl (p : Parser α) [tireless : Tireless p] : Settles k p p :=
  ⟨.refl p, tireless.ample k⟩

/-- Parsers settle that do what a parser without bounds does. -/
lemma of_run (plain : Parser α) [tireless : Tireless plain]
    (first : ∀ ⦃dialect cursor⦄, cursor.Ends → cursor.ahead.length < k →
      p.run dialect cursor = plain.run dialect cursor)
    (second : ∀ ⦃dialect cursor⦄, cursor.Ends → cursor.ahead.length < k →
      q.run dialect cursor = plain.run dialect cursor) : Settles k p q where
  alike _ _ ends few := (first ends few).trans (second ends few).symm
  ample _ _ _ _ ends few run := tireless.ample k ends few ((first ends few).symm.trans run)

/-- Parsers that settle with some tokens ahead settle with fewer. -/
lemma mono {m : Nat} (settles : Settles k p q) (le : m ≤ k) : Settles m p q :=
  ⟨settles.alike.mono le, settles.ample.mono le⟩

/-- Sequences settle if their parts do. -/
lemma bind (first : Settles k p q) (second : ∀ value, Settles k (f value) (g value)) :
    Settles k (p >>= f) (q >>= g) :=
  ⟨first.alike.bind fun value => (second value).alike,
    first.ample.bind fun value => (second value).ample⟩

/-- A part that is the same in both. -/
lemma skip [Tireless p] (second : ∀ value, Settles k (f value) (g value)) :
    Settles k (p >>= f) (p >>= g) :=
  (refl p).bind second

/-- Choices settle if their branches do. -/
lemma ite {condition : Prop} [Decidable condition] {p' q' : Parser α} (yes : Settles k p q)
    (no : Settles k p' q') :
    Settles k (if condition then p else p') (if condition then q else q') := by
  split
  · exact yes
  · exact no

/-- A part that may be left out settles if the part does. -/
lemma whenever {test : View → Bool} (part : Settles k p q) :
    Settles k (whenever test p) (whenever test q) := by
  refine .skip fun seen => .ite ?_ (refl _)
  exact .bind part fun _ => refl _

/-- A part after a keyword settles if the part does. -/
lemma afterKeyword {word : Keyword} (part : Settles k p q) :
    Settles k (afterKeyword word p) (afterKeyword word q) := by
  refine .skip fun taken => .ite ?_ (refl _)
  exact .bind part fun _ => refl _

/-- A part in parentheses settles if the part does. -/
lemma parenthesized (part : Settles k p q) : Settles k (parenthesized p) (parenthesized q) := by
  refine .skip fun _ => ?_
  refine .bind part fun value => ?_
  exact refl _

/-- **Loops settle** if each turn takes a token and the bounds suffice for the tokens ahead. -/
lemma iterate {σ : Type} {step step' : σ → Parser (Option σ)} {fuel fuel' : Nat}
    (settles : ∀ state, Settles k (step state) (step' state))
    (progress : ∀ state, Progress (step state)) (enough : k ≤ fuel) (enough' : k ≤ fuel')
    (state : σ) : Settles k (iterate step fuel state) (iterate step' fuel' state) :=
  ⟨.iterate (fun state => (settles state).alike) progress enough enough' state,
    .iterate (fun state => (settles state).ample) progress enough state⟩

/-- Repetitions settle if their steps do and make progress, and the bounds suffice. -/
lemma many {step step' : Parser (Option α)} {fuel fuel' : Nat} (settles : Settles k step step')
    (progress : Progress step) (enough : k ≤ fuel) (enough' : k ≤ fuel') :
    Settles k (many fuel step) (many fuel' step') := by
  have turn (parts : List α) : Settles k (collect step parts) (collect step' parts) :=
    .bind settles fun _ => .refl _
  unfold Parser.many
  refine .bind (.iterate turn (fun parts => progress.collect parts) enough enough' []) ?_
  exact fun parts => .refl _

/-- Lists settle if their parts do: a further part comes after a comma, so each turn makes
progress. -/
lemma commaSeparated {fuel fuel' : Nat} (part : Settles k p q) (enough : k ≤ fuel)
    (enough' : k ≤ fuel') : Settles k (commaSeparated fuel p) (commaSeparated fuel' q) := by
  refine .bind part fun first => ?_
  refine .bind (.many (.skip fun _ => .ite (.bind part fun _ => .refl _) (.refl _)) (.afterSymbol p)
    enough enough') fun rest => ?_
  exact .refl _

end Settles

/-! ## Guarded parsers -/

/-- The parsers settle with one more token ahead, and take a token. -/
structure Guarded (k : Nat) (p q : Parser α) : Prop where
  settles : Settles (k + 1) p q
  steps : Steps p

namespace Guarded

variable {p q : Parser α} {f g : α → Parser β}

/-- Guarded parsers settle. -/
lemma weaken (guarded : Guarded k p q) : Settles k p q :=
  guarded.settles.mono (Nat.le_succ k)

/-- What follows a guarded parser need not be guarded. -/
lemma bind (first : Guarded k p q) (some : 0 < k)
    (second : ∀ value, Settles k (f value) (g value)) : Guarded k (p >>= f) (q >>= g) where
  steps := first.steps.bind
  settles := ⟨.after first.steps some first.settles.alike fun value => (second value).alike,
    .after first.steps some first.settles.ample fun value => (second value).ample⟩

/-- A part that is the same in both, before a guarded parser. -/
lemma skip [Tireless p] (second : ∀ value, Guarded k (f value) (g value)) :
    Guarded k (p >>= f) (p >>= g) :=
  ⟨.skip fun value => (second value).settles, .skip fun value => (second value).steps⟩

/-- A parser without bounds that takes a token is guarded. -/
lemma of_steps [Tireless p] (steps : Steps p) : Guarded k p p :=
  ⟨.refl p, steps⟩

/-- Choices are guarded if their branches are. -/
lemma ite {condition : Prop} [Decidable condition] {p' q' : Parser α} (yes : Guarded k p q)
    (no : Guarded k p' q') :
    Guarded k (if condition then p else p') (if condition then q else q') :=
  ⟨.ite yes.settles no.settles, .ite yes.steps no.steps⟩

/-- After a token the parsers need only settle. -/
lemma after [Tireless p] (steps : Steps p) (some : 0 < k)
    (second : ∀ value, Settles k (f value) (g value)) : Guarded k (p >>= f) (p >>= g) :=
  (of_steps steps).bind some second

/-- After a symbol that is there the parsers need only settle. -/
lemma eatSymbol {which : Symbol} {f g : Bool → Parser β} (some : 0 < k)
    (yes : Settles k (f true) (g true)) (no : Guarded k (f false) (g false)) :
    Guarded k (eatSymbol which >>= f) (eatSymbol which >>= g) where
  settles := by
    have fewer {cursor : Cursor} (few : cursor.ahead.length < k + 1) :
        cursor.advance.ahead.length < k := by
      simp only [Cursor.advance_ahead, List.length_tail]
      omega
    constructor
    · intro dialect cursor ends few
      rw [run_eatSymbol_bind, run_eatSymbol_bind]
      split
      · exact yes.alike ends.advance (fewer few)
      · exact no.settles.alike ends few
    · intro dialect cursor error stop ends few run
      rw [run_eatSymbol_bind] at run
      split at run
      · exact yes.ample ends.advance (fewer few) run
      · exact no.settles.ample ends few run
  steps := by
    intro dialect cursor value stop run
    rw [run_eatSymbol_bind] at run
    split at run
    · have := accepted_length run
      simpa only [Cursor.advance_ahead, List.length_tail] using this
    · exact no.steps run

end Guarded

end Parser

end SqlTree
