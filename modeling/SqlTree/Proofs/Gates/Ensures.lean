import SqlTree.Proofs.Run

set_option autoImplicit false

/-!
# What a parser ensures about its values

A parser ensures a property in a dialect if every value that it accepts there has the property. What
a sequence ensures follows from what its parts ensure; a part that adds nothing to the value is
skipped. The tokens ahead are known to fit the dialect: two asterisks are one symbol only where the
drift extensions are read.

## Main definitions

* `SqlTree.Cursor.Fits` — the tokens ahead fit a dialect.
* `SqlTree.Parser.Ensures` — all values of a parser have a property, in a dialect.

## Main results

* `SqlTree.Parser.Ensures.bind`, `SqlTree.Parser.Ensures.require` — sequences and demands.
* `SqlTree.Parser.Ensures.iterate` — loops keep their invariants.
-/

namespace SqlTree

/-! ## Tokens that fit a dialect -/

/-- A token that is some symbol is of its kind. -/
lemma Token.kind_of_isSymbol {token : Token} {which : Symbol}
    (is : token.isSymbol which = true) : token.kind = .symbol which := by
  unfold Token.isSymbol at is
  split at is
  · next found kind => rw [kind, eq_of_beq is]
  · exact absurd is Bool.false_ne_true

/-- The tokens ahead hold two asterisks as one symbol only if the drift extensions are read. -/
def Cursor.Fits (dialect : Dialect) (cursor : Cursor) : Prop :=
  ∀ distance, (cursor.peek distance).kind = .symbol .doubleStar → dialect.isDrift = true

/-- Tokens that fit a dialect fit it further on. -/
lemma Cursor.Fits.iterate {dialect : Dialect} {cursor : Cursor} (fits : cursor.Fits dialect)
    (count : Nat) : (Cursor.advance^[count] cursor).Fits dialect := by
  induction count with
  | zero => exact fits
  | succ count ih =>
    rw [Function.iterate_succ_apply']
    intro distance
    rw [Cursor.peek_advance]
    exact ih _

namespace Parser

variable {α β : Type} {dialect : Dialect}

/-- Every value that the parser accepts in the dialect has this property. -/
def Ensures (dialect : Dialect) (parser : Parser α) (property : α → Prop) : Prop :=
  ∀ ⦃cursor value stop⦄, cursor.Fits dialect →
    parser.run dialect cursor = .accepted value stop → property value

namespace Ensures

variable {property weaker : α → Prop} {later : β → Prop} {parser : Parser α}

/-- What ensures a property ensures any weaker one. -/
lemma mono (ensures : Ensures dialect parser property)
    (weakens : ∀ value, property value → weaker value) : Ensures dialect parser weaker :=
  fun _ _ _ fits run => weakens _ (ensures fits run)

/-! ### Sequences -/

/-- A sequence ensures what its second part does for the values that the first one ensures. -/
lemma bind {next : α → Parser β} (first : Ensures dialect parser property)
    (second : ∀ value, property value → Ensures dialect (next value) later) :
    Ensures dialect (parser >>= next) later := by
  intro cursor value stop fits run
  obtain ⟨part, middle, firstRun, -, secondRun⟩ := accepted_bind run
  obtain ⟨count, rfl⟩ := accepted_advances parser firstRun
  exact second part (first fits firstRun) (fits.iterate count) secondRun

/-- A part that says nothing about the value of the whole. -/
lemma skip {next : α → Parser β} (second : ∀ value, Ensures dialect (next value) later) :
    Ensures dialect (parser >>= next) later := by
  have anything : Ensures dialect parser fun _ => True := fun _ _ _ _ _ => trivial
  exact anything.bind fun value _ => second value

/-- A value that has the property is ensured to have it. -/
lemma of_pure {value : α} (holds : property value) :
    Ensures dialect (pure value : Parser α) property := by
  intro cursor other stop fits run
  obtain ⟨rfl, -⟩ := accepted_pure run
  exact holds

/-- What accepts nothing ensures anything. -/
lemma of_unexpected (expected : String) :
    Ensures dialect (unexpected expected : Parser α) property :=
  fun _ _ _ _ run => absurd run not_accepted_unexpected

/-- A complaint accepts nothing, so it ensures anything. -/
lemma of_invalid (reason : String) (span : Span) :
    Ensures dialect (invalid reason span : Parser α) property :=
  fun _ _ _ _ run => absurd run not_accepted_invalid

/-- A bound that is reached accepts nothing, so it ensures anything. -/
lemma of_exhausted : Ensures dialect (exhausted : Parser α) property :=
  fun _ _ _ _ run => absurd run not_accepted_exhausted

/-- A choice ensures what both of its branches do, each where it is taken. -/
lemma ite {condition : Prop} [Decidable condition] {first second : Parser α}
    (yes : condition → Ensures dialect first property)
    (no : ¬ condition → Ensures dialect second property) :
    Ensures dialect (if condition then first else second) property := by
  split
  · next holds => exact yes holds
  · next fails => exact no fails

/-! ### The dialect and the tokens ahead -/

/-- After a demand the dialect is known to have the feature. -/
lemma require {feature : Feature} {construct : String} {span : Span} {next : Unit → Parser α}
    (rest : dialect.supports feature = true → Ensures dialect (next ()) property) :
    Ensures dialect (require feature construct span >>= next) property := by
  intro cursor value stop fits run
  obtain ⟨supported, run⟩ := accepted_require run
  exact rest supported fits run

/-- Asking for the drift extensions tells whether the dialect has them. -/
lemma isDrift {next : Bool → Parser α}
    (rest : Ensures dialect (next (dialect.supports .driftExtensions)) property) :
    Ensures dialect (isDrift >>= next) property :=
  fun _ _ _ fits run => rest fits run

/-- Of the tokens in sight it is known how they fit the dialect. -/
lemma view {next : View → Parser α}
    (rest : ∀ view : View, (view.third.kind = .symbol .doubleStar → dialect.isDrift = true) →
      Ensures dialect (next view) property) :
    Ensures dialect (view >>= next) property :=
  fun cursor _ _ fits run => rest cursor.view (fits 2) fits run

/-! ### Optional parts -/

/-- A part after a keyword has the property, if it is there. -/
lemma afterKeyword {word : Keyword} (part : Ensures dialect parser property) :
    Ensures dialect (afterKeyword word parser) fun value => ∀ part ∈ value, property part := by
  unfold Parser.afterKeyword
  refine .skip fun taken => .ite (fun _ => ?_) fun _ => of_pure (by simp)
  exact .bind part fun value holds => of_pure (by simpa using holds)

/-- A part that may be left out has the property, if it is there. -/
lemma whenever {test : View → Bool} (part : Ensures dialect parser property) :
    Ensures dialect (whenever test parser) fun value => ∀ part ∈ value, property part := by
  unfold Parser.whenever
  refine .skip fun seen => .ite (fun _ => ?_) fun _ => of_pure (by simp)
  exact .bind part fun value holds => of_pure (by simpa using holds)

/-- A part in parentheses has the property. -/
lemma parenthesized (part : Ensures dialect parser property) :
    Ensures dialect (parenthesized parser) property := by
  unfold Parser.parenthesized
  refine .skip fun _ => ?_
  refine .bind part fun value holds => ?_
  refine .skip fun _ => ?_
  exact of_pure holds

/-! ### Repeated parts -/

/-- A loop keeps what each of its steps keeps. -/
lemma iterate {σ : Type} {invariant : σ → Prop} {step : σ → Parser (Option σ)}
    (keeps : ∀ state, invariant state →
      Ensures dialect (step state) fun next => ∀ state ∈ next, invariant state)
    (fuel : Nat) {state : σ} (starts : invariant state) :
    Ensures dialect (iterate step fuel state) invariant := by
  induction fuel generalizing state with
  | zero => exact of_exhausted
  | succ fuel ih =>
    refine .bind (keeps state starts) fun next kept => ?_
    cases next with
    | none => exact of_pure starts
    | some state => exact ih (kept state rfl)

/-- What is repeated has the property, each time. -/
lemma many {step : Parser (Option α)}
    (each : Ensures dialect step fun value => ∀ part ∈ value, property part) (fuel : Nat) :
    Ensures dialect (many fuel step) fun parts => ∀ part ∈ parts, property part := by
  unfold Parser.many
  have keeps (parts : List α) (holds : ∀ part ∈ parts, property part) :
      Ensures dialect (do return (← step).map (· :: parts))
        fun next => ∀ parts ∈ next, ∀ part ∈ parts, property part := by
    refine .bind each fun value ok => of_pure ?_
    cases value with
    | none => simp
    | some part => simpa using ⟨ok part rfl, holds⟩
  refine .bind (iterate keeps fuel (by simp)) fun parts holds => of_pure ?_
  simpa using holds

/-- Each element of a list has the property. -/
lemma commaSeparated (part : Ensures dialect parser property) (fuel : Nat) :
    Ensures dialect (commaSeparated fuel parser) fun parts => ∀ part ∈ parts, property part := by
  unfold Parser.commaSeparated
  have more : Ensures dialect
      (do if ← eatSymbol .comma then return some (← parser) else return none)
      fun value => ∀ part ∈ value, property part := by
    refine .skip fun taken => .ite (fun _ => ?_) fun _ => of_pure (by simp)
    exact .bind part fun value ok => of_pure (by simpa using ok)
  refine .bind part fun first holds => ?_
  refine .bind (many more fuel) fun rest others => ?_
  refine of_pure ?_
  simpa using ⟨holds, others⟩

end Ensures

end Parser

end SqlTree
