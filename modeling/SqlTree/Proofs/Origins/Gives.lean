import SqlTree.Proofs.Lists

set_option autoImplicit false

/-!
# What a parser gives

A parser gives a property at a site if every value has the property that it accepts from one of the
places there, whatever the tokens are. What a sequence gives follows from what its parts give; a
part that adds nothing to the value is skipped. Some values only have a property if what follows
them ends them.

## Main definitions

* `SqlTree.Site` — places to read from, in a dialect.
* `SqlTree.Parser.Gives` — all values of a parser have a property, at a site.
* `SqlTree.Parser.GivesBefore` — so have all values before places of some kind.

## Main results

* `SqlTree.Parser.GivesBefore.bind`, `SqlTree.Parser.GivesBefore.skip` — sequences.
* `SqlTree.Parser.GivesBefore.iterate` — loops keep their invariants.
* `SqlTree.Parser.GivesBefore.manyBefore` — lists, of which each part ends before the next one.
-/

namespace SqlTree

/-- Places to read from, in a dialect. After each of them come only such places. -/
structure Site where
  dialect : Dialect
  holds : Cursor → Prop
  advance : ∀ {cursor}, holds cursor → holds cursor.advance

namespace Site

/-- All places. -/
def anywhere (dialect : Dialect) : Site :=
  ⟨dialect, fun _ => True, fun _ => trivial⟩

/-- The places of a source. -/
def within (dialect : Dialect) (source : String) : Site :=
  ⟨dialect, fun cursor => cursor.Reachable dialect.isDrift ∧ cursor.source = source,
    fun ⟨reached, eq⟩ => ⟨reached.advance, by rw [Cursor.advance_source, eq]⟩⟩

variable {site : Site} {α : Type} {parser : Parser α} {cursor stop : Cursor} {value : α}

/-- A run that is accepted stays at a place of the site. -/
lemma holds_of_accepted (here : site.holds cursor)
    (run : parser.run site.dialect cursor = .accepted value stop) : site.holds stop := by
  obtain ⟨count, rfl⟩ := Parser.accepted_advances parser run
  clear run
  induction count with
  | zero => exact here
  | succ count ih => rw [Function.iterate_succ_apply']; exact site.advance ih

end Site

namespace Parser

variable {α β : Type} {site : Site}

/-- Every value has this property that the parser accepts at the site before places of some kind. -/
def GivesBefore (site : Site) (ends : Cursor → Prop) (parser : Parser α) (property : α → Prop) :
    Prop :=
  ∀ ⦃cursor value stop⦄, site.holds cursor → parser.run site.dialect cursor = .accepted value stop →
    ends stop → property value

/-- Every value that the parser accepts at the site has this property. -/
abbrev Gives (site : Site) (parser : Parser α) (property : α → Prop) : Prop :=
  GivesBefore site (fun _ => True) parser property

namespace GivesBefore

variable {ends weakerEnds : Cursor → Prop} {property weaker : α → Prop} {later : β → Prop}
  {parser : Parser α}

/-- What a parser gives may be weakened. -/
lemma mono (gives : GivesBefore site ends parser property)
    (weakens : ∀ value, property value → weaker value) : GivesBefore site ends parser weaker :=
  fun _ _ _ here run ends => weakens _ (gives here run ends)

/-- Where a parser is asked to end may be strengthened. -/
lemma before (gives : GivesBefore site weakerEnds parser property)
    (weakens : ∀ cursor, ends cursor → weakerEnds cursor) : GivesBefore site ends parser property :=
  fun _ _ _ here run ends => gives here run (weakens _ ends)

/-- A parser gives two properties if it gives each. -/
lemma and {other : α → Prop} (first : GivesBefore site ends parser property)
    (second : GivesBefore site ends parser other) :
    GivesBefore site ends parser fun value => property value ∧ other value :=
  fun _ _ _ here run last => ⟨first here run last, second here run last⟩

/-! ### Sequences -/

/-- What a sequence gives: its second part, with what the first part gives. -/
lemma bind {next : α → Parser β} (first : Gives site parser property)
    (second : ∀ value, property value → GivesBefore site ends (next value) later) :
    GivesBefore site ends (parser >>= next) later := by
  intro cursor value stop here run last
  obtain ⟨part, middle, firstRun, -, secondRun⟩ := accepted_bind run
  exact second part (first here firstRun trivial) (site.holds_of_accepted here firstRun)
    secondRun last

/-- A part that says nothing about the value of the whole. -/
lemma skip {next : α → Parser β} (second : ∀ value, GivesBefore site ends (next value) later) :
    GivesBefore site ends (parser >>= next) later := by
  have anything : Gives site parser fun _ => True := fun _ _ _ _ _ _ => trivial
  exact anything.bind fun value _ => second value

/-- What is returned without reading has the property if it holds of it. -/
lemma of_pure {value : α} (holds : property value) :
    GivesBefore site ends (pure value : Parser α) property := by
  intro cursor other stop here run last
  obtain ⟨rfl, -⟩ := accepted_pure run
  exact holds

/-- A rejection gives anything. -/
lemma of_unexpected (expected : String) :
    GivesBefore site ends (unexpected expected : Parser α) property :=
  fun _ _ _ _ run => absurd run not_accepted_unexpected

/-- A rejection as invalid gives anything. -/
lemma of_invalid (reason : String) (span : Span) :
    GivesBefore site ends (invalid reason span : Parser α) property :=
  fun _ _ _ _ run => absurd run not_accepted_invalid

/-- Running out of turns gives anything. -/
lemma of_exhausted : GivesBefore site ends (exhausted : Parser α) property :=
  fun _ _ _ _ run => absurd run not_accepted_exhausted

/-- What both branches give, their choice gives. -/
lemma ite {condition : Prop} [Decidable condition] {first second : Parser α}
    (yes : GivesBefore site ends first property) (no : GivesBefore site ends second property) :
    GivesBefore site ends (if condition then first else second) property := by
  split
  · exact yes
  · exact no

/-- The value is the last thing that is read. -/
lemma last {make : α → β} (first : GivesBefore site ends parser property)
    (makes : ∀ value, property value → later (make value)) :
    GivesBefore site ends (do return make (← parser)) later := by
  intro cursor value stop here run ending
  obtain ⟨part, middle, firstRun, -, run⟩ := accepted_bind run
  obtain ⟨rfl, rfl⟩ := accepted_pure run
  exact makes part (first here firstRun ending)

/-- A value that only has a property before places of some kind, where what is read next starts at
such a place. -/
lemma bindBefore {next : α → Parser β} {stops : Cursor → Prop}
    (first : GivesBefore site stops parser property)
    (starts : ∀ value middle result stop,
      (next value).run site.dialect middle = .accepted result stop → ends stop → stops middle)
    (second : ∀ value, property value → GivesBefore site ends (next value) later) :
    GivesBefore site ends (parser >>= next) later := by
  intro cursor value stop here run last
  obtain ⟨part, middle, firstRun, -, secondRun⟩ := accepted_bind run
  exact second part (first here firstRun (starts _ _ _ _ secondRun last))
    (site.holds_of_accepted here firstRun) secondRun last

/-- A value that ends before a closing parenthesis. -/
lemma closed {next : α → Parser β} {stops : Cursor → Prop}
    (first : GivesBefore site stops parser property)
    (closes : ∀ cursor : Cursor, cursor.view.atSymbol .rightParen = true → stops cursor)
    (second : ∀ value, property value → GivesBefore site ends (next value) later) :
    GivesBefore site ends (do let value ← parser; let _ ← expectSymbol .rightParen; next value)
      later := by
  refine .bindBefore first (fun _ _ _ _ run _ => closes _ (accepted_expectSymbol run).1)
    fun value holds => ?_
  refine .skip fun _ => ?_
  exact second value holds

/-- What stands in parentheses is given where a closing parenthesis ends it. -/
lemma parenthesized {stops : Cursor → Prop} (part : GivesBefore site stops parser property)
    (closes : ∀ cursor : Cursor, cursor.view.atSymbol .rightParen = true → stops cursor) :
    GivesBefore site ends (parenthesized parser) property := by
  unfold Parser.parenthesized
  refine .skip fun _ => ?_
  refine .closed part closes fun value holds => ?_
  exact .of_pure holds

/-! ### Optional parts -/

/-- What follows a keyword is given, if the keyword is there. -/
lemma afterKeyword {word : Keyword} (part : Gives site parser property) :
    Gives site (afterKeyword word parser) fun value => ∀ part ∈ value, property part := by
  unfold Parser.afterKeyword
  refine .skip fun taken => .ite ?_ (.of_pure (by simp))
  exact .bind part fun value holds => .of_pure (by simpa using holds)

/-- What is read under a test is given, if the test holds. -/
lemma whenever {test : View → Bool} (part : GivesBefore site ends parser property) :
    GivesBefore site ends (Parser.whenever test parser)
      fun value => ∀ part ∈ value, property part := by
  unfold Parser.whenever
  refine .skip fun seen => .ite ?_ (.of_pure (by simp))
  exact .last part fun value holds => by simpa using holds

/-! ### Repeated parts -/

/-- A loop keeps what each of its steps keeps. -/
lemma iterate {σ : Type} {invariant : σ → Prop} {step : σ → Parser (Option σ)}
    (keeps : ∀ state, invariant state →
      Gives site (step state) fun next => ∀ state ∈ next, invariant state)
    (fuel : Nat) {state : σ} (starts : invariant state) :
    Gives site (iterate step fuel state) invariant := by
  intro cursor value stop here run _
  obtain ⟨place, loops, -⟩ := accepted_iterate run
  clear run
  induction loops with
  | refl => exact starts
  | step first _ ih =>
    exact ih (keeps _ starts here first trivial _ rfl) (site.holds_of_accepted here first)

/-- Parts that each end before the next one, or where the last one does. -/
lemma manyBefore {step : Parser (Option α)}
    (each : GivesBefore site ends step fun value => ∀ part ∈ value, property part)
    (more : ∀ cursor value stop,
      step.run site.dialect cursor = .accepted (some value) stop → ends cursor)
    (done : ∀ cursor stop, step.run site.dialect cursor = .accepted none stop → ends stop →
      ends cursor)
    (fuel : Nat) {cursor stop : Cursor} {parts : List α} (here : site.holds cursor)
    (run : (Parser.many fuel step).run site.dialect cursor = .accepted parts stop)
    (last : ends stop) : ends cursor ∧ ∀ part ∈ parts, property part := by
  obtain ⟨repeated, -⟩ := accepted_many_iff.mp run
  clear run
  induction repeated with
  | nil run => exact ⟨done _ _ run last, by simp⟩
  | cons run later ih =>
    -- the part ends where the rest of the loop starts
    obtain ⟨starts, others⟩ := ih (site.holds_of_accepted here run) last
    exact ⟨more _ _ _ run, List.forall_mem_cons.mpr ⟨each here run starts _ rfl, others⟩⟩

/-- Each of the repeated parts is given, if one turn gives it. -/
lemma many {step : Parser (Option α)}
    (each : Gives site step fun value => ∀ part ∈ value, property part) (fuel : Nat) :
    Gives site (many fuel step) fun parts => ∀ part ∈ parts, property part :=
  fun _ _ _ here run last =>
    (manyBefore each (fun _ _ _ _ => trivial) (fun _ _ _ _ => trivial) fuel here run last).2

/-- Parts that each end before a comma, or where the last one does. -/
lemma commaSeparatedBefore (part : GivesBefore site ends parser property)
    (comma : ∀ cursor : Cursor, cursor.view.atSymbol .comma = true → ends cursor) (fuel : Nat) :
    GivesBefore site ends (Parser.commaSeparated fuel parser)
      fun parts => ∀ part ∈ parts, property part := by
  intro cursor value stop here run last
  obtain ⟨listed, -⟩ := accepted_commaSeparated_iff.mp run
  clear run
  induction listed with
  | one run _ => simpa using part here run last
  | cons run at_ later ih =>
    have others := ih (site.advance (site.holds_of_accepted here run)) last
    exact List.forall_mem_cons.mpr ⟨part here run (comma _ at_), others⟩

/-- Each of the parts with commas between them is given, if one of them is. -/
lemma commaSeparated (part : Gives site parser property) (fuel : Nat) :
    Gives site (commaSeparated fuel parser) fun parts => ∀ part ∈ parts, property part :=
  commaSeparatedBefore part (fun _ _ => trivial) fuel

end GivesBefore

end Parser

end SqlTree
