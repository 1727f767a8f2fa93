import SqlTree.Grammar.Rules
import SqlTree.Proofs.Spans.Tape

set_option autoImplicit false

/-!
# Where parsers lead

A run of a parser leads from one index of a tape to another. What holds of the value and of the
index where the run ends is derived from the steps of the parser: taking a token leads to the next
index, and there is always a token to take.

## Main definitions

* `SqlTree.Parser.Leads` — what holds wherever a run ends.
* `SqlTree.Parser.Lays`, `SqlTree.Parser.Places` — a parser reads nodes that are placed one after
  the other, or one node that is placed between the ends of the run.
* `SqlTree.Grammar.Rules.Laid` — the parsers that call each other read such nodes.

## Main results

* `SqlTree.Parser.Leads.bind` — runs one after the other.
* `SqlTree.Parser.Lays.many`, `SqlTree.Parser.Lays.commaSeparated` — lists of nodes.
-/

namespace SqlTree.Parser

variable {α β : Type} {tape : Tape} {i : Nat}

/-- Wherever a run of the parser from an index ends, this holds of the value and of the index
there. A token is only taken where there is one. -/
def Leads (tape : Tape) : Parser α → Nat → (α → Nat → Prop) → Prop
  | .done value, i, post => post value i
  | .reject _, _, _ => True
  | .look next, i, post => (next (tape.view i)).Leads tape i post
  | .take next, i, post => i < tape.count → (next (tape.token i)).Leads tape (i + 1) post
  | .demand _ _ _ next, i, post => (next ()).Leads tape i post
  | .ask next, i, post => ∀ drift, (next drift).Leads tape i post
  | .read _ next, i, post => ∀ text, (next text).Leads tape i post

namespace Leads

variable {parser : Parser α} {next : α → Parser β} {post weaker : α → Nat → Prop}
  {later : β → Nat → Prop}

/-- What leads to one kind of place leads to any wider kind. -/
lemma mono (leads : parser.Leads tape i post)
    (weakens : ∀ value j, i ≤ j → post value j → weaker value j) : parser.Leads tape i weaker := by
  induction parser generalizing i with
  | done value => exact weakens value i (Nat.le_refl _) leads
  | reject => trivial
  | look next ih => exact ih _ leads weakens
  | take next ih =>
    exact fun inside => ih _ (leads inside) fun value j le => weakens value j (by omega)
  | demand feature construct span next ih => exact ih _ leads weakens
  | ask next ih => exact fun drift => ih drift (leads drift) weakens
  | read start next ih => exact fun text => ih text (leads text) weakens

/-- Runs one after the other. -/
lemma bind (first : parser.Leads tape i post)
    (second : ∀ value j, i ≤ j → post value j → (next value).Leads tape j later) :
    (parser >>= next).Leads tape i later := by
  change (parser.andThen next).Leads tape i later
  induction parser generalizing i with
  | done value => exact second value i (Nat.le_refl _) first
  | reject => trivial
  | look step ih => exact ih _ first second
  | take step ih =>
    exact fun inside => ih _ (first inside) fun value j le => second value j (by omega)
  | demand feature construct span step ih => exact ih _ first second
  | ask step ih => exact fun drift => ih drift (first drift) second
  | read start step ih => exact fun text => ih text (first text) second

/-- Runs only lead forward. -/
lemma forward (parser : Parser α) : parser.Leads tape i fun _ _ => True := by
  induction parser generalizing i with
  | done | reject => trivial
  | look next ih => exact ih _
  | take next ih => exact fun _ => ih _
  | demand feature construct span next ih => exact ih _
  | ask next ih | read start next ih => exact fun value => ih value

/-- What is read first does not matter. -/
lemma skip (second : ∀ value j, i ≤ j → (next value).Leads tape j later) :
    (parser >>= next).Leads tape i later :=
  .bind (.forward parser) fun value j le _ => second value j le

/-- A value without tokens leads from a place to itself. -/
lemma of_pure {value : α} (holds : post value i) : (pure value : Parser α).Leads tape i post :=
  holds

/-- A choice leads somewhere if both of its branches lead there. -/
lemma ite {condition : Prop} [Decidable condition] {other : Parser α}
    (yes : parser.Leads tape i post) (no : other.Leads tape i post) :
    (if condition then parser else other).Leads tape i post := by
  split
  · exact yes
  · exact no

/-! ## Single steps -/

/-- Looking at the next tokens takes none of them. -/
lemma view {next : View → Parser β} (rest : (next (tape.view i)).Leads tape i later) :
    (Parser.view >>= next).Leads tape i later :=
  rest

/-- Looking at the next token does not take it. -/
lemma current {next : Token → Parser β} (rest : (next (tape.token i)).Leads tape i later) :
    (Parser.current >>= next).Leads tape i later :=
  rest

/-- A span that starts at a place starts with its token. -/
lemma here {next : Span → Parser β}
    (rest : ∀ span, tape.Starts i span → (next span).Leads tape i later) :
    (Parser.here >>= next).Leads tape i later :=
  rest _ .token

/-- Testing the next tokens takes none of them. -/
lemma sees {test : View → Bool} {next : Bool → Parser β}
    (rest : ∀ seen, (next seen).Leads tape i later) :
      (Parser.sees test >>= next).Leads tape i later :=
  rest _

/-- Asking for the drift extensions takes no token. -/
lemma isDrift {next : Bool → Parser β} (rest : ∀ drift, (next drift).Leads tape i later) :
    (Parser.isDrift >>= next).Leads tape i later :=
  rest

/-- Demanding a feature takes no token. -/
lemma require {feature : Feature} {construct : String} {span : Span} {next : Unit → Parser β}
    (rest : (next ()).Leads tape i later) :
    (Parser.require feature construct span >>= next).Leads tape i later :=
  rest

/-- Going on by a token is possible where the tape has one, and leads to the next place. -/
lemma advance {next : Token → Parser β}
    (rest : i < tape.count → (next (tape.token i)).Leads tape (i + 1) later) :
    (Parser.advance >>= next).Leads tape i later :=
  rest

/-- A choice by a test leads somewhere if both of its branches lead there. -/
lemma ifSees {test : View → Bool} {yes no : Parser β} (first : yes.Leads tape i later)
    (second : no.Leads tape i later) :
    (Parser.sees test >>= fun seen => if seen = true then yes else no).Leads tape i later :=
  .sees fun _ => .ite first second

/-- A token that has to pass a test is one token, and its span starts there. -/
lemma expect {test : View → Bool} {expected : String} {next : Span → Parser β}
    (rest : ∀ span, tape.Starts i span → (next span).Leads tape (i + 1) later) :
    ((do
      if ← Parser.sees test then return (← Parser.advance).span
      else unexpected expected) >>= next).Leads tape i later := by
  have first : (do
      if ← Parser.sees test then return (← Parser.advance).span
      else unexpected expected : Parser Span).Leads tape i fun span j =>
        tape.Starts i span ∧ j = i + 1 := by
    refine .ifSees ?_ trivial
    exact .advance fun _ => ⟨.token, rfl⟩
  refine first.bind fun span j _ ⟨starts, eq⟩ => ?_
  subst eq
  exact rest span starts

/-- A required keyword is one token, and its span starts there. -/
lemma expectKeyword {word : Keyword} {next : Span → Parser β}
    (rest : ∀ span, tape.Starts i span → (next span).Leads tape (i + 1) later) :
    (Parser.expectKeyword word >>= next).Leads tape i later :=
  expect rest

/-- A required symbol is one token, and its span starts there. -/
lemma expectSymbol {which : Symbol} {next : Span → Parser β}
    (rest : ∀ span, tape.Starts i span → (next span).Leads tape (i + 1) later) :
    (Parser.expectSymbol which >>= next).Leads tape i later :=
  expect rest

/-- Required keywords lead to a later place. -/
lemma expectKeywords {word : Keyword} {words : List Keyword} {next : Unit → Parser β}
    (rest : ∀ j, i < j → (next ()).Leads tape j later) :
    (Parser.expectKeywords (word :: words) >>= next).Leads tape i later := by
  have first : (Parser.expectKeywords (word :: words)).Leads tape i fun _ j => i < j :=
    .expectKeyword fun _ _ => (forward _).mono fun _ _ le _ => le
  exact first.bind fun _ j _ lt => rest j lt

/-- What stands between parentheses, and after them. -/
lemma parenthesized {next : α → Parser β}
    (inner : parser.Leads tape (i + 1) fun value j => (next value).Leads tape (j + 1) later) :
    (Parser.parenthesized parser >>= next).Leads tape i later := by
  have first : (Parser.parenthesized parser).Leads tape i fun value j =>
      (next value).Leads tape j later := by
    refine .expectSymbol fun _ _ => ?_
    refine inner.bind fun value _ _ rest => ?_
    refine .expectSymbol fun _ _ => ?_
    exact .of_pure rest
  exact first.bind fun _ _ _ rest => rest

/-- A name is one token. -/
lemma identifier {next : String → Parser β}
    (rest : ∀ name, (next name).Leads tape (i + 1) later) :
    (Parser.identifier >>= next).Leads tape i later := by
  have first : Parser.identifier.Leads tape i fun _ j => j = i + 1 := by
    refine .ifSees ?_ trivial
    exact .advance fun _ => rfl
  refine first.bind fun name j _ eq => ?_
  subst eq
  exact rest name

/-- What stands after a token that is taken if it passes a test, and what stands there without
it. -/
lemma ifTaken {test : View → Bool} {yes no : Parser β} (first : yes.Leads tape (i + 1) later)
    (second : no.Leads tape i later) :
    ((do
      if ← Parser.sees test then
        let _ ← Parser.advance
        return true
      else
        return false) >>= fun taken => if taken = true then yes else no).Leads tape i later := by
  have taken : (do
      if ← Parser.sees test then
        let _ ← Parser.advance
        return true
      else
        return false : Parser Bool).Leads tape i fun taken j =>
          taken = true ∧ j = i + 1 ∨ taken = false ∧ j = i := by
    refine .ifSees ?_ (.inr ⟨rfl, rfl⟩)
    refine .advance fun _ => ?_
    exact .inl ⟨rfl, rfl⟩
  refine taken.bind fun taken j _ cases => ?_
  obtain ⟨rfl, rfl⟩ | ⟨rfl, rfl⟩ := cases
  · exact first
  · exact second

/-- What stands after a keyword, and what stands there without it. -/
lemma ifKeyword {word : Keyword} {yes no : Parser β} (first : yes.Leads tape (i + 1) later)
    (second : no.Leads tape i later) :
    (Parser.eatKeyword word >>= fun taken => if taken = true then yes else no).Leads tape i later :=
  ifTaken first second

/-- What stands after a symbol, and what stands there without it. -/
lemma ifSymbol {which : Symbol} {yes no : Parser β} (first : yes.Leads tape (i + 1) later)
    (second : no.Leads tape i later) :
    (Parser.eatSymbol which >>= fun taken => if taken = true then yes else no).Leads tape i later :=
  ifTaken first second

/-- The end of a run that reads a node: its span goes from an earlier start to the token behind. -/
lemma returns {k : Nat} {start : Span} {make : Span → β} (starts : tape.Starts k start)
    (lt : k < i) (holds : later (make (tape.extent k i)) i) :
    (do return make (← Parser.spanFrom start) : Parser β).Leads tape i later := by
  change later (make ⟨start.start, Cursor.stopAfter (tape.token (i - 1)) start.start, start.line,
    start.column⟩) i
  rwa [starts.spanFrom lt]

/-- The end of a run that reads a node, whose children are placed one after the other. -/
lemma node {k : Nat} {start : Span} {make : Span → β} {node : β → Node}
    (starts : tape.Starts k start) (lt : k < i)
    (span : (node (make (tape.extent k i))).span = tape.extent k i)
    (children : Row tape.Places k i (node (make (tape.extent k i))).children) :
    (do return make (← Parser.spanFrom start) : Parser β).Leads tape i fun value j =>
      tape.Places k j (node value) :=
  .returns starts lt (.of_row lt span children)

/-- A node of one token. -/
lemma token {make : Span → β} {node : β → Node}
    (span : (node (make (tape.token i).span)).span = (tape.token i).span)
    (leaf : (node (make (tape.token i).span)).children = []) :
    (do return make (← Parser.advance).span : Parser β).Leads tape i fun value j =>
      tape.Places i j (node value) :=
  .advance fun _ => .of_pure <| .of_row (Nat.lt_succ_self _) span (leaf ▸ .nil (Nat.le_succ _))

/-! ## Parts and loops -/

/-- A loop keeps what each of its turns keeps. -/
lemma iterate {step : α → Parser (Option α)} (invariant : α → Nat → Prop) {state : α}
    (fuel : Nat) (turn : ∀ state i, invariant state i → (step state).Leads tape i fun next j =>
      next.elim (post state j) (invariant · j)) (start : invariant state i) :
    (Parser.iterate step fuel state).Leads tape i post := by
  induction fuel generalizing state i with
  | zero => trivial
  | succ fuel ih =>
    refine (turn state i start).bind fun next j _ holds => ?_
    cases next with
    | none => exact holds
    | some state => exact ih holds

/-- A list keeps what each further part keeps. -/
lemma many {step : Parser (Option α)} (invariant : List α → Nat → Prop) (fuel : Nat)
    (turn : ∀ parts i, invariant parts i → step.Leads tape i fun part j =>
      part.elim (invariant parts j) fun part => invariant (parts ++ [part]) j)
    (start : invariant [] i) : (Parser.many fuel step).Leads tape i invariant := by
  have loop : (Parser.iterate (fun parts => do return (← step).map (· :: parts)) fuel []).Leads tape
      i fun parts j => invariant parts.reverse j := by
    refine .iterate (fun parts j => invariant parts.reverse j) fuel
      (fun parts j holds => (turn _ j holds).bind fun part k _ holds => ?_) start
    cases part with
    | none => exact holds
    | some part => exact .of_pure (by simpa using holds)
  exact loop.bind fun parts _ _ holds => holds

/-- Where parts are read that each take a token, tokens are taken. -/
lemma many_of_takes {step : Parser (Option α)} (fuel : Nat)
    (takes : ∀ i, step.Leads tape i fun part j => part = none ∨ i < j) :
    (Parser.many fuel step).Leads tape i fun parts j => parts = [] ∨ i < j := by
  have list : (Parser.many fuel step).Leads tape i fun parts j =>
      i ≤ j ∧ (parts = [] ∨ i < j) := by
    refine .many _ fuel (fun parts j ⟨le, taken⟩ => (takes j).mono fun part k le' taken' => ?_)
      ⟨Nat.le_refl _, .inl rfl⟩
    cases part with
    | none => exact ⟨by omega, taken.imp_right fun lt => by omega⟩
    | some part =>
      have lt : j < k := taken'.resolve_left (Option.some_ne_none part)
      exact ⟨by omega, .inr (by omega)⟩
  exact list.mono fun _ _ _ ⟨_, taken⟩ => taken

end Leads

/-! ## Parsers of nodes -/

/-- What the parser reads are nodes that are placed one after the other. -/
def Lays (tape : Tape) (parser : Parser α) (nodes : α → List Node) : Prop :=
  ∀ i, parser.Leads tape i fun value j => Row tape.Places i j (nodes value)

/-- What the parser reads is a node that is placed between the ends of the run. -/
def Places (tape : Tape) (parser : Parser α) (node : α → Node) : Prop :=
  ∀ i, parser.Leads tape i fun value j => tape.Places i j (node value)

namespace Lays

variable {parser : Parser α} {nodes : α → List Node} {node : α → Node}

/-- What a part lays out it lays out in parentheses. -/
lemma parenthesized (inner : parser.Lays tape nodes) :
    (Parser.parenthesized parser).Lays tape nodes := by
  intro i
  refine .expectSymbol fun _ _ => ?_
  refine (inner (i + 1)).bind fun value _ _ row => ?_
  refine .expectSymbol fun _ _ => ?_
  exact .of_pure (row.mono (by omega) (by omega))

/-- What a part lays out it lays out after a keyword, or nothing. -/
lemma afterKeyword {word : Keyword} (inner : parser.Lays tape nodes) :
    (Parser.afterKeyword word parser).Lays tape fun value => value.toList.flatMap nodes := by
  intro i
  refine .ifKeyword ?_ (.of_pure (.nil (Nat.le_refl _)))
  refine (inner (i + 1)).bind fun value _ _ row => .of_pure ?_
  simpa using row.mono (by omega) (Nat.le_refl _)

/-- What a part lays out it lays out where it is not left out. -/
lemma whenever {test : View → Bool} (inner : parser.Lays tape nodes) :
    (Parser.whenever test parser).Lays tape fun value => value.toList.flatMap nodes := by
  intro i
  refine .ifSees ?_ (.of_pure (.nil (Nat.le_refl _)))
  exact (inner i).bind fun value _ _ row => .of_pure (by simpa using row)

/-- What a part lays out it lays out after a required keyword. -/
lemma afterExpected {word : Keyword} (inner : parser.Lays tape nodes) :
    (do
      let _ ← Parser.expectKeyword word
      parser).Lays tape nodes := fun i =>
  .expectKeyword fun _ _ => (inner (i + 1)).mono fun _ _ _ row =>
    row.mono (Nat.le_succ _) (Nat.le_refl _)

/-- Repetitions lay out what their turns do, one after another. -/
lemma many {step : Parser (Option α)} (fuel : Nat)
    (turn : step.Lays tape fun value => value.toList.flatMap nodes) :
    (Parser.many fuel step).Lays tape fun values => values.flatMap nodes := by
  intro i
  refine .many (fun parts j => Row tape.Places i j (parts.flatMap nodes)) fuel
    (fun parts j row => (turn j).mono fun part _ _ row' => ?_) (.nil (Nat.le_refl _))
  cases part with
  | none => exact row.mono (Nat.le_refl _) row'.le
  | some part => simpa using row.append row'

/-- Lists lay out what their parts do, one after another. -/
lemma commaSeparated (fuel : Nat) (part : parser.Lays tape nodes) :
    (Parser.commaSeparated fuel parser).Lays tape fun values => values.flatMap nodes := by
  intro i
  refine (part i).bind fun first j _ row => ?_
  have turn : Parser.Lays tape
    (do if ← eatSymbol .comma then return some (← parser) else return none)
      fun value => value.toList.flatMap nodes := fun i =>
    .ifSymbol
      ((part (i + 1)).bind fun value _ _ row => .of_pure (by
        simpa using row.mono (by omega) (Nat.le_refl _)))
      (.of_pure (.nil (Nat.le_refl _)))
  exact (many fuel turn j).bind fun rest k _ row' => .of_pure (by simpa using row.append row')

/-- A node after a keyword is laid out, if it is there. -/
lemma afterKeywordNode {word : Keyword} (inner : parser.Lays tape fun value => [node value]) :
    (Parser.afterKeyword word parser).Lays tape (Node.maybe node) := by
  unfold Node.maybe
  simp only [List.map_eq_flatMap]
  exact inner.afterKeyword

/-- A node that may be left out is laid out, if it is there. -/
lemma wheneverNode {test : View → Bool} (inner : parser.Lays tape fun value => [node value]) :
    (Parser.whenever test parser).Lays tape (Node.maybe node) := by
  unfold Node.maybe
  simp only [List.map_eq_flatMap]
  exact inner.whenever

/-! A list that may be missing has the nodes of no list then. -/

/-- A list of nodes after a keyword is laid out, if it is there. -/
lemma afterKeywordList {word : Keyword} {list : Parser (List α)}
    (inner : list.Lays tape (Node.each node)) :
    (Parser.afterKeyword word list).Lays tape fun value => Node.each node (value.getD []) :=
  fun i => (inner.afterKeyword i).mono fun value _ _ row => by
    cases value <;> simpa [Node.each] using row

/-- A list of nodes that may be left out is laid out, if it is there. -/
lemma wheneverList {test : View → Bool} {list : Parser (List α)}
    (inner : list.Lays tape (Node.each node)) :
    (Parser.whenever test list).Lays tape fun value => Node.each node (value.getD []) :=
  fun i => (inner.whenever i).mono fun value _ _ row => by
    cases value <;> simpa [Node.each] using row

end Lays

namespace Places

variable {parser : Parser α} {node : α → Node}

/-- What places a node lays it out. -/
lemma lays (places : parser.Places tape node) : parser.Lays tape fun value => [node value] :=
  fun i => (places i).mono fun _ _ _ placed => placed.row

/-- A node in parentheses is laid out. -/
lemma parenthesized (places : parser.Places tape node) :
    (Parser.parenthesized parser).Lays tape fun value => [node value] :=
  places.lays.parenthesized

/-- A node that is placed after a keyword is laid out, if it is there. -/
lemma afterKeyword {word : Keyword} (places : parser.Places tape node) :
    (Parser.afterKeyword word parser).Lays tape (Node.maybe node) :=
  places.lays.afterKeywordNode

/-- A node that is placed unless it is left out is laid out, if it is there. -/
lemma whenever {test : View → Bool} (places : parser.Places tape node) :
    (Parser.whenever test parser).Lays tape (Node.maybe node) :=
  places.lays.wheneverNode

/-- Repetitions of nodes that are placed are laid out. -/
lemma many {step : Parser (Option α)} (fuel : Nat) (turn : step.Lays tape (Node.maybe node)) :
    (Parser.many fuel step).Lays tape (Node.each node) := by
  unfold Node.maybe at turn
  unfold Node.each
  simp only [List.map_eq_flatMap] at turn ⊢
  exact .many fuel turn

/-- Lists of nodes that are placed are laid out. -/
lemma commaSeparated (fuel : Nat) (places : parser.Places tape node) :
    (Parser.commaSeparated fuel parser).Lays tape (Node.each node) := by
  unfold Node.each
  simp only [List.map_eq_flatMap]
  exact places.lays.commaSeparated fuel

end Places

end SqlTree.Parser

namespace SqlTree.Grammar

open SqlTree.Parser

/-- The parsers that call each other read nodes that are placed. -/
structure Rules.Laid (tape : Tape) (rules : Rules) : Prop where
  operators : ∀ least, (rules.operators least).Places tape .expr
  query : rules.query.Places tape .query
  tableRef : rules.tableRef.Places tape .tableRef

namespace Rules.Laid

variable {tape : Tape} {rules : Rules}

/-- An expression is placed. -/
lemma expr (laid : rules.Laid tape) : rules.expr.Places tape .expr :=
  laid.operators 0

/-- A list of expressions is laid out. -/
lemma exprs (laid : rules.Laid tape) : rules.exprs.Lays tape (Node.each .expr) :=
  laid.expr.commaSeparated _

end Rules.Laid

end SqlTree.Grammar
