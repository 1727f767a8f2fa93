import SqlTree.Grammar.TypeName
import SqlTree.Proofs.Lexing
import SqlTree.Proofs.Reread.Starter

set_option autoImplicit false

/-!
# Raw arguments

What is read between the parentheses of raw arguments is decided by the tokens there: the list is
split at the commas outside inner parentheses, and ends at the parenthesis that closes the first
one. Each argument is the source text from its first token to its last, and empty ones are left out.

## Main definitions

* `SqlTree.splitArguments` — the words of each argument, and the words after the list.
* `SqlTree.argumentTexts` — the source texts of arguments.

## Main results

* `SqlTree.Grammar.rawArguments_accepts`, `SqlTree.Grammar.accepted_rawArguments` — raw arguments
  are read exactly as the words are split.
-/

namespace SqlTree

open SqlTree.Grammar SqlTree.Parser

/-! ## Splitting words -/

/-- The number of parentheses that are open inside an argument after one more token, if the token
belongs to the argument. -/
def depthStep (depth : Nat) : TokenKind → Option Nat
  | .endOfInput | .malformed _ => none
  | .symbol .leftParen => some (depth + 1)
  | .symbol .rightParen => if depth = 0 then none else some (depth - 1)
  | .symbol .comma => if depth = 0 then none else some depth
  | _ => some depth

/-- The number of parentheses that are open after these tokens of one argument. -/
def depthAfter : Nat → List TokenKind → Option Nat
  | depth, [] => some depth
  | depth, kind :: rest => (depthStep depth kind).bind (depthAfter · rest)

/-- The words of the arguments before a closing parenthesis, and the words after it. The words of
the first argument that stand before these are `part`, and `depth` parentheses are open there. -/
def splitArguments : List Word → Nat → List Word → Option (List (List Word) × List Word)
  | _, _, [] => none
  | part, depth, word :: rest =>
    match depthStep depth word.kind with
    | some depth => splitArguments (part ++ [word]) depth rest
    | none =>
      match word.kind with
      | .symbol .rightParen => some ([part], rest)
      | .symbol .comma =>
        (splitArguments [] 0 rest).map fun (parts, rest) => (part :: parts, rest)
      | _ => none

section

variable {part words rest more : List Word} {depth : Nat} {word : Word}

/-- A word that closes no argument is added to the one being collected. -/
lemma splitArguments_inside {depth' : Nat} (inside : depthStep depth word.kind = some depth') :
    splitArguments part depth (word :: rest) = splitArguments (part ++ [word]) depth' rest := by
  rw [splitArguments, inside]

/-- The closing parenthesis at depth `0` ends the last argument and the splitting. -/
lemma splitArguments_close (kind : word.kind = .symbol .rightParen) :
    splitArguments part 0 (word :: rest) = some ([part], rest) := by
  rw [splitArguments, kind]
  rfl

/-- A comma at depth `0` ends an argument, and the splitting goes on with the next one. -/
lemma splitArguments_comma (kind : word.kind = .symbol .comma) :
    splitArguments part 0 (word :: rest) =
      (splitArguments [] 0 rest).map fun (parts, rest) => (part :: parts, rest) := by
  rw [splitArguments, kind]
  rfl

/-- The splitting fails at the end of the source and at a malformed token. -/
lemma splitArguments_bad (bad : word.kind = .endOfInput ∨ word.kind.isMalformed = true) :
    splitArguments part depth (word :: rest) = none := by
  rw [splitArguments]
  unfold TokenKind.isMalformed at bad
  cases kind : word.kind <;> simp_all [depthStep]

/-- A token that is no part of an argument ends it or cannot be read. -/
lemma depthStep_none {kind : TokenKind} (outside : depthStep depth kind = none) :
    (kind = .endOfInput ∨ kind.isMalformed = true) ∨
      depth = 0 ∧ (kind = .symbol .rightParen ∨ kind = .symbol .comma) := by
  unfold depthStep at outside
  split at outside
  · exact .inl (.inl rfl)
  · exact .inl (.inr rfl)
  · exact absurd outside (by simp)
  · exact .inr ⟨by simpa using outside, .inl rfl⟩
  · exact .inr ⟨by simpa using outside, .inr rfl⟩
  · exact absurd outside (by simp)

/-! ### What the splitting depends on -/

/-- The depth after two lists of kinds is that after the second one, starting from that after the
first. -/
lemma depthAfter_append {kinds others : List TokenKind} {middle : Nat}
    (first : depthAfter depth kinds = some middle) :
    depthAfter depth (kinds ++ others) = depthAfter middle others := by
  induction kinds generalizing depth with
  | nil => rw [List.nil_append, Option.some.inj first]
  | cons kind kinds ih =>
    obtain ⟨next, step, rest⟩ := Option.bind_eq_some_iff.mp first
    rw [List.cons_append, depthAfter, step]
    exact ih rest

/-- Words of one argument are passed over. -/
lemma splitArguments_append {depth' : Nat}
    (inside : depthAfter depth (words.map Word.kind) = some depth') :
    splitArguments part depth (words ++ rest) = splitArguments (part ++ words) depth' rest := by
  induction words generalizing part depth with
  | nil =>
    obtain rfl : depth = depth' := Option.some.inj inside
    simp
  | cons word words ih =>
    obtain ⟨next, step, inside⟩ := Option.bind_eq_some_iff.mp inside
    rw [List.cons_append, splitArguments_inside step, ih inside, List.append_assoc]
    rfl

/-- Where the splitting succeeds, it depends on nothing after the closing parenthesis, and each
argument closes the parentheses that it opens. -/
lemma splitArguments_local {parts : List (List Word)}
    (found : splitArguments part depth words = some (parts, rest))
    (inside : depthAfter 0 (part.map Word.kind) = some depth) :
    (∃ taken, words = taken ++ rest ∧
      ∀ more, splitArguments part depth (taken ++ more) = some (parts, more)) ∧
    ∀ argument ∈ parts, depthAfter 0 (argument.map Word.kind) = some 0 := by
  induction words generalizing part depth parts with
  | nil => exact absurd found (by simp [splitArguments])
  | cons word words ih =>
    cases step : depthStep depth word.kind with
    | some depth' =>
      rw [splitArguments_inside step] at found
      obtain ⟨⟨taken, rfl, same⟩, closed⟩ := ih found (by
        rw [List.map_append, depthAfter_append inside]
        simp [depthAfter, step])
      exact ⟨⟨word :: taken, rfl, fun more => by
        rw [List.cons_append, splitArguments_inside step, same]⟩, closed⟩
    | none =>
      rcases depthStep_none step with bad | ⟨rfl, kind | kind⟩
      · rw [splitArguments_bad bad] at found
        exact absurd found (by simp)
      · rw [splitArguments_close kind] at found
        obtain ⟨rfl, rfl⟩ := Prod.mk.inj (Option.some.inj found)
        exact ⟨⟨[word], rfl, fun more => splitArguments_close kind⟩, by simpa using inside⟩
      · rw [splitArguments_comma kind] at found
        obtain ⟨⟨others, after⟩, later, eq⟩ := Option.map_eq_some_iff.mp found
        obtain ⟨rfl, rfl⟩ := Prod.mk.inj eq
        obtain ⟨⟨taken, rfl, same⟩, closed⟩ := ih later rfl
        exact ⟨⟨word :: taken, rfl, fun more => by
          rw [List.cons_append, splitArguments_comma kind, same, Option.map_some]⟩, by
          simpa using ⟨inside, closed⟩⟩

/-- Words that fit these are split in the same way. -/
lemma splitArguments_fits {parts : List (List Word)} {part' words' : List Word}
    (found : splitArguments part depth words = some (parts, rest))
    (fitsPart : List.Forall₂ Word.Fits part' part) (fits : List.Forall₂ Word.Fits words' words) :
    ∃ parts' rest', splitArguments part' depth words' = some (parts', rest') ∧
      List.Forall₂ (List.Forall₂ Word.Fits) parts' parts ∧ List.Forall₂ Word.Fits rest' rest := by
  induction fits generalizing part part' depth parts with
  | nil => exact absurd found (by simp [splitArguments])
  | @cons word' word words' words fitsWord fits ih =>
    cases step : depthStep depth word.kind with
    | some depth' =>
      rw [splitArguments_inside step] at found
      rw [splitArguments_inside (fitsWord.1 ▸ step)]
      exact ih found (List.rel_append fitsPart (.cons fitsWord .nil))
    | none =>
      rcases depthStep_none step with bad | ⟨rfl, kind | kind⟩
      · rw [splitArguments_bad bad] at found
        exact absurd found (by simp)
      · rw [splitArguments_close kind] at found
        obtain ⟨rfl, rfl⟩ := Prod.mk.inj (Option.some.inj found)
        exact ⟨_, _, splitArguments_close (fitsWord.1.trans kind), .cons fitsPart .nil, fits⟩
      · rw [splitArguments_comma kind] at found
        obtain ⟨⟨others, after⟩, later, eq⟩ := Option.map_eq_some_iff.mp found
        obtain ⟨rfl, rfl⟩ := Prod.mk.inj eq
        obtain ⟨others', rest', same, fitsOthers, fitsRest⟩ := ih later .nil
        refine ⟨_, _, ?_, .cons fitsPart fitsOthers, fitsRest⟩
        rw [splitArguments_comma (fitsWord.1.trans kind), same]
        rfl

/-- Gaps between words are known in each argument, if they are known before the splitting.

**Proof sketch.** By induction on the words, for any argument being collected. A word inside is
added to that argument, and its gap is known unless it is the first. The closing parenthesis ends
the argument, all of whose gaps are known by assumption. A comma ends it as well, and the induction
goes on with an empty argument and the words after the comma, whose gaps are all known. -/
lemma splitArguments_fixed {parts : List (List Word)}
    (found : splitArguments part depth words = some (parts, rest))
    (fixed : ∀ word ∈ (part ++ words).tail, word.gap ≠ none) :
    ∀ argument ∈ parts, ∀ word ∈ argument.tail, word.gap ≠ none := by
  have own : ∀ word ∈ part.tail, word.gap ≠ none := by
    intro word mem
    refine fixed word ?_
    cases part with
    | nil => simp at mem
    | cons first others => exact List.mem_append_left _ mem
  induction words generalizing part depth parts with
  | nil => exact absurd found (by simp [splitArguments])
  | cons word words ih =>
    have later : ∀ word ∈ words, word.gap ≠ none := by
      intro word mem
      refine fixed word ?_
      cases part with
      | nil => exact mem
      | cons first others => exact List.mem_append_right _ (List.mem_cons_of_mem _ mem)
    cases step : depthStep depth word.kind with
    | some depth' =>
      rw [splitArguments_inside step] at found
      refine ih found (by simpa using fixed) fun other mem => ?_
      cases part with
      | nil => simp at mem
      | cons first others =>
        rcases List.mem_append.mp mem with mem | mem
        · exact own other mem
        · obtain rfl := List.mem_singleton.mp mem
          exact fixed other (List.mem_append_right _ List.mem_cons_self)
    | none =>
      rcases depthStep_none step with bad | ⟨rfl, kind | kind⟩
      · rw [splitArguments_bad bad] at found
        exact absurd found (by simp)
      · rw [splitArguments_close kind] at found
        obtain ⟨rfl, rfl⟩ := Prod.mk.inj (Option.some.inj found)
        simpa using own
      · rw [splitArguments_comma kind] at found
        obtain ⟨⟨others, after⟩, inner, eq⟩ := Option.map_eq_some_iff.mp found
        obtain ⟨rfl, rfl⟩ := Prod.mk.inj eq
        have := ih inner (fun other mem => later other (List.mem_of_mem_tail mem)) (by simp)
        simpa using ⟨own, this⟩

end

/-! ## Texts -/

/-- The texts of arguments, without the empty ones. -/
def argumentTexts (parts : List (List Word)) : List String :=
  (parts.map Word.joined).filter (!·.isEmpty)

/-- The texts of arguments are those of the first, unless it is empty, and those of the others. -/
lemma argumentTexts_cons (part : List Word) (parts : List (List Word)) :
    argumentTexts (part :: parts) =
      (if (Word.joined part).isEmpty then [] else [Word.joined part]) ++ argumentTexts parts := by
  unfold argumentTexts
  rw [List.map_cons, List.filter_cons]
  cases (Word.joined part).isEmpty <;> rfl

/-- Words where the gap before the first one does not matter. -/
def Word.front : List Word → List Word
  | [] => []
  | first :: rest => { first with gap := none } :: rest

/-- Forgetting the gap before the first word changes only that word. -/
lemma Word.tail_front (words : List Word) : (front words).tail = words.tail := by
  cases words <;> rfl

/-- Forgetting the gap before the first word commutes with taking words. -/
lemma Word.take_front (words : List Word) (count : Nat) :
    (front words).take count = front (words.take count) := by
  cases words <;> cases count <;> rfl

/-- The gap before the first word is not part of the joined text. -/
lemma Word.joined_front (words : List Word) : joined (front words) = joined words := by
  cases words <;> rfl

/-- Words that fit others have the same text, if the gaps between those are known. -/
lemma Word.joined_fits {found wanted : List Word} (fits : List.Forall₂ Word.Fits found wanted)
    (fixed : ∀ word ∈ wanted.tail, word.gap ≠ none) : joined found = joined wanted := by
  cases fits with
  | nil => rfl
  | cons first fits =>
    rw [joined, joined, first.2.1]
    congr 1
    rw [List.tail_cons] at fixed
    induction fits with
    | nil => rfl
    | cons next _ ih =>
      simp only [List.mem_cons, forall_eq_or_imp] at fixed
      rw [List.map_cons, List.map_cons, String.join_cons, String.join_cons, ih fixed.2, next.2.1,
        next.2.2.resolve_left fixed.1]

namespace Cursor

/-- The words of the tokens ahead, with the gap before the first one. -/
def spelled (cursor : Cursor) : List Word :=
  wordsFrom cursor.source cursor.previous cursor.ahead

variable {drift : Bool} {cursor : Cursor}

/-- The words ahead after a step are all but the first. -/
lemma spelled_advance (cursor : Cursor) : cursor.advance.spelled = cursor.spelled.tail := by
  unfold spelled advance
  cases ahead : cursor.ahead with
  | nil => simp [ahead, wordsFrom]
  | cons token rest => rfl

/-- Where a token is ahead, the first word ahead is its word. -/
lemma spelled_cons {token : Token} {rest : List Token} (ahead : cursor.ahead = token :: rest) :
    ∃ word, cursor.spelled = word :: cursor.advance.spelled ∧ word.kind = cursor.current.kind := by
  unfold spelled advance current peek
  rw [ahead]
  exact ⟨_, rfl, rfl⟩

/-- After some steps, that many words are dropped. -/
lemma spelled_iterate (cursor : Cursor) (count : Nat) :
    (advance^[count] cursor).spelled = cursor.spelled.drop count := by
  induction count with
  | zero => rfl
  | succ count ih => rw [Function.iterate_succ_apply', spelled_advance, ih, List.tail_drop]

/-- There are as many words ahead as tokens. -/
@[simp] lemma length_spelled (cursor : Cursor) : cursor.spelled.length = cursor.ahead.length :=
  length_wordsFrom ..

/-- The words of the raw arguments are those ahead, without the gap before the first. -/
lemma front_spelled (cursor : Cursor) : Word.front cursor.spelled = cursor.words := by
  unfold spelled words
  cases cursor.ahead <;> rfl

/-- The gaps between the words ahead are known. -/
lemma Reachable.gap_ne_none (reachable : cursor.Reachable drift) :
    ∀ word ∈ cursor.words.tail, word.gap ≠ none := by
  obtain ⟨before, chars, position, list, sees⟩ := reachable.sees
  rw [sees.words]
  cases list with
  | nil => simp [Lexed.words]
  | cons first rest => simp [Lexed.words, Lexed.word]

/-- The next token starts after the one behind. -/
lemma Reachable.ordered (reachable : cursor.Reachable drift) (some : cursor.advance.ahead ≠ []) :
    cursor.advance.previous.span.stop ≤ cursor.advance.current.span.start := by
  obtain ⟨before, chars, position, list, sees⟩ := reachable.sees
  rcases list with _ | ⟨first, _ | ⟨second, list⟩⟩
  · simp [sees.ahead, Lexed.placed] at some
  · simp [sees.ahead, Lexed.placed] at some
  · rw [advance_previous (by simp [sees.ahead, Lexed.placed])]
    simp [current, peek, sees.ahead, Lexed.placed, Span.between, Position.advance_offset]

/-- The words of an argument that starts at this offset are those before the cursor. -/
structure Inside (drift : Bool) (cursor : Cursor) (start : Nat) (part : List Word) : Prop where
  origin : ∃ origin : Cursor, origin.Reachable drift ∧ origin.current.span.start = start ∧
    (origin.ahead ≠ [] → origin.previous.span.stop ≤ start) ∧
    cursor = advance^[part.length] origin ∧ part = origin.spelled.take part.length

namespace Inside

variable {start : Nat} {part : List Word}

/-- Before the first word of an argument. -/
lemma first (reachable : cursor.Reachable drift) :
    cursor.advance.Inside drift cursor.advance.current.span.start [] :=
  ⟨_, reachable.advance, rfl, reachable.ordered, rfl, rfl⟩

/-- A cursor inside the arguments can be reached. -/
lemma reachable (inside : cursor.Inside drift start part) : cursor.Reachable drift := by
  obtain ⟨origin, reached, -, -, rfl, -⟩ := inside
  exact reached.iterate _

/-- After one more word. -/
lemma more (inside : cursor.Inside drift start part) {word : Word}
    (spelled : cursor.spelled = word :: cursor.advance.spelled) :
    cursor.advance.Inside drift start (part ++ [word]) := by
  obtain ⟨origin, reached, begins, ordered, rfl, eq⟩ := inside
  refine ⟨origin, reached, begins, ordered, ?_, ?_⟩
  · rw [List.length_append, List.length_singleton, Function.iterate_succ_apply']
  · rw [spelled_iterate] at spelled
    rw [List.length_append, List.length_singleton, List.take_add_one, ← eq]
    congr 1
    have := congrArg List.head? spelled
    rw [List.head?_drop] at this
    simp [this]

/-- The source from the start of the argument up to the token behind is the text of its words. -/
lemma text (inside : cursor.Inside drift start part) (some : cursor.ahead ≠ []) :
    cursor.textFrom start = Word.joined part := by
  obtain ⟨origin, reached, rfl, ordered, rfl, eq⟩ := inside
  rcases part.eq_nil_or_concat with rfl | ⟨before, last, rfl⟩
  · have stop := ordered some
    change (Text.slice? origin.source _ (max origin.previous.span.stop _)).getD "" = ""
    rw [Nat.max_eq_right stop]
    unfold Text.slice?
    rw [if_pos (Nat.le_refl _), Nat.sub_self]
    cases Text.dropBytes? origin.source.toList origin.current.span.start <;>
      simp [Text.takeBytes?]
  · rw [List.concat_eq_append, List.length_append, List.length_singleton] at eq ⊢
    have within : before.length < origin.ahead.length := by
      have := congrArg List.length eq
      simp only [List.length_append, List.length_singleton, List.length_take,
        length_spelled] at this
      omega
    obtain ⟨text, slice, -, joined⟩ := reached.words_slice within
    have source := (iterate_advance origin (before.length + 1)).2.2
    have after : origin.current.span.start ≤ (origin.peek before.length).span.stop := by
      by_contra less
      unfold Text.slice? at slice
      rw [if_neg less] at slice
      exact absurd slice (by simp)
    unfold textFrom Cursor.slice stopAfter
    rw [source, previous_iterate within, Nat.max_eq_left after, slice, Option.getD_some, joined,
      ← front_spelled, Word.take_front, Word.joined_front, ← eq]

/-- The text of the words before the cursor is cut into these words. -/
lemma words (inside : cursor.Inside drift start part) :
    (Cursor.ofSource drift (Word.joined part)).words = Word.front part := by
  obtain ⟨origin, reached, -, -, -, eq⟩ := inside
  rcases part.eq_nil_or_concat with rfl | ⟨before, last, rfl⟩
  · exact words_source "" (.ends .nil)
  · rw [List.concat_eq_append, List.length_append, List.length_singleton] at eq
    have within : before.length < origin.ahead.length := by
      have := congrArg List.length eq
      simp only [List.length_append, List.length_singleton, List.length_take,
        length_spelled] at this
      omega
    obtain ⟨text, -, words, joined⟩ := reached.words_slice within
    rw [← front_spelled origin, Word.take_front, ← eq] at words joined
    rw [List.concat_eq_append, ← words, joined, Word.joined_front]

end Inside

end Cursor

namespace Grammar

variable {dialect : Dialect} {drift : Bool} {c : Cursor} {state : RawArguments}
  {part : List Word}

/-- After the closing parenthesis the loop ends. -/
lemma iterate_rawArguments_closed {fuel : Nat} (some : 0 < fuel) (closed : state.closed = true) :
    (iterate rawArgumentStep fuel state).run dialect c = .accepted state c := by
  obtain ⟨fuel, rfl⟩ : ∃ more, fuel = more + 1 := ⟨fuel - 1, by omega⟩
  unfold iterate rawArgumentStep
  rw [if_pos closed]
  rfl

/-- What a run of the loop over raw arguments comes to, by how the words are split. -/
def RawArguments.Comes (drift : Bool) (found : List String) (outcome : Outcome RawArguments) :
    Option (List (List Word) × List Word) → Prop
  | some (parts, rest) => (∃ state c₁, outcome = .accepted state c₁ ∧
      state.found.reverse = found.reverse ++ argumentTexts parts ∧ c₁.spelled = rest) ∧
      ∀ part ∈ parts, (Cursor.ofSource drift (Word.joined part)).words = Word.front part
  | none => ∀ state c₁, outcome ≠ .accepted state c₁

/-- Finishing an argument adds its text to those found, unless it is empty. -/
lemma finish_reverse (state : RawArguments) (part : List Word) (parts : List (List Word)) :
    (state.finish (Word.joined part)).reverse ++ argumentTexts parts =
      state.found.reverse ++ argumentTexts (part :: parts) := by
  rw [argumentTexts_cons]
  unfold RawArguments.finish
  split <;> simp

/-- At the end of input, and at a malformed token, the loop fails. -/
lemma not_accepted_rawArguments {fuel : Nat} (closed : state.closed = false)
    (bad : c.current.kind = .endOfInput ∨ c.current.kind.isMalformed = true) (last : RawArguments)
    (c₁ : Cursor) : (iterate rawArgumentStep fuel state).run dialect c ≠ .accepted last c₁ := by
  intro run
  cases fuel with
  | zero => exact not_accepted_exhausted run
  | succ fuel =>
    obtain ⟨next, c₂, step, -, -⟩ := accepted_bind run
    unfold rawArgumentStep at step
    rw [if_neg (by simp [closed]), run_current_bind] at step
    split at step
    · exact not_accepted_unexpected step
    · exact not_accepted_unexpected step
    all_goals simp_all [TokenKind.isMalformed]

/-- A step that takes one token. -/
lemma run_iterate_step {fuel : Nat} {next : RawArguments}
    (step : (rawArgumentStep state).run dialect c = .accepted (some next) c.advance) :
    (iterate rawArgumentStep (fuel + 1) state).run dialect c =
      (iterate rawArgumentStep fuel next).run dialect c.advance := by
  rw [iterate, run_bind, step]

/-- A step at a token that closes no argument takes it and updates the depth, as long as the last
argument is open. -/
lemma run_step_inside {depth : Nat} (closed : state.closed = false)
    (inside : depthStep state.depth c.current.kind = some depth) :
    (rawArgumentStep state).run dialect c = .accepted (some { state with depth }) c.advance := by
  have sound : c.current.kind.isMalformed = false := by
    generalize c.current.kind = kind at inside
    cases kind with
    | malformed => cases inside
    | _ => rfl
  unfold rawArgumentStep
  rw [if_neg (by simp [closed]), run_current_bind]
  split
  · next kind => simp [depthStep, kind] at inside
  · next kind => simp [depthStep, kind] at inside
  · next kind =>
    obtain rfl : state.depth + 1 = depth := by simpa [depthStep, kind] using inside
    exact run_advance_bind sound
  · next kind =>
    obtain ⟨inner, rfl⟩ : state.depth ≠ 0 ∧ state.depth - 1 = depth := by
      simpa [depthStep, kind] using inside
    rw [if_neg inner]
    exact run_advance_bind sound
  · next kind =>
    obtain ⟨inner, rfl⟩ : state.depth ≠ 0 ∧ state.depth = depth := by
      simpa [depthStep, kind] using inside
    rw [if_neg inner]
    exact run_advance_bind sound
  · obtain rfl : state.depth = depth := by simp_all [depthStep]
    exact run_advance_bind sound

/-- An argument ends at a comma or at the closing parenthesis. -/
lemma run_step_ends (closed : state.closed = false) (depth : state.depth = 0)
    (inside : c.Inside drift state.start part) (ahead : c.ahead ≠ []) :
    (c.current.kind = .symbol .rightParen → (rawArgumentStep state).run dialect c =
      .accepted (some { state with found := state.finish (Word.joined part), closed := true })
        c.advance) ∧
    (c.current.kind = .symbol .comma → (rawArgumentStep state).run dialect c =
      .accepted (some { state with
        found := state.finish (Word.joined part), start := c.advance.current.span.start })
        c.advance) := by
  constructor
  all_goals
    intro kind
    have sound : c.current.kind.isMalformed = false := by rw [kind]; rfl
    unfold rawArgumentStep
    rw [if_neg (by simp [closed]), run_current_bind, kind]
    dsimp only
    rw [if_pos depth, ← inside.text ahead]
    exact run_advance_bind sound

/-- **The loop over raw arguments splits the words ahead.**

**Proof sketch.** Induction on the tokens ahead. Each step takes one token, and the words before the
cursor are those of an argument that has been read in part. -/
lemma iterate_rawArguments {fuel : Nat} (enough : c.ahead.length < fuel)
    (closed : state.closed = false) (inside : c.Inside drift state.start part) :
    RawArguments.Comes drift state.found ((iterate rawArgumentStep fuel state).run dialect c)
      (splitArguments part state.depth c.spelled) := by
  induction size : c.ahead.length generalizing c state part fuel with
  | zero =>
    have empty := List.length_eq_zero_iff.mp size
    have spelled : c.spelled = [] := List.length_eq_zero_iff.mp (by simp [size])
    have kind : c.current.kind = .endOfInput := by
      unfold Cursor.current Cursor.peek
      rw [empty]
      exact inside.reachable.ends.1
    rw [spelled, splitArguments]
    exact not_accepted_rawArguments closed (.inl kind)
  | succ left ih =>
    obtain ⟨token, rest, ahead⟩ := List.exists_cons_of_length_eq_add_one size
    obtain ⟨word, spelled, kind⟩ := Cursor.spelled_cons ahead
    obtain ⟨fuel, rfl⟩ : ∃ more, fuel = more + 1 := ⟨fuel - 1, by omega⟩
    have left' : c.advance.ahead.length = left := by
      rw [Cursor.advance_ahead, List.length_tail, size, Nat.add_sub_cancel]
    have enough' : c.advance.ahead.length < fuel := by omega
    have more := inside.more spelled
    have open_ : ¬ state.closed = true := by simp [closed]
    -- after a token that belongs to the argument, the loop goes on with one more word
    have goes : ∀ depth, (rawArgumentStep state).run dialect c =
          .accepted (some { state with depth }) c.advance →
        RawArguments.Comes drift state.found
          ((iterate rawArgumentStep (fuel + 1) state).run dialect c)
          (splitArguments (part ++ [word]) depth c.advance.spelled) := by
      intro depth step
      rw [run_iterate_step step]
      have closed' : { state with depth }.closed = false := closed
      exact ih enough' closed' more left'
    rw [spelled]
    cases step : depthStep state.depth word.kind with
    | some depth =>
      rw [splitArguments_inside step, run_iterate_step (run_step_inside closed (kind ▸ step))]
      have closed' : ({ state with depth } : RawArguments).closed = false := closed
      exact ih enough' closed' more left'
    | none =>
      rcases depthStep_none step with bad | ⟨depth, ends⟩
      · rw [splitArguments_bad bad]
        exact not_accepted_rawArguments closed (kind ▸ bad)
      obtain ⟨close, comma⟩ :=
        @run_step_ends dialect drift c state part closed depth inside (by simp [ahead])
      rw [depth]
      rcases ends with is | is
      · rw [splitArguments_close is, run_iterate_step (close (kind ▸ is)),
          iterate_rawArguments_closed (by omega) rfl]
        refine ⟨⟨_, _, rfl, ?_, rfl⟩, by simpa using inside.words⟩
        simpa [argumentTexts] using finish_reverse state part []
      · rw [splitArguments_comma is, run_iterate_step (comma (kind ▸ is))]
        have closed' : ({ state with
            found := state.finish (Word.joined part),
            start := c.advance.current.span.start } : RawArguments).closed = false := closed
        have later := ih enough' closed' (.first inside.reachable) left'
        dsimp only at later
        rw [show splitArguments [] state.depth = splitArguments [] 0 by rw [depth]] at later
        cases split : splitArguments [] 0 c.advance.spelled with
        | none =>
          rw [split] at later
          exact later
        | some found =>
          obtain ⟨parts, rest⟩ := found
          rw [split] at later
          obtain ⟨⟨last, c₁, run, eq, spelled⟩, slices⟩ := later
          exact ⟨⟨last, c₁, run, by rw [eq, finish_reverse], spelled⟩,
            by simpa using ⟨inside.words, slices⟩⟩

/-- With more fuel a loop that ends does the same. -/
lemma iterate_more {σ : Type} {step : σ → Parser (Option σ)} {fuel fuel' : Nat} {s s₁ : σ}
    {c₁ : Cursor} (run : (iterate step fuel s).run dialect c = .accepted s₁ c₁)
    (more : fuel ≤ fuel') : (iterate step fuel' s).run dialect c = .accepted s₁ c₁ := by
  induction fuel generalizing s c fuel' with
  | zero => exact absurd run not_accepted_exhausted
  | succ fuel ih =>
    obtain ⟨fuel', rfl⟩ : ∃ more, fuel' = more + 1 := ⟨fuel' - 1, by omega⟩
    obtain ⟨next, c₂, first, -, run⟩ := accepted_bind run
    rw [iterate, run_bind, first]
    cases next with
    | none => exact run
    | some s₂ => exact ih run (by omega)

/-- Where a symbol is next, the tokens ahead are not exhausted. -/
lemma ahead_of_atSymbol {which : Symbol} (reached : c.Reachable drift)
    (at_ : c.view.atSymbol which = true) : c.ahead ≠ [] := by
  intro empty
  change c.current.isSymbol which = true at at_
  unfold Cursor.current Cursor.peek at at_
  rw [empty, Token.isSymbol_eq, TokenKind.isSymbol_iff] at at_
  exact absurd (reached.ends.1.symm.trans at_) (by simp)

/-- **Raw arguments are read as the words after the opening parenthesis are split.** -/
lemma rawArguments_accepts {fuel : Nat} {parts : List (List Word)} {rest : List Word}
    (reached : c.Reachable drift) (enough : c.ahead.length ≤ fuel)
    (open_ : c.view.atSymbol .leftParen = true)
    (split : splitArguments [] 0 c.advance.spelled = some (parts, rest)) :
    Accepts dialect (rawArguments fuel) c fun value c₁ =>
      value = argumentTexts parts ∧ c₁.spelled = rest := by
  have shorter : c.advance.ahead.length < fuel := by
    have := List.length_pos_iff.mpr (ahead_of_atSymbol reached open_)
    simp only [Cursor.advance_ahead, List.length_tail]
    omega
  have comes : RawArguments.Comes drift [] ((iterate rawArgumentStep fuel
      ⟨[], 0, c.advance.current.span.start, false⟩).run dialect c.advance)
      (splitArguments [] 0 c.advance.spelled) :=
    @iterate_rawArguments _ _ _ ⟨[], 0, c.advance.current.span.start, false⟩ _ _ shorter rfl
      (.first reached)
  rw [split] at comes
  obtain ⟨⟨state, c₁, run, eq, spelled⟩, -⟩ := comes
  refine ⟨_, _, ?_, eq, spelled⟩
  unfold rawArguments
  rw [run_expectSymbol_bind open_, run_here_bind, run_bind, run]
  rfl

/-- What is accepted as raw arguments are the texts of the arguments into which the words after the
opening parenthesis are split. -/
lemma accepted_rawArguments {fuel : Nat} {value : List String} {c₁ : Cursor}
    (reached : c.Reachable drift)
    (run : (rawArguments fuel).run dialect c = .accepted value c₁) :
    c.view.atSymbol .leftParen = true ∧ ∃ parts, splitArguments [] 0 c.advance.spelled =
        some (parts, c₁.spelled) ∧ value = argumentTexts parts ∧
      ∀ part ∈ parts, (Cursor.ofSource drift (Word.joined part)).words = Word.front part := by
  obtain ⟨open_, -, run⟩ := accepted_expectSymbol run
  rw [run_here_bind] at run
  obtain ⟨state, c₂, loop, -, run⟩ := accepted_bind run
  obtain ⟨rfl, rfl⟩ := accepted_pure run
  refine ⟨open_, ?_⟩
  -- a loop that was accepted is accepted with any larger bound
  have comes : RawArguments.Comes drift [] ((iterate rawArgumentStep
      (max fuel (c.advance.ahead.length + 1)) ⟨[], 0, c.advance.current.span.start, false⟩).run
      dialect c.advance) (splitArguments [] 0 c.advance.spelled) :=
    @iterate_rawArguments _ _ _ ⟨[], 0, c.advance.current.span.start, false⟩ _ _ (by omega) rfl
      (.first reached)
  rw [iterate_more loop (Nat.le_max_left ..)] at comes
  cases split : splitArguments [] 0 c.advance.spelled with
  | none =>
    rw [split] at comes
    exact absurd rfl (comes _ _)
  | some found =>
    obtain ⟨parts, rest⟩ := found
    rw [split] at comes
    obtain ⟨⟨_, _, same, eq, rfl⟩, slices⟩ := comes
    obtain ⟨rfl, rfl⟩ := Outcome.accepted.inj same
    exact ⟨parts, rfl, eq, slices⟩

/-- Raw arguments are read from whatever spells words that are split so. -/
lemma rawArguments_spells {fuel : Nat} {words rest : List Word} {parts : List (List Word)}
    (reached : c.Reachable drift) (enough : c.ahead.length ≤ fuel)
    (open_ : c.view.atSymbol .leftParen = true) (spells : c.advance.Spells words)
    (split : splitArguments [] 0 words = some (parts, rest))
    (fixed : ∀ argument ∈ parts, ∀ word ∈ argument.tail, word.gap ≠ none) :
    Accepts dialect (rawArguments fuel) c fun value c₁ =>
      value = argumentTexts parts ∧ c₁.Spells rest := by
  obtain ⟨parts', rest', split', fits, fitsRest⟩ := splitArguments_fits split .nil spells
  obtain ⟨value, c₁, run, rfl, spelled⟩ := rawArguments_accepts reached enough open_ split'
  refine ⟨_, _, run, ?_, ?_⟩
  · have same : parts'.map Word.joined = parts.map Word.joined := by
      clear split split' run
      induction fits with
      | nil => rfl
      | cons fits _ ih =>
        rw [List.map_cons, List.map_cons, Word.joined_fits fits (fixed _ List.mem_cons_self),
          ih fun argument mem => fixed argument (List.mem_cons_of_mem _ mem)]
    unfold argumentTexts
    rw [same]
  · unfold Cursor.Spells
    change List.Forall₂ _ c₁.spelled _
    rwa [spelled]

end Grammar

end SqlTree
