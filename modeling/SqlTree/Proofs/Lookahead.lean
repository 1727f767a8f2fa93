import SqlTree.Proofs.Malformed

set_option autoImplicit false

/-!
# Errors are local

A parser sees the token behind, the next three tokens, and source text from the start of a token
that it has reached. So a run depends on nothing that comes more than two tokens after the place
where it stops, and an error stays the same whatever comes later.

## Main definitions

* `SqlTree.Cursor.Agrees` — the same tokens come next at two places, with the same text.
* `SqlTree.Cursor.Abreast` — two places are the same number of tokens behind two others.
* `SqlTree.Cursor.tokensTo` — how many tokens are between two places.

## Main results

* `SqlTree.Parser.Orderly.run_abreast` — runs from places that agree stay abreast.
* `SqlTree.Entry.parseTokens_rejected` — what an error depends on.
* `SqlTree.Entry.parseTokens_unexpectedEnd` — where the input ends too early, nothing is wrong so
  far.
-/

namespace SqlTree

namespace Cursor

variable {origin other cursor place : Cursor} {count index : Nat}

/-! ## Places that agree -/

/-- The same tokens come next at both places: `count` of them, or all up to the end of input. The
sources have the same text from the start of each of them to the end of each of them. -/
structure Agrees (count : Nat) (origin other : Cursor) : Prop where
  tokens : origin.remaining.take count <+: other.remaining
  text : ∀ first ∈ origin.remaining.take count, ∀ last ∈ origin.remaining.take count,
    Text.slice? origin.source first.span.start last.span.stop =
      Text.slice? other.source first.span.start last.span.stop

/-- The remaining tokens are those ahead and the last one. -/
lemma length_remaining (cursor : Cursor) : cursor.remaining.length = cursor.ahead.length + 1 := by
  simp [remaining]

/-- Beyond the end of input is the end of input. -/
lemma peek_of_le {distance : Nat} (le : cursor.ahead.length ≤ distance) :
    cursor.peek distance = cursor.last :=
  List.getD_eq_default _ _ le

/-- What is seen from near is among the first tokens. -/
lemma peek_mem_take {distance : Nat} (lt : distance < count) :
    origin.peek distance ∈ origin.remaining.take count := by
  have near {i : Nat} (lt : i < count) (le : i ≤ origin.ahead.length) :
      origin.peek i ∈ origin.remaining.take count := by
    obtain ⟨inside, eq⟩ := List.getElem?_eq_some_iff.mp (peek_eq_remaining i le)
    rw [← eq]
    exact List.mem_take_iff_getElem.mpr ⟨i, by omega, rfl⟩
  rcases Nat.le_total distance origin.ahead.length with le | ge
  · exact near lt le
  · rw [peek_of_le ge, ← peek_of_le (Nat.le_refl _)]
    exact near (by omega) (Nat.le_refl _)

/-- Places that agree for so many tokens agree for fewer. -/
lemma Agrees.mono {fewer : Nat} (agrees : origin.Agrees count other) (le : fewer ≤ count) :
    origin.Agrees fewer other where
  tokens := (List.take_prefix_take_left le).trans agrees.tokens
  text := fun first isFirst last isLast =>
    have sub : origin.remaining.take fewer ⊆ origin.remaining.take count :=
      List.take_subset_take_left _ le
    agrees.text first (sub isFirst) last (sub isLast)

/-- Places that agree show the same tokens.

**Proof sketch.** Within the tokens ahead, what is seen is a token of the common prefix. Beyond them
the end of the input is seen from `origin`, and from `other` as well, because its prefix has the end
in the same place and no end stands before its own. -/
lemma Agrees.peek (agrees : origin.Agrees count other) (ends : origin.Ends)
    (inner : ∀ token ∈ other.ahead, token.kind ≠ .endOfInput) {distance : Nat}
    (lt : distance < count) : other.peek distance = origin.peek distance := by
  have near {i : Nat} (lt : i < count) (le : i ≤ origin.ahead.length) :
      i ≤ other.ahead.length ∧ other.peek i = origin.peek i := by
    have here := peek_eq_remaining i le
    rw [← List.getElem?_take_of_lt lt] at here
    obtain ⟨inside, eq⟩ := List.getElem?_eq_some_iff.mp here
    have there := List.prefix_iff_getElem?.mp agrees.tokens i inside
    have le' : i ≤ other.ahead.length := by
      have := (List.getElem?_eq_some_iff.mp there).1
      rw [length_remaining] at this
      omega
    rw [peek_eq_remaining i le', eq] at there
    exact ⟨le', Option.some.inj there⟩
  rcases Nat.le_total distance origin.ahead.length with le | ge
  · exact (near lt le).2
  · -- the end of input is at the same distance from both places
    obtain ⟨le, same⟩ := near (Nat.lt_of_le_of_lt ge lt) (Nat.le_refl _)
    rw [peek_of_le (Nat.le_refl _)] at same
    have isLast : other.ahead.length = origin.ahead.length := by
      by_contra other'
      have lt : origin.ahead.length < other.ahead.length := by omega
      refine inner (other.ahead[origin.ahead.length]) (List.getElem_mem lt) ?_
      have here : other.peek origin.ahead.length = other.ahead[origin.ahead.length] := by
        simp [Cursor.peek, lt]
      rw [← here, same]
      exact ends
    rw [peek_of_le ge, peek_of_le (by omega), ← same, peek_of_le (by omega)]

/-- There is no text between a place and itself. -/
lemma slice_self (cursor : Cursor) (start : Nat) : cursor.slice start start = "" := by
  unfold slice Text.slice?
  rw [if_pos (Nat.le_refl start), Nat.sub_self]
  cases Text.dropBytes? cursor.source.toList start <;> simp [Text.takeBytes?]

/-! ## Places abreast -/

/-- Two places are `index` tokens behind two others, after the same token. -/
structure Abreast (origin other : Cursor) (index : Nat) (cursor place : Cursor) : Prop where
  first : cursor = advance^[index] origin
  second : place = advance^[index] other
  taken : cursor.ahead.length + index = origin.ahead.length
  taken' : place.ahead.length + index = other.ahead.length
  previous : place.previous = cursor.previous
  behind : ∃ i ≤ index, cursor.previous = origin.peek i

namespace Abreast

variable (abreast : Abreast origin other index cursor place)
include abreast

/-- What the first place sees is seen from its origin. -/
lemma peek_first (distance : Nat) : cursor.peek distance = origin.peek (index + distance) := by
  rw [abreast.first, peek_iterate_advance]

/-- What the second place sees is seen from its origin. -/
lemma peek_second (distance : Nat) : place.peek distance = other.peek (index + distance) := by
  rw [abreast.second, peek_iterate_advance]

/-- The first place ends like its origin. -/
lemma ends_first (ends : origin.Ends) : cursor.Ends := by
  rw [Ends, abreast.first, (iterate_advance origin index).2.1]
  exact ends

/-- The second place ends like its origin. -/
lemma ends_second (ends : other.Ends) : place.Ends := by
  rw [Ends, abreast.second, (iterate_advance other index).2.1]
  exact ends

/-- The first place has the source of its origin. -/
lemma source_first : cursor.source = origin.source := by
  rw [abreast.first]
  exact (iterate_advance origin index).2.2

/-- The second place has the source of its origin. -/
lemma source_second : place.source = other.source := by
  rw [abreast.second]
  exact (iterate_advance other index).2.2

/-- Both places move on by a token that both show. -/
lemma advance (some : cursor.ahead ≠ []) (some' : place.ahead ≠ [])
    (same : place.current = cursor.current) :
    Abreast origin other (index + 1) cursor.advance place.advance where
  first := by rw [Function.iterate_succ_apply', ← abreast.first]
  second := by rw [Function.iterate_succ_apply', ← abreast.second]
  taken := by
    have := abreast.taken
    have := length_ahead some
    omega
  taken' := by
    have := abreast.taken'
    have := length_ahead some'
    omega
  previous := by rw [advance_previous some, advance_previous some', same]
  behind := ⟨index, Nat.le_succ _, by
    rw [advance_previous some, Cursor.current, abreast.peek_first, Nat.add_zero]⟩

variable (agrees : origin.Agrees count other) (ends : origin.Ends)
  (inner : ∀ token ∈ other.ahead, token.kind ≠ .endOfInput)
include agrees

include ends inner in
/-- What parsers see is the same. -/
lemma view (enough : index + 3 ≤ count) : place.view = cursor.view := by
  have same (distance : Nat) (lt : distance < 3) : place.peek distance = cursor.peek distance := by
    rw [abreast.peek_first, abreast.peek_second]
    exact agrees.peek ends inner (by omega)
  unfold Cursor.view
  rw [abreast.previous, same 0 (by omega), same 1 (by omega), same 2 (by omega)]

/-- The text behind is the same. -/
lemma textFrom (enough : index + 3 ≤ count) {start : Nat} (passes : origin.Passes cursor start) :
    place.textFrom start = cursor.textFrom start := by
  obtain ⟨first, ⟨steps, rfl, -⟩, ⟨more, later, -⟩, rfl⟩ := passes
  -- the text starts at a token that has been taken, or at the end of input
  obtain ⟨i, le, eq⟩ : ∃ i ≤ index, (Cursor.advance^[steps] origin).current = origin.peek i := by
    rw [Cursor.current, peek_iterate_advance, Nat.add_zero]
    rcases Nat.le_total steps index with le | ge
    · exact ⟨steps, le, rfl⟩
    · have taken := abreast.taken
      rw [later, (iterate_advance _ more).1, (iterate_advance origin steps).1, List.length_drop,
        List.length_drop] at taken
      by_cases last : steps = index
      · exact ⟨steps, Nat.le_of_eq last, rfl⟩
      · exact ⟨index, Nat.le_refl _, by rw [peek_of_le, peek_of_le] <;> omega⟩
  obtain ⟨j, le', behind⟩ := abreast.behind
  unfold Cursor.textFrom stopAfter
  rw [abreast.previous, eq, behind]
  rcases Nat.le_total (origin.peek j).span.stop (origin.peek i).span.start with before | after
  · rw [Nat.max_eq_right before, slice_self, slice_self]
  · unfold slice
    rw [Nat.max_eq_left after, abreast.source_first, abreast.source_second,
      agrees.text _ (peek_mem_take (by omega)) _ (peek_mem_take (by omega))]

end Abreast

end Cursor

/-! ## Runs abreast -/

namespace Parser

open Cursor

variable {α : Type} {origin other cursor place : Cursor} {count index : Nat} {good : α → Prop}
  {parser : Parser α} (dialect : Dialect)

/-- No run goes back. -/
lemma length_run (parser : Parser α) (cursor : Cursor) :
    (parser.run dialect cursor).cursor.ahead.length ≤ cursor.ahead.length := by
  induction parser generalizing cursor with
  | done | reject => exact Nat.le_refl _
  | look next ih | ask next ih | read start next ih => exact ih _ _
  | take next ih =>
    have le := Nat.le_trans (ih cursor.current cursor.advance) cursor.length_advance
    simp only [run]
    split
    · exact Nat.le_refl _
    · omega
  | demand feature construct span next ih =>
    simp only [run]
    split
    · exact ih _ _
    · exact Nat.le_refl _

/-- **A run sees no further than two tokens beyond the next one.** Runs from places that agree up to
there have the same result, and they stop abreast.

**Proof sketch.** By induction on the parser. It sees no more than the next three tokens at each
place, and these agree (`Agrees.peek`), because so many tokens are left to the first run that
`index` is far from `count`. So each step is the same in both runs, and the places stay abreast.
Where an earlier part of the source is read, it is the same by assumption. -/
lemma Orderly.run_abreast (orderly : parser.Orderly origin cursor good)
    (agrees : origin.Agrees count other) (ends : origin.Ends) (ends' : other.Ends)
    (inner : ∀ token ∈ other.ahead, token.kind ≠ .endOfInput)
    (abreast : Abreast origin other index cursor place)
    (enough : origin.ahead.length + 3 ≤ count + (parser.run dialect cursor).cursor.ahead.length) :
    (parser.run dialect place).result = (parser.run dialect cursor).result ∧
      ∃ last, Abreast origin other last (parser.run dialect cursor).cursor
        (parser.run dialect place).cursor := by
  have near : index + 3 ≤ count := by
    have := length_run dialect parser cursor
    have := abreast.taken
    omega
  induction parser generalizing cursor place index with
  | done value | reject error => exact ⟨rfl, index, abreast⟩
  | look next ih =>
    have same := abreast.view agrees ends inner near
    simp only [run, same] at enough ⊢
    exact ih _ orderly abreast enough near
  | take next ih =>
    obtain ⟨proper, orderly⟩ := orderly
    have same : place.current = cursor.current :=
      congrArg View.current (abreast.view agrees ends inner near)
    have some : cursor.ahead ≠ [] :=
      ahead_of_proper (abreast.ends_first ends) proper
    have some' : place.ahead ≠ [] :=
      ahead_of_proper (abreast.ends_second ends') (same ▸ proper)
    have moved := abreast.advance some some' same
    rw [run_take proper.sound] at enough ⊢
    rw [run_take (same ▸ proper.sound), same]
    refine ih _ orderly moved enough ?_
    have := length_run dialect (next cursor.current) cursor.advance
    have := moved.taken
    omega
  | demand feature construct span next ih =>
    simp only [run] at enough ⊢
    split
    · next has =>
      rw [if_pos has] at enough
      exact ih _ orderly.2 abreast enough near
    · exact ⟨rfl, index, abreast⟩
  | ask next ih => exact ih _ (orderly.2 _) abreast enough near
  | read start next ih =>
    have same := abreast.textFrom agrees near orderly.1
    simp only [run, same] at enough ⊢
    exact ih _ (orderly.2 _) abreast enough near

end Parser

/-! ## What an error depends on -/

/-- The number of tokens from a place to a later one. -/
def Cursor.tokensTo (origin stop : Cursor) : Nat :=
  origin.ahead.length - stop.ahead.length

namespace Cursor

/-- Two places that agree are abreast with themselves at the start of their sources. -/
lemma Agrees.abreast {source source' : String} {tokens tokens' : List Token} {count : Nat}
    (agrees : (ofTokens source tokens).Agrees count (ofTokens source' tokens')) (some : 0 < count) :
    Abreast (ofTokens source tokens) (ofTokens source' tokens') 0 (ofTokens source tokens)
      (ofTokens source' tokens') where
  first := rfl
  second := rfl
  taken := rfl
  taken' := rfl
  previous := by
    rw [previous_ofTokens, previous_ofTokens]
    exact agrees.peek (ends_ofTokens source tokens) (inner_ofTokens source' tokens') some
  behind := ⟨0, Nat.le_refl 0, previous_ofTokens source tokens⟩

end Cursor

/-! ## Rejections that can be computed -/

/-- A mapped outcome that is a rejection comes from the same rejection. -/
lemma Outcome.eq_rejected_of_map {α β : Type} {f : α → β} {outcome : Outcome α}
    {error : ParseError} {stop : Cursor} (same : outcome.map f = .rejected error stop) :
    outcome = .rejected error stop := by
  cases outcome with
  | accepted value place => cases same
  | rejected other place =>
    rw [Outcome.map] at same
    obtain ⟨rfl, rfl⟩ := Outcome.rejected.inj same
    rfl

namespace Entry

open Cursor

/-- An error arises at a place that is reached, and fits this place. -/
lemma parseTokens_fits {entry : Entry} {dialect : Dialect} {source : String} {tokens : List Token}
    {error : ParseError} {stop : Cursor}
    (failed : entry.parseTokens dialect source tokens = .rejected error stop) :
    (ofTokens source tokens).Reaches stop ∧ error.Fits (ofTokens source tokens) stop :=
  (entry.parser_orderly _ _ (ends_ofTokens source tokens)
    (inner_ofTokens source tokens)).rejected (.refl _) failed

/-- An error that tells of the end of input arises there. -/
lemma ahead_of_unexpectedEnd {origin stop : Cursor} {error : ParseError}
    (inner : ∀ token ∈ origin.ahead, token.kind ≠ .endOfInput) (reached : origin.Reaches stop)
    (fits : error.Fits origin stop) (ended : error.kind = .unexpectedEnd) : stop.ahead = [] := by
  cases error with
  | unexpected expected found =>
    obtain rfl : found = stop.current := fits
    have isEnd := ParseError.found_of_unexpectedEnd ended
    obtain ⟨count, rfl, -⟩ := reached
    by_contra some
    refine inner _ ?_ isEnd
    obtain ⟨token, others, eq⟩ := List.exists_cons_of_ne_nil some
    have mem : token ∈ (advance^[count] origin).ahead := by rw [eq]; exact List.mem_cons_self
    rw [(iterate_advance origin count).1] at mem
    simpa [Cursor.current, Cursor.peek, eq] using List.mem_of_mem_drop mem
  | unsupported construct name span | invalid reason span | exhausted span =>
    simp [ParseError.kind] at ended

/-- Tokens that agree up to two behind the next one at the place where the parser stops are read
alike, up to the same place. -/
lemma parseTokens_abreast (entry : Entry) (dialect : Dialect) {source source' : String}
    {tokens tokens' : List Token} {place : Cursor}
    (stops : (entry.parseTokens dialect source tokens).cursor = place)
    (agrees : (ofTokens source tokens).Agrees ((ofTokens source tokens).tokensTo place + 3)
      (ofTokens source' tokens')) :
    (entry.parseTokens dialect source' tokens').result =
        (entry.parseTokens dialect source tokens).result ∧
      (ofTokens source' tokens').tokensTo (entry.parseTokens dialect source' tokens').cursor =
        (ofTokens source tokens).tokensTo place := by
  have ends := ends_ofTokens source tokens
  have ends' := ends_ofTokens source' tokens'
  have inner := inner_ofTokens source tokens
  have inner' := inner_ofTokens source' tokens'
  -- both runs are runs of one parser, with bounds that suffice for either
  obtain ⟨bound, enough, enough'⟩ : ∃ bound, (ofTokens source tokens).ahead.length < bound ∧
      (ofTokens source' tokens').ahead.length < bound :=
    ⟨_, Nat.lt_succ_of_le (Nat.le_max_left _ _), Nat.lt_succ_of_le (Nat.le_max_right _ _)⟩
  unfold parseTokens at stops ⊢
  rw [← Grammar.run_of_enough entry ends enough enough] at stops ⊢
  rw [← Grammar.run_of_enough entry ends' enough' enough']
  have orderly := entry.parser_orderly bound bound ends inner
  have le := Parser.length_run dialect (entry.parser (Grammar.rules bound bound))
    (ofTokens source tokens)
  rw [stops] at le
  obtain ⟨same, last, abreast⟩ := orderly.run_abreast dialect agrees ends ends' inner'
    (agrees.abreast (Nat.succ_pos _)) (by rw [stops, tokensTo]; omega)
  rw [stops] at abreast
  refine ⟨same, ?_⟩
  have taken := abreast.taken
  have taken' := abreast.taken'
  unfold tokensTo
  omega

/-- **Errors are local and final.** An error depends on the tokens up to two behind the next one at
the place where it arises, and on the text up to there. Any other tokens that agree so far are
rejected with the same error, at the same place. -/
theorem parseTokens_rejected (entry : Entry) (dialect : Dialect) {source source' : String}
    {tokens tokens' : List Token} {error : ParseError} {stop : Cursor}
    (failed : entry.parseTokens dialect source tokens = .rejected error stop)
    (agrees : (ofTokens source tokens).Agrees ((ofTokens source tokens).tokensTo stop + 3)
      (ofTokens source' tokens')) :
    ∃ stop', entry.parseTokens dialect source' tokens' = .rejected error stop' ∧
      (ofTokens source' tokens').tokensTo stop' = (ofTokens source tokens).tokensTo stop := by
  obtain ⟨same, taken⟩ := parseTokens_abreast entry dialect (congrArg Outcome.cursor failed) agrees
  rw [failed] at same
  cases again : entry.parseTokens dialect source' tokens' with
  | accepted value stop' =>
    rw [again] at same
    exact nomatch same
  | rejected error' stop' =>
    rw [again] at same taken
    obtain rfl : error' = error := Except.error.inj same
    exact ⟨stop', rfl, taken⟩

/-- A missing result column is told of before the rest of a script is seen. -/
theorem parseTokens_rejected_select :
    let error := .unexpected "expression" ⟨.keyword .FROM, "FROM", ⟨7, 11, 1, 8⟩⟩
    let start := ofTokens "SELECT FROM a b" (tokenize false "SELECT FROM a b")
    let start' := ofTokens "SELECT FROM a b; c" (tokenize false "SELECT FROM a b; c")
    Entry.script.parseTokens .generic "SELECT FROM a b" (tokenize false "SELECT FROM a b") =
        .rejected error start.advance ∧
      start.tokensTo start.advance = 1 ∧ start.Agrees 4 start' ∧
      ∃ stop', Entry.script.parseTokens .generic "SELECT FROM a b; c"
          (tokenize false "SELECT FROM a b; c") = .rejected error stop' ∧
        start'.tokensTo stop' = 1 := by
  let given : List Token :=
    [⟨.keyword .SELECT, "SELECT", ⟨0, 6, 1, 1⟩⟩, ⟨.keyword .FROM, "FROM", ⟨7, 11, 1, 8⟩⟩,
      ⟨.identifier "a", "a", ⟨12, 13, 1, 13⟩⟩, ⟨.identifier "b", "b", ⟨14, 15, 1, 15⟩⟩]
  have tokens : tokenize false "SELECT FROM a b" =
      given ++ [⟨.endOfInput, "", ⟨15, 15, 1, 16⟩⟩] := rfl
  have tokens' : tokenize false "SELECT FROM a b; c" =
      given ++ [⟨.symbol .semicolon, ";", ⟨15, 16, 1, 16⟩⟩, ⟨.identifier "c", "c", ⟨17, 18, 1, 18⟩⟩,
        ⟨.endOfInput, "", ⟨18, 18, 1, 19⟩⟩] := rfl
  rw [tokens, tokens']
  intro error start start'
  have failed : Entry.script.parseTokens .generic "SELECT FROM a b"
      (given ++ [⟨.endOfInput, "", ⟨15, 15, 1, 16⟩⟩]) = .rejected error start.advance :=
    Outcome.eq_rejected_of_map (f := fun _ => ()) (by decide +kernel)
  have agrees : start.Agrees (start.tokensTo start.advance + 3) start' :=
    ⟨⟨_, rfl⟩, by decide +kernel⟩
  exact ⟨failed, rfl, agrees, parseTokens_rejected .script .generic failed agrees⟩

/-- **Where the input ends too early, nothing is wrong so far.** However the input goes on, it is
not rejected before the last two of the tokens that were there: an error further ahead would have
been told of instead of the end. -/
theorem parseTokens_unexpectedEnd (entry : Entry) (dialect : Dialect) {source source' : String}
    {tokens tokens' : List Token} {error error' : ParseError} {stop stop' : Cursor}
    (failed : entry.parseTokens dialect source tokens = .rejected error stop)
    (ended : error.kind = .unexpectedEnd)
    (longer : (ofTokens source' tokens').Agrees (ofTokens source tokens).ahead.length
      (ofTokens source tokens))
    (failed' : entry.parseTokens dialect source' tokens' = .rejected error' stop') :
    (ofTokens source tokens).ahead.length < (ofTokens source' tokens').tokensTo stop' + 3 := by
  by_contra early
  have stops : (entry.parseTokens dialect source' tokens').cursor = stop' := by
    rw [failed', Outcome.cursor]
  obtain ⟨-, taken⟩ := parseTokens_abreast entry dialect stops (longer.mono (by omega))
  obtain ⟨reached, fits⟩ := parseTokens_fits failed
  -- only the end of input is told of as one, and it is behind all tokens
  have atEnd : stop.ahead = [] := ahead_of_unexpectedEnd (inner_ofTokens _ _) reached fits ended
  rw [failed, tokensTo, Outcome.cursor, atEnd, List.length_nil, Nat.sub_zero] at taken
  omega

end Entry

end SqlTree
