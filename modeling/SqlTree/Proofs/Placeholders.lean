import SqlTree.Proofs.Delimits
import SqlTree.Proofs.Walks

set_option autoImplicit false

/-!
# Placeholders that stand alone

In drift files a Dart placeholder that is the whole item of a sorting clause, or the whole of a
limit, stands for that item or limit, and not for an expression in it. The parser looks at the token
after the placeholder to tell the two apart. What is said here is about the tokens that an item or a
limit is written with, and about those after it.

The token that is looked at could go on with the placeholder although the item ends before it. So
that it does not has to come from where the item stands: wherever a sorting clause or a limit can
end, no operator can follow.

## Main definitions

* `SqlTree.Span.Covers` — the tokens of a source that a span covers.
* `SqlTree.OrderingTerm.Written`, `SqlTree.LimitKind.Written` — how the tokens of a term or a limit
  are shared out to its parts.
* `SqlTree.OrderingItem.IsRight`, `SqlTree.Limit.IsRight` — placeholders are told from expressions.

## Main results

* `SqlTree.Grammar.orderingItem_right`, `SqlTree.Grammar.limit_right` — one item, and one limit.
* `SqlTree.Entry.placeholders_alone` — all items and limits of an accepted source.
-/

namespace SqlTree

open SqlTree.Parser SqlTree.Grammar

/-! ## The tokens of a span -/

/-- These tokens of the source are covered by the span, which goes from the first of them to the
last one. The others come after them. -/
structure Span.Covers (drift : Bool) (source : String) (span : Span) (tokens after : List Token) :
    Prop where
  adjacent : tokens ++ after <:+ (Cursor.ofSource drift source).ahead
  nonempty : tokens ≠ []
  first : ∀ token ∈ tokens.head?, span.start = token.span.start ∧ span.line = token.span.line ∧
    span.column = token.span.column
  last : ∀ token ∈ tokens.getLast?, span.stop = token.span.stop

/-- The span of a single token. -/
lemma Span.Covers.single {drift : Bool} {source : String} {span : Span} {token : Token}
    {after : List Token} (covers : span.Covers drift source [token] after) :
    span = token.span := by
  obtain ⟨start, line, column⟩ := covers.first token rfl
  have stop := covers.last token rfl
  cases span
  simp_all

/-- The token is a Dart placeholder with this name. -/
def Token.IsPlaceholder (name : String) (token : Token) : Prop :=
  token.kind = .variable (.named .dollar name)

namespace Cursor

variable {drift : Bool} {cursor stop : Cursor} {token next : Token} {tokens rest : List Token}

/-- The next token is the first one ahead. -/
lemma current_of_ahead (ahead : cursor.ahead = token :: rest) : cursor.current = token := by
  simp [current, peek, ahead]

/-- The next token is the head of those ahead. -/
lemma current_of_head (head : token ∈ cursor.ahead.head?) : cursor.current = token := by
  obtain ⟨rest, ahead⟩ := List.head?_eq_some_iff.mp head
  exact current_of_ahead ahead

/-- The token after the next one is the second one ahead. -/
lemma peek_one_of_ahead (ahead : cursor.ahead = token :: next :: rest) :
    cursor.peek 1 = next := by
  simp [peek, ahead]

/-- What is second is next after the first token. -/
lemma peek_one_of_single (ahead : cursor.ahead = [token] ++ stop.ahead)
    (last : cursor.last = stop.last) : cursor.peek 1 = stop.current := by
  simp [peek, current, ahead, last]

/-- Cursors of one source have the same last token. -/
lemma Reachable.last_eq (reached : cursor.Reachable drift) (reached' : stop.Reachable drift)
    (source : cursor.source = stop.source) : cursor.last = stop.last := by
  obtain ⟨count, eq⟩ := reached
  obtain ⟨count', eq'⟩ := reached'
  rw [eq, eq', (iterate_advance _ count).2.1, (iterate_advance _ count').2.1, source]

/-- Where the next token is not the end, it is the first one ahead. -/
lemma Reachable.ahead_eq (reached : cursor.Reachable drift)
    (proper : cursor.current.kind ≠ .endOfInput) :
    cursor.ahead = cursor.current :: cursor.advance.ahead := by
  rw [advance_ahead]
  cases ahead : cursor.ahead with
  | nil => exact absurd (by simpa [current, peek, ahead] using reached.ends.1) proper
  | cons token rest => rw [current_of_ahead ahead, List.tail_cons]

/-- Where a keyword is next, it is the first token ahead. -/
lemma Reachable.ahead_of_atKeyword {word : Keyword} (reached : cursor.Reachable drift)
    (at_ : cursor.view.atKeyword word = true) :
    cursor.ahead = cursor.current :: cursor.advance.ahead :=
  reached.ahead_eq (by simp [Rereading.kind_of_atKeyword at_])

/-- What ends past the operators after its first token goes on with an operator that is second. -/
lemma PastOperators.two (past : stop.PastOperators) (nonempty : tokens ≠ [])
    (ahead : tokens ++ stop.ahead = token :: next :: rest)
    (operator : (infixPower next.kind).isSome = true) : ∃ more, tokens = token :: next :: more := by
  match tokens with
  | [] => exact absurd rfl nonempty
  | [_] =>
    have current := current_of_ahead (List.tail_eq_of_cons_eq ahead)
    rw [← current, past] at operator
    exact absurd operator (by simp)
  | _ :: _ :: more =>
    simp only [List.cons_append, List.cons.injEq] at ahead
    exact ⟨more, by rw [ahead.1, ahead.2.1]⟩

end Cursor

namespace Grammar

section

variable {dialect : Dialect} {source : String} {cursor stop : Cursor} {bound depth : Nat}

/-- **A span covers what its node has been read from.**

**Proof sketch.** The two cursors are at the places of two tokens of the source. The tokens between
them are a slice of those ahead, whose first and last are the ones that the node is placed between.
The span of a placed node starts and ends with these. -/
lemma PlacedBetween.covers {node : Node} (placed : PlacedBetween dialect source cursor stop node) :
    ∃ tokens, cursor.ahead = tokens ++ stop.ahead ∧
      node.span.Covers dialect.isDrift source tokens stop.ahead := by
  obtain ⟨i, j, le, rfl, rfl, placed⟩ := placed
  have lt := placed.lt
  have ahead (k : Nat) : (Cursor.advance^[k] (dialect.start source)).ahead =
      (dialect.start source).ahead.drop k := (Cursor.iterate_advance _ k).1
  let all := (dialect.start source).ahead
  have size : all.length = (Tape.ofSource dialect.isDrift source).count := rfl
  have token (k : Nat) (inside : k < all.length) :
      all[k]? = some ((Tape.ofSource dialect.isDrift source).token k) := by
    change all[k]? = some (all.getD k _)
    rw [List.getD_eq_getElem _ _ inside, List.getElem?_eq_getElem inside]
  have split : (all.drop i).take (j - i) ++ all.drop j = all.drop i := by
    conv_rhs => rw [← List.take_append_drop (j - i) (all.drop i)]
    rw [List.drop_drop, Nat.add_sub_of_le (Nat.le_of_lt lt)]
  have length : ((all.drop i).take (j - i)).length = j - i := by
    rw [List.length_take, List.length_drop]
    omega
  refine ⟨(all.drop i).take (j - i), by rw [ahead, ahead, split], ?_, ?_, ?_, ?_⟩
  · rw [ahead]
    change (all.drop i).take (j - i) ++ all.drop j <:+ all
    rw [split]
    exact List.drop_suffix i all
  · rw [← List.length_pos_iff, length]
    omega
  · rw [List.head?_take, if_neg (by omega), List.head?_drop, token i (by omega)]
    rintro _ ⟨rfl⟩
    exact ⟨placed.starts.start, placed.starts.line, placed.starts.column⟩
  · rw [List.getLast?_eq_getElem?, length, List.getElem?_take_of_lt (by omega), List.getElem?_drop,
      show i + (j - i - 1) = j - 1 by omega, token (j - 1) (by omega), placed.span]
    rintro _ ⟨rfl⟩
    exact Tape.extent_stop i j

/-- The span of an expression covers what the expression has been read from. -/
lemma expr_covers {expr : Expr} (here : (Site.within dialect source).holds cursor)
    (run : (rules bound depth).expr.run dialect cursor = .accepted expr stop) :
    ∃ tokens, cursor.ahead = tokens ++ stop.ahead ∧
      expr.span.Covers dialect.isDrift source tokens stop.ahead :=
  (placedBetween (rules_laid bound depth).expr
    (fun S => (rules_careful S bound depth).operators 0) here run).covers

end

/-- The next token is a placeholder with this name. -/
lemma dollarName_of_ahead {cursor : Cursor} {token : Token} {rest : List Token} {name : String}
    (ahead : cursor.ahead = token :: rest) (placeholder : token.IsPlaceholder name) :
    cursor.view.dollarName? = some name :=
  Rereading.dollarName_of_kind (by rw [Cursor.current_of_ahead ahead, placeholder])

end Grammar

/-! ## Clauses that start with an expression -/

/-- The first of the tokens of a clause are this expression, and the others are what may modify it.
If the clause starts with a placeholder, then more is written than the placeholder. -/
structure Expr.Leads (drift : Bool) (source : String) (modifies : Token → Bool) (expr : Expr)
    (first others after : List Token) : Prop where
  covers : expr.span.Covers drift source first (others ++ after)
  not_alone : ∀ token name, first ++ others = [token] → ¬ token.IsPlaceholder name
  not_bare : ∀ name span, expr = .placeholder name span → others ≠ []
  operator : ∀ token next rest, first ++ others ++ after = token :: next :: rest →
    (infixPower next.kind).isSome = true → ∃ more, first = token :: next :: more
  modified : ∀ token next name rest, first ++ others ++ after = token :: next :: rest →
    token.IsPlaceholder name → modifies next = true →
    expr = .placeholder name token.span ∧ first = [token] ∧ ∃ more, others = next :: more

namespace Grammar

section

variable {dialect : Dialect} {source : String} {cursor middle : Cursor} {bound depth : Nat}
  {modifies : Token → Bool} {name : String} {first others after : List Token} {expr : Expr}

/-- **An expression that no placeholder has been taken for leads its clause.** No operator is after
it, and if nothing else is written then nothing after it could modify it.

**Proof sketch.** The expression covers the tokens `first` up to `middle` (`expr_covers`). As a run
of the operator loop, it ends where no operator follows, so none follows it. If it were a single
placeholder with nothing that modifies it after it, that placeholder would have stood alone, against
the assumption. -/
lemma expr_leads (drift : dialect.isDrift = true) (here : (Site.within dialect source).holds cursor)
    (noOperator : ∀ token, modifies token = true → infixPower token.kind = none)
    (lone : atLonePlaceholder modifies cursor.view = none)
    (run : (rules bound depth).expr.run dialect cursor = .accepted expr middle)
    (past : middle.PastOperators) (ahead : middle.ahead = others ++ after)
    (plain : others = [] → modifies middle.current = false) :
    ∃ first, cursor.ahead = first ++ others ++ after ∧
      expr.Leads dialect.isDrift source modifies first others after := by
  obtain ⟨first, ahead₁, covers⟩ := expr_covers here run
  have here₁ := Site.holds_of_accepted here run
  have sound := rules_sound dialect bound depth
  have whole : cursor.ahead = first ++ others ++ after := by
    rw [ahead₁, ahead, List.append_assoc]
  -- a placeholder before the end of the clause would have been one for the whole clause
  have more {name : String} (dollar : cursor.view.dollarName? = some name)
      (second : cursor.peek 1 = middle.current) : others ≠ [] := by
    intro empty
    rw [Rereading.atLonePlaceholder_of dollar (second ▸ plain empty) (second ▸ past)] at lone
    exact absurd lone (by simp)
  refine ⟨first, whole, ahead ▸ covers, ?_, ?_, ?_, ?_⟩
  · intro token name single placeholder
    obtain ⟨rfl, rfl⟩ | ⟨rfl, rfl⟩ := List.append_eq_singleton_iff.mp single
    · exact absurd rfl covers.nonempty
    · refine absurd rfl (more (dollarName_of_ahead ahead₁ placeholder) ?_)
      exact Cursor.peek_one_of_single ahead₁ (here.1.last_eq here₁.1 (here.2.trans here₁.2.symm))
  · rintro name span rfl
    obtain ⟨dollar, rfl⟩ := sound.placeholder run
    exact more dollar (Cursor.peek_advance 0).symm
  · intro token next rest eq operator
    rw [List.append_assoc, ← ahead] at eq
    exact past.two covers.nonempty eq operator
  · intro token next name rest eq placeholder modifies
    rw [← whole] at eq
    have dollar := dollarName_of_ahead eq placeholder
    obtain ⟨⟨span, rfl⟩, rfl⟩ := sound.alone run dollar drift
      (Cursor.peek_one_of_ahead eq ▸ noOperator next modifies)
    have tail : cursor.advance.ahead = next :: rest := by
      rw [Cursor.advance_ahead, eq, List.tail_cons]
    have same : [token] ++ cursor.advance.ahead = first ++ cursor.advance.ahead := by
      rw [← ahead₁, eq, tail, List.singleton_append]
    obtain rfl : [token] = first := List.append_cancel_right same
    refine ⟨congrArg _ covers.single, rfl, ?_⟩
    match others, more dollar (Cursor.peek_advance 0).symm with
    | [], nonempty => exact absurd rfl nonempty
    | word :: others, _ =>
      rw [tail, List.cons_append, List.cons.injEq] at ahead
      exact ⟨others, by rw [ahead.1]⟩

end

end Grammar

/-! ## Sorting clauses -/

/-- The keywords after the expression of a sorting term. -/
def OrderingTerm.keywords (term : OrderingTerm) : List Keyword :=
  (term.direction.elim [] fun direction => [direction.keyword]) ++
    term.nulls.elim [] NullOrdering.keywords

/-- The first of these tokens are the expression of the term, and the others are all the keywords
after it. -/
structure OrderingTerm.Written (drift : Bool) (source : String) (term : OrderingTerm)
    (first words after : List Token) : Prop where
  expr : term.expr.span.Covers drift source first (words ++ after)
  keywords : words.map (·.kind) = term.keywords.map .keyword
  noOperator : ∀ next ∈ after.head?, infixPower next.kind = none
  noNulls : term.nulls = none → ∀ next ∈ after.head?, next.isKeyword .NULLS = false

/-- Placeholders for items are told from items with expressions, where the item is written with
these tokens and the others are after it. -/
structure OrderingItem.IsRight (drift : Bool) (source : String) (item : OrderingItem)
    (tokens after : List Token) : Prop where
  /-- A single token that is a placeholder is a placeholder for the item. -/
  alone : ∀ token name, tokens = [token] → token.IsPlaceholder name →
    item = .placeholder name token.span
  /-- No term is a placeholder without a direction and an order of nulls. -/
  not_bare : ∀ name place span, item ≠ .term ⟨.placeholder name place, none, none, span⟩
  /-- A placeholder for an item is a single token. -/
  single : ∀ name span, item = .placeholder name span →
    ∃ token, tokens = [token] ∧ token.IsPlaceholder name ∧ token.span = span
  /-- A placeholder with an operator after it starts the expression of a term. -/
  operator : ∀ token next name rest, tokens ++ after = token :: next :: rest →
    token.IsPlaceholder name → (infixPower next.kind).isSome = true →
    ∃ term more words, item = .term term ∧ tokens = (token :: next :: more) ++ words ∧
      term.Written drift source (token :: next :: more) words after
  /-- A placeholder with a direction or `NULLS` after it is the expression of a term. -/
  modified : ∀ token next name rest, tokens ++ after = token :: next :: rest →
    token.IsPlaceholder name → modifiesOrdering next = true →
    ∃ term more, item = .term term ∧ tokens = [token] ++ next :: more ∧
      term.Written drift source [token] (next :: more) after ∧
      term.expr = .placeholder name token.span

namespace Grammar

section

variable {dialect : Dialect} {source : String} {cursor stop : Cursor} {bound depth : Nat}

/-- A direction has been read from its keyword. -/
lemma direction_words {value : Option OrderDirection}
    (reached : cursor.Reachable dialect.isDrift)
    (run : direction.run dialect cursor = .accepted value stop) :
    ∃ words : List Token, cursor.ahead = words ++ stop.ahead ∧
      words.map (·.kind) = (value.elim [] fun way => [way.keyword]).map .keyword := by
  let E : Rereading := ⟨dialect, .written, rules 0 0, rules 0 0⟩
  cases value with
  | some way =>
    obtain ⟨at_, rfl⟩ := Rereading.direction_some (E := E) run
    exact ⟨[cursor.current], reached.ahead_of_atKeyword at_,
      by simp [Rereading.kind_of_atKeyword at_]⟩
  | none =>
    obtain ⟨-, -, rfl⟩ := Rereading.direction_none (E := E) run
    exact ⟨[], rfl, rfl⟩

/-- The place of nulls has been read from its keywords. -/
lemma nullOrdering_words {value : NullOrdering} (reached : cursor.Reachable dialect.isDrift)
    (at_ : cursor.view.atKeyword .NULLS = true)
    (run : nullOrdering.run dialect cursor = .accepted value stop) :
    ∃ words : List Token, cursor.ahead = words ++ stop.ahead ∧
      words.map (·.kind) = value.keywords.map .keyword := by
  unfold nullOrdering at run
  rw [run_here_bind] at run
  obtain ⟨-, run⟩ := accepted_require run
  obtain ⟨-, -, run⟩ := accepted_advance run
  -- the keyword after `NULLS`
  have word {word : Keyword} (at' : cursor.advance.view.atKeyword word = true) :
      ∃ words : List Token, cursor.ahead = words ++ cursor.advance.advance.ahead ∧
        words.map (·.kind) = [Keyword.NULLS, word].map .keyword := by
    refine ⟨[cursor.current, cursor.advance.current], ?_, ?_⟩
    · rw [reached.ahead_of_atKeyword at_, reached.advance.ahead_of_atKeyword at']
      rfl
    · simp [Rereading.kind_of_atKeyword at_, Rereading.kind_of_atKeyword at']
  rw [run_eatKeyword_bind] at run
  split at run
  · next at' =>
    obtain ⟨rfl, rfl⟩ := accepted_pure run
    exact word at'
  · rw [if_neg Bool.false_ne_true, run_eatKeyword_bind] at run
    split at run
    · next at' =>
      obtain ⟨rfl, rfl⟩ := accepted_pure run
      exact word at'
    · exact absurd run not_accepted_unexpected

/-- A place of nulls that may be left out has been read from its keywords, or from nothing. -/
lemma nulls_words {value : Option NullOrdering} (reached : cursor.Reachable dialect.isDrift)
    (run : (Parser.whenever (·.atKeyword .NULLS) nullOrdering).run dialect cursor =
      .accepted value stop) :
    ∃ words : List Token, cursor.ahead = words ++ stop.ahead ∧
      words.map (·.kind) = (value.elim [] NullOrdering.keywords).map .keyword ∧
      cursor.view.atKeyword .NULLS = value.isSome ∧ (value = none → stop = cursor) := by
  unfold Parser.whenever at run
  rw [run_sees_bind] at run
  split at run
  · next at_ =>
    obtain ⟨nulls, place, inner, -, last⟩ := accepted_bind run
    obtain ⟨rfl, rfl⟩ := accepted_pure last
    obtain ⟨words, ahead, kinds⟩ := nullOrdering_words reached at_ inner
    exact ⟨words, ahead, kinds, at_, by simp⟩
  · next not =>
    obtain ⟨rfl, rfl⟩ := accepted_pure run
    exact ⟨[], rfl, rfl, by simpa using not, fun _ => rfl⟩

/-- A token that modifies a sorting term is no operator. -/
lemma noOperator_of_modifiesOrdering (token : Token) (modifies : modifiesOrdering token = true) :
    infixPower token.kind = none := by
  simp only [modifiesOrdering, List.any_cons, List.any_nil, Bool.or_false, Bool.or_eq_true,
    Token.isKeyword_eq, TokenKind.isKeyword_iff] at modifies
  rcases modifies with kind | kind | kind <;> rw [kind] <;> rfl

/-- How a sorting term has been read: its expression, and all the keywords after that.

**Proof sketch.** The words after the expression are those of the direction (`direction_words`) and
of the place of nulls (`nulls_words`). The expression ends before a keyword that is no operator, or
where the whole term ends. If there are no such words, nothing after the expression modifies it. So
`expr_leads` applies. -/
lemma orderingTerm_written {term : OrderingTerm} (drift : dialect.isDrift = true)
    (here : (Site.within dialect source).holds cursor)
    (lone : atLonePlaceholder modifiesOrdering cursor.view = none)
    (run : (orderingTerm (rules bound depth)).run dialect cursor = .accepted term stop)
    (past : stop.PastOperators) :
    ∃ first words, cursor.ahead = first ++ words ++ stop.ahead ∧
      term.expr.Leads dialect.isDrift source modifiesOrdering first words stop.ahead ∧
      term.Written dialect.isDrift source first words stop.ahead := by
  unfold orderingTerm at run
  obtain ⟨expr, middle, run₁, -, run⟩ := accepted_bind run
  obtain ⟨way, place, run₂, -, run⟩ := accepted_bind run
  obtain ⟨nulls, last, run₃, -, run⟩ := accepted_bind run
  obtain ⟨rfl, rfl⟩ := accepted_return run
  have here₁ := Site.holds_of_accepted here run₁
  have here₂ := Site.holds_of_accepted here₁ run₂
  obtain ⟨ways, ahead₂, kinds₂⟩ := direction_words here₁.1 run₂
  obtain ⟨orders, ahead₃, kinds₃, atNulls, same⟩ := nulls_words here₂.1 run₃
  let E : Rereading := ⟨dialect, .written, rules 0 0, rules 0 0⟩
  -- the expression ends before a keyword that is no operator, or where the term does
  have past₁ : middle.PastOperators := by
    cases way with
    | some way =>
      obtain ⟨at_, -⟩ := Rereading.direction_some (E := E) run₂
      exact pastOperators_of_keyword at_ (by cases way <;> rfl)
    | none =>
      obtain ⟨-, -, rfl⟩ := Rereading.direction_none (E := E) run₂
      cases nulls with
      | some nulls => exact pastOperators_of_keyword atNulls rfl
      | none => exact same rfl ▸ past
  have plain (empty : ways ++ orders = []) : modifiesOrdering middle.current = false := by
    obtain ⟨rfl, rfl⟩ := List.append_eq_nil_iff.mp empty
    obtain rfl : way = none := by
      cases way with
      | none => rfl
      | some way => exact absurd kinds₂ (by simp)
    obtain rfl : nulls = none := by
      cases nulls with
      | none => rfl
      | some nulls => cases nulls <;> exact absurd kinds₃ (by simp [NullOrdering.keywords])
    obtain ⟨notAsc, notDesc, rfl⟩ := Rereading.direction_none (E := E) run₂
    rw [Rereading.modifiesOrdering_eq, atNulls]
    simp [notAsc, notDesc]
  have words : middle.ahead = (ways ++ orders) ++ last.ahead := by
    rw [ahead₂, ahead₃, List.append_assoc]
  obtain ⟨first, ahead, leads⟩ :=
    expr_leads drift here noOperator_of_modifiesOrdering lone run₁ past₁ words plain
  refine ⟨first, ways ++ orders, ahead, leads, leads.covers, ?_, ?_, ?_⟩
  · rw [List.map_append, kinds₂, kinds₃, ← List.map_append]
    rfl
  · intro next head
    rw [← Cursor.current_of_head head]
    exact past
  · rintro rfl next head
    obtain rfl := same rfl
    rw [← Cursor.current_of_head head]
    exact atNulls

/-- An item that is a placeholder is read right. -/
lemma orderingPlaceholder_right {name : String}
    (lone : atLonePlaceholder modifiesOrdering cursor.view = some name)
    (ahead : cursor.ahead = [cursor.current] ++ cursor.advance.ahead) :
    (OrderingItem.placeholder name cursor.current.span).IsRight dialect.isDrift source
      [cursor.current] cursor.advance.ahead := by
  obtain ⟨dollar, fixed, noOperator⟩ := Rereading.atLonePlaceholder_eq_some lone
  have kind : cursor.current.kind = .variable (.named .dollar name) := kind_of_dollarName dollar
  refine ⟨?_, by simp, ?_, ?_, ?_⟩
  · rintro token name' ⟨⟩ placeholder
    obtain rfl : name = name' := by simpa [Token.IsPlaceholder, kind] using placeholder
    rfl
  · rintro name' span ⟨⟩
    exact ⟨_, rfl, kind, rfl⟩
  · intro token next name' rest written _ operator
    rw [← Cursor.peek_one_of_ahead (ahead.trans written), noOperator] at operator
    exact absurd operator (by simp)
  · intro token next name' rest written _ modifies
    rw [← Cursor.peek_one_of_ahead (ahead.trans written), fixed] at modifies
    exact absurd modifies (by simp)

/-- An item that is a term is read right. -/
lemma orderingTerm_right {drift : Bool} {term : OrderingTerm} {first words after : List Token}
    (leads : term.expr.Leads drift source modifiesOrdering first words after)
    (written : term.Written drift source first words after) :
    (OrderingItem.term term).IsRight drift source (first ++ words) after := by
  refine ⟨fun token name eq placeholder => absurd placeholder (leads.not_alone token name eq), ?_,
    by simp, ?_, ?_⟩
  · rintro name place span ⟨⟩
    refine leads.not_bare name place rfl ?_
    simpa [OrderingTerm.keywords] using written.keywords
  · intro token next name rest eq _ operator
    obtain ⟨more, rfl⟩ := leads.operator token next rest eq operator
    exact ⟨term, more, words, rfl, rfl, written⟩
  · intro token next name rest eq placeholder modifies
    obtain ⟨isPlaceholder, rfl, more, rfl⟩ :=
      leads.modified token next name rest eq placeholder modifies
    exact ⟨term, more, rfl, rfl, written, isPlaceholder⟩

/-- **An item of a sorting clause is read right**, if it ends where no operator follows. -/
lemma orderingItem_right {item : OrderingItem} (drift : dialect.isDrift = true)
    (here : (Site.within dialect source).holds cursor)
    (run : (orderingItem (rules bound depth)).run dialect cursor = .accepted item stop)
    (past : stop.PastOperators) {tokens : List Token}
    (ahead : cursor.ahead = tokens ++ stop.ahead) :
    item.IsRight dialect.isDrift source tokens stop.ahead := by
  unfold orderingItem at run
  rw [run_view_bind] at run
  split at run
  · next name lone =>
    rw [run_isDrift_bind, if_pos drift] at run
    obtain ⟨-, -, run⟩ := accepted_advance run
    obtain ⟨rfl, rfl⟩ := accepted_pure run
    have kind : cursor.current.kind = _ :=
      kind_of_dollarName (Rereading.atLonePlaceholder_eq_some lone).1
    have one : cursor.ahead = [cursor.current] ++ cursor.advance.ahead :=
      here.1.ahead_eq (by simp [kind])
    obtain rfl : tokens = [cursor.current] := List.append_cancel_right (ahead.symm.trans one)
    exact orderingPlaceholder_right lone ahead
  · next lone =>
    obtain ⟨term, place, inner, -, last⟩ := accepted_bind run
    obtain ⟨rfl, rfl⟩ := accepted_pure last
    obtain ⟨first, words, whole, leads, written⟩ := orderingTerm_written drift here lone inner past
    obtain rfl : tokens = first ++ words := List.append_cancel_right (ahead.symm.trans whole)
    exact orderingTerm_right leads written

end

end Grammar

/-! ## Limits -/

/-- The expression is the one that is written first in the limit, and these tokens are all the
others: none, or what puts an offset after a count, or a count after an offset. -/
inductive LimitKind.Written (drift : Bool) (source : String) (after : List Token) :
    LimitKind → Expr → List Token → Prop where
  | count {count : Expr} (ends : ∀ next ∈ after.head?, modifiesLimit next = false) :
    Written drift source after (.expressions count none) count []
  | offset {count offset : Expr} {word : Token} {tokens : List Token}
    (isWord : word.isKeyword .OFFSET = true)
    (covers : offset.span.Covers drift source tokens after) :
    Written drift source after (.expressions count (some offset)) count (word :: tokens)
  | comma {count offset : Expr} {comma : Token} {tokens : List Token}
    (isComma : comma.isSymbol .comma = true)
    (covers : count.span.Covers drift source tokens after) :
    Written drift source after (.expressions count (some offset)) offset (comma :: tokens)

/-- Placeholders for limits are told from limits with expressions, where the limit is written with
these tokens, of which the first one is a keyword, and the others are after it. -/
structure Limit.IsRight (drift : Bool) (source : String) (limit : Limit)
    (tokens after : List Token) : Prop where
  /-- A single token after the keyword that is a placeholder is a placeholder for the limit. -/
  alone : ∀ word token name, tokens = [word, token] → token.IsPlaceholder name →
    limit.kind = .placeholder name
  /-- No limit is an expression that is a placeholder, without an offset. -/
  not_bare : ∀ name place, limit.kind ≠ .expressions (.placeholder name place) none
  /-- A placeholder for a limit is a single token after the keyword. -/
  single : ∀ name, limit.kind = .placeholder name →
    ∃ word token, tokens = [word, token] ∧ word.isKeyword .LIMIT = true ∧ token.IsPlaceholder name
  /-- A placeholder with an operator after it starts the first expression. -/
  operator : ∀ word token next name rest, tokens ++ after = word :: token :: next :: rest →
    token.IsPlaceholder name → (infixPower next.kind).isSome = true →
    ∃ expr more others, tokens = word :: (token :: next :: more) ++ others ∧
      expr.span.Covers drift source (token :: next :: more) (others ++ after) ∧
      limit.kind.Written drift source after expr others
  /-- A placeholder with `OFFSET` or a comma after it is the first of two expressions. -/
  modified : ∀ word token next name rest, tokens ++ after = word :: token :: next :: rest →
    token.IsPlaceholder name → modifiesLimit next = true →
    ∃ more, tokens = word :: token :: next :: more ∧
      limit.kind.Written drift source after (.placeholder name token.span) (next :: more)
  noOperator : ∀ next ∈ after.head?, infixPower next.kind = none

namespace Grammar

section

variable {dialect : Dialect} {source : String} {cursor stop : Cursor} {bound depth : Nat}

/-- A token that modifies a limit is no operator. -/
lemma noOperator_of_modifiesLimit (token : Token) (modifies : modifiesLimit token = true) :
    infixPower token.kind = none := by
  simp only [modifiesLimit, Bool.or_eq_true, Token.isKeyword_eq, TokenKind.isKeyword_iff,
    Token.isSymbol_eq, TokenKind.isSymbol_iff] at modifies
  rcases modifies with kind | kind <;> rw [kind] <;> rfl

/-- How the expressions of a limit have been read: the one that is written first, and all others.

**Proof sketch.** By what was next after the first expression. Where `OFFSET` or a comma is next, it
is no operator, and the second expression covers the tokens after it (`expr_covers`). Where neither
is next, nothing after the expression modifies it. In each case `expr_leads` applies to the first
expression. -/
lemma limitExpressions_written {kind : LimitKind} (drift : dialect.isDrift = true)
    (here : (Site.within dialect source).holds cursor)
    (lone : atLonePlaceholder modifiesLimit cursor.view = none)
    (run : (limitExpressions (rules bound depth)).run dialect cursor = .accepted kind stop)
    (past : stop.PastOperators) :
    ∃ expr first others, cursor.ahead = first ++ others ++ stop.ahead ∧
      expr.Leads dialect.isDrift source modifiesLimit first others stop.ahead ∧
      kind.Written dialect.isDrift source stop.ahead expr others := by
  unfold limitExpressions at run
  obtain ⟨expr, middle, run₁, -, run⟩ := accepted_bind run
  have here₁ := Site.holds_of_accepted here run₁
  -- the second expression stands after a word
  have second {other : Expr} (past₁ : middle.PastOperators)
      (proper : middle.current.kind ≠ .endOfInput)
      (run' : (rules bound depth).expr.run dialect middle.advance = .accepted other stop) :
      ∃ first tokens, cursor.ahead = first ++ (middle.current :: tokens) ++ stop.ahead ∧
        expr.Leads dialect.isDrift source modifiesLimit first (middle.current :: tokens)
          stop.ahead ∧
        other.span.Covers dialect.isDrift source tokens stop.ahead := by
    obtain ⟨tokens, ahead₂, covers⟩ := expr_covers ((Site.within dialect source).advance here₁) run'
    have words : middle.ahead = (middle.current :: tokens) ++ stop.ahead := by
      rw [here₁.1.ahead_eq proper, ahead₂, List.cons_append]
    obtain ⟨first, whole, leads⟩ :=
      expr_leads drift here noOperator_of_modifiesLimit lone run₁ past₁ words (by simp)
    exact ⟨first, tokens, whole, leads, covers⟩
  rw [run_eatKeyword_bind] at run
  split at run
  · next at_ =>
    obtain ⟨other, place, run', -, last⟩ := accepted_bind run
    obtain ⟨rfl, rfl⟩ := accepted_pure last
    obtain ⟨first, tokens, whole, leads, covers⟩ := second (pastOperators_of_keyword at_ rfl)
      (by simp [Rereading.kind_of_atKeyword at_]) run'
    exact ⟨expr, first, _, whole, leads, .offset at_ covers⟩
  · next notOffset =>
    rw [if_neg Bool.false_ne_true, run_eatSymbol_bind] at run
    split at run
    · next at_ =>
      obtain ⟨other, place, run', -, last⟩ := accepted_bind run
      obtain ⟨rfl, rfl⟩ := accepted_pure last
      obtain ⟨first, tokens, whole, leads, covers⟩ := second (pastOperators_of_symbol at_ rfl)
        (by simp [Rereading.kind_of_atSymbol at_]) run'
      exact ⟨expr, first, _, whole, leads, .comma at_ covers⟩
    · next notComma =>
      obtain ⟨rfl, rfl⟩ := accepted_pure run
      have plain : modifiesLimit middle.current = false := by
        rw [modifiesLimit, Bool.or_eq_false_iff]
        exact ⟨Bool.eq_false_iff.mpr notOffset, Bool.eq_false_iff.mpr notComma⟩
      have nothing : middle.ahead = [] ++ middle.ahead := rfl
      obtain ⟨first, whole, leads⟩ :=
        expr_leads drift here noOperator_of_modifiesLimit lone run₁ past nothing fun _ => plain
      refine ⟨expr, first, [], whole, leads, .count fun next head => ?_⟩
      rw [← Cursor.current_of_head head]
      exact plain

/-- A limit that is a placeholder is read right. -/
lemma limitPlaceholder_right {drift : Bool} {name : String} {span : Span} {word : Token}
    (isWord : word.isKeyword .LIMIT = true)
    (lone : atLonePlaceholder modifiesLimit cursor.view = some name)
    (ahead : cursor.ahead = [cursor.current] ++ cursor.advance.ahead) :
    (⟨.placeholder name, span⟩ : Limit).IsRight drift source [word, cursor.current]
      cursor.advance.ahead := by
  obtain ⟨dollar, fixed, noOperator⟩ := Rereading.atLonePlaceholder_eq_some lone
  have kind : cursor.current.kind = .variable (.named .dollar name) := kind_of_dollarName dollar
  have second {word' token next : Token} {rest : List Token}
      (written : [word, cursor.current] ++ cursor.advance.ahead = word' :: token :: next :: rest) :
      cursor.peek 1 = next :=
    Cursor.peek_one_of_ahead (ahead.trans (List.tail_eq_of_cons_eq written))
  refine ⟨?_, by simp, ?_, ?_, ?_, ?_⟩
  · rintro word token name' ⟨⟩ placeholder
    obtain rfl : name = name' := by simpa [Token.IsPlaceholder, kind] using placeholder
    rfl
  · rintro name' ⟨⟩
    exact ⟨_, _, rfl, isWord, kind⟩
  · intro word' token next name' rest written _ operator
    rw [← second written, noOperator] at operator
    exact absurd operator (by simp)
  · intro word' token next name' rest written _ modifies
    rw [← second written, fixed] at modifies
    exact absurd modifies (by simp)
  · intro next head
    rw [← Cursor.current_of_head head]
    exact (congrArg (infixPower ·.kind) (Cursor.peek_advance 0)).trans noOperator

/-- A limit with expressions is read right. -/
lemma limitExpressions_right {drift : Bool} {kind : LimitKind} {span : Span} {word : Token}
    {expr : Expr} {first others after : List Token}
    (leads : expr.Leads drift source modifiesLimit first others after)
    (written : kind.Written drift source after expr others)
    (noOperator : ∀ next ∈ after.head?, infixPower next.kind = none) :
    (⟨kind, span⟩ : Limit).IsRight drift source (word :: (first ++ others)) after := by
  refine ⟨?_, ?_, ?_, ?_, ?_, noOperator⟩
  · rintro word' token name eq placeholder
    exact absurd placeholder (leads.not_alone token name (List.tail_eq_of_cons_eq eq))
  · rintro name place rfl
    cases written with
    | count => exact leads.not_bare name place rfl rfl
  · rintro name rfl
    cases written
  · intro word' token next name rest eq _ operator
    rw [List.cons_append, List.cons.injEq] at eq
    obtain ⟨rfl, eq⟩ := eq
    obtain ⟨more, rfl⟩ := leads.operator token next rest eq operator
    exact ⟨expr, more, others, rfl, leads.covers, written⟩
  · intro word' token next name rest eq placeholder modifies
    rw [List.cons_append, List.cons.injEq] at eq
    obtain ⟨rfl, eq⟩ := eq
    obtain ⟨rfl, rfl, more, rfl⟩ := leads.modified token next name rest eq placeholder modifies
    exact ⟨more, rfl, written⟩

/-- **A limit is read right**, if it ends where no operator follows.

**Proof sketch.** `LIMIT` is the first token. If a placeholder stands alone after it, that token is
all there is. Otherwise its expressions are as `limitExpressions_written` says, and both directions
are read off how the first one leads its clause. -/
lemma limit_right {value : Limit} (drift : dialect.isDrift = true)
    (here : (Site.within dialect source).holds cursor)
    (run : (limit (rules bound depth)).run dialect cursor = .accepted value stop)
    (past : stop.PastOperators) {tokens : List Token}
    (ahead : cursor.ahead = tokens ++ stop.ahead) :
    value.IsRight dialect.isDrift source tokens stop.ahead := by
  unfold limit at run
  obtain ⟨at_, -, run⟩ := accepted_expectKeyword run
  have here₁ := (Site.within dialect source).advance here
  have word : cursor.ahead = cursor.current :: cursor.advance.ahead :=
    here.1.ahead_of_atKeyword at_
  rw [run_view_bind] at run
  split at run
  · next name lone =>
    rw [run_isDrift_bind, if_pos drift] at run
    obtain ⟨-, -, run⟩ := accepted_advance run
    obtain ⟨rfl, rfl⟩ := accepted_return run
    have kind : cursor.advance.current.kind = _ :=
      kind_of_dollarName (Rereading.atLonePlaceholder_eq_some lone).1
    have one := here₁.1.ahead_eq (by simp [kind])
    obtain rfl : tokens = [cursor.current, cursor.advance.current] :=
      List.append_cancel_right (ahead.symm.trans (word.trans (congrArg _ one)))
    exact limitPlaceholder_right at_ lone one
  · next lone =>
    obtain ⟨kind, place, inner, -, last⟩ := accepted_bind run
    obtain ⟨rfl, rfl⟩ := accepted_return last
    obtain ⟨expr, first, others, whole, leads, written⟩ :=
      limitExpressions_written drift here₁ lone inner past
    obtain rfl : tokens = cursor.current :: (first ++ others) :=
      List.append_cancel_right (ahead.symm.trans (word.trans (congrArg _ whole)))
    refine limitExpressions_right leads written fun next head => ?_
    rw [← Cursor.current_of_head head]
    exact past

end

end Grammar

/-! ## Placeholders of a source -/

/-- In the drift source, the tokens of the item are told apart. -/
def OrderingItem.RightIn (source : String) (item : OrderingItem) : Prop :=
  ∃ tokens after, (Node.orderingItem item).span.Covers true source tokens after ∧
    item.IsRight true source tokens after

/-- In the drift source, the tokens of the limit are told apart. -/
def Limit.RightIn (source : String) (limit : Limit) : Prop :=
  ∃ tokens after, limit.span.Covers true source tokens after ∧
    limit.IsRight true source tokens after

namespace Entry

/-- **Placeholders that stand alone are placeholders for items and limits.** In a drift source that
is accepted, the tokens of every item of a sorting clause and of every limit are told apart by what
is after the placeholder: an item that is a single placeholder, or a limit that is `LIMIT` and a
single placeholder, is no expression, nothing else is a placeholder for an item or a limit, and with
an operator or a modifier after it the placeholder is part of expressions that hold all of it. The
items and limits are those of all queries, windows and calls, however deep they are.

**Proof sketch.** Every node of the tree has been read by the parser of its kind (`parser_traced`).
So an item or a limit is a run of its parser, from a place of the source to one where no operator
follows, and `orderingItem_right` and `limit_right` apply to it. -/
theorem placeholders_alone (entry : Entry) (dialect : Dialect) (drift : dialect.isDrift = true)
    (source : String) {tree : entry.Tree} (accepted : entry.parse dialect source = .ok tree) :
    ∀ root ∈ entry.roots tree,
      (∀ item : OrderingItem, .orderingItem item ∈ root.walk → item.RightIn source) ∧
        ∀ limit : Limit, .limit limit ∈ root.walk → limit.RightIn source := by
  intro root isRoot
  rw [parse_eq] at accepted
  obtain ⟨stop, run⟩ := Outcome.accepted_of_result accepted
  have start : (Site.within dialect source).holds (dialect.start source) := ⟨.ofSource source, rfl⟩
  have traced : root.Traced (.within dialect source) :=
    entry.parser_traced (.within dialect source) _ _ start run trivial root isRoot
  unfold OrderingItem.RightIn Limit.RightIn
  rw [← drift]
  constructor
  · intro item mem
    cases traced _ mem with
    | orderingItem made =>
      obtain ⟨bound, depth, cursor, stop, here, run, past⟩ := made
      have placed : PlacedBetween dialect source cursor stop (.orderingItem item) :=
        placedBetween (orderingItem_places (rules_laid bound depth))
          (fun S => orderingItem_careful (rules_careful S bound depth)) here run
      obtain ⟨tokens, ahead, covers⟩ := placed.covers
      exact ⟨tokens, stop.ahead, covers, orderingItem_right drift here run past ahead⟩
  · intro value mem
    cases traced _ mem with
    | limit made =>
      obtain ⟨bound, depth, cursor, stop, here, run, past⟩ := made
      have placed : PlacedBetween dialect source cursor stop (.limit value) :=
        placedBetween (limit_places (rules_laid bound depth))
          (fun S => limit_careful (rules_careful S bound depth)) here run
      obtain ⟨tokens, ahead, covers⟩ := placed.covers
      exact ⟨tokens, stop.ahead, covers, limit_right drift here run past ahead⟩

/-- The sorting clause has a placeholder for an item, and the limit has an expression that starts
with a placeholder. -/
theorem placeholders_alone_sum :
    let item := OrderingItem.placeholder "a" ⟨18, 20, 1, 19⟩
    let sum := Expr.binary (.placeholder "b" ⟨27, 29, 1, 28⟩) .add
      (.literal (.integer 2) ⟨32, 33, 1, 33⟩) ⟨27, 33, 1, 28⟩
    let limit : Limit := ⟨.expressions sum none, ⟨21, 33, 1, 22⟩⟩
    let one := ResultColumn.expression (.literal (.integer 1) ⟨7, 8, 1, 8⟩) none none ⟨7, 8, 1, 8⟩
    let query : Query :=
      ⟨none, .select ⟨false, [one], none, none, [], none, [], ⟨0, 8, 1, 1⟩⟩, [],
        some ⟨[item], ⟨9, 20, 1, 10⟩⟩, some limit, ⟨0, 33, 1, 1⟩⟩
    Dialect.drift.isDrift = true ∧
      Entry.statement.parse .drift "SELECT 1 ORDER BY $a LIMIT $b + 2" =
        .ok (.data (.select query)) ∧
      item.RightIn "SELECT 1 ORDER BY $a LIMIT $b + 2" ∧
      limit.RightIn "SELECT 1 ORDER BY $a LIMIT $b + 2" := by
  intro item sum limit one query
  have accepted : Entry.statement.parse .drift "SELECT 1 ORDER BY $a LIMIT $b + 2" =
      .ok (.data (.select query)) := rfl
  have order : .orderBy ⟨[item], ⟨9, 20, 1, 10⟩⟩ ∈ (Node.query query).children := by
    simp [query, Node.children, Node.maybe]
  have isItem : .orderingItem item ∈ (Node.query query).walk :=
    Node.mem_walk_of_child order (Node.children_subset_walk (by simp [Node.children, Node.each]))
  have isLimit : .limit limit ∈ (Node.query query).walk :=
    Node.children_subset_walk (by simp [query, Node.children, Node.maybe])
  obtain ⟨items, limits⟩ :=
    placeholders_alone .statement .drift rfl _ accepted _ List.mem_cons_self
  exact ⟨rfl, accepted, items item isItem, limits limit isLimit⟩

end Entry

end SqlTree
