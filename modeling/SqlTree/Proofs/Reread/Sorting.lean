import SqlTree.Proofs.Reread.Known

set_option autoImplicit false

/-!
# Reading sorting clauses and windows again

## Main results

* `SqlTree.Rereading.orderBy_again` — sorting clauses are read again.
* `SqlTree.Rereading.windowDefinition_again` — windows are read again.
-/

namespace SqlTree

namespace Form

/-- A choice that is written as keywords. -/
def choice {α : Type} (keywords : α → List Keyword) : Form α :=
  ⟨fun value => (keywords value).map .ofKeyword, fun _ => [], id⟩

/-- A direction. -/
abbrev direction : Form (Option OrderDirection) :=
  (Form.choice fun direction : OrderDirection => [direction.keyword]).maybe

end Form

namespace Rereading

open SqlTree.Parser SqlTree.Grammar

variable {E : Rereading} {n : Nat} {c c' c₁ c₁' : Cursor} {rest : List Word}

/-- The words of a list of keywords are those keywords. -/
lemma wordsOf_words (drift : Bool) (keywords : List Keyword) :
    Render.wordsOf drift (Render.words keywords) = keywords.map .ofKeyword := by
  unfold Render.words
  cases keywords with
  | nil => rfl
  | cons first others =>
    induction others generalizing first with
    | nil => rfl
    | cons second others ih =>
      have := ih second
      simp only [List.map_cons] at this ⊢
      rw [Render.separated, Render.wordsOf_append, Render.wordsOf_append, this]
      · rfl
      · simp

/-- A suffix made of keywords that may be left out has the words of its form. -/
lemma wordsOf_suffix_map {α : Type} (drift : Bool) (keywords : α → List Keyword)
    (value : Option α) :
    Render.wordsOf drift (Render.suffix (value.map keywords)) =
      (Form.choice keywords).maybe.words value := by
  cases value with
  | none => rfl
  | some value =>
    change Render.wordsOf drift (.blank :: Render.words (keywords value)) = _
    rw [Render.wordsOf_blank, wordsOf_words]
    rfl

/-- Keywords that stand under a condition are written exactly if it holds. -/
lemma wordsOf_wordsIf (drift : Bool) (condition : Bool) (keywords : List Keyword) :
    Render.wordsOf drift (Render.wordsIf condition keywords) =
      if condition then keywords.map .ofKeyword else [] := by
  unfold Render.wordsIf
  cases condition with
  | false => rfl
  | true =>
    induction keywords with
    | nil => rfl
    | cons word keywords ih => simpa using ih

/-! ## Sorting terms -/

/-- A choice of keywords holds no spans to forget. -/
lemma choice_maybe_bare {α : Type} (keywords : α → List Keyword) :
    (Form.choice keywords).maybe.bare = id := by
  funext value
  cases value <;> rfl

/-- A direction takes nothing unless `ASC` or `DESC` is next. -/
lemma direction_skips :
    Skips E.dialect .direction [.keyword .ASC, .keyword .DESC] direction := by
  intro c value c₁ run
  unfold direction at run
  rw [run_eatKeyword_bind] at run
  split at run
  · obtain ⟨rfl, rfl⟩ := accepted_pure run
    exact .inr ⟨_, _, rfl, by simp [OrderDirection.keyword]⟩
  · rw [if_neg Bool.false_ne_true, run_eatKeyword_bind] at run
    split at run
    · obtain ⟨rfl, rfl⟩ := accepted_pure run
      exact .inr ⟨_, _, rfl, by simp [OrderDirection.keyword]⟩
    · obtain ⟨rfl, rfl⟩ := accepted_pure run
      exact .inl ⟨rfl, rfl⟩

/-- A direction is read again where what follows is quiet about both of its keywords. -/
lemma direction_again :
    E.Reruns n .direction (E.Quiet [.keyword .ASC, .keyword .DESC]) direction direction := by
  intro c c' value c₁ rest run follows keeps _ quiet
  unfold direction at run ⊢
  rw [run_eatKeyword_bind] at run
  split at run
  · next at_ =>
    obtain ⟨rfl, rfl⟩ := accepted_pure run
    exact follows.eatKeyword at_ keeps fun follows _ => .of_pure ⟨follows, rfl⟩
  · next notAsc =>
    rw [if_neg Bool.false_ne_true, run_eatKeyword_bind] at run
    split at run
    · next at_ =>
      obtain ⟨rfl, rfl⟩ := accepted_pure run
      refine skipKeyword (follows.notKeyword at_ keeps (by decide)) ?_
      exact follows.eatKeyword at_ keeps fun follows _ => .of_pure ⟨follows, rfl⟩
    · next notDesc =>
      obtain ⟨rfl, rfl⟩ := accepted_pure run
      refine skipKeyword (quiet.not_keyword follows rfl notAsc) ?_
      exact skipKeyword (quiet.not_keyword follows rfl notDesc) (.of_pure ⟨follows, rfl⟩)

/-- The place of nulls takes at least one token. -/
lemma nullOrdering_takes {value : NullOrdering}
    (run : nullOrdering.run E.dialect c = .accepted value c₁) :
    c₁.ahead.length ≤ c.advance.ahead.length := by
  unfold nullOrdering at run
  rw [run_here_bind] at run
  obtain ⟨-, run⟩ := accepted_require run
  exact (accepted_advance run).2.1

/-- The place of nulls is read again. -/
lemma nullOrdering_again :
    E.RerunsAt .NULLS n (.choice NullOrdering.keywords) (fun _ _ => True) nullOrdering
      nullOrdering := by
  intro c c' value c₁ rest at_ run follows keeps _ _
  unfold nullOrdering at run ⊢
  rw [run_here_bind] at run
  obtain ⟨has, run⟩ := accepted_require run
  obtain ⟨-, le, run⟩ := accepted_advance run
  refine Accepts.congr ?_ (run_here_bind ..)
  refine accepts_require has ?_
  rw [run_eatKeyword_bind] at run
  split at run
  · next at₁ =>
    obtain ⟨rfl, rfl⟩ := accepted_pure run
    refine follows.advanceKeyword at_ (Nat.le_trans keeps le) fun _ follows _ => ?_
    exact follows.eatKeyword at₁ keeps fun follows _ => .of_pure ⟨follows, rfl⟩
  · rw [if_neg Bool.false_ne_true, run_eatKeyword_bind] at run
    split at run
    · next at₁ =>
      obtain ⟨rfl, rfl⟩ := accepted_pure run
      refine follows.advanceKeyword at_ (Nat.le_trans keeps le) fun _ follows _ => ?_
      refine skipKeyword (follows.notKeyword at₁ keeps (by decide)) ?_
      exact follows.eatKeyword at₁ keeps fun follows _ => .of_pure ⟨follows, rfl⟩
    · exact absurd run not_accepted_unexpected

/-- The place of nulls is written from `NULLS` on. -/
lemma nullOrdering_front (value : NullOrdering) :
    ∃ ws, (Form.choice NullOrdering.keywords).words value = .ofKeyword .NULLS :: ws := by
  cases value <;> exact ⟨_, rfl⟩

/-- A place of nulls that may be left out takes nothing unless `NULLS` is next. -/
lemma optionalNulls_skips :
    Skips E.dialect (Form.choice NullOrdering.keywords).maybe [.keyword .NULLS]
      (whenever (·.atKeyword .NULLS) nullOrdering) :=
  .whenever fun value => by
    obtain ⟨ws, eq⟩ := nullOrdering_front value
    exact ⟨_, ws, eq, by simp⟩

/-- A place of nulls that may be left out is read again. -/
lemma optionalNulls_again :
    E.Reruns n (Form.choice NullOrdering.keywords).maybe (E.Quiet [.keyword .NULLS])
      (whenever (·.atKeyword .NULLS) nullOrdering)
      (whenever (·.atKeyword .NULLS) nullOrdering) :=
  .whenKeyword nullOrdering_again nullOrdering_front nullOrdering_takes
    fun _ _ quiet => ⟨trivial, quiet⟩

/-- A choice of keywords is safe, as it holds no comparison. -/
lemma safe_maybe_choice {α : Type} {keywords : α → List Keyword} (value : Option α) :
    E.Safe ((Form.choice keywords).maybe.nodes value) := by
  cases value <;> exact safe_nil

/-- A sorting term is read again. -/
lemma orderingTerm_again (known : E.Known n) :
    E.Reruns n (.orderingTerm E.drift) (E.Quiet termEnd) (orderingTerm E.rules)
      (orderingTerm E.again) := by
  intro c c' value c₁ rest run follows keeps safe quiet
  unfold orderingTerm at run ⊢
  obtain ⟨expr, c₂, run₁, le₁, run⟩ := accepted_bind run
  obtain ⟨dir, c₃, run₂, le₂, run⟩ := accepted_bind run
  obtain ⟨nulls, c₄, run₃, le₃, run⟩ := accepted_bind run
  obtain ⟨rfl, rfl⟩ := accepted_return run
  simp only [Form.orderingTerm, Form.ofPieces_words, OrderingTerm.pieces, Render.wordsOf_append,
    wordsOf_suffix_map, List.append_assoc] at follows
  refine known.expr.step run₁ follows (Nat.le_trans keeps le₁) safe
    (direction_skips.quiet run₂ rfl (optionalNulls_skips.quiet run₃ rfl (quiet.mono rfl)))
    fun expr' c₂' _ (same : expr'.unplaced = expr.unplaced) follows => ?_
  refine direction_again.plain (choice_maybe_bare _) run₂ follows (Nat.le_trans keeps le₂)
    (safe_maybe_choice _) (optionalNulls_skips.quiet run₃ rfl (quiet.mono rfl))
    fun c₃' _ follows => ?_
  refine optionalNulls_again.plain (choice_maybe_bare _) run₃ follows keeps (safe_maybe_choice _)
    (quiet.mono rfl) fun c₄' _ follows => ?_
  exact .of_return ⟨follows, by simp [Form.orderingTerm, OrderingTerm.unplaced, same]⟩

/-! ## Placeholders that stand alone -/

/-- What is seen at a placeholder that stands alone: a dollar name, and after it nothing that
modifies it and no operator. -/
lemma atLonePlaceholder_eq_some {modifies : Token → Bool} {name : String}
    (lone : atLonePlaceholder modifies c.view = some name) :
    c.view.dollarName? = some name ∧ modifies (c.peek 1) = false ∧
      infixPower (c.peek 1).kind = none := by
  unfold atLonePlaceholder at lone
  split at lone
  · exact absurd lone (by simp)
  · next neither =>
    rw [Bool.or_eq_true, not_or, Bool.not_eq_true] at neither
    exact ⟨lone, neither.1, Option.not_isSome_iff_eq_none.mp neither.2⟩

/-- A dollar name stands alone if what follows it neither modifies it nor is an operator. -/
lemma atLonePlaceholder_of {modifies : Token → Bool} {name : String}
    (dollar : c.view.dollarName? = some name) (fixed : modifies (c.peek 1) = false)
    (noOperator : infixPower (c.peek 1).kind = none) :
    atLonePlaceholder modifies c.view = some name := by
  unfold atLonePlaceholder
  rw [if_neg]
  · exact dollar
  · change ¬ (modifies (c.peek 1) || (infixPower (c.peek 1).kind).isSome) = true
    simp [fixed, noOperator]

/-- The name of a variable with a dollar sign is seen. -/
lemma dollarName_of_kind {name : String}
    (kind : c.current.kind = .variable (.named .dollar name)) :
    c.view.dollarName? = some name := by
  unfold View.dollarName?
  rw [show c.view.current.kind = .variable (.named .dollar name) from kind]

/-- If an expression is read as a placeholder alone the second time, but was not so the first time,
then what modifies it stood after the placeholder the first time only.

**Proof sketch.** The second reading takes the expression to be that placeholder, so it was one in
the first reading as well, and the token after it is what kept it from standing alone. -/
lemma lone_again (known : E.Known n) {modifies : Token → Bool} {name : String} {expr expr' : Expr}
    {c₂ c₂' : Cursor} (drift : E.drift = true)
    (run : E.rules.expr.run E.dialect c = .accepted expr c₂)
    (run' : E.again.expr.run E.dialect c' = .accepted expr' c₂')
    (same : expr'.unplaced = expr.unplaced)
    (before : atLonePlaceholder modifies c.view = none)
    (now : atLonePlaceholder modifies c'.view = some name) :
    (modifies c₂.current = true ∨ (infixPower c₂.current.kind).isSome = true) ∧
      modifies c₂'.current = false ∧ infixPower c₂'.current.kind = none := by
  obtain ⟨dollar', fixed', noOperator'⟩ := atLonePlaceholder_eq_some now
  obtain ⟨⟨span', rfl⟩, rfl⟩ := known.sound'.alone run' dollar' drift noOperator'
  obtain ⟨span, rfl⟩ : ∃ span, expr = .placeholder name span := by
    cases expr <;> simp_all [Expr.unplaced]
  obtain ⟨dollar, rfl⟩ := known.sound.placeholder run
  unfold Cursor.current
  rw [Cursor.peek_advance, Cursor.peek_advance]
  refine ⟨?_, fixed', noOperator'⟩
  by_contra neither
  rw [not_or, Bool.not_eq_true, Option.not_isSome_iff_eq_none] at neither
  rw [atLonePlaceholder_of dollar neither.1 neither.2] at before
  exact absurd before (by simp)

/-- An expression ends before a token that is no operator. -/
lemma not_power_of_done (done : Done c) : infixPower c.current.kind = none := by
  unfold Done at done
  rw [List.all_cons, Bool.and_eq_true] at done
  simpa [Starter.first] using done.1

/-! ## Sorting clauses -/

/-- A direction that is there was read from its keyword alone. -/
lemma direction_some {value : OrderDirection}
    (run : direction.run E.dialect c = .accepted (some value) c₁) :
    c.view.atKeyword value.keyword = true ∧ c₁ = c.advance := by
  unfold direction at run
  rw [run_eatKeyword_bind] at run
  split at run
  · next at_ =>
    obtain ⟨eq, rfl⟩ := accepted_pure run
    obtain rfl := Option.some.inj eq
    exact ⟨at_, rfl⟩
  · rw [if_neg Bool.false_ne_true, run_eatKeyword_bind] at run
    split at run
    · next at_ =>
      obtain ⟨eq, rfl⟩ := accepted_pure run
      obtain rfl := Option.some.inj eq
      exact ⟨at_, rfl⟩
    · exact absurd (accepted_pure run).1 (by simp)

/-- Without a direction, neither keyword was next, and nothing was read. -/
lemma direction_none (run : direction.run E.dialect c = .accepted none c₁) :
    ¬ c.view.atKeyword .ASC = true ∧ ¬ c.view.atKeyword .DESC = true ∧ c₁ = c := by
  unfold direction at run
  rw [run_eatKeyword_bind] at run
  split at run
  · exact absurd (accepted_pure run).1 (by simp)
  · next notAsc =>
    rw [if_neg Bool.false_ne_true, run_eatKeyword_bind] at run
    split at run
    · exact absurd (accepted_pure run).1 (by simp)
    · next notDesc => exact ⟨notAsc, notDesc, (accepted_pure run).2.symm⟩

/-- What modifies a sorting term is a direction or a place of nulls after it. -/
lemma modifiesOrdering_eq (cursor : Cursor) :
    modifiesOrdering cursor.current =
      (cursor.view.atKeyword .ASC || cursor.view.atKeyword .DESC ||
        cursor.view.atKeyword .NULLS) := by
  simp [modifiesOrdering, View.atKeyword, Cursor.view, Cursor.current, Bool.or_assoc]

/-- A sorting term is not read as a placeholder the second time.

**Proof sketch.** Assume the term is read as a placeholder the second time. Its expression is read
again up to the same place, so what follows it is one of `ASC`, `DESC` or `NULLS`, or an operator,
if that is so in the source (`lone_again`). The term had a direction, or a place of nulls, or
neither. In the first two cases their keyword is next again after the expression, against the
assumption. In the last one neither keyword and no operator follows in the source, so the
placeholder stood alone there too. -/
lemma orderingTerm_not_lone (known : E.Known n) {value : OrderingTerm} {name : String}
    (drift : E.drift = true)
    (run : (orderingTerm E.rules).run E.dialect c = .accepted value c₁)
    (follows : E.Follows n c c' ((Form.orderingTerm E.drift).words value ++ rest))
    (keeps : E.mode.left ≤ c₁.ahead.length) (safe : E.Safe [.expr value.expr])
    (quiet : E.Quiet termEnd c₁ rest) (done : Done c₁)
    (before : atLonePlaceholder modifiesOrdering c.view = none) :
    atLonePlaceholder modifiesOrdering c'.view ≠ some name := by
  intro now
  unfold orderingTerm at run
  obtain ⟨expr, c₂, run₁, le₁, run⟩ := accepted_bind run
  obtain ⟨dir, c₃, run₂, le₂, run⟩ := accepted_bind run
  obtain ⟨nulls, c₄, run₃, le₃, run⟩ := accepted_bind run
  obtain ⟨rfl, rfl⟩ := accepted_return run
  simp only [Form.orderingTerm, Form.ofPieces_words, OrderingTerm.pieces, Render.wordsOf_append,
    wordsOf_suffix_map, List.append_assoc] at follows
  obtain ⟨expr', c₂', run', follows, same⟩ :=
    known.expr run₁ follows (Nat.le_trans keeps le₁) safe
      (direction_skips.quiet run₂ rfl (optionalNulls_skips.quiet run₃ rfl (quiet.mono rfl)))
  obtain ⟨either, fixed', -⟩ := lone_again known drift run₁ run' same before now
  rw [modifiesOrdering_eq] at either fixed'
  simp only [Bool.or_eq_false_iff] at fixed'
  cases dir with
  | some dir =>
    obtain ⟨at_, rfl⟩ := direction_some run₂
    have at' := (follows.keyword at_ (Nat.le_trans keeps le₂)).1
    cases dir <;> simp_all [OrderDirection.keyword]
  | none =>
    obtain ⟨notAsc, notDesc, rfl⟩ := direction_none run₂
    unfold whenever at run₃
    rw [run_sees_bind] at run₃
    split at run₃
    · next at_ =>
      obtain ⟨nulls, c₅, inner, -, last⟩ := accepted_bind run₃
      obtain ⟨rfl, rfl⟩ := accepted_pure last
      obtain ⟨ws, eq⟩ := nullOrdering_front nulls
      change E.Follows n c₃ c₂' ((Form.choice NullOrdering.keywords).words nulls ++ rest)
        at follows
      rw [eq] at follows
      have at' := (follows.keyword at_ (Nat.le_trans keeps (nullOrdering_takes inner))).1
      exact absurd at' (by simp [fixed'.2])
    · next notNulls =>
      obtain ⟨rfl, rfl⟩ := accepted_pure run₃
      rw [not_power_of_done done] at either
      simp_all

/-- An item of a sorting clause is read again.

**Proof sketch.** If a placeholder stood alone and the drift extensions were read, its dollar name
is next again. What follows it is quiet about the keywords that modify it and about operators, so it
stands alone again. Otherwise a term was read, and is read again (`orderingTerm_again`); that no
placeholder stands alone the second time is `orderingTerm_not_lone`, and in plain SQL it does not
matter whether one does. -/
lemma orderingItem_again (known : E.Known n) :
    E.Reruns n (.orderingItem E.drift) (E.Ends itemEnd) (orderingItem E.rules)
      (orderingItem E.again) := by
  rintro c c' value c₁ rest run follows keeps safe ⟨quiet, done⟩
  unfold orderingItem at run ⊢
  rw [run_view_bind] at run
  refine Accepts.congr ?_ (run_view_bind ..)
  have term : ∀ {value : OrderingTerm},
      (orderingTerm E.rules).run E.dialect c = .accepted value c₁ →
      E.Follows n c c' ((Form.orderingTerm E.drift).words value ++ rest) →
      E.Safe [.orderingItem (.term value)] →
      Accepts E.dialect (do return OrderingItem.term (← orderingTerm E.again)) c' fun value' c₁' =>
        E.Follows n c₁ c₁' rest ∧ value'.unplaced = (OrderingItem.term value).unplaced := by
    intro value run follows safe
    rw [safe_singleton] at safe
    refine (orderingTerm_again known).step run follows keeps safe.2 (quiet.mono rfl)
      fun value' c₁' _ same follows => .of_pure ⟨follows, ?_⟩
    exact congrArg OrderingItem.term same
  split at run
  · next name lone =>
    rw [run_isDrift_bind] at run
    refine Accepts.congr ?_ rfl
    split at run
    · next drift =>
      obtain ⟨-, -, run⟩ := accepted_advance run
      obtain ⟨rfl, rfl⟩ := accepted_pure run
      obtain ⟨dollar, fixed, noOperator⟩ := atLonePlaceholder_eq_some lone
      have kind := kind_of_dollarName dollar
      have follows : E.Follows n c c' (.ofVariable (.named .dollar name) :: rest) := follows
      obtain ⟨kind', follows, -⟩ := follows.same kind
        (by rw [show c.current.kind = _ from kind]; simp) keeps
      have fixed' : modifiesOrdering (c'.peek 1) = false := by
        rw [← Cursor.peek_advance] at fixed ⊢
        change modifiesOrdering c'.advance.current = false
        change modifiesOrdering c.advance.current = false at fixed
        rw [modifiesOrdering_eq, Bool.or_eq_false_iff, Bool.or_eq_false_iff] at fixed ⊢
        simp only [← Bool.not_eq_true] at fixed ⊢
        exact ⟨⟨quiet.not_keyword follows rfl fixed.1.1, quiet.not_keyword follows rfl fixed.1.2⟩,
          quiet.not_keyword follows rfl fixed.2⟩
      have noOperator' : infixPower (c'.peek 1).kind = none := by
        rw [← Cursor.peek_advance] at noOperator ⊢
        have := quiet.not_passes .power follows (by decide) (by simp)
          (by simp [Starter.passes, Starter.first, noOperator])
        simpa [Starter.passes, Starter.first, Starter.second] using this
      rw [atLonePlaceholder_of (dollarName_of_kind kind') fixed' noOperator']
      refine Accepts.congr ?_ (run_isDrift_bind ..)
      rw [if_pos drift]
      exact accepts_advance (by rw [kind']; rfl) (.of_pure ⟨follows, rfl⟩)
    · next notDrift =>
      obtain ⟨value, c₂, inner, -, last⟩ := accepted_bind run
      obtain ⟨rfl, rfl⟩ := accepted_pure last
      split
      · refine Accepts.congr ?_ (run_isDrift_bind ..)
        rw [if_neg notDrift]
        exact term inner follows safe
      · exact term inner follows safe
  · next before =>
    obtain ⟨value, c₂, inner, -, last⟩ := accepted_bind run
    obtain ⟨rfl, rfl⟩ := accepted_pure last
    split
    · next name now =>
      refine Accepts.congr ?_ (run_isDrift_bind ..)
      split
      · next drift =>
        refine absurd now ?_
        exact orderingTerm_not_lone known drift inner follows keeps (safe_singleton.mp safe).2
          (quiet.mono rfl) done before
      · exact term inner follows safe
    · exact term inner follows safe

/-- A sorting clause is read again. -/
lemma orderBy_again (known : E.Known n) :
    E.Reruns n (.orderBy E.drift) (E.Ends orderEnd) (orderBy E.rules) (orderBy E.again) := by
  rintro c c' value c₁ rest run follows keeps safe quiet
  unfold orderBy at run ⊢
  obtain ⟨at₁, le₁, run⟩ := accepted_expectKeyword run
  obtain ⟨at₂, le₂, run⟩ := accepted_expectKeyword run
  obtain ⟨items, c₂, run₁, le₃, run⟩ := accepted_bind run
  obtain ⟨rfl, rfl⟩ := accepted_return run
  simp only [Form.orderBy, Form.ofPieces_words, OrderBy.pieces, Render.wordsOf_append,
    wordsOf_words, OrderingItem.listPieces_eq_map, Render.wordsOf_blank,
    Form.wordsOf_commas E.drift (.orderingItem E.drift) _ (fun _ => rfl), List.map_cons,
    List.map_nil, List.cons_append, List.nil_append] at follows
  have below : E.Safe (items.map Node.orderingItem) := (safe_singleton.mp safe).2
  refine follows.expectKeyword at₁ (Nat.le_trans keeps le₁) fun _ follows _ => ?_
  refine follows.expectKeyword at₂ (Nat.le_trans keeps le₂) fun _ follows _ => ?_
  have items_again : E.Reruns n (Form.orderingItem E.drift).commas (E.Ends orderEnd)
      (commaSeparated E.rules.limit (orderingItem E.rules))
      (commaSeparated E.again.limit (orderingItem E.again)) :=
    (orderingItem_again known).commaSeparated known.enough
      (fun _ _ at_ => ⟨.front rfl, done_of_symbol at_ rfl⟩)
    fun _ _ quiet => ⟨⟨quiet.1.mono rfl, quiet.2⟩, quiet.1.mono rfl⟩
  refine items_again.step run₁ follows keeps (by rwa [List.map_eq_flatMap] at below) quiet
    fun items' c₂' _ (same : items'.map OrderingItem.unplaced =
      items.map OrderingItem.unplaced) follows => ?_
  exact .of_return ⟨follows, by simp [Form.orderBy, OrderBy.unplaced, same]⟩

end Rereading

end SqlTree
