import SqlTree.Proofs.Reread.Change

set_option autoImplicit false

/-!
# Reading constraints of columns again

A constraint of a column is read by its first keyword, or by its first two. Whatever stood before it
could not go on with these keywords, and they are the ones that it is written with.

## Main definitions

* `SqlTree.Rereading.constraintAt` — the keywords that a constraint of a column starts with.
* `SqlTree.Rereading.constraintBody` — the parser that these keywords choose.

## Main results

* `SqlTree.Rereading.foreignKey_again` — what a foreign key refers to is read again.
* `SqlTree.Rereading.constraintBody_again` — what a constraint of a column demands is read again.
-/

namespace SqlTree

namespace Form

/-- How conflicts with a constraint are resolved. -/
abbrev onConflict : Form (Option Conflict) :=
  (Form.conflict.after [.ofKeyword .ON, .ofKeyword .CONFLICT]).maybe

/-- The name of a constraint. -/
abbrev constraintName : Form (Option String) :=
  (Form.name.after [.ofKeyword .CONSTRAINT]).maybe

/-- A change of the referred table with the action that answers it. -/
def referential : Form (ReferentialEvent × ReferentialAction) :=
  Form.choice fun (event, action) => [.ON, event.keyword] ++ action.keywords

/-- When a foreign key is checked first. -/
abbrev initially : Form (Option Bool) :=
  ((Form.choice fun deferred : Bool => if deferred then [.DEFERRED] else [.IMMEDIATE]).after
    [.ofKeyword .INITIALLY]).maybe

/-- When a foreign key is checked. -/
def deferrable : Form Deferrable :=
  ⟨fun value => (Form.flag [.ofKeyword .NOT]).words value.negated ++ .ofKeyword .DEFERRABLE ::
    initially.words value.initiallyDeferred, fun _ => [], id⟩

/-- Whether a generated column is stored. -/
abbrev storage : Form (Option GeneratedStorage) :=
  (Form.choice fun storage : GeneratedStorage =>
    match storage with
    | .stored => [.STORED]
    | .virtual => [.VIRTUAL]).maybe

variable (drift : Bool)

/-- What a foreign key refers to. -/
def foreignKey : Form ForeignKey :=
  ofPieces drift ForeignKey.pieces (fun key => [.foreignKey key]) ForeignKey.unplaced

/-- What a constraint of a column demands. -/
def columnConstraintKind : Form ColumnConstraintKind :=
  ofPieces drift ColumnConstraintKind.pieces Node.ofColumnConstraintKind
    ColumnConstraintKind.unplaced

/-- A constraint of a column. -/
def columnConstraint : Form ColumnConstraint :=
  ofPieces drift ColumnConstraint.pieces (fun constraint => [.columnConstraint constraint])
    ColumnConstraint.unplaced

/-- The definition of a column. -/
def columnDefinition : Form ColumnDefinition :=
  ofPieces drift ColumnDefinition.pieces (fun column => [.columnDefinition column])
    ColumnDefinition.unplaced

/-- What a constraint of a table demands. -/
def tableConstraintKind : Form TableConstraintKind :=
  ofPieces drift TableConstraintKind.pieces Node.ofTableConstraintKind TableConstraintKind.unplaced

/-- A constraint of a table. -/
def tableConstraint : Form TableConstraint :=
  ofPieces drift TableConstraint.pieces (fun constraint => [.tableConstraint constraint])
    TableConstraint.unplaced

end Form

namespace Rereading

open SqlTree.Parser SqlTree.Grammar

variable {E : Rereading} {n : Nat} {c c' c₁ c₁' : Cursor} {rest : List Word}

/-! ## Parts of several constraints -/

/-- How conflicts with a constraint are resolved is read again. -/
lemma optionalOnConflict_again :
    E.Reruns n .onConflict (E.Quiet [.keywords .ON .CONFLICT]) optionalOnConflict
      optionalOnConflict := by
  intro c c' value c₁ rest run follows keeps _ quiet
  unfold optionalOnConflict whenever at run ⊢
  rw [run_sees_bind] at run
  refine Accepts.congr ?_ (run_sees_bind ..)
  split at run
  · next at_ =>
    obtain ⟨resolution, c₂, inner, -, run⟩ := accepted_bind run
    obtain ⟨rfl, rfl⟩ := accepted_pure run
    obtain ⟨-, -, inner⟩ := accepted_advance inner
    obtain ⟨-, -, inner⟩ := accepted_advance inner
    have follows : E.Follows n c c' (.ofKeyword .ON :: .ofKeyword .CONFLICT ::
      (Form.conflict.words resolution ++ rest)) := follows
    have keeps₁ := Nat.le_trans keeps (accepted_length inner)
    rw [if_pos (follows.keywords at_ keeps₁).1]
    have again : Accepts E.dialect (do let _ ← advance; let _ ← advance; conflict) c'
        fun value' c₁' => E.Follows n c₂ c₁' rest ∧ value' = resolution :=
      follows.advanceKeywords at_ keeps₁ fun follows _ =>
        conflict_again inner follows keeps safe_nil trivial
    refine again.bind ?_
    rintro _ c₂' - ⟨last, rfl⟩
    exact .of_pure ⟨last, rfl⟩
  · next not =>
    obtain ⟨rfl, rfl⟩ := accepted_pure run
    rw [if_neg (quiet.not_keywords follows rfl not)]
    exact .of_pure ⟨follows, rfl⟩

/-- A resolution of conflicts that may be left out takes nothing unless `ON` is next. -/
lemma optionalOnConflict_skips :
    Skips E.dialect .onConflict [.keyword .ON] optionalOnConflict :=
  .whenever fun _ => ⟨_, _, rfl, by simp⟩

/-- The name of a constraint is read again. -/
lemma constraintName_again :
    E.Reruns n .constraintName (E.Quiet [.keyword .CONSTRAINT]) constraintName constraintName :=
  identifier_again.afterKeyword fun _ _ quiet => ⟨trivial, quiet⟩

/-- The words of a resolution of conflicts are those of its form. -/
lemma wordsOf_onConflict (drift : Bool) (resolution : Option Conflict) :
    Render.wordsOf drift (Render.onConflict resolution) = Form.onConflict.words resolution := by
  cases resolution <;> rfl

/-- The words of the name of a constraint are those of its form. -/
lemma wordsOf_constraintName (drift : Bool) (name : Option String) :
    Render.wordsOf drift (Render.constraintName name) = Form.constraintName.words name := by
  cases name <;> rfl

/-! ## Foreign keys -/

/-- A keyword that is tried before the one that is there does not go on. -/
lemma Follows.skips {word other : Keyword} {β : Type} {next : Bool → Parser β}
    {post : β → Cursor → Prop} {ws : List Word}
    (follows : E.Follows n c c' (.ofKeyword word :: ws)) (at_ : c.view.atKeyword word = true)
    (keeps : E.mode.left ≤ c.advance.ahead.length) (differ : word ≠ other)
    (accepts : Accepts E.dialect (next false) c' post) :
    Accepts E.dialect (Parser.eatKeyword other >>= next) c' post :=
  skipKeyword (follows.notKeyword at_ keeps differ) accepts

/-- What happens to the rows that refer to a changed row is read again.

**Proof sketch.** By the keywords that were tried in turn. The keywords of the action that was read
are next again, and those that are tried before them are skipped, as another keyword is next. -/
lemma referentialAction_again :
    E.Reruns n (.choice ReferentialAction.keywords) (fun _ _ => True) referentialAction
      referentialAction := by
  intro c c' value c₁ rest run follows keeps _ _
  unfold referentialAction at run ⊢
  rw [run_eatKeyword_bind] at run
  split at run
  · next set =>
    rw [if_pos rfl, run_eatKeyword_bind] at run
    split at run
    · next null =>
      obtain ⟨rfl, rfl⟩ := accepted_pure run
      have follows : E.Follows n c c' (.ofKeyword .SET :: .ofKeyword .NULL :: rest) := follows
      refine follows.eatKeyword set (Nat.le_trans keeps (by simp)) fun follows _ => ?_
      exact follows.eatKeyword null keeps fun follows _ => .of_pure ⟨follows, rfl⟩
    · rw [if_neg Bool.false_ne_true] at run
      obtain ⟨default, -, run⟩ := accepted_expectKeyword run
      obtain ⟨rfl, rfl⟩ := accepted_pure run
      have follows : E.Follows n c c' (.ofKeyword .SET :: .ofKeyword .DEFAULT :: rest) := follows
      refine follows.eatKeyword set (Nat.le_trans keeps (by simp)) fun follows _ => ?_
      refine follows.skips default keeps (by decide) ?_
      exact follows.expectKeyword default keeps fun _ follows _ => .of_pure ⟨follows, rfl⟩
  rw [if_neg Bool.false_ne_true, run_eatKeyword_bind] at run
  split at run
  · next cascade =>
    obtain ⟨rfl, rfl⟩ := accepted_pure run
    have follows : E.Follows n c c' (.ofKeyword .CASCADE :: rest) := follows
    refine follows.skips cascade keeps (by decide) ?_
    exact follows.eatKeyword cascade keeps fun follows _ => .of_pure ⟨follows, rfl⟩
  rw [if_neg Bool.false_ne_true, run_eatKeyword_bind] at run
  split at run
  · next restrict =>
    obtain ⟨rfl, rfl⟩ := accepted_pure run
    have follows : E.Follows n c c' (.ofKeyword .RESTRICT :: rest) := follows
    refine follows.skips restrict keeps (by decide) ?_
    refine follows.skips restrict keeps (by decide) ?_
    exact follows.eatKeyword restrict keeps fun follows _ => .of_pure ⟨follows, rfl⟩
  rw [if_neg Bool.false_ne_true, run_eatKeyword_bind] at run
  split at run
  · next no =>
    obtain ⟨action, -, run⟩ := accepted_expectKeyword run
    obtain ⟨rfl, rfl⟩ := accepted_pure run
    have follows : E.Follows n c c' (.ofKeyword .NO :: .ofKeyword .ACTION :: rest) := follows
    have keeps₁ : E.mode.left ≤ c.advance.ahead.length := Nat.le_trans keeps (by simp)
    refine follows.skips no keeps₁ (by decide) ?_
    refine follows.skips no keeps₁ (by decide) ?_
    refine follows.skips no keeps₁ (by decide) ?_
    refine follows.eatKeyword no keeps₁ fun follows _ => ?_
    exact follows.expectKeyword action keeps fun _ follows _ => .of_pure ⟨follows, rfl⟩
  · exact absurd run not_accepted_unexpected

/-- The change of the referred table is read again. -/
lemma referentialEvent_again :
    E.Reruns n (.choice fun event : ReferentialEvent => [event.keyword]) (fun _ _ => True)
      referentialEvent referentialEvent := by
  intro c c' value c₁ rest run follows keeps _ _
  unfold referentialEvent at run ⊢
  rw [run_eatKeyword_bind] at run
  split at run
  · next delete =>
    obtain ⟨rfl, rfl⟩ := accepted_pure run
    have follows : E.Follows n c c' (.ofKeyword .DELETE :: rest) := follows
    exact follows.eatKeyword delete keeps fun follows _ => .of_pure ⟨follows, rfl⟩
  · rw [if_neg Bool.false_ne_true] at run
    obtain ⟨update, -, run⟩ := accepted_expectKeyword run
    obtain ⟨rfl, rfl⟩ := accepted_pure run
    have follows : E.Follows n c c' (.ofKeyword .UPDATE :: rest) := follows
    refine follows.skips update keeps (by decide) ?_
    exact follows.expectKeyword update keeps fun _ follows _ => .of_pure ⟨follows, rfl⟩

/-- A change of the referred table with its action, after `ON`. -/
def referentialPair : Parser (ReferentialEvent × ReferentialAction) := do
  let _ ← advance
  let event ← referentialEvent
  return (event, ← referentialAction)

/-- A change of the referred table is read again with its action. -/
lemma referentialPair_again :
    E.RerunsAt .ON n .referential (fun _ _ => True) referentialPair referentialPair := by
  intro c c' value c₁ rest at_ run follows keeps _ _
  unfold referentialPair at run ⊢
  obtain ⟨-, le, run⟩ := accepted_advance run
  obtain ⟨event, c₂, run₁, le₁, run⟩ := accepted_bind run
  obtain ⟨action, c₃, run₂, le₂, run⟩ := accepted_bind run
  obtain ⟨rfl, rfl⟩ := accepted_pure run
  have follows : E.Follows n c c' (.ofKeyword .ON :: (([event.keyword].map .ofKeyword) ++
      (action.keywords.map .ofKeyword ++ rest))) := by
    simpa [Form.referential, Form.choice] using follows
  refine follows.advanceKeyword at_ (Nat.le_trans keeps le) fun _ follows _ => ?_
  refine referentialEvent_again.plain rfl run₁ follows (Nat.le_trans keeps le₁) safe_nil trivial
    fun c₂' _ follows => ?_
  exact referentialAction_again.plain rfl run₂ follows keeps safe_nil trivial
    fun c₃' _ follows => .of_pure ⟨follows, rfl⟩

/-- The actions of a foreign key may end here: a further one would already have been read. -/
structure EndsActions (E : Rereading) (cursor : Cursor) (rest : List Word) : Prop where
  quiet : E.Quiet [.keyword .ON] cursor rest
  action : cursor.view.atKeyword .ON = true → atReferentialAction cursor.view = true

/-- An action of a foreign key starts with `ON`. -/
lemma atKeyword_of_action (at_ : atReferentialAction c.view = true) :
    c.view.atKeyword .ON = true := by
  unfold atReferentialAction at at_
  rw [Bool.and_eq_true] at at_
  exact at_.1

/-- The word after `ON` is that of the event. -/
lemma accepted_referentialPair {value : ReferentialEvent × ReferentialAction}
    (run : referentialPair.run E.dialect c = .accepted value c₁) :
    c.advance.view.atKeyword value.1.keyword = true ∧
      c₁.ahead.length ≤ c.advance.advance.ahead.length := by
  unfold referentialPair at run
  obtain ⟨-, -, run⟩ := accepted_advance run
  obtain ⟨event, c₂, run₁, le₁, run⟩ := accepted_bind run
  obtain ⟨action, c₃, run₂, le₂, run⟩ := accepted_bind run
  obtain ⟨rfl, rfl⟩ := accepted_pure run
  unfold referentialEvent at run₁
  rw [run_eatKeyword_bind] at run₁
  split at run₁
  · next delete =>
    obtain ⟨rfl, rfl⟩ := accepted_pure run₁
    exact ⟨delete, le₁⟩
  · rw [if_neg Bool.false_ne_true] at run₁
    obtain ⟨update, -, run₁⟩ := accepted_expectKeyword run₁
    obtain ⟨rfl, rfl⟩ := accepted_pure run₁
    exact ⟨update, le₁⟩

/-- The actions of a foreign key are read again.

**Proof sketch.** By the lemma about repetitions under a test (`Reruns.manyWhenever`). In each turn
`ON` and the event were next. They are next again, so that the test holds again, because no event is
`CONFLICT`, and the pair is read again (`referentialPair_again`) and takes tokens
(`accepted_referentialPair`). Where the test failed, it fails again, because what follows is quiet
about `ON` and no action follows it. -/
lemma referentialActions_again (enough : n ≤ E.again.limit)
    {parts : List (ReferentialEvent × ReferentialAction)}
    (run : (many E.rules.limit nextReferentialAction).run E.dialect c = .accepted parts c₁)
    (reached : c.Reachable E.drift) :
    (∀ rest, E.EndsActions c₁ rest → E.EndsActions c (Form.referential.flat.words parts ++ rest)) ∧
      ∀ {c' rest}, E.Follows n c c' (Form.referential.flat.words parts ++ rest) →
        E.mode.left ≤ c₁.ahead.length → E.EndsActions c₁ rest →
        Accepts E.dialect (many E.again.limit nextReferentialAction) c' fun parts' c₁' =>
          E.Follows n c₁ c₁' rest ∧ parts' = parts := by
  have safe : E.Safe (Form.referential.flat.nodes parts) := by
    rw [show Form.referential.flat.nodes parts = [] from
      List.flatMap_eq_nil_iff.mpr fun _ _ => rfl]
    exact safe_nil
  have run : (many E.rules.limit (whenever atReferentialAction referentialPair)).run E.dialect c =
      .accepted parts c₁ := run
  have part : ∀ {c c' value c₂ rest}, atReferentialAction c.view = true →
      referentialPair.run E.dialect c = .accepted value c₂ →
      E.Follows n c c' (Form.referential.words value ++ rest) →
      E.mode.left ≤ c₂.ahead.length → E.Safe (Form.referential.nodes value) →
      E.EndsActions c₂ rest →
      atReferentialAction c'.view = true ∧ Accepts E.dialect referentialPair c' fun value' c₂' =>
        c₂'.ahead.length < c'.ahead.length ∧ E.Follows n c₂ c₂' rest ∧
          Form.referential.bare value' = Form.referential.bare value := by
    intro c c' value c₂ rest at_ run follows keeps _ _
    have on := atKeyword_of_action at_
    obtain ⟨event, takes⟩ := accepted_referentialPair run
    have keeps₂ := Nat.le_trans keeps takes
    have keeps₁ : E.mode.left ≤ c.advance.ahead.length := Nat.le_trans keeps₂ (by simp)
    have seen : E.Follows n c c' (.ofKeyword .ON :: .ofKeyword value.1.keyword ::
      (value.2.keywords.map .ofKeyword ++ rest)) := follows
    obtain ⟨on', next, -⟩ := seen.keyword on keeps₁
    obtain ⟨event', -, -⟩ := next.keyword event keeps₂
    have notConflict : ¬ c'.advance.view.atKeyword .CONFLICT = true :=
      not_otherKeyword event' (by cases value.1 <;> decide)
    have at' : atReferentialAction c'.view = true := by
      unfold atReferentialAction
      rw [← atKeyword_advance, on']
      simpa using notConflict
    obtain ⟨value', c₂', run', last, same⟩ :=
      referentialPair_again on run follows keeps safe_nil trivial
    refine ⟨at', value', c₂', run', ?_, last, same⟩
    have takes' := (accepted_referentialPair run').2
    have := length_of_atKeyword on' follows.reached'
    simp only [Cursor.advance_ahead, List.length_tail] at this takes'
    omega
  have both := Reruns.manyWhenever enough E.EndsActions
    (fun at_ _ _ => ⟨.at_keyword (atKeyword_of_action at_) rfl, fun _ => at_⟩) part
    (fun {c c' rest} ends follows not at' => not (ends.action (by
      by_contra notOn
      exact ends.quiet.not_keyword follows rfl notOn (atKeyword_of_action at'))))
    run reached safe
  refine ⟨both.1, fun follows keeps ends => (both.2 follows keeps ends).mono ?_⟩
  rintro parts' c₁' ⟨last, same⟩
  exact ⟨last, by simpa [Form.flat, Form.referential, Form.choice] using same⟩

/-- The actions of a foreign key take nothing unless `ON` is next. -/
lemma referentialActions_skips {fuel : Nat} :
    Skips E.dialect Form.referential.flat [.keyword .ON] (many fuel nextReferentialAction) := by
  refine .many (fun value => ⟨_, _, rfl, by simp⟩) fun {c c₂} run => ?_
  unfold nextReferentialAction whenever at run
  rw [run_sees_bind] at run
  split at run
  · obtain ⟨value, c₃, -, -, run⟩ := accepted_bind run
    exact absurd (accepted_pure run).1 (by simp)
  · exact (accepted_pure run).2.symm

/-- Whether a foreign key is checked last at first. -/
def checkedLast : Parser Bool := do
  if ← eatKeyword .DEFERRED then
    return true
  else
    let _ ← expectKeyword .IMMEDIATE
    return false

/-- Whether a foreign key is checked last at first is read again. -/
lemma checkedLast_again :
    E.Reruns n (.choice fun deferred : Bool => if deferred then [.DEFERRED] else [.IMMEDIATE])
      (fun _ _ => True) checkedLast checkedLast := by
  intro c c' value c₁ rest run follows keeps _ _
  unfold checkedLast at run ⊢
  rw [run_eatKeyword_bind] at run
  split at run
  · next deferred =>
    obtain ⟨rfl, rfl⟩ := accepted_pure run
    have follows : E.Follows n c c' (.ofKeyword .DEFERRED :: rest) := follows
    exact follows.eatKeyword deferred keeps fun follows _ => .of_pure ⟨follows, rfl⟩
  · rw [if_neg Bool.false_ne_true] at run
    obtain ⟨immediate, -, run⟩ := accepted_expectKeyword run
    obtain ⟨rfl, rfl⟩ := accepted_pure run
    have follows : E.Follows n c c' (.ofKeyword .IMMEDIATE :: rest) := follows
    refine follows.skips immediate keeps (by decide) ?_
    exact follows.expectKeyword immediate keeps fun _ follows _ => .of_pure ⟨follows, rfl⟩

/-- A deferral was read from its parts: `NOT`, the keyword `DEFERRABLE`, and what `INITIALLY`
says. -/
lemma accepted_deferrable {value : Deferrable}
    (run : deferrable.run E.dialect c = .accepted value c₁) :
    ∃ c₂, (eatKeyword .NOT).run E.dialect c = .accepted value.negated c₂ ∧
      c₂.view.atKeyword .DEFERRABLE = true ∧
      (afterKeyword .INITIALLY checkedLast).run E.dialect c₂.advance =
        .accepted value.initiallyDeferred c₁ := by
  unfold deferrable at run
  obtain ⟨negated, c₂, run₁, -, run⟩ := accepted_bind run
  obtain ⟨at_, -, run⟩ := accepted_expectKeyword run
  obtain ⟨deferred, c₃, run₃, -, run⟩ := accepted_bind run
  obtain ⟨rfl, rfl⟩ := accepted_pure run
  exact ⟨c₂, run₁, at_, run₃⟩

/-- The words of a deferral are those of its parts. -/
lemma deferrable_words (value : Deferrable) :
    Form.deferrable.words value ++ rest =
      (Form.flag [.ofKeyword .NOT]).words value.negated ++ (.ofKeyword .DEFERRABLE ::
        (Form.initially.words value.initiallyDeferred ++ rest)) := by
  simp [Form.deferrable]

/-- When a foreign key is checked is read again. -/
lemma deferrable_again :
    E.Reruns n .deferrable (E.Quiet [.keyword .INITIALLY]) deferrable deferrable := by
  intro c c' value c₁ rest run follows keeps _ quiet
  obtain ⟨c₂, run₁, at_, run₂⟩ := accepted_deferrable run
  rw [deferrable_words] at follows
  have keeps₂ := Nat.le_trans keeps (accepted_length run₂)
  unfold deferrable
  refine (eatKeyword_again .NOT).plain rfl run₁ follows (Nat.le_trans keeps₂ (by simp)) safe_nil
    (.front rfl) fun c₂' _ follows => ?_
  refine follows.expectKeyword at_ keeps₂ fun _ follows _ => ?_
  exact (checkedLast_again.afterKeyword fun _ _ quiet => ⟨trivial, quiet⟩).plain
    (Form.maybe_bare rfl) run₂ follows keeps
    (by cases value.initiallyDeferred <;> exact safe_nil) quiet
    fun c₃' _ follows => .of_pure ⟨follows, rfl⟩

/-- One keyword stands after the other. -/
lemma atKeywords_of {first second : Keyword} (one : c.view.atKeyword first = true)
    (two : c.advance.view.atKeyword second = true) : c.view.atKeywords first second = true := by
  rw [atKeyword_advance] at two
  exact Bool.and_eq_true_iff.mpr ⟨one, two⟩

/-- When a foreign key is checked is read again where that is stated. -/
lemma atDeferrable_again {value : Deferrable} (at_ : atDeferrable c.view = true)
    (run : deferrable.run E.dialect c = .accepted value c₁)
    (follows : E.Follows n c c' (Form.deferrable.words value ++ rest))
    (keeps : E.mode.left ≤ c₁.ahead.length) : atDeferrable c'.view = true := by
  obtain ⟨c₂, run₁, next, run₂⟩ := accepted_deferrable run
  rw [deferrable_words] at follows
  have keeps₂ := Nat.le_trans keeps (accepted_length run₂)
  unfold atDeferrable
  rw [Bool.or_eq_true]
  obtain ⟨negated, at_, rfl⟩ | ⟨negated, -, rfl⟩ := accepted_eatKeyword run₁
  · rw [negated] at follows
    have follows : E.Follows n c c' (.ofKeyword .NOT :: .ofKeyword .DEFERRABLE :: _) := follows
    exact .inr (follows.keywords (atKeywords_of at_ next) keeps₂).1
  · rw [negated] at follows
    have follows : E.Follows n c₂ c' (.ofKeyword .DEFERRABLE :: _) := follows
    exact .inl (follows.keyword next keeps₂).1

/-- A deferral that may be left out takes nothing unless `NOT` or `DEFERRABLE` is next. -/
lemma optionalDeferrable_skips :
    Skips E.dialect Form.deferrable.maybe [.keyword .NOT, .keyword .DEFERRABLE]
      (whenever atDeferrable deferrable) :=
  .whenever fun value => by
    obtain ⟨_ | _, initially⟩ := value <;> exact ⟨_, _, rfl, by simp⟩

/-- What goes on with a foreign key. -/
def foreignEnd : List Starter :=
  [.symbol .leftParen, .keyword .ON, .keyword .DEFERRABLE, .keywords .NOT .DEFERRABLE,
    .keyword .INITIALLY]

/-- The words of a deferral are those of its form. -/
lemma wordsOf_deferrable (drift : Bool) (value : Deferrable) :
    Render.wordsOf drift value.pieces = Form.deferrable.words value := by
  obtain ⟨negated, _ | _ | _⟩ := value <;> cases negated <;> rfl

/-- The words of a foreign key are those of its parts. -/
lemma foreignKey_words (key : ForeignKey) :
    (Form.foreignKey E.drift).words key ++ rest =
      .ofKeyword .REFERENCES :: (Form.name.words key.table ++
        (Form.columnNames.words key.columns ++ (Form.referential.flat.words key.actions ++
          (Form.deferrable.maybe.words key.deferrable ++ rest)))) := by
  have listed : Render.wordsOf E.drift (key.actions.flatMap fun (event, action) =>
      .blank :: Render.words ([.ON, event.keyword] ++ action.keywords)) =
        Form.referential.flat.words key.actions :=
    Form.wordsOf_flatMap E.drift Form.referential _ (fun _ => (wordsOf_words E.drift _).symm) _
  have deferral : Render.wordsOf E.drift (Render.optional key.deferrable fun deferrable =>
      .blank :: deferrable.pieces) = Form.deferrable.maybe.words key.deferrable := by
    cases key.deferrable with
    | none => rfl
    | some value => exact wordsOf_deferrable E.drift value
  unfold Form.foreignKey
  rw [Form.ofPieces_words, ForeignKey.pieces, Render.wordsOf_append, Render.wordsOf_append, listed,
    deferral]
  simp only [List.cons_append, Render.wordsOf_keyword, Render.wordsOf_blank,
    Render.wordsOf_name, wordsOf_blankColumns, List.append_assoc]
  rfl

/-- What a foreign key refers to is read again.

**Proof sketch.** From the end to the front: the deferral starts with `NOT` or `DEFERRABLE`, so
after the actions no `ON` is next, with or without a deferral, and the loop of actions ends there
again. The actions start with `ON`, so the list of columns is quiet about them. Then the table, the
columns, the actions (`referentialActions_again`) and the deferral (`deferrable_again`) are read
again. If no deferral was read, its test fails again, because what follows is quiet about its
keywords. -/
lemma foreignKey_again (known : E.Known n) :
    E.Reruns n (.foreignKey E.drift)
      (fun c rest => E.Quiet foreignEnd c rest ∧ ¬ c.view.atKeyword .ON = true)
      (foreignKey E.rules) (foreignKey E.again) := by
  intro c c' value c₁ rest run follows keeps safe ends
  unfold foreignKey at run ⊢
  obtain ⟨at_, le₁, run⟩ := accepted_expectKeyword run
  obtain ⟨table, c₂, run₂, le₂, run⟩ := accepted_bind run
  obtain ⟨columns, c₃, run₃, le₃, run⟩ := accepted_bind run
  obtain ⟨actions, c₄, run₄, le₄, run⟩ := accepted_bind run
  obtain ⟨deferral, c₅, run₅, le₅, run⟩ := accepted_bind run
  obtain ⟨rfl, rfl⟩ := accepted_return run
  rw [foreignKey_words] at follows
  have reached₃ := accepted_reachable run₃ (accepted_reachable run₂ follows.reached.advance)
  obtain ⟨before, again⟩ := referentialActions_again (n := n) known.enough run₄ reached₃
  have quiet₄ : E.Quiet [.symbol .leftParen, .keyword .ON] c₄ _ :=
    optionalDeferrable_skips.quiet run₅ rfl (ends.1.mono rfl)
  have notOn : ¬ c₄.view.atKeyword .ON = true := by
    unfold whenever at run₅
    rw [run_sees_bind] at run₅
    split at run₅
    · next at_ =>
      intro on
      unfold atDeferrable at at_
      rw [Bool.or_eq_true] at at_
      rcases at_ with at_ | at_
      · exact not_otherKeyword at_ (by decide) on
      · exact not_otherKeyword (atKeyword_of_kind (kinds_of_atKeywords at_).1) (by decide) on
    · obtain ⟨rfl, rfl⟩ := accepted_pure run₅
      exact ends.2
  have ends₄ : E.EndsActions c₄ _ := ⟨quiet₄.mono rfl, fun on => absurd on notOn⟩
  have quiet₃ : E.Quiet [.symbol .leftParen] c₃ _ :=
    referentialActions_skips.quiet run₄ rfl (quiet₄.mono rfl)
  refine follows.expectKeyword at_ (Nat.le_trans keeps le₁) fun _ follows _ => ?_
  refine identifier_again.plain rfl run₂ follows (Nat.le_trans keeps le₂) safe_nil trivial
    fun c₂' _ follows => ?_
  refine (optionalColumnNames_again known.enough).plain rfl run₃ follows (Nat.le_trans keeps le₃)
    safe_nil quiet₃ fun c₃' _ follows => ?_
  refine (again follows (Nat.le_trans keeps le₄) ends₄).bind ?_
  rintro _ c₄' - ⟨follows, rfl⟩
  refine (deferrable_again.whenever (fun at_ run follows keeps _ =>
    atDeferrable_again at_ run follows keeps) run₅ follows keeps
    (by cases deferral <;> exact safe_nil) (fun _ => ends.1.mono rfl) ?_).bind ?_
  · rintro rfl not
    obtain ⟨-, rfl⟩ | ⟨word, ws, eq, -⟩ := optionalDeferrable_skips run₅
    · have follows : E.Follows n c₅ c₄' rest := follows
      intro at'
      unfold atDeferrable at not at'
      rw [Bool.or_eq_true, not_or] at not
      rw [Bool.or_eq_true] at at'
      rcases at' with at' | at'
      · exact ends.1.not_keyword follows rfl not.1 at'
      · exact ends.1.not_keywords follows rfl not.2 at'
    · exact absurd eq (by simp [Form.maybe])
  rintro deferral' c₅' - ⟨last, same⟩
  obtain rfl : deferral' = deferral := by
    simpa [Form.maybe, Form.deferrable] using same
  exact .of_return ⟨last, rfl⟩

/-! ## Constraints of columns -/

/-- What goes on with a constraint of a column. -/
def constraintEnd : List Starter :=
  exprEnd ++ foreignEnd ++ [.keyword .ASC, .keyword .DESC, .keywords .ON .CONFLICT,
    .keyword .AUTOINCREMENT, .keyword .STORED, .keyword .VIRTUAL]

variable (E) in
/-- A constraint of a column may end here. -/
structure EndsConstraint (cursor : Cursor) (rest : List Word) : Prop where
  quiet : E.Quiet constraintEnd cursor rest
  notOn : ¬ cursor.view.atKeyword .ON = true

/-- A constraint of a column starts with this keyword, if this is the token after it. -/
def constraintAt (word : Keyword) (second : TokenKind) : Bool :=
  match word with
  | .PRIMARY | .NOT | .NULL | .UNIQUE | .CHECK | .DEFAULT | .COLLATE | .REFERENCES | .AS => true
  | .GENERATED => second.isKeyword .ALWAYS
  | .MAPPED => second.isKeyword .BY
  | .JSON => second.isKeyword .KEY
  | _ => false

/-- The constraint of a column that starts with this keyword, and perhaps a parenthesis. -/
def constraintBody (rules : Rules) (start : Span) (word : Keyword) (paren : Bool) :
    Parser ColumnConstraintKind :=
  match word with
  | .PRIMARY => columnPrimaryKey
  | .NOT => notNull
  | .NULL => do
    let _ ← advance
    return .null
  | .UNIQUE => do
    let _ ← advance
    return .unique (← optionalOnConflict)
  | .CHECK => do
    let _ ← advance
    return .check (← parenthesized rules.expr)
  | .DEFAULT => do
    let _ ← advance
    return .default (← rules.operators (collatePower + 1))
  | .COLLATE => do
    let _ ← advance
    return .collate (← identifier)
  | .REFERENCES => do
    return .foreignKey (← foreignKey rules)
  | .GENERATED => do
    let _ ← advance
    let _ ← advance
    let _ ← expectKeyword .AS
    generatedBy rules start true
  | .AS =>
    if paren then do
      let _ ← advance
      generatedBy rules start false
    else
      dartName
  | .MAPPED => do
    return .mappedBy (← mappedBy)
  | .JSON => jsonKey
  | _ => unexpected "column constraint"

/-- The keyword of a token that is one is seen. -/
lemma keyword?_of_atKeyword {word : Keyword} (at_ : c.view.atKeyword word = true) :
    c.view.current.keyword? = some word := by
  have kind : c.view.current.kind = .keyword word := kind_of_atKeyword at_
  unfold Token.keyword?
  rw [kind]

/-- Where a constraint of a column starts, its body is read by the keyword. -/
lemma run_columnConstraintKind {rules : Rules} {dialect : Dialect} {start : Span} {word : Keyword}
    (at_ : c.view.atKeyword word = true) (starts : constraintAt word (c.peek 1).kind = true) :
    (columnConstraintKind rules start).run dialect c =
      (do return some (← constraintBody rules start word (c.view.second.isSymbol .leftParen))).run
        dialect c := by
  have second : ∀ other, c.view.second.isKeyword other = (c.peek 1).kind.isKeyword other :=
    fun other => Token.isKeyword_eq _ _
  unfold columnConstraintKind
  rw [run_view_bind, keyword?_of_atKeyword at_]
  unfold constraintAt at starts
  split at starts
  all_goals first
    | exact absurd starts Bool.false_ne_true
    | simp only [constraintBody, bind_assoc, pure_bind, second, starts, if_true]
  split <;> simp only [bind_assoc]

/-- Where no constraint of a column starts, nothing is read. -/
lemma run_columnConstraintKind_none {rules : Rules} {dialect : Dialect} {start : Span}
    (not : ∀ word, c.view.atKeyword word = true → constraintAt word (c.peek 1).kind = false) :
    (columnConstraintKind rules start).run dialect c = .accepted none c := by
  have second : ∀ other, c.view.second.isKeyword other = (c.peek 1).kind.isKeyword other :=
    fun other => Token.isKeyword_eq _ _
  have none_of : ∀ word, c.view.current.keyword? = some word →
      constraintAt word (c.peek 1).kind = false := by
    intro word found
    refine not word ?_
    unfold View.atKeyword Token.isKeyword
    rw [found, beq_self_eq_true]
  unfold columnConstraintKind
  rw [run_view_bind]
  split
  all_goals first
    | next found => exact Bool.noConfusion (show true = false from none_of _ found)
    | next found =>
      have fails : TokenKind.isKeyword _ _ = false := none_of _ found
      rw [second, if_neg (by rw [fails]; decide)]
      rfl
    | rfl

/-- A constraint of a column was read from its body, at a keyword where one starts. -/
lemma accepted_columnConstraintKind {rules : Rules} {start : Span} {kind : ColumnConstraintKind}
    (run : (columnConstraintKind rules start).run E.dialect c = .accepted (some kind) c₁) :
    ∃ word, c.view.atKeyword word = true ∧ constraintAt word (c.peek 1).kind = true ∧
      (constraintBody rules start word (c.view.second.isSymbol .leftParen)).run E.dialect c =
        .accepted kind c₁ := by
  by_cases starts : ∃ word, c.view.atKeyword word = true ∧ constraintAt word (c.peek 1).kind = true
  · obtain ⟨word, at_, starts⟩ := starts
    rw [run_columnConstraintKind at_ starts] at run
    obtain ⟨kind, c₂, inner, -, run⟩ := accepted_bind run
    obtain ⟨eq, rfl⟩ := accepted_pure run
    obtain rfl := Option.some.inj eq
    exact ⟨word, at_, starts, inner⟩
  · rw [run_columnConstraintKind_none fun word at_ => by
      rw [← Bool.not_eq_true]
      exact fun is => starts ⟨word, at_, is⟩] at run
    simp at run

/-- If no constraint of a column was read, none started there, and nothing was taken. -/
lemma accepted_columnConstraintKind_none {rules : Rules} {start : Span}
    (run : (columnConstraintKind rules start).run E.dialect c = .accepted none c₁) :
    (∀ word, c.view.atKeyword word = true → constraintAt word (c.peek 1).kind = false) ∧
      c₁ = c := by
  by_cases starts : ∃ word, c.view.atKeyword word = true ∧ constraintAt word (c.peek 1).kind = true
  · obtain ⟨word, at_, starts⟩ := starts
    rw [run_columnConstraintKind at_ starts] at run
    obtain ⟨kind, c₂, -, -, run⟩ := accepted_bind run
    exact absurd (accepted_pure run).1 (by simp)
  · have not : ∀ word, c.view.atKeyword word = true → constraintAt word (c.peek 1).kind = false :=
      fun word at_ => by
        rw [← Bool.not_eq_true]
        exact fun is => starts ⟨word, at_, is⟩
    rw [run_columnConstraintKind_none not] at run
    simp only [Outcome.accepted.injEq, true_and] at run
    exact ⟨not, run.symm⟩

/-- A primary key of one column is read again.

**Proof sketch.** The words are those of the parts, each of which is read again after the one before
it. What may be left out starts with its own keyword, so each part is quiet about those after it. -/
lemma columnPrimaryKey_again :
    E.RerunsAt .PRIMARY n (.columnConstraintKind E.drift) E.EndsConstraint columnPrimaryKey
      columnPrimaryKey := by
  intro c c' value c₁ rest at_ run follows keeps _ ends
  unfold columnPrimaryKey at run ⊢
  obtain ⟨-, le₁, run⟩ := accepted_advance run
  obtain ⟨key, le₂, run⟩ := accepted_expectKeyword run
  obtain ⟨dir, c₂, run₁, le₃, run⟩ := accepted_bind run
  obtain ⟨resolution, c₃, run₂, le₄, run⟩ := accepted_bind run
  obtain ⟨auto, c₄, run₃, le₅, run⟩ := accepted_bind run
  obtain ⟨rfl, rfl⟩ := accepted_pure run
  have follows : E.Follows n c c' (.ofKeyword .PRIMARY :: .ofKeyword .KEY ::
      (Form.direction.words dir ++ (Form.onConflict.words resolution ++
        ((Form.flag [.ofKeyword .AUTOINCREMENT]).words auto ++ rest)))) := by
    have flagged : Render.wordsOf E.drift
        (Render.suffix (if auto then some [.AUTOINCREMENT] else none)) =
          (Form.flag [.ofKeyword .AUTOINCREMENT]).words auto := by
      cases auto <;> rfl
    simpa [Form.columnConstraintKind, ColumnConstraintKind.pieces, wordsOf_words,
      wordsOf_suffix_map, wordsOf_onConflict, flagged] using follows
  have quiet₃ : E.Quiet [.keyword .ASC, .keyword .DESC, .keywords .ON .CONFLICT] c₃ _ :=
    (eatKeyword_skips .AUTOINCREMENT).quiet run₃ rfl (ends.quiet.mono rfl)
  refine follows.advanceKeyword at_ (Nat.le_trans keeps le₁) fun _ follows _ => ?_
  refine follows.expectKeyword key (Nat.le_trans keeps le₂) fun _ follows _ => ?_
  refine direction_again.plain (choice_maybe_bare _) run₁ follows (Nat.le_trans keeps le₃)
    (safe_maybe_choice _) (optionalOnConflict_skips.quiet run₂ rfl (quiet₃.mono rfl))
    fun c₂' _ follows => ?_
  refine optionalOnConflict_again.plain (Form.maybe_bare rfl) run₂ follows
    (Nat.le_trans keeps le₄) (by cases resolution <;> exact safe_nil) (quiet₃.mono rfl)
    fun c₃' _ follows => ?_
  exact (eatKeyword_again _).plain rfl run₃ follows keeps safe_nil (ends.quiet.mono rfl)
    fun c₄' _ follows => .of_pure ⟨follows, rfl⟩

/-- A column that is never null is read again. -/
lemma notNull_again :
    E.RerunsAt .NOT n (.columnConstraintKind E.drift) E.EndsConstraint notNull notNull := by
  intro c c' value c₁ rest at_ run follows keeps _ ends
  unfold notNull at run ⊢
  obtain ⟨-, le₁, run⟩ := accepted_advance run
  obtain ⟨null, le₂, run⟩ := accepted_expectKeyword run
  obtain ⟨resolution, c₂, run₁, le₃, run⟩ := accepted_bind run
  obtain ⟨rfl, rfl⟩ := accepted_pure run
  have follows : E.Follows n c c' (.ofKeyword .NOT :: .ofKeyword .NULL ::
      (Form.onConflict.words resolution ++ rest)) := by
    simpa [Form.columnConstraintKind, ColumnConstraintKind.pieces, wordsOf_words,
      wordsOf_onConflict] using follows
  refine follows.advanceKeyword at_ (Nat.le_trans keeps le₁) fun _ follows _ => ?_
  refine follows.expectKeyword null (Nat.le_trans keeps le₂) fun _ follows _ => ?_
  exact optionalOnConflict_again.plain (Form.maybe_bare rfl) run₁ follows keeps
    (by cases resolution <;> exact safe_nil) (ends.quiet.mono rfl)
    fun c₂' _ follows => .of_pure ⟨follows, rfl⟩

/-- A column that is unique is read again. -/
lemma unique_again :
    E.RerunsAt .UNIQUE n (.columnConstraintKind E.drift) E.EndsConstraint
      (do let _ ← advance; return .unique (← optionalOnConflict))
      (do let _ ← advance; return .unique (← optionalOnConflict)) := by
  intro c c' value c₁ rest at_ run follows keeps _ ends
  obtain ⟨-, le₁, run⟩ := accepted_advance run
  obtain ⟨resolution, c₂, run₁, le₂, run⟩ := accepted_bind run
  obtain ⟨rfl, rfl⟩ := accepted_pure run
  have follows : E.Follows n c c' (.ofKeyword .UNIQUE ::
      (Form.onConflict.words resolution ++ rest)) := by
    simpa [Form.columnConstraintKind, ColumnConstraintKind.pieces, wordsOf_words,
      wordsOf_onConflict] using follows
  refine follows.advanceKeyword at_ (Nat.le_trans keeps le₁) fun _ follows _ => ?_
  exact optionalOnConflict_again.plain (Form.maybe_bare rfl) run₁ follows keeps
    (by cases resolution <;> exact safe_nil) (ends.quiet.mono rfl)
    fun c₂' _ follows => .of_pure ⟨follows, rfl⟩

/-- An expression in parentheses is read again. -/
lemma enclosed_again (known : E.Known n) :
    E.Reruns n (Form.expr E.drift).parens (fun _ _ => True) (parenthesized E.rules.expr)
      (parenthesized E.again.expr) :=
  known.expr.parenthesized fun _ _ _ _ => .front rfl

/-- A check is read again. -/
lemma check_again (known : E.Known n) :
    E.RerunsAt .CHECK n (.columnConstraintKind E.drift) E.EndsConstraint
      (do let _ ← advance; return .check (← parenthesized E.rules.expr))
      (do let _ ← advance; return .check (← parenthesized E.again.expr)) := by
  intro c c' value c₁ rest at_ run follows keeps safe _
  obtain ⟨-, le₁, run⟩ := accepted_advance run
  obtain ⟨expr, c₂, run₁, le₂, run⟩ := accepted_bind run
  obtain ⟨rfl, rfl⟩ := accepted_pure run
  have follows : E.Follows n c c' (.ofKeyword .CHECK ::
      ((Form.expr E.drift).parens.words expr ++ rest)) := by
    simpa [Form.columnConstraintKind, ColumnConstraintKind.pieces, wordsOf_parens, Form.parens,
      Form.expr] using follows
  refine follows.advanceKeyword at_ (Nat.le_trans keeps le₁) fun _ follows _ => ?_
  exact (enclosed_again known).step run₁ follows keeps safe trivial
    fun expr' c₂' _ same follows => .of_pure ⟨follows, congrArg ColumnConstraintKind.check same⟩

/-- A default is read again. -/
lemma default_again (known : E.Known n) :
    E.RerunsAt .DEFAULT n (.columnConstraintKind E.drift) E.EndsConstraint
      (do let _ ← advance; return .default (← E.rules.operators (collatePower + 1)))
      (do let _ ← advance; return .default (← E.again.operators (collatePower + 1))) := by
  intro c c' value c₁ rest at_ run follows keeps safe ends
  obtain ⟨-, le₁, run⟩ := accepted_advance run
  obtain ⟨expr, c₂, run₁, le₂, run⟩ := accepted_bind run
  obtain ⟨rfl, rfl⟩ := accepted_pure run
  have follows : E.Follows n c c' (.ofKeyword .DEFAULT ::
      ((Form.expr E.drift).words expr ++ rest)) := by
    simpa [Form.columnConstraintKind, ColumnConstraintKind.pieces, Form.expr] using follows
  refine follows.advanceKeyword at_ (Nat.le_trans keeps le₁) fun _ follows _ => ?_
  exact (known.operators _).step run₁ follows keeps safe (ends.quiet.mono rfl)
    fun expr' c₂' _ same follows => .of_pure ⟨follows, congrArg ColumnConstraintKind.default same⟩

/-- A collation is read again. -/
lemma collation_again :
    E.RerunsAt .COLLATE n (.columnConstraintKind E.drift) E.EndsConstraint
      (do let _ ← advance; return .collate (← identifier))
      (do let _ ← advance; return .collate (← identifier)) := by
  intro c c' value c₁ rest at_ run follows keeps safe ends
  obtain ⟨-, le₁, run⟩ := accepted_advance run
  obtain ⟨name, c₂, run₁, le₂, run⟩ := accepted_bind run
  obtain ⟨rfl, rfl⟩ := accepted_pure run
  have follows : E.Follows n c c' (.ofKeyword .COLLATE :: (Form.name.words name ++ rest)) := follows
  refine follows.advanceKeyword at_ (Nat.le_trans keeps le₁) fun _ follows _ => ?_
  exact identifier_again.plain rfl run₁ follows keeps safe_nil trivial
    fun c₂' _ follows => .of_pure ⟨follows, rfl⟩

/-- A foreign key of one column is read again. -/
lemma references_again (known : E.Known n) :
    E.RerunsAt .REFERENCES n (.columnConstraintKind E.drift) E.EndsConstraint
      (do return .foreignKey (← foreignKey E.rules))
      (do return .foreignKey (← foreignKey E.again)) := by
  intro c c' value c₁ rest _ run follows keeps safe ends
  obtain ⟨key, c₂, run₁, le₂, run⟩ := accepted_bind run
  obtain ⟨rfl, rfl⟩ := accepted_pure run
  exact (foreignKey_again known).step run₁ follows keeps safe ⟨ends.quiet.mono rfl, ends.notOn⟩
    fun key' c₂' _ same follows =>
      .of_pure ⟨follows, congrArg ColumnConstraintKind.foreignKey same⟩

/-- Whether a generated column is stored is read again. -/
lemma generatedStorage_again :
    E.Reruns n .storage (E.Quiet [.keyword .STORED, .keyword .VIRTUAL]) generatedStorage
      generatedStorage := by
  intro c c' value c₁ rest run follows keeps _ quiet
  unfold generatedStorage at run ⊢
  rw [run_eatKeyword_bind] at run
  split at run
  · next stored =>
    obtain ⟨rfl, rfl⟩ := accepted_pure run
    have follows : E.Follows n c c' (.ofKeyword .STORED :: rest) := follows
    exact follows.eatKeyword stored keeps fun follows _ => .of_pure ⟨follows, rfl⟩
  · next notStored =>
    rw [if_neg Bool.false_ne_true, run_eatKeyword_bind] at run
    split at run
    · next virtual =>
      obtain ⟨rfl, rfl⟩ := accepted_pure run
      have follows : E.Follows n c c' (.ofKeyword .VIRTUAL :: rest) := follows
      refine follows.skips virtual keeps (by decide) ?_
      exact follows.eatKeyword virtual keeps fun follows _ => .of_pure ⟨follows, rfl⟩
    · next notVirtual =>
      obtain ⟨rfl, rfl⟩ := accepted_pure run
      refine skipKeyword (quiet.not_keyword follows rfl notStored) ?_
      exact skipKeyword (quiet.not_keyword follows rfl notVirtual) (.of_pure ⟨follows, rfl⟩)

/-- What reads a generated value yields one. -/
lemma generatedBy_eq {rules : Rules} {start : Span} {always : Bool} {value : ColumnConstraintKind}
    (run : (generatedBy rules start always).run E.dialect c = .accepted value c₁) :
    ∃ expr storage, value = .generated expr storage always := by
  unfold generatedBy at run
  obtain ⟨-, run⟩ := accepted_require run
  obtain ⟨expr, c₂, -, -, run⟩ := accepted_bind run
  obtain ⟨storage, c₃, -, -, run⟩ := accepted_bind run
  obtain ⟨rfl, rfl⟩ := accepted_pure run
  exact ⟨expr, storage, rfl⟩

/-- The expression that a column is generated by is read again. -/
lemma generatedBy_again (known : E.Known n) {start start' : Span} {always : Bool} {expr : Expr}
    {storage : Option GeneratedStorage}
    (run : (generatedBy E.rules start always).run E.dialect c =
      .accepted (.generated expr storage always) c₁)
    (follows : E.Follows n c c' ((Form.expr E.drift).parens.words expr ++
      (Form.storage.words storage ++ rest)))
    (keeps : E.mode.left ≤ c₁.ahead.length) (safe : E.Safe [.expr expr])
    (ends : E.EndsConstraint c₁ rest) :
    Accepts E.dialect (generatedBy E.again start' always) c' fun value' c₁' =>
      E.Follows n c₁ c₁' rest ∧
        value'.unplaced = (ColumnConstraintKind.generated expr storage always).unplaced := by
  unfold generatedBy at run ⊢
  obtain ⟨has, run⟩ := accepted_require run
  obtain ⟨found, c₂, run₁, le₁, run⟩ := accepted_bind run
  obtain ⟨stored, c₃, run₂, le₂, run⟩ := accepted_bind run
  obtain ⟨eq, rfl⟩ := accepted_pure run
  obtain ⟨rfl, rfl, -⟩ := ColumnConstraintKind.generated.inj eq
  refine accepts_require has ?_
  refine (enclosed_again known).step run₁ follows (Nat.le_trans keeps le₁) safe trivial
    fun expr' c₂' _ (same : expr'.unplaced = _) follows => ?_
  exact generatedStorage_again.plain (Form.maybe_bare rfl) run₂ follows keeps
    (by cases stored <;> exact safe_nil) (ends.quiet.mono rfl)
    fun c₃' _ follows => .of_pure
      ⟨follows, congrArg (ColumnConstraintKind.generated · stored always) same⟩

/-- The words of a generated value: its keywords, the expression in parentheses and the storage. -/
lemma generated_words (expr : Expr) (storage : Option GeneratedStorage) (always : Bool) :
    (Form.columnConstraintKind E.drift).words (.generated expr storage always) ++ rest =
      (if always then [.ofKeyword .GENERATED, .ofKeyword .ALWAYS] else []) ++ .ofKeyword .AS ::
        ((Form.expr E.drift).parens.words expr ++ (Form.storage.words storage ++ rest)) := by
  rcases storage with _ | _ | _ <;> cases always <;>
    simp [Form.columnConstraintKind, ColumnConstraintKind.pieces, wordsOf_wordsIf, wordsOf_parens,
      Form.parens, Form.expr, Render.suffix, Form.maybe, Form.choice, wordsOf_words]

/-- A column that may be null is read again. -/
lemma null_again :
    E.RerunsAt .NULL n (.columnConstraintKind E.drift) E.EndsConstraint
      (do let _ ← advance; return .null) (do let _ ← advance; return .null) := by
  intro c c' value c₁ rest at_ run follows keeps _ _
  obtain ⟨-, -, run⟩ := accepted_advance run
  obtain ⟨rfl, rfl⟩ := accepted_pure run
  have follows : E.Follows n c c' (.ofKeyword .NULL :: rest) := follows
  exact follows.advanceKeyword at_ keeps fun _ follows _ => .of_pure ⟨follows, rfl⟩

/-! ### The first keywords -/

/-- The keyword that a constraint of a column is written with in front, and the one after it if that
has to be there too. -/
def frontOf : ColumnConstraintKind → Keyword × Option Keyword
  | .primaryKey _ _ _ => (.PRIMARY, none)
  | .notNull _ => (.NOT, some .NULL)
  | .null => (.NULL, none)
  | .unique _ => (.UNIQUE, none)
  | .check _ => (.CHECK, none)
  | .default _ => (.DEFAULT, none)
  | .collate _ => (.COLLATE, none)
  | .foreignKey _ => (.REFERENCES, none)
  | .generated _ _ true => (.GENERATED, some .ALWAYS)
  | .generated _ _ false => (.AS, none)
  | .mappedBy _ => (.MAPPED, some .BY)
  | .jsonKey _ => (.JSON, some .KEY)
  | .dartName _ => (.AS, none)

/-- A constraint of a column is written with the keywords of `frontOf` in front. -/
lemma frontOf_words (kind : ColumnConstraintKind) :
    ∃ ws, (Form.columnConstraintKind E.drift).words kind =
      .ofKeyword (frontOf kind).1 :: ((frontOf kind).2.map Word.ofKeyword).toList ++ ws := by
  cases kind with
  | generated expr storage always => cases always <;> exact ⟨_, rfl⟩
  | _ => exact ⟨_, rfl⟩

/-- A constraint of a column is written with the keywords in front that it was read with.

**Proof sketch.** By the cases of the keyword that `constraintAt` allows, in the order of
`constraintBody`. In each, the run is taken apart far enough to see the kind that it yields and how
many tokens it takes; a second keyword in front is the one that `constraintAt` looked at, or one
that the body demands. -/
lemma accepted_constraintBody {rules : Rules} {start : Span} {word : Keyword} {paren : Bool}
    {kind : ColumnConstraintKind} (starts : constraintAt word (c.peek 1).kind = true)
    (run : (constraintBody rules start word paren).run E.dialect c = .accepted kind c₁) :
    (frontOf kind).1 = word ∧ c₁.ahead.length ≤ c.advance.ahead.length ∧
      ∀ next ∈ (frontOf kind).2, c.advance.view.atKeyword next = true ∧
        c₁.ahead.length ≤ c.advance.advance.ahead.length := by
  have second : ∀ {next : Keyword}, (c.peek 1).kind.isKeyword next = true →
      c.advance.view.atKeyword next = true := fun at_ => by
    rw [atKeyword_advance]
    exact (Token.isKeyword_eq _ _).trans at_
  unfold constraintAt at starts
  split at starts
  · unfold constraintBody columnPrimaryKey at run
    obtain ⟨-, le, run⟩ := accepted_advance run
    obtain ⟨-, -, run⟩ := accepted_expectKeyword run
    obtain ⟨_, _, -, -, run⟩ := accepted_bind run
    obtain ⟨_, _, -, -, run⟩ := accepted_bind run
    obtain ⟨_, _, -, -, run⟩ := accepted_bind run
    obtain ⟨rfl, rfl⟩ := accepted_pure run
    exact ⟨rfl, le, by simp [frontOf]⟩
  · unfold constraintBody notNull at run
    obtain ⟨-, le, run⟩ := accepted_advance run
    obtain ⟨null, le₁, run⟩ := accepted_expectKeyword run
    obtain ⟨_, _, -, -, run⟩ := accepted_bind run
    obtain ⟨rfl, rfl⟩ := accepted_pure run
    exact ⟨rfl, le, by rintro _ ⟨⟩; exact ⟨null, le₁⟩⟩
  · obtain ⟨-, le, run⟩ := accepted_advance run
    obtain ⟨rfl, rfl⟩ := accepted_pure run
    exact ⟨rfl, le, by simp [frontOf]⟩
  iterate 4
    · obtain ⟨-, le, run⟩ := accepted_advance run
      obtain ⟨_, _, -, -, run⟩ := accepted_bind run
      obtain ⟨rfl, rfl⟩ := accepted_pure run
      exact ⟨rfl, le, by simp [frontOf]⟩
  · obtain ⟨key, _, run₁, -, run⟩ := accepted_bind run
    obtain ⟨rfl, rfl⟩ := accepted_pure run
    exact ⟨rfl, (accepted_expectKeyword run₁).2.1, by simp [frontOf]⟩
  · cases paren
    · obtain ⟨-, run⟩ := accepted_require run
      obtain ⟨-, le, run⟩ := accepted_advance run
      obtain ⟨_, _, -, -, run⟩ := accepted_bind run
      obtain ⟨rfl, rfl⟩ := accepted_pure run
      exact ⟨rfl, le, by simp [frontOf]⟩
    · obtain ⟨-, le, run⟩ := accepted_advance run
      obtain ⟨_, _, rfl⟩ := generatedBy_eq run
      exact ⟨rfl, le, by simp [frontOf]⟩
  · obtain ⟨-, le, run⟩ := accepted_advance run
    obtain ⟨-, le₁, run⟩ := accepted_advance run
    obtain ⟨-, -, run⟩ := accepted_expectKeyword run
    obtain ⟨_, _, rfl⟩ := generatedBy_eq run
    exact ⟨rfl, le, by rintro _ ⟨⟩; exact ⟨second starts, le₁⟩⟩
  · obtain ⟨_, _, run₁, -, run⟩ := accepted_bind run
    obtain ⟨rfl, rfl⟩ := accepted_pure run
    unfold mappedBy at run₁
    obtain ⟨-, run₁⟩ := accepted_require run₁
    obtain ⟨-, le, run₁⟩ := accepted_advance run₁
    obtain ⟨-, le₁, run₁⟩ := accepted_advance run₁
    exact ⟨rfl, le, by rintro _ ⟨⟩; exact ⟨second starts, le₁⟩⟩
  · unfold constraintBody jsonKey at run
    obtain ⟨-, run⟩ := accepted_require run
    obtain ⟨-, le, run⟩ := accepted_advance run
    obtain ⟨-, le₁, run⟩ := accepted_advance run
    obtain ⟨_, _, -, -, run⟩ := accepted_bind run
    obtain ⟨rfl, rfl⟩ := accepted_pure run
    exact ⟨rfl, le, by rintro _ ⟨⟩; exact ⟨second starts, le₁⟩⟩
  · exact absurd starts Bool.false_ne_true

/-! ### Constraints that start with two keywords, or with `AS` -/

/-- A generated column is read again. -/
lemma generatedAlways_again (known : E.Known n) {start start' : Span} {paren paren' : Bool}
    {value : ColumnConstraintKind} (at_ : c.view.atKeywords .GENERATED .ALWAYS = true)
    (run : (constraintBody E.rules start .GENERATED paren).run E.dialect c = .accepted value c₁)
    (follows : E.Follows n c c' ((Form.columnConstraintKind E.drift).words value ++ rest))
    (keeps : E.mode.left ≤ c₁.ahead.length)
    (safe : E.Safe ((Form.columnConstraintKind E.drift).nodes value))
    (ends : E.EndsConstraint c₁ rest) :
    Accepts E.dialect (constraintBody E.again start' .GENERATED paren') c' fun value' c₁' =>
      E.Follows n c₁ c₁' rest ∧ value'.unplaced = value.unplaced := by
  unfold constraintBody at run ⊢
  obtain ⟨-, -, run⟩ := accepted_advance run
  obtain ⟨-, le, run⟩ := accepted_advance run
  obtain ⟨as, le₁, run⟩ := accepted_expectKeyword run
  obtain ⟨expr, storage, rfl⟩ := generatedBy_eq run
  rw [generated_words] at follows
  refine follows.advanceKeywords at_ (Nat.le_trans keeps le) fun follows _ => ?_
  refine follows.expectKeyword as (Nat.le_trans keeps le₁) fun _ follows _ => ?_
  exact generatedBy_again known run follows keeps safe ends

/-- A generated column is read again where its first keywords are left out. -/
lemma generatedAs_again (known : E.Known n) {start start' : Span} :
    E.RerunsAt .AS n (.columnConstraintKind E.drift) E.EndsConstraint
      (constraintBody E.rules start .AS true) (constraintBody E.again start' .AS true) := by
  intro c c' value c₁ rest at_ run follows keeps safe ends
  unfold constraintBody at run ⊢
  rw [if_pos rfl] at run ⊢
  obtain ⟨-, le, run⟩ := accepted_advance run
  obtain ⟨expr, storage, rfl⟩ := generatedBy_eq run
  rw [generated_words] at follows
  refine follows.advanceKeyword at_ (Nat.le_trans keeps le) fun _ follows _ => ?_
  exact generatedBy_again known run follows keeps safe ends

/-- The name of a column in Dart is read again. -/
lemma dartName_again :
    E.RerunsAt .AS n (.columnConstraintKind E.drift) E.EndsConstraint dartName dartName := by
  intro c c' value c₁ rest at_ run follows keeps _ _
  unfold dartName at run ⊢
  rw [run_here_bind] at run
  refine Accepts.congr ?_ (run_here_bind ..)
  obtain ⟨has, run⟩ := accepted_require run
  obtain ⟨-, le, run⟩ := accepted_advance run
  obtain ⟨name, c₂, run₁, -, run⟩ := accepted_bind run
  obtain ⟨rfl, rfl⟩ := accepted_pure run
  have follows : E.Follows n c c' (.ofKeyword .AS :: (Form.name.words name ++ rest)) := follows
  refine accepts_require has ?_
  refine follows.advanceKeyword at_ (Nat.le_trans keeps le) fun _ follows _ => ?_
  exact identifier_again.plain rfl run₁ follows keeps safe_nil trivial
    fun c₂' _ follows => .of_pure ⟨follows, rfl⟩

/-- The Dart converter of a column is read again. -/
lemma converter_again {value : ColumnConstraintKind}
    (at_ : c.view.atKeywords .MAPPED .BY = true)
    (run : (do return ColumnConstraintKind.mappedBy (← mappedBy)).run E.dialect c =
      .accepted value c₁)
    (follows : E.Follows n c c' ((Form.columnConstraintKind E.drift).words value ++ rest))
    (keeps : E.mode.left ≤ c₁.ahead.length) :
    Accepts E.dialect (do return ColumnConstraintKind.mappedBy (← mappedBy)) c' fun value' c₁' =>
      E.Follows n c₁ c₁' rest ∧ value'.unplaced = value.unplaced := by
  unfold mappedBy at run ⊢
  simp only [bind_assoc] at run ⊢
  rw [run_here_bind] at run
  obtain ⟨has, run⟩ := accepted_require run
  obtain ⟨-, -, run⟩ := accepted_advance run
  obtain ⟨-, le, run⟩ := accepted_advance run
  obtain ⟨code, c₂, run₁, -, run⟩ := accepted_bind run
  obtain ⟨rfl, rfl⟩ := accepted_pure run
  have follows : E.Follows n c c' (.ofKeyword .MAPPED :: .ofKeyword .BY ::
    ([.ofDart code] ++ rest)) := follows
  refine Accepts.congr ?_ (run_here_bind ..)
  refine accepts_require has ?_
  refine follows.advanceKeywords at_ (Nat.le_trans keeps le) fun follows _ => ?_
  exact dartCode_again.plain rfl run₁ follows keeps safe_nil trivial
    fun c₂' _ follows => .of_pure ⟨follows, rfl⟩

/-- The key of a column in JSON objects is read again. -/
lemma jsonKey_again {value : ColumnConstraintKind}
    (at_ : c.view.atKeywords .JSON .KEY = true)
    (run : jsonKey.run E.dialect c = .accepted value c₁)
    (follows : E.Follows n c c' ((Form.columnConstraintKind E.drift).words value ++ rest))
    (keeps : E.mode.left ≤ c₁.ahead.length) :
    Accepts E.dialect jsonKey c' fun value' c₁' =>
      E.Follows n c₁ c₁' rest ∧ value'.unplaced = value.unplaced := by
  unfold jsonKey at run ⊢
  rw [run_here_bind] at run
  refine Accepts.congr ?_ (run_here_bind ..)
  obtain ⟨has, run⟩ := accepted_require run
  obtain ⟨-, -, run⟩ := accepted_advance run
  obtain ⟨-, le, run⟩ := accepted_advance run
  obtain ⟨key, c₂, run₁, -, run⟩ := accepted_bind run
  obtain ⟨rfl, rfl⟩ := accepted_pure run
  have follows : E.Follows n c c' (.ofKeyword .JSON :: .ofKeyword .KEY ::
    (Form.name.words key ++ rest)) := follows
  refine accepts_require has ?_
  refine follows.advanceKeywords at_ (Nat.le_trans keeps le) fun follows _ => ?_
  exact identifier_again.plain rfl run₁ follows keeps safe_nil trivial
    fun c₂' _ follows => .of_pure ⟨follows, rfl⟩

/-- What stands after `AS` is read as an expression in parentheses, or as a name, again.

**Proof sketch.** By whether a parenthesis was next after `AS`. If it was, a generated value was
read, whose words have the parenthesis again, and it is read again (`generatedAs_again`). If it was
not, a name was read, which is next again and is no parenthesis, so the name is read again
(`dartName_again`). -/
lemma as_again (known : E.Known n) {start start' : Span} {value : ColumnConstraintKind}
    (at_ : c.view.atKeyword .AS = true)
    (run : (constraintBody E.rules start .AS (c.view.second.isSymbol .leftParen)).run E.dialect c =
      .accepted value c₁)
    (follows : E.Follows n c c' ((Form.columnConstraintKind E.drift).words value ++ rest))
    (keeps : E.mode.left ≤ c₁.ahead.length)
    (safe : E.Safe ((Form.columnConstraintKind E.drift).nodes value))
    (ends : E.EndsConstraint c₁ rest) :
    Accepts E.dialect (constraintBody E.again start' .AS (c'.view.second.isSymbol .leftParen)) c'
      fun value' c₁' => E.Follows n c₁ c₁' rest ∧ value'.unplaced = value.unplaced := by
  rw [← atSymbol_advance] at run ⊢
  cases paren : c.advance.view.atSymbol .leftParen with
  | true =>
    rw [paren] at run
    obtain ⟨-, le, inner⟩ := accepted_advance run
    obtain ⟨expr, storage, rfl⟩ := generatedBy_eq inner
    have le₂ : c₁.ahead.length ≤ c.advance.advance.ahead.length := by
      obtain ⟨-, inner⟩ := accepted_require inner
      unfold parenthesized at inner
      rw [bind_assoc] at inner
      exact (accepted_expectSymbol inner).2.1
    have paren' : c'.advance.view.atSymbol .leftParen = true := by
      rw [generated_words] at follows
      obtain ⟨-, next, -⟩ := follows.keyword at_ (Nat.le_trans keeps le)
      exact (next.symbol paren (Nat.le_trans keeps le₂)).1
    rw [paren']
    exact generatedAs_again known at_ run follows keeps safe ends
  | false =>
    rw [paren] at run
    have named : dartName.run E.dialect c = .accepted value c₁ := run
    have paren' : c'.advance.view.atSymbol .leftParen = false := by
      unfold dartName at named
      obtain ⟨-, named⟩ := accepted_require named
      obtain ⟨-, le, named⟩ := accepted_advance named
      obtain ⟨name, c₂, run₁, -, named⟩ := accepted_bind named
      obtain ⟨rfl, rfl⟩ := accepted_pure named
      obtain ⟨is, rfl, rfl⟩ := accepted_identifier run₁
      have follows : E.Follows n c c' (.ofKeyword .AS :: .ofName _ :: rest) := follows
      obtain ⟨-, next, -⟩ := follows.keyword at_ (Nat.le_trans keeps le)
      obtain ⟨is', -⟩ := next.name is keeps
      rw [← Bool.not_eq_true]
      intro paren'
      change c'.advance.current.kind.isIdentifierLike = true at is'
      rw [kind_of_atSymbol paren'] at is'
      exact absurd is' Bool.false_ne_true
    rw [paren']
    exact dartName_again at_ named follows keeps safe ends

/-- What a constraint of a column demands is read again by the keywords that it starts with. -/
lemma constraintBody_again (known : E.Known n) {start start' : Span} {word : Keyword}
    {value : ColumnConstraintKind} (at_ : c.view.atKeyword word = true)
    (starts : constraintAt word (c.peek 1).kind = true)
    (run : (constraintBody E.rules start word (c.view.second.isSymbol .leftParen)).run E.dialect c =
      .accepted value c₁)
    (follows : E.Follows n c c' ((Form.columnConstraintKind E.drift).words value ++ rest))
    (keeps : E.mode.left ≤ c₁.ahead.length)
    (safe : E.Safe ((Form.columnConstraintKind E.drift).nodes value))
    (ends : E.EndsConstraint c₁ rest) :
    Accepts E.dialect (constraintBody E.again start' word (c'.view.second.isSymbol .leftParen)) c'
      fun value' c₁' => E.Follows n c₁ c₁' rest ∧ value'.unplaced = value.unplaced := by
  have pair : ∀ {next : Keyword}, (c.peek 1).kind.isKeyword next = true →
      c.view.atKeywords word next = true := fun second =>
    atKeywords_of_kinds (kind_of_atKeyword at_) (TokenKind.isKeyword_iff.mp second)
  unfold constraintAt at starts
  split at starts
  · exact columnPrimaryKey_again at_ run follows keeps safe ends
  · exact notNull_again at_ run follows keeps safe ends
  · exact null_again at_ run follows keeps safe ends
  · exact unique_again at_ run follows keeps safe ends
  · exact check_again known at_ run follows keeps safe ends
  · exact default_again known at_ run follows keeps safe ends
  · exact collation_again at_ run follows keeps safe ends
  · exact references_again known at_ run follows keeps safe ends
  · exact as_again known at_ run follows keeps safe ends
  · exact generatedAlways_again known (pair starts) run follows keeps safe ends
  · exact converter_again (pair starts) run follows keeps
  · exact jsonKey_again (pair starts) run follows keeps
  · exact absurd starts Bool.false_ne_true

end Rereading

end SqlTree
