import SqlTree.Proofs.Reread.Steps

set_option autoImplicit false

/-!
# Reading names again

## Main definitions

* `SqlTree.Form.name`, `SqlTree.Form.qualified`, `SqlTree.Form.aliased` — how names are written.

## Main results

* `SqlTree.Rereading.identifier_again`, `SqlTree.Rereading.optionalAlias_again` and their siblings —
  names are read again.
-/

namespace SqlTree

namespace Form

/-- A name. -/
def name : Form String :=
  ⟨fun written => [.ofName written], fun _ => [], id⟩

/-- A name, perhaps with a schema before it. -/
def qualified : Form (Option String × String) :=
  ⟨fun (schema, written) =>
    match schema with
    | some schema => [.ofName schema, .ofSymbol .dot, .ofName written]
    | none => [.ofName written], fun _ => [], id⟩

/-- The name that something is given. -/
def aliased : Form (Option String) :=
  (name.after [.ofKeyword .AS]).maybe

/-- Words that stand for a condition. -/
def flag (words : List Word) : Form Bool :=
  ⟨fun value => if value then words else [], fun _ => [], id⟩

end Form

namespace Rereading

open SqlTree.Parser SqlTree.Grammar

variable {E : Rereading} {α β : Type} {n : Nat} {c c' c₁ c₁' : Cursor} {rest : List Word}
  {post : β → Cursor → Prop}

/-! ## Words -/

/-- A name is not the end of the input. -/
lemma atIdentifier_ne_end (at_ : c.view.atIdentifier = true) :
    c.current.kind ≠ .endOfInput := by
  intro kind
  change c.current.kind.isIdentifierLike = true at at_
  rw [kind] at at_
  exact absurd at_ Bool.false_ne_true

/-- Both readings take a name. -/
lemma Follows.name (follows : E.Follows n c c' (.ofName (nameOf c.current) :: rest))
    (at_ : c.view.atIdentifier = true) (keeps : E.mode.left ≤ c.advance.ahead.length) :
    c'.view.atIdentifier = true ∧ nameOf c'.current = nameOf c.current ∧
      E.Follows n c.advance c'.advance rest ∧ c'.advance.ahead.length < c'.ahead.length := by
  obtain ⟨next, shorter, seen⟩ :=
    follows.take (ahead_of_kind follows.reached (atIdentifier_ne_end at_)) keeps
  change c'.current.kind.isIdentifierLike = true ∧ _
  rcases seen with ⟨-, kind, lexeme⟩ | ⟨-, kind, -⟩
  · refine ⟨by rw [kind]; exact at_, ?_, next, shorter⟩
    unfold nameOf
    rw [kind, lexeme]
  · refine ⟨by rw [kind]; rfl, ?_, next, shorter⟩
    rw [nameOf, kind]
    rfl

/-- A name is read again. -/
lemma identifier_again : E.Reruns n .name (fun _ _ => True) identifier identifier := by
  intro c c' name c₁ rest run follows keeps _ _
  obtain ⟨at_, rfl, rfl⟩ := accepted_identifier run
  obtain ⟨at', same, next, -⟩ := follows.name at_ keeps
  exact ⟨_, _, run_identifier at', next, same⟩

/-- A sequence of keywords is read again. -/
lemma expectKeywords_again (words : List Keyword) :
    E.Reruns n ⟨fun _ => words.map .ofKeyword, fun _ => [], id⟩ (fun _ _ => True)
      (expectKeywords words) (expectKeywords words) := by
  induction words with
  | nil =>
    intro c c' value c₁ rest run follows _ _ _
    obtain ⟨rfl, rfl⟩ := accepted_pure run
    exact .of_pure ⟨follows, rfl⟩
  | cons word words ih =>
    intro c c' value c₁ rest run follows keeps safe _
    obtain ⟨at_, le, run⟩ := accepted_expectKeyword run
    refine follows.expectKeyword at_ (Nat.le_trans keeps le) fun _ follows _ => ?_
    exact ih run follows keeps safe trivial

/-- A keyword that may be missing is read again. -/
lemma eatKeyword_again (word : Keyword) :
    E.Reruns n (.flag [.ofKeyword word]) (E.Quiet [.keyword word]) (eatKeyword word)
      (eatKeyword word) := by
  intro c c' value c₁ rest run follows keeps _ quiet
  rw [← run_bind_pure] at run
  refine Accepts.congr ?_ (run_bind_pure _ _).symm
  rw [run_eatKeyword_bind] at run
  split at run
  · next at_ =>
    obtain ⟨rfl, rfl⟩ := accepted_pure run
    exact follows.eatKeyword at_ keeps fun follows _ => .of_pure ⟨follows, rfl⟩
  · next not =>
    obtain ⟨rfl, rfl⟩ := accepted_pure run
    exact skipKeyword (quiet.not_keyword follows (by simp) not) (.of_pure ⟨follows, rfl⟩)

/-- A keyword that may be left out takes nothing unless it is next. -/
lemma eatKeyword_skips (word : Keyword) :
    Skips E.dialect (.flag [.ofKeyword word]) [.keyword word] (eatKeyword word) := by
  intro c value c₁ run
  rw [← run_bind_pure, run_eatKeyword_bind] at run
  split at run
  · obtain ⟨rfl, rfl⟩ := accepted_pure run
    exact .inr ⟨_, _, rfl, by simp⟩
  · obtain ⟨rfl, rfl⟩ := accepted_pure run
    exact .inl ⟨rfl, rfl⟩

/-! ## Names with a schema, and given names -/

/-- A name that a schema may qualify is read again. -/
lemma qualifiedName_again :
    E.Reruns n .qualified (E.Quiet [.symbol .dot]) qualifiedName qualifiedName := by
  intro c c' value c₁ rest run follows keeps _ quiet
  unfold qualifiedName at run ⊢
  obtain ⟨first, c₂, run₁, le, run⟩ := accepted_bind run
  rw [run_eatSymbol_bind] at run
  split at run
  · next at_ =>
    obtain ⟨second, c₃, run₂, le₂, run⟩ := accepted_bind run
    obtain ⟨rfl, rfl⟩ := accepted_pure run
    refine identifier_again.plain rfl run₁ follows (Nat.le_trans keeps le) safe_nil trivial
      fun c₂' _ follows => ?_
    refine follows.eatSymbol at_ (Nat.le_trans keeps (accepted_length run₂)) fun follows _ => ?_
    refine identifier_again.plain rfl run₂ follows keeps safe_nil trivial fun c₃' _ follows => ?_
    exact .of_pure ⟨follows, rfl⟩
  · next not =>
    obtain ⟨rfl, rfl⟩ := accepted_pure run
    refine identifier_again.plain rfl run₁ follows keeps safe_nil trivial fun c₂' _ follows => ?_
    exact skipSymbol (quiet.not_symbol follows rfl not) (.of_pure ⟨follows, rfl⟩)

/-- A name after `AS` is read again. -/
lemma asName_again : E.Reruns n .aliased (E.Quiet [.keyword .AS]) asName asName :=
  identifier_again.afterKeyword fun _ _ quiet => ⟨trivial, quiet⟩

/-- A name after `AS` takes nothing unless `AS` is next. -/
lemma asName_skips : Skips E.dialect .aliased [.keyword .AS] asName :=
  .afterKeyword .name _ _

/-- An alias takes nothing unless it is written after `AS`. -/
lemma optionalAlias_skips : Skips E.dialect .aliased [.keyword .AS] optionalAlias := by
  intro c value c₁ run
  unfold optionalAlias at run
  rw [run_eatKeyword_bind] at run
  split at run
  · obtain ⟨name, c₂, -, -, run⟩ := accepted_bind run
    obtain ⟨rfl, rfl⟩ := accepted_pure run
    exact .inr ⟨_, _, rfl, by simp⟩
  · rw [if_neg Bool.false_ne_true, run_current_bind] at run
    split at run
    · obtain ⟨-, -, run⟩ := accepted_advance run
      obtain ⟨rfl, rfl⟩ := accepted_pure run
      exact .inr ⟨_, _, rfl, by simp⟩
    · obtain ⟨rfl, rfl⟩ := accepted_pure run
      exact .inl ⟨rfl, rfl⟩

/-- A bare name is written after `AS`.

**Proof sketch.** By what was next. A name after `AS` is read again after it. A bare name is written
after `AS` in a written text, and stands there bare again in a copy. If no alias was read, what
follows is quiet about `AS` and about bare names, so none is read again. -/
lemma optionalAlias_again :
    E.Reruns n .aliased (E.Quiet [.keyword .AS, .name]) optionalAlias optionalAlias := by
  intro c c' value c₁ rest run follows keeps _ quiet
  unfold optionalAlias at run ⊢
  rw [run_eatKeyword_bind] at run
  split at run
  · next at_ =>
    obtain ⟨name, c₂, run₁, le, run⟩ := accepted_bind run
    obtain ⟨rfl, rfl⟩ := accepted_pure run
    refine follows.eatKeyword at_ (Nat.le_trans keeps (accepted_length run₁)) fun follows _ => ?_
    refine identifier_again.plain rfl run₁ follows keeps safe_nil trivial fun c₂' _ follows => ?_
    exact .of_pure ⟨follows, rfl⟩
  · next not =>
    rw [if_neg (by simp), run_current_bind] at run
    split at run
    · next name kind =>
      obtain ⟨-, -, run⟩ := accepted_advance run
      obtain ⟨rfl, rfl⟩ := accepted_pure run
      have some := ahead_of_kind follows.reached (by simp [kind])
      by_cases written : E.mode = .written
      · -- the name is written after `AS`
        obtain ⟨kindAs, -, follows, -⟩ := follows.spelled written
        have follows : E.Follows n c _ (.ofName name :: rest) := follows
        obtain ⟨kindName, -, follows, -⟩ := follows.spelled written
        refine takeKeyword (atKeyword_of_kind kindAs) ?_
        have at' : c'.advance.view.atIdentifier = true := by
          change c'.advance.current.kind.isIdentifierLike = true
          rw [kindName]
          rfl
        have named : nameOf c'.advance.current = name := by rw [nameOf, kindName]; rfl
        refine ⟨.some name, c'.advance.advance, ?_,
          follows.of_written written follows.reached.advance, rfl⟩
        rw [if_pos rfl, run_bind, run_identifier at', named]
        rfl
      · -- the name stands there bare again
        obtain ⟨kind', -, next, -⟩ := follows.copied written rest some keeps
        refine skipKeyword (fun at' => ?_) ?_
        · rw [kind_of_atKeyword at', kind] at kind'
          exact absurd kind' (by simp)
        · refine Accepts.congr ?_ (run_current_bind ..)
          rw [kind', kind]
          exact accepts_advance (by rw [kind', kind]; rfl) (.of_pure ⟨next, rfl⟩)
    · next other =>
      obtain ⟨rfl, rfl⟩ := accepted_pure run
      refine skipKeyword (quiet.not_keyword follows rfl not) ?_
      refine Accepts.congr ?_ (run_current_bind ..)
      have bare := quiet.not_passes .name follows (by simp) (by simp) (by
        unfold Cursor.current at other
        simp only [Starter.passes, Starter.first, Starter.second, Bool.and_true]
        generalize (c.peek 0).kind = kind at other
        cases kind <;> first | rfl | exact absurd rfl (other _))
      simp only [Starter.passes, Starter.first, Starter.second, Bool.and_true] at bare
      split
      · next name kind =>
        unfold Cursor.current at kind
        rw [kind] at bare
        exact absurd bare (by simp [TokenKind.isBare])
      · exact .of_pure ⟨follows, rfl⟩

/-! ## Names in parentheses -/

/-- Names in parentheses are read again. -/
lemma columnNames_again (enough : n ≤ E.again.limit) :
    E.Reruns n Form.name.commas.parens (fun _ _ => True) E.rules.columnNames
      E.again.columnNames :=
  have list : E.Reruns n Form.name.commas (E.Quiet [.symbol .comma]) E.rules.identifiers
      E.again.identifiers :=
    identifier_again.commaSeparated enough (fun _ _ _ => trivial) fun _ _ quiet => ⟨trivial, quiet⟩
  list.parenthesized fun _ _ _ _ => .front rfl

end Rereading

end SqlTree
