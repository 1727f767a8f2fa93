import SqlTree.Proofs.Reread.Sorting

set_option autoImplicit false

/-!
# Reading windows again

## Main results

* `SqlTree.Expr.front_words` — what an expression is written with in front.
* `SqlTree.Rereading.windowDefinition_again` — windows are read again.
-/

namespace SqlTree

open Render

/-- A word in front of a parenthesis, or one that is no keyword that could be a name. -/
def Word.Fronts (words : List Word) : Prop :=
  ∃ word more, words = word :: more ∧
    ∀ found, word.kind = .keyword found → found.canBeIdentifier = true →
      Word.kindAt more 0 = .symbol .leftParen

namespace Word.Fronts

/-- Words that start with a keyword that is no name are told by it. -/
lemma of_keyword {found : Keyword} (more : List Word) (name : found.canBeIdentifier = false) :
    Word.Fronts (.ofKeyword found :: more) :=
  ⟨_, _, rfl, fun other kind names => by simp_all [Word.ofKeyword]⟩

/-- Words that start with a symbol are told by it. -/
lemma of_symbol (which : Symbol) (more : List Word) : Word.Fronts (.ofSymbol which :: more) :=
  ⟨_, _, rfl, fun found kind => absurd kind (by simp)⟩

/-- Words that start with the name of a function are told by it and by the parenthesis after it. -/
lemma of_function (name : String) (more : List Word) :
    Word.Fronts (.ofFunctionName name :: .ofSymbol .leftParen :: more) :=
  ⟨_, _, rfl, fun _ _ _ => rfl⟩

end Word.Fronts

/-- **What an expression is written with in front.** A keyword that could be a name is the name of a
function, or `RAISE`, and a parenthesis follows.

**Proof sketch.** By recursion on the expression. One with an operator after its first operand is
written with that operand in front. All others start with a word of their own: a symbol, a keyword
that is no name, a name or the name of a function. -/
theorem Expr.front_words (drift : Bool) : ∀ (expr : Expr) (rest : List Word),
    Word.Fronts (wordsOf drift expr.pieces ++ rest)
  | .literal value _, rest => by
    refine ⟨.ofLiteral value, rest, by simp [Expr.pieces], fun found kind names => ?_⟩
    cases value with
    | boolean value => cases value <;> cases kind <;> exact absurd names (by decide)
    | integer | float | string | blob => exact absurd kind (by simp [Literal.kind])
    | _ => cases kind; exact absurd names (by decide)
  | .reference schema table column _, rest => by
    cases schema <;> cases table <;>
      exact ⟨.ofName _, _, rfl, fun found kind => absurd kind (by simp)⟩
  | .variable which _, rest => ⟨.ofVariable which, rest, rfl, fun found kind => by simp at kind⟩
  | .placeholder name _, rest =>
    ⟨.ofVariable (.named .dollar name), rest, rfl, fun found kind => by simp at kind⟩
  | .unary op operand _, rest => by
    cases op with
    | neg =>
      simp only [Expr.pieces, UnaryOp.pieces]
      split <;> exact .of_symbol _ _
    | plus | bitNot => exact .of_symbol _ _
    | not => exact .of_keyword _ rfl
  | .binary left op right _, rest => by
    simp only [Expr.pieces, wordsOf_append, List.append_assoc]
    exact Expr.front_words drift left _
  | .collate operand _ _, rest => by
    simp only [Expr.pieces, wordsOf_append, List.append_assoc]
    exact Expr.front_words drift operand _
  | .isNull operand _ _, rest => by
    simp only [Expr.pieces, wordsOf_append, List.append_assoc]
    exact Expr.front_words drift operand _
  | .like operand _ _ escape _ _, rest => by
    cases escape <;> simp only [Expr.pieces, wordsOf_append, List.append_assoc] <;>
      exact Expr.front_words drift operand _
  | .isIn operand _ _ _, rest => by
    simp only [Expr.pieces, wordsOf_append, List.append_assoc]
    exact Expr.front_words drift operand _
  | .between operand _ _ _ _, rest => by
    simp only [Expr.pieces, wordsOf_append, List.append_assoc]
    exact Expr.front_words drift operand _
  | .cases operand branches otherwise _, rest => by
    cases operand <;> cases otherwise <;> exact .of_keyword _ rfl
  | .cast _ _ _, rest => .of_keyword _ rfl
  | .existsRow _ negated _, rest => by cases negated <;> exact .of_keyword _ rfl
  | .subquery _ _, rest | .tuple _ _, rest | .parentheses _ _, rest => .of_symbol _ _
  | .call name _ _, rest => .of_function name _
  | .aggregate name _ order filter _, rest => by
    cases order <;> cases filter <;> exact .of_function name _
  | .windowCall name _ filter _ _, rest => by cases filter <;> exact .of_function name _
  | .raise action message _, rest => by
    cases message <;> exact ⟨.ofKeyword .RAISE, _, rfl, fun _ _ _ => rfl⟩

/-- Parts with blanks between them have the words of each. -/
lemma Render.wordsOf_separated_blank (drift : Bool) (parts : List (List Piece)) :
    wordsOf drift (separated [.blank] parts) = parts.flatMap (wordsOf drift) := by
  cases parts with
  | nil => rfl
  | cons first others =>
    induction others generalizing first with
    | nil => simp [separated]
    | cons second others ih =>
      rw [separated, wordsOf_append, wordsOf_append, ih second]
      · simp
      · simp

namespace Rereading

open SqlTree.Parser SqlTree.Grammar

variable {E : Rereading} {n : Nat} {c c' c₁ c₁' : Cursor} {rest : List Word}

/-! ## Ends of frames -/

/-- No expression is written with two keywords in front of which the first could be a name. -/
lemma Quiet.expr_keywords {starters : List Starter} (expr : Expr)
    (names : starters.all (fun
      | .keywords first _ => first.canBeIdentifier
      | _ => false) = true) :
    E.Quiet starters c ((Form.expr E.drift).words expr ++ rest) := by
  refine .of_written fun _ starter mem => ?_
  have name := List.all_eq_true.mp names starter mem
  obtain ⟨word, more, eq, fronts⟩ := Expr.front_words E.drift expr rest
  change (Form.expr E.drift).words expr ++ rest = word :: more at eq
  rw [eq]
  cases starter with
  | keywords first second =>
    intro passes
    simp only [Starter.passes, Starter.first, Starter.second, Bool.and_eq_true,
      Word.kindAt_cons_zero, Word.kindAt_cons_succ, TokenKind.isKeyword_iff] at passes
    rw [fronts first passes.1 name] at passes
    exact absurd passes.2 (by simp)
  | _ => exact absurd name Bool.false_ne_true

/-- Two keywords that are not next in the first source are not next in the second. -/
lemma Quiet.not_keywords {first second : Keyword} {starters : List Starter}
    (quiet : E.Quiet starters c rest) (follows : E.Follows n c c' rest)
    (mem : starters.contains (.keywords first second) = true)
    (not : ¬ c.view.atKeywords first second = true) :
    ¬ c'.view.atKeywords first second = true := by
  intro at'
  apply not
  obtain ⟨one', two'⟩ := kinds_of_atKeywords at'
  have := quiet.not_passes (.keywords first second) follows (by simpa using mem)
    (by simp)
  simp only [Starter.passes, Starter.first, Starter.second, one', two',
    TokenKind.isKeyword_keyword, BEq.rfl, Bool.and_self, Bool.true_eq_false, imp_false,
    Bool.not_eq_false, Bool.and_eq_true, TokenKind.isKeyword_iff] at this
  exact atKeywords_of_kinds this.1 this.2

/-- An end of a frame is read again.

**Proof sketch.** An end that is two keywords is told by them: they are next again, and since two
keywords are at most one pair, the pairs that are tried before fail again (`other`). An end with an
offset was read since none of the pairs was next, and no expression starts with one, so none is next
again (`quiet`). Then the offset is read again, and the keyword after it. -/
lemma frameBound_again (known : E.Known n) :
    E.Reruns n (.frameBound E.drift) (fun _ _ => True) (frameBound E.rules)
      (frameBound E.again) := by
  intro c c' value c₁ rest run follows keeps safe _
  unfold frameBound at run ⊢
  rw [run_view_bind] at run
  refine Accepts.congr ?_ (run_view_bind ..)
  have other : ∀ {a b x y : Keyword}, c'.view.atKeywords a b = true → (a, b) ≠ (x, y) →
      ¬ c'.view.atKeywords x y = true := by
    intro a b x y at₁ differ at₂
    obtain ⟨one, two⟩ := kinds_of_atKeywords at₁
    obtain ⟨one', two'⟩ := kinds_of_atKeywords at₂
    rw [one] at one'
    rw [two] at two'
    exact differ (by cases one'; cases two'; rfl)
  split at run
  · next at_ =>
    obtain ⟨-, -, run⟩ := accepted_advance run
    obtain ⟨-, -, run⟩ := accepted_advance run
    obtain ⟨rfl, rfl⟩ := accepted_pure run
    rw [if_pos (follows.keywords at_ keeps).1]
    exact follows.advanceKeywords at_ keeps fun follows _ => .of_pure ⟨follows, rfl⟩
  · next notFirst =>
    split at run
    · next at_ =>
      obtain ⟨-, -, run⟩ := accepted_advance run
      obtain ⟨-, -, run⟩ := accepted_advance run
      obtain ⟨rfl, rfl⟩ := accepted_pure run
      have at' := (follows.keywords at_ keeps).1
      rw [if_neg (other at' (by decide)), if_pos at']
      exact follows.advanceKeywords at_ keeps fun follows _ => .of_pure ⟨follows, rfl⟩
    · next notSecond =>
      split at run
      · next at_ =>
        obtain ⟨-, -, run⟩ := accepted_advance run
        obtain ⟨-, -, run⟩ := accepted_advance run
        obtain ⟨rfl, rfl⟩ := accepted_pure run
        have at' := (follows.keywords at_ keeps).1
        rw [if_neg (other at' (by decide)), if_neg (other at' (by decide)), if_pos at']
        exact follows.advanceKeywords at_ keeps fun follows _ => .of_pure ⟨follows, rfl⟩
      · next notThird =>
        obtain ⟨offset, c₂, run₁, le₁, run⟩ := accepted_bind run
        rw [run_eatKeyword_bind] at run
        have quiet : E.Quiet [.keywords .UNBOUNDED .PRECEDING, .keywords .UNBOUNDED .FOLLOWING,
            .keywords .CURRENT .ROW] c ((Form.expr E.drift).words offset ++
              .ofKeyword (if c₂.view.atKeyword .PRECEDING then .PRECEDING else .FOLLOWING) ::
                rest) :=
          .expr_keywords offset rfl
        split at run
        · next at_ =>
          obtain ⟨rfl, rfl⟩ := accepted_pure run
          simp only [Form.frameBound, Form.ofPieces_words, FrameBound.pieces,
            Render.wordsOf_append, Render.wordsOf_blank, Render.wordsOf_keyword,
            Render.wordsOf_nil, List.append_assoc, List.cons_append, List.nil_append] at follows
          rw [if_pos at_] at quiet
          rw [if_neg (quiet.not_keywords follows rfl notFirst),
            if_neg (quiet.not_keywords follows rfl notSecond),
            if_neg (quiet.not_keywords follows rfl notThird)]
          refine known.expr.step run₁ follows (Nat.le_trans keeps le₁) safe (.front rfl)
            fun offset' c₂' _ same follows => ?_
          exact follows.eatKeyword at_ keeps fun follows _ =>
            .of_pure ⟨follows, congrArg FrameBound.preceding same⟩
        · next notPreceding =>
          rw [if_neg Bool.false_ne_true, run_eatKeyword_bind] at run
          split at run
          · next at_ =>
            obtain ⟨rfl, rfl⟩ := accepted_pure run
            simp only [Form.frameBound, Form.ofPieces_words, FrameBound.pieces,
              Render.wordsOf_append, Render.wordsOf_blank, Render.wordsOf_keyword,
              Render.wordsOf_nil, List.append_assoc, List.cons_append, List.nil_append] at follows
            rw [if_neg notPreceding] at quiet
            rw [if_neg (quiet.not_keywords follows rfl notFirst),
              if_neg (quiet.not_keywords follows rfl notSecond),
              if_neg (quiet.not_keywords follows rfl notThird)]
            refine known.expr.step run₁ follows (Nat.le_trans keeps le₁) safe (.front rfl)
              fun offset' c₂' _ same follows => ?_
            refine skipKeyword (follows.notKeyword at_ keeps (by decide)) ?_
            exact follows.eatKeyword at_ keeps fun follows _ =>
              .of_pure ⟨follows, congrArg FrameBound.following same⟩
          · exact absurd run not_accepted_unexpected

/-! ## Frames -/

variable (E) in
/-- A closing parenthesis is next, in both sources. -/
structure Closes (cursor : Cursor) (rest : List Word) : Prop where
  at_ : cursor.view.atSymbol .rightParen = true
  keeps : E.mode.left ≤ cursor.advance.ahead.length
  word : ∃ more, rest = .ofSymbol .rightParen :: more

/-- A part that a parenthesis closes is quiet about everything but the parenthesis. -/
lemma Closes.quiet {starters : List Starter} (closes : E.Closes c rest)
    (inert : starters.all (fun starter => !starter.first (.symbol .rightParen)) = true) :
    E.Quiet starters c rest := by
  obtain ⟨more, rfl⟩ := closes.word
  exact .front inert

/-- No operator follows a part that a parenthesis closes. -/
lemma Closes.done (closes : E.Closes c rest) : Done c :=
  done_of_symbol closes.at_ rfl

/-- A parenthesis that closes a part does so again. -/
lemma Closes.at_again (closes : E.Closes c rest) (follows : E.Follows n c c' rest) :
    c'.view.atSymbol .rightParen = true := by
  obtain ⟨more, rfl⟩ := closes.word
  exact (follows.symbol closes.at_ closes.keeps).1

/-- No keyword follows a part that a parenthesis closes. -/
lemma Closes.not_keyword (closes : E.Closes c rest) (follows : E.Follows n c c' rest)
    (word : Keyword) : ¬ c'.view.atKeyword word = true := by
  intro at'
  have kind := (kind_of_atKeyword at').symm.trans (kind_of_atSymbol (closes.at_again follows))
  exact absurd kind (by simp)

end Rereading

/-- Which rows a frame leaves out. Leaving out no others is not written. -/
def Form.exclusion : Form Exclusion :=
  ⟨fun exclude => if exclude = .noOthers then [] else exclude.keywords.map .ofKeyword,
    fun _ => [], id⟩

/-- Both ends of a frame. -/
def Form.frameBounds (drift : Bool) : Form (FrameBound × FrameBound) :=
  ofPieces drift
    (fun (start, stop) =>
      .keyword .BETWEEN :: .blank :: start.pieces ++ .blank :: .keyword .AND :: .blank ::
        stop.pieces)
    (fun (start, stop) =>
      Node.maybe Node.expr start.offset? ++ Node.maybe Node.expr stop.offset?)
    (fun (start, stop) => (start.unplaced, stop.unplaced))

/-- What the rows are divided by, after a keyword. -/
def Form.groups (drift : Bool) : Form (List Expr) :=
  (Form.expr drift).commas.after [.ofKeyword .BY]

namespace Rereading

open SqlTree.Parser SqlTree.Grammar

variable {E : Rereading} {n : Nat} {c c' c₁ c₁' : Cursor} {rest : List Word}

/-- Which rows a frame leaves out is read again. That no others are left out may have been stated,
and is not written then.

**Proof sketch.** By the keywords that were next. In a written text `EXCLUDE NO OTHERS` is left out,
so the frame ends at the parenthesis and the same is read. In every other case the keywords are next
again: those that are tried before fail since another keyword is next, and the one that was taken is
taken again. -/
lemma exclusion_again :
    E.Reruns n .exclusion E.Closes exclusion exclusion := by
  intro c c' value c₁ rest run follows keeps _ closes
  unfold exclusion at run ⊢
  rw [run_eatKeyword_bind] at run
  split at run
  · next at_ =>
    rw [if_pos rfl, run_eatKeyword_bind] at run
    split at run
    · next at₁ =>
      obtain ⟨at₂, le, last⟩ := accepted_expectKeyword run
      obtain ⟨rfl, rfl⟩ := accepted_pure last
      by_cases written : E.mode = .written
      · have follows := follows.of_written written (accepted_reachable run
          follows.reached.advance.advance)
        exact skipKeyword (closes.not_keyword follows _) (.of_pure ⟨follows, rfl⟩)
      · have follows := follows.of_copy written (.ofKeyword .EXCLUDE :: .ofKeyword .NO ::
          .ofKeyword .OTHERS :: rest)
        have keeps₂ := Nat.le_trans keeps c.advance.advance.length_advance
        refine follows.eatKeyword at_ (Nat.le_trans keeps₂ c.advance.length_advance)
          fun follows _ => ?_
        refine follows.eatKeyword at₁ keeps₂ fun follows _ => ?_
        exact follows.expectKeyword at₂ keeps fun _ follows _ => .of_pure ⟨follows, rfl⟩
    · next notNo =>
      rw [if_neg Bool.false_ne_true, run_eatKeyword_bind] at run
      split at run
      · next at₁ =>
        rw [if_pos rfl] at run
        obtain ⟨at₂, le, last⟩ := accepted_expectKeyword run
        obtain ⟨rfl, rfl⟩ := accepted_pure last
        have le₁ := accepted_length run
        refine follows.eatKeyword at_ (Nat.le_trans keeps (Nat.le_trans le₁ (by simp)))
          fun follows _ => ?_
        refine skipKeyword (follows.notKeyword at₁ (Nat.le_trans keeps le₁) (by decide)) ?_
        refine follows.eatKeyword at₁ (Nat.le_trans keeps le₁) fun follows _ => ?_
        exact follows.expectKeyword at₂ keeps fun _ follows _ => .of_pure ⟨follows, rfl⟩
      · next notCurrent =>
        rw [if_neg Bool.false_ne_true, run_eatKeyword_bind] at run
        split at run
        · next at₁ =>
          obtain ⟨rfl, rfl⟩ := accepted_pure run
          refine follows.eatKeyword at_ (Nat.le_trans keeps (by simp)) fun follows _ => ?_
          refine skipKeyword (follows.notKeyword at₁ keeps (by decide)) ?_
          refine skipKeyword (follows.notKeyword at₁ keeps (by decide)) ?_
          exact follows.eatKeyword at₁ keeps fun follows _ => .of_pure ⟨follows, rfl⟩
        · next notGroup =>
          rw [if_neg Bool.false_ne_true, run_eatKeyword_bind] at run
          split at run
          · next at₁ =>
            obtain ⟨rfl, rfl⟩ := accepted_pure run
            refine follows.eatKeyword at_ (Nat.le_trans keeps (by simp)) fun follows _ => ?_
            refine skipKeyword (follows.notKeyword at₁ keeps (by decide)) ?_
            refine skipKeyword (follows.notKeyword at₁ keeps (by decide)) ?_
            refine skipKeyword (follows.notKeyword at₁ keeps (by decide)) ?_
            exact follows.eatKeyword at₁ keeps fun follows _ => .of_pure ⟨follows, rfl⟩
          · exact absurd run not_accepted_unexpected
  · next not =>
    obtain ⟨rfl, rfl⟩ := accepted_pure run
    exact skipKeyword (closes.not_keyword follows _) (.of_pure ⟨follows, rfl⟩)

/-- Both ends of a frame, after its unit. -/
def frameBounds (rules : Rules) : Parser (FrameBound × FrameBound) := do
  if ← eatKeyword .BETWEEN then frameBetween rules else frameFrom rules

/-- Whether a frame may end at a bound does not depend on where its bounds stand. -/
lemma frameEndError?_unplaced {start start' : FrameBound} (stop stop' : FrameBound)
    (same : start'.unplaced = start.unplaced) (same' : stop'.unplaced = stop.unplaced) :
    frameEndError? start' stop' = frameEndError? start stop := by
  cases start <;> cases start' <;> simp only [FrameBound.unplaced, reduceCtorEq] at same <;>
    cases stop <;> cases stop' <;> simp_all [FrameBound.unplaced, frameEndError?]

/-- A bound that is not the last row of all is not, wherever it stands. -/
lemma unplaced_ne {start start' : FrameBound} (same : start'.unplaced = start.unplaced)
    (ne : start ≠ .unboundedFollowing) : start' ≠ .unboundedFollowing := by
  rintro rfl
  cases start <;> simp_all [FrameBound.unplaced]

section

variable {rules : Rules} {dialect : Dialect} {start stop : FrameBound} {c₂ : Cursor}

/-- What the two bounds of a frame were read from. -/
lemma accepted_frameBetween {value : FrameBound × FrameBound}
    (run : (frameBetween rules).run dialect c = .accepted value c₁) :
    ∃ c₂, (frameBound rules).run dialect c = .accepted value.1 c₂ ∧
      c₂.view.atKeyword .AND = true ∧ c₁.ahead.length ≤ c₂.advance.ahead.length ∧
      (frameBound rules).run dialect c₂.advance = .accepted value.2 c₁ ∧
      value.1 ≠ .unboundedFollowing ∧ frameEndError? value.1 value.2 = none := by
  unfold frameBetween at run
  rw [run_here_bind] at run
  obtain ⟨start, c₂, run₁, -, run⟩ := accepted_bind run
  split at run
  · rw [run_spanFrom_bind] at run
    exact absurd run not_accepted_invalid
  · next ne =>
    obtain ⟨at_, le, run⟩ := accepted_expectKeyword run
    rw [run_here_bind] at run
    obtain ⟨stop, c₃, run₂, -, run⟩ := accepted_bind run
    split at run
    · rw [run_spanFrom_bind] at run
      exact absurd run not_accepted_invalid
    · next fits =>
      obtain ⟨rfl, rfl⟩ := accepted_pure run
      exact ⟨c₂, run₁, at_, le, run₂, fun eq => ne eq, fits⟩

/-- Two bounds that a frame may have are read with `AND` between them. -/
lemma run_frameBetween (run₁ : (frameBound rules).run dialect c = .accepted start c₂)
    (at_ : c₂.view.atKeyword .AND = true)
    (run₂ : (frameBound rules).run dialect c₂.advance = .accepted stop c₁)
    (ne : start ≠ .unboundedFollowing) (fits : frameEndError? start stop = none) :
    (frameBetween rules).run dialect c = .accepted (start, stop) c₁ := by
  unfold frameBetween
  rw [run_here_bind, run_bind, run₁]
  dsimp only
  split
  · exact absurd rfl ne
  · rw [run_expectKeyword_bind at_, run_here_bind, run_bind, run₂]
    dsimp only
    rw [fits]
    rfl

/-- A frame with one stated end starts such that it can end with the current row. -/
lemma accepted_frameFrom {value : FrameBound × FrameBound}
    (run : (frameFrom rules).run dialect c = .accepted value c₁) :
    ∃ start, value = (start, .currentRow) ∧
      (frameBound rules).run dialect c = .accepted start c₁ ∧
      start ≠ .unboundedFollowing ∧ frameEndError? start .currentRow = none := by
  unfold frameFrom at run
  rw [run_here_bind] at run
  obtain ⟨start, c₂, run₁, -, run⟩ := accepted_bind run
  split at run
  · rw [run_spanFrom_bind] at run
    exact absurd run not_accepted_invalid
  · rw [run_spanFrom_bind] at run
    exact absurd run not_accepted_invalid
  · next notFollowing notUnbounded =>
    obtain ⟨rfl, rfl⟩ := accepted_pure run
    refine ⟨start, rfl, run₁, fun eq => notUnbounded eq, ?_⟩
    cases start <;> first | rfl | exact absurd rfl (notFollowing _)

/-- A bound that a frame may start with is read alone. -/
lemma run_frameFrom (run : (frameBound rules).run dialect c = .accepted start c₁)
    (ne : start ≠ .unboundedFollowing) (fits : frameEndError? start .currentRow = none) :
    (frameFrom rules).run dialect c = .accepted (start, .currentRow) c₁ := by
  unfold frameFrom
  rw [run_here_bind, run_bind, run]
  cases start <;> first | rfl | exact absurd rfl ne | exact absurd fits (by simp [frameEndError?])

end

/-- Both ends of a frame are read again. If only one was stated, then both are written.

**Proof sketch.** A frame with one stated end starts neither at an offset after the current row nor
at the last row, and it ends with the current row; so what is written passes the tests of frames
with both ends. -/
lemma frameBounds_again (known : E.Known n) :
    E.Reruns n (.frameBounds E.drift) (fun _ _ => True) (frameBounds E.rules)
      (frameBounds E.again) := by
  intro c c' value c₁ rest run follows keeps safe _
  unfold frameBounds at run ⊢
  rw [run_eatKeyword_bind] at run
  replace safe := safe_append.mp safe
  split at run
  · next at_ =>
    rw [if_pos rfl] at run
    obtain ⟨start, stop⟩ := value
    obtain ⟨c₂, run₁, at₂, le, run₂, ne, fits⟩ := accepted_frameBetween run
    have le₁ := accepted_length run
    simp only [Form.frameBounds, Form.ofPieces_words, Render.wordsOf_append,
      Render.wordsOf_blank, Render.wordsOf_keyword, List.append_assoc, List.cons_append] at follows
    refine follows.eatKeyword at_ (Nat.le_trans keeps le₁) fun follows _ => ?_
    rw [if_pos rfl]
    obtain ⟨start', c₂', run₁', follows, same⟩ := frameBound_again known run₁ follows
      (Nat.le_trans keeps (Nat.le_trans le (by simp))) safe.1 trivial
    obtain ⟨at₂', follows, -⟩ := follows.keyword at₂ (Nat.le_trans keeps le)
    obtain ⟨stop', c₃', run₂', follows, same'⟩ := frameBound_again known run₂ follows
      keeps safe.2 trivial
    refine ⟨_, c₃', run_frameBetween run₁' at₂' run₂' (unplaced_ne same ne)
      ((frameEndError?_unplaced _ _ same same').trans fits), follows, Prod.ext same same'⟩
  · next notBetween =>
    obtain ⟨start, rfl, run₁, ne, fits⟩ := accepted_frameFrom run
    by_cases written : E.mode = .written
    · -- both ends are written
      simp only [Form.frameBounds, Form.ofPieces_words, Render.wordsOf_append,
        Render.wordsOf_blank, Render.wordsOf_keyword, FrameBound.pieces, wordsOf_words,
        List.append_assoc, List.cons_append] at follows
      obtain ⟨kind, -, follows, -⟩ := follows.spelled written
      refine takeKeyword (atKeyword_of_kind kind) ?_
      rw [if_pos rfl]
      obtain ⟨start', c₂', run₁', follows, same⟩ := frameBound_again known run₁ follows
        keeps safe.1 trivial
      obtain ⟨kind₂, -, follows, -⟩ := follows.spelled written
      obtain ⟨kind₃, -, next, -⟩ := follows.spelled written
      have next : E.Follows n c₁ _ (.ofKeyword .ROW :: rest) := next
      obtain ⟨kind₄, -, last, -⟩ := next.spelled written
      have run₂' : (frameBound E.again).run E.dialect c₂'.advance =
          .accepted .currentRow c₂'.advance.advance.advance := by
        have second : (c₂'.advance.peek 1).kind = .keyword .ROW := by
          rw [← Cursor.peek_advance]
          exact kind₄
        unfold frameBound
        rw [run_view_bind, if_neg, if_neg, if_pos (atKeywords_of_kinds kind₃ second),
          run_advance_bind (by rw [kind₃]; rfl), run_advance_bind (by rw [kind₄]; rfl)]
        · rfl
        all_goals
          intro at'
          have := (kinds_of_atKeywords at').1.symm.trans kind₃
          exact absurd this (by simp)
      exact ⟨_, _, run_frameBetween run₁' (atKeyword_of_kind kind₂) run₂' (unplaced_ne same ne)
        ((frameEndError?_unplaced .currentRow .currentRow same rfl).trans fits), last,
        Prod.ext same rfl⟩
    · -- only the stated end is in the copy
      have follows := follows.of_copy written ((Form.frameBound E.drift).words start ++ rest)
      obtain ⟨start', c₁', run₁', follows', same⟩ := frameBound_again known run₁ follows
        keeps safe.1 trivial
      have quiet : E.Quiet [.keyword .BETWEEN] c ((Form.frameBound E.drift).words start ++ rest) :=
        .of_written fun is_written => absurd is_written written
      refine skipKeyword (quiet.not_keyword follows rfl notBetween) ?_
      exact ⟨_, c₁', run_frameFrom run₁' (unplaced_ne same ne)
        ((frameEndError?_unplaced .currentRow .currentRow same rfl).trans fits), follows',
        Prod.ext same rfl⟩

/-- The pieces of which rows a frame leaves out have the words of its form. -/
lemma wordsOf_exclusion (drift : Bool) (exclude : Exclusion) :
    Render.wordsOf drift
      (Render.suffix (if exclude = .noOthers then none else some exclude.keywords)) =
        Form.exclusion.words exclude := by
  cases exclude <;> rfl

/-- The unit of a frame is told by its keyword. -/
lemma frameUnit?_keyword {kind : TokenKind} {unit : FrameUnit}
    (found : frameUnit? kind = some unit) : kind = .keyword unit.keyword := by
  unfold frameUnit? at found
  split at found <;> simp_all [FrameUnit.keyword] <;> subst found <;> rfl

/-- The keyword of a unit is looked up as the unit. -/
lemma frameUnit?_of_keyword (unit : FrameUnit) :
    frameUnit? (.keyword unit.keyword) = some unit := by
  cases unit <;> rfl

/-- A frame after its unit. -/
def frameAfter (rules : Rules) (unit : FrameUnit) (start : Span) : Parser (Option Frame) := do
  let bounds ← frameBounds rules
  let exclude ← exclusion
  return some ⟨unit, bounds.1, bounds.2, exclude, ← spanFrom start⟩

/-- Where a unit is next, a frame is read. -/
lemma run_optionalFrame_some {rules : Rules} {dialect : Dialect} {unit : FrameUnit}
    (found : frameUnit? c.current.kind = some unit) :
    (optionalFrame rules).run dialect c =
      (frameAfter rules unit c.current.span).run dialect c.advance := by
  have sound : c.current.kind.isMalformed = false := by rw [frameUnit?_keyword found]; rfl
  unfold optionalFrame frameAfter frameBounds
  rw [run_current_bind, found]
  dsimp only
  rw [run_advance_bind sound, run_eatKeyword_bind, run_bind, run_eatKeyword_bind]
  split
  · rw [if_pos rfl, if_pos rfl, run_bind]
  · rw [if_neg Bool.false_ne_true, if_neg Bool.false_ne_true, run_bind]

/-- Where no unit is next, no frame is read, and nothing is taken. -/
lemma run_optionalFrame_none {rules : Rules} {dialect : Dialect}
    (missing : frameUnit? c.current.kind = none) :
    (optionalFrame rules).run dialect c = .accepted none c := by
  unfold optionalFrame
  rw [run_current_bind, missing]
  rfl

/-- The frame of a window is read again.

**Proof sketch.** If a unit was next, its keyword is next again, and the bounds and the rows that
are left out are read again. If none was next, the window is closed by a parenthesis, and no keyword
is next again. -/
lemma optionalFrame_again (known : E.Known n) :
    E.Reruns n (Form.frame E.drift).maybe E.Closes (optionalFrame E.rules)
      (optionalFrame E.again) := by
  intro c c' value c₁ rest run follows keeps safe closes
  cases found : frameUnit? c.current.kind with
  | some unit =>
    rw [run_optionalFrame_some found] at run
    have kind := frameUnit?_keyword found
    have le := accepted_length run
    obtain ⟨bounds, c₂, run₁, le₁, run⟩ := accepted_bind run
    obtain ⟨exclude, c₃, run₂, le₂, run⟩ := accepted_bind run
    obtain ⟨rfl, rfl⟩ := accepted_return run
    have follows : E.Follows n c c' (.ofKeyword unit.keyword ::
        ((Form.frameBounds E.drift).words bounds ++
          (Form.exclusion.words exclude ++ rest))) := by
      simpa [Form.maybe, Form.frame, Form.frameBounds, Frame.pieces, wordsOf_exclusion]
        using follows
    obtain ⟨kind', follows, -⟩ := follows.same kind (by simp [kind]) (Nat.le_trans keeps le)
    have found' : frameUnit? c'.current.kind = some unit := by
      rw [kind']
      exact frameUnit?_of_keyword unit
    refine Accepts.congr ?_ (run_optionalFrame_some found')
    unfold frameAfter
    refine (frameBounds_again known).step run₁ follows (Nat.le_trans keeps le₁)
      (safe_singleton.mp safe).2 trivial fun bounds' c₂' _ same follows => ?_
    refine exclusion_again.plain rfl run₂ follows keeps safe_nil closes fun c₃' _ follows => ?_
    have same : (bounds'.1.unplaced, bounds'.2.unplaced) =
      (bounds.1.unplaced, bounds.2.unplaced) := same
    rw [Prod.mk.injEq] at same
    exact .of_return ⟨follows, by simp [Form.maybe, Form.frame, Frame.unplaced, same]⟩
  | none =>
    rw [run_optionalFrame_none found] at run
    cases run
    have none' : frameUnit? c'.current.kind = none := by
      cases found' : frameUnit? c'.current.kind with
      | none => rfl
      | some unit =>
        have at' := atKeyword_of_kind (frameUnit?_keyword found')
        exact absurd at' (closes.not_keyword follows _)
    exact ⟨none, c', run_optionalFrame_none none', follows, rfl⟩

/-! ## Optional sorting clauses -/

/-- The words of `ORDER BY` start with its keyword. -/
lemma orderBy_front (order : OrderBy) :
    ∃ ws, (Form.orderBy E.drift).words order = .ofKeyword .ORDER :: ws := by
  obtain ⟨items, span⟩ := order
  exact ⟨_, by simp [Form.orderBy, OrderBy.pieces, Render.words, Render.separated]; rfl⟩

/-- `ORDER BY` takes its keyword. -/
lemma orderBy_takes {rules : Rules} {value : OrderBy}
    (run : (orderBy rules).run E.dialect c = .accepted value c₁) :
    c₁.ahead.length ≤ c.advance.ahead.length := by
  unfold orderBy at run
  exact (accepted_expectKeyword run).2.1

/-- A sorting clause that may be missing is read again. -/
lemma optionalOrderBy_again (known : E.Known n) :
    E.Reruns n (Form.orderBy E.drift).maybe (E.Ends (.keyword .ORDER :: orderEnd))
      (optionalOrderBy E.rules) (optionalOrderBy E.again) :=
  .whenKeyword (fun _ _ _ _ _ _ run => orderBy_again known run) orderBy_front orderBy_takes
    fun _ _ ends => ⟨⟨ends.1.mono rfl, ends.2⟩, ends.1.mono rfl⟩

/-- `ORDER BY` that may be left out takes nothing unless its keyword is next. -/
lemma optionalOrderBy_skips {rules : Rules} :
    Skips E.dialect (Form.orderBy E.drift).maybe [.keyword .ORDER] (optionalOrderBy rules) :=
  .whenever fun order => by
    obtain ⟨ws, eq⟩ := orderBy_front (E := E) order
    exact ⟨_, ws, eq, by simp⟩

/-! ## Definitions of windows -/

/-- A frame that may be left out takes nothing unless one of the units is next. -/
lemma optionalFrame_skips {rules : Rules} :
    Skips E.dialect (Form.frame E.drift).maybe
      [.keyword .ROWS, .keyword .RANGE, .keyword .GROUPS] (optionalFrame rules) := by
  intro c value c₁ run
  cases found : frameUnit? c.current.kind with
  | none =>
    rw [run_optionalFrame_none found] at run
    cases run
    exact .inl ⟨rfl, rfl⟩
  | some unit =>
    rw [run_optionalFrame_some found] at run
    obtain ⟨bounds, c₂, -, -, run⟩ := accepted_bind run
    obtain ⟨exclude, c₃, -, -, run⟩ := accepted_bind run
    obtain ⟨rfl, rfl⟩ := accepted_return run
    refine .inr ⟨.ofKeyword unit.keyword, _, rfl, ?_⟩
    cases unit <;> simp [FrameUnit.keyword]

/-- Where a frame may start, nothing goes on with an expression. -/
lemma optionalFrame_done {rules : Rules} {value : Option Frame}
    (run : (optionalFrame rules).run E.dialect c = .accepted value c₁) (done : Done c₁) :
    Done c := by
  cases found : frameUnit? c.current.kind with
  | none =>
    rw [run_optionalFrame_none found] at run
    cases run
    exact done
  | some unit =>
    unfold Done
    rw [frameUnit?_keyword found]
    cases unit <;> rfl

/-- The name of a base window is next if the next token is such a name. -/
lemma atBaseWindow_eq (cursor : Cursor) :
    atBaseWindow cursor.view = Starter.base.first cursor.current.kind := by
  change (_ && !([Keyword.PARTITION, .ORDER, .ROWS, .RANGE, .GROUPS].any fun word =>
    cursor.current.isKeyword word)) = _
  simp only [Token.isKeyword_eq]
  rfl

/-- The name of another window is read again. -/
lemma baseWindow_again :
    E.Reruns n Form.name.maybe (E.Quiet [.base]) (whenever atBaseWindow identifier)
      (whenever atBaseWindow identifier) := by
  intro c c' value c₁ rest run follows keeps safe quiet
  refine identifier_again.whenever ?_ run follows keeps safe
    (fun _ => trivial) ?_
  · intro c c' name c₁ rest test run follows keeps _
    obtain ⟨at_, rfl, rfl⟩ := accepted_identifier run
    obtain ⟨-, -, seen⟩ := follows.take
      (ahead_of_kind follows.reached (atIdentifier_ne_end at_)) keeps
    rw [atBaseWindow_eq] at test ⊢
    rcases seen with ⟨-, kind, -⟩ | ⟨-, kind, -⟩
    · rw [kind]
      exact test
    · rw [kind]
      rfl
  · rintro rfl not
    have eq : c = c₁ := by
      unfold whenever at run
      rw [run_sees_bind, if_neg not] at run
      exact (accepted_pure run).2
    subst eq
    rw [atBaseWindow_eq, Bool.not_eq_true] at not ⊢
    have := quiet.not_passes .base follows (by simp) (by simp)
      (by simpa [Starter.passes, Starter.second, Cursor.current] using not)
    simpa [Starter.passes, Starter.second, Cursor.current] using this

/-- What the rows are divided by is read again. -/
lemma groups_again (known : E.Known n) (word : Keyword) :
    E.Reruns n ((Form.groups E.drift).after [.ofKeyword word]).maybe
      (E.Quiet (.keyword word :: .symbol .comma :: exprEnd))
      (afterKeyword word do let _ ← expectKeyword .BY; E.rules.exprs)
      (afterKeyword word do let _ ← expectKeyword .BY; E.again.exprs) := by
  have groups : E.Reruns n (.groups E.drift) (E.Quiet (.symbol .comma :: exprEnd))
      (do let _ ← expectKeyword .BY; E.rules.exprs)
      (do let _ ← expectKeyword .BY; E.again.exprs) := by
    intro c c' value c₁ rest run follows keeps safe quiet
    obtain ⟨at_, le, run⟩ := accepted_expectKeyword run
    refine follows.expectKeyword at_ (Nat.le_trans keeps le) fun _ follows _ => ?_
    exact known.exprs run follows keeps safe quiet
  refine groups.afterKeyword fun _ _ quiet => ⟨fun starter mem => quiet starter ?_,
    fun starter mem => quiet starter ?_⟩
  · exact List.mem_cons_of_mem _ mem
  · rw [List.mem_singleton.mp mem]
    exact List.mem_cons_self

/-- What comes after `BY` is a list with an expression in it. -/
lemma groups_yields {rules : Rules} :
    (do let _ ← expectKeyword .BY; rules.exprs).Yields fun groups => groups ≠ [] :=
  .bind fun _ => commaSeparated_ne_nil _

/-- The words of a window are those of its parts between parentheses. -/
lemma window_words {base : Option String} {partition : Option (List Expr)}
    {order : Option OrderBy} {frame : Option Frame} (span : Span)
    (nonempty : ∀ groups, partition = some groups → groups ≠ []) :
    (Form.window E.drift).words ⟨base, partition.getD [], order, frame, span⟩ ++ rest =
      .ofSymbol .leftParen :: (Form.name.maybe.words base ++
        (((Form.groups E.drift).after [.ofKeyword .PARTITION]).maybe.words partition ++
        ((Form.orderBy E.drift).maybe.words order ++ ((Form.frame E.drift).maybe.words frame ++
        .ofSymbol .rightParen :: rest)))) := by
  have divided : (if (partition.getD []).isEmpty then []
      else [Render.words [.PARTITION, .BY] ++ .blank ::
        Render.commas (Expr.listPieces (partition.getD []))]).flatMap (Render.wordsOf E.drift) =
      ((Form.groups E.drift).after [.ofKeyword .PARTITION]).maybe.words partition := by
    cases partition with
    | none => rfl
    | some groups =>
      rw [Option.getD_some, if_neg (by simpa using nonempty groups rfl)]
      simp [Form.wordsOf_exprs, wordsOf_words, Form.maybe, Form.after, Form.groups]
  cases order <;> cases frame <;>
    simp only [Form.window, Form.ofPieces_words, Window.pieces, Render.parens,
      Render.wordsOf_separated_blank, Render.wordsOf_symbol, Render.wordsOf_append,
      List.flatMap_append, divided, List.cons_append, List.append_assoc, Render.wordsOf_nil,
      List.nil_append] <;>
    cases base <;> simp [Form.maybe, Form.name, Form.orderBy, Form.frame]

/-- **Windows are read again.**

**Proof sketch.** The run is taken apart, part by part, and so are the words (`window_words`). From
the end to the front: the parenthesis closes the frame, the frame starts with its unit, the ordering
and the partition with their keywords, none of which is the name of a base window. So each part is
quiet about those after it, and is read again by its own lemma, from the front to the end. -/
lemma windowDefinition_again (known : E.Known n) :
    E.Reruns n (.window E.drift) (fun _ _ => True) (windowDefinition E.rules)
      (windowDefinition E.again) := by
  intro c c' value c₁ rest run follows keeps safe _
  unfold windowDefinition at run ⊢
  obtain ⟨at₁, le₁, run⟩ := accepted_expectSymbol run
  obtain ⟨base, c₂, run₂, le₂, run⟩ := accepted_bind run
  obtain ⟨partition, c₃, run₃, le₃, run⟩ := accepted_bind run
  obtain ⟨order, c₄, run₄, le₄, run⟩ := accepted_bind run
  obtain ⟨frame, c₅, run₅, le₅, run⟩ := accepted_bind run
  obtain ⟨at₆, le₆, run⟩ := accepted_expectSymbol run
  obtain ⟨rfl, rfl⟩ := accepted_return run
  have nonempty : ∀ groups, partition = some groups → groups ≠ [] := by
    rintro groups rfl
    exact Yields.afterKeyword groups_yields run₃ _ rfl
  have follows : E.Follows n c c' (.ofSymbol .leftParen :: (Form.name.maybe.words base ++
      (((Form.groups E.drift).after [.ofKeyword .PARTITION]).maybe.words partition ++
      ((Form.orderBy E.drift).maybe.words order ++ ((Form.frame E.drift).maybe.words frame ++
      .ofSymbol .rightParen :: rest))))) := by
    rw [window_words _ nonempty] at follows
    exact follows
  have below : E.Safe (Node.each Node.expr (partition.getD []) ++ Node.maybe Node.orderBy order ++
    Node.maybe Node.frame frame) := (safe_singleton.mp safe).2
  rw [safe_append, safe_append, each_eq, maybe_eq, maybe_eq] at below
  have closes : E.Closes c₅ (.ofSymbol .rightParen :: rest) := ⟨at₆, keeps, _, rfl⟩
  have quiet₄ : E.Quiet (.keyword .ORDER :: orderEnd) c₄ _ :=
    optionalFrame_skips.quiet run₅ rfl (closes.quiet rfl)
  have quiet₃ : E.Quiet (.keyword .PARTITION :: .base :: .symbol .comma :: exprEnd) c₃ _ :=
    optionalOrderBy_skips.quiet run₄ rfl (optionalFrame_skips.quiet run₅ rfl (closes.quiet rfl))
  refine follows.expectSymbol at₁ (Nat.le_trans keeps le₁) fun start follows _ => ?_
  refine baseWindow_again.plain (Form.maybe_bare rfl) run₂ follows (Nat.le_trans keeps le₂)
    (by cases base <;> exact safe_nil)
    (Skips.quiet (.afterKeyword (Form.groups E.drift) _ _) run₃ rfl (quiet₃.mono rfl))
    fun c₂' _ follows => ?_
  refine (groups_again known .PARTITION).step run₃ follows (Nat.le_trans keeps le₃)
    (by cases partition <;> exact below.1.1) (quiet₃.mono rfl)
    fun partition' c₃' _ same₃ follows => ?_
  refine (optionalOrderBy_again known).step run₄ follows (Nat.le_trans keeps le₄) below.1.2
    ⟨quiet₄, optionalFrame_done run₅ closes.done⟩ fun order' c₄' _ same₄ follows => ?_
  refine (optionalFrame_again known).step run₅ follows (Nat.le_trans keeps le₅) below.2
    closes fun frame' c₅' _ same₅ follows => ?_
  refine follows.expectSymbol at₆ keeps fun _ follows _ => .of_return ⟨follows, ?_⟩
  have same₃ : partition'.map (List.map Expr.unplaced) =
    partition.map (List.map Expr.unplaced) := same₃
  have same₄ : order'.map OrderBy.unplaced = order.map OrderBy.unplaced := same₄
  have same₅ : frame'.map Frame.unplaced = frame.map Frame.unplaced := same₅
  have parts : (partition'.getD []).map Expr.unplaced = (partition.getD []).map Expr.unplaced := by
    cases partition <;> cases partition' <;> simp_all
  simp [Form.window, Window.unplaced, parts, same₄, same₅]

end Rereading

end SqlTree
