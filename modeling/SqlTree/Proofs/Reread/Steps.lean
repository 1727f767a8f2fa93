import SqlTree.Proofs.Reread.Setting

set_option autoImplicit false

/-!
# Reading single tokens and lists again

## Main results

* `SqlTree.Rereading.Follows.expectKeyword` and its siblings — both readings take a keyword, a
  symbol or a name.
* `SqlTree.Rereading.loops_again` — a loop is run again, step by step.
* `SqlTree.Rereading.Reruns.many`, `SqlTree.Rereading.Reruns.commaSeparated` — lists are read again.
-/

namespace SqlTree

namespace Rereading

open SqlTree.Parser

variable {E : Rereading} {α β : Type} {n : Nat} {c c' c₁ c₁' : Cursor} {rest : List Word}
  {post : β → Cursor → Prop}

/-! ## Tokens -/

/-- Where the next token is not the end of input, a token is ahead. -/
lemma ahead_of_kind {drift : Bool} (reached : c.Reachable drift)
    (kind : c.current.kind ≠ .endOfInput) : c.ahead ≠ [] := by
  intro empty
  apply kind
  unfold Cursor.current Cursor.peek
  rw [empty]
  exact reached.ends.1

/-- A keyword that is next is the kind of the next token. -/
lemma kind_of_atKeyword {word : Keyword} (at_ : c.view.atKeyword word = true) :
    c.current.kind = .keyword word := by
  change c.current.isKeyword word = true at at_
  rwa [Token.isKeyword_eq, TokenKind.isKeyword_iff] at at_

/-- Where the next token is of the kind of a keyword, the keyword is next. -/
lemma atKeyword_of_kind {word : Keyword} (kind : c.current.kind = .keyword word) :
    c.view.atKeyword word = true := by
  change c.current.isKeyword word = true
  rw [Token.isKeyword_eq, kind]
  simp

/-- A symbol that is next is the kind of the next token. -/
lemma kind_of_atSymbol {which : Symbol} (at_ : c.view.atSymbol which = true) :
    c.current.kind = .symbol which := by
  change c.current.isSymbol which = true at at_
  rwa [Token.isSymbol_eq, TokenKind.isSymbol_iff] at at_

/-- Where the next token is of the kind of a symbol, the symbol is next. -/
lemma atSymbol_of_kind {which : Symbol} (kind : c.current.kind = .symbol which) :
    c.view.atSymbol which = true := by
  change c.current.isSymbol which = true
  rw [Token.isSymbol_eq, kind]
  simp

namespace Follows

/-- Both readings take a token of the same kind. -/
lemma same {word : Word} (follows : E.Follows n c c' (word :: rest))
    (kind : c.current.kind = word.kind) (some : c.current.kind ≠ .endOfInput)
    (keeps : E.mode.left ≤ c.advance.ahead.length) :
    c'.current.kind = word.kind ∧ E.Follows n c.advance c'.advance rest ∧
      c'.advance.ahead.length < c'.ahead.length := by
  obtain ⟨next, shorter, seen⟩ := follows.take (ahead_of_kind follows.reached some) keeps
  refine ⟨?_, next, shorter⟩
  rcases seen with ⟨-, same, -⟩ | ⟨-, same, -⟩
  · exact same.trans kind
  · exact same

/-- A keyword that was next is next again, and the second reading follows the first one after it. -/
lemma keyword {word : Keyword} (follows : E.Follows n c c' (.ofKeyword word :: rest))
    (at_ : c.view.atKeyword word = true) (keeps : E.mode.left ≤ c.advance.ahead.length) :
    c'.view.atKeyword word = true ∧ E.Follows n c.advance c'.advance rest ∧
      c'.advance.ahead.length < c'.ahead.length := by
  have kind := kind_of_atKeyword at_
  obtain ⟨kind', next⟩ := follows.same kind (by simp [kind]) keeps
  exact ⟨atKeyword_of_kind kind', next⟩

/-- A part that is written with a keyword in front is ahead in both sources. -/
lemma front_keyword {word : Keyword} {words : List Word}
    (follows : E.Follows n c c' (words ++ rest)) (front : ∃ ws, words = .ofKeyword word :: ws)
    (at_ : c.view.atKeyword word = true) (keeps : E.mode.left ≤ c.advance.ahead.length) :
    c'.view.atKeyword word = true ∧ c'.advance.ahead.length < c'.ahead.length := by
  obtain ⟨ws, rfl⟩ := front
  obtain ⟨at', -, shorter⟩ := follows.keyword at_ keeps
  exact ⟨at', shorter⟩

/-- A symbol that was next is next again, and the second reading follows the first one after it. -/
lemma symbol {which : Symbol} (follows : E.Follows n c c' (.ofSymbol which :: rest))
    (at_ : c.view.atSymbol which = true) (keeps : E.mode.left ≤ c.advance.ahead.length) :
    c'.view.atSymbol which = true ∧ E.Follows n c.advance c'.advance rest ∧
      c'.advance.ahead.length < c'.ahead.length := by
  have kind := kind_of_atSymbol at_
  obtain ⟨kind', next⟩ := follows.same kind (by simp [kind]) keeps
  exact ⟨atSymbol_of_kind kind', next⟩

/-- A required keyword is read again. -/
lemma expectKeyword {word : Keyword} {next : Span → Parser β}
    (follows : E.Follows n c c' (.ofKeyword word :: rest)) (at_ : c.view.atKeyword word = true)
    (keeps : E.mode.left ≤ c.advance.ahead.length)
    (accepts : ∀ span, E.Follows n c.advance c'.advance rest →
      c'.advance.ahead.length < c'.ahead.length → Accepts E.dialect (next span) c'.advance post) :
    Accepts E.dialect (Parser.expectKeyword word >>= next) c' post := by
  obtain ⟨at', follows, shorter⟩ := follows.keyword at_ keeps
  exact (accepts _ follows shorter).congr (run_expectKeyword_bind at')

/-- A required symbol is read again. -/
lemma expectSymbol {which : Symbol} {next : Span → Parser β}
    (follows : E.Follows n c c' (.ofSymbol which :: rest)) (at_ : c.view.atSymbol which = true)
    (keeps : E.mode.left ≤ c.advance.ahead.length)
    (accepts : ∀ span, E.Follows n c.advance c'.advance rest →
      c'.advance.ahead.length < c'.ahead.length → Accepts E.dialect (next span) c'.advance post) :
    Accepts E.dialect (Parser.expectSymbol which >>= next) c' post := by
  obtain ⟨at', follows, shorter⟩ := follows.symbol at_ keeps
  exact (accepts _ follows shorter).congr (run_expectSymbol_bind at')

/-- A keyword that was taken is taken again. -/
lemma eatKeyword {word : Keyword} {next : Bool → Parser β}
    (follows : E.Follows n c c' (.ofKeyword word :: rest)) (at_ : c.view.atKeyword word = true)
    (keeps : E.mode.left ≤ c.advance.ahead.length)
    (accepts : E.Follows n c.advance c'.advance rest →
      c'.advance.ahead.length < c'.ahead.length → Accepts E.dialect (next true) c'.advance post) :
    Accepts E.dialect (Parser.eatKeyword word >>= next) c' post := by
  obtain ⟨at', follows, shorter⟩ := follows.keyword at_ keeps
  refine (accepts follows shorter).congr ?_
  rw [run_eatKeyword_bind, if_pos at']

/-- A symbol that was taken is taken again. -/
lemma eatSymbol {which : Symbol} {next : Bool → Parser β}
    (follows : E.Follows n c c' (.ofSymbol which :: rest)) (at_ : c.view.atSymbol which = true)
    (keeps : E.mode.left ≤ c.advance.ahead.length)
    (accepts : E.Follows n c.advance c'.advance rest →
      c'.advance.ahead.length < c'.ahead.length → Accepts E.dialect (next true) c'.advance post) :
    Accepts E.dialect (Parser.eatSymbol which >>= next) c' post := by
  obtain ⟨at', follows, shorter⟩ := follows.symbol at_ keeps
  refine (accepts follows shorter).congr ?_
  rw [run_eatSymbol_bind, if_pos at']

/-- Both readings take a keyword that has been seen. -/
lemma advanceKeyword {word : Keyword} {next : Token → Parser β}
    (follows : E.Follows n c c' (.ofKeyword word :: rest)) (at_ : c.view.atKeyword word = true)
    (keeps : E.mode.left ≤ c.advance.ahead.length)
    (accepts : ∀ token, E.Follows n c.advance c'.advance rest →
      c'.advance.ahead.length < c'.ahead.length →
      Accepts E.dialect (next token) c'.advance post) :
    Accepts E.dialect (Parser.advance >>= next) c' post := by
  obtain ⟨at', follows, shorter⟩ := follows.keyword at_ keeps
  exact (accepts _ follows shorter).congr (run_advance_bind (sound_of_atKeyword at'))

/-- Both readings take a symbol that has been seen. -/
lemma advanceSymbol {which : Symbol} {next : Token → Parser β}
    (follows : E.Follows n c c' (.ofSymbol which :: rest)) (at_ : c.view.atSymbol which = true)
    (keeps : E.mode.left ≤ c.advance.ahead.length)
    (accepts : ∀ token, E.Follows n c.advance c'.advance rest →
      c'.advance.ahead.length < c'.ahead.length →
      Accepts E.dialect (next token) c'.advance post) :
    Accepts E.dialect (Parser.advance >>= next) c' post := by
  obtain ⟨at', follows, shorter⟩ := follows.symbol at_ keeps
  exact (accepts _ follows shorter).congr (run_advance_bind (sound_of_atSymbol at'))

/-- Both readings take two keywords. -/
lemma keywords {first second : Keyword}
    (follows : E.Follows n c c' (.ofKeyword first :: .ofKeyword second :: rest))
    (at_ : c.view.atKeywords first second = true)
    (keeps : E.mode.left ≤ c.advance.advance.ahead.length) :
    c'.view.atKeywords first second = true ∧
      E.Follows n c.advance.advance c'.advance.advance rest ∧
      c'.advance.advance.ahead.length < c'.ahead.length := by
  unfold View.atKeywords at at_ ⊢
  rw [Bool.and_eq_true] at at_ ⊢
  obtain ⟨one, two⟩ := at_
  obtain ⟨one', follows, shorter⟩ :=
    follows.keyword one (Nat.le_trans keeps c.advance.length_advance)
  obtain ⟨two', follows, shorter'⟩ := follows.keyword (c := c.advance) (by
    change (c.advance.peek 0).isKeyword second = true
    rw [Cursor.peek_advance]
    exact two) keeps
  refine ⟨⟨one', ?_⟩, follows, by omega⟩
  change (c'.advance.peek 0).isKeyword second = true at two'
  rwa [Cursor.peek_advance] at two'

/-- Both readings take two keywords that have been seen. -/
lemma advanceKeywords {first second : Keyword} {next : Parser β}
    (follows : E.Follows n c c' (.ofKeyword first :: .ofKeyword second :: rest))
    (at_ : c.view.atKeywords first second = true)
    (keeps : E.mode.left ≤ c.advance.advance.ahead.length)
    (accepts : E.Follows n c.advance.advance c'.advance.advance rest →
      c'.advance.advance.ahead.length < c'.ahead.length →
      Accepts E.dialect next c'.advance.advance post) :
    Accepts E.dialect (do let _ ← Parser.advance; let _ ← Parser.advance; next) c' post := by
  obtain ⟨at', follows, shorter⟩ := follows.keywords at_ keeps
  unfold View.atKeywords at at'
  rw [Bool.and_eq_true] at at'
  refine (accepts follows shorter).congr ?_
  rw [run_advance_bind (sound_of_atKeyword at'.1), run_advance_bind (sound_of_atKeyword (by
    change (c'.advance.peek 0).isKeyword second = true
    rw [Cursor.peek_advance]
    exact at'.2))]

end Follows

/-- A part that has been read again is followed by what comes after it. -/
lemma accepts_of_run {p' : Parser α} {value' : α} {next : α → Parser β}
    (run' : p'.run E.dialect c' = .accepted value' c₁')
    (accepts : Accepts E.dialect (next value') c₁' post) :
    Accepts E.dialect (p' >>= next) c' post :=
  accepts.congr (by rw [run_bind, run'])

/-- Looking around is repeated in the second reading. -/
lemma accepts_sees {test : View → Bool} {next : Bool → Parser β}
    (accepts : Accepts E.dialect (next (test c'.view)) c' post) :
    Accepts E.dialect (sees test >>= next) c' post :=
  accepts.congr (run_sees_bind ..)

/-- A token that is well formed can be taken. -/
lemma accepts_advance {next : Token → Parser β} (sound : c'.current.kind.isMalformed = false)
    (accepts : Accepts E.dialect (next c'.current) c'.advance post) :
    Accepts E.dialect (Parser.advance >>= next) c' post :=
  accepts.congr (run_advance_bind sound)

/-- A feature that the dialect has can be demanded again. -/
lemma accepts_require {feature : Feature} {construct : String} {span : Span}
    {next : Unit → Parser β} (has : E.dialect.supports feature = true)
    (accepts : Accepts E.dialect (next ()) c' post) :
    Accepts E.dialect (require feature construct span >>= next) c' post := by
  refine accepts.congr ?_
  rw [run_bind]
  simp [require, Parser.run, has]

/-- A keyword that is next is taken. -/
lemma takeKeyword {word : Keyword} {next : Bool → Parser β}
    (at' : c'.view.atKeyword word = true)
    (accepts : Accepts E.dialect (next true) c'.advance post) :
    Accepts E.dialect (Parser.eatKeyword word >>= next) c' post := by
  refine accepts.congr ?_
  rw [run_eatKeyword_bind, if_pos at']

/-- A keyword that is not next is not taken. -/
lemma skipKeyword {word : Keyword} {next : Bool → Parser β}
    (not : ¬ c'.view.atKeyword word = true) (accepts : Accepts E.dialect (next false) c' post) :
    Accepts E.dialect (Parser.eatKeyword word >>= next) c' post := by
  refine accepts.congr ?_
  rw [run_eatKeyword_bind, if_neg not]

/-- After the next token, the second one is next. -/
lemma atSymbol_advance (cursor : Cursor) (which : Symbol) :
    cursor.advance.view.atSymbol which = cursor.view.second.isSymbol which := by
  change (cursor.advance.peek 0).isSymbol which = (cursor.peek 1).isSymbol which
  rw [Cursor.peek_advance]

/-- After the next token, the second one is next. -/
lemma atKeyword_advance (cursor : Cursor) (word : Keyword) :
    cursor.advance.view.atKeyword word = cursor.view.second.isKeyword word := by
  change (cursor.advance.peek 0).isKeyword word = (cursor.peek 1).isKeyword word
  rw [Cursor.peek_advance]

/-- Where a keyword stands, it is one of the tokens ahead. -/
lemma length_of_atKeyword {drift : Bool} {word : Keyword} (at_ : c.view.atKeyword word = true)
    (reached : c.Reachable drift) : c.ahead.length = c.advance.ahead.length + 1 :=
  Cursor.length_ahead (ahead_of_kind reached (by simp [kind_of_atKeyword at_]))

/-- Where a keyword stands, no symbol does. -/
lemma not_atSymbol {word : Keyword} (at_ : c.view.atKeyword word = true) (which : Symbol) :
    ¬ c.view.atSymbol which = true := by
  intro contra
  have := (kind_of_atKeyword at_).symm.trans (kind_of_atSymbol contra)
  exact absurd this (by simp)

/-- Where a symbol stands, no other one does. -/
lemma not_otherSymbol {which other : Symbol} (at_ : c.view.atSymbol which = true)
    (differ : which ≠ other) : ¬ c.view.atSymbol other = true := by
  intro contra
  have := (kind_of_atSymbol at_).symm.trans (kind_of_atSymbol contra)
  exact differ (by simpa using this)

/-- Where a symbol stands, no keyword does. -/
lemma not_atKeyword {which : Symbol} (at_ : c.view.atSymbol which = true) (word : Keyword) :
    ¬ c.view.atKeyword word = true :=
  fun contra => not_atSymbol contra which at_

/-- Where one keyword stands, no other one does. -/
lemma not_otherKeyword {word other : Keyword} (at_ : c.view.atKeyword word = true)
    (differ : word ≠ other) : ¬ c.view.atKeyword other = true := by
  intro contra
  have := (kind_of_atKeyword at_).symm.trans (kind_of_atKeyword contra)
  exact differ (by simpa using this)

/-- A symbol that is not next is not taken. -/
lemma skipSymbol {which : Symbol} {next : Bool → Parser β}
    (not : ¬ c'.view.atSymbol which = true) (accepts : Accepts E.dialect (next false) c' post) :
    Accepts E.dialect (Parser.eatSymbol which >>= next) c' post := by
  refine accepts.congr ?_
  rw [run_eatSymbol_bind, if_neg not]

/-- Where one keyword follows, no other one does. -/
lemma Follows.notKeyword {word other : Keyword}
    (follows : E.Follows n c c' (.ofKeyword word :: rest)) (at_ : c.view.atKeyword word = true)
    (keeps : E.mode.left ≤ c.advance.ahead.length) (differ : word ≠ other) :
    ¬ c'.view.atKeyword other = true :=
  not_otherKeyword (follows.keyword at_ keeps).1 differ

namespace Quiet

variable {starters : List Starter}

/-- A keyword that is not next in the first source is not next in the second. -/
lemma not_keyword {word : Keyword} (quiet : E.Quiet starters c rest)
    (follows : E.Follows n c c' rest) (mem : starters.contains (.keyword word) = true)
    (not : ¬ c.view.atKeyword word = true) : ¬ c'.view.atKeyword word = true := by
  intro at'
  apply not
  have := quiet.not_passes (.keyword word) follows (by simpa using mem) (by simp)
  simp only [Starter.passes, Starter.first, Starter.second, Bool.and_true] at this
  rw [← Bool.not_eq_false]
  intro fails
  have kind := kind_of_atKeyword at'
  unfold Cursor.current at kind
  rw [kind] at this
  simp only [TokenKind.isKeyword_keyword, BEq.rfl, Bool.true_eq_false, imp_false] at this
  apply this
  change c.current.isKeyword word = false at fails
  rwa [Token.isKeyword_eq] at fails

/-- At a place that is quiet about a symbol, the symbol is not next again if it was not next. -/
lemma not_symbol {which : Symbol} (quiet : E.Quiet starters c rest)
    (follows : E.Follows n c c' rest) (mem : starters.contains (.symbol which) = true)
    (not : ¬ c.view.atSymbol which = true) : ¬ c'.view.atSymbol which = true := by
  intro at'
  apply not
  have := quiet.not_passes (.symbol which) follows (by simpa using mem) (by simp)
  simp only [Starter.passes, Starter.first, Starter.second, Bool.and_true] at this
  rw [← Bool.not_eq_false]
  intro fails
  have kind := kind_of_atSymbol at'
  unfold Cursor.current at kind
  rw [kind] at this
  simp only [TokenKind.isSymbol_symbol, BEq.rfl, Bool.true_eq_false, imp_false] at this
  exact this fails

end Quiet

/-! ## Loops -/

/-- **A loop is run again.** Each step that the first reading makes adds words to what its state is
written as; the second reading makes the same steps, and stops after them.

**Proof sketch.** Induction on the steps of the first loop. The bound of the second one suffices
because each of its steps takes a token. -/
lemma loops_again {σ : Type} {step : σ → Parser (Option σ)} (step' : σ → Parser (Option σ))
    (out : σ → List Word) (same : σ → σ → Prop) (safe : σ → Prop)
    (ends : Cursor → List Word → Prop)
    (one : ∀ {s c s₂ c₂}, (step s).run E.dialect c = .accepted (some s₂) c₂ →
      c.Reachable E.drift → ∃ ws, out s₂ = out s ++ ws ∧ (∀ rest, ends c (ws ++ rest)) ∧
        (safe s₂ → safe s ∧ ∀ {s' c' rest}, same s s' → E.Follows n c c' (ws ++ rest) →
          E.mode.left ≤ c₂.ahead.length → ends c₂ rest →
          Accepts E.dialect (step' s') c' fun next c₂' =>
            c₂'.ahead.length < c'.ahead.length ∧
              ∃ s₂', next = some s₂' ∧ same s₂ s₂' ∧ E.Follows n c₂ c₂' rest))
    {s s₁ : σ} (loops : Loops E.dialect step s c s₁ c₁) (reached : c.Reachable E.drift) :
    ∃ ws, out s₁ = out s ++ ws ∧ (∀ rest, ends c₁ rest → ends c (ws ++ rest)) ∧
      (safe s₁ → safe s ∧ ∀ {s' c' rest fuel'}, same s s' → E.Follows n c c' (ws ++ rest) →
        E.mode.left ≤ c₁.ahead.length → ends c₁ rest → c'.ahead.length < fuel' →
        (∀ {s₁' c₁'}, same s₁ s₁' → E.Follows n c₁ c₁' rest →
          Accepts E.dialect (step' s₁') c₁' fun next c₂' =>
            next = none ∧ E.Follows n c₁ c₂' rest) →
        Accepts E.dialect (iterate step' fuel' s') c' fun s₁' c₁' =>
          same s₁ s₁' ∧ E.Follows n c₁ c₁' rest) := by
  induction loops with
  | refl s c =>
    refine ⟨[], by simp, fun rest quiet => quiet, fun safe => ⟨safe, ?_⟩⟩
    intro s' c' rest fuel' related follows keeps quiet enough stop
    obtain ⟨fuel', rfl⟩ : ∃ more, fuel' = more + 1 := ⟨fuel' - 1, by omega⟩
    refine (stop related follows).bind ?_
    rintro _ c₂' - ⟨rfl, follows⟩
    exact .of_pure ⟨related, follows⟩
  | step first others ih =>
    obtain ⟨ws₂, out₂, quiet₂, rerun₂⟩ := ih (accepted_reachable first reached)
    obtain ⟨ws, out₁, quiet₁, rerun₁⟩ := one first reached
    refine ⟨ws ++ ws₂, by rw [out₂, out₁, List.append_assoc],
      fun rest _ => by rw [List.append_assoc]; exact quiet₁ _, fun safe => ?_⟩
    obtain ⟨safe₂, again₂⟩ := rerun₂ safe
    obtain ⟨safe, again₁⟩ := rerun₁ safe₂
    refine ⟨safe, ?_⟩
    intro s' c' rest fuel' related follows keeps quiet enough stop
    obtain ⟨fuel', rfl⟩ : ∃ more, fuel' = more + 1 := ⟨fuel' - 1, by omega⟩
    rw [List.append_assoc] at follows
    refine (again₁ related follows (Nat.le_trans keeps others.length) (quiet₂ _ quiet)).bind ?_
    rintro _ c₂' - ⟨shorter, s₂', rfl, related₂, follows₂⟩
    exact again₂ related₂ follows₂ keeps quiet (by omega) stop

end Rereading

/-! ## Lists and optional parts -/

namespace Form

variable {α : Type} (form : Form α)

/-- Parts one after the other. -/
def flat : Form (List α) :=
  ⟨fun parts => parts.flatMap form.words, fun parts => parts.flatMap form.nodes,
    List.map form.bare⟩

/-- Parts with commas between them. -/
def commas : Form (List α) where
  words
    | [] => []
    | first :: others =>
      form.words first ++ others.flatMap fun part => .ofSymbol .comma :: form.words part
  nodes parts := parts.flatMap form.nodes
  bare := List.map form.bare

/-- A part that may be missing. -/
def maybe : Form (Option α) :=
  ⟨fun part => part.elim [] form.words, fun part => part.elim [] form.nodes,
    Option.map form.bare⟩

/-- A part with words before it. -/
def after (words : List Word) : Form α :=
  { form with words := fun part => words ++ form.words part }

/-- A part in parentheses. -/
def parens : Form α :=
  { form with
    words := fun part => .ofSymbol .leftParen :: form.words part ++ [.ofSymbol .rightParen] }

/-- The words of a list are those of its first part, a comma and those of the others. -/
lemma commas_cons (first : α) {others : List α} (some : others ≠ []) :
    form.commas.words (first :: others) =
      form.words first ++ .ofSymbol .comma :: form.commas.words others := by
  obtain ⟨second, others, rfl⟩ := List.exists_cons_of_ne_nil some
  simp [commas]

/-- If nothing of a part is left out when its places are, nothing of it is where it may be
missing. -/
lemma maybe_bare {form : Form α} (bare : form.bare = id) : form.maybe.bare = id := by
  change Option.map form.bare = id
  rw [bare, Option.map_id]

/-- If nothing of a part is left out when its places are, nothing of a list of them is. -/
lemma commas_bare {form : Form α} (bare : form.bare = id) : form.commas.bare = id := by
  change List.map form.bare = id
  rw [bare, List.map_id_fun]

end Form

namespace Rereading

open SqlTree.Parser

variable {E : Rereading} {α β : Type} {n : Nat} {c c' c₁ c₁' : Cursor} {rest : List Word}
  {post : β → Cursor → Prop}

/-! ## Safe nodes -/

/-- No nodes are safe. -/
@[simp] lemma safe_nil : E.Safe [] := by
  intro _ node mem
  exact absurd mem List.not_mem_nil

/-- Nodes are safe together if they are in two lists. -/
lemma safe_append {nodes more : List Node} :
    E.Safe (nodes ++ more) ↔ E.Safe nodes ∧ E.Safe more := by
  unfold Safe
  constructor
  · intro safe
    exact ⟨fun written node mem => safe written node (List.mem_append_left _ mem),
      fun written node mem => safe written node (List.mem_append_right _ mem)⟩
  · rintro ⟨left, right⟩ written node mem
    rcases List.mem_append.mp mem with mem | mem
    · exact left written node mem
    · exact right written node mem

/-- A list of nodes is safe if its first node and the others are. -/
lemma safe_cons {node : Node} {more : List Node} :
    E.Safe (node :: more) ↔ E.Safe [node] ∧ E.Safe more :=
  @safe_append _ [node] _

/-- A safe node is written faithfully, and the nodes below it are safe. -/
lemma safe_singleton {node : Node} :
    E.Safe [node] ↔ (E.mode = .written → node.Faithful E.drift) ∧ E.Safe node.children := by
  unfold Safe
  constructor
  · intro safe
    refine ⟨fun written => safe written node (by simp) node ?_, fun written child mem inner below =>
      safe written node (by simp) inner ?_⟩
    · rw [Node.walk_eq]
      exact List.mem_cons_self
    · rw [Node.walk_eq]
      exact List.mem_cons_of_mem _ (List.mem_flatMap.mpr ⟨child, mem, below⟩)
  · rintro ⟨own, below⟩ written node' mem inner inside
    obtain rfl := List.mem_singleton.mp mem
    rw [Node.walk_eq] at inside
    rcases List.mem_cons.mp inside with rfl | inside
    · exact own written
    · obtain ⟨child, mem, inside⟩ := List.mem_flatMap.mp inside
      exact below written child mem inner inside

/-- The nodes of some parts are the nodes of each. -/
lemma each_eq {node : α → Node} (parts : List α) :
    Node.each node parts = parts.flatMap fun part => [node part] :=
  List.map_eq_flatMap

/-- The nodes of a part that may be missing are its nodes, if it is there. -/
lemma maybe_eq {node : α → Node} (part : Option α) :
    Node.maybe node part = part.elim [] fun part => [node part] := by
  cases part <;> rfl

/-! ## Lists -/

namespace Reruns

variable {form : Form α} {ends : Cursor → List Word → Prop} {p p' : Parser α}

/-- A part is read again before what follows it. -/
lemma step (again : E.Reruns n form ends p p') {value : α} {next : α → Parser β}
    (run : p.run E.dialect c = .accepted value c₁)
    (follows : E.Follows n c c' (form.words value ++ rest))
    (keeps : E.mode.left ≤ c₁.ahead.length) (safe : E.Safe (form.nodes value))
    (quiet : ends c₁ rest)
    (accepts : ∀ value' c₁', p'.run E.dialect c' = .accepted value' c₁' →
      form.bare value' = form.bare value → E.Follows n c₁ c₁' rest →
      Accepts E.dialect (next value') c₁' post) :
    Accepts E.dialect (p' >>= next) c' post := by
  refine (again run follows keeps safe quiet).bind ?_
  rintro value' c₁' run' ⟨next, same⟩
  exact accepts value' c₁' run' same next

/-- What has no places is read again as it is. -/
lemma plain (again : E.Reruns n form ends p p') (bare : form.bare = id) {value : α}
    {next : α → Parser β} (run : p.run E.dialect c = .accepted value c₁)
    (follows : E.Follows n c c' (form.words value ++ rest))
    (keeps : E.mode.left ≤ c₁.ahead.length) (safe : E.Safe (form.nodes value))
    (quiet : ends c₁ rest)
    (accepts : ∀ c₁', p'.run E.dialect c' = .accepted value c₁' → E.Follows n c₁ c₁' rest →
      Accepts E.dialect (next value) c₁' post) :
    Accepts E.dialect (p' >>= next) c' post := by
  refine (again run follows keeps safe quiet).bind ?_
  rintro value' c₁' run' ⟨next, same⟩
  rw [bare] at same
  obtain rfl : value' = value := same
  exact accepts c₁' run' next

/-- The parts that a step yields are read again if each of them is, and if the second reading stops
where the first one does.

**Proof sketch.** The loop of the first reading is taken apart into its turns (`accepted_iterate`),
and by induction on them the second one takes the same turns (`loops_again`): a turn that yielded a
part yields one again, by `one`. The last turn, which yielded nothing, does so again by `stop`. The
parts are collected in reverse, so their words are turned around at the end. -/
lemma many (form : Form α) (ends : Cursor → List Word → Prop) {step : Parser (Option α)}
    (step' : Parser (Option α)) {fuel fuel' : Nat} (enough : n ≤ fuel')
    (one : ∀ {c part c₂}, step.run E.dialect c = .accepted (some part) c₂ →
      c.Reachable E.drift → (∀ rest, ends c (form.words part ++ rest)) ∧
        ∀ {c' rest}, E.Follows n c c' (form.words part ++ rest) →
          E.mode.left ≤ c₂.ahead.length → E.Safe (form.nodes part) → ends c₂ rest →
          Accepts E.dialect step' c' fun next c₂' =>
            c₂'.ahead.length < c'.ahead.length ∧
              ∃ part', next = some part' ∧ form.bare part' = form.bare part ∧
                E.Follows n c₂ c₂' rest)
    (stop : ∀ {c c₂}, step.run E.dialect c = .accepted none c₂ → c₂ = c ∧
      ∀ {c' rest}, E.Follows n c c' rest → E.mode.left ≤ c.ahead.length → ends c rest →
        Accepts E.dialect step' c' fun next c₂' => next = none ∧ E.Follows n c c₂' rest)
    {parts : List α}
    (run : (Parser.many fuel step).run E.dialect c = .accepted parts c₁)
    (reached : c.Reachable E.drift) (safe : E.Safe (form.flat.nodes parts)) :
    (∀ rest, ends c₁ rest → ends c (form.flat.words parts ++ rest)) ∧
      ∀ {c' rest}, E.Follows n c c' (form.flat.words parts ++ rest) →
        E.mode.left ≤ c₁.ahead.length → ends c₁ rest →
        Accepts E.dialect (Parser.many fuel' step') c' fun parts' c₁' =>
          E.Follows n c₁ c₁' rest ∧ form.flat.bare parts' = form.flat.bare parts := by
  obtain ⟨found, c₂, loop, -, run⟩ := accepted_bind run
  obtain ⟨rfl, rfl⟩ := accepted_pure run
  obtain ⟨c₃, loops, end_⟩ := accepted_iterate loop
  obtain ⟨next, c₄, inner, -, last⟩ := accepted_bind end_
  obtain ⟨eq, rfl⟩ := accepted_pure last
  obtain rfl := Option.map_eq_none_iff.mp eq
  obtain ⟨rfl, again₁⟩ := stop inner
  obtain ⟨ws, out, quiet, rerun⟩ := loops_again (E := E) (n := n)
    (fun parts => do return (← step').map (· :: parts))
    (fun parts => form.flat.words parts.reverse)
    (fun parts parts' => parts'.map form.bare = parts.map form.bare)
    (fun parts => E.Safe (form.flat.nodes parts.reverse)) ends
    (by
      intro parts c more c₂ run reached
      obtain ⟨next, c₃, inner, -, last⟩ := accepted_bind run
      obtain ⟨eq, rfl⟩ := accepted_pure last
      obtain ⟨part, rfl, rfl⟩ := Option.map_eq_some_iff.mp eq
      obtain ⟨quiet, again⟩ := one inner reached
      simp only [Form.flat, List.reverse_cons, List.flatMap_append, List.flatMap_cons,
        List.flatMap_nil, List.append_nil, safe_append]
      refine ⟨_, rfl, quiet, fun safe => ⟨safe.1, fun same follows keeps quiet => ?_⟩⟩
      refine (again follows keeps safe.2 quiet).bind ?_
      rintro _ c₂' - ⟨shorter, part', rfl, bare, follows⟩
      exact .of_pure ⟨shorter, _, rfl, by simp [same, bare], follows⟩)
    loops reached
  obtain ⟨-, again⟩ := rerun safe
  have words : form.flat.words found.reverse = ws := by simpa [Form.flat] using out
  rw [words]
  refine ⟨quiet, fun follows keeps ends => ?_⟩
  have start := @again []
  refine (start rfl follows keeps ends (by have := follows.short; omega)
    fun same follows => ?_).bind ?_
  · refine (again₁ follows keeps ends).bind ?_
    rintro _ c₂' - ⟨rfl, follows⟩
    exact .of_pure ⟨rfl, follows⟩
  rintro found' c₁' - ⟨same, follows⟩
  exact .of_pure ⟨follows, by simp [Form.flat, same]⟩

/-- Parts with commas between them are read again, if the end of a part may have a comma after
it.

**Proof sketch.** The first part is read again, and the others are repetitions of a comma and a
part, to which `many` applies. Each part ends before a comma or where the list ends. Where a comma
was next it is next again, and where the list ended none is, because the end of the list is quiet
about commas. -/
lemma commaSeparated {fuel fuel' : Nat} {listEnds : Cursor → List Word → Prop}
    (part : E.Reruns n form ends p p') (enough : n ≤ fuel')
    (comma : ∀ c rest, c.view.atSymbol .comma = true → ends c (.ofSymbol .comma :: rest))
    (last : ∀ c rest, listEnds c rest → ends c rest ∧ E.Quiet [.symbol .comma] c rest) :
    E.Reruns n form.commas listEnds (Parser.commaSeparated fuel p)
      (Parser.commaSeparated fuel' p') := by
  intro c c' parts c₁ rest run follows keeps safe quiet
  obtain ⟨first, c₂, run₁, le₁, run⟩ := accepted_bind run
  obtain ⟨others, c₃, run₂, -, run⟩ := accepted_bind run
  obtain ⟨rfl, rfl⟩ := accepted_pure run
  simp only [Form.commas, List.append_assoc, List.flatMap_cons, safe_append] at follows safe
  obtain ⟨quiets, again⟩ := many (form.after [.ofSymbol .comma])
    (fun c rest => ends c rest ∧ E.Quiet [.symbol .comma] c rest ∨
      c.view.atSymbol .comma = true ∧ ends c rest)
    (do if ← Parser.eatSymbol .comma then return some (← p') else return none) enough
    (by
      intro c part₂ c₂ run reached
      rw [run_eatSymbol_bind] at run
      split at run
      · next at_ =>
        obtain ⟨value, c₃, inner, -, last⟩ := accepted_bind run
        obtain ⟨eq, rfl⟩ := accepted_pure last
        obtain rfl := Option.some.inj eq
        refine ⟨fun rest => .inr ⟨at_, comma _ _ at_⟩, fun follows keeps safe quiet => ?_⟩
        refine follows.eatSymbol at_ (Nat.le_trans keeps (accepted_length inner))
          fun follows shorter => ?_
        refine (part inner follows keeps safe (by
          rcases quiet with ⟨quiet, -⟩ | ⟨-, quiet⟩ <;> exact quiet)).bind ?_
        rintro value' c₂' run' ⟨follows, bare⟩
        exact .of_pure
          ⟨Nat.lt_of_le_of_lt (accepted_length run') shorter, _, rfl, bare, follows⟩
      · exact absurd (accepted_pure run).1 (by simp))
    (by
      intro c c₂ run
      rw [run_eatSymbol_bind] at run
      split at run
      · obtain ⟨value, c₃, -, -, last⟩ := accepted_bind run
        exact absurd (accepted_pure last).1 (by simp)
      · next not =>
        obtain ⟨-, rfl⟩ := accepted_pure run
        refine ⟨rfl, fun follows keeps quiet => ?_⟩
        rcases quiet with ⟨-, quiet⟩ | ⟨at_, -⟩
        · exact skipSymbol (quiet.not_symbol follows rfl not) (.of_pure ⟨rfl, follows⟩)
        · exact absurd at_ not)
    run₂ (accepted_reachable run₁ follows.reached) safe.2
  have quiet₂ := quiets rest (.inl (last _ _ quiet))
  refine (part run₁ follows (Nat.le_trans keeps le₁) safe.1 (by
    rcases quiet₂ with ⟨quiet, -⟩ | ⟨-, quiet⟩ <;> exact quiet)).bind ?_
  rintro first' c₂' - ⟨follows, bare⟩
  refine (again follows keeps (.inl (last _ _ quiet))).bind ?_
  rintro others' c₃' - ⟨follows, bares⟩
  exact .of_pure ⟨follows, by
    simpa [Form.commas, Form.flat, Form.after, bare] using bares⟩

/-- A part after a keyword is read again. -/
lemma afterKeyword {word : Keyword} {optionEnds : Cursor → List Word → Prop}
    (part : E.Reruns n form ends p p')
    (last : ∀ c rest, optionEnds c rest → ends c rest ∧ E.Quiet [.keyword word] c rest) :
    E.Reruns n (form.after [.ofKeyword word]).maybe optionEnds (Parser.afterKeyword word p)
      (Parser.afterKeyword word p') := by
  intro c c' value c₁ rest run follows keeps safe quiet
  obtain ⟨quiet, none⟩ := last _ _ quiet
  unfold Parser.afterKeyword at run ⊢
  rw [run_eatKeyword_bind] at run
  split at run
  · next at_ =>
    obtain ⟨value, c₂, inner, -, done⟩ := accepted_bind run
    obtain ⟨rfl, rfl⟩ := accepted_pure done
    refine follows.eatKeyword at_ (Nat.le_trans keeps (accepted_length inner)) fun follows _ => ?_
    refine (part inner follows keeps safe quiet).bind ?_
    rintro value' c₂' - ⟨follows, bare⟩
    exact .of_pure ⟨follows, by simpa [Form.maybe, Form.after] using bare⟩
  · next not =>
    obtain ⟨rfl, rfl⟩ := accepted_pure run
    exact skipKeyword (none.not_keyword follows (by simp) not) (.of_pure ⟨follows, rfl⟩)

/-- A part that is there if a test passes is read again, if the test passes again exactly where it
did before. -/
lemma whenever {test : View → Bool} (part : E.Reruns n form ends p p')
    (there : ∀ {c c' value c₁ rest}, test c.view = true →
      p.run E.dialect c = .accepted value c₁ → E.Follows n c c' (form.words value ++ rest) →
      E.mode.left ≤ c₁.ahead.length → ends c₁ rest → test c'.view = true)
    {c c' c₁ : Cursor} {value : Option α} {rest : List Word}
    (run : (Parser.whenever test p).run E.dialect c = .accepted value c₁)
    (follows : E.Follows n c c' (form.maybe.words value ++ rest))
    (keeps : E.mode.left ≤ c₁.ahead.length) (safe : E.Safe (form.maybe.nodes value))
    (quiet : value.isSome → ends c₁ rest)
    (missing : value = none → ¬ test c.view = true → ¬ test c'.view = true) :
    Accepts E.dialect (Parser.whenever test p') c' fun value' c₁' =>
      E.Follows n c₁ c₁' rest ∧ form.maybe.bare value' = form.maybe.bare value := by
  unfold Parser.whenever at run ⊢
  rw [run_sees_bind] at run
  split at run
  · next at_ =>
    obtain ⟨value, c₂, inner, -, done⟩ := accepted_bind run
    obtain ⟨rfl, rfl⟩ := accepted_pure done
    have at' := there at_ inner follows keeps (quiet rfl)
    refine Accepts.congr ?_ (run_sees_bind ..)
    rw [if_pos at']
    refine (part inner follows keeps safe (quiet rfl)).bind ?_
    rintro value' c₂' - ⟨follows, bare⟩
    exact .of_pure ⟨follows, by simpa [Form.maybe] using bare⟩
  · next not =>
    obtain ⟨rfl, rfl⟩ := accepted_pure run
    refine Accepts.congr ?_ (run_sees_bind ..)
    rw [if_neg (missing rfl not)]
    exact .of_pure ⟨follows, rfl⟩

/-- A part in parentheses is read again. -/
lemma parenthesized (part : E.Reruns n form ends p p')
    (closes : ∀ c rest, c.view.atSymbol .rightParen = true →
      E.mode.left ≤ c.advance.ahead.length → ends c (.ofSymbol .rightParen :: rest)) :
    E.Reruns n form.parens (fun _ _ => True) (Parser.parenthesized p)
      (Parser.parenthesized p') := by
  intro c c' value c₁ rest run follows keeps safe _
  unfold Parser.parenthesized at run ⊢
  obtain ⟨open_, le₁, run⟩ := accepted_expectSymbol run
  obtain ⟨inner, c₂, run₁, le₂, run⟩ := accepted_bind run
  obtain ⟨close, le₃, run⟩ := accepted_expectSymbol run
  obtain ⟨rfl, rfl⟩ := accepted_pure run
  simp only [Form.parens, List.cons_append, List.append_assoc, List.nil_append] at follows
  refine follows.expectSymbol open_ (Nat.le_trans keeps le₁) fun _ follows _ => ?_
  refine (part run₁ follows (Nat.le_trans keeps le₂) safe (closes _ _ close keeps)).bind ?_
  rintro inner' c₂' - ⟨follows, bare⟩
  exact follows.expectSymbol close keeps fun _ follows _ => .of_pure ⟨follows, bare⟩

/-- A part that starts with a keyword, and is there exactly if that keyword is, is read again. -/
lemma whenKeyword {word : Keyword} {optionEnds : Cursor → List Word → Prop}
    (part : E.RerunsAt word n form ends p p')
    (front : ∀ value, ∃ ws, form.words value = .ofKeyword word :: ws)
    (takes : ∀ {c value c₁}, p.run E.dialect c = .accepted value c₁ →
      c₁.ahead.length ≤ c.advance.ahead.length)
    (last : ∀ c rest, optionEnds c rest → ends c rest ∧ E.Quiet [.keyword word] c rest) :
    E.Reruns n form.maybe optionEnds (Parser.whenever (·.atKeyword word) p)
      (Parser.whenever (·.atKeyword word) p') := by
  intro c c' value c₁ rest run follows keeps safe quiet
  obtain ⟨quiet, none⟩ := last _ _ quiet
  unfold Parser.whenever at run ⊢
  rw [run_sees_bind] at run
  refine Accepts.congr ?_ (run_sees_bind ..)
  split at run
  · next at_ =>
    obtain ⟨value, c₂, inner, -, done⟩ := accepted_bind run
    obtain ⟨rfl, rfl⟩ := accepted_pure done
    have follows : E.Follows n c c' (form.words value ++ rest) := follows
    rw [if_pos (follows.front_keyword (front value) at_ (Nat.le_trans keeps (takes inner))).1]
    refine (part at_ inner follows keeps safe quiet).bind ?_
    rintro value' c₂' - ⟨follows, bare⟩
    exact .of_pure ⟨follows, by simpa [Form.maybe] using bare⟩
  · next not =>
    obtain ⟨rfl, rfl⟩ := accepted_pure run
    rw [if_neg (none.not_keyword follows (by simp) not)]
    exact .of_pure ⟨follows, rfl⟩

end Reruns

/-- A list with commas has at least one part. -/
lemma commaSeparated_ne_nil {p : Parser α} (fuel : Nat) :
    (Parser.commaSeparated fuel p).Yields fun parts => parts ≠ [] :=
  .bind fun _ => .bind fun _ => .of_pure (List.cons_ne_nil _ _)

/-! ## Optional parts -/

/-- What a parser accepts is either nothing at all or starts with one of these kinds of tokens. -/
def Skips (dialect : Dialect) (form : Form α) (fronts : List TokenKind) (p : Parser α) : Prop :=
  ∀ ⦃c : Cursor⦄ ⦃value : α⦄ ⦃c₁ : Cursor⦄, p.run dialect c = .accepted value c₁ →
    (form.words value = [] ∧ c₁ = c) ∨
      ∃ word ws, form.words value = word :: ws ∧ word.kind ∈ fronts

namespace Skips

variable {form : Form α} {fronts : List TokenKind} {p : Parser α}

/-- Before an optional part an end is quiet if it is so after it, unless the part starts with
something that goes on. -/
lemma quiet (skips : Skips E.dialect form fronts p) {value : α} {starters : List Starter}
    (run : p.run E.dialect c = .accepted value c₁)
    (inert : fronts.all (fun kind => starters.all fun starter => !starter.first kind) = true)
    (quiet : E.Quiet starters c₁ rest) : E.Quiet starters c (form.words value ++ rest) := by
  rcases skips run with ⟨empty, rfl⟩ | ⟨word, ws, eq, mem⟩
  · rwa [empty]
  · rw [eq]
    exact .front (List.all_eq_true.mp inert _ mem)

/-- What comes after a keyword takes nothing unless the keyword is next. -/
lemma afterKeyword (form : Form α) (word : Keyword) (p : Parser α) :
    Skips E.dialect (form.after [.ofKeyword word]).maybe [.keyword word]
      (Parser.afterKeyword word p) := by
  intro c value c₁ run
  unfold Parser.afterKeyword at run
  rw [run_eatKeyword_bind] at run
  split at run
  · obtain ⟨value, c₂, -, -, done⟩ := accepted_bind run
    obtain ⟨rfl, rfl⟩ := accepted_pure done
    exact .inr ⟨_, _, rfl, by simp⟩
  · obtain ⟨rfl, rfl⟩ := accepted_pure run
    exact .inl ⟨rfl, rfl⟩

/-- What may be left out takes nothing, or has words that start with one of the fronts. -/
lemma whenever {test : View → Bool}
    (front : ∀ value, ∃ word ws, form.words value = word :: ws ∧ word.kind ∈ fronts) :
    Skips E.dialect form.maybe fronts (Parser.whenever test p) := by
  intro c value c₁ run
  unfold Parser.whenever at run
  rw [run_sees_bind] at run
  split at run
  · obtain ⟨value, c₂, -, -, done⟩ := accepted_bind run
    obtain ⟨rfl, rfl⟩ := accepted_pure done
    exact .inr (front value)
  · obtain ⟨rfl, rfl⟩ := accepted_pure run
    exact .inl ⟨rfl, rfl⟩

/-- Parts that are there are not nothing at all.

**Proof sketch.** If the loop collected a part, its words start with one of the fronts. If it
collected none, then it took no turn, since each turn adds a part (`grows`), and its last turn takes
nothing. -/
lemma many {step : Parser (Option α)} {fuel : Nat}
    (front : ∀ value, ∃ word ws, form.words value = word :: ws ∧ word.kind ∈ fronts)
    (stop : ∀ {c c₂}, step.run E.dialect c = .accepted none c₂ → c₂ = c) :
    Skips E.dialect form.flat fronts (Parser.many fuel step) := by
  intro c parts c₁ run
  obtain ⟨found, c₂, loop, -, run⟩ := accepted_bind run
  obtain ⟨rfl, rfl⟩ := accepted_pure run
  cases reversed : found.reverse with
  | cons part parts =>
    obtain ⟨word, ws, eq, mem⟩ := front part
    exact .inr ⟨word, ws ++ form.flat.words parts, by simp [Form.flat, eq], mem⟩
  | nil =>
    obtain rfl := List.reverse_eq_nil_iff.mp reversed
    obtain ⟨c₃, loops, stopped⟩ := accepted_iterate loop
    obtain ⟨next, c₄, inner, -, last⟩ := accepted_bind stopped
    obtain ⟨eq, rfl⟩ := accepted_pure last
    obtain rfl := Option.map_eq_none_iff.mp eq
    obtain rfl := stop inner
    have grows : ∀ {parts parts' : List α} {c c₁ : Cursor},
        Loops E.dialect (fun parts => do return (← step).map (· :: parts)) parts c parts' c₁ →
        (parts' = parts ∧ c₁ = c) ∨ parts' ≠ [] := by
      intro parts parts' c c₁ loops
      induction loops with
      | refl => exact .inl ⟨rfl, rfl⟩
      | step first others ih =>
        obtain ⟨next, c₃, -, -, last⟩ := accepted_bind first
        obtain ⟨eq, -⟩ := accepted_pure last
        obtain ⟨part, -, rfl⟩ := Option.map_eq_some_iff.mp eq
        rcases ih with ⟨rfl, -⟩ | more
        · exact .inr (by simp)
        · exact .inr more
    rcases grows loops with ⟨-, rfl⟩ | more
    · exact .inl ⟨rfl, rfl⟩
    · exact absurd rfl more

end Skips

end Rereading

end SqlTree
