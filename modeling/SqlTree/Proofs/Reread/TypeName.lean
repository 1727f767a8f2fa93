import SqlTree.Proofs.RawArguments
import SqlTree.Proofs.Reread.Known

set_option autoImplicit false

/-!
# Reading types again

The name of a type is written as its words were, with one blank between them, and its arguments are
written as they were. Both are cut into the tokens that they were read from.

## Main results

* `SqlTree.Rereading.typeName_again` — types.
-/

namespace SqlTree

open SqlTree.Parser SqlTree.Grammar SqlTree.Render

/-! ## Words without gaps -/

/-- A word that fixes no gap. -/
def Word.bare (word : Word) : Word :=
  { word with gap := none }

/-- What fits a word fits it without its gap. -/
lemma Word.Fits.bare {found wanted : Word} (fits : found.Fits wanted) : found.Fits wanted.bare :=
  ⟨fits.1, fits.2.1, .inl rfl⟩

/-- What spells words spells them without their gaps. -/
lemma Cursor.Spells.bare {cursor : Cursor} {words rest : List Word}
    (spells : cursor.Spells (words ++ rest)) : cursor.Spells (words.map Word.bare ++ rest) := by
  unfold Cursor.Spells at spells ⊢
  generalize wordsFrom cursor.source cursor.previous cursor.ahead = found at spells
  induction words generalizing found with
  | nil => exact spells
  | cons word words ih =>
    rw [List.cons_append] at spells
    obtain ⟨first, others, fits, later, rfl⟩ := List.forall₂_cons_right_iff.mp spells
    exact .cons fits.bare (ih _ later)

namespace Cursor

variable {drift : Bool} {cursor : Cursor}

/-- A token alone is cut as it was. -/
lemma Reachable.words_lexeme (reachable : cursor.Reachable drift) (some : cursor.ahead ≠ []) :
    (Cursor.ofSource drift cursor.current.lexeme).words =
      [⟨cursor.current.kind, cursor.current.lexeme, none⟩] := by
  obtain ⟨text, -, words, joined⟩ := reachable.words_slice (List.length_pos_iff.mpr some)
  rw [Rereading.current_words cursor some] at words joined
  rw [List.take_succ_cons, List.take_zero] at words joined
  rw [show text = cursor.current.lexeme by simpa [Word.joined] using joined] at words
  exact words

/-- The texts of the next words, with one blank between each two of them. -/
lemma toList_intercalate (first : String) (rest : List String) :
    (" ".intercalate (first :: rest)).toList =
      first.toList ++ rest.flatMap fun text => ' ' :: text.toList := by
  rw [String.toList_intercalate]
  induction rest generalizing first with
  | nil => simp
  | cons second rest ih =>
    have := ih second
    simp only [List.map_cons] at this ⊢
    rw [List.intercalate_cons_cons, this]
    simp

/-- **Words with one blank between them** are cut as they were.

**Proof sketch.** The tokens that are seen are taken with one blank before each but the first. A
blank is a gap that keeps tokens apart, so they are cut as they were (`Lexes.respace`), and their
words are the same but for the gaps. The text of these tokens is that of their lexemes with one
blank between them. -/
lemma Reachable.words_intercalate (reachable : cursor.Reachable drift) (count : Nat) :
    (Cursor.ofSource drift
        (" ".intercalate ((cursor.words.take count).map Word.lexeme))).words.map Word.bare =
      (cursor.words.take count).map Word.bare := by
  have empty : (Cursor.ofSource drift (" ".intercalate [])).words.map Word.bare = [] := by
    rw [words_source _ (.ends .nil)]
    rfl
  obtain ⟨before, chars, position, list, sees⟩ := reachable.sees
  rw [sees.words]
  cases list with
  | nil => simpa [Lexed.words] using empty
  | cons first list =>
    cases count with
    | zero => simpa using empty
    | succ count =>
      have lexes := sees.lexes.respace rfl { first with gap := [] }
        ((list.take count).map fun lexed => { lexed with gap := [' '] }) rfl rfl .nil (by
          rw [List.length_map, List.length_take, ← List.take_eq_take_min,
            List.forall₂_map_right_iff, List.forall₂_same]
          exact fun lexed _ => ⟨rfl, rfl, .blank (by decide) .nil, .inr ⟨' ', rfl, by decide⟩⟩)
      have texts : ((Lexed.words (first :: list)).take (count + 1)).map Word.lexeme =
          String.ofList first.chars ::
            (list.take count).map fun lexed => String.ofList lexed.chars := by
        simp [Lexed.words, Lexed.word, ← List.map_take, Function.comp_def]
      have text : (" ".intercalate (((Lexed.words (first :: list)).take (count + 1)).map
          Word.lexeme)).toList = Lexed.spelling ({ first with gap := [] } ::
            (list.take count).map fun lexed => { lexed with gap := [' '] }) := by
        rw [texts, toList_intercalate]
        generalize list.take count = others
        simp [Lexed.spelling, List.flatMap_map]
      rw [words_source _ (text ▸ lexes)]
      simp [Lexed.words, Lexed.word, Word.bare, ← List.map_take, Function.comp_def]

end Cursor

/-- A word of a type. -/
def Form.typeWord (drift : Bool) : Form String :=
  ⟨fun lexeme => (Cursor.ofSource drift lexeme).words.map Word.bare, fun _ => [], id⟩

/-- Text that is kept as it was. -/
def Form.verbatim (drift : Bool) : Form String :=
  ⟨fun text => (Cursor.ofSource drift text).words, fun _ => [], id⟩

/-- The arguments of a type or of a virtual table, if there are any. -/
def Form.rawArguments (drift : Bool) : Form (List String) where
  words arguments := if arguments.isEmpty then [] else
    (verbatim drift).commas.parens.words arguments
  nodes _ := []
  bare := id

namespace Rereading

variable {E : Rereading} {n : Nat} {c c' c₁ : Cursor} {rest : List Word}

/-! ## The words of a type -/

/-- Whether a word of a type is next depends on the next two kinds. -/
lemma atTypeWord_eq (cursor : Cursor) :
    atTypeWord cursor.view = typeWordAt (cursor.peek 0).kind (cursor.peek 1).kind := by
  unfold atTypeWord typeWordAt
  rw [show cursor.view.current = cursor.peek 0 from rfl,
    show cursor.view.second = cursor.peek 1 from rfl]
  simp only [Token.isKeyword_eq]
  rfl

/-- The words that make a word of a type the start of a constraint. -/
def typeWordEnd : List Starter :=
  [.keyword .ALWAYS, .keyword .BY, .keyword .KEY]

/-- Where the words of a type may end: if they ended there in the first source. -/
structure EndsWords (E : Rereading) (cursor : Cursor) (rest : List Word) : Prop where
  quiet : E.Quiet typeWordEnd cursor rest
  word : atTypeWord cursor.view = false →
    typeWordAt (Word.kindAt (E.plan cursor rest) 0) (Word.kindAt (E.plan cursor rest) 1) = false

/-- No word that is next in the first source goes on there more than in the second. -/
lemma Quiet.same {starters : List Starter} {word : Word} (kind : word.kind = c.current.kind)
    (single :
      starters.all (fun starter => starter.second .endOfInput && starter != .operator) = true) :
    E.Quiet starters c (word :: rest) := by
  refine .of_written fun _ starter mem => ?_
  have single := List.all_eq_true.mp single starter mem
  rw [Bool.and_eq_true, bne_iff_ne] at single
  change starter.Carries word.kind _ c.current.kind _
  rw [kind]
  exact Starter.carries_of_second single.2 single.1

/-- A word of a type stays one if the token after it does not make it the start of a constraint. -/
lemma typeWordAt_of {first second second' : TokenKind} (at_ : typeWordAt first second = true)
    (apart : ∀ word ∈ [Keyword.ALWAYS, .BY, .KEY], second' = .keyword word →
      second = .keyword word) : typeWordAt first second' = true := by
  have same : ∀ word ∈ [Keyword.ALWAYS, .BY, .KEY], second.isKeyword word = false →
      second'.isKeyword word = false := by
    intro word mem not
    rw [← Bool.not_eq_true, TokenKind.isKeyword_iff] at not ⊢
    exact fun is => not (apart word mem is)
  unfold typeWordAt at at_ ⊢
  split at at_
  · simpa using same .ALWAYS (by simp) (by simpa using at_)
  · simpa using same .BY (by simp) (by simpa using at_)
  · simpa using same .KEY (by simp) (by simpa using at_)
  · exact at_

/-- A word of a type was taken exactly if one was next. -/
lemma accepted_typeWord {next : Option String}
    (run : (whenever atTypeWord do return (← advance).lexeme).run E.dialect c =
      .accepted next c₁) :
    (next = none ∧ c₁ = c ∧ atTypeWord c.view = false) ∨
      (next = some c.current.lexeme ∧ c₁ = c.advance ∧ atTypeWord c.view = true ∧
        c.current.kind.isMalformed = false) := by
  unfold whenever at run
  rw [run_sees_bind] at run
  split at run
  · next at_ =>
    obtain ⟨lexeme, c₂, inner, -, run⟩ := accepted_bind run
    obtain ⟨rfl, rfl⟩ := accepted_pure run
    obtain ⟨sound, -, inner⟩ := accepted_advance inner
    obtain ⟨rfl, rfl⟩ := accepted_pure inner
    exact .inr ⟨rfl, rfl, at_, sound⟩
  · next not =>
    obtain ⟨rfl, rfl⟩ := accepted_pure run
    exact .inl ⟨rfl, rfl, by simpa using not⟩

/-- A word of a type is one word. -/
lemma typeWord_words (reached : c.Reachable E.drift) (at_ : atTypeWord c.view = true) :
    c.current.kind ≠ .endOfInput ∧ (Form.typeWord E.drift).words c.current.lexeme =
      [⟨c.current.kind, c.current.lexeme, none⟩] := by
  have kind : c.current.kind ≠ .endOfInput := by
    intro isEnd
    rw [atTypeWord_eq, show (c.peek 0).kind = .endOfInput from isEnd] at at_
    exact absurd at_ Bool.false_ne_true
  refine ⟨kind, ?_⟩
  change (Cursor.words _).map _ = _
  rw [reached.words_lexeme (ahead_of_kind reached kind)]
  rfl

/-- The words of a type are read again.

**Proof sketch.** By the lemma about repetitions (`Reruns.many`). In each turn that took a word, one
was next, and it is next again with the same text. In the last turn no word of a type was next, and
none is next again, as the end of the words says. -/
lemma typeWords_again {fuel fuel' : Nat} (enough : n ≤ fuel') {words : List String}
    (run : (many fuel (whenever atTypeWord do return (← advance).lexeme)).run E.dialect c =
      .accepted words c₁)
    (follows : E.Follows n c c' ((Form.typeWord E.drift).flat.words words ++ rest))
    (keeps : E.mode.left ≤ c₁.ahead.length) (ends : E.EndsWords c₁ rest) :
    Accepts E.dialect (many fuel' (whenever atTypeWord do return (← advance).lexeme)) c'
      fun words' c₁' => E.Follows n c₁ c₁' rest ∧ words' = words := by
  have again := (Reruns.many (Form.typeWord E.drift) E.EndsWords
    (whenever atTypeWord do return (← advance).lexeme) enough ?_ ?_ run follows.reached (by
      rw [show (Form.typeWord E.drift).flat.nodes words = [] from
        List.flatMap_eq_nil_iff.mpr fun _ _ => rfl]
      exact safe_nil)).2 follows keeps ends
  · refine again.mono fun words' c₁' ⟨follows, same⟩ => ⟨follows, ?_⟩
    simpa [Form.flat, Form.typeWord] using same
  · intro c part c₂ run reached
    obtain ⟨none, -, -⟩ | ⟨eq, rfl, at_, sound⟩ := accepted_typeWord run
    · exact absurd none (by simp)
    obtain rfl := Option.some.inj eq
    obtain ⟨kind, words⟩ := typeWord_words reached at_
    rw [words]
    refine ⟨fun rest => ⟨.same rfl (by decide), fun not => ?_⟩,
      fun {c' rest} follows keeps _ ends => ?_⟩
    · rw [at_] at not
      exact absurd not (by decide)
    · obtain ⟨kind', next, shorter⟩ := follows.same rfl kind keeps
      obtain ⟨-, -, seen⟩ := follows.take (ahead_of_kind reached kind) keeps
      have lexeme : c'.current.lexeme = c.current.lexeme := by
        rcases seen with ⟨-, -, same⟩ | ⟨-, -, same⟩ <;> exact same
      have at' : atTypeWord c'.view = true := by
        rw [atTypeWord_eq] at at_ ⊢
        rw [show (c'.peek 0).kind = (c.peek 0).kind from kind']
        refine typeWordAt_of at_ fun word mem is => ?_
        rw [← Cursor.peek_advance] at is ⊢
        by_contra not
        refine ends.quiet.not_keyword next ?_ (fun at_ => not (kind_of_atKeyword at_))
          (atKeyword_of_kind is)
        simp only [List.mem_cons, List.not_mem_nil, or_false] at mem
        rcases mem with rfl | rfl | rfl <;> rfl
      have sound' : c'.current.kind.isMalformed = false := by rwa [kind']
      unfold whenever
      refine Accepts.congr ?_ (run_sees_bind ..)
      rw [if_pos at']
      refine ⟨some c'.current.lexeme, c'.advance, ?_, shorter, _, rfl, lexeme, next⟩
      rw [run_bind, run_advance_bind sound']
      rfl
  · intro c c₂ run
    obtain ⟨-, rfl, not⟩ | ⟨eq, -, -⟩ := accepted_typeWord run
    · refine ⟨rfl, fun {c' rest} follows keeps ends => ?_⟩
      have not' : ¬ atTypeWord c'.view = true := by
        rw [atTypeWord_eq, follows.peek, follows.peek, ends.word not]
        exact Bool.false_ne_true
      unfold whenever
      refine Accepts.congr ?_ (run_sees_bind ..)
      rw [if_neg not']
      exact .of_pure ⟨rfl, follows⟩
    · exact absurd eq (by simp)

/-! ## Raw arguments -/

/-- In a copy the words after the next token are those of the first source, up to the end of the
copy. -/
lemma Follows.spelled_copy {left : Nat} (follows : E.Follows n c c' rest)
    (copy : E.mode = .copy left) (some : c.ahead ≠ []) (keeps : left ≤ c.advance.ahead.length) :
    c'.advance.Spells (c.advance.spelled.take (c.advance.ahead.length - left)) := by
  have spells := follows.spells
  unfold plan at spells
  rw [copy] at spells
  have size : c.ahead.length - left = c.advance.ahead.length - left + 1 := by
    have := List.length_pos_iff.mpr some
    simp only [Cursor.advance_ahead, List.length_tail] at keeps ⊢
    omega
  dsimp only at spells
  rw [current_words c some, size, List.take_succ_cons] at spells
  have after := spells.advance
  unfold Cursor.spelled
  rwa [Cursor.advance_source, Cursor.advance_previous some, Cursor.advance_ahead] at *

/-- Arguments between parentheses are split where they were put together. -/
lemma splitArguments_commas {drift : Bool} {arguments : List String} (nonempty : arguments ≠ [])
    (closed : ∀ argument ∈ arguments,
      depthAfter 0 (((Form.verbatim drift).words argument).map Word.kind) = some 0) :
    splitArguments [] 0 ((Form.verbatim drift).commas.words arguments ++
        .ofSymbol .rightParen :: rest) =
      some (arguments.map (Form.verbatim drift).words, rest) := by
  induction arguments with
  | nil => exact absurd rfl nonempty
  | cons first others ih =>
    simp only [List.mem_cons, forall_eq_or_imp] at closed
    cases others with
    | nil =>
      rw [show (Form.verbatim drift).commas.words [first] = (Form.verbatim drift).words first from
        List.append_nil _, splitArguments_append closed.1, splitArguments_close rfl]
      rfl
    | cons second others =>
      rw [Form.commas_cons _ _ (by simp), List.append_assoc, splitArguments_append closed.1,
        List.cons_append, splitArguments_comma rfl, ih (by simp) closed.2]
      rfl

/-- Where no parenthesis is next, there are no arguments. -/
lemma noArguments_again {fuel' : Nat} (follows : E.Follows n c c' rest)
    (ends : (Word.kindAt (E.plan c rest) 0).isSymbol .leftParen = false) :
    Accepts E.dialect (whenever (·.atSymbol .leftParen) (rawArguments fuel')) c'
      fun value' c₁' => E.Follows n c c₁' rest ∧ value'.getD [] = [] := by
  unfold whenever
  refine Accepts.congr ?_ (run_sees_bind ..)
  rw [if_neg]
  · exact .of_pure ⟨follows, rfl⟩
  · intro at'
    rw [← follows.peek, ← Bool.not_eq_true, TokenKind.isSymbol_iff] at ends
    exact ends (kind_of_atSymbol at')

/-- Wherever words are spelled that are split into arguments, the arguments are read. -/
lemma spelledArguments_again {fuel' : Nat} {words after others : List Word}
    {parts : List (List Word)} (enough : n ≤ fuel') (follows : E.Follows n c c' others)
    (reached : c₁.Reachable E.drift) (open' : c'.view.atSymbol .leftParen = true)
    (spells : c'.advance.Spells words) (split : splitArguments [] 0 words = some (parts, after))
    (fixed : ∀ argument ∈ parts, ∀ word ∈ argument.tail, word.gap ≠ none)
    (planned : ∀ {c₁' : Cursor}, c₁'.Spells after → c₁'.Spells (E.plan c₁ rest)) :
    Accepts E.dialect (whenever (·.atSymbol .leftParen) (rawArguments fuel')) c'
      fun value' c₁' => E.Follows n c₁ c₁' rest ∧ value'.getD [] = argumentTexts parts := by
  have short := follows.short
  obtain ⟨value', c₁', run', rfl, spells'⟩ := @rawArguments_spells E.dialect _ _ fuel' _ _ _
    follows.reached' (by omega) open' spells split fixed
  refine ⟨some (argumentTexts parts), c₁', ?_, ?_, rfl⟩
  · unfold whenever
    rw [run_sees_bind, if_pos open', run_bind, run']
    rfl
  · exact ⟨reached, accepted_reachable run' follows.reached',
      Nat.lt_of_le_of_lt (accepted_length run') short, planned spells'⟩

/-- In a copy the arguments are those of the first source. -/
lemma copiedArguments_again {fuel' left : Nat} {parts : List (List Word)} (enough : n ≤ fuel')
    (copy : E.mode = .copy left) (follows : E.Follows n c c' rest)
    (open_ : c.view.atSymbol .leftParen = true) (reached : c₁.Reachable E.drift)
    (split : splitArguments [] 0 c.advance.spelled = some (parts, c₁.spelled))
    (keeps : left ≤ c₁.ahead.length) :
    Accepts E.dialect (whenever (·.atSymbol .leftParen) (rawArguments fuel')) c'
      fun value' c₁' => E.Follows n c₁ c₁' rest ∧ value'.getD [] = argumentTexts parts := by
  obtain ⟨⟨taken, eq, same⟩, -⟩ := splitArguments_local split rfl
  have ahead := ahead_of_atSymbol follows.reached open_
  have size : c.advance.ahead.length = taken.length + c₁.ahead.length := by
    simpa using congrArg List.length eq
  have keeps₁ : left ≤ c.advance.ahead.length := by omega
  obtain ⟨kind, -, -, -⟩ := follows.copied (by simp [copy]) rest ahead (by rwa [copy])
  have split' : splitArguments [] 0
      (c.advance.spelled.take (c.advance.ahead.length - left)) =
        some (parts, c₁.spelled.take (c₁.ahead.length - left)) := by
    rw [eq, List.take_append, List.take_of_length_le (by omega),
      show c.advance.ahead.length - left - taken.length = c₁.ahead.length - left by omega]
    exact same _
  refine spelledArguments_again enough follows reached
    (atSymbol_of_kind (kind.trans (kind_of_atSymbol open_)))
    (follows.spelled_copy copy ahead keeps₁) split' ?_ ?_
  · refine splitArguments_fixed split ?_
    have fixed := follows.reached.advance.gap_ne_none
    rwa [← Cursor.front_spelled, Word.tail_front] at fixed
  · intro c₁' spells'
    unfold plan
    rw [copy]
    exact spells_words rfl rfl spells'

/-- What is known of an argument that has been read: it is the text of its words. -/
lemma argument_words {parts : List (List Word)}
    (slices : ∀ part ∈ parts, (Cursor.ofSource E.drift (Word.joined part)).words = Word.front part)
    {argument : String} (mem : argument ∈ argumentTexts parts) :
    argument.isEmpty = false ∧ ∃ part ∈ parts, argument = Word.joined part ∧
      (Form.verbatim E.drift).words argument = Word.front part := by
  obtain ⟨mem, nonempty⟩ := List.mem_filter.mp mem
  obtain ⟨part, inside, rfl⟩ := List.mem_map.mp mem
  exact ⟨by simpa using nonempty, part, inside, rfl, slices part inside⟩

/-- The texts of arguments are those of the words that they are written as. -/
lemma argumentTexts_words {parts : List (List Word)}
    (slices : ∀ part ∈ parts, (Cursor.ofSource E.drift (Word.joined part)).words =
      Word.front part) :
    argumentTexts ((argumentTexts parts).map (Form.verbatim E.drift).words) =
      argumentTexts parts := by
  have texts : (argumentTexts parts).map (Word.joined ∘ (Form.verbatim E.drift).words) =
      argumentTexts parts := by
    refine (List.map_congr_left fun argument mem => ?_).trans (List.map_id _)
    obtain ⟨-, part, -, rfl, front⟩ := argument_words slices mem
    rw [Function.comp_apply, front, Word.joined_front]
    rfl
  conv_lhs => rw [argumentTexts]
  rw [List.map_map, texts, List.filter_eq_self]
  intro argument mem
  simpa using (argument_words slices mem).1

/-- In written text the arguments are those that are not empty. -/
lemma writtenArguments_again {fuel' : Nat} {parts : List (List Word)} (enough : n ≤ fuel')
    (written : E.mode = .written) (some : argumentTexts parts ≠ [])
    (follows : E.Follows n c c' ((Form.rawArguments E.drift).words (argumentTexts parts) ++ rest))
    (open_ : c.view.atSymbol .leftParen = true) (reached : c₁.Reachable E.drift)
    (slices : ∀ part ∈ parts, (Cursor.ofSource E.drift (Word.joined part)).words = Word.front part)
    (closed : ∀ part ∈ parts, depthAfter 0 (part.map Word.kind) = .some 0) :
    Accepts E.dialect (whenever (·.atSymbol .leftParen) (rawArguments fuel')) c'
      fun value' c₁' => E.Follows n c₁ c₁' rest ∧ value'.getD [] = argumentTexts parts := by
  have form : (Form.rawArguments E.drift).words (argumentTexts parts) ++ rest =
      .ofSymbol .leftParen :: ((Form.verbatim E.drift).commas.words (argumentTexts parts) ++
        .ofSymbol .rightParen :: rest) := by
    unfold Form.rawArguments
    simp [some, Form.parens]
  rw [form] at follows
  obtain ⟨open', next, -⟩ := follows.symbol open_ (by rw [written]; exact Nat.zero_le _)
  have spells := next.spells
  rw [plan_written written] at spells
  rw [← argumentTexts_words slices]
  refine spelledArguments_again enough follows reached open' spells
    (splitArguments_commas some ?_) ?_ ?_
  · intro argument mem
    obtain ⟨-, part, mem, -, front⟩ := argument_words slices mem
    rw [front]
    have kinds : (Word.front part).map Word.kind = part.map Word.kind := by
      cases part <;> rfl
    rw [kinds]
    exact closed part mem
  · intro _ mem
    obtain ⟨argument, -, rfl⟩ := List.mem_map.mp mem
    exact Cursor.Reachable.gap_ne_none ⟨0, rfl⟩
  · intro c₁' spells'
    rwa [plan_written written]

/-- The arguments of a type or of a virtual table are read again. -/
lemma optionalArguments_again {fuel fuel' : Nat} (enough : n ≤ fuel') {value : Option (List String)}
    (run : (whenever (·.atSymbol .leftParen) (rawArguments fuel)).run E.dialect c =
      .accepted value c₁)
    (follows : E.Follows n c c' ((Form.rawArguments E.drift).words (value.getD []) ++ rest))
    (keeps : E.mode.left ≤ c₁.ahead.length)
    (ends : (Word.kindAt (E.plan c₁ rest) 0).isSymbol .leftParen = false) :
    Accepts E.dialect (whenever (·.atSymbol .leftParen) (rawArguments fuel')) c'
      fun value' c₁' => E.Follows n c₁ c₁' rest ∧ value'.getD [] = value.getD [] := by
  have reached₁ := accepted_reachable run follows.reached
  unfold whenever at run
  rw [run_sees_bind] at run
  split at run
  · next open_ =>
    obtain ⟨arguments, c₂, inner, -, run⟩ := accepted_bind run
    obtain ⟨rfl, rfl⟩ := accepted_pure run
    obtain ⟨-, parts, split, rfl, slices⟩ := accepted_rawArguments follows.reached inner
    cases mode : E.mode with
    | copy left =>
      rw [mode] at keeps
      exact copiedArguments_again enough mode (follows.of_copy (by simp [mode]) rest) open_ reached₁
        split keeps
    | written =>
      have follows : E.Follows n c c' ((Form.rawArguments E.drift).words (argumentTexts parts) ++
        rest) := follows
      rw [Option.getD_some]
      by_cases empty : argumentTexts parts = []
      · rw [empty] at follows ⊢
        exact noArguments_again (follows.of_written mode reached₁) ends
      · exact writtenArguments_again enough mode empty follows open_ reached₁ slices
          (splitArguments_local split rfl).2
  · next not =>
    obtain ⟨rfl, rfl⟩ := accepted_pure run
    exact noArguments_again follows ends

/-! ## Types -/

/-- The next word, and those after it. -/
lemma take_words (some : c.ahead ≠ []) (count : Nat) :
    (c.words.take (count + 1)).map Word.lexeme =
        c.current.lexeme :: (c.advance.words.take count).map Word.lexeme ∧
      (c.words.take (count + 1)).map Word.bare =
        ⟨c.current.kind, c.current.lexeme, none⟩ :: (c.advance.words.take count).map Word.bare := by
  have later : wordsFrom c.source c.current c.ahead.tail = c.advance.spelled := by
    unfold Cursor.spelled
    rw [Cursor.advance_source, Cursor.advance_previous some, Cursor.advance_ahead]
  rw [current_words c some, later, ← Cursor.front_spelled c.advance]
  cases c.advance.spelled <;> cases count <;> exact ⟨rfl, rfl⟩

/-- The words of a type are the next words.

**Proof sketch.** By induction on the turns of the loop: each turn takes the next word, whose text
is the lexeme of the token, so the words found so far are those taken so far. -/
lemma typeWords_taken {fuel : Nat} {words : List String} (reached : c.Reachable E.drift)
    (run : (many fuel (whenever atTypeWord do return (← advance).lexeme)).run E.dialect c =
      .accepted words c₁) :
    ∃ count, words = (c.words.take count).map Word.lexeme ∧
      (Form.typeWord E.drift).flat.words words = (c.words.take count).map Word.bare := by
  have steps : ∀ {found found' : List String} {c c₁ : Cursor},
      Loops E.dialect (fun words => do
        return (← whenever atTypeWord do return (← advance).lexeme).map (· :: words))
        found c found' c₁ → c.Reachable E.drift →
      ∃ count, found'.reverse = found.reverse ++ (c.words.take count).map Word.lexeme ∧
        (Form.typeWord E.drift).flat.words found'.reverse =
          (Form.typeWord E.drift).flat.words found.reverse ++
            (c.words.take count).map Word.bare := by
    intro found found' c c₁ loops
    induction loops with
    | refl => exact fun _ => ⟨0, by simp⟩
    | step first _ ih =>
      intro reached
      obtain ⟨next, c₃, inner, -, last⟩ := accepted_bind first
      obtain ⟨eq, rfl⟩ := accepted_pure last
      obtain ⟨word, rfl, rfl⟩ := Option.map_eq_some_iff.mp eq
      obtain ⟨none, -, -⟩ | ⟨eq, rfl, at_, -⟩ := accepted_typeWord inner
      · exact absurd none (by simp)
      obtain rfl := Option.some.inj eq
      obtain ⟨kind, own⟩ := typeWord_words reached at_
      obtain ⟨count, one, two⟩ := ih reached.advance
      obtain ⟨lexemes, bares⟩ := take_words (ahead_of_kind reached kind) count
      refine ⟨count + 1, ?_, ?_⟩
      · rw [one, lexemes, List.reverse_cons, List.append_assoc]
        rfl
      · rw [two, bares, List.reverse_cons]
        simp [Form.flat, own]
  obtain ⟨found, c₂, loop, -, run⟩ := accepted_bind run
  obtain ⟨rfl, rfl⟩ := accepted_pure run
  obtain ⟨c₃, loops, -⟩ := accepted_iterate loop
  simpa [Form.flat] using steps loops reached

/-- The name of a type is written as the words of the type. -/
lemma Follows.typeWords {words : List String} {fuel : Nat}
    (run : (many fuel (whenever atTypeWord do return (← advance).lexeme)).run E.dialect c =
      .accepted words c₁)
    (follows : E.Follows n c c' ((Form.verbatim E.drift).words (" ".intercalate words) ++ rest)) :
    E.Follows n c c' ((Form.typeWord E.drift).flat.words words ++ rest) := by
  obtain ⟨reached, reached', short, spells⟩ := follows
  refine ⟨reached, reached', short, ?_⟩
  cases mode : E.mode with
  | copy left =>
    unfold plan at spells ⊢
    rw [mode] at spells ⊢
    exact spells
  | written =>
    rw [plan_written mode] at spells ⊢
    obtain ⟨count, rfl, flat⟩ := typeWords_taken reached run
    rw [flat, ← reached.words_intercalate count]
    exact spells.bare

/-- **Types are read again.**

**Proof sketch.** The words of a type are those of its name and, in parentheses, of its arguments.
After the name a parenthesis is next in a written text, or what follows the type, and neither goes
on with the words of the name. So these are read again (`typeWords_again`), and then the arguments
(`optionalArguments_again`). -/
lemma typeName_again {fuel fuel' : Nat} (enough : n ≤ fuel') :
    E.Reruns n (.typeName E.drift) E.EndsType (typeName fuel) (typeName fuel') := by
  intro c c' value c₁ rest run follows keeps _ ends
  unfold typeName at run
  rw [run_here_bind] at run
  obtain ⟨words, c₂, run₁, le₁, run⟩ := accepted_bind run
  split at run
  · exact absurd run not_accepted_unexpected
  next some =>
  obtain ⟨arguments, c₃, run₂, le₂, run⟩ := accepted_bind run
  obtain ⟨rfl, rfl⟩ := accepted_return run
  have written : ∀ arguments : List String, (Form.typeName E.drift).words
      ⟨" ".intercalate words, arguments, (c₃.spanFrom c.current.span)⟩ ++ rest =
        (Form.verbatim E.drift).words (" ".intercalate words) ++
          ((Form.rawArguments E.drift).words arguments ++ rest) := by
    intro arguments
    have commas := Form.wordsOf_commas E.drift (Form.verbatim E.drift)
      (fun argument => [.verbatim argument]) (fun argument => (List.append_nil _).symm) arguments
    cases arguments with
    | nil => simp [Form.typeName, TypeName.pieces, Form.rawArguments, Form.verbatim]
    | cons first others =>
      simp only [Form.typeName, Form.ofPieces_words, TypeName.pieces, Render.wordsOf_verbatim,
        List.isEmpty_cons, Bool.false_eq_true, if_false, Render.parens, List.cons_append,
        Render.wordsOf_symbol, Render.wordsOf_append, commas, Form.rawArguments, Form.parens,
        List.append_assoc]
      rfl
  rw [written] at follows
  have endsWords : E.EndsWords c₂
      ((Form.rawArguments E.drift).words (arguments.getD []) ++ rest) := by
    -- in written text either a parenthesis is next, or what follows the type
    have next : E.mode = .written →
        Word.kindAt ((Form.rawArguments E.drift).words (arguments.getD []) ++ rest) 0 =
            .symbol .leftParen ∨
          (Form.rawArguments E.drift).words (arguments.getD []) ++ rest = rest := by
      intro _
      cases arguments.getD [] with
      | nil => exact .inr rfl
      | cons first others => exact .inl rfl
    refine ⟨.of_written fun written starter mem => ?_, fun not => ?_⟩
    · rcases next written with paren | eq
      · rw [paren]
        refine Starter.carries_of_first ?_
        simp only [typeWordEnd, List.mem_cons, List.not_mem_nil, or_false] at mem
        rcases mem with rfl | rfl | rfl <;> rfl
      · rw [eq]
        have word := ends.word
        rw [plan_written written] at word
        refine Starter.carries_of_first ?_
        simp only [typeWordEnd, List.mem_cons, List.not_mem_nil, or_false] at mem
        rw [← Bool.not_eq_true]
        intro passes
        rcases mem with rfl | rfl | rfl
        all_goals
          rw [TokenKind.isKeyword_iff.mp passes] at word
          exact absurd word (by simp [typeWordAt, TokenKind.isIdentifierLike,
            Keyword.canBeIdentifier])
    · unfold whenever at run₂
      rw [run_sees_bind] at run₂
      split at run₂
      · next open_ =>
        have kind : (c₂.peek 0).kind = .symbol .leftParen := kind_of_atSymbol open_
        cases mode : E.mode with
        | written =>
          have word := ends.word
          rw [plan_written mode] at word ⊢
          rcases next mode with paren | eq
          · rw [paren]
            rfl
          · rwa [eq]
        | copy left =>
          rw [kindAt_plan_copy mode, kind]
          split <;> rfl
      · obtain ⟨rfl, rfl⟩ := accepted_pure run₂
        exact ends.word
  unfold typeName
  refine Accepts.congr ?_ (run_here_bind ..)
  obtain ⟨_, c₂', run₁', next, rfl⟩ :=
    typeWords_again enough run₁ (follows.typeWords run₁)
      (Nat.le_trans keeps (accepted_length run₂)) endsWords
  refine accepts_of_run run₁' ?_
  rw [if_neg some]
  obtain ⟨arguments', c₃', run₂', follows, same⟩ :=
    optionalArguments_again enough run₂ next keeps ends.arguments
  refine accepts_of_run run₂' ?_
  exact .of_return ⟨follows, by simp [Form.typeName, TypeName.unplaced, same]⟩

end Rereading

end SqlTree
