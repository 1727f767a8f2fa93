import Mathlib.Data.List.Chain
import SqlTree.Proofs.Careful.Source
import SqlTree.Proofs.Gates

set_option autoImplicit false

/-!
# The drift extensions on plain sources

The drift extensions cut text into other tokens only at backticks and at two adjacent asterisks, and
parsers ask for them only at Dart placeholders, and before queries whose rows become a list, where
nothing is accepted without them. So a source without such tokens that a dialect accepts without the
drift extensions has the same tree with them.

## Main definitions

* `SqlTree.IsPlain` — tokens that mean the same with and without the drift extensions.
* `SqlTree.Dialect.Extends` — a dialect reads the drift extensions besides what another one reads.

## Main results

* `SqlTree.IsPlain.tokenize_eq` — plain tokens are cut in the same way with the drift extensions.
* `SqlTree.Parser.Orderly.accepted_extends` — an orderly run on plain tokens goes on alike.
* `SqlTree.Entry.parse_of_isPlain` — the drift extensions change no tree of a plain source.
-/

namespace SqlTree

/-! ## Plain tokens -/

/-- Tokens that mean the same with and without the drift extensions: no Dart placeholder, no
backticks, and no two adjacent asterisks. -/
structure IsPlain (tokens : List Token) : Prop where
  placeholders : ∀ token ∈ tokens, ∀ name, token.kind ≠ .variable (.named .dollar name)
  backticks : ∀ token ∈ tokens, token.lexeme.toList.head? ≠ some '\x60'
  asterisks : tokens.IsChain fun token next => ¬ (token.kind = .symbol .star ∧
    next.kind = .symbol .star ∧ token.span.stop = next.span.start)

/-- Tokens after the first of plain ones are plain. -/
lemma IsPlain.tail {token : Token} {tokens : List Token} (plain : IsPlain (token :: tokens)) :
    IsPlain tokens where
  placeholders other mem := plain.placeholders other (List.mem_cons_of_mem token mem)
  backticks other mem := plain.backticks other (List.mem_cons_of_mem token mem)
  asterisks := plain.asterisks.tail

/-! ## Cutting plain text -/

/-- Apart from text between backticks and from two asterisks, one token is cut in the same way. -/
lemma scanToken_drift {first : Char} {rest : List Char} (noBacktick : first ≠ '\x60')
    (noDouble : first = '*' → rest.head? ≠ some '*') :
    scanToken true first rest = scanToken false first rest := by
  unfold scanToken
  dsimp only
  split <;> simp_all

/-- An asterisk is a symbol of its own without the drift extensions. -/
lemma scanToken_plain_star (rest : List Char) : scanToken false '*' rest = ⟨.symbol .star, 0⟩ := by
  unfold scanToken
  dsimp only
  split <;> simp_all

namespace Scanner

variable {drift : Bool} {position : Position} {first : Char} {rest chars : List Char}

/-- The tokens from a place on start with the next one. -/
lemma tokensWithin_succ (scanner : Scanner) (fuel : Nat) :
    (scanner.tokensWithin (fuel + 1)).1 = scanner.next.1 ::
      if scanner.next.1.isEnd then [] else (scanner.next.2.tokensWithin fuel).1 := by
  rw [tokensWithin]
  dsimp only
  split <;> rfl

/-- The next token, when a character follows the gap. -/
lemma next_of_drop (after : chars.drop (gapLength chars) = first :: rest) :
    (Scanner.mk drift position chars).next =
      let start := position.advance (chars.take (gapLength chars))
      let text := first :: rest.take (scanToken drift first rest).tail
      (⟨(scanToken drift first rest).kind, String.ofList text,
          .between start (start.advance text)⟩,
        ⟨drift, start.advance text, rest.drop (scanToken drift first rest).tail⟩) := by
  unfold next
  dsimp only
  rw [after]

/-- The next token, when an asterisk is next and the drift extensions are not read. -/
lemma next_star (position : Position) (rest : List Char) :
    (Scanner.mk false position ('*' :: rest)).next =
      (⟨.symbol .star, "*", .between position (position.advance ['*'])⟩,
        ⟨false, position.advance ['*'], rest⟩) := by
  have gap : gapLength ('*' :: rest) = 0 := by
    rw [gapLength]
    · rfl
    all_goals simp
  have after : ('*' :: rest).drop (gapLength ('*' :: rest)) = '*' :: rest := by
    rw [gap]
    rfl
  rw [next_of_drop after, scanToken_plain_star, gap]
  rfl

/-- No token of plain text is cut in another way with the drift extensions. -/
lemma scanToken_of_isPlain {fuel : Nat} (enough : chars.length ≤ fuel)
    (after : chars.drop (gapLength chars) = first :: rest)
    (plain : IsPlain ((Scanner.mk false position chars).tokensWithin (fuel + 1)).1) :
    scanToken true first rest = scanToken false first rest := by
  rw [tokensWithin_succ, next_of_drop after] at plain
  refine scanToken_drift ?_ ?_
  · rintro rfl
    exact plain.backticks _ List.mem_cons_self (by simp)
  · rintro rfl second
    obtain ⟨more, rfl⟩ : ∃ more, rest = '*' :: more := by
      cases rest <;> simp_all
    -- two asterisks are two tokens, and nothing is between them
    obtain ⟨less, rfl⟩ : ∃ less, fuel = less + 1 := by
      have := congrArg List.length after
      simp only [List.length_drop, List.length_cons] at this
      exact ⟨fuel - 1, by omega⟩
    have adjacent := plain.asterisks
    simp only [scanToken_plain_star, Token.isEnd, List.take_zero, List.drop_zero,
      Bool.false_eq_true, if_false, tokensWithin_succ, next_star] at adjacent
    exact (List.isChain_cons_cons.mp adjacent).1 ⟨rfl, rfl, rfl⟩

/-- Where the tokens are plain, they are the same with the drift extensions. -/
lemma tokensWithin_of_isPlain {fuel : Nat} (enough : chars.length < fuel)
    (plain : IsPlain ((Scanner.mk false position chars).tokensWithin fuel).1) :
    ((Scanner.mk true position chars).tokensWithin fuel).1 =
      ((Scanner.mk false position chars).tokensWithin fuel).1 := by
  induction fuel generalizing position chars with
  | zero => rfl
  | succ fuel ih =>
    cases after : chars.drop (gapLength chars) with
    | nil =>
      rw [tokensWithin_succ, tokensWithin_succ]
      simp only [next, after]
      rfl
    | cons first rest =>
      have same := scanToken_of_isPlain (Nat.le_of_lt_succ enough) after plain
      rw [tokensWithin_succ, next_of_drop after] at plain
      rw [tokensWithin_succ, tokensWithin_succ, next_of_drop after, next_of_drop after, same]
      dsimp only at plain ⊢
      split
      · rfl
      · next notEnd =>
        rw [if_neg notEnd] at plain
        rw [ih ?_ plain.tail]
        have := congrArg List.length after
        simp only [List.length_drop, List.length_cons] at this ⊢
        omega

end Scanner

/-- **Plain tokens are cut in the same way with the drift extensions.** -/
lemma IsPlain.tokenize_eq {source : String} (plain : IsPlain (tokenize false source)) :
    tokenize true source = tokenize false source :=
  Scanner.tokensWithin_of_isPlain (Nat.lt_succ_self _) plain

/-! ## Dialects -/

/-- The dialect reads the drift extensions, and otherwise what the other one reads, which lacks
them. -/
structure Dialect.Extends (drifting plain : Dialect) : Prop where
  without : plain.isDrift = false
  drift : drifting.isDrift = true
  others : ∀ feature, feature ≠ .driftExtensions →
    drifting.supports feature = plain.supports feature

/-- What the smaller dialect reads the larger one does too. -/
lemma Dialect.Extends.supports {drifting plain : Dialect} (larger : drifting.Extends plain)
    {feature : Feature} (has : plain.supports feature = true) :
    drifting.supports feature = true := by
  by_cases drift : feature = .driftExtensions
  · rw [drift]
    exact larger.drift
  · rw [larger.others feature drift, has]

namespace Parser

variable {α : Type} {drifting plain : Dialect} {parser : Parser α} {origin cursor stop : Cursor}
  {good : α → Prop} {value : α}

/-- **An orderly run on plain tokens goes on alike** with the drift extensions: where they are asked
for, nothing is accepted without them. -/
lemma Orderly.accepted_extends (orderly : parser.Orderly origin cursor good)
    (larger : drifting.Extends plain)
    (noDollar : ∀ distance name, (cursor.peek distance).kind ≠ .variable (.named .dollar name))
    (run : parser.run plain cursor = .accepted value stop) :
    parser.run drifting cursor = .accepted value stop := by
  induction parser generalizing cursor with
  | done other => exact run
  | reject error => simp [Parser.run] at run
  | look next ih => exact ih _ orderly noDollar run
  | take next ih =>
    change (advance >>= next).run plain cursor = _ at run
    rw [run_advance_bind orderly.1.sound] at run
    refine (run_advance_bind orderly.1.sound).trans (ih _ orderly.2 (fun distance => ?_) run)
    rw [Cursor.peek_advance]
    exact noDollar _
  | demand feature construct span next ih =>
    change (require feature construct span >>= next).run plain cursor = _ at run
    obtain ⟨has, run⟩ := accepted_require run
    simp only [Parser.run, if_pos (larger.supports has)]
    exact ih _ orderly.2 noDollar run
  | ask next ih =>
    simp only [Parser.run, larger.without] at run
    obtain dollar | never := orderly.1
    · obtain ⟨name, dollar⟩ := Option.isSome_iff_exists.mp dollar
      exact absurd (Grammar.kind_of_dollarName dollar) (noDollar 0 name)
    · exact absurd run (@never _ _ _)
  | read start next ih => exact ih _ (orderly.2 _) noDollar run

end Parser

namespace Entry

/-- **The drift extensions are a conservative extension.** Tokens of a source that are plain without
the drift extensions are the same with them, and what is accepted without them is accepted with
them, with the same tree. -/
theorem parse_of_isPlain {drifting plain : Dialect} (larger : drifting.Extends plain)
    {source : String} (isPlain : IsPlain (tokenize plain.isDrift source)) :
    tokenize drifting.isDrift source = tokenize plain.isDrift source ∧
      ∀ (entry : Entry) (tree : entry.Tree),
        entry.parse plain source = .ok tree → entry.parse drifting source = .ok tree := by
  have same : tokenize drifting.isDrift source = tokenize plain.isDrift source := by
    rw [larger.without] at isPlain ⊢
    rw [larger.drift, isPlain.tokenize_eq]
  refine ⟨same, fun entry tree accepted => ?_⟩
  have start : drifting.start source = plain.start source :=
    congrArg (Cursor.ofTokens source) same
  have noDollar (distance : Nat) (name : String) :
      ((plain.start source).peek distance).kind ≠ .variable (.named .dollar name) := by
    rcases Cursor.peek_ofTokens source (tokenize plain.isDrift source) distance with mem | last
    · exact isPlain.placeholders _ mem name
    · rw [Dialect.start, Cursor.ofSource, last]
      simp [Cursor.endToken]
  rw [entry.parse_eq] at accepted ⊢
  obtain ⟨stop, run⟩ := Outcome.accepted_of_result accepted
  have orderly := entry.start_orderly plain source
  rw [start]
  exact congrArg Outcome.result (orderly.accepted_extends larger noDollar run)

/-- A product of columns is read with the drift extensions as it is without them. -/
theorem parse_of_isPlain_product :
    Dialect.drift.Extends .generic ∧ IsPlain (tokenize Dialect.generic.isDrift "a * b") ∧
      (tokenize Dialect.drift.isDrift "a * b" = tokenize Dialect.generic.isDrift "a * b" ∧
        ∀ (entry : Entry) (tree : entry.Tree),
          entry.parse .generic "a * b" = .ok tree → entry.parse .drift "a * b" = .ok tree) ∧
      Entry.expression.parse .drift "a * b" =
        .ok (.binary (.reference none none "a" ⟨0, 1, 1, 1⟩) .mul
          (.reference none none "b" ⟨4, 5, 1, 5⟩) ⟨0, 5, 1, 1⟩) := by
  have larger : Dialect.drift.Extends .generic :=
    ⟨rfl, rfl, fun feature other => by simp [Dialect.drift, Dialect.generic, other]⟩
  have tokens : tokenize Dialect.generic.isDrift "a * b" =
      [⟨.identifier "a", "a", ⟨0, 1, 1, 1⟩⟩, ⟨.symbol .star, "*", ⟨2, 3, 1, 3⟩⟩,
        ⟨.identifier "b", "b", ⟨4, 5, 1, 5⟩⟩, ⟨.endOfInput, "", ⟨5, 5, 1, 6⟩⟩] := rfl
  have isPlain : IsPlain (tokenize Dialect.generic.isDrift "a * b") := by
    rw [tokens]
    constructor <;> simp
  have same := parse_of_isPlain larger isPlain
  exact ⟨larger, isPlain, same, same.2 .expression _ rfl⟩

end Entry

end SqlTree
