import SqlTree.Proofs.Lexing

set_option autoImplicit false

/-!
# Space between tokens

How a text is cut does not depend on what stands between its tokens: written with other separators
between them, the same lexemes are the same tokens again. So whether a token goes on is never
decided by what follows it, beyond a blank, and a token alone is that token.

## Main definitions

* `SqlTree.Separator` — what keeps tokens apart: blanks and closed comments, a blank first.
* `SqlTree.Spaced` — a text of lexemes with separators between them.

## Main results

* `SqlTree.tokenize_spaced` — a spaced text of the lexemes of a source is cut into its tokens.
-/

namespace SqlTree

/-! ## Spaced texts -/

/-- A text that keeps tokens apart: blanks and closed comments, of which the first is a blank. -/
structure Separator (gap : String) : Prop where
  isGap : Gap false gap.toList
  apart : ∃ c ∈ gap.toList.head?, Text.isBlank c = true

/-- The text is written as these lexemes, in their order, with separators between them. -/
inductive Spaced : List String → String → Prop where
  | nil : Spaced [] ""
  | one (lexeme : String) : Spaced [lexeme] lexeme
  | cons (lexeme : String) {gap next text : String} {rest : List String}
    (separator : Separator gap) (later : Spaced (next :: rest) text) :
    Spaced (lexeme :: next :: rest) (lexeme ++ (gap ++ text))

/-- What a token is, without the place where it stands. -/
def Token.content (token : Token) : TokenKind × String :=
  (token.kind, token.lexeme)

namespace Lexed

/-- The text of a token. -/
def lexeme (lexed : Lexed) : String :=
  String.ofList lexed.chars

/-- What a token is, without the gap before it. -/
def content (lexed : Lexed) : TokenKind × String :=
  (lexed.kind, lexed.lexeme)

/-- Placing tokens keeps their contents. -/
lemma map_content_placed (position : Position) (list : List Lexed) :
    (placed position list).map Token.content = list.map content := by
  induction list generalizing position with
  | nil => rfl
  | cons lexed rest ih => exact congrArg _ (ih _)

/-- Other gaps keep the contents of tokens. -/
lemma content_of_respaced {before after : List Lexed}
    (respaced : List.Forall₂ Respaced before after) : after.map content = before.map content := by
  induction respaced with
  | nil => rfl
  | cons same _ ih =>
    rw [List.map_cons, List.map_cons, ih, content, lexeme, same.kind, same.chars]
    rfl

end Lexed

/-- A spaced text is the first lexeme, and then the other tokens with gaps that keep them apart. -/
lemma Spaced.respaced {before : Lexed} {others : List Lexed} {text : String}
    (spaced : Spaced ((before :: others).map Lexed.lexeme) text) :
    ∃ after, text.toList = before.chars ++ Lexed.spelling after ∧
      List.Forall₂ Lexed.Respaced others after := by
  induction others generalizing before text with
  | nil =>
    cases spaced with
    | one => exact ⟨[], by simp [Lexed.lexeme], .nil⟩
  | cons second others ih =>
    cases spaced with
    | @cons _ gap _ text _ separator later =>
      obtain ⟨after, eq, respaced⟩ := ih later
      refine ⟨⟨gap.toList, second.kind, second.chars⟩ :: after, ?_, .cons ?_ respaced⟩
      · simp [Lexed.lexeme, eq]
      · exact ⟨rfl, rfl, separator.isGap, .inr separator.apart⟩

/-! ## Tokens without their places -/

namespace Lexes

variable {drift : Bool} {source : String} {list : List Lexed}

/-- The end of input is the last token, and its lexeme is empty. -/
lemma tokenize_eq (lexes : Lexes drift source.toList list) :
    ∃ last, last.content = (.endOfInput, "") ∧
      tokenize drift source = Lexed.placed .origin list ++ [last] := by
  obtain ⟨last, -, found⟩ := @tokensWithin _ (.ofSource drift source) lexes _
    (Nat.lt_succ_self _)
  change tokenize drift source = _ at found
  obtain ⟨cut, -⟩ := Scanner.tokensWithin_cut (.ofSource drift source) (Nat.lt_succ_self _)
  have whole : source.toList = [] ++ source.toList := rfl
  obtain ⟨others, last', eq, kind, lexeme, -⟩ := cut.ends_last whole rfl
  change tokenize drift source = _ at eq
  obtain ⟨-, same⟩ := List.append_inj' (found.symm.trans eq) rfl
  obtain rfl := List.singleton_inj.mp same
  exact ⟨last, by rw [Token.content, kind, lexeme], found⟩

/-- The contents of the tokens of a source are those that it lexes to, and the end. -/
lemma contents (lexes : Lexes drift source.toList list) :
    (tokenize drift source).map Token.content =
      list.map Lexed.content ++ [(.endOfInput, "")] := by
  obtain ⟨last, content, eq⟩ := lexes.tokenize_eq
  rw [eq, List.map_append, Lexed.map_content_placed, List.map_singleton, content]

/-- Without the end of input, what is left are the tokens that the source is cut into. -/
lemma inner_contents (lexes : Lexes drift source.toList list) :
    ((tokenize drift source).filter (!·.isEnd)).map Token.content = list.map Lexed.content := by
  obtain ⟨last, content, eq⟩ := lexes.tokenize_eq
  have isEnd : last.isEnd = true := Token.isEnd_iff.mpr (congrArg Prod.fst content)
  have others : (Lexed.placed .origin list).filter (!·.isEnd) = Lexed.placed .origin list :=
    List.filter_eq_self.mpr fun token mem => by
      rw [Lexed.placed_inside lexes.notEnd _ token mem]; rfl
  rw [eq, List.filter_append, others, List.filter_singleton, isEnd]
  simpa using Lexed.map_content_placed _ list

/-- Each token of a text is cut off the front of what is left there. -/
lemma exists_of_mem {chars : List Char} (lexes : Lexes drift chars list) {lexed : Lexed}
    (mem : lexed ∈ list) : ∃ rest others, Lexes drift rest (lexed :: others) := by
  induction lexes with
  | ends => simp at mem
  | token isGap starts scan later ih =>
    rcases List.mem_cons.mp mem with rfl | mem
    · exact ⟨_, _, .token isGap starts scan later⟩
    · exact ih mem

end Lexes

/-! ## Results -/

/-- **What stands between tokens does not matter.** A text that is written as the lexemes of a
source, with separators between them, is cut into the tokens of the source. In particular each
lexeme alone is its token.

**Proof sketch.** A text with other separators is spelled by the same tokens with other gaps
(`Spaced.respaced`), and is cut into them (`Lexes.respace`), so the contents are the same. A single
lexeme is such a text, for the source that starts with its token. -/
theorem tokenize_spaced (drift : Bool) (source : String) :
    (∀ text, Spaced (((tokenize drift source).filter (!·.isEnd)).map (·.lexeme)) text →
      (tokenize drift text).map Token.content = (tokenize drift source).map Token.content) ∧
    ∀ token ∈ tokenize drift source, token.isEnd = false →
      (tokenize drift token.lexeme).map Token.content = [token.content, (.endOfInput, "")] := by
  obtain ⟨list, lexes⟩ := Lexes.exists_of_text drift source.toList
  have inner := lexes.inner_contents
  constructor
  · intro text spaced
    have lexemes : ((tokenize drift source).filter (!·.isEnd)).map (·.lexeme) =
        list.map Lexed.lexeme := by
      have texts := congrArg (List.map Prod.snd) inner
      rw [List.map_map, List.map_map] at texts
      exact texts
    rw [lexemes] at spaced
    rw [lexes.contents]
    cases list with
    | nil =>
      cases spaced with
      | nil => exact (Lexes.ends .nil).contents
    | cons before others =>
      obtain ⟨after, eq, respaced⟩ := spaced.respaced
      have again := lexes.respace rfl { before with gap := [] } after rfl rfl .nil
        (by rwa [← respaced.length_eq, List.take_length])
      have cut : Lexes drift text.toList ({ before with gap := [] } :: after) := by
        simpa [eq] using again
      rw [cut.contents, List.map_cons, Lexed.content_of_respaced respaced]
      rfl
  · intro token mem isInside
    have mem : token.content ∈ list.map Lexed.content := by
      rw [← inner]
      exact List.mem_map_of_mem (List.mem_filter.mpr ⟨mem, by simp [isInside]⟩)
    obtain ⟨lexed, mem, same⟩ := List.mem_map.mp mem
    obtain ⟨rest, others, first⟩ := lexes.exists_of_mem mem
    have alone := first.respace rfl { lexed with gap := [] } [] rfl rfl .nil .nil
    have cut : Lexes drift token.lexeme.toList [{ lexed with gap := [] }] := by
      have lexeme : token.lexeme = lexed.lexeme := congrArg Prod.snd same.symm
      simpa [lexeme, Lexed.lexeme] using alone
    rw [cut.contents, ← same]
    rfl

/-- An open string stays what it is behind comments, and alone. -/
theorem tokenize_spaced_comments :
    Spaced (((tokenize false "a<='b").filter (!·.isEnd)).map (·.lexeme))
      ("a" ++ (" /*c*/" ++ ("<=" ++ ("\t--c\n" ++ "'b")))) ∧
    (tokenize false ("a" ++ (" /*c*/" ++ ("<=" ++ ("\t--c\n" ++ "'b"))))).map Token.content =
      (tokenize false "a<='b").map Token.content ∧
    (⟨.malformed .unterminatedString, "'b", ⟨3, 5, 1, 4⟩⟩ ∈ tokenize false "a<='b" ∧
      Token.isEnd ⟨.malformed .unterminatedString, "'b", ⟨3, 5, 1, 4⟩⟩ = false) ∧
    (tokenize false "'b").map Token.content =
      [(.malformed .unterminatedString, "'b"), (.endOfInput, "")] := by
  have closed : IsCommentText ['c', '*'] := by unfold IsCommentText; decide
  have block : Separator " /*c*/" :=
    ⟨.blank rfl (@Gap.block false ['c'] [] closed .nil), ' ', rfl, rfl⟩
  have line : Separator "\t--c\n" :=
    ⟨.blank rfl (@Gap.line false ['c'] [] (by decide) .nil), '\t', rfl, rfl⟩
  have tokens : tokenize false "a<='b" =
      [⟨.identifier "a", "a", ⟨0, 1, 1, 1⟩⟩, ⟨.symbol .ltEq, "<=", ⟨1, 3, 1, 2⟩⟩,
        ⟨.malformed .unterminatedString, "'b", ⟨3, 5, 1, 4⟩⟩,
        ⟨.endOfInput, "", ⟨5, 5, 1, 6⟩⟩] := rfl
  have spaced : Spaced (((tokenize false "a<='b").filter (!·.isEnd)).map (·.lexeme))
      ("a" ++ (" /*c*/" ++ ("<=" ++ ("\t--c\n" ++ "'b")))) := by
    rw [tokens]
    exact .cons _ block (.cons _ line (.one _))
  have mem : ⟨.malformed .unterminatedString, "'b", ⟨3, 5, 1, 4⟩⟩ ∈ tokenize false "a<='b" := by
    rw [tokens]
    simp
  exact ⟨spaced, (tokenize_spaced false "a<='b").1 _ spaced, ⟨mem, rfl⟩,
    (tokenize_spaced false "a<='b").2 _ mem rfl⟩

end SqlTree
