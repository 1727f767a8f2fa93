import SqlTree.Proofs.Legible.Piece
import SqlTree.Proofs.Origins.Gives
import SqlTree.Proofs.Reread.TypeName

set_option autoImplicit false

/-!
# Text that is kept as it was

The words of a type and raw arguments are kept as source text. Such a text starts and ends with a
token, and none of its tokens is open, so it is scanned into the same tokens wherever it is written.

## Main definitions

* `SqlTree.IsWhole` — a text consists of closed tokens, from its first character to its last.
* `SqlTree.IsVerbatim` — it does, for some tokens.

## Main results

* `SqlTree.Render.legible_verbatim` — such a text is scanned as before.
* `SqlTree.Grammar.rawArguments_verbatim`, `SqlTree.Grammar.typeName_verbatim` — the texts that are
  kept consist of tokens.
-/

namespace SqlTree

/-- The text consists of tokens that are closed, from the first one to the last one. -/
structure IsWhole (drift : Bool) (source : String) (list : List Lexed) : Prop where
  lexes : Lexes drift source.toList list
  whole : Lexed.spelling list = source.toList
  closed : ∀ lexed ∈ list, lexed.kind.isOpen = false
  starts : ∀ lexed ∈ list.head?, lexed.gap = []

/-- A text that is a token when it stands alone consists of it. -/
lemma Alone.isWhole {drift : Bool} {source : String} {kind : TokenKind}
    (alone : Alone drift source.toList kind) :
    IsWhole drift source [⟨[], kind, source.toList⟩] := by
  obtain ⟨starts, ⟨first, tail, toList, scan⟩, closed⟩ := alone
  have lexes : Lexes drift ([] ++ first :: (tail ++ [])) [⟨[], kind, first :: tail⟩] := by
    refine .token .nil ?_ ?_ (.ends .nil)
    · rwa [List.append_nil, ← toList]
    · rwa [List.append_nil]
  rw [List.nil_append, List.append_nil, ← toList] at lexes
  exact ⟨lexes, by simp, by simpa using closed, by simp⟩

/-- A text that ends with its last token is cut in the same way before other text. -/
lemma Lexes.append {drift : Bool} {chars rest : List Char} {list others : List Lexed}
    (lexes : Lexes drift chars list) (whole : Lexed.spelling list = chars)
    (closed : ∀ lexed ∈ list, lexed.kind.isOpen = false) (ends : ∀ c ∈ rest.head?, Inert c)
    (later : Lexes drift rest others) : Lexes drift (chars ++ rest) (list ++ others) := by
  induction lexes with
  | ends isGap =>
    obtain rfl : [] = _ := whole
    exact later
  | @token gap tail after first kind others' isGap starts scan _ ih =>
    rw [Lexed.spelling_cons, List.cons_append, List.append_cancel_left_eq, List.cons.injEq,
      List.append_cancel_left_eq] at whole
    have releases : Releases after (after ++ rest) := by
      cases after with
      | nil => exact .inr ends
      | cons => exact .inl rfl
    have isClosed := closed _ List.mem_cons_self
    rw [List.append_assoc, List.cons_append, List.append_assoc, List.cons_append]
    exact .token isGap (gapLength_cut starts releases)
      (scanToken_cut scan releases fun isOpen => absurd isOpen (by simpa using isClosed))
      (ih whole.2 fun lexed mem => closed lexed (List.mem_cons_of_mem _ mem))

namespace Render

/-- Text that is kept as it was is scanned as before. -/
lemma legible_verbatim {drift : Bool} {source : String} {list : List Lexed}
    (isWhole : IsWhole drift source list) : Legible drift [.verbatim source] := by
  obtain ⟨lexes, whole, closed, starts⟩ := isWhole
  rintro rest words ⟨⟨others, later, fits⟩, loose⟩ ends
  have toList : (text [.verbatim source]).toList = source.toList := by simp [Piece.text]
  have same : wordsOf drift [.verbatim source] = Lexed.words list := by
    rw [wordsOf_verbatim, wordsOf_nil, List.append_nil, Cursor.words_source source lexes]
  rw [toList, same]
  refine ⟨⟨_, lexes.append whole closed ends later, ?_⟩, ?_⟩
  · have self (list : List Lexed) :
        List.Forall₂ Word.Fits (list.map Lexed.word) (list.map Lexed.word) :=
      List.forall₂_same.mpr fun _ _ => ⟨rfl, rfl, .inr rfl⟩
    rw [List.map_append]
    refine List.rel_append ?_ fits
    cases list with
    | nil => exact .nil
    | cons first list => exact .cons ⟨rfl, rfl, .inl rfl⟩ (self list)
  · cases list with
    | nil => exact loose
    | cons first list => simp [Lexed.words]

end Render

/-! ## Where such texts come from -/

/-- Source text that is kept as it was consists of tokens. -/
def IsVerbatim (drift : Bool) (source : String) : Prop :=
  ∃ list, IsWhole drift source list

/-- A text that its words make up consists of tokens.

**Proof sketch.** The text is made up of its words, and it is also spelled by the gaps and
characters of its tokens. Comparing the two, the gaps before the first token and after the last one
have no characters. -/
lemma isWhole_of_words {drift : Bool} {source : String} {list : List Lexed}
    (lexes : Lexes drift source.toList list)
    (joined : source = Word.joined (Cursor.ofSource drift source).words)
    (sound : ∀ word ∈ (Cursor.ofSource drift source).words, word.kind.isMalformed = false) :
    IsWhole drift source list := by
  rw [Cursor.words_source source lexes] at joined sound
  obtain ⟨gap, text⟩ := lexes.spelling_append
  cases list with
  | nil =>
    have empty : source.toList = [] := congrArg String.toList joined
    exact ⟨lexes, empty.symm, by simp, by simp⟩
  | cons first rest =>
    have whole : source.toList = first.chars ++ Lexed.spelling rest := by
      have chars := congrArg String.toList joined
      rw [Lexed.words, Word.joined, Lexed.joined_words] at chars
      simpa [Lexed.word] using chars
    -- the gaps before the first token and after the last one have no characters
    have lengths := congrArg List.length (whole.symm.trans text)
    simp only [Lexed.spelling_cons, List.length_append] at lengths
    have starts : first.gap = [] := List.length_eq_zero_iff.mp (by omega)
    refine ⟨lexes, ?_, fun lexed mem => ?_, by simpa using starts⟩
    · rw [Lexed.spelling_cons, starts, whole, List.nil_append]
    · have sound : lexed.kind.isMalformed = false := by
        rcases List.mem_cons.mp mem with rfl | mem
        · exact sound _ List.mem_cons_self
        · exact sound _ (List.mem_cons_of_mem _ (List.mem_map_of_mem mem))
      unfold TokenKind.isOpen
      split
      · next kind =>
        rw [kind] at sound
        exact absurd sound (by simp [TokenKind.isMalformed])
      · rfl

/-- A text that its words make up consists of tokens. -/
lemma isVerbatim_of_words {drift : Bool} {source : String}
    (joined : source = Word.joined (Cursor.ofSource drift source).words)
    (sound : ∀ word ∈ (Cursor.ofSource drift source).words, word.kind.isMalformed = false) :
    IsVerbatim drift source :=
  have ⟨list, lexes⟩ := Lexes.exists_of_text drift source.toList
  ⟨list, isWhole_of_words lexes joined sound⟩

/-! ### The words of a type -/

/-- A text that consists of tokens goes on with another one after a blank.

**Proof sketch.** The tokens of the second text are cut after the blank as without it. As the first
text is closed and the blank keeps it apart, its tokens are cut off before that (`Lexes.append`).
The text is spelled by both lists, with the blank as the gap between them. -/
lemma IsWhole.spaced {drift : Bool} {text later : String} {list others : List Lexed}
    {first second : Lexed} (isWhole : IsWhole drift text (first :: list))
    (after : IsWhole drift later (second :: others)) :
    IsWhole drift (text ++ " " ++ later)
      (first :: (list ++ { second with gap := [' '] } :: others)) := by
  have isBlank : Text.isBlank ' ' = true := by decide
  have spaced : Lexes drift (' ' :: later.toList) ({ second with gap := [' '] } :: others) := by
    have lexes := after.lexes
    have starts : second.gap = [] := after.starts second rfl
    generalize later.toList = chars at lexes
    cases lexes with
    | token isGap begins scan rest =>
      obtain rfl : _ = [] := starts
      exact .token (.blank isBlank .nil) begins scan rest
  have chars : (text ++ " " ++ later).toList = text.toList ++ ' ' :: later.toList := by simp
  have spelled := isWhole.whole
  have spelledAfter := after.whole
  rw [Lexed.spelling_cons] at spelled spelledAfter
  refine ⟨?_, ?_, ?_, fun lexed mem => ?_⟩
  · rw [chars]
    exact isWhole.lexes.append isWhole.whole isWhole.closed
      (by simpa using inert_of_blank isBlank) spaced
  · have starts : second.gap = [] := after.starts second rfl
    rw [chars, ← spelled, ← spelledAfter, starts]
    simp [Lexed.spelling]
  · intro lexed mem
    simp only [List.mem_cons, List.mem_append] at mem
    rcases mem with rfl | mem | rfl | mem
    · exact isWhole.closed _ List.mem_cons_self
    · exact isWhole.closed _ (List.mem_cons_of_mem _ mem)
    · exact after.closed second List.mem_cons_self
    · exact after.closed _ (List.mem_cons_of_mem _ mem)
  · exact isWhole.starts lexed mem

/-- The text is one token or more. -/
def IsWords (drift : Bool) (source : String) : Prop :=
  ∃ first list, IsWhole drift source (first :: list)

/-- Words with one blank between them are words. -/
lemma IsWords.intercalate {drift : Bool} {first : String} {rest : List String}
    (each : ∀ text ∈ first :: rest, IsWords drift text) :
    IsWords drift (" ".intercalate (first :: rest)) := by
  induction rest generalizing first with
  | nil => simpa using each
  | cons second rest ih =>
    obtain ⟨start, list, isWhole⟩ := each first List.mem_cons_self
    obtain ⟨start', list', later⟩ := ih fun text mem => each text (List.mem_cons_of_mem _ mem)
    have text : " ".intercalate (first :: second :: rest) =
        first ++ " " ++ " ".intercalate (second :: rest) := by
      rw [← String.toList_inj, Cursor.toList_intercalate, String.toList_append,
        Cursor.toList_intercalate]
      simp
    exact ⟨_, _, text ▸ isWhole.spaced later⟩

/-! ### Parsers that keep text -/

/-- A token inside an argument is not malformed. -/
lemma depthStep_sound {depth next : Nat} {kind : TokenKind}
    (inside : depthStep depth kind = some next) :
    kind.isMalformed = false := by
  rw [← Bool.not_eq_true]
  intro malformed
  unfold TokenKind.isMalformed at malformed
  split at malformed
  · exact absurd inside (by simp [depthStep])
  · exact absurd malformed Bool.false_ne_true

/-- No token of an argument is malformed. -/
lemma depthAfter_sound {depth last : Nat} {kinds : List TokenKind}
    (inside : depthAfter depth kinds = some last) :
    ∀ kind ∈ kinds, kind.isMalformed = false := by
  induction kinds generalizing depth with
  | nil => simp
  | cons first kinds ih =>
    obtain ⟨next, step, later⟩ := Option.bind_eq_some_iff.mp inside
    intro kind mem
    rcases List.mem_cons.mp mem with rfl | mem
    · exact depthStep_sound step
    · exact ih later kind mem

namespace Grammar

open SqlTree.Parser

variable {dialect : Dialect} {source : String}

/-- Raw arguments are kept as texts that consist of tokens. -/
lemma rawArguments_verbatim (fuel : Nat) :
    Gives (.within dialect source) (rawArguments fuel)
      fun arguments => ∀ argument ∈ arguments, IsVerbatim dialect.isDrift argument := by
  intro cursor value stop here run _ argument mem
  obtain ⟨-, parts, split, rfl, words⟩ := accepted_rawArguments here.1 run
  obtain ⟨part, isPart, rfl⟩ := List.mem_map.mp (List.mem_filter.mp mem).1
  have closed := (splitArguments_local split rfl).2 part isPart
  refine isVerbatim_of_words ?_ ?_ <;> rw [words part isPart]
  · rw [Word.joined_front]
  · have sound := depthAfter_sound closed
    intro word mem
    cases part with
    | nil => simp [Word.front] at mem
    | cons first rest =>
      rcases List.mem_cons.mp mem with rfl | mem
      · exact sound _ List.mem_cons_self
      · exact sound _ (List.mem_map_of_mem (List.mem_cons_of_mem _ mem))

/-- A word of a type is a token. -/
lemma typeWord_verbatim :
    Gives (.within dialect source) (whenever atTypeWord do return (← advance).lexeme)
      fun word => ∀ text ∈ word, IsWords dialect.isDrift text := by
  intro cursor value stop here run _
  let E : Rereading := ⟨dialect, .written, rules 0 0, rules 0 0⟩
  rcases Rereading.accepted_typeWord (E := E) run with ⟨rfl, -⟩ | ⟨rfl, -, at_, sound⟩
  · simp
  · intro text isText
    obtain rfl := Option.some.inj isText
    obtain ⟨kind, -⟩ := Rereading.typeWord_words (E := E) here.1 at_
    have words := here.1.words_lexeme (Rereading.ahead_of_kind here.1 kind)
    obtain ⟨list, lexes⟩ := Lexes.exists_of_text dialect.isDrift cursor.current.lexeme.toList
    have isWhole : IsWhole dialect.isDrift cursor.current.lexeme list := by
      refine isWhole_of_words lexes ?_ ?_ <;> rw [words]
      · simp [Word.joined]
      · simpa using sound
    cases list with
    | nil =>
      rw [Cursor.words_source _ lexes] at words
      exact absurd words (by simp [Lexed.words])
    | cons first rest => exact ⟨first, rest, isWhole⟩

/-- The name of a type and its arguments are kept as texts that consist of tokens. -/
lemma typeName_verbatim (fuel : Nat) :
    Gives (.within dialect source) (typeName fuel) fun type =>
      IsVerbatim dialect.isDrift type.name ∧
        ∀ argument ∈ type.arguments, IsVerbatim dialect.isDrift argument := by
  unfold typeName
  refine .skip fun start => ?_
  refine .bind (.many typeWord_verbatim fuel) fun words first => ?_
  split
  · exact .of_unexpected _
  · next some =>
    obtain ⟨text, rest, rfl⟩ := List.exists_cons_of_ne_nil (mt List.isEmpty_iff.mpr some)
    obtain ⟨_, _, name⟩ := IsWords.intercalate first
    refine .bind (.whenever (rawArguments_verbatim fuel)) fun arguments second => ?_
    refine .skip fun span => .of_pure ⟨⟨_, name⟩, ?_⟩
    cases arguments with
    | none => simp
    | some arguments => exact second arguments rfl

end Grammar

end SqlTree
