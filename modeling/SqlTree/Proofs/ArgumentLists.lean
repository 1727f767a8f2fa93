import Mathlib.Data.List.TakeWhile
import SqlTree.Proofs.Legible.Verbatim

set_option autoImplicit false

/-!
# Lists of raw arguments

Where a list of raw arguments ends, and where it is split, is said here on the tokens alone, by how
many parentheses are open before each of them. The parser reads just these arguments, and reads them
again from where they are written.

## Main definitions

* `SqlTree.Encloses` — the tokens between a parenthesis and the one that closes it.
* `SqlTree.segments` — these tokens, split at the commas outside inner parentheses.

## Main results

* `SqlTree.Grammar.rawArguments_segments` — raw arguments are the texts of the segments.
-/

namespace SqlTree

open SqlTree.Grammar SqlTree.Parser

/-! ## Parentheses -/

/-- How many parentheses more are open after a token than before it. -/
def TokenKind.nesting : TokenKind → Int
  | .symbol .leftParen => 1
  | .symbol .rightParen => -1
  | _ => 0

/-- How many parentheses are open before each of the tokens, and after the last one, if there are
`depth` before the first one. -/
def depths (depth : Int) (kinds : List TokenKind) : List Int :=
  kinds.scanl (fun depth kind => depth + kind.nesting) depth

/-- After an opening parenthesis come the tokens `inner`, then the parenthesis that closes it, and
then `rest`. -/
structure Encloses (ahead inner rest : List Token) : Prop where
  closes : ∃ close : Token, close.kind = .symbol .rightParen ∧ ahead = inner ++ close :: rest
  nested : ∀ depth ∈ depths 0 (inner.map Token.kind), 0 ≤ depth
  level : (depths 0 (inner.map Token.kind)).getLast? = some 0

section

variable {α β : Type} (kind : α → TokenKind)

/-- The parts between the commas before which no parenthesis is open. -/
def segmentsBy (depth : Int) (list : List α) : List (List α) :=
  ((list.zip (depths depth (list.map kind))).splitOnP fun place =>
    (kind place.1).isSymbol .comma && place.2 == 0).map (·.map Prod.fst)

/-- The tokens between the commas outside inner parentheses. -/
def segments (inner : List Token) : List (List Token) :=
  segmentsBy Token.kind 0 inner

/-- The source text from the start of the first of these tokens to the end of the last one. -/
def textOf? (source : String) (tokens : List Token) : Option String := do
  Text.slice? source (← tokens.head?).span.start (← tokens.getLast?).span.stop

/-- The depths before the tokens of a list start with the present one. -/
lemma depths_cons (depth : Int) (first : TokenKind) (rest : List TokenKind) :
    depths depth (first :: rest) = depth :: depths (depth + first.nesting) rest := by
  simp [depths]

/-- Nothing is one empty segment. -/
lemma segmentsBy_nil (depth : Int) : segmentsBy kind depth [] = [[]] := by
  simp [segmentsBy]

/-- A comma at depth `0` starts a new segment, and any other value is added to the first one. -/
lemma segmentsBy_cons (depth : Int) (first : α) (rest : List α) :
    segmentsBy kind depth (first :: rest) =
      if ((kind first).isSymbol .comma && depth == 0) = true then
        [] :: segmentsBy kind (depth + (kind first).nesting) rest
      else (segmentsBy kind (depth + (kind first).nesting) rest).modifyHead (first :: ·) := by
  unfold segmentsBy
  rw [List.map_cons, depths_cons, List.zip_cons_cons, List.splitOnP_cons_eq_if_modifyHead]
  split
  · rfl
  · cases List.splitOnP _ _ <;> rfl

/-- The segments of a mapped list are the mapped segments. -/
lemma segmentsBy_map (f : β → α) (depth : Int) (list : List β) :
    segmentsBy kind depth (list.map f) =
      (segmentsBy (fun value => kind (f value)) depth list).map (List.map f) := by
  induction list generalizing depth with
  | nil => simp [segmentsBy_nil]
  | cons first rest ih =>
    rw [List.map_cons, segmentsBy_cons, segmentsBy_cons, ih]
    split
    · rfl
    · cases segmentsBy _ _ rest <;> rfl

/-- The segments depend on nothing but the kinds of the values. -/
lemma segmentsBy_congr (other : α → TokenKind) {list : List α} (depth : Int)
    (same : ∀ value ∈ list, kind value = other value) :
    segmentsBy kind depth list = segmentsBy other depth list := by
  induction list generalizing depth with
  | nil => simp [segmentsBy_nil]
  | cons first rest ih =>
    rw [List.forall_mem_cons] at same
    rw [segmentsBy_cons, segmentsBy_cons, same.1, ih _ same.2]

/-- The first segment stands at the start, and each one stands somewhere. -/
lemma segmentsBy_infix (depth : Int) (list : List α) :
    ∃ first rest, segmentsBy kind depth list = first :: rest ∧ first <+: list ∧
      ∀ segment ∈ rest, segment <:+: list := by
  induction list generalizing depth with
  | nil => exact ⟨[], [], segmentsBy_nil kind depth, List.nil_prefix, by simp⟩
  | cons value list ih =>
    obtain ⟨first, rest, eq, start, inside⟩ := ih (depth + (kind value).nesting)
    rw [segmentsBy_cons, eq]
    split
    · refine ⟨[], first :: rest, rfl, List.nil_prefix, fun segment mem => ?_⟩
      rcases List.mem_cons.mp mem with rfl | mem
      · exact start.isInfix.trans (List.suffix_cons _ _).isInfix
      · exact (inside _ mem).trans (List.suffix_cons _ _).isInfix
    · exact ⟨value :: first, rest, rfl, List.prefix_cons_inj value |>.mpr start, fun segment mem =>
        (inside _ mem).trans (List.suffix_cons _ _).isInfix⟩

/-- The values of a segment stand together in the list. -/
lemma infix_of_mem_segmentsBy {depth : Int} {list segment : List α}
    (mem : segment ∈ segmentsBy kind depth list) : segment <:+: list := by
  obtain ⟨first, rest, eq, start, inside⟩ := segmentsBy_infix kind depth list
  rcases List.mem_cons.mp (eq ▸ mem) with rfl | mem
  · exact start.isInfix
  · exact inside _ mem

end

/-! ## Splitting is by segments -/

/-- The tokens are neither malformed nor the end of input. -/
def AreSound (kinds : List TokenKind) : Prop :=
  ∀ kind ∈ kinds, kind ≠ .endOfInput ∧ kind.isMalformed = false

/-- A sound token that does not close more than is open separates arguments or belongs to one. -/
lemma depthStep_nesting {kind : TokenKind} {depth : Nat}
    (sound : kind ≠ .endOfInput ∧ kind.isMalformed = false)
    (nested : 0 ≤ (depth : Int) + kind.nesting) :
    kind = .symbol .comma ∧ depth = 0 ∨ ¬ (kind = .symbol .comma ∧ depth = 0) ∧
      ∃ next : Nat, depthStep depth kind = some next ∧ (next : Int) = depth + kind.nesting := by
  unfold TokenKind.isMalformed at sound
  unfold TokenKind.nesting at nested ⊢
  unfold depthStep
  split
  · exact absurd rfl sound.1
  · exact absurd sound.2 (by simp)
  · exact .inr ⟨by simp, _, rfl, rfl⟩
  · have some : depth ≠ 0 := by
      rintro rfl
      simp at nested
    refine .inr ⟨by simp, depth - 1, if_neg some, ?_⟩
    dsimp only
    omega
  · by_cases outside : depth = 0
    · exact .inl ⟨rfl, outside⟩
    · exact .inr ⟨fun both => outside both.2, depth, if_neg outside, by simp⟩
  · refine .inr ⟨?_, depth, rfl, ?_⟩
    · simp_all
    · split <;> simp_all

/-- What is taken into an argument is sound, and opens and closes parentheses. -/
lemma nesting_of_depthStep {kind : TokenKind} {depth next : Nat}
    (step : depthStep depth kind = some next) :
    kind ≠ .endOfInput ∧ kind.isMalformed = false ∧ (next : Int) = depth + kind.nesting := by
  refine ⟨?_, depthStep_sound step, ?_⟩
  · rintro rfl
    exact absurd step (by simp [depthStep])
  · unfold depthStep at step
    unfold TokenKind.nesting
    split at step
    · exact absurd step (by simp)
    · exact absurd step (by simp)
    · obtain rfl := Option.some.inj step
      rfl
    · split at step
      · exact absurd step (by simp)
      · obtain rfl := Option.some.inj step
        dsimp only
        omega
    · split at step
      · exact absurd step (by simp)
      · obtain rfl := Option.some.inj step
        simp
    · obtain rfl := Option.some.inj step
      split <;> simp_all

/-- The first depth is the present one. -/
lemma head_depths (depth : Int) (kinds : List TokenKind) :
    ∃ rest, depths depth kinds = depth :: rest := by
  cases kinds with
  | nil => exact ⟨[], rfl⟩
  | cons first rest => exact ⟨_, depths_cons ..⟩

/-- Where no depth is negative, the present one is not. -/
lemma nested_head {depth : Int} {kinds : List TokenKind}
    (nested : ∀ inner ∈ depths depth kinds, 0 ≤ inner) : 0 ≤ depth := by
  obtain ⟨rest, eq⟩ := head_depths depth kinds
  exact nested depth (by simp [eq])

/-- The last depth is that after the remaining tokens. -/
lemma getLast?_depths_cons (depth : Int) (first : TokenKind) (rest : List TokenKind) :
    (depths depth (first :: rest)).getLast? =
      (depths (depth + first.nesting) rest).getLast? := by
  obtain ⟨others, eq⟩ := head_depths (depth + first.nesting) rest
  rw [depths_cons, eq, List.getLast?_cons_cons]

section

variable {part inner rest words : List Word} {depth : Nat} {close : Word}

/-- Up to the parenthesis that closes the list, words are split into segments. -/
lemma splitArguments_segments (sound : AreSound (inner.map Word.kind))
    (closes : close.kind = .symbol .rightParen)
    (nested : ∀ open_ ∈ depths depth (inner.map Word.kind), 0 ≤ open_)
    (level : (depths depth (inner.map Word.kind)).getLast? = some 0) :
    splitArguments part depth (inner ++ close :: rest) =
      some ((segmentsBy Word.kind depth inner).modifyHead (part ++ ·), rest) := by
  induction inner generalizing part depth with
  | nil =>
    obtain rfl : depth = 0 := by simpa [depths] using level
    rw [List.nil_append, splitArguments_close closes, segmentsBy_nil]
    simp
  | cons word inner ih =>
    rw [List.map_cons] at nested level sound
    rw [getLast?_depths_cons] at level
    rw [depths_cons, List.forall_mem_cons] at nested
    obtain ⟨first, sound⟩ := List.forall_mem_cons.mp sound
    rw [List.cons_append, segmentsBy_cons]
    rcases depthStep_nesting first (nested_head nested.2) with
      ⟨comma, rfl⟩ | ⟨other, next, step, eq⟩
    · have flat : ((0 : Nat) : Int) + word.kind.nesting = (0 : Nat) := by rw [comma]; rfl
      rw [flat] at nested level ⊢
      rw [splitArguments_comma comma, ih sound nested.2 level,
        if_pos (by simp [TokenKind.isSymbol_iff.mpr comma])]
      cases segmentsBy Word.kind _ inner <;> simp
    · rw [← eq] at nested level ⊢
      rw [splitArguments_inside step, ih sound nested.2 level, if_neg]
      · cases segmentsBy Word.kind _ inner <;> simp
      · rw [Bool.and_eq_true, TokenKind.isSymbol_iff, beq_iff_eq, Int.natCast_eq_zero]
        exact other

/-- Where words are split, a parenthesis closes the list.

**Proof sketch.** By induction on the words, for any depth and any argument being collected. The
closing parenthesis at depth `0` has nothing in front of it. A word inside an argument, or a comma
at depth `0`, is one more sound word in front, whose nesting is the change of the depth
(`nesting_of_depthStep`). A malformed token or the end of the source makes the splitting fail. -/
lemma closes_of_splitArguments {parts : List (List Word)}
    (split : splitArguments part depth words = some (parts, rest)) :
    ∃ inner close, words = inner ++ close :: rest ∧ close.kind = .symbol .rightParen ∧
      AreSound (inner.map Word.kind) ∧
      (∀ open_ ∈ depths depth (inner.map Word.kind), 0 ≤ open_) ∧
      (depths depth (inner.map Word.kind)).getLast? = some 0 := by
  induction words generalizing part depth parts with
  | nil => exact absurd split (by simp [splitArguments])
  | cons word words ih =>
    -- one more word in front that is sound
    have more : ∀ {next : Nat} {part parts},
        word.kind ≠ .endOfInput ∧ word.kind.isMalformed = false →
        (next : Int) = depth + word.kind.nesting →
        splitArguments part next words = some (parts, rest) →
        ∃ inner close, word :: words = inner ++ close :: rest ∧
          close.kind = .symbol .rightParen ∧ AreSound (inner.map Word.kind) ∧
          (∀ open_ ∈ depths depth (inner.map Word.kind), 0 ≤ open_) ∧
          (depths depth (inner.map Word.kind)).getLast? = some 0 := by
      intro next part parts first eq split
      obtain ⟨inner, close, rfl, closes, sound, nested, level⟩ := ih split
      refine ⟨word :: inner, close, rfl, closes, List.forall_mem_cons.mpr ⟨first, sound⟩, ?_, ?_⟩
      · rw [List.map_cons, depths_cons, List.forall_mem_cons, ← eq]
        exact ⟨Int.natCast_nonneg depth, nested⟩
      · rw [List.map_cons, getLast?_depths_cons, ← eq, level]
    cases step : depthStep depth word.kind with
    | some next =>
      rw [splitArguments_inside step] at split
      obtain ⟨notEnd, sound, eq⟩ := nesting_of_depthStep step
      exact more ⟨notEnd, sound⟩ eq split
    | none =>
      rcases depthStep_none step with bad | ⟨rfl, kind | kind⟩
      · rw [splitArguments_bad bad] at split
        exact absurd split (by simp)
      · rw [splitArguments_close kind] at split
        obtain ⟨-, rfl⟩ := Prod.mk.inj (Option.some.inj split)
        exact ⟨[], word, rfl, kind, by simp [AreSound], by simp [depths], by simp [depths]⟩
      · rw [splitArguments_comma kind] at split
        obtain ⟨⟨others, after⟩, later, eq⟩ := Option.map_eq_some_iff.mp split
        obtain ⟨-, rfl⟩ := Prod.mk.inj eq
        refine more ?_ ?_ later
        · rw [kind]
          exact ⟨by simp, rfl⟩
        · rw [kind]
          rfl

end

/-! ## Arguments in a source -/

namespace Cursor

variable {drift : Bool} {cursor : Cursor}

/-- Places of one source are the same if as many tokens are ahead. -/
lemma iterate_eq_of_length {count other : Nat}
    (same : (advance^[count] cursor).ahead.length = (advance^[other] cursor).ahead.length) :
    advance^[count] cursor = advance^[other] cursor := by
  wlog le : count ≤ other generalizing count other
  · exact (this same.symm (by omega)).symm
  obtain ⟨more, rfl⟩ := Nat.exists_eq_add_of_le' le
  rw [Function.iterate_add_apply] at same ⊢
  generalize advance^[count] cursor = origin at same
  rw [(iterate_advance origin more).1, List.length_drop] at same
  cases ahead : origin.ahead with
  | nil =>
    have fixed : origin.advance = origin := by
      unfold advance
      rw [ahead]
    exact (Function.iterate_fixed fixed more).symm
  | cons token rest =>
    obtain rfl : more = 0 := by
      rw [ahead, List.length_cons] at same
      omega
    rfl

/-- The end of input is not among the tokens ahead. -/
lemma Reachable.kind_ne_end (reached : cursor.Reachable drift) :
    ∀ token ∈ cursor.ahead, token.kind ≠ .endOfInput := by
  obtain ⟨count, eq⟩ := reached
  intro token mem
  rw [eq, (iterate_advance _ count).1] at mem
  have inside := List.mem_takeWhile_imp (List.mem_of_mem_drop mem)
  rw [Bool.not_eq_true', ← Bool.not_eq_true, Token.isEnd_iff] at inside
  exact inside

/-- The tokens ahead and their words. -/
def places (cursor : Cursor) : List (Token × Word) :=
  cursor.ahead.zip cursor.spelled

/-- The tokens of the places ahead are those ahead. -/
lemma map_fst_places (cursor : Cursor) : cursor.places.map Prod.fst = cursor.ahead :=
  List.map_fst_zip (by simp)

/-- The words of the places ahead are those ahead. -/
lemma map_snd_places (cursor : Cursor) : cursor.places.map Prod.snd = cursor.spelled :=
  List.map_snd_zip (by simp)

/-- The token and the word of a place have the same kind. -/
lemma kind_of_mem_places (cursor : Cursor) :
    ∀ place ∈ cursor.places, place.1.kind = place.2.kind := by
  unfold places spelled
  generalize cursor.previous = previous
  induction cursor.ahead generalizing previous with
  | nil => simp
  | cons token rest ih =>
    rw [wordsFrom, List.zip_cons_cons, List.forall_mem_cons]
    exact ⟨rfl, ih token⟩

/-- The words of tokens that stand together are their source text.

**Proof sketch.** The cursor is moved to the first token of the part. From there, the words up to
the last token of the part are the words of the slice of the source between the two tokens
(`Reachable.words_slice`), and joining them gives that slice. It is not empty, because an empty text
has no words. -/
lemma Reachable.textOf_infix (reached : cursor.Reachable drift) {part : List (Token × Word)}
    (isInfix : part <:+: cursor.places) (some : part ≠ []) :
    textOf? cursor.source (part.map Prod.fst) = Option.some (Word.joined (part.map Prod.snd)) ∧
      (Word.joined (part.map Prod.snd)).isEmpty = false := by
  obtain ⟨before, after, whole⟩ := isInfix
  have tokens := cursor.map_fst_places
  have words := cursor.map_snd_places
  rw [← whole, List.map_append, List.map_append, List.append_assoc] at tokens words
  -- the cursor before the first token of the part
  have ahead : (Cursor.advance^[before.length] cursor).ahead =
      part.map Prod.fst ++ after.map Prod.fst := by
    rw [(iterate_advance cursor before.length).1, ← tokens]
    exact List.drop_left' (List.length_map _)
  have spelled : (Cursor.advance^[before.length] cursor).spelled =
      part.map Prod.snd ++ after.map Prod.snd := by
    rw [spelled_iterate, ← words]
    exact List.drop_left' (List.length_map _)
  have source := (iterate_advance cursor before.length).2.2
  have reached := reached.iterate before.length
  generalize Cursor.advance^[before.length] cursor = origin at ahead spelled source reached
  have size := List.length_pos_iff.mpr some
  have first : (part.map Prod.fst).head? = Option.some origin.current := by
    unfold current peek
    rw [ahead]
    cases part with
    | nil => exact absurd rfl some
    | cons place part => rfl
  have last : (part.map Prod.fst).getLast? = Option.some (origin.peek (part.length - 1)) := by
    have within : part.length - 1 < (part.map Prod.fst).length := by
      rw [List.length_map]
      omega
    unfold peek
    rw [ahead, List.getLast?_eq_getElem?, List.length_map, List.getD_eq_getElem?_getD,
      List.getElem?_append_left within, List.getElem?_eq_getElem within, Option.getD_some]
  have within : part.length - 1 < origin.ahead.length := by
    rw [ahead, List.length_append, List.length_map]
    omega
  obtain ⟨text, slice, inner, joined⟩ := reached.words_slice within
  have taken : origin.spelled.take (part.length - 1 + 1) = part.map Prod.snd := by
    rw [spelled, Nat.sub_add_cancel size]
    exact List.take_left' (List.length_map _)
  rw [← front_spelled origin, Word.take_front, taken] at inner joined
  rw [Word.joined_front] at joined
  subst joined
  refine ⟨?_, ?_⟩
  · unfold textOf?
    rw [first, last, ← source, ← slice]
    rfl
  rw [← Bool.not_eq_true, String.isEmpty_iff]
  intro empty
  rw [empty, words_source "" (.ends .nil)] at inner
  cases part with
  | nil => exact some rfl
  | cons place part => exact absurd inner (by simp [Lexed.words, Word.front])

/-- Segments of words that have any words are the source texts of the segments of tokens. -/
lemma Reachable.textsOf_infixes (reached : cursor.Reachable drift)
    {parts : List (List (Token × Word))} (isInfix : ∀ part ∈ parts, part <:+: cursor.places) :
    ((parts.map (·.map Prod.fst)).filter (!·.isEmpty)).map (textOf? cursor.source) =
      (argumentTexts (parts.map (·.map Prod.snd))).map Option.some := by
  induction parts with
  | nil => rfl
  | cons part parts ih =>
    rw [List.forall_mem_cons] at isInfix
    rw [List.map_cons, List.map_cons, argumentTexts_cons]
    have later := ih isInfix.2
    cases part with
    | nil => exact later
    | cons place part =>
      obtain ⟨text, some⟩ := reached.textOf_infix isInfix.1 (List.cons_ne_nil place part)
      rw [some]
      exact congrArg₂ List.cons text later

end Cursor

/-- The words of the tokens that are enclosed are split into the words of their segments. -/
lemma Encloses.split {drift : Bool} {cursor : Cursor} {inner rest : List Token}
    (encloses : Encloses cursor.ahead inner rest) (reached : cursor.Reachable drift)
    (sound : ∀ token ∈ inner, token.kind.isMalformed = false) :
    ∃ places after, places <+: cursor.places ∧ places.map Prod.fst = inner ∧
      after.length = rest.length ∧ splitArguments [] 0 cursor.spelled =
        some ((segmentsBy (fun place => place.1.kind) 0 places).map (·.map Prod.snd), after) := by
  obtain ⟨⟨close, closes, ahead⟩, nested, level⟩ := encloses
  obtain ⟨places, others, eq, rfl, right⟩ :=
    List.map_eq_append_iff.mp (cursor.map_fst_places.trans ahead)
  obtain ⟨last, after, rfl, rfl, rfl⟩ := List.map_eq_cons_iff.mp right
  have kinds := cursor.kind_of_mem_places
  have spelled := cursor.map_snd_places
  rw [eq] at kinds spelled
  rw [List.map_append, List.map_cons] at spelled
  have same : places.map (fun place => place.1.kind) = places.map fun place => place.2.kind :=
    List.map_congr_left fun place mem => kinds place (List.mem_append_left _ mem)
  have areSound : AreSound ((places.map Prod.snd).map Word.kind) := by
    rw [List.map_map, Function.comp_def, ← same]
    intro kind mem
    obtain ⟨place, inside, rfl⟩ := List.mem_map.mp mem
    have mem := List.mem_map_of_mem (f := Prod.fst) inside
    exact ⟨reached.kind_ne_end place.1 (ahead ▸ List.mem_append_left _ mem), sound _ mem⟩
  rw [List.map_map, Function.comp_def, same] at nested level
  refine ⟨places, after.map Prod.snd, ⟨_, eq.symm⟩, rfl, by simp, ?_⟩
  rw [← spelled, splitArguments_segments areSound ((kinds last (by simp)).symm.trans closes)
      (by simpa [Function.comp_def] using nested) (by simpa [Function.comp_def] using level),
    segmentsBy_map, segmentsBy_congr _ (fun place => place.1.kind) _ fun place mem =>
      (kinds place (List.mem_append_left _ mem)).symm]
  cases segmentsBy (fun place => place.1.kind) ((0 : Nat) : Int) places <;> rfl

/-- Every text is scanned into words. -/
lemma Scans.exists_of_text (drift : Bool) (chars : List Char) :
    ∃ words, Scans drift chars words := by
  obtain ⟨list, lexes⟩ := Lexes.exists_of_text drift chars
  refine ⟨(list.map Lexed.word).map Word.bare, ⟨list, lexes, ?_⟩, ?_⟩
  · rw [List.forall₂_map_right_iff, List.forall₂_same]
    exact fun _ _ => ⟨rfl, rfl, .inl rfl⟩
  · intro word mem
    obtain ⟨_, -, rfl⟩ := List.mem_map.mp (List.mem_of_mem_head? mem)
    rfl

namespace Grammar

variable {dialect : Dialect} {drift : Bool} {c : Cursor} {fuel : Nat} {inner rest : List Token}

/-- Raw arguments are accepted up to the parenthesis that closes them. -/
lemma rawArguments_of_encloses (reached : c.Reachable drift) (enough : c.ahead.length ≤ fuel)
    (open_ : c.view.atSymbol .leftParen = true) (encloses : Encloses c.advance.ahead inner rest)
    (sound : ∀ token ∈ inner, token.kind.isMalformed = false) :
    ∃ texts, (rawArguments fuel).run dialect c =
        .accepted texts (Cursor.advance^[inner.length + 2] c) ∧
      ((segments inner).filter (!·.isEmpty)).map (textOf? c.source) = texts.map some := by
  obtain ⟨places, after, isPrefix, rfl, length, split⟩ := encloses.split reached.advance sound
  obtain ⟨-, c₁, run, rfl, rfl⟩ :=
    @rawArguments_accepts dialect _ _ _ _ _ reached enough open_ split
  obtain ⟨count, rfl⟩ := accepted_advances _ run
  refine ⟨_, run.trans (congrArg _ (Cursor.iterate_eq_of_length ?_)), ?_⟩
  · obtain ⟨⟨close, -, ahead⟩, -, -⟩ := encloses
    have size := congrArg List.length ahead
    rw [Cursor.length_spelled] at length
    rw [length, (Cursor.iterate_advance ..).1]
    simp only [Cursor.advance_ahead, List.length_tail, List.length_append, List.length_cons,
      List.length_drop] at size ⊢
    omega
  · have isInfix (part : List (Token × Word))
        (mem : part ∈ segmentsBy (fun place => place.1.kind) 0 places) :=
      (infix_of_mem_segmentsBy _ mem).trans isPrefix.isInfix
    have texts := reached.advance.textsOf_infixes isInfix
    rw [Cursor.advance_source] at texts
    unfold segments
    rwa [segmentsBy_map]

/-- Where raw arguments are accepted, a parenthesis closes them. -/
lemma encloses_of_rawArguments (reached : c.Reachable drift) {texts : List String} {c₁ : Cursor}
    (run : (rawArguments fuel).run dialect c = .accepted texts c₁) :
    ∃ inner rest, Encloses c.advance.ahead inner rest ∧
      ∀ token ∈ inner, token.kind.isMalformed = false := by
  obtain ⟨-, parts, split, -⟩ := accepted_rawArguments reached run
  obtain ⟨words, close, spelled, closes, sound, nested, level⟩ := closes_of_splitArguments split
  obtain ⟨places, others, eq, rfl, right⟩ :=
    List.map_eq_append_iff.mp (c.advance.map_snd_places.trans spelled)
  obtain ⟨last, after, rfl, rfl, -⟩ := List.map_eq_cons_iff.mp right
  have kinds := c.advance.kind_of_mem_places
  have tokens := c.advance.map_fst_places
  rw [eq] at kinds tokens
  rw [List.map_append, List.map_cons] at tokens
  have same : (places.map Prod.fst).map Token.kind = (places.map Prod.snd).map Word.kind := by
    rw [List.map_map, List.map_map]
    exact List.map_congr_left fun place mem => kinds place (List.mem_append_left _ mem)
  rw [← same] at sound nested level
  exact ⟨places.map Prod.fst, after.map Prod.fst,
    ⟨⟨last.1, (kinds last (by simp)).trans closes, tokens.symm⟩, nested, level⟩,
    fun token mem => (sound _ (List.mem_map_of_mem mem)).2⟩

/-! ### Arguments that are written -/

/-- The text of an argument: it is cut into tokens of which each parenthesis is closed and each
comma stands between parentheses. -/
structure IsArgument (drift : Bool) (text : String) : Prop where
  nonempty : text.isEmpty = false
  isVerbatim : IsVerbatim drift text
  closed : depthAfter 0 ((Cursor.ofSource drift text).words.map Word.kind) = some 0
  joined : Word.joined (Cursor.ofSource drift text).words = text

/-- Arguments between parentheses. -/
def writtenArguments (texts : List String) : String :=
  "(" ++ ", ".intercalate texts ++ ")"

/-- Each text that was read as an argument is one. -/
lemma isArgument_of_accepted {source : String} {texts : List String} {c₁ : Cursor}
    (here : (Site.within dialect source).holds c)
    (run : (rawArguments fuel).run dialect c = .accepted texts c₁) :
    ∀ text ∈ texts, IsArgument dialect.isDrift text := by
  have isVerbatim := rawArguments_verbatim fuel here run trivial
  obtain ⟨-, parts, split, rfl, words⟩ := accepted_rawArguments here.1 run
  have closed := (splitArguments_local split rfl).2
  intro text mem
  obtain ⟨inside, some⟩ := List.mem_filter.mp mem
  obtain ⟨part, isPart, rfl⟩ := List.mem_map.mp inside
  refine ⟨by simpa using some, isVerbatim _ mem, ?_, ?_⟩ <;> rw [words part isPart]
  · have kinds : (Word.front part).map Word.kind = part.map Word.kind := by
      cases part <;> rfl
    rw [kinds, closed part isPart]
  · exact Word.joined_front part

/-- The pieces of arguments between parentheses. -/
def argumentPieces (texts : List String) : List Render.Piece :=
  Render.parens (Render.commas (texts.map fun text => [.verbatim text]))

/-- Arguments are written as the text of their pieces. -/
lemma toList_writtenArguments (texts : List String) :
    (writtenArguments texts).toList = (Render.text (argumentPieces texts)).toList := by
  have inner : (", ".intercalate texts).toList =
      (Render.text (Render.commas (texts.map fun text => [.verbatim text]))).toList := by
    rw [String.toList_intercalate]
    cases texts with
    | nil => rfl
    | cons first rest =>
      unfold Render.commas
      induction rest generalizing first with
      | nil => simp [Render.separated, Render.Piece.text]
      | cons second rest ih =>
        have later := ih second
        simp only [List.map_cons] at later ⊢
        have step (part next : List Render.Piece) (others : List (List Render.Piece)) :
            Render.separated [.symbol .comma, .blank] (part :: next :: others) =
              part ++ [.symbol .comma, .blank] ++
                Render.separated [.symbol .comma, .blank] (next :: others) := rfl
        rw [List.intercalate_cons_cons, later, step, Render.toList_text_append]
        simp [Render.Piece.text, Symbol.text]
  simp [writtenArguments, argumentPieces, Render.parens, inner, Render.Piece.text, Symbol.text]

/-- Between parentheses, arguments are scanned before any text. -/
lemma legible_arguments {texts : List String} (each : ∀ text ∈ texts, IsArgument drift text) :
    Render.LegibleBefore drift (fun _ => True) (argumentPieces texts) := by
  have legible : Render.Legible drift
      (Render.commas (texts.map fun text => [.verbatim text])) := by
    refine .mapped fun text mem => ?_
    obtain ⟨list, isWhole⟩ := (each text mem).isVerbatim
    exact Render.legible_verbatim isWhole
  have pieces : argumentPieces texts = [.symbol .leftParen] ++
      (Render.commas (texts.map fun text => [.verbatim text]) ++ [.symbol .rightParen]) := rfl
  rw [pieces]
  refine .append (Render.legible_bracket (by simp))
    (.append legible (Render.legible_bracket (by simp)) fun rest _ => ?_) fun _ _ _ _ => trivial
  have inert : Inert ')' := ⟨by decide, by decide⟩
  simpa [Render.Piece.text, Symbol.text] using inert

/-- Arguments are read from what they are written as, whatever stands after them.

**Proof sketch.** The written list is legible before anything (`legible_arguments`), so its words
are those of the parentheses, the commas and the arguments. As each argument closes the parentheses
that it opens, these words are split at the commas into the words of the arguments
(`splitArguments_commas`), whose texts are the arguments. Raw arguments are read as their words are
split (`rawArguments_spells`). -/
lemma rawArguments_written {texts : List String} (each : ∀ text ∈ texts, IsArgument drift text)
    (after : String)
    (enough : (Cursor.ofSource drift (writtenArguments texts ++ after)).ahead.length ≤ fuel) :
    Accepts dialect (rawArguments fuel)
      (Cursor.ofSource drift (writtenArguments texts ++ after)) fun value _ => value = texts := by
  obtain ⟨words, later⟩ := Scans.exists_of_text drift after.toList
  have scans := legible_arguments each later fun _ _ => trivial
  rw [← toList_writtenArguments, ← String.toList_append] at scans
  have spells := scans.spells
  have commas := Form.wordsOf_commas drift (Form.verbatim drift)
    (fun text => [.verbatim text]) (fun text => (List.append_nil _).symm) texts
  simp only [argumentPieces, Render.parens, Render.wordsOf_symbol, Render.wordsOf_append, commas,
    Render.wordsOf_nil, List.cons_append, List.append_assoc, List.nil_append] at spells
  have reached : (Cursor.ofSource drift (writtenArguments texts ++ after)).Reachable drift :=
    ⟨0, rfl⟩
  generalize Cursor.ofSource drift (writtenArguments texts ++ after) = c at *
  have open_ : c.view.atSymbol .leftParen = true := Rereading.atSymbol_of_kind spells.current.1
  obtain ⟨parts, split, fixed, same⟩ : ∃ parts,
      splitArguments [] 0 ((Form.verbatim drift).commas.words texts ++
        .ofSymbol .rightParen :: words) = some (parts, words) ∧
      (∀ part ∈ parts, ∀ word ∈ part.tail, word.gap ≠ none) ∧ argumentTexts parts = texts := by
    by_cases empty : texts = []
    · subst empty
      exact ⟨[[]], splitArguments_close rfl, by simp, rfl⟩
    · refine ⟨_, Rereading.splitArguments_commas empty fun text mem => (each text mem).closed,
        ?_, ?_⟩
      · intro part mem
        obtain ⟨text, -, rfl⟩ := List.mem_map.mp mem
        exact Cursor.Reachable.gap_ne_none ⟨0, rfl⟩
      · have joined : (texts.map (Form.verbatim drift).words).map Word.joined = texts := by
          rw [List.map_map]
          exact (List.map_congr_left fun text mem => (each text mem).joined).trans (List.map_id _)
        rw [argumentTexts, joined, List.filter_eq_self]
        intro text mem
        simpa using (each text mem).nonempty
  exact (@rawArguments_spells dialect _ _ _ _ _ _ reached enough open_ spells.advance split
    fixed).mono fun value _ found => found.1.trans same

/-! ## Raw argument lists -/

/-- **Raw argument lists are split exactly.** At an opening parenthesis anywhere in a source, let
`inner` be the tokens before the one that closes it. If there is such a list without a malformed
token, then the arguments are the source texts of its segments that have any tokens, and the cursor
stops after the closing parenthesis. If not, they are rejected. Written with commas between them,
the texts are read as themselves.

**Proof sketch.** The loop splits the words ahead as `splitArguments` does, which goes along with
the number of open parentheses. Each segment stands in the source, where its text is that of its
words, and is cut into these words again wherever it is written. -/
theorem rawArguments_segments {source : String} {position : Nat}
    (at_ : c = Cursor.advance^[position] (Cursor.ofSource dialect.isDrift source))
    (opens : c.current.kind = .symbol .leftParen) (enough : c.ahead.length ≤ fuel) :
    (∀ inner rest, Encloses c.advance.ahead inner rest →
      (∀ token ∈ inner, token.kind.isMalformed = false) →
      ∃ texts, (rawArguments fuel).run dialect c =
          .accepted texts (Cursor.advance^[inner.length + 2] c) ∧
        ((segments inner).filter (!·.isEmpty)).map (textOf? source) = texts.map some ∧
        ∀ (after : String) (again : Cursor) (fuel' : Nat),
          again = Cursor.ofSource dialect.isDrift (writtenArguments texts ++ after) →
          again.ahead.length ≤ fuel' →
          ∃ stop, (rawArguments fuel').run dialect again = .accepted texts stop) ∧
    ((∀ inner rest, Encloses c.advance.ahead inner rest →
      ∃ token ∈ inner, token.kind.isMalformed = true) →
      ∃ error stop, (rawArguments fuel).run dialect c = .rejected error stop) := by
  have here : (Site.within dialect source).holds c := by
    subst at_
    have start : (Cursor.ofSource dialect.isDrift source).Reachable dialect.isDrift := ⟨0, rfl⟩
    exact ⟨start.iterate position, (Cursor.iterate_advance ..).2.2⟩
  have open_ : c.view.atSymbol .leftParen = true := Rereading.atSymbol_of_kind opens
  refine ⟨fun inner rest encloses sound => ?_, fun without => ?_⟩
  · obtain ⟨texts, run, slices⟩ := rawArguments_of_encloses here.1 enough open_ encloses sound
    refine ⟨texts, run, here.2 ▸ slices, ?_⟩
    rintro after again fuel' rfl enough'
    obtain ⟨_, stop, run', rfl⟩ :=
      @rawArguments_written dialect _ _ _ (isArgument_of_accepted here run) after enough'
    exact ⟨stop, run'⟩
  · cases run : (rawArguments fuel).run dialect c with
    | rejected error stop => exact ⟨error, stop, rfl⟩
    | accepted texts stop =>
      obtain ⟨inner, rest, encloses, sound⟩ := encloses_of_rawArguments here.1 run
      obtain ⟨token, mem, malformed⟩ := without inner rest encloses
      exact absurd ((sound token mem).symm.trans malformed) Bool.false_ne_true

/-- Commas in comments, strings and inner parentheses split nothing, and empty arguments are left
out. -/
theorem rawArguments_segments_nested :
    ∃ c : Cursor, c = Cursor.ofSource true "(a /*,*/ , f(b, c),, ')')" ∧
      c.current.kind = .symbol .leftParen ∧ c.ahead.length ≤ 13 ∧
      Encloses c.advance.ahead (c.advance.ahead.take 11) [] ∧
      (∀ token ∈ c.advance.ahead.take 11, token.kind.isMalformed = false) ∧
      ∃ stop, (rawArguments 13).run .drift c = .accepted ["a", "f(b, c)", "')'"] stop := by
  have facts : ∃ c : Cursor, c = Cursor.ofSource true "(a /*,*/ , f(b, c),, ')')" ∧
      c.current.isSymbol .leftParen = true ∧ c.ahead.length = 13 ∧
      (c.advance.ahead.drop 11).map (·.isSymbol .rightParen) = [true] ∧
      (∀ depth ∈ depths 0 ((c.advance.ahead.take 11).map Token.kind), 0 ≤ depth) ∧
      (depths 0 ((c.advance.ahead.take 11).map Token.kind)).getLast? = some 0 ∧
      (∀ token ∈ c.advance.ahead.take 11, token.kind.isMalformed = false) ∧
      ((segments (c.advance.ahead.take 11)).filter (!·.isEmpty)).map
        (textOf? "(a /*,*/ , f(b, c),, ')')") = ["a", "f(b, c)", "')'"].map some :=
    ⟨_, rfl, by decide +kernel⟩
  obtain ⟨c, rfl, opens, size, last, nested, level, sound, texts⟩ := facts
  rw [Token.isSymbol_eq, TokenKind.isSymbol_iff] at opens
  obtain ⟨close, rest, after, closes, empty⟩ := List.map_eq_cons_iff.mp last
  obtain rfl := List.map_eq_nil_iff.mp empty
  rw [Token.isSymbol_eq, TokenKind.isSymbol_iff] at closes
  have encloses : Encloses _ _ [] :=
    ⟨⟨close, closes, after ▸ (List.take_append_drop 11 _).symm⟩, nested, level⟩
  have start : Cursor.ofSource true "(a /*,*/ , f(b, c),, ')')" = Cursor.advance^[0]
      (Cursor.ofSource Dialect.drift.isDrift "(a /*,*/ , f(b, c),, ')')") := rfl
  obtain ⟨found, run, same, -⟩ :=
    (rawArguments_segments start opens size.le).1 _ _ encloses sound
  obtain rfl := (List.map_inj_right fun _ _ => Option.some.inj).mp (same.symm.trans texts)
  exact ⟨_, rfl, opens, size.le, encloses, sound, _, run⟩

end Grammar

end SqlTree
