import Mathlib.Tactic.Lemma
import SqlTree.Token.Lexer

set_option autoImplicit false

/-!
# Gaps

A gap is what may stand between two tokens: blanks, comments from two hyphens to the end of the
line, and comments up to the first `*/`. At the end of a source the last comment may be open.

## Main definitions

* `SqlTree.Gap` — the texts of gaps.

## Main results

* `SqlTree.gap_split` — the characters that are skipped before a token are a gap.
* `SqlTree.gapLength_eq_length_iff` — all characters of a text are skipped exactly if it is a gap
  that may end in an open comment.
-/

namespace SqlTree

/-- The text of a comment that is open holds no end of a comment. -/
def IsCommentText (text : List Char) : Prop :=
  ¬ ['*', '/'] <:+: text

/-- A gap: blanks and comments, of which the last one may be open if the gap is at the end of a
source. -/
inductive Gap (atEnd : Bool) : List Char → Prop where
  | nil : Gap atEnd []
  | blank {c : Char} {rest : List Char} (isBlank : Text.isBlank c = true)
    (others : Gap atEnd rest) : Gap atEnd (c :: rest)
  | line {text rest : List Char} (within : '\n' ∉ text) (others : Gap atEnd rest) :
    Gap atEnd ('-' :: '-' :: (text ++ '\n' :: rest))
  | block {text rest : List Char} (within : IsCommentText (text ++ ['*']))
    (others : Gap atEnd rest) : Gap atEnd ('/' :: '*' :: (text ++ '*' :: '/' :: rest))
  | openLine {text : List Char} (isEnd : atEnd = true) (within : '\n' ∉ text) :
    Gap atEnd ('-' :: '-' :: text)
  | openBlock {text : List Char} (isEnd : atEnd = true) (within : IsCommentText text) :
    Gap atEnd ('/' :: '*' :: text)

/-- A gap between tokens may also stand at the end. -/
lemma Gap.atEnd {atEnd : Bool} {gap : List Char} (isGap : Gap atEnd gap) : Gap true gap := by
  induction isGap with
  | nil => exact .nil
  | blank isBlank _ ih => exact .blank isBlank ih
  | line within _ ih => exact .line within ih
  | block within _ ih => exact .block within ih
  | openLine _ within => exact .openLine rfl within
  | openBlock _ within => exact .openBlock rfl within

/-! ## Comments -/

/-- The text of a comment with one more character in front is one, unless that closes it. -/
lemma isCommentText_cons {c : Char} {text : List Char} (within : IsCommentText text)
    (apart : c = '*' → text.head? ≠ some '/') : IsCommentText (c :: text) := by
  intro ends
  rcases List.infix_cons_iff.mp ends with start | later
  · obtain ⟨rest, eq⟩ := start
    obtain ⟨rfl, rfl⟩ := List.cons.inj eq
    exact apart rfl rfl
  · exact within later

/-- A comment to the end of the line ends there, or is open. -/
lemma lineComment_cases (chars : List Char) :
    ('\n' ∉ chars ∧ lineCommentLength chars = chars.length) ∨
    ∃ text rest, chars = text ++ '\n' :: rest ∧ '\n' ∉ text ∧
      lineCommentLength chars = text.length + 1 + gapLength rest := by
  induction chars with
  | nil => exact .inl ⟨by simp, by simp [lineCommentLength]⟩
  | cons c rest ih =>
    by_cases feed : c = '\n'
    · subst feed
      exact .inr ⟨[], rest, rfl, by simp, by simp [lineCommentLength]; omega⟩
    · rcases ih with ⟨none, length⟩ | ⟨text, after, rfl, none, length⟩
      · refine .inl ⟨by simp [none, Ne.symm feed], by simp [lineCommentLength, feed, length]⟩
      · refine .inr ⟨c :: text, after, rfl, by simp [none, Ne.symm feed], ?_⟩
        simp only [lineCommentLength, if_neg feed, length, List.length_cons]
        omega

/-- A comment in asterisks ends at the first end mark, or is open. -/
lemma blockComment_cases (chars : List Char) :
    (IsCommentText chars ∧ blockCommentLength chars = chars.length) ∨
    ∃ text rest, chars = text ++ '*' :: '/' :: rest ∧ IsCommentText (text ++ ['*']) ∧
      blockCommentLength chars = text.length + 2 + gapLength rest := by
  induction chars with
  | nil => exact .inl ⟨by simp [IsCommentText], by simp [blockCommentLength]⟩
  | cons c rest ih =>
    by_cases ends : c = '*' ∧ rest.head? = some '/'
    · obtain ⟨rfl, head⟩ := ends
      obtain ⟨after, rfl⟩ := List.head?_eq_some_iff.mp head
      refine .inr ⟨[], after, rfl, ?_, by simp [blockCommentLength]; omega⟩
      intro infix_
      simpa using infix_.length_le
    · have step : blockCommentLength (c :: rest) = blockCommentLength rest + 1 := by
        rw [blockCommentLength.eq_2]
        rintro after rfl rfl
        exact ends ⟨rfl, rfl⟩
      have apart : c = '*' → rest.head? ≠ some '/' := fun star slash => ends ⟨star, slash⟩
      rcases ih with ⟨none, length⟩ | ⟨text, after, rfl, none, length⟩
      · exact .inl ⟨isCommentText_cons none apart, by simp [step, length]⟩
      · refine .inr ⟨c :: text, after, rfl, isCommentText_cons none fun star => ?_, ?_⟩
        · have := apart star
          cases text <;> simp_all
        · rw [step, length, List.length_cons]
          omega

/-! ## Skipping gaps -/

/-- What is skipped before a token is a gap, and is at the end if nothing follows it.

**Proof sketch.** By induction on the number of characters. A comment of one line ends at the end of
that line or of the text, and a block comment after its closing mark or at the end of the text.
After a comment that is closed, and after a blank, the induction hypothesis is about what is left.
Before any other character nothing is skipped. -/
lemma gap_split (chars : List Char) :
    ∃ gap rest, chars = gap ++ rest ∧ gapLength chars = gap.length ∧ Gap rest.isEmpty gap := by
  induction size : chars.length using Nat.strongRecOn generalizing chars with
  | ind size ih =>
    subst size
    unfold gapLength
    split
    · next after =>
      rcases lineComment_cases after with ⟨within, length⟩ | ⟨text, after, rfl, within, length⟩
      · exact ⟨'-' :: '-' :: after, [], by simp, by simp [length], .openLine rfl within⟩
      · obtain ⟨gap, rest, rfl, skipped, isGap⟩ := ih _ (by simp; omega) after rfl
        refine ⟨'-' :: '-' :: (text ++ '\n' :: gap), rest, by simp, ?_, .line within isGap⟩
        simp only [length, skipped, List.length_cons, List.length_append]
        omega
    · next after =>
      rcases blockComment_cases after with ⟨within, length⟩ | ⟨text, after, rfl, within, length⟩
      · exact ⟨'/' :: '*' :: after, [], by simp, by simp [length], .openBlock rfl within⟩
      · obtain ⟨gap, rest, rfl, skipped, isGap⟩ := ih _ (by simp; omega) after rfl
        refine ⟨'/' :: '*' :: (text ++ '*' :: '/' :: gap), rest, by simp, ?_, .block within isGap⟩
        simp only [length, skipped, List.length_cons, List.length_append]
        omega
    · next c after _ _ =>
      split
      · next isBlank =>
        obtain ⟨gap, rest, rfl, skipped, isGap⟩ := ih _ (by simp) after rfl
        exact ⟨c :: gap, rest, rfl, by simp [skipped], .blank isBlank isGap⟩
      · exact ⟨[], c :: after, rfl, rfl, .nil⟩
    · exact ⟨[], [], rfl, rfl, .nil⟩

/-- No gap follows what is skipped before a token.

**Proof sketch.** By induction on the number of characters, along what is skipped: after a closed
comment or a blank, what is left has fewer characters, and nothing is left after an open one. -/
lemma gapLength_drop {chars : List Char} {skipped : Nat} (eq : gapLength chars = skipped) :
    gapLength (chars.drop skipped) = 0 := by
  induction size : chars.length using Nat.strongRecOn generalizing chars skipped with
  | ind size ih =>
    subst size
    unfold gapLength at eq
    split at eq
    · next after =>
      rcases lineComment_cases after with ⟨-, length⟩ | ⟨text, after, rfl, -, length⟩
      · rw [← eq, List.drop_of_length_le (by simp [length])]
        rfl
      · rw [show '-' :: '-' :: (text ++ '\n' :: after) =
          ('-' :: '-' :: (text ++ ['\n'])) ++ after by simp, ← eq, length,
          show text.length + 1 + gapLength after + 2 =
            ('-' :: '-' :: (text ++ ['\n'])).length + gapLength after by simp; omega,
          List.drop_length_add_append]
        exact ih _ (by simp; omega) rfl rfl
    · next after =>
      rcases blockComment_cases after with ⟨-, length⟩ | ⟨text, after, rfl, -, length⟩
      · rw [← eq, List.drop_of_length_le (by simp [length])]
        rfl
      · rw [show '/' :: '*' :: (text ++ '*' :: '/' :: after) =
          ('/' :: '*' :: (text ++ ['*', '/'])) ++ after by simp, ← eq, length,
          show text.length + 2 + gapLength after + 2 =
            ('/' :: '*' :: (text ++ ['*', '/'])).length + gapLength after by simp; omega,
          List.drop_length_add_append]
        exact ih _ (by simp; omega) rfl rfl
    · next c after line block =>
      split at eq
      · rw [← eq, List.drop_succ_cons]
        exact ih _ (by simp) rfl rfl
      · next blank =>
        rw [← eq, List.drop_zero, gapLength.eq_3 _ _ line block, if_neg blank]
    · rw [← eq]
      rfl

/-- A blank is skipped. -/
lemma gapLength_blank {c : Char} {rest : List Char} (isBlank : Text.isBlank c = true) :
    gapLength (c :: rest) = gapLength rest + 1 := by
  rw [gapLength.eq_3, if_pos isBlank]
  · rintro after rfl rfl
    exact absurd isBlank (by decide)
  · rintro after rfl rfl
    exact absurd isBlank (by decide)

/-- A comment of one line is skipped to the end of the line. -/
lemma lineCommentLength_append {text rest : List Char} (within : '\n' ∉ text) :
    lineCommentLength (text ++ '\n' :: rest) = text.length + 1 + gapLength rest := by
  induction text with
  | nil => simp [lineCommentLength]; omega
  | cons c text ih =>
    obtain ⟨here, later⟩ := not_or.mp (mt List.mem_cons.mpr within)
    simp only [List.cons_append, lineCommentLength, if_neg (Ne.symm here), ih later,
      List.length_cons]
    omega

/-- A comment of one line at the end is skipped to the end. -/
lemma lineCommentLength_open {text : List Char} (within : '\n' ∉ text) :
    lineCommentLength text = text.length := by
  induction text with
  | nil => simp [lineCommentLength]
  | cons c text ih =>
    obtain ⟨here, later⟩ := not_or.mp (mt List.mem_cons.mpr within)
    simp only [lineCommentLength, if_neg (Ne.symm here), ih later, List.length_cons]

/-- A comment text goes on after a character that does not end it. -/
lemma blockCommentLength_cons {c : Char} {text : List Char}
    (within : ¬ ['*', '/'] <+: c :: text) :
    blockCommentLength (c :: text) = blockCommentLength text + 1 := by
  rw [blockCommentLength.eq_2]
  rintro after rfl rfl
  exact within ⟨after, rfl⟩

/-- A block comment is skipped with its closing mark. -/
lemma blockCommentLength_append {text rest : List Char} (within : IsCommentText (text ++ ['*'])) :
    blockCommentLength (text ++ '*' :: '/' :: rest) = text.length + 2 + gapLength rest := by
  induction text with
  | nil => simp [blockCommentLength]; omega
  | cons c text ih =>
    have later : IsCommentText (text ++ ['*']) := fun ends => within (List.infix_cons ends)
    rw [List.cons_append, blockCommentLength_cons, ih later, List.length_cons]
    · omega
    · rintro ⟨after, eq⟩
      obtain ⟨rfl, slash⟩ := List.cons.inj eq
      cases text with
      | nil => simp at slash
      | cons d text =>
        obtain ⟨rfl, -⟩ := List.cons.inj slash
        exact within (List.IsPrefix.isInfix ⟨text ++ ['*'], rfl⟩)

/-- A block comment that is not closed is skipped to the end. -/
lemma blockCommentLength_open {text : List Char} (within : IsCommentText text) :
    blockCommentLength text = text.length := by
  induction text with
  | nil => simp [blockCommentLength]
  | cons c text ih =>
    rw [blockCommentLength_cons fun start => within start.isInfix,
      ih fun ends => within (List.infix_cons ends), List.length_cons]

/-- All characters of a text are skipped exactly if it is a gap that may be at the end. -/
lemma gapLength_eq_length_iff (chars : List Char) :
    gapLength chars = chars.length ↔ Gap true chars := by
  constructor
  · intro length
    obtain ⟨gap, rest, rfl, skipped, isGap⟩ := gap_split chars
    obtain rfl : rest = [] := List.length_eq_zero_iff.mp (by simp at length; omega)
    simpa using isGap
  · intro isGap
    induction isGap with
    | nil => rfl
    | blank isBlank _ ih => rw [gapLength_blank isBlank, ih, List.length_cons]
    | line within _ ih =>
      simp only [gapLength, lineCommentLength_append within, ih, List.length_cons,
        List.length_append]
      omega
    | block within _ ih =>
      simp only [gapLength, blockCommentLength_append within, ih, List.length_cons,
        List.length_append]
      omega
    | openLine _ within => simp [gapLength, lineCommentLength_open within]
    | openBlock _ within => simp [gapLength, blockCommentLength_open within]

end SqlTree
