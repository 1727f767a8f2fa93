import SqlTree.Proofs.Gaps
import SqlTree.Proofs.Scanning

set_option autoImplicit false

/-!
# Cutting loses nothing

The tokens of a source and the gaps before them make up the source, and each token knows where its
text stands.

## Main definitions

* `SqlTree.Cut` — tokens that cut a text into gaps and lexemes.
* `SqlTree.gapsFrom` — the texts between the tokens of a source.
* `SqlTree.Lossless` — what is known about the tokens of a source.

## Main results

* `SqlTree.Scanner.tokensWithin_cut` — scanning cuts the text after a place.
* `SqlTree.tokenize_lossless` — the tokens of a source are lossless.
-/

namespace SqlTree

/-! ## Offsets -/

namespace Text

/-- The number of bytes of some characters. -/
def byteLength (chars : List Char) : Nat :=
  (String.ofList chars).utf8ByteSize

/-- No characters have no bytes. -/
@[simp] lemma byteLength_nil : byteLength [] = 0 := rfl

/-- The bytes of a character come before those of the others. -/
lemma byteLength_cons (c : Char) (rest : List Char) :
    byteLength (c :: rest) = c.utf8Size + byteLength rest := by
  simp [byteLength]

/-- The bytes of two texts in a row add up. -/
@[simp] lemma byteLength_append (a b : List Char) :
    byteLength (a ++ b) = byteLength a + byteLength b := by
  simp [byteLength]

/-- The characters of a text have as many bytes as the text. -/
lemma byteLength_toList (text : String) : byteLength text.toList = text.utf8ByteSize := by
  simp [byteLength]

/-- Some characters have some bytes. -/
lemma byteLength_pos {chars : List Char} (some : chars ≠ []) : 0 < byteLength chars := by
  obtain ⟨c, rest, rfl⟩ := List.exists_cons_of_ne_nil some
  rw [byteLength_cons]
  exact Nat.add_pos_left c.utf8Size_pos _

/-- Dropping the bytes of the first characters leaves the others. -/
lemma dropBytes?_append (before rest : List Char) :
    dropBytes? (before ++ rest) (byteLength before) = some rest := by
  induction before with
  | nil => simp [dropBytes?]
  | cons c before ih =>
    obtain ⟨size, eq⟩ := Nat.exists_eq_add_of_lt c.utf8Size_pos
    rw [byteLength_cons, List.cons_append]
    rw [show c.utf8Size + byteLength before = (size + byteLength before) + 1 by omega, dropBytes?,
      if_pos (by omega),
      show size + byteLength before + 1 - c.utf8Size = byteLength before by omega, ih]

/-- Taking the bytes of the first characters gives those characters. -/
lemma takeBytes?_append (inside rest : List Char) :
    takeBytes? (inside ++ rest) (byteLength inside) = some inside := by
  induction inside with
  | nil => simp [takeBytes?]
  | cons c inside ih =>
    obtain ⟨size, eq⟩ := Nat.exists_eq_add_of_lt c.utf8Size_pos
    rw [byteLength_cons, List.cons_append]
    rw [show c.utf8Size + byteLength inside = (size + byteLength inside) + 1 by omega, takeBytes?,
      if_pos (by omega),
      show size + byteLength inside + 1 - c.utf8Size = byteLength inside by omega, ih]
    rfl

/-- The text between two offsets, when the source is known around it. -/
lemma slice?_append (source : String) (before inside rest : List Char)
    (eq : source.toList = before ++ (inside ++ rest)) :
    slice? source (byteLength before) (byteLength (before ++ inside)) =
      some (String.ofList inside) := by
  rw [slice?, if_pos (by simp), eq, dropBytes?_append]
  simp [takeBytes?_append]

end Text

namespace Position

/-- Moving over two texts in a row moves over one and then over the other. -/
@[simp] lemma advance_append (position : Position) (a b : List Char) :
    position.advance (a ++ b) = (position.advance a).advance b :=
  List.foldl_append

/-- Moving over characters adds their bytes to the offset. -/
lemma advance_offset (position : Position) (chars : List Char) :
    (position.advance chars).offset = position.offset + Text.byteLength chars := by
  induction chars generalizing position with
  | nil => rfl
  | cons c rest ih =>
    have step : (position.next c).offset = position.offset + c.utf8Size := by
      unfold next
      split <;> rfl
    change ((position.next c).advance rest).offset = _
    rw [ih, step, Text.byteLength_cons]
    omega

end Position

/-! ## Cuts -/

/-- Tokens that cut the text after a place into gaps and lexemes. -/
inductive Cut : Position → List Char → List Token → Prop where
  | ends {position : Position} {gap : List Char} {last : Token} (isGap : Gap true gap)
    (kind : last.kind = .endOfInput) (lexeme : last.lexeme = "")
    (span : last.span = .between (position.advance gap) (position.advance gap)) :
    Cut position gap [last]
  | token {position : Position} {gap text rest : List Char} {token : Token} {others : List Token}
    (isGap : Gap false gap) (nonempty : text ≠ []) (kind : token.kind ≠ .endOfInput)
    (lexeme : token.lexeme = String.ofList text)
    (span : token.span = .between (position.advance gap) (position.advance (gap ++ text)))
    (later : Cut (position.advance (gap ++ text)) rest others) :
    Cut position (gap ++ (text ++ rest)) (token :: others)

/-- The token at the end of the input is of the kind of the end. -/
lemma Token.isEnd_iff {token : Token} : token.isEnd = true ↔ token.kind = .endOfInput := by
  unfold Token.isEnd
  split <;> simp_all

namespace Scanner

/-- The next token, when only a gap is left. -/
lemma next_of_gap {scanner : Scanner} (isGap : Gap true scanner.rest) :
    scanner.next =
      (⟨.endOfInput, "", .between (scanner.position.advance scanner.rest)
        (scanner.position.advance scanner.rest)⟩,
        ⟨scanner.drift, scanner.position.advance scanner.rest, []⟩) := by
  have length := (gapLength_eq_length_iff scanner.rest).mpr isGap
  unfold next
  simp [length]

/-- The next token, when text follows a gap: the lexeme is cut off the text, and is not empty. -/
lemma next_of_text {scanner : Scanner} (isText : ¬ Gap true scanner.rest) :
    ∃ gap text rest, scanner.rest = gap ++ (text ++ rest) ∧ Gap false gap ∧ text ≠ [] ∧
      scanner.next.1.kind ≠ .endOfInput ∧ scanner.next.1.lexeme = String.ofList text ∧
      scanner.next.1.span =
        .between (scanner.position.advance gap) (scanner.position.advance (gap ++ text)) ∧
      scanner.next.2 = ⟨scanner.drift, scanner.position.advance (gap ++ text), rest⟩ := by
  obtain ⟨gap, rest, eq, length, isGap⟩ := gap_split scanner.rest
  cases rest with
  | nil => exact absurd (by rw [eq]; simpa using isGap) isText
  | cons first rest =>
    have skip : scanner.rest.drop (gapLength scanner.rest) = first :: rest := by
      rw [length, eq, List.drop_left]
    have taken : scanner.rest.take (gapLength scanner.rest) = gap := by
      rw [length, eq, List.take_left]
    refine ⟨gap, first :: rest.take (scanToken scanner.drift first rest).tail,
      rest.drop (scanToken scanner.drift first rest).tail, ?_, isGap, by simp, ?_⟩
    · rw [eq, List.cons_append, List.take_append_drop]
    · unfold next
      simp only [skip, taken, Position.advance_append, and_true]
      exact scanToken_isScanned.notEnd

/-- **Scanning cuts the text after a place.** The last token marks the end of input, and scanning
goes on with that token forever.

**Proof sketch.** By induction on the number of tokens that may be scanned. If only a gap is left,
the next token marks the end, and the scanner yields it again. Otherwise it passes over a gap and
cuts a text that is not empty, and the induction hypothesis is about what is left. -/
lemma tokensWithin_cut (scanner : Scanner) {fuel : Nat} (enough : scanner.rest.length < fuel) :
    Cut scanner.position scanner.rest (scanner.tokensWithin fuel).1 ∧
      ∃ last, (scanner.tokensWithin fuel).1.getLast? = some last ∧
        (scanner.tokensWithin fuel).2.next = (last, (scanner.tokensWithin fuel).2) := by
  induction fuel generalizing scanner with
  | zero => exact absurd enough (Nat.not_lt_zero _)
  | succ fuel ih =>
    by_cases isGap : Gap true scanner.rest
    · have next := next_of_gap isGap
      have run : scanner.tokensWithin (fuel + 1) = ([scanner.next.1], scanner.next.2) := by
        unfold tokensWithin
        simp [next, Token.isEnd]
      rw [run, next]
      exact ⟨.ends isGap rfl rfl rfl, _, rfl, next_of_gap .nil⟩
    · obtain ⟨gap, text, rest, eq, isGap, nonempty, kind, lexeme, span, after⟩ :=
        next_of_text isGap
      have run : scanner.tokensWithin (fuel + 1) =
          (scanner.next.1 :: (scanner.next.2.tokensWithin fuel).1,
            (scanner.next.2.tokensWithin fuel).2) := by
        rw [tokensWithin]
        exact if_neg (mt Token.isEnd_iff.mp kind)
      have shorter : scanner.next.2.rest.length < fuel := by
        have := List.length_pos_iff.mpr nonempty
        rw [eq] at enough
        simp only [List.length_append] at enough
        rw [after]
        dsimp only
        omega
      obtain ⟨cut, last, isLast, again⟩ := ih scanner.next.2 shorter
      rw [run]
      refine ⟨?_, last, ?_, again⟩
      · rw [eq]
        rw [after] at cut
        exact .token isGap nonempty kind lexeme span (after ▸ cut)
      · dsimp only
        rw [List.getLast?_cons, isLast, Option.getD_some]

end Scanner

/-! ## Tokens and gaps of a source -/

/-- The texts of a source before its tokens, from an offset on. -/
def gapsFrom (source : String) : Nat → List Token → List (Option String)
  | _, [] => []
  | offset, token :: rest =>
    Text.slice? source offset token.span.start :: gapsFrom source token.span.stop rest

/-- What is known about the tokens of a source. -/
structure Lossless (drift : Bool) (source : String) (tokens : List Token) : Prop where
  /-- Exactly the last token marks the end of input. It is empty and stands at the end, and the
  others are not empty. -/
  ends : ∃ others last, tokens = others ++ [last] ∧
    last.kind = .endOfInput ∧ last.lexeme = "" ∧
    last.span.start = source.utf8ByteSize ∧ last.span.stop = source.utf8ByteSize ∧
    ∀ token ∈ others, token.kind ≠ .endOfInput ∧ token.span.start < token.span.stop
  /-- Spans are in order and disjoint. -/
  ordered : tokens.Pairwise fun a b => a.span.stop ≤ b.span.start
  /-- Spans are inside the source. -/
  inside : ∀ token ∈ tokens,
    token.span.start ≤ token.span.stop ∧ token.span.stop ≤ source.utf8ByteSize
  /-- A lexeme is what the source has at its span. In particular the span ends between
  characters. -/
  lexemes : ∀ token ∈ tokens,
    Text.slice? source token.span.start token.span.stop = some token.lexeme
  /-- The texts before the tokens are gaps, of which only the last may end in an open comment.
  With the lexemes they make up the source. -/
  gaps : ∃ gaps, gapsFrom source 0 tokens = gaps.map some ∧
    (∀ gap ∈ gaps, Gap true gap.toList ∧
      ∃ last, tokenize drift gap = [last] ∧ last.kind = .endOfInput) ∧
    (∀ gap ∈ gaps.dropLast, Gap false gap.toList) ∧
    source = String.join (List.zipWith (fun gap token => gap ++ token.lexeme) gaps tokens)

namespace Cut

variable {position : Position} {rest : List Char} {tokens : List Token}

/-- Later tokens start at the place or after it, and end after they start. -/
lemma start_le (cut : Cut position rest tokens) {token : Token} (mem : token ∈ tokens) :
    position.offset ≤ token.span.start ∧ token.span.start ≤ token.span.stop := by
  induction cut with
  | ends _ _ _ span =>
    rw [List.mem_singleton.mp mem, span]
    simp [Span.between, Position.advance_offset]
  | token _ _ _ _ span _ ih =>
    rcases List.mem_cons.mp mem with rfl | later
    · rw [span]
      simp [Span.between, Position.advance_offset]
    · have := ih later
      simp only [Position.advance_offset, Text.byteLength_append] at this
      omega

/-- The tokens of a cut stand one after the other. -/
lemma ordered (cut : Cut position rest tokens) :
    tokens.Pairwise fun a b => a.span.stop ≤ b.span.start := by
  induction cut with
  | ends => exact List.pairwise_singleton _ _
  | token _ _ _ _ span later ih =>
    refine List.pairwise_cons.mpr ⟨fun token mem => ?_, ih⟩
    rw [span]
    exact (later.start_le mem).1

section

variable {source : String} {before gap text : List Char}

/-- A source around a place is also known around the place after one more token. -/
lemma whole_later (whole : source.toList = before ++ (gap ++ (text ++ rest))) :
    source.toList = (before ++ (gap ++ text)) ++ rest := by
  simpa using whole

/-- The offset after a gap and a text is the bytes before it and those of both. -/
lemma offset_later (here : position.offset = Text.byteLength before) :
    (position.advance (gap ++ text)).offset = Text.byteLength (before ++ (gap ++ text)) := by
  simp [Position.advance_offset, here, Nat.add_assoc]

/-- The last token of a cut marks the end of the source, and no other does. -/
lemma ends_last (cut : Cut position rest tokens) (whole : source.toList = before ++ rest)
    (here : position.offset = Text.byteLength before) :
    ∃ others last, tokens = others ++ [last] ∧
      last.kind = .endOfInput ∧ last.lexeme = "" ∧
      last.span.start = source.utf8ByteSize ∧ last.span.stop = source.utf8ByteSize ∧
      ∀ token ∈ others, token.kind ≠ .endOfInput ∧ token.span.start < token.span.stop := by
  induction cut generalizing before with
  | @ends position gap last _ kind lexeme span =>
    have size : (position.advance gap).offset = source.utf8ByteSize := by
      rw [Position.advance_offset, here, ← Text.byteLength_append, ← whole, Text.byteLength_toList]
    exact ⟨[], last, rfl, kind, lexeme, by rw [span]; exact size, by rw [span]; exact size,
      by simp⟩
  | @token position gap text rest token others _ nonempty kind _ span _ ih =>
    obtain ⟨others, last, rfl, isEnd, lexeme, start, stop, each⟩ := ih (whole_later whole)
      (offset_later here)
    refine ⟨token :: others, last, rfl, isEnd, lexeme, start, stop, fun other mem => ?_⟩
    rcases List.mem_cons.mp mem with rfl | later
    · refine ⟨kind, ?_⟩
      have := Text.byteLength_pos nonempty
      rw [span]
      simp only [Span.between, Position.advance_offset, Text.byteLength_append]
      omega
    · exact each other later

/-- A token of the source stands where its lexeme is. -/
lemma slice (cut : Cut position rest tokens) (whole : source.toList = before ++ rest)
    (here : position.offset = Text.byteLength before) {token : Token} (mem : token ∈ tokens) :
    Text.slice? source token.span.start token.span.stop = some token.lexeme := by
  induction cut generalizing before with
  | @ends position gap last _ _ lexeme span =>
    rw [List.mem_singleton.mp mem, span, lexeme]
    have := Text.slice?_append source (before ++ gap) [] [] (by simpa using whole)
    simpa [Span.between, Position.advance_offset, here] using this
  | @token position gap text rest token others _ _ _ lexeme span _ ih =>
    rcases List.mem_cons.mp mem with rfl | later
    · rw [span, lexeme]
      have := Text.slice?_append source (before ++ gap) text rest (by simpa using whole)
      simpa [Span.between, Position.advance_offset, here, Nat.add_assoc] using this
    · exact ih (whole_later whole) (offset_later here) later

/-- The texts before the tokens of the source are gaps. -/
lemma gaps (cut : Cut position rest tokens) (whole : source.toList = before ++ rest)
    (here : position.offset = Text.byteLength before) :
    ∃ gaps : List (List Char),
      gapsFrom source position.offset tokens = gaps.map (some ∘ String.ofList) ∧
      (∀ gap ∈ gaps, Gap true gap) ∧ (∀ gap ∈ gaps.dropLast, Gap false gap) ∧ gaps ≠ [] ∧
      String.ofList rest =
        String.join (List.zipWith (fun gap token => String.ofList gap ++ token.lexeme) gaps tokens)
      := by
  induction cut generalizing before with
  | @ends position gap last isGap _ lexeme span =>
    have cutOut := Text.slice?_append source before gap [] (by simpa using whole)
    refine ⟨[gap], ?_, by simpa using isGap, by simp, by simp, ?_⟩
    · simpa [gapsFrom, span, Span.between, Position.advance_offset, here] using cutOut
    · simp [lexeme, String.join_cons]
  | @token position gap text rest token others isGap _ _ lexeme span _ ih =>
    have cutOut := Text.slice?_append source before gap (text ++ rest) whole
    obtain ⟨gaps, eq, each, inner, some, joined⟩ := ih (whole_later whole) (offset_later here)
    refine ⟨gap :: gaps, ?_, ?_, ?_, by simp, ?_⟩
    · rw [gapsFrom, span, List.map_cons]
      congr 1
      simpa [Span.between, Position.advance_offset, here] using cutOut
    · simpa using ⟨isGap.atEnd, each⟩
    · rw [List.dropLast_cons_of_ne_nil some]
      simpa using ⟨isGap, inner⟩
    · rw [String.ofList_append, String.ofList_append, joined, List.zipWith_cons_cons,
        String.join_cons, lexeme, String.append_assoc]

end

end Cut

/-! ## Results -/

/-- A text is cut into nothing but the end of input exactly if it is a gap. -/
lemma tokenize_eq_singleton_iff (drift : Bool) (text : String) :
    (∃ last, tokenize drift text = [last] ∧ last.kind = .endOfInput) ↔ Gap true text.toList := by
  have cut : Cut .origin text.toList (tokenize drift text) :=
    (Scanner.tokensWithin_cut (.ofSource drift text) (Nat.lt_succ_self _)).1
  constructor
  · rintro ⟨last, eq, kind⟩
    rw [eq] at cut
    generalize text.toList = chars at cut
    cases cut with
    | ends isGap => exact isGap
    | token _ _ other => exact absurd kind other
  · intro isGap
    have next : (Scanner.ofSource drift text).next = _ := Scanner.next_of_gap isGap
    refine ⟨(Scanner.ofSource drift text).next.1, ?_, by rw [next]⟩
    unfold tokenize Scanner.tokens Scanner.tokensWithin
    simp [next, Token.isEnd]

/-- The tokens of a source are lossless.

**Proof sketch.** The tokens are a cut of the whole source (`Scanner.tokensWithin_cut`), and each
part is read off it: where the last token is, that they are ordered, that each text is a slice, and
that gaps and texts make up the source. A gap contains no token, as it tokenizes to the end alone
(`tokenize_eq_singleton_iff`). -/
lemma lossless_tokenize (drift : Bool) (source : String) :
    Lossless drift source (tokenize drift source) := by
  obtain ⟨cut, -⟩ := Scanner.tokensWithin_cut (.ofSource drift source) (Nat.lt_succ_self _)
  change Cut .origin source.toList (tokenize drift source) at cut
  have whole : source.toList = [] ++ source.toList := rfl
  have here : Position.origin.offset = Text.byteLength [] := rfl
  have ends := cut.ends_last whole here
  refine ⟨ends, cut.ordered, fun token mem => ⟨(cut.start_le mem).2, ?_⟩,
    fun token mem => cut.slice whole here mem, ?_⟩
  · obtain ⟨others, last, eq, -, -, start, stop, -⟩ := ends
    have ordered := cut.ordered
    rw [eq] at mem ordered
    rcases List.mem_append.mp mem with other | isLast
    · have := (List.pairwise_append.mp ordered).2.2 token other last (List.mem_singleton_self _)
      omega
    · exact Nat.le_of_eq (by rw [List.mem_singleton.mp isLast, stop])
  · obtain ⟨gaps, eq, each, inner, -, joined⟩ := cut.gaps whole here
    refine ⟨gaps.map String.ofList, ?_, ?_, ?_, ?_⟩
    · rw [List.map_map]
      exact eq
    · intro gap mem
      obtain ⟨chars, isGap, rfl⟩ := List.mem_map.mp mem
      have isGap : Gap true (String.ofList chars).toList := by
        rw [String.toList_ofList]
        exact each chars isGap
      exact ⟨isGap, (tokenize_eq_singleton_iff drift _).mpr isGap⟩
    · intro gap mem
      rw [← List.map_dropLast] at mem
      obtain ⟨chars, isGap, rfl⟩ := List.mem_map.mp mem
      rw [String.toList_ofList]
      exact inner chars isGap
    · rw [String.ofList_toList] at joined
      rw [List.zipWith_map_left]
      exact joined

/-- **Cutting loses nothing.** The tokens of a source are lossless, after the last token comes the
same token again, and a text without tokens is a gap. -/
theorem tokenize_lossless (drift : Bool) (source : String) :
    Lossless drift source (tokenize drift source) ∧
      (∃ last, (tokenize drift source).getLast? = some last ∧
        (Scanner.ofSource drift source).tokens.2.next =
          (last, (Scanner.ofSource drift source).tokens.2)) ∧
      ∀ text, (∃ last, tokenize drift text = [last] ∧ last.kind = .endOfInput) ↔
        Gap true text.toList := by
  obtain ⟨-, again⟩ := Scanner.tokensWithin_cut (.ofSource drift source) (Nat.lt_succ_self _)
  exact ⟨lossless_tokenize drift source, again, tokenize_eq_singleton_iff drift⟩

end SqlTree
