import SqlTree.Proofs.Gates.Statement
import SqlTree.Proofs.Scanning

set_option autoImplicit false

/-!
# No construct without its feature

A dialect never accepts a construct of a feature that it lacks, at any depth of a tree: each parser
of such a construct demands the feature, asks whether the drift extensions are read, or needs a
token that exists only with them.

## Main results

* `SqlTree.Dialect.start_fits` — the tokens of a source fit the dialect that they were cut for.
* `SqlTree.Entry.parse_reads_features` — what a dialect accepts uses only its features.
-/

namespace SqlTree

/-- What is ahead of the first token of a list is in the list, or marks the end of input. -/
lemma Cursor.peek_ofTokens (source : String) (tokens : List Token) (distance : Nat) :
    (ofTokens source tokens).peek distance ∈ tokens ∨
      (ofTokens source tokens).peek distance = endToken source := by
  change (tokens.takeWhile _).getD distance _ ∈ tokens ∨
    (tokens.takeWhile _).getD distance _ = endToken source
  rw [List.getD_eq_getElem?_getD]
  cases found : (tokens.takeWhile (!·.isEnd))[distance]? with
  | some token => exact .inl (List.takeWhile_subset _ (List.mem_of_getElem? found))
  | none =>
    cases last : tokens.find? (·.isEnd) with
    | some token =>
      have eq : (ofTokens source tokens).last = token := by simp [ofTokens, last]
      exact .inl (eq ▸ List.mem_of_find?_eq_some last)
    | none => exact .inr (by simp [ofTokens, last])

/-- The tokens of a source fit the dialect that they were cut for. -/
lemma Dialect.start_fits (dialect : Dialect) (source : String) :
    (dialect.start source).Fits dialect := by
  intro distance doubled
  by_contra lacking
  rcases Cursor.peek_ofTokens source (tokenize dialect.isDrift source) distance with mem | last
  · exact lacking (tokenize_doubleStar mem doubled)
  · have kind : (Cursor.endToken source).kind = .symbol .doubleStar := last ▸ doubled
    simp [Cursor.endToken] at kind

namespace Entry

/-- What a parser of whole sources accepts uses only features of the dialect. -/
lemma parser_gated (entry : Entry) {dialect : Dialect} {rules : Grammar.Rules}
    (gated : rules.Gated dialect) :
    Parser.Ensures dialect (entry.parser rules) fun tree =>
      dialect.Reads (entry.features tree) := by
  cases entry with
  | statement => exact Grammar.wholeStatement_gated gated
  | expression => exact Grammar.wholeExpression_gated gated
  | script =>
    exact (Grammar.script_gated gated).mono fun list reads => Dialect.reads_flatMap.mpr reads
  | driftFile => exact Grammar.driftFile_gated gated

/-- **No gated construct slips through.** Whatever way a source is read, the tree that a dialect
accepts uses only features that the dialect has. -/
theorem parse_reads_features (entry : Entry) {dialect : Dialect} {source : String}
    {tree : entry.Tree} (accepted : entry.parse dialect source = .ok tree) :
    ∀ feature ∈ entry.features tree, dialect.supports feature = true := by
  rw [entry.parse_eq] at accepted
  obtain ⟨stop, run⟩ := Outcome.accepted_of_result accepted
  exact entry.parser_gated (Grammar.rules_gated dialect _ _) (dialect.start_fits source) run

/-- A filter over an arrow of JSON is read by a dialect that has windows and these arrows. -/
theorem parse_reads_features_filter :
    Entry.expression.parse (.custom "plain" [.upsert] false) "count(*) FILTER (WHERE a -> 1)" =
      .ok (.aggregate "count" .star none
        (some (.binary (.reference none none "a" ⟨23, 24, 1, 24⟩) .jsonExtract
          (.literal (.integer 1) ⟨28, 29, 1, 29⟩) ⟨23, 29, 1, 24⟩)) ⟨0, 30, 1, 1⟩) ∧
    ∀ feature ∈ [Feature.windowFunctions, .jsonArrows],
      (Dialect.custom "plain" [.upsert] false).supports feature = true := by
  have accepted : Entry.expression.parse (.custom "plain" [.upsert] false)
      "count(*) FILTER (WHERE a -> 1)" =
      .ok (.aggregate "count" .star none
        (some (.binary (.reference none none "a" ⟨23, 24, 1, 24⟩) .jsonExtract
          (.literal (.integer 1) ⟨28, 29, 1, 29⟩) ⟨23, 29, 1, 24⟩)) ⟨0, 30, 1, 1⟩) := rfl
  exact ⟨accepted, parse_reads_features .expression accepted⟩

end Entry

end SqlTree
