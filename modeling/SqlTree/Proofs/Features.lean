import SqlTree.Proofs.Entry
import SqlTree.Version

set_option autoImplicit false

/-!
# What the features of a dialect do to a run

A dialect acts on a parser at two kinds of nodes only: where a feature is demanded, and where it is
asked whether the drift extensions are read. So two dialects that agree about the drift extensions
walk through a decision tree side by side until one of them lacks a feature that is demanded, and
there its run ends with an error that says so.

## Main definitions

* `SqlTree.Dialect.Within` — one dialect reads all that another one reads.
* `SqlTree.Version.thresholds` — the releases that changed the grammar.

## Main results

* `SqlTree.Entry.parse_of_fewer_features` — a dialect with fewer features only rejects more.
* `SqlTree.Entry.parse_sqlite_threshold` — the releases of SQLite that read a source are those from
  some release on.
-/

namespace SqlTree

/-! ## Two dialects side by side -/

namespace Dialect

/-- All that one dialect reads is read by the other too, and both agree about the drift
extensions. -/
structure Within (fewer more : Dialect) : Prop where
  isDrift : fewer.isDrift = more.isDrift
  supports : ∀ feature, fewer.supports feature = true → more.supports feature = true

/-- Dialects that both have the drift extensions, or neither, start alike. -/
lemma start_congr {a b : Dialect} (isDrift : a.isDrift = b.isDrift) (source : String) :
    a.start source = b.start source := by
  unfold start
  rw [isDrift]

end Dialect

namespace Outcome

variable {α : Type}

/-- The run ended because the dialect lacks a feature. -/
def IsUnsupported (dialect : Dialect) (outcome : Outcome α) : Prop :=
  ∃ construct span stop, outcome = .rejected (.unsupported construct dialect.name span) stop

/-- A run that lacks a feature has no tree. -/
lemma IsUnsupported.result {dialect : Dialect} {outcome : Outcome α}
    (unsupported : outcome.IsUnsupported dialect) :
    ∃ construct span, outcome.result = .error (.unsupported construct dialect.name span) := by
  obtain ⟨construct, span, stop, rfl⟩ := unsupported
  exact ⟨construct, span, rfl⟩

end Outcome

namespace Parser

variable {α : Type}

/-- **Features only reject.** A run in a dialect with fewer features is the run in the dialect with
more of them, or it ends for lack of one. -/
lemma run_of_within {fewer more : Dialect} (within : fewer.Within more) (parser : Parser α)
    (cursor : Cursor) :
    parser.run fewer cursor = parser.run more cursor ∨
      (parser.run fewer cursor).IsUnsupported fewer := by
  induction parser generalizing cursor with
  | done | reject => exact .inl rfl
  | look next ih | read start next ih => exact ih _ _
  | ask next ih =>
    simp only [run]
    rw [within.isDrift]
    exact ih _ _
  | take next ih =>
    simp only [run]
    split
    · exact .inl rfl
    · exact ih _ _
  | demand feature construct span next ih =>
    simp only [run]
    by_cases has : fewer.supports feature = true
    · rw [if_pos has, if_pos (within.supports feature has)]
      exact ih _ _
    · rw [if_neg has]
      exact .inr ⟨construct, span, cursor, rfl⟩

/-- **What a run demands.** A run that one dialect accepts demands a list of features: dialects that
have them all accept alike, and a dialect that lacks one of them says so.

**Proof sketch.** By induction on the parser. A step that demands a feature adds it to the list, and
a dialect that lacks it is told so there. In every other step nothing depends on the dialect but
whether it has the drift extensions, and the induction hypothesis gives the list. -/
lemma accepted_demands {dialect : Dialect} {parser : Parser α} {cursor stop : Cursor} {value : α}
    (accepted : parser.run dialect cursor = .accepted value stop) :
    ∃ demands : List Feature, (∀ feature ∈ demands, dialect.supports feature = true) ∧
      ∀ other : Dialect, other.isDrift = dialect.isDrift →
        ((∀ feature ∈ demands, other.supports feature = true) →
          parser.run other cursor = .accepted value stop) ∧
        ((∃ feature ∈ demands, other.supports feature = false) →
          (parser.run other cursor).IsUnsupported other) := by
  induction parser generalizing cursor with
  | done other =>
    refine ⟨[], by simp, fun other _ => ⟨fun _ => accepted, ?_⟩⟩
    rintro ⟨feature, mem, -⟩
    simp at mem
  | reject error => simp [run] at accepted
  | look next ih | read start next ih => exact ih _ accepted
  | ask next ih =>
    simp only [run] at accepted
    obtain ⟨demands, has, spec⟩ := ih _ accepted
    refine ⟨demands, has, fun other same => ?_⟩
    simp only [run]
    rw [same]
    exact spec other same
  | take next ih =>
    simp only [run] at accepted ⊢
    split at accepted
    · simp at accepted
    · exact ih _ accepted
  | demand feature construct span next ih =>
    simp only [run] at accepted
    split at accepted
    · next supported =>
      obtain ⟨demands, has, spec⟩ := ih _ accepted
      refine ⟨feature :: demands, by simpa using ⟨supported, has⟩, fun other same => ?_⟩
      simp only [run]
      -- the first feature that is lacking is this one or a later one
      by_cases here : other.supports feature = true
      · rw [if_pos here]
        simpa [here] using spec other same
      · rw [if_neg here]
        refine ⟨fun all => absurd (all feature List.mem_cons_self) here, fun _ => ?_⟩
        exact ⟨construct, span, cursor, rfl⟩
    · simp at accepted

end Parser

/-- A dialect with fewer features reads a source as the one with more of them does, or fails because
it lacks one. -/
lemma Entry.parse_of_within (entry : Entry) {fewer more : Dialect} (within : fewer.Within more)
    (source : String) :
    entry.parse fewer source = entry.parse more source ∨
      ∃ construct span,
        entry.parse fewer source = .error (.unsupported construct fewer.name span) := by
  rw [entry.parse_eq, entry.parse_eq, Dialect.start_congr within.isDrift]
  rcases Parser.run_of_within within
    (entry.parser (Grammar.rulesFor (more.start source).ahead.length)) (more.start source)
    with same | lacking
  · exact .inl (congrArg Outcome.result same)
  · exact .inr lacking.result

/-- **Dialect features only ever reject.** Of two dialects that agree about the drift extensions,
the one with fewer features reads a source with the result of the other, tree and spans or error
alike, or fails because it lacks a feature. So what it accepts, the other accepts with the same
tree. -/
theorem Entry.parse_of_fewer_features (entry : Entry) {fewer more : Dialect}
    (within : fewer.Within more) (source : String) :
    (entry.parse fewer source = entry.parse more source ∨
      ∃ construct span,
        entry.parse fewer source = .error (.unsupported construct fewer.name span)) ∧
    ∀ tree, entry.parse fewer source = .ok tree → entry.parse more source = .ok tree := by
  refine ⟨entry.parse_of_within within source, fun tree accepted => ?_⟩
  rcases entry.parse_of_within within source with same | ⟨construct, span, failed⟩
  · rw [← same, accepted]
  · rw [accepted] at failed
    simp at failed

/-- A release of SQLite has no feature that the current grammar lacks. -/
lemma Dialect.sqlite_within_generic (version : Version) :
    (Dialect.sqlite version false).Within .generic where
  isDrift := rfl
  supports feature has := by
    cases feature <;> first | rfl | exact absurd has Bool.false_ne_true

/-- The release before common tables could be marked reads a source as the current grammar does, or
fails for lack of a feature. -/
theorem Entry.parse_of_fewer_features_hint :
    (Dialect.sqlite ⟨3, 34, 0⟩ false).Within .generic ∧
      (Entry.statement.parse (.sqlite ⟨3, 34, 0⟩ false) "WITH a AS MATERIALIZED (SELECT 1) SELECT 2"
        = Entry.statement.parse .generic "WITH a AS MATERIALIZED (SELECT 1) SELECT 2" ∨
        ∃ construct span,
          Entry.statement.parse (.sqlite ⟨3, 34, 0⟩ false)
            "WITH a AS MATERIALIZED (SELECT 1) SELECT 2" =
            .error (.unsupported construct "sqlite" span)) ∧
      ∀ tree,
        Entry.statement.parse (.sqlite ⟨3, 34, 0⟩ false)
          "WITH a AS MATERIALIZED (SELECT 1) SELECT 2" = .ok tree →
        Entry.statement.parse .generic "WITH a AS MATERIALIZED (SELECT 1) SELECT 2" = .ok tree :=
  ⟨Dialect.sqlite_within_generic _,
    Entry.parse_of_fewer_features .statement (Dialect.sqlite_within_generic _) _⟩

/-! ## Releases of SQLite -/

namespace Version

/-- The release is this one or a newer one, in the order of releases. -/
def IsFrom (version first : Version) : Prop :=
  (version.compare first).isGE = true

instance (version first : Version) : Decidable (version.IsFrom first) :=
  inferInstanceAs (Decidable ((version.compare first).isGE = true))

/-- The order of releases by their numbers. -/
lemma isFrom_iff (version first : Version) :
    version.IsFrom first ↔
      first.major < version.major ∨
        first.major = version.major ∧ (first.minor < version.minor ∨
          first.minor = version.minor ∧ first.patch ≤ version.patch) := by
  unfold IsFrom Version.compare
  rw [← UInt16.toNat_inj, ← UInt16.toNat_inj, UInt16.lt_iff_toNat_lt, UInt16.lt_iff_toNat_lt,
    UInt16.le_iff_toNat_le]
  generalize version.major.toNat = a, version.minor.toNat = b, version.patch.toNat = c,
    first.major.toNat = x, first.minor.toNat = y, first.patch.toNat = z
  rcases Nat.lt_trichotomy a x with h | rfl | h
  · simp [Nat.compare_eq_lt.mpr h, Ordering.then]
    omega
  · rcases Nat.lt_trichotomy b y with h | rfl | h
    · simp [Nat.compare_eq_lt.mpr h, Ordering.then]
      omega
    · simp [Nat.isGE_compare]
    · simp [Nat.compare_eq_gt.mpr h, Ordering.then, h]
  · simp [Nat.compare_eq_gt.mpr h, Ordering.then, h]

/-- Being at least a release is coming after it in the order of versions. -/
lemma atLeast_iff (version : Version) (major minor : UInt16) :
    version.atLeast major minor = true ↔ version.IsFrom ⟨major, minor, 0⟩ := by
  rw [isFrom_iff]
  simp only [atLeast, Bool.or_eq_true, decide_eq_true_eq, Bool.and_eq_true, beq_iff_eq]
  rw [← UInt16.toNat_inj, ← UInt16.toNat_inj, ← UInt16.toNat_inj, UInt16.lt_iff_toNat_lt,
    UInt16.lt_iff_toNat_lt, UInt16.le_iff_toNat_le, UInt16.le_iff_toNat_le]
  simp only [UInt16.toNat_zero]
  omega

/-- The order of versions is transitive. -/
lemma IsFrom.trans {a b c : Version} (first : a.IsFrom b) (second : b.IsFrom c) : a.IsFrom c := by
  rw [isFrom_iff] at *
  simp only [← UInt16.toNat_inj, UInt16.lt_iff_toNat_lt, UInt16.le_iff_toNat_le] at *
  omega

/-- The minor numbers of the releases of the third version that changed the grammar. Zero stands for
the grammar of every release. -/
def thresholds : List UInt16 :=
  [0, 24, 25, 30, 31, 35, 37, 38, 39]

/-- The release is on or above a threshold. -/
def Reaches (version : Version) (minor : UInt16) : Prop :=
  minor = 0 ∨ version.IsFrom ⟨3, minor, 0⟩

instance (version : Version) (minor : UInt16) : Decidable (version.Reaches minor) :=
  inferInstanceAs (Decidable (_ ∨ _))

/-- The threshold of a feature. -/
def threshold (feature : Feature) : UInt16 :=
  (introducing feature).getD 0

/-- The threshold of several features: the highest of theirs. -/
def thresholdOf : List Feature → UInt16
  | [] => 0
  | feature :: rest =>
    if threshold feature ≤ thresholdOf rest then thresholdOf rest else threshold feature

/-- The release that introduces a feature is among the thresholds. -/
lemma threshold_mem (feature : Feature) : threshold feature ∈ thresholds := by
  cases feature <;> decide

/-- The latest release that any of the features needs is among the thresholds. -/
lemma thresholdOf_mem (features : List Feature) : thresholdOf features ∈ thresholds := by
  induction features with
  | nil => exact List.mem_cons_self
  | cons feature rest ih =>
    rw [thresholdOf]
    split
    · exact ih
    · exact threshold_mem feature

/-- A version that reaches a release reaches all before it. -/
lemma reaches_mono {version : Version} {low high : UInt16} (le : low ≤ high)
    (reaches : version.Reaches high) : version.Reaches low := by
  rcases reaches with rfl | from_
  · exact .inl (UInt16.le_zero_iff.mp le)
  · refine .inr (from_.trans ?_)
    rw [isFrom_iff]
    exact .inr ⟨rfl, (UInt16.lt_or_eq_of_le le).imp_right fun eq => ⟨eq, UInt16.le_refl 0⟩⟩

/-- A version reaches what several features need if it reaches what each needs. -/
lemma reaches_thresholdOf_cons {version : Version} {feature : Feature} {rest : List Feature} :
    version.Reaches (thresholdOf (feature :: rest)) ↔
      version.Reaches (threshold feature) ∧ version.Reaches (thresholdOf rest) := by
  rw [thresholdOf]
  split
  · next le => exact ⟨fun reaches => ⟨reaches_mono le reaches, reaches⟩, And.right⟩
  · next not =>
    have le : thresholdOf rest ≤ threshold feature := UInt16.le_of_lt (UInt16.not_le.mp not)
    exact ⟨fun reaches => ⟨reaches, reaches_mono le reaches⟩, And.left⟩

end Version

namespace Dialect

variable {version : Version} {drift : Bool}

/-- A release has a feature from its threshold on; the drift extensions are its own choice. -/
lemma sqlite_supports_iff {feature : Feature}
    (drifting : feature = .driftExtensions → drift = true) :
    (sqlite version drift).supports feature = true ↔
      version.Reaches (Version.threshold feature) := by
  have by_release (minor : UInt16) (nonzero : minor ≠ 0) :
      version.atLeast 3 minor = true ↔ version.Reaches minor := by
    rw [Version.atLeast_iff]
    exact ⟨.inr, fun reaches => reaches.resolve_left nonzero⟩
  cases feature with
  | driftExtensions => exact ⟨fun _ => .inl rfl, fun _ => drifting rfl⟩
  | _ => exact by_release _ (by decide)

/-- A release of SQLite supports features exactly if it reaches the latest that any of them
needs. -/
lemma sqlite_supports_all_iff {features : List Feature}
    (drifting : .driftExtensions ∈ features → drift = true) :
    (∀ feature ∈ features, (sqlite version drift).supports feature = true) ↔
      version.Reaches (Version.thresholdOf features) := by
  induction features with
  | nil => exact ⟨fun _ => .inl rfl, fun _ feature mem => absurd mem List.not_mem_nil⟩
  | cons feature rest ih =>
    rw [List.forall_mem_cons, Version.reaches_thresholdOf_cons,
      sqlite_supports_iff fun eq => drifting (eq ▸ List.mem_cons_self),
      ih fun mem => drifting (List.mem_cons_of_mem _ mem)]

/-- The dialect of a release of SQLite is within the one that lacks nothing. -/
lemma sqlite_within_full (version : Version) (name : String) (drift : Bool) :
    (sqlite version drift).Within (custom name [] drift) where
  isDrift := rfl
  supports feature has := by
    cases feature with
    | driftExtensions => exact has
    | _ => rfl

end Dialect

section Releases

variable (entry : Entry) (name : String) (drift : Bool) (source : String)

/-- What all features read, the releases from some threshold on read alike, and no other release
reads. -/
lemma Entry.parse_sqlite_of_accepted {tree : entry.Tree}
    (accepted : entry.parse (.custom name [] drift) source = .ok tree) :
    ∃ minor ∈ Version.thresholds, ∀ version : Version,
      if version.Reaches minor then entry.parse (.sqlite version drift) source = .ok tree
      else ∃ error, entry.parse (.sqlite version drift) source = .error error ∧
        error.kind = .unsupported := by
  rw [entry.parse_eq] at accepted
  obtain ⟨stop, run⟩ := Outcome.accepted_of_result accepted
  obtain ⟨demands, has, spec⟩ := Parser.accepted_demands run
  have drifting : .driftExtensions ∈ demands → drift = true := fun mem => has _ mem
  refine ⟨_, Version.thresholdOf_mem demands, fun version => ?_⟩
  have start : (Dialect.sqlite version drift).start source =
      (Dialect.custom name [] drift).start source := Dialect.start_congr rfl source
  obtain ⟨accepts, lacks⟩ := spec (.sqlite version drift) rfl
  rw [entry.parse_eq, start]
  split
  · next reaches =>
    exact congrArg Outcome.result (accepts ((Dialect.sqlite_supports_all_iff drifting).mpr reaches))
  · next not =>
    rw [← Dialect.sqlite_supports_all_iff drifting] at not
    obtain ⟨construct, span, failed⟩ := (lacks (by simpa using not)).result
    exact ⟨_, failed, rfl⟩

/-- What all features do not read, no release reads. -/
lemma Entry.parse_sqlite_of_rejected {failure : ParseError}
    (rejected : entry.parse (.custom name [] drift) source = .error failure) (version : Version) :
    ∃ error, entry.parse (.sqlite version drift) source = .error error ∧
      (error = failure ∨ error.kind = .unsupported) := by
  rcases (entry.parse_of_within (Dialect.sqlite_within_full version name drift) source)
    with same | ⟨construct, span, failed⟩
  · exact ⟨failure, same.trans rejected, .inl rfl⟩
  · exact ⟨_, failed, .inr rfl⟩

/-- A newer release has the features of the older ones. -/
lemma Dialect.sqlite_within_newer {older newer : Version} (isFrom : newer.IsFrom older) :
    (Dialect.sqlite older drift).Within (.sqlite newer drift) where
  isDrift := rfl
  supports feature has := by
    have drifting : feature = .driftExtensions → drift = true := by rintro rfl; exact has
    rw [Dialect.sqlite_supports_iff drifting] at has ⊢
    exact has.imp_right isFrom.trans

/-- The features of a release do not depend on its patch. -/
lemma Dialect.sqlite_patch (major minor patch patch' : UInt16) :
    Dialect.sqlite ⟨major, minor, patch⟩ drift = .sqlite ⟨major, minor, patch'⟩ drift := rfl

/-- **The releases that read a source are those from some release on.** If the dialect with all
features reads a source, some threshold decides: the releases on or above it read the source as the
same tree, and the others lack a feature. If that dialect fails, every release fails, with the same
error or for lack of a feature. So the patch of a release never matters, and newer releases read all
that older ones do. -/
theorem Entry.parse_sqlite_threshold :
    (match entry.parse (.custom name [] drift) source with
      | .ok tree => ∃ minor ∈ Version.thresholds, ∀ version : Version,
          if version.Reaches minor then entry.parse (.sqlite version drift) source = .ok tree
          else ∃ error, entry.parse (.sqlite version drift) source = .error error ∧
            error.kind = .unsupported
      | .error failure => ∀ version, ∃ error,
          entry.parse (.sqlite version drift) source = .error error ∧
            (error = failure ∨ error.kind = .unsupported)) ∧
    (∀ major minor patch patch', entry.parse (.sqlite ⟨major, minor, patch⟩ drift) source =
      entry.parse (.sqlite ⟨major, minor, patch'⟩ drift) source) ∧
    ∀ older newer : Version, newer.IsFrom older → ∀ tree,
      entry.parse (.sqlite older drift) source = .ok tree →
      entry.parse (.sqlite newer drift) source = .ok tree := by
  refine ⟨?_, fun _ _ _ _ => ?_, fun older newer isFrom tree accepted => ?_⟩
  · split
    · next tree accepted => exact entry.parse_sqlite_of_accepted name drift source accepted
    · next failure rejected => exact entry.parse_sqlite_of_rejected name drift source rejected
  · rw [Dialect.sqlite_patch]
  · rcases entry.parse_of_within (Dialect.sqlite_within_newer drift isFrom) source
      with same | ⟨construct, span, failed⟩
    · rw [← same, accepted]
    · rw [accepted] at failed
      exact absurd failed (by simp)

end Releases

end SqlTree
