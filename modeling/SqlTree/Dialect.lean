set_option autoImplicit false

/-!
# Dialects

A dialect names itself and says which features of the language it reads. A feature that a dialect
lacks makes its statements fail; it never changes what another statement means. The drift extensions
are the one feature that also changes how text is cut into tokens.

## Main definitions

* `SqlTree.Feature` — what a dialect may lack.
* `SqlTree.Dialect` — a name and the features.
* `SqlTree.Dialect.generic`, `SqlTree.Dialect.drift` — everything without and with the drift
  extensions.
-/

namespace SqlTree

/-- A part of the language that not every dialect reads. -/
inductive Feature where
  | returning
  | upsert
  | windowFunctions
  | strictTables
  | jsonArrows
  | generatedColumns
  | nullsOrdering
  | materializedTables
  | rightFullJoin
  | isDistinctFrom
  | driftExtensions
deriving DecidableEq, Repr, Inhabited

/-- A dialect of the language. -/
structure Dialect where
  /-- The name that error messages use. -/
  name : String
  /-- The features that the dialect reads. -/
  supports : Feature → Bool

namespace Dialect

/-- The drift extensions are read. -/
def isDrift (dialect : Dialect) : Bool :=
  dialect.supports .driftExtensions

/-- A dialect with all features but the drift extensions. -/
def generic : Dialect :=
  ⟨"generic", fun feature => feature ≠ .driftExtensions⟩

/-- A dialect with all features. -/
def drift : Dialect :=
  ⟨"drift", fun _ => true⟩

/-- A dialect of any name that lacks some features. -/
def custom (name : String) (off : List Feature) (drift : Bool) : Dialect :=
  ⟨name, fun feature => if feature = .driftExtensions then drift else !off.contains feature⟩

end Dialect

end SqlTree
