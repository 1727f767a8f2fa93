import SqlTree.Dialect
import SqlTree.Text.Words

set_option autoImplicit false

/-!
# Versions of SQLite

The grammar of SQLite grew over its releases. A version is read from two or three numbers with dots
between them, and decides the features of a dialect by comparing with the release that brought each.

## Main definitions

* `SqlTree.Version` — a release, with its order and its text.
* `SqlTree.Version.parse` — reading a release from text.
* `SqlTree.Version.introducing` — the release that brought a feature.
* `SqlTree.Dialect.sqlite` — the dialect of a release.
-/

namespace SqlTree

/-- A release of SQLite. -/
structure Version where
  major : UInt16
  minor : UInt16
  patch : UInt16
deriving DecidableEq, Repr, Inhabited

namespace Version

/-- The newest release whose grammar is known. -/
def latest : Version := ⟨3, 46, 0⟩

/-- The order of releases: by the major number, then the minor number, then the patch. -/
def compare (a b : Version) : Ordering :=
  (Ord.compare a.major.toNat b.major.toNat).then
    ((Ord.compare a.minor.toNat b.minor.toNat).then (Ord.compare a.patch.toNat b.patch.toNat))

instance : Ord Version := ⟨compare⟩

/-- The release is this one or a newer one, whatever its patch. -/
def atLeast (version : Version) (major minor : UInt16) : Bool :=
  major < version.major || (version.major == major && minor ≤ version.minor)

/-- The text of a release: its three numbers. -/
def render (version : Version) : String :=
  let number (part : UInt16) : String := toString part.toNat
  number version.major ++ "." ++ number version.minor ++ "." ++ number version.patch

/-! ## Reading a release -/

/-- A number of a release: decimal digits, perhaps after a plus sign, with a value of 16 bits. -/
def number? (chars : List Char) : Option UInt16 :=
  let digits :=
    match chars with
    | '+' :: rest => rest
    | _ => chars
  if !digits.isEmpty && digits.all Char.isDigit && Text.decimalValue digits < 0x10000 then
    some (UInt16.ofNat (Text.decimalValue digits))
  else
    none

/-- The parts between dots. There is always at least one part. -/
def splitDots : List Char → List (List Char)
  | [] => [[]]
  | c :: rest =>
    match splitDots rest with
    | part :: parts => if c = '.' then [] :: part :: parts else (c :: part) :: parts
    | [] => [[c]]

/-- Reads a release from two or three numbers; a missing patch is zero. -/
def ofChars? (chars : List Char) : Option Version :=
  match splitDots (Text.trim chars) with
  | [major, minor] => do return ⟨← number? major, ← number? minor, 0⟩
  | [major, minor, patch] => do return ⟨← number? major, ← number? minor, ← number? patch⟩
  | _ => none

/-- A text that is no release. -/
structure ParseError where
  /-- The text as it was given. -/
  text : String
deriving DecidableEq, Repr, Inhabited

/-- What users are told about a text that is no release. -/
def ParseError.message (error : ParseError) : String :=
  "invalid SQLite version '" ++ error.text ++ "': expected MAJOR.MINOR[.PATCH]"

/-- Reads a release from text. -/
def parse (text : String) : Except ParseError Version :=
  match ofChars? text.toList with
  | some version => .ok version
  | none => .error ⟨text⟩

/-! ## Features by release -/

/-- The minor number of the release of the third version that brought a feature. The drift
extensions belong to no release. -/
def introducing : Feature → Option UInt16
  | .upsert => some 24
  | .windowFunctions => some 25
  | .nullsOrdering => some 30
  | .generatedColumns => some 31
  | .returning => some 35
  | .materializedTables => some 35
  | .strictTables => some 37
  | .jsonArrows => some 38
  | .rightFullJoin => some 39
  | .isDistinctFrom => some 39
  | .driftExtensions => none

end Version

/-- The dialect of a release, perhaps with the drift extensions. -/
def Dialect.sqlite (version : Version) (drift : Bool) : Dialect where
  name := if drift then "sqlite+drift" else "sqlite"
  supports feature :=
    match Version.introducing feature with
    | some minor => version.atLeast 3 minor
    | none => drift

end SqlTree
