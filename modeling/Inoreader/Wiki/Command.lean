import Inoreader.Core.Article
import Mathlib.Data.List.Sort
import Mathlib.Data.List.Dedup

/-!
# Wiki commands (`reader-wiki/src/command.rs`, `model.rs`)

A write names its operation, the page, the revision that it expects and the change. UUIDs are numbers.
-/

namespace Inoreader

inductive WikiError
  | notFound
  | forbidden
  | conflict
  | nameTaken
  | invalid (message : String)
  | storage
deriving DecidableEq, Repr

inductive WikiRole
  | owner
  | editor
  | reader
deriving DecidableEq, Repr

def WikiRole.canEdit : WikiRole → Bool
  | .owner | .editor => true
  | .reader => false

/-- `Limits`, as far as writes read them. -/
structure WikiLimits where
  nameBytes : Nat
  markdownBytes : Nat
deriving DecidableEq, Repr

namespace WikiLimits
variable (limits : WikiLimits)

def name (value : String) : Except WikiError Unit :=
  if value.isEmpty || limits.nameBytes < value.utf8ByteSize ||
      value.toList.any (fun c => c == '\n' || c == '\r' || c == '[' || c == ']' || c == '\x00') then
    .error (.invalid "name is empty, too long or contains a line break, bracket or NUL")
  else .ok ()

def markdown (value : String) : Except WikiError Unit :=
  if limits.markdownBytes < value.utf8ByteSize || value.toList.any (· == '\x00') then
    .error (.invalid "Markdown exceeds configured byte limit or contains NUL")
  else .ok ()

end WikiLimits

inductive ChangeInput
  | save (name markdown : String)
  | rename (name : String)
  | setParent (parent : Option Nat)
  | trash
  | restore
  | restoreRevision (revision : Nat)
deriving DecidableEq, Repr

structure WriteInput where
  operation : Nat
  page : Nat
  expectedRevision : Option Nat
  change : ChangeInput
deriving DecidableEq, Repr

namespace WriteInput

/-- The texts of a change are within the limits. -/
def validateTexts (limits : WikiLimits) : ChangeInput → Except WikiError Unit
  | .save name markdown =>
    match limits.name name with
    | .error e => .error e
    | .ok _ => limits.markdown markdown
  | .rename name => limits.name name
  | _ => .ok ()

def isSave : ChangeInput → Bool
  | .save _ _ => true
  | _ => false

/-- The checks of `Write::new`. -/
def validate (limits : WikiLimits) (input : WriteInput) : Except WikiError Unit :=
  match validateTexts limits input.change with
  | .error e => .error e
  | .ok _ =>
    if input.expectedRevision = none ∧ isSave input.change = false then .error (.invalid "existing page revision required")
    else if input.change = .setParent (some input.page) then .error (.invalid "a page cannot be its own parent")
    else .ok ()

end WriteInput

/-- A validated write. -/
structure WikiWrite (limits : WikiLimits) where
  input : WriteInput
  valid : input.validate limits = .ok ()

/-! ## Links -/

/-- The text before and after the first two characters `c`. -/
def splitAtPair (c : Char) : List Char → Option (List Char × List Char)
  | x :: y :: rest =>
    if x = c ∧ y = c then some ([], rest) else (splitAtPair c (y :: rest)).map fun r => (x :: r.1, r.2)
  | _ => none

/-- The names between double brackets, in order; every name takes four characters of the text. -/
def linkNamesFrom : Nat → List Char → List String
  | 0, _ => []
  | n + 1, text =>
    match splitAtPair '[' text with
    | none => []
    | some (_, rest) =>
      match splitAtPair ']' rest with
      | none => []
      | some (name, rest) =>
        if name ≠ [] ∧ ¬ name.any (fun c => c == '[' || c == ']' || c == '\n' || c == '\r' || c == '\x00') then
          String.ofList name :: linkNamesFrom n rest
        else linkNamesFrom n rest

/-- `link_names`: the set of names in order. -/
def linkNames (markdown : String) : List String :=
  (linkNamesFrom markdown.length markdown.toList).dedup.insertionSort fun a b => a ≤ b

example : linkNames "[[ x ]] [[ x ]] [[Another]] [[bad\nname]]" = [" x ", "Another"] := by decide +kernel

end Inoreader
