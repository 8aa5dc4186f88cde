import Inoreader.Ai.Segments
import Inoreader.Lib.Lists
import Mathlib.Data.List.Infix

/-!
# Reviews and titles (`reader-ai/src/review.rs`)

A review replaces substrings of the segments of a draft, all of them or none, and the result is validated as a
response is. A draft that was validated is an object of segments, so the value that the code edits is the list of
them. `parseReview` is what `serde` makes of the response of a review. Places in a text are counted in characters.
-/

namespace Inoreader
open Lib Lib.JsonText

structure Change where
  segment : Nat
  before : List Char
  after : List Char
  reason : List Char
deriving DecidableEq, Repr

inductive Review
  | unchanged
  | corrections (changes : List Change)
  | unable (reason : List Char)
deriving DecidableEq, Repr

/-! ## `to_string` -/

def hexChar (n : Nat) : Char := if n < 10 then Char.ofNat (48 + n) else Char.ofNat (87 + n)

/-- A character of a JSON string. -/
def escapeChar (c : Char) : List Char :=
  if c = '"' then ['\\', '"']
  else if c = '\\' then ['\\', '\\']
  else if c = '\n' then ['\\', 'n']
  else if c = '\r' then ['\\', 'r']
  else if c = '\t' then ['\\', 't']
  else if c = Char.ofNat 8 then ['\\', 'b']
  else if c = Char.ofNat 12 then ['\\', 'f']
  else if c.toNat < 0x20 then ['\\', 'u', '0', '0', hexChar (c.toNat / 16), hexChar (c.toNat % 16)]
  else [c]

def stringJson (value : List Char) : List Char := '"' :: (value.flatMap escapeChar ++ ['"'])

/-- The fields of a `Value` are sorted by their names. -/
def segmentJson (s : Segment) : List Char :=
  '{' :: (stringJson "content".toList ++ ':' :: (stringJson s.content ++ ',' ::
    (stringJson "kind".toList ++ ':' :: (stringJson s.kind ++ ['}']))))

def envelopeJson (segments : List Segment) : List Char :=
  '{' :: (stringJson "segments".toList ++ ':' :: '[' :: ([','].intercalate (segments.map segmentJson) ++ [']', '}']))

/-! ## The edits -/

/-- `str::find`. -/
def findText (pattern : List Char) : List Char → Option Nat
  | [] => if pattern = [] then some 0 else none
  | c :: cs => if pattern.isPrefixOf (c :: cs) then some 0 else (findText pattern cs).map (· + 1)

theorem findText_some {pattern l : List Char} {i : Nat} (h : findText pattern l = some i) :
    pattern <+: l.drop i ∧ ∀ j < i, ¬ pattern <+: l.drop j := by
  induction l generalizing i with
  | nil =>
    unfold findText at h
    split at h
    · rename_i hp
      cases h
      subst hp
      exact ⟨List.nil_prefix, fun j hj => absurd hj (by omega)⟩
    · cases h
  | cons c cs ih =>
    unfold findText at h
    split at h
    · rename_i hp
      cases h
      exact ⟨List.isPrefixOf_iff_prefix.1 hp, fun j hj => absurd hj (by omega)⟩
    · rename_i hp
      obtain ⟨k, hk, rfl⟩ := Option.map_eq_some_iff.1 h
      obtain ⟨hat, hbefore⟩ := ih hk
      refine ⟨hat, fun j hj => ?_⟩
      cases j with
      | zero => exact fun h => hp (List.isPrefixOf_iff_prefix.2 h)
      | succ j => exact hbefore j (by omega)

theorem findText_none {pattern l : List Char} (hne : pattern ≠ []) (h : findText pattern l = none) (j : Nat) :
    ¬ pattern <+: l.drop j := by
  induction l generalizing j with
  | nil =>
    rw [List.drop_nil]
    exact fun hp => hne (List.prefix_nil.1 hp)
  | cons c cs ih =>
    unfold findText at h
    split at h
    · cases h
    · rename_i hp
      cases j with
      | zero => exact fun h => hp (List.isPrefixOf_iff_prefix.2 h)
      | succ j => exact ih (Option.map_eq_none_iff.1 h) j

structure Edit where
  segment : Nat
  start : Nat
  stop : Nat
  after : List Char
deriving DecidableEq, Repr

/-- `**{title}**`. -/
def titleText (title : List Char) : List Char := '*' :: '*' :: (title ++ ['*', '*'])

/-- Where a change applies: its text occurs once in its segment, which is not the title. -/
def editOf (segments : List Segment) (title : List Char) (change : Change) : Except AiError Edit :=
  match segments[change.segment]? with
  | none => .error .review
  | some segment =>
    if segment.content = titleText title ∨ change.before = [] ∨ change.reason.all isWhiteSpace = true ∨
        change.before = change.after then .error .review
    else
      match findText change.before segment.content with
      | none => .error .review
      | some start =>
        if change.before <:+: segment.content.drop (start + 1) then .error .review
        else .ok { segment := change.segment, start, stop := start + change.before.length, after := change.after }

def Edit.le (e e' : Edit) : Bool := e.segment < e'.segment || (e.segment == e'.segment && e.start ≤ e'.start)

/-- Two edits that follow each other overlap. -/
def Edit.overlaps (e e' : Edit) : Bool := e.segment == e'.segment && decide (e'.start < e.stop)

/-- `windows(2)`. -/
def anyOverlap : List Edit → Bool
  | e :: e' :: rest => e.overlaps e' || anyOverlap (e' :: rest)
  | _ => false

def Edit.apply (segments : List Segment) (e : Edit) : List Segment :=
  segments.modify e.segment fun s =>
    { s with content := s.content.take e.start ++ e.after ++ s.content.drop e.stop }

/-- The segments of the draft after the changes of a review; a segment that is emptied is deleted. -/
def correctedSegments (segments : List Segment) (title : List Char) (changes : List Change) :
    Except AiError (List Segment) := do
  let edits ← changes.mapM (editOf segments title)
  let edits := edits.mergeSort Edit.le
  if anyOverlap edits then .error .review
  else pure ((edits.reverse.foldl Edit.apply segments).filter (·.content ≠ []))

namespace CompletedGeneration
variable (parseReview : List Char → Option Review)

/-- What the response of a review asks for. -/
def reviewChanges (response : List Char) : Except AiError (List Change) :=
  match parseReview response with
  | some .unchanged => .ok []
  | some (.corrections changes) => if changes = [] then .error .review else .ok changes
  | some (.unable _) | none => .error .review

def reviewed (response draft title source : List Char) (limit : Nat) : Except AiError CompletedGeneration :=
  if limit < byteLength response then .error .protocol
  else do
    let _ ← CompletedGeneration.new draft source limit
    match readDocument readEnvelope draft with
    | none => .error .protocol
    | some segments =>
      let changes ← reviewChanges parseReview response
      let segments ← correctedSegments segments title changes
      let result ← CompletedGeneration.new (envelopeJson segments) source limit
      pure { result with envelope := response }

/-- The envelope of a review has no segments. -/
def withSourceTitle (g : CompletedGeneration) (title source : List Char) (limit : Nat) :
    Except AiError CompletedGeneration :=
  if title = [] then .ok g
  else
    match readDocument readEnvelope g.envelope with
    | none => .error .protocol
    | some segments =>
      CompletedGeneration.new (envelopeJson ({ kind := "text".toList, content := titleText title } :: segments)) source limit

end CompletedGeneration
end Inoreader
