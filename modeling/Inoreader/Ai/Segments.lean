import Inoreader.Ai.Pricing
import Inoreader.Lib.JsonText
import Inoreader.Lib.Text
import Mathlib.Data.List.Infix

/-!
# Verified segments (`reader-ai/src/stream.rs`)

A response is a JSON object of segments. The scanner takes it in pieces, reads each segment when its closing
brace arrives and renders it; the last check reads the whole response. `serde` also reads a structure from an
array of its fields. The bytes that the scanner looks for are ASCII, so a character of several bytes is one
step here; lengths are in bytes.
-/

namespace Inoreader
open Lib Lib.JsonText

structure Segment where
  kind : List Char
  content : List Char
deriving DecidableEq, Repr

/-- The bytes of a text. -/
def byteLength (cs : List Char) : Nat := (cs.map Char.utf8Size).sum

/-! ## `from_str` -/

/-- The fields of a segment, both and nothing else, in either order. -/
def segmentOf : List (List Char × List Char) → Option Segment
  | [(k, v), (k', v')] =>
    if k = "kind".toList ∧ k' = "content".toList then some { kind := v, content := v' }
    else if k = "content".toList ∧ k' = "kind".toList then some { kind := v', content := v }
    else none
  | _ => none

def segmentFields : Option (List (List Char × List Char) × List Char) → Option (Segment × List Char)
  | some (members, rest) => (segmentOf members).map fun s => (s, rest)
  | none => none

def segmentArray : Option (List (List Char) × List Char) → Option (Segment × List Char)
  | some ([kind, content], rest) => some ({ kind, content }, rest)
  | _ => none

def readSegment : Reader Segment := fun cs =>
  if cs.head? = some '[' then segmentArray (readArray readString cs) else segmentFields (readObject readString cs)

def envelopeFields : Option (List (List Char × List Segment) × List Char) → Option (List Segment × List Char)
  | some ([(key, segments)], rest) => if key = "segments".toList then some (segments, rest) else none
  | _ => none

def envelopeArray : Option (List (List Segment) × List Char) → Option (List Segment × List Char)
  | some ([segments], rest) => some (segments, rest)
  | _ => none

def readEnvelope : Reader (List Segment) := fun cs =>
  if cs.head? = some '[' then envelopeArray (readArray (readArray readSegment) cs)
  else envelopeFields (readObject (readArray readSegment) cs)

/-! ## The scanner -/

structure VerifiedSegments where
  raw : List Char
  cursor : Nat
  arrayStarted : Bool
  arrayFinished : Bool
  objectStart : Option Nat
  depth : Nat
  quoted : Bool
  escaped : Bool
  separator : Bool
  article : List Char
  emitted : Nat
  content : List Char
  limit : Nat
deriving DecidableEq, Repr

def VerifiedSegments.new (article : List Char) (limit : Nat) : VerifiedSegments :=
  { raw := [], cursor := 0, arrayStarted := false, arrayFinished := false, objectStart := none, depth := 0
    quoted := false, escaped := false, separator := false, article, emitted := 0, content := [], limit }

/-- A line of a text segment that would read as a quotation. -/
def quotesLine (line : List Char) : Bool := (line.dropWhile isWhiteSpace).head? == some '>'

def renderSegment (segment : Segment) (source : List Char) : Except AiError (List Char) :=
  if segment.content = [] then .error .protocol
  else if segment.kind = "text".toList then
    if (textLines [] segment.content).any quotesLine then .error .quote else .ok segment.content
  else if segment.kind = "quote".toList then
    if ¬ segment.content <:+: source then .error .quote
    else .ok (['\n'].intercalate ((segment.content.splitOn '\n').map ('>' :: ' ' :: ·)))
  else .error .protocol

/-- `u8::is_ascii_whitespace`. -/
def isAsciiSpace (c : Char) : Bool := c == ' ' || c == '\t' || c == '\n' || c == '\r' || c == Char.ofNat 12

namespace VerifiedSegments

/-- A segment is closed: it is read and rendered. -/
def emit (s : VerifiedSegments) (start : Nat) : Except AiError VerifiedSegments :=
  match readDocument readSegment ((s.raw.take s.cursor).drop start) with
  | none => .error .protocol
  | some segment => do
    let rendered ← renderSegment segment s.article
    let content := if s.content = [] then rendered else s.content ++ '\n' :: '\n' :: rendered
    pure { s with objectStart := none, content, emitted := s.emitted + 1, separator := true }

/-- The step of the scanner on the byte before the cursor; the second value says whether the content changed. -/
def scanned (s : VerifiedSegments) (byte : Char) : Except AiError (VerifiedSegments × Bool) :=
  if s.arrayFinished then .ok (s, false)
  else if s.quoted then
    if s.escaped then .ok ({ s with escaped := false }, false)
    else if byte = '\\' then .ok ({ s with escaped := true }, false)
    else if byte = '"' then .ok ({ s with quoted := false }, false)
    else .ok (s, false)
  else if byte = '"' then
    if s.arrayStarted ∧ s.objectStart = none then .error .protocol else .ok ({ s with quoted := true }, false)
  else if ¬ s.arrayStarted then
    if byte = '[' then
      match readDocument readEnvelope (s.raw.take s.cursor ++ [']', '}']) with
      | none => .error .protocol
      | some _ => .ok ({ s with arrayStarted := true }, false)
    else .ok (s, false)
  else
    match s.objectStart with
    | none =>
      if isAsciiSpace byte then .ok (s, false)
      else if byte = ']' then .ok ({ s with arrayFinished := true }, false)
      else if s.separator then
        if byte ≠ ',' then .error .protocol else .ok ({ s with separator := false }, false)
      else if byte ≠ '{' then .error .protocol
      else .ok ({ s with objectStart := some (s.cursor - 1), depth := 1 }, false)
    | some start =>
      if byte = '{' then .ok ({ s with depth := s.depth + 1 }, false)
      else if byte = '}' then
        if s.depth - 1 = 0 then (emit { s with depth := s.depth - 1 } start).map fun s => (s, true)
        else .ok ({ s with depth := s.depth - 1 }, false)
      else .ok (s, false)

/-- The loop of `push` over the bytes from the cursor on. -/
def scan : List Char → VerifiedSegments → Bool → Except AiError (VerifiedSegments × Bool)
  | [], s, changed => .ok (s, changed)
  | byte :: rest, s, changed => do
    let (s, new) ← scanned { s with cursor := s.cursor + 1 } byte
    scan rest s (changed || new)

def push (s : VerifiedSegments) (text : List Char) : Except AiError (VerifiedSegments × Option (List Char)) :=
  if s.limit < byteLength s.raw + byteLength text then .error .protocol
  else do
    let (s, changed) ← scan ((s.raw ++ text).drop s.cursor) { s with raw := s.raw ++ text } false
    pure (s, if changed then some s.content else none)

def finish (s : VerifiedSegments) : Except AiError (List Char) :=
  match readDocument readEnvelope s.raw with
  | none => .error .protocol
  | some segments =>
    if segments = [] ∨ segments.length ≠ s.emitted then .error .protocol
    else do
      let _ ← segments.mapM fun segment => renderSegment segment s.article
      pure s.content

end VerifiedSegments

/-- `CompletedGeneration`; the usage is carried along unchanged. -/
structure CompletedGeneration where
  envelope : List Char
  content : List Char
deriving DecidableEq, Repr

def CompletedGeneration.new (envelope article : List Char) (limit : Nat) : Except AiError CompletedGeneration := do
  let (parser, _) ← (VerifiedSegments.new article limit).push envelope
  let content ← parser.finish
  pure { envelope, content }

end Inoreader
