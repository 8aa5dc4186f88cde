import Mathlib.Data.List.DropRight
import Inoreader.Ai.Chat
import Inoreader.Ai.Review
import Inoreader.Ai.SegmentScan
import Inoreader.Lib.Json
import Inoreader.Lib.LineFeed

/-!
# Completion streams (`generate` in `reader-ai/src/provider.rs`)

The provider streams the completion as server-sent events: lines of data that an empty line ends. The text of the events
goes to the scanner of segments, or is gathered if it is a review. `generate` starts here with the response of the
provider and the job stays active; `parseValue` and `parseReview` are `serde_json::from_str`.
-/

namespace Inoreader
open Lib

/-- The calls of the progress of a job. -/
inductive ProgressCall
  | usage (usage : Usage)
  | publish (content : List Char)
  | response (raw system : List Char)
deriving DecidableEq, Repr

/-- What `generate` reads of its input after the request. -/
structure GenerationInput where
  articleTitle : List Char
  articleText : List Char
  system : List Char
  maxResponseBytes : Nat
  reviewDraft : Option (List Char)
  discussionPrefix : Option (List Char)
deriving DecidableEq, Repr

namespace ProviderStream

structure State where
  parser : VerifiedSegments
  /-- `parser.envelope()`, also where `push` has failed. -/
  envelope : List Char
  reviewRaw : List Char
  data : List Char
  done : Bool
  stopped : Bool
  outputLimit : Bool
  usage : Option Usage
  calls : List ProgressCall
deriving DecidableEq, Repr

abbrev StreamM (α : Type) : Type := Proc State AiError α

def update (f : State → State) : StreamM Unit := fun s => (.ok (), f s)

def call (c : ProgressCall) : StreamM Unit := update fun s => { s with calls := s.calls ++ [c] }

/-- `std::str::from_utf8` -/
def fromUtf8 (bytes : List UInt8) : Option (List Char) := (ByteArray.mk bytes.toArray).utf8Decode?.map Array.toList

/-- `trim_end_matches(['\r', '\n'])` -/
def trimLineEnd (line : List Char) : List Char := line.rdropWhile fun c => c = '\r' || c = '\n'

/-- `strip_prefix` -/
def stripPrefix (pre line : List Char) : Option (List Char) :=
  if pre.isPrefixOf line then some (line.drop pre.length) else none

/-- The usage of an event; `checked_sub` is evaluated whether it is used or not. -/
def usageOf (value : Lib.Json) : Except AiError Usage :=
  match (value.get "prompt_tokens").bind Lib.Json.asU64 with
  | none => .error .protocol
  | some prompt =>
    let hit := ((value.get "prompt_cache_hit_tokens").bind Lib.Json.asU64).getD 0
    if prompt < hit then .error .protocol
    else
      let miss := ((value.get "prompt_cache_miss_tokens").bind Lib.Json.asU64).getD (prompt - hit)
      if hit + miss ≠ prompt then .error .protocol
      else
        match (value.get "completion_tokens").bind Lib.Json.asU64 with
        | none => .error .protocol
        | some completion => .ok {
            promptTokens := prompt
            completionTokens := completion
            promptCacheHitTokens := hit
            promptCacheMissTokens := miss
            estimatedCostUsd := none }

/-- `parser.push(text)?`; the response grows before the scanner fails, but not beyond its limit. -/
def pushText (text : List Char) : StreamM (Option (List Char)) := fun s =>
  let envelope :=
    if s.parser.limit < byteLength s.parser.raw + byteLength text then s.parser.raw else s.parser.raw ++ text
  match s.parser.push text with
  | .error e => (.error e, { s with envelope })
  | .ok (parser, content) => (.ok content, { s with parser, envelope })

section
variable (parseValue : List Char → Option Lib.Json) (parseReview : List Char → Option Review) (input : GenerationInput)

def processUsage (event : Lib.Json) : StreamM Unit :=
  match event.get "usage" with
  | none => pure ()
  | some value =>
    if value.isNull then pure ()
    else do
      let usage ← Proc.ofExcept (usageOf value)
      update fun s => { s with usage := some usage }
      call (.usage usage)

/-- The text of a choice. -/
def processContent (text : List Char) : StreamM Unit :=
  if input.reviewDraft.isSome then do
    let s ← Proc.get
    Proc.require (byteLength s.reviewRaw + byteLength text ≤ input.maxResponseBytes) .protocol
    update fun s => { s with reviewRaw := s.reviewRaw ++ text }
  else do
    match ← pushText text with
    | some content => call (.publish content)
    | none => pure ()

def processReason (choice : Lib.Json) : StreamM Unit :=
  match (choice.get "finish_reason").bind Lib.Json.asStr with
  | some reason => update fun s =>
      { s with outputLimit := s.outputLimit || reason ≠ "stop".toList, stopped := true }
  | none => pure ()

def processChoice (choice : Lib.Json) : StreamM Unit := do
  processReason choice
  match ((choice.get "delta").bind (·.get "content")).bind Lib.Json.asStr with
  | some text => processContent input text
  | none => pure ()

def processChoices : List Lib.Json → StreamM Unit
  | [] => pure ()
  | choice :: choices => do
    processChoice input choice
    processChoices choices

def processEvent (event : Lib.Json) : StreamM Unit :=
  if (event.get "error").isSome then Proc.throw .provider
  else do
    processUsage event
    match (event.get "choices").bind Lib.Json.asArray with
    | none => Proc.throw .protocol
    | some choices => processChoices input choices

/-- The end of an event. -/
def processData : StreamM Unit := do
  let s ← Proc.get
  if s.data.isEmpty then pure ()
  else if s.data = "[DONE]".toList then update fun s => { s with done := true, data := [] }
  else if s.done then Proc.throw .protocol
  else
    match parseValue s.data with
    | none => Proc.throw .protocol
    | some event => do
      update fun s => { s with data := [] }
      processEvent input event

/-- A line of the stream. -/
def processLine (bytes : List UInt8) : StreamM Unit :=
  match fromUtf8 bytes with
  | none => Proc.throw .protocol
  | some text =>
    let line := trimLineEnd text
    match stripPrefix "data:".toList line with
    | some value => update fun s =>
        { s with data := (if s.data.isEmpty then [] else s.data ++ ['\n']) ++
                   (stripPrefix [' '] value).getD value }
    | none => if line.isEmpty then processData parseValue input else pure ()

/-- `u8::is_ascii_whitespace` -/
def isAsciiSpaceByte (b : UInt8) : Bool := b = 0x20 || b = 0x09 || b = 0x0a || b = 0x0c || b = 0x0d

/-- The loop over the chunks, and the checks at its end. -/
def stream (chunks : List (List UInt8)) : StreamM Unit := do
  let pending ← LineFeed.feed 0x0a (processLine parseValue input) [] chunks
  let s ← Proc.get
  Proc.require (s.done ∧ s.stopped ∧ s.data = [] ∧ pending.all isAsciiSpaceByte) .protocol

/-- What is kept of the response. -/
def retained (s : State) : List Char := if input.reviewDraft.isSome then s.reviewRaw else s.envelope

/-- The end of `generate`. -/
def completed (s : State) : Except AiError (CompletedGeneration × Usage) :=
  if s.outputLimit then .error .context
  else
    match input.reviewDraft with
    | some draft =>
      match s.usage with
      | none => .error .protocol
      | some usage =>
        (CompletedGeneration.reviewed parseReview s.reviewRaw draft input.articleTitle input.articleText
          input.maxResponseBytes).map (·, usage)
    | none =>
      match s.parser.finish with
      | .error e => .error e
      | .ok content =>
        match s.usage with
        | none => .error .protocol
        | some usage => .ok ({ envelope := s.envelope, content }, usage)

/-- The scanner before the response, after the start of a discussion. -/
def openParser : Except AiError VerifiedSegments :=
  match input.discussionPrefix with
  | none => .ok (VerifiedSegments.new input.articleText input.maxResponseBytes)
  | some opening =>
    ((VerifiedSegments.new input.articleText input.maxResponseBytes).push opening).map Prod.fst

/-- `generate` on a response that arrives in chunks: its calls and its result. -/
def generate (chunks : List (List UInt8)) : List ProgressCall × Except AiError (CompletedGeneration × Usage) :=
  match openParser input with
  | .error e => ([], .error e)
  | .ok parser =>
    let start : State :=
      { parser, envelope := parser.raw, reviewRaw := [], data := [], done := false, stopped := false
        outputLimit := false, usage := none, calls := [] }
    let (streamed, s) := stream parseValue input chunks start
    (s.calls ++ [.response (retained input s) input.system],
      match streamed with
      | .error e => .error e
      | .ok () => completed parseReview input s)

end

/-! ## Chunks -/

section
variable {parseValue : List Char → Option Lib.Json} {parseReview : List Char → Option Review} {input : GenerationInput}

/-- The response is the same however it is cut into chunks. -/
theorem generate_chunks {chunks chunks' : List (List UInt8)} (h : chunks.flatten = chunks'.flatten) :
    generate parseValue parseReview input chunks = generate parseValue parseReview input chunks' := by
  have hfeed : LineFeed.feed 0x0a (processLine parseValue input) [] chunks =
      LineFeed.feed 0x0a (processLine parseValue input) [] chunks' := by
    rw [LineFeed.feed_eq_drain, LineFeed.feed_eq_drain, h]
  have hstream : stream parseValue input chunks = stream parseValue input chunks' := by
    rw [stream, stream, hfeed]
  rw [generate, generate, hstream]

end

namespace Sample

def segments : List Char := "\x7b\"segments\":[\x7b\"kind\":\"text\",\"content\":\"a\"\x7d]\x7d".toList

/-- An event with the whole response. -/
def event : Lib.Json := .obj [
  ("choices", .array [.obj [("delta", .obj [("content", .string segments)]), ("finish_reason", .ofText "stop")]]),
  ("usage", .obj [("prompt_tokens", .number (some 2)), ("completion_tokens", .number (some 1))])]

def eventText : String :=
  "\x7b\"choices\":[\x7b\"delta\":\x7b\"content\":\"\x7b\\\"segments\\\":[\x7b" ++
    "\\\"kind\\\":\\\"text\\\",\\\"content\\\":\\\"a\\\"\x7d]\x7d\"\x7d,\"finish_reason\":\"stop\"\x7d],\"usage\":\x7b\"prompt_tokens\":2,\"completion_tokens\":1\x7d\x7d"

/-- The parser on the text of the event. -/
def parse (text : List Char) : Option Lib.Json := if text = eventText.toList then some event else none

def input : GenerationInput :=
  { articleTitle := [], articleText := [], system := [], maxResponseBytes := 100, reviewDraft := none
    discussionPrefix := none }

def bytes : List UInt8 := ("data: " ++ eventText ++ "\n\ndata: [DONE]\n\n").toUTF8.toList

theorem generate_cut : generate parse (fun _ => none) input [bytes.take 3, bytes.drop 3] =
    generate parse (fun _ => none) input [bytes] :=
  generate_chunks (by simp)

end Sample

end ProviderStream
end Inoreader
