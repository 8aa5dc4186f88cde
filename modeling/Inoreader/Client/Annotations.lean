import Inoreader.Client.ChatMarkdown
import Inoreader.Lib.Forest

/-!
# Annotations of a translated article (`web/src/translation/annotations.ts`)

The article is the forest below the root; `outside` says that the root or an element around it keeps its text from being
an orphan. A string is the list of its UTF-16 code units. `annotate` changes the document in place: what it returns is
the document at its end, with the glossary or with the error that ended it.
-/

namespace Inoreader
namespace Annotations
open Lib

abbrev JsString : Type := List UInt16

def isSpaceUnit (u : UInt16) : Bool := isJsSpace (Char.ofNat u.toNat)

/-- `!s.trim()` -/
def isBlank (s : JsString) : Bool := s.all isSpaceUnit

/-- `s.slice(start, stop)` for indexes within the string. -/
def slice (s : JsString) (start stop : Nat) : JsString := (s.take stop).drop start

structure TranslatedWord where
  source : JsString
  pinyin : Option JsString
  translation : JsString
deriving DecidableEq, Repr

inductive TranslationSegment
  | word (word : TranslatedWord)
  | literal (source : JsString)
deriving DecidableEq, Repr

def TranslationSegment.source : TranslationSegment → JsString
  | .word w => w.source
  | .literal source => source

def TranslationSegment.word? : TranslationSegment → Option TranslatedWord
  | .word w => some w
  | .literal _ => none

structure ParagraphTranslation where
  source : JsString
  translation : JsString
  segments : List TranslationSegment
deriving DecidableEq, Repr

/-- An element with the attributes `data-translatable`, `data-translation-fragment` and `data-translation-word`, its
class list and its other attributes. -/
structure Element where
  tag : String
  classes : List String := []
  translatable : Bool := false
  fragment : Bool := false
  word : Option Nat := none
  attributes : List (String × JsString) := []
deriving DecidableEq, Repr

abbrev Nodes : Type := Forest UInt16 Element

/-! ## `clearAnnotations` -/

def Element.unmark (e : Element) : Element :=
  if e.translatable then { e with translatable := false, classes := e.classes.filter (· ≠ "paragraph-selected") } else e

def clearAnnotations (t : Nodes) : Nodes :=
  (((t.unwrap fun e => e.word.isSome).relabel Element.unmark).unwrap (·.fragment)).normalize

/-! ## `paragraphs` -/

/-- `paragraphSelector` -/
def Element.inSelector (e : Element) : Bool := e.tag ∈ ["p", "li", "h1", "h2", "h3", "h4", "h5", "h6"]

/-- The filter of `paragraphs` for an element and its children. -/
def isParagraph (e : Element) (children : Nodes) : Bool :=
  (e.inSelector || e.fragment) && !(children.elements.any fun d => d.inSelector || d.tag = "pre") &&
    !isBlank children.content

/-- The first loop of `annotate`. -/
def markParagraphs : Nodes → Nodes
  | .nil => .nil
  | .text d r => .text d (markParagraphs r)
  | .element e c r =>
    .element { e with translatable := e.translatable || isParagraph e c } (markParagraphs c) (markParagraphs r)

/-! ## Orphans -/

/-- `pre, code, script, style, [data-translatable]` -/
def Element.keepsText (e : Element) : Bool := e.tag ∈ ["pre", "code", "script", "style"] || e.translatable

def fragmentSpan : Element := { tag := "span", fragment := true }

/-- The loop over the orphans below a node; `kept` says that an element around it keeps its text. -/
def wrapOrphans (kept : Bool) : Nodes → Nodes
  | .nil => .nil
  | .text d r =>
    if kept || isBlank d then .text d (wrapOrphans kept r)
    else .element fragmentSpan (.text d .nil) (wrapOrphans kept r)
  | .element e c r => .element e (wrapOrphans (kept || e.keepsText) c) (wrapOrphans kept r)

/-- The orphans below the first element of the class `article-content`, if there is one. -/
def wrapArticle (kept : Bool) : Nodes → Option Nodes
  | .nil => none
  | .text d r => (wrapArticle kept r).map (.text d)
  | .element e c r =>
    if "article-content" ∈ e.classes then some (.element e (wrapOrphans (kept || e.keepsText) c) r)
    else
      match wrapArticle (kept || e.keepsText) c with
      | some c => some (.element e c r)
      | none => (wrapArticle kept r).map (.element e c)

def wrapScope (outside : Bool) (t : Nodes) : Nodes := (wrapArticle outside t).getD (wrapOrphans outside t)

/-! ## Words -/

structure Range where
  start : Nat
  stop : Nat
  id : Nat
deriving DecidableEq, Repr

/-- The loop over the segments; `ordinal` is the number of the next word. -/
def segmentRanges (offset ordinal : Nat) : List TranslationSegment → Except String (List Range)
  | [] => .ok []
  | segment :: segments =>
    if segment.source.isEmpty then .error "Empty translation segment."
    else
      match segment with
      | .word w =>
        (segmentRanges (offset + w.source.length) (ordinal + 1) segments).map
          (⟨offset, offset + w.source.length, ordinal⟩ :: ·)
      | .literal source => segmentRanges (offset + source.length) ordinal segments

def translationRanges (result : ParagraphTranslation) (source : JsString) (ordinal : Nat) :
    Except String (List Range) :=
  if result.source ≠ source ∨ result.segments.flatMap (·.source) ≠ source then
    .error "Translation does not match the original paragraph."
  else segmentRanges 0 ordinal result.segments

/-- `${source}: ${pinyin ?? ""} ${translation}` -/
def wordLabel (w : TranslatedWord) : JsString :=
  w.source ++ [0x3a, 0x20] ++ w.pinyin.getD [] ++ [0x20] ++ w.translation

/-- The span of a word; the index of a word in the glossary is its id. -/
def wordSpan (glossary : List TranslatedWord) (id : Nat) : Element where
  tag := "span"
  classes := ["translated-word"]
  word := some id
  attributes := [("tabindex", [0x30]), ("role", "button".toList.map fun c => UInt16.ofNat c.toNat),
    ("aria-label", (glossary[id]?.map wordLabel).getD []),
    ("aria-describedby", "paragraph-word-card".toList.map fun c => UInt16.ofNat c.toNat)]

/-- What comes in the place of a leaf of the text `text` at `base`, before the nodes `rest`. -/
def cutLeaf (glossary : List TranslatedWord) (base : Nat) (text : JsString) (cursor : Nat) :
    List Range → Nodes → Nodes
  | [], rest => .text (text.drop cursor) rest
  | range :: ranges, rest =>
    let start := max base range.start
    let stop := min (base + text.length) range.stop
    if start ≥ stop then cutLeaf glossary base text cursor ranges rest
    else
      .text (slice text cursor (start - base))
        (.element (wordSpan glossary range.id) (.text (slice text (start - base) (stop - base)) .nil)
          (cutLeaf glossary base text (stop - base) ranges rest))

/-- The loop over the leaves of a paragraph; `base` is the length of the text before. -/
def cutLeaves (glossary : List TranslatedWord) (ranges : List Range) (base : Nat) : Nodes → Nodes
  | .nil => .nil
  | .text d r => cutLeaf glossary base d 0 ranges (cutLeaves glossary ranges (base + d.length) r)
  | .element e c r =>
    .element e (cutLeaves glossary ranges base c) (cutLeaves glossary ranges (base + c.content.length) r)

abbrev State : Type := Except String (List TranslatedWord)

/-- The body of the loop over the paragraphs. -/
def annotateParagraph (results : JsString → Option ParagraphTranslation) (glossary : List TranslatedWord)
    (c : Nodes) : Nodes × State :=
  match results c.content with
  | none => (c, .ok glossary)
  | some result =>
    match translationRanges result c.content glossary.length with
    | .error message => (c, .error message)
    | .ok ranges =>
      let glossary := glossary ++ result.segments.filterMap (·.word?)
      (cutLeaves glossary ranges 0 c, .ok glossary)

/-- The loop over the paragraphs, none of which has another one in it; after an error nothing changes. -/
def annotateParagraphs (results : JsString → Option ParagraphTranslation) : State → Nodes → Nodes × State
  | .error message, t => (t, .error message)
  | .ok glossary, .nil => (.nil, .ok glossary)
  | .ok glossary, .text d r =>
    let (r, state) := annotateParagraphs results (.ok glossary) r
    (.text d r, state)
  | .ok glossary, .element e c r =>
    if isParagraph e c then
      let (c, state) := annotateParagraph results glossary c
      let (r, state) := annotateParagraphs results state r
      (.element { e with translatable := true } c r, state)
    else
      let (c, state) := annotateParagraphs results (.ok glossary) c
      let (r, state) := annotateParagraphs results state r
      (.element e c r, state)

/-- The document before the loop over its paragraphs. -/
def prepared (outside : Bool) (t : Nodes) : Nodes := wrapScope outside (markParagraphs (clearAnnotations t))

def annotate (outside : Bool) (results : JsString → Option ParagraphTranslation) (t : Nodes) : Nodes × State :=
  annotateParagraphs results (.ok []) (prepared outside t)

end Annotations
end Inoreader
