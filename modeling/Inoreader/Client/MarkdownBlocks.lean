import Inoreader.Client.ChatMarkdown
import Inoreader.Lib.Progress

/-!
# The block loops of the Markdown renderers (`web/src/ai/ChatMarkdown.tsx`, `web/src/wiki/WikiMarkdown.tsx`)

A round of the loop forms a block of the lines that it takes. The renderers recognise a list by the start of a line and
take its items by whole lines, so a line that starts like an item and has a line terminator in it is never taken.
-/

namespace Inoreader
open Lib

/-- A block with the lines that it shows. -/
inductive MarkdownBlock
  | code (lines : List (List Char))
  | quote (lines : List (List Char))
  | heading (line : List Char)
  | list (ordered : Bool) (items : List (List Char))
  | table (headers : List Char) (rows : List (List Char))
  | paragraph (lines : List (List Char))
deriving DecidableEq, Repr

def MarkdownBlock.lines : MarkdownBlock → List (List Char)
  | .code lines => lines
  | .quote lines => lines
  | .heading line => [line]
  | .list _ items => items
  | .table headers rows => headers :: rows
  | .paragraph lines => lines

/-- `/^\s*([-*+] |\d+\. )/` -/
def startsList (line : List Char) : Bool := (bulletRest line).isSome || (numberRest line).isSome

def hasBar (line : List Char) : Bool := line.any (· == '|')

def dropChar (c : Char) (cs : List Char) : List Char := if cs.head? = some c then cs.tail else cs

/-- `/:?-+:?\s*/` and what follows. -/
def ruleCell (cs : List Char) : Option (List Char) :=
  let dashes := dropChar ':' cs
  if dashes.head? = some '-' then some ((dropChar ':' (dashes.dropWhile (· == '-'))).dropWhile isJsSpace) else none

/-- `/\|?\s*$/` -/
def ruleEnds (cs : List Char) : Bool := (dropChar '|' cs).all isJsSpace

/-- `/(\|\s*:?-+:?\s*)+\|?\s*$/`, with `fuel` for the length of the text. -/
def ruleCells : Nat → List Char → Bool
  | 0, _ => false
  | fuel + 1, cs =>
    cs.head? == some '|' &&
      (ruleCell (cs.tail.dropWhile isJsSpace)).any fun rest => ruleEnds rest || ruleCells fuel rest

/-- `/^\s*\|?\s*:?-+:?\s*(\|\s*:?-+:?\s*)+\|?\s*$/` -/
def isTableRule (line : List Char) : Bool :=
  (ruleCell ((dropChar '|' (line.dropWhile isJsSpace)).dropWhile isJsSpace)).any (ruleCells line.length)

/-- The code of a fence: up to the line that closes it, if there is one. -/
def fenceBlock (rest : List (List Char)) : Nat × Option MarkdownBlock :=
  let code := rest.takeWhile (!isFence ·)
  (1 + code.length + (if code.length < rest.length then 1 else 0), some (.code code))

def quoteBlock (line : List Char) (rest : List (List Char)) : Nat × Option MarkdownBlock :=
  let quoted := (line :: rest).takeWhile isQuoteLine
  (quoted.length, some (.quote quoted))

def listBlock (line : List Char) (rest : List (List Char)) : Nat × Option MarkdownBlock :=
  let ordered := (numberRest line).isSome
  let items := (line :: rest).takeWhile (isItem ordered)
  (items.length, some (.list ordered items))

def tableBlock (line : List Char) (rest : List (List Char)) : Nat × Option MarkdownBlock :=
  let rows := rest.tail.takeWhile hasBar
  (2 + rows.length, some (.table line rows))

def paragraphBlock (line : List Char) (rest : List (List Char)) : Nat × Option MarkdownBlock :=
  let paragraph := line :: rest.takeWhile (!endsParagraph ·)
  (paragraph.length, some (.paragraph paragraph))

/-- A round of `ChatMarkdown`, or of a renderer that also has tables: how many lines it takes, and its block. -/
def markdownBlock (tables : Bool) (line : List Char) (rest : List (List Char)) : Nat × Option MarkdownBlock :=
  if isBlankLine line then (1, none)
  else if isFence line then fenceBlock rest
  else if isQuoteLine line then quoteBlock line rest
  else if isHeading line then (1, some (.heading line))
  else if startsList line then listBlock line rest
  else if tables && hasBar line && rest.head?.any isTableRule then tableBlock line rest
  else paragraphBlock line rest

def chatBlock (line : List Char) (rest : List (List Char)) : Nat × Option MarkdownBlock := markdownBlock false line rest

/-- A round of `WikiMarkdown`, which looks for a heading before a quotation. -/
def wikiBlock (line : List Char) (rest : List (List Char)) : Nat × Option MarkdownBlock :=
  if isBlankLine line then (1, none)
  else if isFence line then fenceBlock rest
  else if isHeading line then (1, some (.heading line))
  else if isQuoteLine line then quoteBlock line rest
  else if startsList line then listBlock line rest
  else if hasBar line && rest.head?.any isTableRule then tableBlock line rest
  else paragraphBlock line rest

theorem not_heading_of_quote {line : List Char} (h : isQuoteLine line = true) : isHeading line = false := by
  cases hheading : isHeading line with
  | false => rfl
  | true =>
    have hplain := (isPlain_of_heading hheading).2
    rw [h] at hplain
    cases hplain

theorem wikiBlock_eq : wikiBlock = markdownBlock true := by
  funext line rest
  unfold wikiBlock markdownBlock
  split_ifs <;> simp_all [not_heading_of_quote]

/-! ## What a round takes -/

/-- The lines of a round: a blank one, or those of its block, with the fences around code and the rule of a table. -/
inductive Consumed : List (List Char) → Option MarkdownBlock → Prop
  | blank {line : List Char} : isBlankLine line = true → Consumed [line] none
  | code {fence : List Char} {lines close : List (List Char)} : isFence fence = true →
      close = [] ∨ (∃ line, isFence line = true ∧ close = [line]) →
      Consumed (fence :: lines ++ close) (some (.code lines))
  | table {headers rule : List Char} {rows : List (List Char)} : isTableRule rule = true →
      Consumed (headers :: rule :: rows) (some (.table headers rows))
  | whole {block : MarkdownBlock} : Consumed block.lines (some block)

section
variable {line : List Char} {rest : List (List Char)} {tables : Bool}

theorem take_takeWhile {p : List Char → Bool} (lines : List (List Char)) :
    lines.take (lines.takeWhile p).length = lines.takeWhile p :=
  (List.prefix_iff_eq_take.1 (List.takeWhile_prefix p)).symm

theorem drop_takeWhile {p : List Char → Bool} (lines : List (List Char)) :
    lines.drop (lines.takeWhile p).length = lines.dropWhile p := by
  have h := congrArg (List.drop (lines.takeWhile p).length) (List.takeWhile_append_dropWhile (p := p) (l := lines))
  rw [List.drop_left] at h
  exact h.symm

/-- The lines after the code of a fence: nothing, or the fence that closes it and the rest. -/
theorem fence_rest (rest : List (List Char)) : rest.dropWhile (!isFence ·) = [] ∨
    ∃ close more, rest.dropWhile (!isFence ·) = close :: more ∧ isFence close = true := by
  cases hdrop : rest.dropWhile (!isFence ·) with
  | nil => exact .inl rfl
  | cons close more =>
    have hclose := dropWhile_head? rest close (by rw [hdrop]; rfl)
    exact .inr ⟨close, more, rfl, by simpa using hclose⟩

/-- The lines that a fence takes and leaves. -/
theorem fence_split (line : List Char) (rest : List (List Char)) :
    (line :: rest).take (fenceBlock rest).1 =
        line :: rest.takeWhile (!isFence ·) ++ (rest.dropWhile (!isFence ·)).take 1 ∧
      (line :: rest).drop (fenceBlock rest).1 = (rest.dropWhile (!isFence ·)).tail := by
  have hsplit := List.takeWhile_append_dropWhile (p := (!isFence ·)) (l := rest)
  have hlength := congrArg List.length hsplit
  rw [List.length_append] at hlength
  rcases fence_rest rest with hrest | ⟨close, more, hrest, -⟩
  · rw [hrest, List.append_nil] at hsplit
    rw [hrest, List.length_nil] at hlength
    have hcount : (fenceBlock rest).1 = (line :: rest).length := by
      simp only [fenceBlock, List.length_cons]
      rw [if_neg (by omega)]
      omega
    rw [hcount, List.take_length, List.drop_length, hrest, hsplit]
    simp
  · rw [hrest, List.length_cons] at hlength
    have hcount : (fenceBlock rest).1 = (line :: rest.takeWhile (!isFence ·)).length + 1 := by
      simp only [fenceBlock, List.length_cons]
      rw [if_pos (by omega)]
      omega
    have hlines : line :: rest = (line :: rest.takeWhile (!isFence ·)) ++ close :: more := by
      rw [List.cons_append, ← hrest, hsplit]
    rw [hcount, hlines, List.take_length_add_append, List.drop_length_add_append, hrest]
    simp

theorem consumed_fence (hfence : isFence line = true) :
    Consumed ((line :: rest).take (fenceBlock rest).1) (fenceBlock rest).2 := by
  rw [(fence_split line rest).1]
  refine .code hfence ?_
  rcases fence_rest rest with hrest | ⟨close, more, hrest, hclose⟩
  · exact .inl (by rw [hrest]; rfl)
  · exact .inr ⟨close, hclose, by rw [hrest]; rfl⟩

/-- A block of the lines up to the first one that `p` refuses. -/
theorem consumed_takeWhile {p : List Char → Bool} {block : MarkdownBlock} {lines : List (List Char)}
    (h : block.lines = lines.takeWhile p) : Consumed (lines.take (lines.takeWhile p).length) (some block) := by
  rw [take_takeWhile, ← h]
  exact .whole

theorem paragraph_split (line : List Char) (rest : List (List Char)) :
    (line :: rest).take (paragraphBlock line rest).1 = line :: rest.takeWhile (!endsParagraph ·) ∧
      (line :: rest).drop (paragraphBlock line rest).1 = rest.dropWhile (!endsParagraph ·) := by
  simp only [paragraphBlock, List.length_cons, List.take_succ_cons, List.drop_succ_cons, take_takeWhile, drop_takeWhile, and_self]

/-- The lines that a table takes and leaves, where it has a rule. -/
theorem table_split (line rule : List Char) (rest : List (List Char)) :
    (line :: rule :: rest).take (tableBlock line (rule :: rest)).1 = line :: rule :: rest.takeWhile hasBar ∧
      (line :: rule :: rest).drop (tableBlock line (rule :: rest)).1 = rest.dropWhile hasBar := by
  have hcount : (tableBlock line (rule :: rest)).1 = (rest.takeWhile hasBar).length + 1 + 1 := by
    simp only [tableBlock, List.tail_cons]
    omega
  rw [hcount]
  simp only [List.take_succ_cons, List.drop_succ_cons, take_takeWhile, drop_takeWhile, and_self]

/-- Every round accounts for the lines that it takes. -/
theorem markdownBlock_consumed (tables : Bool) (line : List Char) (rest : List (List Char)) :
    Consumed ((line :: rest).take (markdownBlock tables line rest).1) (markdownBlock tables line rest).2 := by
  unfold markdownBlock
  split_ifs with hblank hfence hquote hheading hlist htable
  · exact .blank hblank
  · exact consumed_fence hfence
  · exact consumed_takeWhile rfl
  · exact @Consumed.whole (.heading line)
  · exact consumed_takeWhile rfl
  · rw [Bool.and_eq_true] at htable
    cases rest with
    | nil => simp at htable
    | cons rule rest =>
      rw [(table_split line rule rest).1]
      exact .table htable.2
  · rw [(paragraph_split line rest).1]
    exact @Consumed.whole (.paragraph (line :: rest.takeWhile (!endsParagraph ·)))

/-! ## Where the loop ends -/

/-- Where in the text the renderer is: between two blocks, within a paragraph, within code, before the rule of a table
or among its rows. -/
inductive Place
  | between
  | paragraph
  | code
  | rule
  | rows
deriving DecidableEq, Repr

/-- What a line is to a block that is under way, if it belongs to it. -/
def Place.stays : Place → List Char → Option Place
  | .between, _ => none
  | .paragraph, line => if endsParagraph line then none else some .paragraph
  | .code, line => some (if isFence line then .between else .code)
  | .rule, _ => some .rows
  | .rows, line => if hasBar line then some .rows else none

/-- The place after the first line of a block. A line that starts like an item has to be one. -/
def opens (tables : Bool) (line : List Char) (rest : List (List Char)) : Option Place :=
  if isBlankLine line then some .between
  else if isFence line then some .code
  else if isQuoteLine line then some .between
  else if isHeading line then some .between
  else if startsList line then if isItem (numberRest line).isSome line then some .between else none
  else if tables && hasBar line && rest.head?.any isTableRule then some .rule
  else some .paragraph

/-- Outside code and tables every line that starts like an item of a list is one. -/
def itemsWhole (tables : Bool) : Place → List (List Char) → Bool
  | _, [] => true
  | place, line :: rest =>
    match place.stays line with
    | some place => itemsWhole tables place rest
    | none => (opens tables line rest).any fun place => itemsWhole tables place rest

theorem itemsWhole_between (tables : Bool) (line : List Char) (rest : List (List Char)) :
    itemsWhole tables .between (line :: rest) = (opens tables line rest).any fun place => itemsWhole tables place rest :=
  rfl

/-- A block that goes on while `p` accepts the lines. -/
theorem itemsWhole_dropWhile {place : Place} {p : List Char → Bool}
    (hstays : ∀ line, place.stays line = if p line then some place else none) (lines : List (List Char)) :
    itemsWhole tables place lines = itemsWhole tables .between (lines.dropWhile p) := by
  induction lines with
  | nil => rfl
  | cons line rest ih =>
    rw [itemsWhole, hstays, List.dropWhile_cons]
    by_cases hp : p line = true
    · rw [if_pos hp, if_pos hp]
      exact ih
    · rw [if_neg hp, if_neg hp]
      rfl

theorem itemsWhole_code (lines : List (List Char)) :
    itemsWhole tables .code lines = itemsWhole tables .between (lines.dropWhile (!isFence ·)).tail := by
  induction lines with
  | nil => rfl
  | cons line rest ih =>
    rw [itemsWhole, Place.stays, List.dropWhile_cons]
    dsimp only
    by_cases hfence : isFence line = true
    · rw [if_pos hfence, hfence]
      rfl
    · rw [Bool.not_eq_true] at hfence
      rw [hfence]
      exact ih

/-- Lines after which the renderer is between two blocks. -/
theorem itemsWhole_run {p : List Char → Bool} (hp : ∀ line rest, p line = true → opens tables line rest = some .between)
    (lines : List (List Char)) :
    itemsWhole tables .between lines = itemsWhole tables .between (lines.dropWhile p) := by
  induction lines with
  | nil => rfl
  | cons line rest ih =>
    rw [List.dropWhile_cons]
    split_ifs with hline
    · rw [itemsWhole_between, hp line rest hline]
      exact ih
    · rfl

theorem startsList_of_item {ordered : Bool} (h : isItem ordered line = true) : startsList line = true := by
  rw [startsList, Bool.or_eq_true]
  cases ordered with
  | false => exact .inl (Option.isSome_of_any h)
  | true => exact .inr (Option.isSome_of_any h)

/-- A line starts like an item of one kind only. -/
theorem numberRest_of_bullet (h : (bulletRest line).isSome = true) : numberRest line = none := by
  unfold bulletRest at h
  split at h
  · rename_i c rest hbody
    have hmark : c = '-' ∨ c = '*' ∨ c = '+' := by
      by_contra hnot
      rw [if_neg hnot] at h
      cases h
    have hdigit : c.isDigit = false := by
      rcases hmark with rfl | rfl | rfl <;> rfl
    unfold numberRest
    simp only [hbody, List.dropWhile_cons, hdigit, Bool.false_eq_true, if_false]
    split
    · rename_i heq
      cases heq
      simp
    · rfl
  · cases h

theorem ordered_of_item {ordered : Bool} (h : isItem ordered line = true) : (numberRest line).isSome = ordered := by
  cases ordered with
  | false =>
    have hbullet : (bulletRest line).isSome = true := Option.isSome_of_any h
    rw [numberRest_of_bullet hbullet]
    rfl
  | true => exact Option.isSome_of_any h

/-- A line of an item, wherever it stands between two blocks. -/
theorem opens_item {ordered : Bool} (h : isItem ordered line = true) (rest : List (List Char)) :
    opens tables line rest = some .between := by
  have hplain := isPlain_of_item h
  unfold opens
  rw [hplain.1, hplain.2, startsList_of_item h, ordered_of_item h, h]
  simp

theorem opens_quote (h : isQuoteLine line = true) (rest : List (List Char)) : opens tables line rest = some .between := by
  unfold opens
  rw [not_fence_of_quote h, h]
  simp

/-- A block of lines after each of which the renderer is between two blocks. -/
theorem itemsWhole_takeWhile {p : List Char → Bool}
    (hp : ∀ line rest, p line = true → opens tables line rest = some .between) (hline : p line = true) :
    itemsWhole tables .between rest = true ↔ 0 < ((line :: rest).takeWhile p).length ∧
      itemsWhole tables .between ((line :: rest).drop ((line :: rest).takeWhile p).length) = true := by
  rw [drop_takeWhile, ← itemsWhole_run hp, itemsWhole_between, hp line rest hline, List.takeWhile_cons_of_pos hline]
  simp

/-- A round leaves a text whose items are whole exactly of such a text, unless it takes nothing. -/
theorem itemsWhole_round (tables : Bool) (line : List Char) (rest : List (List Char)) :
    itemsWhole tables .between (line :: rest) = true ↔ 0 < (markdownBlock tables line rest).1 ∧
      itemsWhole tables .between ((line :: rest).drop (markdownBlock tables line rest).1) = true := by
  rw [itemsWhole_between]
  unfold markdownBlock opens
  split_ifs with hblank hfence hquote hheading hlist hitem htable
  · simp
  · have hpos : 0 < (fenceBlock rest).1 := by
      simp only [fenceBlock]
      omega
    rw [(fence_split line rest).2, ← itemsWhole_code, Option.any_some]
    exact (and_iff_right hpos).symm
  · exact itemsWhole_takeWhile (fun _ rest h => opens_quote h rest) hquote
  · simp
  · exact itemsWhole_takeWhile (fun _ rest h => opens_item h rest) hitem
  · have hnone : (listBlock line rest).1 = 0 := by
      simp only [listBlock]
      rw [List.takeWhile_cons_of_neg hitem]
      rfl
    rw [hnone]
    simp
  · rw [Bool.and_eq_true] at htable
    cases rest with
    | nil => simp at htable
    | cons rule rest =>
      have hrows : itemsWhole tables .rows rest = itemsWhole tables .between (rest.dropWhile hasBar) :=
        itemsWhole_dropWhile (fun _ => rfl) rest
      have hrule : itemsWhole tables .rule (rule :: rest) = itemsWhole tables .rows rest := rfl
      have hpos : 0 < (tableBlock line (rule :: rest)).1 := by
        simp only [tableBlock]
        omega
      rw [(table_split line rule rest).2, Option.any_some, hrule, hrows]
      exact (and_iff_right hpos).symm
  · have hparagraph : itemsWhole tables .paragraph rest =
        itemsWhole tables .between (rest.dropWhile (!endsParagraph ·)) := by
      refine itemsWhole_dropWhile (fun line => ?_) rest
      show (if endsParagraph line then none else some Place.paragraph) = _
      cases endsParagraph line <;> rfl
    have hpos : 0 < (paragraphBlock line rest).1 := by simp [paragraphBlock]
    rw [(paragraph_split line rest).2, Option.any_some, hparagraph]
    exact (and_iff_right hpos).symm

end

/-- The loop of a renderer comes to an end, its rounds take the lines in order, and each accounts for what it takes. -/
def Renders (block : List Char → List (List Char) → Nat × Option MarkdownBlock) (text : List Char) : Prop :=
  ∃ fuel parts, rounds block fuel (text.splitOn '\n') = some parts ∧ parts.flatMap (·.1) = text.splitOn '\n' ∧
    ∀ part ∈ parts, Consumed part.1 part.2

theorem renders_iff (tables : Bool) (text : List Char) :
    Renders (markdownBlock tables) text ↔ itemsWhole tables .between (text.splitOn '\n') = true := by
  have hends : (∃ fuel parts, rounds (markdownBlock tables) fuel (text.splitOn '\n') = some parts) ↔
      itemsWhole tables .between (text.splitOn '\n') = true :=
    @rounds_iff _ _ _ _ (fun lines => itemsWhole tables .between lines = true) rfl (itemsWhole_round tables)
  rw [← hends]
  constructor
  · rintro ⟨fuel, parts, hparts, -, -⟩
    exact ⟨fuel, parts, hparts⟩
  · rintro ⟨fuel, parts, hparts⟩
    exact ⟨fuel, parts, hparts, rounds_flatMap hparts,
      rounds_forall (markdownBlock_consumed tables) hparts⟩

/-! ## The quotations of the chat -/

/-- The block of the chat's renderer, which has no tables. -/
def MarkdownBlock.chat : MarkdownBlock → Option ChatBlock
  | .code lines => some (.code lines)
  | .quote lines => some (.quote (['\n'].intercalate (lines.map unquote)))
  | .heading line => some (.heading line)
  | .list ordered items => some (.list ordered items)
  | .table _ _ => none
  | .paragraph lines => some (.paragraph lines)

/-- Where the loop ends, `chatBlocks` has its blocks. -/
theorem chatBlocks_rounds {fuel : Nat} {lines : List (List Char)} {parts : List (List (List Char) × Option MarkdownBlock)}
    (h : rounds chatBlock fuel lines = some parts) :
    chatBlocks fuel lines = parts.filterMap fun part => part.2.bind MarkdownBlock.chat := by
  induction fuel generalizing lines parts with
  | zero =>
    cases lines with
    | nil =>
      cases h
      rfl
    | cons line rest => cases h
  | succ fuel ih =>
    cases lines with
    | nil =>
      cases h
      rfl
    | cons line rest =>
      obtain ⟨parts', hparts', rfl⟩ := rounds_cons h
      have hrest := ih hparts'
      rw [List.filterMap_cons, ← hrest]
      simp only [chatBlocks, chatBlock, markdownBlock, startsList, Bool.false_and, Bool.false_eq_true, if_false]
      split_ifs with hblank hfence hquote hheading hlist
      · rfl
      · rw [(fence_split line rest).2]
        rfl
      · show _ = ChatBlock.quote _ :: chatBlocks fuel ((line :: rest).drop ((line :: rest).takeWhile isQuoteLine).length)
        rw [drop_takeWhile]
      · rfl
      · show _ = ChatBlock.list _ _ :: chatBlocks fuel
          ((line :: rest).drop ((line :: rest).takeWhile (isItem (numberRest line).isSome)).length)
        rw [drop_takeWhile]
      · rw [(paragraph_split line rest).2]
        rfl

end Inoreader
