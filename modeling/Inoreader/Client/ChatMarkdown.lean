import Mathlib.Data.List.Infix

/-!
# The chat's Markdown (`web/src/ai/ChatMarkdown.tsx`)

The renderer goes through the lines and forms blocks. A list whose first line has a line terminator other than
a line feed in it forms no item and leaves the renderer where it is, so its loop need not end: `fuel` bounds the
number of blocks that it has formed.
-/

namespace Inoreader

/-- `\s` and `trim` of JavaScript. -/
def isJsSpace (c : Char) : Bool :=
  (0x09 ≤ c.toNat && c.toNat ≤ 0x0d) || c.toNat == 0x20 || c.toNat == 0xa0 || c.toNat == 0x1680 ||
    (0x2000 ≤ c.toNat && c.toNat ≤ 0x200a) || c.toNat == 0x2028 || c.toNat == 0x2029 || c.toNat == 0x202f ||
    c.toNat == 0x205f || c.toNat == 0x3000 || c.toNat == 0xfeff

/-- What `.` does not match. -/
def isLineTerminator (c : Char) : Bool := c == '\n' || c == '\r' || c.toNat == 0x2028 || c.toNat == 0x2029

def isBlankLine (line : List Char) : Bool := line.all isJsSpace

def isFence (line : List Char) : Bool := "```".toList.isPrefixOf line

/-- `/^> ?/`. -/
def isQuoteLine (line : List Char) : Bool := line.head? == some '>'

/-- `line.replace(/^> ?/, "")`. -/
def unquote : List Char → List Char
  | '>' :: ' ' :: rest => rest
  | '>' :: rest => rest
  | line => line

/-- What follows one to six number signs and a white space. -/
def headingRest (line : List Char) : Option (List Char) :=
  let marks := line.takeWhile (· == '#')
  let rest := line.dropWhile (· == '#')
  if 1 ≤ marks.length ∧ marks.length ≤ 6 ∧ rest.head?.any isJsSpace then some rest else none

/-- `/^(#{1,6})\s+(.+)$/`: some of the white space may be part of the text. -/
def isHeading (line : List Char) : Bool :=
  match headingRest line with
  | none => false
  | some rest =>
    (List.range (rest.takeWhile isJsSpace).length).any fun n =>
      (rest.drop (n + 1)) != [] && !(rest.drop (n + 1)).any isLineTerminator

/-- `/^\s*[-*+] /` and what follows. -/
def bulletRest (line : List Char) : Option (List Char) :=
  match line.dropWhile isJsSpace with
  | c :: ' ' :: rest => if c = '-' ∨ c = '*' ∨ c = '+' then some rest else none
  | _ => none

/-- `/^\s*\d+\. /` and what follows. -/
def numberRest (line : List Char) : Option (List Char) :=
  let body := line.dropWhile isJsSpace
  match body.dropWhile (·.isDigit) with
  | '.' :: ' ' :: rest => if body.head?.any (·.isDigit) then some rest else none
  | _ => none

/-- The line of an item: `(.*)$` after its mark. -/
def isItem (ordered : Bool) (line : List Char) : Bool :=
  ((if ordered then numberRest line else bulletRest line).any fun rest => !rest.any isLineTerminator)

/-- A line that ends a paragraph. -/
def endsParagraph (line : List Char) : Bool :=
  isBlankLine line || isFence line || isQuoteLine line || (headingRest line).isSome || (bulletRest line).isSome ||
    (numberRest line).isSome

inductive ChatBlock
  | code (lines : List (List Char))
  /-- What is shown and what the button copies. -/
  | quote (text : List Char)
  | heading (line : List Char)
  | list (ordered : Bool) (items : List (List Char))
  | paragraph (lines : List (List Char))
deriving DecidableEq, Repr

def chatBlocks : Nat → List (List Char) → List ChatBlock
  | 0, _ => []
  | _, [] => []
  | fuel + 1, line :: rest =>
    if isBlankLine line then chatBlocks fuel rest
    else if isFence line then
      .code (rest.takeWhile (!isFence ·)) :: chatBlocks fuel (rest.dropWhile (!isFence ·)).tail
    else if isQuoteLine line then
      .quote (['\n'].intercalate (((line :: rest).takeWhile isQuoteLine).map unquote)) ::
        chatBlocks fuel ((line :: rest).dropWhile isQuoteLine)
    else if isHeading line then .heading line :: chatBlocks fuel rest
    else if (bulletRest line).isSome || (numberRest line).isSome then
      let ordered := (numberRest line).isSome
      .list ordered ((line :: rest).takeWhile (isItem ordered)) ::
        chatBlocks fuel ((line :: rest).dropWhile (isItem ordered))
    else
      .paragraph (line :: rest.takeWhile (!endsParagraph ·)) :: chatBlocks fuel (rest.dropWhile (!endsParagraph ·))

def ChatMarkdown (fuel : Nat) (text : List Char) : List ChatBlock := chatBlocks fuel (text.splitOn '\n')

def ChatBlock.quotation : ChatBlock → Option (List Char)
  | .quote text => some text
  | _ => none

/-- The quotations among the blocks. -/
def quotations (blocks : List ChatBlock) : List (List Char) := blocks.filterMap ChatBlock.quotation

/-! ## Runs of quoted lines -/

/-- A run of quoted lines that ends here. -/
def endRun (run : List (List Char)) : List (List Char) := if run = [] then [] else [['\n'].intercalate run]

/-- The runs of quoted lines outside fences; `run` is the one that is under way. -/
def quoteRuns : Bool → List (List Char) → List (List Char) → List (List Char)
  | _, run, [] => endRun run
  | true, run, line :: rest => if isFence line then quoteRuns false run rest else quoteRuns true run rest
  | false, run, line :: rest =>
    if isFence line then endRun run ++ quoteRuns true [] rest
    else if isQuoteLine line then quoteRuns false (run ++ [unquote line]) rest
    else endRun run ++ quoteRuns false [] rest

theorem not_fence_of_quote {line : List Char} (h : isQuoteLine line = true) : isFence line = false := by
  cases line with
  | nil => rfl
  | cons c rest =>
    have hc : c = '>' := by simpa [isQuoteLine] using h
    rw [hc]
    rfl

theorem quoteRuns_plain {line : List Char} (hfence : isFence line = false) (hquote : isQuoteLine line = false)
    (rest : List (List Char)) : quoteRuns false [] (line :: rest) = quoteRuns false [] rest := by
  simp [quoteRuns, hfence, hquote, endRun]

/-- Lines of neither kind. -/
theorem quoteRuns_append_plain {lines : List (List Char)} (h : ∀ l ∈ lines, isFence l = false ∧ isQuoteLine l = false)
    (rest : List (List Char)) : quoteRuns false [] (lines ++ rest) = quoteRuns false [] rest := by
  induction lines with
  | nil => rfl
  | cons line lines ih =>
    obtain ⟨hfence, hquote⟩ := h line List.mem_cons_self
    rw [List.cons_append, quoteRuns_plain hfence hquote]
    exact ih fun l hl => h l (List.mem_cons_of_mem _ hl)

/-- Quoted lines, outside a fence. -/
theorem quoteRuns_append_quote {lines : List (List Char)} (h : ∀ l ∈ lines, isQuoteLine l = true)
    (run rest : List (List Char)) :
    quoteRuns false run (lines ++ rest) = quoteRuns false (run ++ lines.map unquote) rest := by
  induction lines generalizing run with
  | nil => simp
  | cons line lines ih =>
    have hquote := h line List.mem_cons_self
    have hstep : quoteRuns false run (line :: (lines ++ rest)) = quoteRuns false (run ++ [unquote line]) (lines ++ rest) := by
      simp [quoteRuns, not_fence_of_quote hquote, hquote]
    rw [List.cons_append, hstep, ih fun l hl => h l (List.mem_cons_of_mem _ hl)]
    simp

/-- Lines of a fence. -/
theorem quoteRuns_append_code {lines : List (List Char)} (h : ∀ l ∈ lines, isFence l = false) (rest : List (List Char)) :
    quoteRuns true [] (lines ++ rest) = quoteRuns true [] rest := by
  induction lines with
  | nil => rfl
  | cons line lines ih =>
    rw [List.cons_append, quoteRuns, h line List.mem_cons_self]
    exact ih fun l hl => h l (List.mem_cons_of_mem _ hl)

theorem quoteRuns_end_run {run rest : List (List Char)} (hrest : ∀ l ∈ rest.head?, isQuoteLine l = false) :
    quoteRuns false run rest = endRun run ++ quoteRuns false [] rest := by
  cases rest with
  | nil => simp [quoteRuns, endRun]
  | cons line rest =>
    have hquote := hrest line rfl
    by_cases hfence : isFence line = true
    · simp [quoteRuns, hfence, endRun]
    · simp [quoteRuns, hfence, hquote, endRun]

theorem dropWhile_head? {p : List Char → Bool} (lines : List (List Char)) :
    ∀ l ∈ (lines.dropWhile p).head?, p l = false := by
  intro l hl
  have h := List.head?_dropWhile_not p lines
  rw [Option.mem_def.1 hl] at h
  simpa using h

/-! ## The blocks and the runs -/

/-- A line that is neither a fence nor quoted. -/
def IsPlain (line : List Char) : Prop := isFence line = false ∧ isQuoteLine line = false

/-- A fence starts with a backquote, a quoted line with its mark. -/
theorem isPlain_of_start {line : List Char} (h : ∀ c ∈ line.head?, c ≠ Char.ofNat 96 ∧ c ≠ '>') : IsPlain line := by
  cases line with
  | nil => exact ⟨rfl, rfl⟩
  | cons c rest =>
    obtain ⟨hfence, hquote⟩ := h c rfl
    refine ⟨?_, by simpa [isQuoteLine] using hquote⟩
    have hne : ¬ ('`' = c) := fun heq => hfence heq.symm
    simp [isFence, List.isPrefixOf, hne]

theorem isPlain_of_blank {line : List Char} (h : isBlankLine line = true) : IsPlain line := by
  refine isPlain_of_start fun c hc => ?_
  have hspace : isJsSpace c = true := List.all_eq_true.1 h c (List.mem_of_mem_head? hc)
  constructor
  · rintro rfl
    cases hspace
  · rintro rfl
    cases hspace

theorem isPlain_of_heading {line : List Char} (h : isHeading line = true) : IsPlain line := by
  refine isPlain_of_start fun c hc => ?_
  cases line with
  | nil => cases hc
  | cons d rest =>
    cases hc
    constructor
    · rintro rfl
      cases h
    · rintro rfl
      cases h

theorem bulletRest_cons {c : Char} (hspace : isJsSpace c = false) (hmark : ¬ (c = '-' ∨ c = '*' ∨ c = '+'))
    (rest : List Char) : bulletRest (c :: rest) = none := by
  have hdrop : (c :: rest).dropWhile isJsSpace = c :: rest := List.dropWhile_cons_of_neg (by simp [hspace])
  unfold bulletRest
  rw [hdrop]
  split
  · rename_i heq
    cases heq
    exact if_neg hmark
  · rfl

theorem numberRest_cons {c : Char} (hspace : isJsSpace c = false) (hdigit : c.isDigit = false) (rest : List Char) :
    numberRest (c :: rest) = none := by
  have hdrop : (c :: rest).dropWhile isJsSpace = c :: rest := List.dropWhile_cons_of_neg (by simp [hspace])
  have hhead : ((c :: rest).head?.any (·.isDigit)) = false := hdigit
  unfold numberRest
  simp only [hdrop, hhead]
  split <;> rfl

theorem isPlain_of_marker {line : List Char} (h : (bulletRest line).isSome = true ∨ (numberRest line).isSome = true) :
    IsPlain line := by
  refine isPlain_of_start fun c hc => ?_
  cases line with
  | nil => cases hc
  | cons d rest =>
    cases hc
    constructor
    · rintro rfl
      rw [bulletRest_cons (by decide) (by decide), numberRest_cons (by decide) (by decide)] at h
      simp at h
    · rintro rfl
      rw [bulletRest_cons (by decide) (by decide), numberRest_cons (by decide) (by decide)] at h
      simp at h

theorem isPlain_of_item {ordered : Bool} {line : List Char} (h : isItem ordered line = true) : IsPlain line := by
  refine isPlain_of_marker ?_
  cases ordered with
  | false => exact .inl (Option.isSome_of_any h)
  | true => exact .inr (Option.isSome_of_any h)

theorem isPlain_of_paragraph {line : List Char} (h : endsParagraph line = false) : IsPlain line := by
  simp only [endsParagraph, Bool.or_eq_false_iff] at h
  exact ⟨h.1.1.1.1.2, h.1.1.1.2⟩

theorem mem_takeWhile {p : List Char → Bool} {lines : List (List Char)} {l : List Char} (h : l ∈ lines.takeWhile p) :
    p l = true := List.all_eq_true.1 List.all_takeWhile l h

theorem quoteRuns_dropWhile {p : List Char → Bool} (hp : ∀ l, p l = true → IsPlain l) (lines : List (List Char)) :
    quoteRuns false [] (lines.dropWhile p) = quoteRuns false [] lines := by
  have h : quoteRuns false [] (lines.takeWhile p ++ lines.dropWhile p) = _ :=
    quoteRuns_append_plain (fun l hl => hp l (mem_takeWhile hl)) (lines.dropWhile p)
  rw [List.takeWhile_append_dropWhile] at h
  exact h.symm

/-- A fence and its code. -/
theorem quoteRuns_fence {line : List Char} (hfence : isFence line = true) (rest : List (List Char)) :
    quoteRuns false [] (line :: rest) = quoteRuns false [] (rest.dropWhile (!isFence ·)).tail := by
  have hopen : quoteRuns false [] (line :: rest) = quoteRuns true [] rest := by simp [quoteRuns, hfence, endRun]
  have hcode : quoteRuns true [] (rest.takeWhile (!isFence ·) ++ rest.dropWhile (!isFence ·)) = _ :=
    quoteRuns_append_code (fun l hl => by simpa using mem_takeWhile hl) (rest.dropWhile (!isFence ·))
  rw [List.takeWhile_append_dropWhile] at hcode
  rw [hopen, hcode]
  cases hrest : rest.dropWhile (!isFence ·) with
  | nil => rfl
  | cons f more =>
    have hclose := dropWhile_head? rest f (by rw [hrest]; rfl)
    have hf : isFence f = true := by simpa using hclose
    simp [quoteRuns, hf]

/-- A quotation: a maximal run of quoted lines. -/
theorem quoteRuns_quote {line : List Char} (hquote : isQuoteLine line = true) (rest : List (List Char)) :
    quoteRuns false [] (line :: rest) =
      ['\n'].intercalate (((line :: rest).takeWhile isQuoteLine).map unquote) ::
        quoteRuns false [] ((line :: rest).dropWhile isQuoteLine) := by
  have hrun : quoteRuns false [] ((line :: rest).takeWhile isQuoteLine ++ (line :: rest).dropWhile isQuoteLine) = _ :=
    quoteRuns_append_quote (fun l hl => mem_takeWhile hl) [] ((line :: rest).dropWhile isQuoteLine)
  rw [List.takeWhile_append_dropWhile, List.nil_append] at hrun
  have hne : ((line :: rest).takeWhile isQuoteLine).map unquote ≠ [] := by
    rw [List.takeWhile_cons_of_pos hquote]
    exact List.cons_ne_nil _ _
  rw [hrun, quoteRuns_end_run (dropWhile_head? _), endRun, if_neg hne]
  rfl

/-- The quotations that the renderer forms are the runs of quoted lines outside fences, as far as it got. -/
theorem quotations_runs (fuel : Nat) (lines : List (List Char)) :
    quotations (chatBlocks fuel lines) <+: quoteRuns false [] lines := by
  induction fuel generalizing lines with
  | zero => exact List.nil_prefix
  | succ fuel ih =>
    cases lines with
    | nil => exact List.nil_prefix
    | cons line rest =>
      simp only [chatBlocks]
      split
      · rename_i hblank
        obtain ⟨hfence, hquote⟩ := isPlain_of_blank hblank
        rw [quoteRuns_plain hfence hquote]
        exact ih rest
      · split
        · rename_i hfence
          rw [quoteRuns_fence hfence]
          exact ih _
        · rename_i hfence
          split
          · rename_i hquote
            rw [quoteRuns_quote hquote]
            exact List.cons_prefix_cons.2 ⟨rfl, ih _⟩
          · rename_i hquote
            have hplain : IsPlain line := ⟨Bool.eq_false_iff.2 hfence, Bool.eq_false_iff.2 hquote⟩
            split
            · rw [quoteRuns_plain hplain.1 hplain.2]
              exact ih rest
            · split
              · rw [← quoteRuns_dropWhile (fun l hl => isPlain_of_item hl) (line :: rest)]
                exact ih _
              · have hlines : ∀ l, (!endsParagraph l) = true → IsPlain l :=
                  fun l hl => isPlain_of_paragraph (by simpa using hl)
                rw [quoteRuns_plain hplain.1 hplain.2, ← quoteRuns_dropWhile hlines rest]
                exact ih _

end Inoreader
