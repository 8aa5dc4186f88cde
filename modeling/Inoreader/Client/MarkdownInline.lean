import Inoreader.Client.MarkdownBlocks

/-!
# The inline pieces of the Markdown renderers

`matchAll` goes through the text: at each place it tries the alternatives of the token expression in their order, and
goes on behind the token, or by one character. What is repeated in an alternative never matches what follows it, so the
longest run is the only one.
-/

namespace Inoreader
open Lib

inductive InlineKind
  | text
  | code
  | wikiLink
  | strong
  | em
  /-- An image stays a text. -/
  | link
  | url
deriving DecidableEq, Repr

/-- What is pushed, and the part of the text that it stands for. -/
structure InlinePiece where
  kind : InlineKind
  source : List Char
deriving DecidableEq, Repr

/-- The length of `left`, a run of characters of `inside` and `right` at the start of the text. -/
def delimited (left right : List Char) (inside : Char → Bool) (cs : List Char) : Option Nat :=
  let body := (cs.drop left.length).takeWhile inside
  let length := left.length + body.length
  if left.isPrefixOf cs ∧ body ≠ [] ∧ right.isPrefixOf (cs.drop length) then some (length + right.length) else none

/-- `[^c\n]` -/
def isInside (c d : Char) : Bool := d != c && d != '\n'

/-- `/!?\[[^\]\n]+\]\([^\s)]+\)/` -/
def linkToken (cs : List Char) : Option Nat :=
  let mark := if cs.head? = some '!' then 1 else 0
  (delimited ['['] [']'] (isInside ']') (cs.drop mark)).bind fun label =>
    (delimited ['('] [')'] (fun d => !isJsSpace d && d != ')') (cs.drop (mark + label))).map fun target =>
      mark + label + target

/-- `[\w/#=]` -/
def endsUrl (c : Char) : Bool := c.isAlphanum || c == '_' || c == '/' || c == '#' || c == '='

/-- ``/https?:\/\/[^\s<>"`]+[\w/#=]/``: the run gives back what cannot stand at the end. -/
def urlToken (cs : List Char) : Option Nat :=
  let scheme := if "https://".toList.isPrefixOf cs then 8 else 7
  let body := (cs.drop scheme).takeWhile fun d => !isJsSpace d && !("<>\"".toList ++ [Char.ofNat 96]).contains d
  let length := (body.reverse.dropWhile (!endsUrl ·)).length
  if ("https://".toList.isPrefixOf cs || "http://".toList.isPrefixOf cs) && decide (2 ≤ length) then
    some (scheme + length)
  else none

def codeToken : List Char → Option Nat := delimited [Char.ofNat 96] [Char.ofNat 96] (isInside (Char.ofNat 96))

/-- `/\*\*[^*]+\*\*|__[^_]+__|\*[^*\n]+\*|_[^_\n]+_/` -/
def emphasisToken (cs : List Char) : Option Nat :=
  (delimited ['*', '*'] ['*', '*'] (· != '*') cs).or <| (delimited ['_', '_'] ['_', '_'] (· != '_') cs).or <|
    (delimited ['*'] ['*'] (isInside '*') cs).or <| delimited ['_'] ['_'] (isInside '_') cs

/-- `/\[\[[^\[\]\n]+\]\]/` -/
def wikiLinkToken : List Char → Option Nat :=
  delimited ['[', '['] [']', ']'] fun d => d != '[' && isInside ']' d

/-- The tokens of `ChatMarkdown`. -/
def chatToken (cs : List Char) : Option Nat := (codeToken cs).or <| (emphasisToken cs).or <| linkToken cs

/-- The tokens of `WikiMarkdown`. -/
def wikiToken (cs : List Char) : Option Nat :=
  (codeToken cs).or <| (wikiLinkToken cs).or <| (emphasisToken cs).or <| (linkToken cs).or <| urlToken cs

def startsWith (token : List Char) (start : String) : Bool := start.toList.isPrefixOf token

def chatKind (token : List Char) : InlineKind :=
  if token.head? = some (Char.ofNat 96) then .code
  else if startsWith token "**" || startsWith token "__" then .strong
  else if startsWith token "*" || startsWith token "_" then .em
  else .link

def wikiKind (token : List Char) : InlineKind :=
  if token.head? = some (Char.ofNat 96) then .code
  else if startsWith token "[[" then .wikiLink
  else if startsWith token "**" || startsWith token "__" then .strong
  else if startsWith token "*" || startsWith token "_" then .em
  else if startsWith token "https://" || startsWith token "http://" then .url
  else .link

/-- The loop over the tokens; `plain` is the text since the last one, in reverse. -/
def inlinePieces (token : List Char → Option Nat) (kind : List Char → InlineKind) (plain : List Char) :
    List Char → List InlinePiece
  | [] => [⟨.text, plain.reverse⟩]
  | c :: cs =>
    match token (c :: cs) with
    | none => inlinePieces token kind (c :: plain) cs
    | some n =>
      ⟨.text, plain.reverse⟩ :: ⟨kind ((c :: cs).take n), (c :: cs).take n⟩ ::
        inlinePieces token kind [] (cs.drop (n - 1))
termination_by cs => cs.length
decreasing_by
  all_goals simp only [List.length_cons, List.length_drop]
  all_goals omega

/-- `inline` of `ChatMarkdown` -/
def chatInline (text : List Char) : List InlinePiece := inlinePieces chatToken chatKind [] text

/-- `inline` of `WikiMarkdown` -/
def wikiInline (text : List Char) : List InlinePiece := inlinePieces wikiToken wikiKind [] text

section
variable {cs : List Char} {n : Nat}

theorem delimited_pos {left right : List Char} {inside : Char → Bool} (h : delimited left right inside cs = some n) :
    0 < n := by
  simp only [delimited] at h
  split_ifs at h with hmatch
  cases h
  have hbody := List.length_pos_iff.2 hmatch.2.1
  omega

theorem linkToken_pos (h : linkToken cs = some n) : 0 < n := by
  simp only [linkToken, Option.bind_eq_some_iff, Option.map_eq_some_iff] at h
  obtain ⟨label, hlabel, target, -, rfl⟩ := h
  have hpos := delimited_pos hlabel
  omega

theorem urlToken_pos (h : urlToken cs = some n) : 0 < n := by
  simp only [urlToken] at h
  split_ifs at h <;> cases h <;> omega

theorem emphasisToken_pos (h : emphasisToken cs = some n) : 0 < n := by
  simp only [emphasisToken, Option.or_eq_some_iff] at h
  rcases h with h | ⟨-, h | ⟨-, h | ⟨-, h⟩⟩⟩
  all_goals exact delimited_pos h

theorem chatToken_pos (h : chatToken cs = some n) : 0 < n := by
  simp only [chatToken, Option.or_eq_some_iff] at h
  rcases h with h | ⟨-, h | ⟨-, h⟩⟩
  · exact delimited_pos h
  · exact emphasisToken_pos h
  · exact linkToken_pos h

theorem wikiToken_pos (h : wikiToken cs = some n) : 0 < n := by
  simp only [wikiToken, Option.or_eq_some_iff] at h
  rcases h with h | ⟨-, h | ⟨-, h | ⟨-, h | ⟨-, h⟩⟩⟩⟩
  · exact delimited_pos h
  · exact delimited_pos h
  · exact emphasisToken_pos h
  · exact linkToken_pos h
  · exact urlToken_pos h

end

/-- The pieces make up the text: every character is in one of them, in order. -/
theorem inlinePieces_cover {token : List Char → Option Nat} (htoken : ∀ {cs n}, token cs = some n → 0 < n)
    (kind : List Char → InlineKind) (plain cs : List Char) :
    (inlinePieces token kind plain cs).flatMap (·.source) = plain.reverse ++ cs := by
  fun_induction inlinePieces token kind plain cs with
  | case1 plain => simp
  | case2 plain c cs hnone ih =>
    rw [ih]
    simp
  | case3 plain c cs n hsome ih =>
    have hpos := htoken hsome
    have hdrop : cs.drop (n - 1) = (c :: cs).drop n := by
      obtain ⟨m, rfl⟩ := Nat.exists_eq_add_one.2 hpos
      rfl
    simp only [List.flatMap_cons, ih, List.reverse_nil, List.nil_append]
    rw [hdrop, List.take_append_drop]

/-- The renderers come to an end, and account for all lines, exactly on the texts whose items are whole; the pieces of
an inline text always make it up. -/
theorem markdown_ends (text : List Char) :
    (Renders chatBlock text ↔ itemsWhole false .between (text.splitOn '\n') = true) ∧
      (Renders wikiBlock text ↔ itemsWhole true .between (text.splitOn '\n') = true) ∧
      (chatInline text).flatMap (·.source) = text ∧ (wikiInline text).flatMap (·.source) = text := by
  refine ⟨renders_iff false text, ?_, ?_, ?_⟩
  · rw [wikiBlock_eq]
    exact renders_iff true text
  · exact inlinePieces_cover chatToken_pos chatKind [] text
  · exact inlinePieces_cover wikiToken_pos wikiKind [] text

/-- An item that ends with a carriage return keeps both renderers at its line. -/
theorem carriage_return_hangs : ¬ Renders chatBlock "- a\r".toList ∧ ¬ Renders wikiBlock "- a\r".toList := by
  rw [wikiBlock_eq]
  constructor
  · intro h
    exact absurd ((renders_iff false _).1 h) (by decide)
  · intro h
    exact absurd ((renders_iff true _).1 h) (by decide)

example : (chatInline "a **b** `c`".toList).map (·.kind) = [.text, .strong, .text, .code, .text] := by
  simp [chatInline, inlinePieces, chatToken, codeToken, emphasisToken, linkToken, delimited, isInside, chatKind,
    startsWith]

end Inoreader
