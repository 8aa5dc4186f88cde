import Inoreader.Core.Article
import Inoreader.Lib.Text

/-!
# Web feeds (`reader-core/src/web_feed.rs`)

A recipe says how articles are collected from a page. It is built only through constructors that check it, so its types
carry what they check. The parsers of URLs, CSS selectors, regular expressions and UUIDs are inputs.
-/

namespace Inoreader
open Lib

/-- `Url::parse`, `scraper::Selector::parse`, `Regex::new` and the text of a UUID. -/
structure WebPlatform where
  parseUrl : String → Option Url
  cssParses : String → Bool
  regexCompiles : String → Bool
  uuidText : Nat → String
  parseUuid : String → Option Nat

inductive WebLoading
  | automatic | static | browser
deriving DecidableEq, Repr

inductive SelectorLanguage
  | css | xPath
deriving DecidableEq, Repr

inductive WebViewport
  | desktop | mobile
deriving DecidableEq, Repr

inductive WebFeedError
  | emptySelector
  | invalidSelector
  | invalidUrlPattern
  | xPathRequiresBrowser
  | limitExceeded (field : String)
  | zeroLimit (field : String)
deriving DecidableEq, Repr

def WebFeedError.toText : WebFeedError → String
  | .emptySelector => "Web feed selector must not be empty"
  | .invalidSelector => "selector syntax is invalid"
  | .invalidUrlPattern => "URL pattern syntax is invalid"
  | .xPathRequiresBrowser => "XPath selection requires browser or automatic loading"
  | .limitExceeded field => s!"configured Web feed limit exceeded: {field}"
  | .zeroLimit field => s!"configured limit {field} must be greater than zero"

section
variable (W : WebPlatform)

/-- A URL that was parsed. -/
abbrev RecipeUrl := { u : Url // ∃ text, W.parseUrl text = some u }

def recipeUrl (text : String) : Option (RecipeUrl W) :=
  match h : W.parseUrl text with
  | some u => some ⟨u, text, h⟩
  | none => none

/-- The checks of `WebSelector::new`. -/
def checkSelector (language : SelectorLanguage) (expression : String) : Except WebFeedError Unit :=
  if isBlank expression then .error .emptySelector
  else if language = .css then if W.cssParses expression then .ok () else .error .invalidSelector
  else
    let start := (expression.toList.dropWhile isWhiteSpace).head?
    if start = some '/' ∨ start = some '(' then .ok () else .error .invalidSelector

structure WebSelector where
  language : SelectorLanguage
  expression : String
  checked : checkSelector W language expression = .ok ()

def WebSelector.new (language : SelectorLanguage) (expression : String) : Except WebFeedError (WebSelector W) :=
  match h : checkSelector W language expression with
  | .ok () => .ok { language, expression, checked := h }
  | .error e => .error e

abbrev CssSelector := { s : WebSelector W // s.language = .css }

/-- `WebSelector::new(SelectorLanguage::Css, _)`. -/
def CssSelector.new (expression : String) : Except WebFeedError (CssSelector W) :=
  match h : checkSelector W .css expression with
  | .ok () => .ok ⟨{ language := .css, expression, checked := h }, rfl⟩
  | .error e => .error e

/-- `Option::map` with a constructor, then `transpose`. -/
def optional {α β ε : Type} (f : α → Except ε β) : Option α → Except ε (Option β)
  | none => .ok none
  | some a => (f a).map some

def usizeMax : Nat := 2 ^ 64 - 1

/-- `hide_overlays.len() + load_more_clicks + scrolls + next_page.is_some()`. -/
def countActions {σ : Type} (hideOverlays : List σ) (nextPage : Option σ) (loadMoreClicks scrolls : UInt64) : Nat :=
  hideOverlays.length + loadMoreClicks.toNat + scrolls.toNat + nextPage.isSome.toNat

structure WebFeedActions where
  viewport : WebViewport
  hideOverlays : List (WebSelector W)
  startPages : List (RecipeUrl W)
  nextPage : Option (WebSelector W)
  loadMore : Option (WebSelector W)
  loadMoreClicks : UInt64
  scrolls : UInt64
  bounded : countActions hideOverlays nextPage loadMoreClicks scrolls ≤ usizeMax

namespace WebFeedActions
variable {W}

def pageCount (a : WebFeedActions W) : Nat := min (a.startPages.length + 1) usizeMax

def actionCount (a : WebFeedActions W) : Nat := countActions a.hideOverlays a.nextPage a.loadMoreClicks a.scrolls

/-- `WebFeedActions::new`; the sum of the actions is checked for overflow. -/
def new (viewport : WebViewport) (hideOverlays : List (WebSelector W)) (startPages : List (RecipeUrl W))
    (nextPage loadMore : Option (WebSelector W)) (loadMoreClicks scrolls : UInt64) (maxPages maxActions : Nat) :
    Except WebFeedError (WebFeedActions W) :=
  if maxPages < min (startPages.length + 1) usizeMax then .error (.limitExceeded "start_pages")
  else if h : countActions hideOverlays nextPage loadMoreClicks scrolls ≤ usizeMax then
    if maxActions < countActions hideOverlays nextPage loadMoreClicks scrolls then .error (.limitExceeded "actions")
    else .ok { viewport, hideOverlays, startPages, nextPage, loadMore, loadMoreClicks, scrolls, bounded := h }
  else .error (.limitExceeded "actions")

end WebFeedActions

structure WebExtraction where
  listingUrl : Option (RecipeUrl W)
  cardSelector : Option (CssSelector W)
  titleSelector : Option (CssSelector W)
  dateSelector : Option (CssSelector W)
  contentSelector : Option (CssSelector W)
  waitSelector : Option (CssSelector W)
  urlPattern : Option { p : String // W.regexCompiles p = true }

/-- `Regex::new`. -/
def urlPatternOf (p : String) : Except WebFeedError { p : String // W.regexCompiles p = true } :=
  if h : W.regexCompiles p = true then .ok ⟨p, h⟩ else .error .invalidUrlPattern

def WebExtraction.new (listingUrl : Option (RecipeUrl W))
    (cardSelector titleSelector dateSelector contentSelector waitSelector urlPattern : Option String) :
    Except WebFeedError (WebExtraction W) := do
  let urlPattern ← optional (urlPatternOf W) urlPattern
  let cardSelector ← optional (CssSelector.new W) cardSelector
  let titleSelector ← optional (CssSelector.new W) titleSelector
  let dateSelector ← optional (CssSelector.new W) dateSelector
  let contentSelector ← optional (CssSelector.new W) contentSelector
  let waitSelector ← optional (CssSelector.new W) waitSelector
  pure { listingUrl, cardSelector, titleSelector, dateSelector, contentSelector, waitSelector, urlPattern }

structure WebFeedRecipe where
  selector : WebSelector W
  loading : WebLoading
  actions : WebFeedActions W
  extraction : WebExtraction W
  maxPages : UInt64
  rendered : ¬ (loading = .static ∧ selector.language = .xPath)
  positive : maxPages ≠ 0

def WebFeedRecipe.configured (selector : WebSelector W) (loading : WebLoading) (actions : WebFeedActions W)
    (extraction : WebExtraction W) (maxPages : UInt64) : Except WebFeedError (WebFeedRecipe W) :=
  if h : loading = .static ∧ selector.language = .xPath then .error .xPathRequiresBrowser
  else if h' : maxPages = 0 then .error (.zeroLimit "web_feed.max_pages")
  else .ok { selector, loading, actions, extraction, maxPages, rendered := h, positive := h' }

end

/-! ## Drafts -/

structure SelectorDraft where
  language : String
  expression : String
deriving DecidableEq, Repr

section
variable (W : WebPlatform)

/-- A UUID that was parsed. -/
abbrev WebUuid := { n : Nat // ∃ text, W.parseUuid text = some n }

def webUuid (text : String) : Option (WebUuid W) :=
  match h : W.parseUuid text with
  | some n => some ⟨n, text, h⟩
  | none => none

structure WebFeedRecipeDraft where
  workspaceId : WebUuid W
  url : String
  selector : String
  loading : String
  preview : Option Bool
  selectorLanguage : Option String
  viewport : Option String
  listingUrl : Option String
  cardSelector : Option String
  titleSelector : Option String
  dateSelector : Option String
  contentSelector : Option String
  waitSelector : Option String
  urlPattern : Option String
  maxPages : Option UInt64
  hideOverlays : List SelectorDraft
  startPages : List String
  nextPage : Option SelectorDraft
  loadMore : Option SelectorDraft
  loadMoreClicks : UInt64
  scrolls : UInt64

end

def parseLoading (loading : String) : Except String WebLoading :=
  if loading = "automatic" then .ok .automatic
  else if loading = "static" then .ok .static
  else if loading = "browser" then .ok .browser
  else .error "invalid web feed loading mode"

def parseLanguage (language : String) : Except String SelectorLanguage :=
  if language = "css" then .ok .css
  else if language = "xpath" then .ok .xPath
  else .error "invalid selector language"

def parseViewport (viewport : String) : Except String WebViewport :=
  if viewport = "desktop" then .ok .desktop
  else if viewport = "mobile" then .ok .mobile
  else .error "invalid viewport"

section
variable (W : WebPlatform)

/-- `WebSelector::new(_).map_err(|e| e.to_string())`. -/
def draftSelector (language : SelectorLanguage) (expression : String) : Except String (WebSelector W) :=
  (WebSelector.new W language expression).mapError WebFeedError.toText

/-- The closure `parse`. -/
def SelectorDraft.parse (s : SelectorDraft) : Except String (WebSelector W) := do
  let language ← parseLanguage s.language
  draftSelector W language s.expression

def draftUrl (message text : String) : Except String (RecipeUrl W) :=
  match recipeUrl W text with
  | some u => .ok u
  | none => .error message

/-- `recipe_from_draft`. -/
def recipeFromDraft (draft : WebFeedRecipeDraft W) (maxPages maxActions : Nat) : Except String (WebFeedRecipe W) := do
  let loading ← parseLoading draft.loading
  let language ← parseLanguage (draft.selectorLanguage.getD "css")
  let primary ← draftSelector W language draft.selector
  let viewport ← parseViewport (draft.viewport.getD "desktop")
  let overlays ← draft.hideOverlays.mapM (SelectorDraft.parse W)
  let pages ← draft.startPages.mapM (draftUrl W "invalid start page URL")
  let next ← optional (SelectorDraft.parse W) draft.nextPage
  let loadMore ← optional (SelectorDraft.parse W) draft.loadMore
  let requestedPages := draft.maxPages.getD 1
  if requestedPages = 0 ∨ maxPages < requestedPages.toNat then .error "web feed maxPages exceeds configured limit"
  else
    let actions ← (WebFeedActions.new viewport overlays pages next loadMore draft.loadMoreClicks draft.scrolls maxPages
      maxActions).mapError WebFeedError.toText
    let listing ← optional (draftUrl W "invalid listing URL") draft.listingUrl
    let extraction ← (WebExtraction.new W listing draft.cardSelector draft.titleSelector draft.dateSelector
      draft.contentSelector draft.waitSelector draft.urlPattern).mapError WebFeedError.toText
    (WebFeedRecipe.configured W primary loading actions extraction requestedPages).mapError WebFeedError.toText

structure PreparedWebFeed where
  draft : WebFeedRecipeDraft W
  recipe : WebFeedRecipe W

def PreparedWebFeed.new (draft : WebFeedRecipeDraft W) (maxPages maxActions : Nat) : Except String (PreparedWebFeed W) :=
  if maxPages = 0 ∨ maxActions = 0 then .error "web feed configuration limits must be positive"
  else if draft.workspaceId.1 = 0 then .error "missing workspace identity"
  else match W.parseUrl draft.url with
    | none => .error "invalid web feed URL"
    | some url =>
      if (url.scheme ≠ "http" ∧ url.scheme ≠ "https") ∨ url.host = none then .error "invalid web feed URL"
      else (recipeFromDraft W draft maxPages maxActions).map fun recipe => { draft, recipe }

end
end Inoreader
