import Inoreader.Core.WebFeed
import Inoreader.Lib.Except
import Inoreader.Lib.Json

/-!
# Web feeds as JSON (`reader-core/src/web_feed.rs`)

The `Serialize` and `Deserialize` implementations of recipes and drafts, on values: what a parser of JSON returns for
the text that a writer produced. An execution configuration is read through the constructors that check it, under no
limits but those of the machine. The texts of the errors of `serde` are left out, a value that is not read is `none`.
-/

namespace Inoreader
open Lib

/-! ## Enumerations and URLs -/

def WebLoading.name : WebLoading → String
  | .automatic => "automatic"
  | .static => "static"
  | .browser => "browser"

def WebLoading.toJson (l : WebLoading) : Lib.Json := .ofText l.name

def WebLoading.ofJson (v : Lib.Json) : Option WebLoading :=
  v.asText.bind fun s => [WebLoading.automatic, .static, .browser].find? fun l => l.name = s

def SelectorLanguage.name : SelectorLanguage → String
  | .css => "css"
  | .xPath => "x_path"

def SelectorLanguage.toJson (l : SelectorLanguage) : Lib.Json := .ofText l.name

def SelectorLanguage.ofJson (v : Lib.Json) : Option SelectorLanguage :=
  v.asText.bind fun s => [SelectorLanguage.css, .xPath].find? fun l => l.name = s

def WebViewport.name : WebViewport → String
  | .desktop => "desktop"
  | .mobile => "mobile"

def WebViewport.toJson (v : WebViewport) : Lib.Json := .ofText v.name

def WebViewport.ofJson (v : Lib.Json) : Option WebViewport :=
  v.asText.bind fun s => [WebViewport.desktop, .mobile].find? fun v => v.name = s

theorem WebLoading.reads : Lib.Json.Reads WebLoading.toJson WebLoading.ofJson := by
  intro l
  cases l <;> rfl

theorem SelectorLanguage.reads : Lib.Json.Reads SelectorLanguage.toJson SelectorLanguage.ofJson := by
  intro l
  cases l <;> rfl

theorem WebViewport.reads : Lib.Json.Reads WebViewport.toJson WebViewport.ofJson := by
  intro v
  cases v <;> rfl

section
variable (W : WebPlatform)

/-- What is relied on: the text of a URL or of a UUID is read as the same value, and URLs of HTTP have a host. -/
structure WebPlatform.Lawful : Prop where
  url_text : ∀ {text u}, W.parseUrl text = some u → W.parseUrl u.text = some u
  uuid_text : ∀ {text n}, W.parseUuid text = some n → W.parseUuid (W.uuidText n) = some n
  http_host : ∀ {text u}, W.parseUrl text = some u → u.scheme = "http" ∨ u.scheme = "https" → u.host ≠ none

variable {W}

def RecipeUrl.toJson (u : RecipeUrl W) : Lib.Json := .ofText u.1.text

variable (W) in
def RecipeUrl.ofJson (v : Lib.Json) : Option (RecipeUrl W) := v.asText.bind (recipeUrl W)

/-! ## Recipes -/

def WebSelector.toJson (s : WebSelector W) : Lib.Json :=
  .obj [("language", s.language.toJson), ("expression", .ofText s.expression)]

variable (W) in
def WebSelector.ofJson (v : Lib.Json) : Option (WebSelector W) := do
  v.onlyFields ["language", "expression"]
  let language ← v.required SelectorLanguage.ofJson "language"
  let expression ← v.required Lib.Json.asText "expression"
  (WebSelector.new W language expression).toOption

def WebFeedActions.toJson (a : WebFeedActions W) : Lib.Json :=
  .obj [("viewport", a.viewport.toJson), ("hide_overlays", .ofList WebSelector.toJson a.hideOverlays),
    ("start_pages", .ofList RecipeUrl.toJson a.startPages), ("next_page", .ofOption WebSelector.toJson a.nextPage),
    ("load_more", .ofOption WebSelector.toJson a.loadMore), ("load_more_clicks", .ofSize a.loadMoreClicks),
    ("scrolls", .ofSize a.scrolls)]

variable (W) in
def WebFeedActions.ofJson (v : Lib.Json) : Option (WebFeedActions W) := do
  v.onlyFields ["viewport", "hide_overlays", "start_pages", "next_page", "load_more", "load_more_clicks", "scrolls"]
  let viewport ← v.required WebViewport.ofJson "viewport"
  let hideOverlays ← v.required (Lib.Json.asList (WebSelector.ofJson W)) "hide_overlays"
  let startPages ← v.required (Lib.Json.asList (RecipeUrl.ofJson W)) "start_pages"
  let nextPage ← v.nullable (WebSelector.ofJson W) "next_page"
  let loadMore ← v.nullable (WebSelector.ofJson W) "load_more"
  let loadMoreClicks ← v.required Lib.Json.asSize "load_more_clicks"
  let scrolls ← v.required Lib.Json.asSize "scrolls"
  (WebFeedActions.new viewport hideOverlays startPages nextPage loadMore loadMoreClicks scrolls usizeMax
    usizeMax).toOption

def WebExtraction.toJson (e : WebExtraction W) : Lib.Json :=
  let css (s : Option (CssSelector W)) := Lib.Json.ofOption WebSelector.toJson (s.map (·.1))
  .obj [("listing_url", .ofOption RecipeUrl.toJson e.listingUrl), ("card_selector", css e.cardSelector),
    ("title_selector", css e.titleSelector), ("date_selector", css e.dateSelector),
    ("content_selector", css e.contentSelector), ("wait_selector", css e.waitSelector),
    ("url_pattern", .ofOption .ofText (e.urlPattern.map (·.1)))]

/-- The closure `css` of `WebExtraction::deserialize`. -/
def cssExpression : Option (WebSelector W) → Option (Option String)
  | none => some none
  | some s => if s.language = .css then some (some s.expression) else none

variable (W) in
def WebExtraction.ofJson (v : Lib.Json) : Option (WebExtraction W) := do
  v.onlyFields ["listing_url", "card_selector", "title_selector", "date_selector", "content_selector",
    "wait_selector", "url_pattern"]
  let listingUrl ← v.nullable (RecipeUrl.ofJson W) "listing_url"
  let cardSelector ← v.nullable (WebSelector.ofJson W) "card_selector"
  let titleSelector ← v.nullable (WebSelector.ofJson W) "title_selector"
  let dateSelector ← v.nullable (WebSelector.ofJson W) "date_selector"
  let contentSelector ← v.nullable (WebSelector.ofJson W) "content_selector"
  let waitSelector ← v.nullable (WebSelector.ofJson W) "wait_selector"
  let urlPattern ← v.nullable Lib.Json.asText "url_pattern"
  let cardSelector ← cssExpression cardSelector
  let titleSelector ← cssExpression titleSelector
  let dateSelector ← cssExpression dateSelector
  let contentSelector ← cssExpression contentSelector
  let waitSelector ← cssExpression waitSelector
  (WebExtraction.new W listingUrl cardSelector titleSelector dateSelector contentSelector waitSelector
    urlPattern).toOption

def WebFeedRecipe.toJson (r : WebFeedRecipe W) : Lib.Json :=
  .obj [("selector", r.selector.toJson), ("loading", r.loading.toJson), ("actions", r.actions.toJson),
    ("extraction", r.extraction.toJson), ("max_pages", .ofSize r.maxPages)]

variable (W) in
def WebFeedRecipe.ofJson (v : Lib.Json) : Option (WebFeedRecipe W) := do
  v.onlyFields ["selector", "loading", "actions", "extraction", "max_pages"]
  let selector ← v.required (WebSelector.ofJson W) "selector"
  let loading ← v.required WebLoading.ofJson "loading"
  let actions ← v.required (WebFeedActions.ofJson W) "actions"
  let extraction ← v.required (WebExtraction.ofJson W) "extraction"
  let maxPages ← v.required Lib.Json.asSize "max_pages"
  (WebFeedRecipe.configured W selector loading actions extraction maxPages).toOption

/-! ## A recipe reads back -/

theorem recipeUrl_iff {text : String} {u : RecipeUrl W} : recipeUrl W text = some u ↔ W.parseUrl text = some u.1 := by
  obtain ⟨u, hu⟩ := u
  unfold recipeUrl
  split
  · next v hv => simp [hv]
  · next hv => simp [hv]

theorem RecipeUrl.reads (hW : W.Lawful) : Lib.Json.Reads RecipeUrl.toJson (RecipeUrl.ofJson W) := by
  intro u
  obtain ⟨text, hu⟩ := u.2
  rw [RecipeUrl.toJson, RecipeUrl.ofJson, Lib.Json.asText_ofText, Option.bind_some]
  exact recipeUrl_iff.2 (hW.url_text hu)

theorem WebSelector.new_self (s : WebSelector W) : WebSelector.new W s.language s.expression = .ok s := by
  unfold WebSelector.new
  split
  · rfl
  · next e he => rw [s.checked] at he; cases he

theorem CssSelector.new_self (s : CssSelector W) : CssSelector.new W s.1.expression = .ok s := by
  obtain ⟨⟨language, expression, checked⟩, hcss⟩ := s
  cases (show language = .css from hcss)
  unfold CssSelector.new
  split
  · rfl
  · next e he => rw [checked] at he; cases he

theorem optional_map {α β ε : Type} {f : α → Except ε β} {g : β → α} (h : ∀ b, f (g b) = .ok b) (o : Option β) :
    optional f (o.map g) = .ok o := by
  cases o with
  | none => rfl
  | some b => rw [Option.map_some, optional, h b]; rfl

theorem WebSelector.reads : Lib.Json.Reads WebSelector.toJson (WebSelector.ofJson W) := by
  intro s
  have honly : s.toJson.onlyFields ["language", "expression"] = some () :=
    Lib.Json.onlyFields_obj (by decide) rfl
  have hlanguage : s.toJson.required SelectorLanguage.ofJson "language" = some s.language :=
    Lib.Json.required_of_member SelectorLanguage.reads (Lib.Json.member_obj ..)
  have hexpression : s.toJson.required Lib.Json.asText "expression" = some s.expression :=
    Lib.Json.required_of_member Lib.Json.asText_ofText (Lib.Json.member_obj ..)
  simp only [WebSelector.ofJson, honly, hlanguage, hexpression, Option.bind_eq_bind, Option.bind_some,
    WebSelector.new_self, Except.toOption]

theorem WebSelector.toJson_ne_null (s : WebSelector W) : s.toJson ≠ .null := by
  intro h
  cases h

theorem WebFeedActions.new_self (a : WebFeedActions W) {maxPages maxActions : Nat} (hpages : a.pageCount ≤ maxPages)
    (hactions : a.actionCount ≤ maxActions) :
    WebFeedActions.new a.viewport a.hideOverlays a.startPages a.nextPage a.loadMore a.loadMoreClicks a.scrolls maxPages
      maxActions = .ok a := by
  unfold WebFeedActions.pageCount at hpages
  unfold WebFeedActions.actionCount at hactions
  unfold WebFeedActions.new
  rw [if_neg (Nat.not_lt.2 hpages), dif_pos a.bounded, if_neg (Nat.not_lt.2 hactions)]

theorem WebFeedActions.reads (hW : W.Lawful) : Lib.Json.Reads WebFeedActions.toJson (WebFeedActions.ofJson W) := by
  intro a
  have hsize := Lib.Json.asSize_ofSize
  have hselectors := fun ss => Lib.Json.asList_ofList (WebSelector.reads (W := W)) ss
  have hurls := fun us => Lib.Json.asList_ofList (RecipeUrl.reads hW) us
  have honly : a.toJson.onlyFields ["viewport", "hide_overlays", "start_pages", "next_page", "load_more",
      "load_more_clicks", "scrolls"] = some () :=
    Lib.Json.onlyFields_obj (by decide) rfl
  have hviewport : a.toJson.required WebViewport.ofJson "viewport" = some a.viewport :=
    Lib.Json.required_of_member WebViewport.reads (Lib.Json.member_obj ..)
  have hoverlays : a.toJson.required (Lib.Json.asList (WebSelector.ofJson W)) "hide_overlays" = some a.hideOverlays :=
    Lib.Json.required_of_member hselectors (Lib.Json.member_obj ..)
  have hpages : a.toJson.required (Lib.Json.asList (RecipeUrl.ofJson W)) "start_pages" = some a.startPages :=
    Lib.Json.required_of_member hurls (Lib.Json.member_obj ..)
  have hnext : a.toJson.nullable (WebSelector.ofJson W) "next_page" = some a.nextPage :=
    Lib.Json.nullable_of_member WebSelector.reads WebSelector.toJson_ne_null (Lib.Json.member_obj ..)
  have hmore : a.toJson.nullable (WebSelector.ofJson W) "load_more" = some a.loadMore :=
    Lib.Json.nullable_of_member WebSelector.reads WebSelector.toJson_ne_null (Lib.Json.member_obj ..)
  have hclicks : a.toJson.required Lib.Json.asSize "load_more_clicks" = some a.loadMoreClicks :=
    Lib.Json.required_of_member hsize (Lib.Json.member_obj ..)
  have hscrolls : a.toJson.required Lib.Json.asSize "scrolls" = some a.scrolls :=
    Lib.Json.required_of_member hsize (Lib.Json.member_obj ..)
  have hnew := WebFeedActions.new_self a (show a.pageCount ≤ usizeMax from Nat.min_le_right ..) a.bounded
  simp only [WebFeedActions.ofJson, honly, hviewport, hoverlays, hpages, hnext, hmore, hclicks, hscrolls,
    Option.bind_eq_bind, Option.bind_some, hnew, Except.toOption]

theorem urlPatternOf_self (p : { p : String // W.regexCompiles p = true }) : urlPatternOf W p.1 = .ok p :=
  dif_pos p.2

theorem WebExtraction.new_self (e : WebExtraction W) :
    WebExtraction.new W e.listingUrl (e.cardSelector.map (·.1.expression)) (e.titleSelector.map (·.1.expression))
      (e.dateSelector.map (·.1.expression)) (e.contentSelector.map (·.1.expression))
      (e.waitSelector.map (·.1.expression)) (e.urlPattern.map (·.1)) = .ok e := by
  unfold WebExtraction.new
  simp only [optional_map urlPatternOf_self, optional_map CssSelector.new_self]
  rfl

theorem cssExpression_css (s : Option (CssSelector W)) :
    cssExpression (s.map (·.1)) = some (s.map (·.1.expression)) := by
  cases s with
  | none => rfl
  | some s => exact if_pos s.2

theorem WebExtraction.reads (hW : W.Lawful) : Lib.Json.Reads WebExtraction.toJson (WebExtraction.ofJson W) := by
  intro e
  have honly : e.toJson.onlyFields ["listing_url", "card_selector", "title_selector", "date_selector",
      "content_selector", "wait_selector", "url_pattern"] = some () :=
    Lib.Json.onlyFields_obj (by decide) rfl
  have hlisting : e.toJson.nullable (RecipeUrl.ofJson W) "listing_url" = some e.listingUrl :=
    Lib.Json.nullable_of_member (RecipeUrl.reads hW) (fun u h => by cases h) (Lib.Json.member_obj ..)
  have hcss : ∀ (name : String) (s : Option (CssSelector W)),
      e.toJson.member name = some (.ofOption WebSelector.toJson (s.map (·.1))) →
      e.toJson.nullable (WebSelector.ofJson W) name = some (s.map (·.1)) :=
    fun _ _ h => Lib.Json.nullable_of_member WebSelector.reads WebSelector.toJson_ne_null h
  have hcard := hcss "card_selector" e.cardSelector (Lib.Json.member_obj ..)
  have htitle := hcss "title_selector" e.titleSelector (Lib.Json.member_obj ..)
  have hdate := hcss "date_selector" e.dateSelector (Lib.Json.member_obj ..)
  have hcontent := hcss "content_selector" e.contentSelector (Lib.Json.member_obj ..)
  have hwait := hcss "wait_selector" e.waitSelector (Lib.Json.member_obj ..)
  have hpattern : e.toJson.nullable Lib.Json.asText "url_pattern" = some (e.urlPattern.map (·.1)) :=
    Lib.Json.nullable_of_member Lib.Json.asText_ofText (fun s h => by cases h) (Lib.Json.member_obj ..)
  simp only [WebExtraction.ofJson, honly, hlisting, hcard, htitle, hdate, hcontent, hwait, hpattern,
    Option.bind_eq_bind, Option.bind_some, cssExpression_css, WebExtraction.new_self, Except.toOption]

theorem WebFeedRecipe.configured_self (r : WebFeedRecipe W) :
    WebFeedRecipe.configured W r.selector r.loading r.actions r.extraction r.maxPages = .ok r := by
  unfold WebFeedRecipe.configured
  rw [dif_neg r.rendered, dif_neg r.positive]

theorem WebFeedRecipe.reads (hW : W.Lawful) : Lib.Json.Reads WebFeedRecipe.toJson (WebFeedRecipe.ofJson W) := by
  intro r
  have honly : r.toJson.onlyFields ["selector", "loading", "actions", "extraction", "max_pages"] = some () :=
    Lib.Json.onlyFields_obj (by decide) rfl
  have hselector : r.toJson.required (WebSelector.ofJson W) "selector" = some r.selector :=
    Lib.Json.required_of_member WebSelector.reads (Lib.Json.member_obj ..)
  have hloading : r.toJson.required WebLoading.ofJson "loading" = some r.loading :=
    Lib.Json.required_of_member WebLoading.reads (Lib.Json.member_obj ..)
  have hactions : r.toJson.required (WebFeedActions.ofJson W) "actions" = some r.actions :=
    Lib.Json.required_of_member (WebFeedActions.reads hW) (Lib.Json.member_obj ..)
  have hextraction : r.toJson.required (WebExtraction.ofJson W) "extraction" = some r.extraction :=
    Lib.Json.required_of_member (WebExtraction.reads hW) (Lib.Json.member_obj ..)
  have hpages : r.toJson.required Lib.Json.asSize "max_pages" = some r.maxPages :=
    Lib.Json.required_of_member Lib.Json.asSize_ofSize (Lib.Json.member_obj ..)
  simp only [WebFeedRecipe.ofJson, honly, hselector, hloading, hactions, hextraction, hpages, Option.bind_eq_bind,
    Option.bind_some, WebFeedRecipe.configured_self, Except.toOption]

end

/-! ## Drafts -/

def SelectorDraft.toJson (s : SelectorDraft) : Lib.Json :=
  .obj [("language", .ofText s.language), ("expression", .ofText s.expression)]

def SelectorDraft.ofJson (v : Lib.Json) : Option SelectorDraft := do
  v.onlyFields ["language", "expression"]
  let language ← v.required Lib.Json.asText "language"
  let expression ← v.required Lib.Json.asText "expression"
  pure { language, expression }

section
variable {W : WebPlatform}

def WebUuid.toJson (n : WebUuid W) : Lib.Json := .ofText (W.uuidText n.1)

variable (W) in
def WebUuid.ofJson (v : Lib.Json) : Option (WebUuid W) := v.asText.bind (webUuid W)

def WebFeedRecipeDraft.toJson (d : WebFeedRecipeDraft W) : Lib.Json :=
  .obj [("workspaceId", d.workspaceId.toJson), ("url", .ofText d.url), ("selector", .ofText d.selector),
    ("loading", .ofText d.loading), ("preview", .ofOption .bool d.preview),
    ("selectorLanguage", .ofOption .ofText d.selectorLanguage), ("viewport", .ofOption .ofText d.viewport),
    ("listingUrl", .ofOption .ofText d.listingUrl), ("cardSelector", .ofOption .ofText d.cardSelector),
    ("titleSelector", .ofOption .ofText d.titleSelector), ("dateSelector", .ofOption .ofText d.dateSelector),
    ("contentSelector", .ofOption .ofText d.contentSelector), ("waitSelector", .ofOption .ofText d.waitSelector),
    ("urlPattern", .ofOption .ofText d.urlPattern), ("maxPages", .ofOption .ofSize d.maxPages),
    ("hideOverlays", .ofList SelectorDraft.toJson d.hideOverlays), ("startPages", .ofList .ofText d.startPages),
    ("nextPage", .ofOption SelectorDraft.toJson d.nextPage), ("loadMore", .ofOption SelectorDraft.toJson d.loadMore),
    ("loadMoreClicks", .ofSize d.loadMoreClicks), ("scrolls", .ofSize d.scrolls)]

variable (W) in
def WebFeedRecipeDraft.ofJson (v : Lib.Json) : Option (WebFeedRecipeDraft W) := do
  v.onlyFields ["workspaceId", "url", "selector", "loading", "preview", "selectorLanguage", "viewport", "listingUrl",
    "cardSelector", "titleSelector", "dateSelector", "contentSelector", "waitSelector", "urlPattern", "maxPages",
    "hideOverlays", "startPages", "nextPage", "loadMore", "loadMoreClicks", "scrolls"]
  let workspaceId ← v.required (WebUuid.ofJson W) "workspaceId"
  let url ← v.required Lib.Json.asText "url"
  let selector ← v.required Lib.Json.asText "selector"
  let loading ← v.required Lib.Json.asText "loading"
  let preview ← v.nullable Lib.Json.asBool "preview"
  let selectorLanguage ← v.nullable Lib.Json.asText "selectorLanguage"
  let viewport ← v.nullable Lib.Json.asText "viewport"
  let listingUrl ← v.nullable Lib.Json.asText "listingUrl"
  let cardSelector ← v.nullable Lib.Json.asText "cardSelector"
  let titleSelector ← v.nullable Lib.Json.asText "titleSelector"
  let dateSelector ← v.nullable Lib.Json.asText "dateSelector"
  let contentSelector ← v.nullable Lib.Json.asText "contentSelector"
  let waitSelector ← v.nullable Lib.Json.asText "waitSelector"
  let urlPattern ← v.nullable Lib.Json.asText "urlPattern"
  let maxPages ← v.nullable Lib.Json.asSize "maxPages"
  let hideOverlays ← v.orDefault [] (Lib.Json.asList SelectorDraft.ofJson) "hideOverlays"
  let startPages ← v.orDefault [] (Lib.Json.asList Lib.Json.asText) "startPages"
  let nextPage ← v.nullable SelectorDraft.ofJson "nextPage"
  let loadMore ← v.nullable SelectorDraft.ofJson "loadMore"
  let loadMoreClicks ← v.orDefault 0 Lib.Json.asSize "loadMoreClicks"
  let scrolls ← v.orDefault 0 Lib.Json.asSize "scrolls"
  pure { workspaceId, url, selector, loading, preview, selectorLanguage, viewport, listingUrl, cardSelector,
         titleSelector, dateSelector, contentSelector, waitSelector, urlPattern, maxPages, hideOverlays, startPages,
         nextPage, loadMore, loadMoreClicks, scrolls }

/-! ## A draft reads back -/

theorem SelectorDraft.reads : Lib.Json.Reads SelectorDraft.toJson SelectorDraft.ofJson := by
  intro s
  have honly : s.toJson.onlyFields ["language", "expression"] = some () :=
    Lib.Json.onlyFields_obj (by decide) rfl
  have hlanguage : s.toJson.required Lib.Json.asText "language" = some s.language :=
    Lib.Json.required_of_member Lib.Json.asText_ofText (Lib.Json.member_obj ..)
  have hexpression : s.toJson.required Lib.Json.asText "expression" = some s.expression :=
    Lib.Json.required_of_member Lib.Json.asText_ofText (Lib.Json.member_obj ..)
  simp only [SelectorDraft.ofJson, honly, hlanguage, hexpression, Option.bind_eq_bind, Option.bind_some,
    Option.pure_def]

theorem webUuid_iff {text : String} {n : WebUuid W} : webUuid W text = some n ↔ W.parseUuid text = some n.1 := by
  obtain ⟨n, hn⟩ := n
  unfold webUuid
  split
  · next m hm => simp [hm]
  · next hn => simp [hn]

theorem WebUuid.reads (hW : W.Lawful) : Lib.Json.Reads WebUuid.toJson (WebUuid.ofJson W) := by
  intro n
  obtain ⟨text, hn⟩ := n.2
  rw [WebUuid.toJson, WebUuid.ofJson, Lib.Json.asText_ofText, Option.bind_some]
  exact webUuid_iff.2 (hW.uuid_text hn)

theorem WebFeedRecipeDraft.reads (hW : W.Lawful) :
    Lib.Json.Reads WebFeedRecipeDraft.toJson (WebFeedRecipeDraft.ofJson W) := by
  intro d
  have hread := Lib.Json.asText_ofText
  have hbool : Lib.Json.Reads .bool Lib.Json.asBool := fun _ => rfl
  have honly : d.toJson.onlyFields ["workspaceId", "url", "selector", "loading", "preview", "selectorLanguage",
      "viewport", "listingUrl", "cardSelector", "titleSelector", "dateSelector", "contentSelector", "waitSelector",
      "urlPattern", "maxPages", "hideOverlays", "startPages", "nextPage", "loadMore", "loadMoreClicks",
      "scrolls"] = some () :=
    Lib.Json.onlyFields_obj (by decide) rfl
  have htext : ∀ (name s : String), d.toJson.member name = some (.ofText s) →
      d.toJson.required Lib.Json.asText name = some s :=
    fun _ _ h => Lib.Json.required_of_member hread h
  have htexts : ∀ (name : String) (s : Option String), d.toJson.member name = some (.ofOption .ofText s) →
      d.toJson.nullable Lib.Json.asText name = some s :=
    fun _ _ h => Lib.Json.nullable_of_member hread (fun _ h => by cases h) h
  have hsize : ∀ (name : String) (n : UInt64), d.toJson.member name = some (.ofSize n) →
      d.toJson.orDefault 0 Lib.Json.asSize name = some n :=
    fun _ n h => (Lib.Json.orDefault_of_member h).trans (Lib.Json.asSize_ofSize n)
  have hdraft : ∀ (name : String) (s : Option SelectorDraft),
      d.toJson.member name = some (.ofOption SelectorDraft.toJson s) →
      d.toJson.nullable SelectorDraft.ofJson name = some s :=
    fun _ _ h => Lib.Json.nullable_of_member SelectorDraft.reads (fun _ h => by cases h) h
  have hworkspace : d.toJson.required (WebUuid.ofJson W) "workspaceId" = some d.workspaceId :=
    Lib.Json.required_of_member (WebUuid.reads hW) (Lib.Json.member_obj ..)
  have hurl := htext "url" d.url (Lib.Json.member_obj ..)
  have hselector := htext "selector" d.selector (Lib.Json.member_obj ..)
  have hloading := htext "loading" d.loading (Lib.Json.member_obj ..)
  have hpreview : d.toJson.nullable Lib.Json.asBool "preview" = some d.preview :=
    Lib.Json.nullable_of_member hbool (fun _ h => by cases h) (Lib.Json.member_obj ..)
  have hlanguage := htexts "selectorLanguage" d.selectorLanguage (Lib.Json.member_obj ..)
  have hviewport := htexts "viewport" d.viewport (Lib.Json.member_obj ..)
  have hlisting := htexts "listingUrl" d.listingUrl (Lib.Json.member_obj ..)
  have hcard := htexts "cardSelector" d.cardSelector (Lib.Json.member_obj ..)
  have htitle := htexts "titleSelector" d.titleSelector (Lib.Json.member_obj ..)
  have hdate := htexts "dateSelector" d.dateSelector (Lib.Json.member_obj ..)
  have hcontent := htexts "contentSelector" d.contentSelector (Lib.Json.member_obj ..)
  have hwait := htexts "waitSelector" d.waitSelector (Lib.Json.member_obj ..)
  have hpattern := htexts "urlPattern" d.urlPattern (Lib.Json.member_obj ..)
  have hmax : d.toJson.nullable Lib.Json.asSize "maxPages" = some d.maxPages :=
    Lib.Json.nullable_of_member Lib.Json.asSize_ofSize (fun _ h => by cases h) (Lib.Json.member_obj ..)
  have hoverlays : d.toJson.orDefault [] (Lib.Json.asList SelectorDraft.ofJson) "hideOverlays" = some d.hideOverlays :=
    (Lib.Json.orDefault_of_member (Lib.Json.member_obj ..)).trans (Lib.Json.asList_ofList SelectorDraft.reads _)
  have hpages : d.toJson.orDefault [] (Lib.Json.asList Lib.Json.asText) "startPages" = some d.startPages :=
    (Lib.Json.orDefault_of_member (Lib.Json.member_obj ..)).trans (Lib.Json.asList_ofList hread _)
  have hnext := hdraft "nextPage" d.nextPage (Lib.Json.member_obj ..)
  have hmore := hdraft "loadMore" d.loadMore (Lib.Json.member_obj ..)
  have hclicks := hsize "loadMoreClicks" d.loadMoreClicks (Lib.Json.member_obj ..)
  have hscrolls := hsize "scrolls" d.scrolls (Lib.Json.member_obj ..)
  simp only [WebFeedRecipeDraft.ofJson, honly, hworkspace, hurl, hselector, hloading, hpreview, hlanguage, hviewport,
    hlisting, hcard, htitle, hdate, hcontent, hwait, hpattern, hmax, hoverlays, hpages, hnext, hmore, hclicks,
    hscrolls, Option.bind_eq_bind, Option.bind_some, Option.pure_def]

end
end Inoreader
