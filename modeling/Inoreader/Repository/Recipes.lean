import Inoreader.Core.WebFeedJson

/-!
# Imported sources and editable recipes (`reader-storage-postgres/src/repository.rs`)

An imported configuration gives a source its kind; a recipe is shown to its owner as a document, which is a draft
again. The error text of `serde` is left out of the messages.
-/

namespace Inoreader
open Lib

structure ImportedSeedConfig where
  id : String
  name : String
  url : String
  feedUrl : Option String
  adapter : Option String
  listingUrl : Option String
  linkSelector : Option String
  cardSelector : Option String
  titleSelector : Option String
  dateSelector : Option String
  contentSelector : Option String
  urlPattern : Option String
  nextSelector : Option String
  extraListingUrls : List String
  maxPages : Option UInt64
  pageSize : Option { n : UInt64 // n ≠ 0 }
  browser : Bool
  browserFallback : Bool
  waitSelector : Option String
  loadMoreSelector : Option String
  loadMoreClicks : UInt64
  scrollSteps : UInt64

/-- `NonZeroUsize`. -/
def asNonZero (v : Lib.Json) : Option { n : UInt64 // n ≠ 0 } :=
  v.asSize.bind fun n => if h : n ≠ 0 then some ⟨n, h⟩ else none

def ImportedSeedConfig.ofJson (v : Lib.Json) : Option ImportedSeedConfig := do
  v.onlyFields ["id", "name", "url", "feed_url", "adapter", "listing_url", "link_selector", "card_selector",
    "title_selector", "date_selector", "content_selector", "url_pattern", "next_selector", "extra_listing_urls",
    "max_pages", "page_size", "browser", "browser_fallback", "wait_selector", "load_more_selector",
    "load_more_clicks", "scroll_steps"]
  let id ← v.required Lib.Json.asText "id"
  let name ← v.required Lib.Json.asText "name"
  let url ← v.required Lib.Json.asText "url"
  let feedUrl ← v.nullable Lib.Json.asText "feed_url"
  let adapter ← v.nullable Lib.Json.asText "adapter"
  let listingUrl ← v.nullable Lib.Json.asText "listing_url"
  let linkSelector ← v.nullable Lib.Json.asText "link_selector"
  let cardSelector ← v.nullable Lib.Json.asText "card_selector"
  let titleSelector ← v.nullable Lib.Json.asText "title_selector"
  let dateSelector ← v.nullable Lib.Json.asText "date_selector"
  let contentSelector ← v.nullable Lib.Json.asText "content_selector"
  let urlPattern ← v.nullable Lib.Json.asText "url_pattern"
  let nextSelector ← v.nullable Lib.Json.asText "next_selector"
  let extraListingUrls ← v.orDefault [] (Lib.Json.asList Lib.Json.asText) "extra_listing_urls"
  let maxPages ← v.nullable Lib.Json.asSize "max_pages"
  let pageSize ← v.nullable asNonZero "page_size"
  let browser ← v.orDefault false Lib.Json.asBool "browser"
  let browserFallback ← v.orDefault false Lib.Json.asBool "browser_fallback"
  let waitSelector ← v.nullable Lib.Json.asText "wait_selector"
  let loadMoreSelector ← v.nullable Lib.Json.asText "load_more_selector"
  let loadMoreClicks ← v.orDefault 0 Lib.Json.asSize "load_more_clicks"
  let scrollSteps ← v.orDefault 0 Lib.Json.asSize "scroll_steps"
  pure { id, name, url, feedUrl, adapter, listingUrl, linkSelector, cardSelector, titleSelector, dateSelector,
         contentSelector, urlPattern, nextSelector, extraListingUrls, maxPages, pageSize, browser, browserFallback,
         waitSelector, loadMoreSelector, loadMoreClicks, scrollSteps }

section
variable (W : WebPlatform)

/-- The built-in adapters that a configuration can name. -/
inductive ImportedAdapter
  | cloudera (listingUrl : RecipeUrl W)
  | digoal (listingUrl : RecipeUrl W)
  | mirrorship
  | pingkai (listingUrl : RecipeUrl W)
  | modbNews
  | infoqBigdata
  | volcengine
  | jdCloud (pageSize : { n : UInt64 // n ≠ 0 })
  | highgo (maxPages : UInt64)

/-- The kinds an imported source can get. -/
inductive ImportedKind
  | auto
  | webPage (recipe : WebFeedRecipe W)
  | builtIn (adapter : ImportedAdapter W)

/-- The closure `parse_url`. -/
def listingUrlOr (value : Option String) (fallback : RecipeUrl W) : Except String (RecipeUrl W) :=
  match value with
  | some value => draftUrl W "invalid imported listing URL" value
  | none => .ok fallback

def importedAdapter (raw : ImportedSeedConfig) (canonical : RecipeUrl W) (adapter : String) :
    Except String (ImportedAdapter W) :=
  if adapter = "cloudera" then (listingUrlOr W raw.listingUrl canonical).map .cloudera
  else if adapter = "digoal" then (listingUrlOr W raw.listingUrl canonical).map .digoal
  else if adapter = "mirrorship" then .ok .mirrorship
  else if adapter = "pingkai" then (listingUrlOr W raw.listingUrl canonical).map .pingkai
  else if adapter = "modb-news" then .ok .modbNews
  else if adapter = "infoq-bigdata" then .ok .infoqBigdata
  else if adapter = "volcengine" then .ok .volcengine
  else if adapter = "jdcloud" then
    match raw.pageSize with
    | some pageSize => .ok (.jdCloud pageSize)
    | none => .error "jdcloud requires explicit page_size"
  else if adapter = "highgo" then .ok (.highgo (raw.maxPages.getD 5))
  else .error s!"unsupported imported adapter {adapter}"

/-- The part of `imported_source_kind` for a page that no adapter collects. -/
def importedRecipe (raw : ImportedSeedConfig) : Except String (WebFeedRecipe W) := do
  let link ← match raw.linkSelector with
    | some link => pure link
    | none => .error "generic imported source requires link_selector"
  let primary ← draftSelector W .css link
  let loading : WebLoading := if raw.browser then .browser else if raw.browserFallback then .automatic else .static
  let pages ← raw.extraListingUrls.mapM (draftUrl W "invalid extra listing URL")
  let next ← optional (draftSelector W .css) raw.nextSelector
  let loadMore ← optional (draftSelector W .css) raw.loadMoreSelector
  let actions ← (WebFeedActions.new .desktop [] pages next loadMore raw.loadMoreClicks raw.scrollSteps usizeMax
    usizeMax).mapError WebFeedError.toText
  let listing ← optional (draftUrl W "invalid imported listing URL") raw.listingUrl
  let extraction ← (WebExtraction.new W listing raw.cardSelector raw.titleSelector raw.dateSelector
    raw.contentSelector raw.waitSelector raw.urlPattern).mapError WebFeedError.toText
  (WebFeedRecipe.configured W primary loading actions extraction (raw.maxPages.getD 3)).mapError WebFeedError.toText

/-- `imported_source_kind`. -/
def importedSourceKind (configuration : Lib.Json) : Except String (ImportedKind W) :=
  match ImportedSeedConfig.ofJson configuration with
  | none => .error "invalid imported source recipe"
  | some raw =>
    if isBlank raw.id ∨ isBlank raw.name then .error "imported source id/name is empty"
    else match recipeUrl W raw.url with
      | none => .error "invalid imported source URL"
      | some canonical =>
        if canonical.1.scheme ≠ "http" ∧ canonical.1.scheme ≠ "https" then .error "invalid imported source URL scheme"
        else if raw.feedUrl.isSome then .ok .auto
        else match raw.adapter with
          | some adapter => (importedAdapter W raw canonical adapter).map .builtIn
          | none => (importedRecipe W raw).map .webPage

end

/-! ## The editable document -/

section
variable {W : WebPlatform}

/-- The closure `language`. -/
def SelectorLanguage.draftName : SelectorLanguage → String
  | .css => "css"
  | .xPath => "xpath"

def editableSelector (s : WebSelector W) : Lib.Json :=
  .obj [("language", .ofText s.language.draftName), ("expression", .ofText s.expression)]

/-- `editable_recipe_document`; a writer sorts the members, which a reader does not see. -/
def editableRecipeDocument (workspace : WebUuid W) (url : RecipeUrl W) (kind : ImportedKind W) : Option Lib.Json :=
  match kind with
  | .webPage recipe =>
    let css (s : Option (CssSelector W)) := Lib.Json.ofOption (fun s => .ofText s.1.expression) s
    some (.obj [
      ("workspaceId", .ofText (W.uuidText workspace.1)),
      ("url", .ofText url.1.text),
      ("selector", .ofText recipe.selector.expression),
      ("loading", .ofText recipe.loading.name),
      ("preview", .bool false),
      ("selectorLanguage", .ofText recipe.selector.language.draftName),
      ("viewport", .ofText recipe.actions.viewport.name),
      ("listingUrl", .ofOption RecipeUrl.toJson recipe.extraction.listingUrl),
      ("cardSelector", css recipe.extraction.cardSelector),
      ("titleSelector", css recipe.extraction.titleSelector),
      ("dateSelector", css recipe.extraction.dateSelector),
      ("contentSelector", css recipe.extraction.contentSelector),
      ("waitSelector", css recipe.extraction.waitSelector),
      ("urlPattern", .ofOption (fun p => .ofText p.1) recipe.extraction.urlPattern),
      ("maxPages", .ofSize recipe.maxPages),
      ("hideOverlays", .ofList editableSelector recipe.actions.hideOverlays),
      ("startPages", .ofList RecipeUrl.toJson recipe.actions.startPages),
      ("nextPage", .ofOption editableSelector recipe.actions.nextPage),
      ("loadMore", .ofOption editableSelector recipe.actions.loadMore),
      ("loadMoreClicks", .ofSize recipe.actions.loadMoreClicks),
      ("scrolls", .ofSize recipe.actions.scrolls)])
  | _ => none

/-- The draft that the document of a recipe is read as. -/
def editableDraft (workspace : WebUuid W) (url : RecipeUrl W) (recipe : WebFeedRecipe W) : WebFeedRecipeDraft W :=
  let selector (s : WebSelector W) : SelectorDraft := ⟨s.language.draftName, s.expression⟩
  let css (s : Option (CssSelector W)) := s.map (·.1.expression)
  { workspaceId := workspace
    url := url.1.text
    selector := recipe.selector.expression
    loading := recipe.loading.name
    preview := some false
    selectorLanguage := some recipe.selector.language.draftName
    viewport := some recipe.actions.viewport.name
    listingUrl := recipe.extraction.listingUrl.map (·.1.text)
    cardSelector := css recipe.extraction.cardSelector
    titleSelector := css recipe.extraction.titleSelector
    dateSelector := css recipe.extraction.dateSelector
    contentSelector := css recipe.extraction.contentSelector
    waitSelector := css recipe.extraction.waitSelector
    urlPattern := recipe.extraction.urlPattern.map (·.1)
    maxPages := some recipe.maxPages
    hideOverlays := recipe.actions.hideOverlays.map selector
    startPages := recipe.actions.startPages.map (·.1.text)
    nextPage := recipe.actions.nextPage.map selector
    loadMore := recipe.actions.loadMore.map selector
    loadMoreClicks := recipe.actions.loadMoreClicks
    scrolls := recipe.actions.scrolls }

/-- Limits of a deployment that are not below those of a recipe. -/
structure WebFeedRecipe.WithinLimits (r : WebFeedRecipe W) (maxPages maxActions : Nat) : Prop where
  requested : r.maxPages.toNat ≤ maxPages
  pages : r.actions.pageCount ≤ maxPages
  actions : r.actions.actionCount ≤ maxActions
  positive : 0 < maxActions

/-- The document of a recipe is read as a draft, and the draft is compiled to the recipe. -/
def Recompiles (workspace : WebUuid W) (url : RecipeUrl W) (recipe : WebFeedRecipe W) (maxPages maxActions : Nat) :
    Prop :=
  ∃ document draft prepared, editableRecipeDocument workspace url (.webPage recipe) = some document ∧
    WebFeedRecipeDraft.ofJson W document = some draft ∧
    PreparedWebFeed.new W draft maxPages maxActions = .ok prepared ∧ prepared.recipe = recipe

theorem ofOption_map {α β : Type} (encode : β → Lib.Json) (f : α → β) (a : Option α) :
    Lib.Json.ofOption encode (a.map f) = Lib.Json.ofOption (fun a => encode (f a)) a := by
  cases a <;> rfl

theorem ofList_map {α β : Type} (encode : β → Lib.Json) (f : α → β) (as : List α) :
    Lib.Json.ofList encode (as.map f) = Lib.Json.ofList (fun a => encode (f a)) as := by
  rw [Lib.Json.ofList, List.map_map]
  rfl

theorem editableRecipeDocument_eq (workspace : WebUuid W) (url : RecipeUrl W) (recipe : WebFeedRecipe W) :
    editableRecipeDocument workspace url (.webPage recipe) = some (editableDraft workspace url recipe).toJson := by
  simp only [WebFeedRecipeDraft.toJson, editableDraft, ofOption_map, ofList_map]
  rfl

theorem parseLoading_name (l : WebLoading) : parseLoading l.name = .ok l := by
  cases l <;> rfl

theorem parseLanguage_draftName (l : SelectorLanguage) : parseLanguage l.draftName = .ok l := by
  cases l <;> rfl

theorem parseViewport_name (v : WebViewport) : parseViewport v.name = .ok v := by
  cases v <;> rfl

theorem draftSelector_self (s : WebSelector W) : draftSelector W s.language s.expression = .ok s :=
  mapError_ok.2 (WebSelector.new_self s)

theorem SelectorDraft.parse_self (s : WebSelector W) :
    SelectorDraft.parse W ⟨s.language.draftName, s.expression⟩ = .ok s :=
  except_bind_ok.2 ⟨s.language, parseLanguage_draftName s.language, draftSelector_self s⟩

theorem draftUrl_text (hW : W.Lawful) (message : String) (u : RecipeUrl W) :
    draftUrl W message u.1.text = .ok u := by
  obtain ⟨text, hu⟩ := u.2
  rw [draftUrl, recipeUrl_iff.2 (hW.url_text hu)]

theorem mapM_map_ok {α β ε : Type} {f : β → Except ε α} {g : α → β} (h : ∀ a, f (g a) = .ok a) (as : List α) :
    (as.map g).mapM f = .ok as := by
  induction as with
  | nil => rfl
  | cons a as ih =>
    rw [List.map_cons, List.mapM_cons]
    exact except_bind_ok.2 ⟨a, h a, except_bind_ok.2 ⟨as, ih, rfl⟩⟩

/-- Compiling the draft of a recipe gives the recipe. -/
theorem recipeFromDraft_editableDraft (hW : W.Lawful) (workspace : WebUuid W) (url : RecipeUrl W)
    {recipe : WebFeedRecipe W} {maxPages maxActions : Nat} (h : recipe.WithinLimits maxPages maxActions) :
    recipeFromDraft W (editableDraft workspace url recipe) maxPages maxActions = .ok recipe := by
  have hpages : ¬ (recipe.maxPages = 0 ∨ maxPages < recipe.maxPages.toNat) := by
    rintro (hzero | hlt)
    · exact recipe.positive hzero
    · exact Nat.not_lt.2 h.requested hlt
  refine except_bind_ok.2 ⟨recipe.loading, parseLoading_name _, ?_⟩
  refine except_bind_ok.2 ⟨recipe.selector.language, parseLanguage_draftName _, ?_⟩
  refine except_bind_ok.2 ⟨recipe.selector, draftSelector_self _, ?_⟩
  refine except_bind_ok.2 ⟨recipe.actions.viewport, parseViewport_name _, ?_⟩
  refine except_bind_ok.2 ⟨recipe.actions.hideOverlays, mapM_map_ok SelectorDraft.parse_self _, ?_⟩
  refine except_bind_ok.2 ⟨recipe.actions.startPages, mapM_map_ok (draftUrl_text hW _) _, ?_⟩
  refine except_bind_ok.2 ⟨recipe.actions.nextPage, optional_map SelectorDraft.parse_self _, ?_⟩
  refine except_bind_ok.2 ⟨recipe.actions.loadMore, optional_map SelectorDraft.parse_self _, ?_⟩
  refine (if_neg hpages).trans ?_
  refine except_bind_ok.2 ⟨recipe.actions, mapError_ok.2 (recipe.actions.new_self h.pages h.actions), ?_⟩
  refine except_bind_ok.2 ⟨recipe.extraction.listingUrl, optional_map (draftUrl_text hW _) _, ?_⟩
  refine except_bind_ok.2 ⟨recipe.extraction, mapError_ok.2 recipe.extraction.new_self, ?_⟩
  exact mapError_ok.2 recipe.configured_self

/-- Every recipe survives its document, under limits that are not below its own. -/
theorem recompiles_of_withinLimits (hW : W.Lawful) {workspace : WebUuid W} {url : RecipeUrl W}
    {recipe : WebFeedRecipe W} {maxPages maxActions : Nat} (hworkspace : workspace.1 ≠ 0)
    (hscheme : url.1.scheme = "http" ∨ url.1.scheme = "https") (h : recipe.WithinLimits maxPages maxActions) :
    Recompiles workspace url recipe maxPages maxActions := by
  refine ⟨_, _, ⟨editableDraft workspace url recipe, recipe⟩, editableRecipeDocument_eq workspace url recipe,
    WebFeedRecipeDraft.reads hW _, ?_, rfl⟩
  obtain ⟨text, hu⟩ := url.2
  have hhost := hW.http_host hu hscheme
  have hpages : maxPages ≠ 0 := by
    intro hzero
    have hle := h.requested
    rw [hzero, Nat.le_zero] at hle
    exact recipe.positive (UInt64.toNat_inj.1 hle)
  have hactions := h.positive
  have hnil : ¬ (editableDraft workspace url recipe).workspaceId.1 = 0 := hworkspace
  unfold PreparedWebFeed.new
  rw [if_neg (by omega), if_neg hnil]
  rw [show W.parseUrl (editableDraft workspace url recipe).url = some url.1 from hW.url_text hu]
  refine (if_neg ?_).trans ?_
  · rintro (⟨hhttp, hhttps⟩ | hnone)
    · exact hscheme.elim hhttp hhttps
    · exact hhost hnone
  · rw [recipeFromDraft_editableDraft hW workspace url h]
    rfl

theorem WebFeedActions.new_ok {viewport : WebViewport} {hideOverlays : List (WebSelector W)}
    {startPages : List (RecipeUrl W)} {nextPage loadMore : Option (WebSelector W)} {loadMoreClicks scrolls : UInt64}
    {maxPages maxActions : Nat} {a : WebFeedActions W}
    (h : WebFeedActions.new viewport hideOverlays startPages nextPage loadMore loadMoreClicks scrolls maxPages
      maxActions = .ok a) : a.pageCount ≤ maxPages ∧ a.actionCount ≤ maxActions := by
  unfold WebFeedActions.new at h
  split_ifs at h with hpages hbounded hactions
  cases h
  exact ⟨Nat.not_lt.1 hpages, Nat.not_lt.1 hactions⟩

theorem WebFeedRecipe.configured_ok {selector : WebSelector W} {loading : WebLoading} {actions : WebFeedActions W}
    {extraction : WebExtraction W} {maxPages : UInt64} {r : WebFeedRecipe W}
    (h : WebFeedRecipe.configured W selector loading actions extraction maxPages = .ok r) :
    r.actions = actions ∧ r.maxPages = maxPages := by
  unfold WebFeedRecipe.configured at h
  split_ifs at h
  cases h
  exact ⟨rfl, rfl⟩

/-- An accepted draft is within the limits it was accepted under. -/
theorem withinLimits_of_recipeFromDraft {draft : WebFeedRecipeDraft W} {maxPages maxActions : Nat}
    {recipe : WebFeedRecipe W} (hpositive : maxActions ≠ 0)
    (h : recipeFromDraft W draft maxPages maxActions = .ok recipe) : recipe.WithinLimits maxPages maxActions := by
  unfold recipeFromDraft at h
  obtain ⟨loading, -, h⟩ := except_bind_ok.1 h
  obtain ⟨language, -, h⟩ := except_bind_ok.1 h
  obtain ⟨primary, -, h⟩ := except_bind_ok.1 h
  obtain ⟨viewport, -, h⟩ := except_bind_ok.1 h
  obtain ⟨overlays, -, h⟩ := except_bind_ok.1 h
  obtain ⟨pages, -, h⟩ := except_bind_ok.1 h
  obtain ⟨next, -, h⟩ := except_bind_ok.1 h
  obtain ⟨loadMore, -, h⟩ := except_bind_ok.1 h
  dsimp only at h
  split_ifs at h with hrequested
  obtain ⟨actions, hactions, h⟩ := except_bind_ok.1 h
  obtain ⟨listing, -, h⟩ := except_bind_ok.1 h
  obtain ⟨extraction, -, h⟩ := except_bind_ok.1 h
  obtain ⟨hpages, hcount⟩ := WebFeedActions.new_ok (mapError_ok.1 hactions)
  obtain ⟨rfl, hmax⟩ := WebFeedRecipe.configured_ok (mapError_ok.1 h)
  refine ⟨?_, hpages, hcount, Nat.pos_of_ne_zero hpositive⟩
  rw [hmax]
  exact Nat.not_lt.1 fun hlt => hrequested (.inr hlt)

/-- What an accepted draft says. -/
theorem PreparedWebFeed.new_ok {draft : WebFeedRecipeDraft W} {maxPages maxActions : Nat} {prepared : PreparedWebFeed W}
    (h : PreparedWebFeed.new W draft maxPages maxActions = .ok prepared) :
    prepared.draft = draft ∧ prepared.recipe.WithinLimits maxPages maxActions ∧ draft.workspaceId.1 ≠ 0 ∧
      ∃ url, W.parseUrl draft.url = some url ∧ (url.scheme = "http" ∨ url.scheme = "https") := by
  unfold PreparedWebFeed.new at h
  split_ifs at h with hlimits hworkspace
  cases hurl : W.parseUrl draft.url with
  | none =>
    rw [hurl] at h
    cases h
  | some url =>
    rw [hurl] at h
    dsimp only at h
    split_ifs at h with hscheme
    obtain ⟨recipe, hrecipe, rfl⟩ := except_map_ok.1 h
    refine ⟨rfl, withinLimits_of_recipeFromDraft (fun hzero => hlimits (.inr hzero)) hrecipe, hworkspace, url, rfl, ?_⟩
    by_contra hnot
    exact hscheme (.inl (not_or.1 hnot))

/-- The scheme of an imported source is checked before its kind is chosen. -/
theorem importedSourceKind_ok {configuration : Lib.Json} {kind : ImportedKind W}
    (h : importedSourceKind W configuration = .ok kind) :
    ∃ raw, ∃ url : RecipeUrl W, ImportedSeedConfig.ofJson configuration = some raw ∧
      recipeUrl W raw.url = some url ∧ (url.1.scheme = "http" ∨ url.1.scheme = "https") := by
  unfold importedSourceKind at h
  cases hraw : ImportedSeedConfig.ofJson configuration with
  | none =>
    rw [hraw] at h
    cases h
  | some raw =>
    rw [hraw] at h
    dsimp only at h
    by_cases hblank : isBlank raw.id ∨ isBlank raw.name
    · rw [if_pos hblank] at h
      cases h
    rw [if_neg hblank] at h
    cases hurl : recipeUrl W raw.url with
    | none =>
      rw [hurl] at h
      cases h
    | some url =>
      rw [hurl] at h
      dsimp only at h
      refine ⟨raw, url, rfl, hurl, ?_⟩
      by_contra hnot
      rw [if_pos (not_or.1 hnot)] at h
      cases h

/-- Recipes survive their representations: an execution configuration reads back; the document of an imported recipe
and the document of an accepted draft are compiled to the same recipe, the latter under the limits it was accepted
under. -/
theorem recipes_survive (hW : W.Lawful) :
    (∀ draft maxPages maxActions prepared, PreparedWebFeed.new W draft maxPages maxActions = .ok prepared →
      WebFeedRecipe.ofJson W prepared.recipe.toJson = some prepared.recipe) ∧
    (∀ configuration recipe, importedSourceKind W configuration = .ok (.webPage recipe) →
      ∃ raw url, ImportedSeedConfig.ofJson configuration = some raw ∧ recipeUrl W raw.url = some url ∧
        ∀ (workspace : WebUuid W) maxPages maxActions, workspace.1 ≠ 0 → recipe.WithinLimits maxPages maxActions →
          Recompiles workspace url recipe maxPages maxActions) ∧
    (∀ draft maxPages maxActions prepared, PreparedWebFeed.new W draft maxPages maxActions = .ok prepared →
      ∃ url, recipeUrl W draft.url = some url ∧
        Recompiles draft.workspaceId url prepared.recipe maxPages maxActions) := by
  refine ⟨?_, ?_, ?_⟩
  · intro draft maxPages maxActions prepared _
    exact WebFeedRecipe.reads hW prepared.recipe
  · intro configuration recipe h
    obtain ⟨raw, url, hraw, hurl, hscheme⟩ := importedSourceKind_ok h
    exact ⟨raw, url, hraw, hurl, fun _ _ _ hworkspace hlimits =>
      recompiles_of_withinLimits hW hworkspace hscheme hlimits⟩
  · intro draft maxPages maxActions prepared h
    obtain ⟨-, hlimits, hworkspace, url, hurl, hscheme⟩ := PreparedWebFeed.new_ok h
    exact ⟨⟨url, draft.url, hurl⟩, recipeUrl_iff.2 hurl, recompiles_of_withinLimits hW hworkspace hscheme hlimits⟩

end

namespace Sample

/-- A platform that knows one URL, one selector, one pattern and one UUID. -/
def webPlatform : WebPlatform where
  parseUrl text := if text = "https://a.test/" then some ⟨text, "https", some "a.test", none⟩ else none
  cssParses text := text = "a.post"
  regexCompiles text := text = "/post/"
  uuidText _ := "00000000-0000-0000-0000-000000000001"
  parseUuid text := if text = "00000000-0000-0000-0000-000000000001" then some 1 else none

theorem webPlatform_lawful : webPlatform.Lawful where
  url_text {text u} h := by
    change (if text = "https://a.test/" then some _ else none) = some u at h
    split_ifs at h with ht
    cases h
    rw [ht]
    rfl
  uuid_text {text n} h := by
    change (if text = "00000000-0000-0000-0000-000000000001" then some 1 else none) = some n at h
    split_ifs at h with ht
    cases h
    rfl
  http_host {text u} h _ := by
    change (if text = "https://a.test/" then some _ else none) = some u at h
    split_ifs at h with ht
    cases h
    exact Option.some_ne_none _

/-- The configuration of a page whose articles are found by a selector. -/
def importedConfiguration : Lib.Json :=
  .obj [("id", .ofText "a"), ("name", .ofText "A"), ("url", .ofText "https://a.test/"),
    ("link_selector", .ofText "a.post"), ("url_pattern", .ofText "/post/"), ("scroll_steps", .ofSize 2)]

/-- This configuration gives a recipe, and the recipe survives. -/
theorem recipes_survive_imported :
    (∃ recipe, importedSourceKind webPlatform importedConfiguration = .ok (.webPage recipe)) ∧
      ∀ recipe, importedSourceKind webPlatform importedConfiguration = .ok (.webPage recipe) →
        ∃ url, Recompiles (⟨1, "00000000-0000-0000-0000-000000000001", rfl⟩ : WebUuid webPlatform) url recipe
          (max recipe.maxPages.toNat recipe.actions.pageCount) (max 1 recipe.actions.actionCount) := by
  refine ⟨⟨_, rfl⟩, fun recipe h => ?_⟩
  obtain ⟨-, himported, -⟩ := recipes_survive webPlatform_lawful
  obtain ⟨raw, url, -, -, hall⟩ := himported importedConfiguration recipe h
  exact ⟨url, hall _ _ _ (by decide) ⟨le_max_left .., le_max_right .., le_max_right ..,
    Nat.lt_of_lt_of_le Nat.one_pos (le_max_left ..)⟩⟩

end Sample
end Inoreader
