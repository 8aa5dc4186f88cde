import Inoreader.Repository.Presentation

/-!
# Rule previews (`reader-server/src/rules.rs`, `lib.rs`, `presentation.rs`)

The session, the ownership of the workspace and of the subscription are checked before a preview is made.
-/

namespace Inoreader
open Lib

/-- What is left of a line without its tags; `tag` says that one is open. -/
def withoutTags : Bool → List Char → List Char
  | _, [] => []
  | tag, c :: cs =>
    if c = '<' then withoutTags true cs
    else if c = '>' then withoutTags false cs
    else if tag then withoutTags tag cs
    else c :: withoutTags tag cs

/-- `html_text_paragraphs`. -/
def htmlTextParagraphs (value : String) : List String :=
  let breaks := ["</p>", "<br>", "<br/>", "</li>"]
  let normalized := breaks.foldl (fun text tag => replaceText tag.toList ['\n'] 0 text) value.toList
  ((textLines [] normalized).map fun line => trimText (withoutTags false line)).filterMap fun text =>
    if text = [] then none else some (String.ofList text)

structure RuleDraft where
  subscriptionId : SubscriptionId
  field : String
  phrase : String
  action : String
  enabled : Bool
deriving DecidableEq, Repr

inductive ApiFailure
  | validation (message : String)
  | repository (e : RepositoryError)
deriving DecidableEq, Repr

def parseRuleField : String → Except ApiFailure RuleField
  | "title" => .ok .title
  | "full_text" => .ok .text
  | "title_or_full_text" => .ok .both
  | _ => .error (.validation "invalid rule field")

def parseRuleAction : String → Except ApiFailure RuleAction
  | "mark_read" => .ok .markRead
  | _ => .error (.validation "invalid rule action")

/-- `parse_rule` with the id and the version that the rule gets. -/
def parseRule (identity : RuleId × Nat) (body : RuleDraft) : Except ApiFailure Rule :=
  if body.phrase = "" ∨ isTrimmed body.phrase = false then .error (.validation "invalid rule phrase")
  else do
    let field ← parseRuleField body.field
    let action ← parseRuleAction body.action
    pure { id := identity.1, subscriptionId := body.subscriptionId, version := identity.2, enabled := body.enabled, field
           needles := [body.phrase], action }

structure RulePreviewResponse where
  matchedArticles : Nat := 0
  sharedArticles : Nat := 0
  totalSubscriptionArticles : Nat := 0
  sampleArticleIds : List ArticleId := []
deriving DecidableEq, Repr

/-- The text that a preview matches: the paragraphs of the content that is shown. -/
def ArticlePresentation.paragraphs (value : ArticlePresentation) : Option String :=
  value.safeHtml.map fun html => "\n".intercalate (htmlTextParagraphs html)

section
variable (P : Platform) (policy : ReasonPolicy) (evidence : ContentManifestPointer → List PublicationEvidence)

/-- `article_presentations_by_workspace`. -/
def articlePresentationsByWorkspace (w : WorkspaceId) (db : Db) : Except RepositoryError (List ArticlePresentation) :=
  (db.workspaceArticles w).mapM fun row => presentation P.parseUrl policy evidence w row.2 true db

/-- The preview counts the presentation. -/
def Rule.previews (rule : Rule) (value : ArticlePresentation) : Bool :=
  rule.isMatch P.lowercase value.article.key.title value.paragraphs

/-- The turn of one article of the subscription. -/
def previewTurn (rule : Rule) (r : RulePreviewResponse) (value : ArticlePresentation) : RulePreviewResponse :=
  let r := { r with totalSubscriptionArticles := r.totalSubscriptionArticles + 1 }
  if rule.previews P value then
    { r with
      matchedArticles := r.matchedArticles + 1
      sharedArticles := if 1 < value.subscriptionIds.length then r.sharedArticles + 1 else r.sharedArticles
      sampleArticleIds :=
        if r.sampleArticleIds.length < 20 then r.sampleArticleIds ++ [value.article.id] else r.sampleArticleIds }
  else r

/-- `preview_rule`; the rule gets a new id. -/
def previewRule (newRule : RuleId) (w : WorkspaceId) (body : RuleDraft) (db : Db) : Except ApiFailure RulePreviewResponse := do
  let rule ← parseRule (newRule, 0) body
  match articlePresentationsByWorkspace P policy evidence w db with
  | .error e => .error (.repository e)
  | .ok values =>
    pure ((values.filter fun value => value.subscriptionIds.contains body.subscriptionId).foldl (previewTurn P rule) {})

/-- The presentations that a preview counts as matched. -/
def previewMatches (rule : Rule) (subscription : SubscriptionId) (values : List ArticlePresentation) :
    List ArticlePresentation :=
  (values.filter fun value => value.subscriptionIds.contains subscription).filter (rule.previews P)

end

/-- What the loop over the articles of the subscription counts. -/
theorem previewTurns_eq (P : Platform) (rule : Rule) (r : RulePreviewResponse) (values : List ArticlePresentation) :
    values.foldl (previewTurn P rule) r =
      { matchedArticles := r.matchedArticles + (values.filter (rule.previews P)).length
        sharedArticles := r.sharedArticles +
          ((values.filter (rule.previews P)).filter fun value => 1 < value.subscriptionIds.length).length
        totalSubscriptionArticles := r.totalSubscriptionArticles + values.length
        sampleArticleIds := r.sampleArticleIds ++
          ((values.filter (rule.previews P)).map (·.article.id)).take (20 - r.sampleArticleIds.length) } := by
  induction values generalizing r with
  | nil => simp
  | cons value values ih =>
    rw [List.foldl_cons, ih]
    by_cases hm : rule.previews P value = true
    · simp only [previewTurn, hm, if_true, List.filter_cons_of_pos, List.length_cons, List.map_cons]
      rw [RulePreviewResponse.mk.injEq]
      refine ⟨by omega, ?_, by omega, ?_⟩
      · by_cases hs : 1 < value.subscriptionIds.length
        · rw [if_pos hs, List.filter_cons_of_pos (by simpa using hs), List.length_cons]
          omega
        · rw [if_neg hs, List.filter_cons_of_neg (by simpa using hs)]
      · by_cases hlen : r.sampleArticleIds.length < 20
        · have hroom : 20 - r.sampleArticleIds.length = 20 - (r.sampleArticleIds.length + 1) + 1 := by omega
          rw [if_pos hlen, hroom, List.take_succ_cons, List.append_assoc, List.length_append]
          rfl
        · have hfull : 20 - r.sampleArticleIds.length = 0 := by omega
          rw [if_neg hlen, hfull, List.take_zero, List.take_zero]
    · simp only [previewTurn, hm, List.filter_cons, List.length_cons]
      rw [RulePreviewResponse.mk.injEq]
      exact ⟨rfl, rfl, by simp; omega, rfl⟩

end Inoreader
