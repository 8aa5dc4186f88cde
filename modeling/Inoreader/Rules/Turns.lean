import Inoreader.Library.States
import Inoreader.Store.Jobs

/-!
# What a rule job does

A rule job reads some articles (`RuleJob.rows`) and applies the same rules (`RuleJob.rules`) to each of
them in turn. `RuleJob.Ready` says when its transaction commits, `tx_articles` what it then did.
-/

namespace Inoreader
open Lib Tx

/-- The two kinds of rule jobs. -/
inductive RuleJob
  | evaluate (w : WorkspaceId) (article : ArticleId) (evaluations : List PendingRuleEvaluation)
  | batch (w : WorkspaceId) (rule : RuleId) (version : Nat) (afterId throughId : Option ArticleId) (limit : Nat)
deriving DecidableEq, Repr

def RuleJob.tx (P : Platform) (lease : LeasedWork) (now : DateTime) : RuleJob → StoreTx Unit
  | .evaluate w article evaluations => evaluateArticleRules P lease now w article evaluations
  | .batch w rule version afterId throughId limit => do
    let _ ← applyRuleBatch P lease now w rule version afterId throughId limit
    pure ()

/-- The published text of all origins of an article, if there is one. -/
def Db.fullText (db : Db) (a : Article) : Option String :=
  match articleFullText a db with
  | .ok (text, _) => text.1
  | .error _ => none

/-- The rules of the evaluations that are still valid. -/
def Db.validRules (db : Db) (w : WorkspaceId) (evaluations : List PendingRuleEvaluation) : List Rule :=
  evaluations.filterMap fun e => (db.rules.lookup (w, e.ruleId)).filter e.stillValidFor

/-- The articles of one batch. -/
def Db.ruleBatch (db : Db) (w : WorkspaceId) (afterId throughId : Option ArticleId) (limit : Nat) :
    List (ArticleId × Article) :=
  match throughId.or ((db.workspaceArticles w).getLast?.map (·.1)) with
  | none => []
  | some through => ((db.workspaceArticles w).filter fun row =>
      afterId.all (·.uuid < row.1.uuid) ∧ row.1.uuid ≤ through.uuid).take limit

namespace RuleJob

/-- The rules that the job applies, in order. -/
def rules (db : Db) : RuleJob → List Rule
  | .evaluate w _ evaluations => db.validRules w evaluations
  | .batch w rule version _ _ _ =>
    (db.rules.lookup (w, rule)).toList.filter fun r => r.enabled = true ∧ r.version = version

/-- The articles that the job applies its rules to. -/
def rows (db : Db) : RuleJob → List (ArticleKey × Article)
  | .evaluate w article _ => ((db.articles.lookup (w, article)).map fun a => ((w, article), a)).toList
  | .batch w rule version afterId throughId limit =>
    if (RuleJob.batch w rule version afterId throughId limit).rules db = [] then []
    else (db.ruleBatch w afterId throughId limit).map fun row => ((w, row.1), row.2)

end RuleJob

section
variable (P : Platform)

/-- The state of an article after the turns of some rules. -/
def applyRules (title : String) (text : Option String) (rules : List Rule) (s : ArticleState) : ArticleState :=
  rules.foldl (fun s r => if r.isMatch P.lowercase title text then r.apply s else s) s

/-- The article after the turns of some rules; a changed state makes a new revision. -/
def Db.afterRules (db : Db) (rules : List Rule) (a : Article) : Article :=
  let state := applyRules P a.key.title (db.fullText a) rules a.state
  if state = a.state then a else { a with state, revision := min (a.revision + 1) (2 ^ 64 - 1) }

/-- The rule can be decided on the text that is there. -/
def Rule.ContentReady (r : Rule) (a : Article) (text : Option String) : Prop :=
  ¬ (text = none ∧ (r.field = .text ∨ (r.field = .both ∧ r.isMatch P.lowercase a.key.title none = false)))

/-- All the turns on one article go through. -/
structure Db.RowReady (db : Db) (rules : List Rule) (a : Article) : Prop where
  text : ∃ text, articleFullText a db = .ok (text, db)
  decided : ∀ r ∈ rules, r.ContentReady P a (db.fullText a)
  version : ∀ r ∈ rules, r.version ≤ bigintMax
  revision : applyRules P a.key.title (db.fullText a) rules a.state ≠ a.state →
    min (a.revision + 1) (2 ^ 64 - 1) ≤ bigintMax

instance (r : Rule) (a : Article) (text : Option String) : Decidable (r.ContentReady P a text) :=
  inferInstanceAs (Decidable (¬ (text = none ∧ (r.field = .text ∨ (r.field = .both ∧ r.isMatch P.lowercase a.key.title none = false)))))

end

section
variable {P : Platform} {db db' : Db} {title : String} {text : Option String}

theorem Rule.apply_eq (r : Rule) (s : ArticleState) :
    r.apply s = if s.protectUnread = false then { s with read := true } else s := by
  unfold Rule.apply
  cases r.action with
  | markRead => cases s.protectUnread <;> rfl

/-- The turns mark an unprotected article as read if one of the rules matches. -/
theorem applyRules_eq (rules : List Rule) (s : ArticleState) :
    applyRules P title text rules s =
      if s.protectUnread = false ∧ ∃ r ∈ rules, r.isMatch P.lowercase title text = true then { s with read := true }
      else s := by
  induction rules generalizing s with
  | nil => simp [applyRules]
  | cons r rules ih =>
    have hcons : applyRules P title text (r :: rules) s =
        applyRules P title text rules (if r.isMatch P.lowercase title text then r.apply s else s) := rfl
    rw [hcons, ih]
    by_cases hm : r.isMatch P.lowercase title text = true
    · rw [if_pos hm, Rule.apply_eq]
      by_cases hp : s.protectUnread = false
      · simp [hp, hm]
      · simp [hp]
    · simp [hm]

theorem applyRules_append (rules rules' : List Rule) (s : ArticleState) :
    applyRules P title text (rules ++ rules') s = applyRules P title text rules' (applyRules P title text rules s) :=
  List.foldl_append

/-- The order of the turns does not matter. -/
theorem applyRules_perm {rules rules' : List Rule} (h : rules.Perm rules') (s : ArticleState) :
    applyRules P title text rules s = applyRules P title text rules' s := by
  rw [applyRules_eq, applyRules_eq]
  simp only [h.mem_iff]

theorem articleFullText_ok {a : Article} {result : Option String × List Nat}
    (h : articleFullText a db = .ok (result, db')) : db' = db ∧ db.fullText a = result.1 := by
  have hdb : db' = db := articleFullText_keeps (f := fun d => d) a db result db' h
  exact ⟨hdb, by simp [Db.fullText, h]⟩

/-! ## The turns of one article -/

/-- One turn of `evaluate_article_rules`: the rule is read again. -/
def evaluateTurn (P : Platform) (table : Table (WorkspaceId × RuleId) Rule) (w : WorkspaceId) (id : ArticleId)
    (a : Article) (fullText : Option String) (generations : List Nat) (state : ArticleState)
    (pending : PendingRuleEvaluation) : StoreTx ArticleState :=
  match table.lookup (w, pending.ruleId) with
  | none => pure state
  | some rule => do
    validateRule rule
    if pending.stillValidFor rule then
      ensureRuleContent P rule a fullText
      let (after, reason) := evaluateRule P rule a state fullText (some generations)
      upsertRuleEvaluation w id rule.id rule.version reason
      pure after
    else pure state

variable {w : WorkspaceId} {id : ArticleId} {a : Article} {generations : List Nat}
  {evaluations : List PendingRuleEvaluation} {state state' : ArticleState}

theorem evaluateTurn_keeps {γ : Type} {f : Db → γ} (hf : ∀ (db : Db) t, f { db with ruleEvaluations := t } = f db)
    (table : Table (WorkspaceId × RuleId) Rule) (pending : PendingRuleEvaluation) :
    Keeps f (evaluateTurn P table w id a text generations state pending) := by
  unfold evaluateTurn
  split
  · exact keeps_pure _
  · refine keeps_bind (keeps_require _ _) fun _ => keeps_ite ?_ (keeps_pure _)
    exact keeps_bind (keeps_require _ _) fun _ => keeps_bind (upsertRuleEvaluation_keeps hf _ _ _ _ _) fun _ =>
      keeps_pure _

/-- The rules of the evaluations, valid or not. -/
def Db.rulesValid (db : Db) (w : WorkspaceId) (evaluations : List PendingRuleEvaluation) : Prop :=
  ∀ e ∈ evaluations, ∀ r, db.rules.lookup (w, e.ruleId) = some r → r.valid = true

theorem validRules_cons (e : PendingRuleEvaluation) (es : List PendingRuleEvaluation) :
    db.validRules w (e :: es) = ((db.rules.lookup (w, e.ruleId)).filter e.stillValidFor).toList ++ db.validRules w es := by
  unfold Db.validRules
  rw [List.filterMap_cons]
  cases (db.rules.lookup (w, e.ruleId)).filter e.stillValidFor <;> rfl

/-- A turn goes through exactly if the rule is well formed and, when it is still valid, decided by the
text that is there. -/
theorem evaluateTurn_ok {e : PendingRuleEvaluation} {d : Db} :
    (∃ d', evaluateTurn P db.rules w id a text generations state e d = .ok (state', d')) ↔
      (∀ r, db.rules.lookup (w, e.ruleId) = some r → r.valid = true) ∧
      (∀ r ∈ (db.rules.lookup (w, e.ruleId)).filter e.stillValidFor, r.ContentReady P a text ∧ r.version ≤ bigintMax) ∧
        state' = applyRules P a.key.title text ((db.rules.lookup (w, e.ruleId)).filter e.stillValidFor).toList state := by
  cases hr : db.rules.lookup (w, e.ruleId) with
  | none =>
    simp only [evaluateTurn, hr, pure_run, Except.ok.injEq, Prod.mk.injEq, exists_and_left, exists_eq', and_true]
    constructor
    · rintro rfl
      exact ⟨by simp, by simp, rfl⟩
    · exact fun h => h.2.2.symm
  | some r =>
    simp only [evaluateTurn, hr, validateRule, bind_require_ok, Option.some.injEq, forall_eq', exists_and_left]
    refine and_congr_right fun _ => ?_
    by_cases hs : e.stillValidFor r = true
    · have hfilter : (some r).filter e.stillValidFor = some r := by simp [hs]
      simp only [if_pos hs, ensureRuleContent, upsertRuleEvaluation, toI64, hfilter, Option.mem_def, Option.some.injEq,
        forall_eq', Option.toList_some]
      constructor
      · rintro ⟨d', hrun⟩
        obtain ⟨hcontent, hrun⟩ := bind_require_ok.1 hrun
        obtain ⟨_, _, hupsert, hrun⟩ := bind_ok.1 hrun
        obtain ⟨hversion, -⟩ := bind_require_ok.1 hupsert
        cases hrun
        exact ⟨⟨hcontent, hversion⟩, rfl⟩
      · rintro ⟨⟨hcontent, hversion⟩, rfl⟩
        exact ⟨_, bind_require_ok.2 ⟨hcontent, bind_ok.2 ⟨_, _, bind_require_ok.2 ⟨hversion, rfl⟩, rfl⟩⟩⟩
    · have hfilter : (some r).filter e.stillValidFor = none := by simp [hs]
      simp only [if_neg hs, pure_run, Except.ok.injEq, Prod.mk.injEq, exists_and_left, exists_eq', and_true, hfilter]
      constructor
      · rintro rfl
        exact ⟨by simp, rfl⟩
      · exact fun h => h.2.symm

/-- The turns of an evaluation: the state is then that of `applyRules`. -/
theorem evaluateTurns_ok {d : Db} :
    (∃ d', loop (evaluateTurn P db.rules w id a text generations) state evaluations d = .ok (state', d')) ↔
      db.rulesValid w evaluations ∧ (∀ r ∈ db.validRules w evaluations, r.ContentReady P a text ∧ r.version ≤ bigintMax) ∧
        state' = applyRules P a.key.title text (db.validRules w evaluations) state := by
  induction evaluations generalizing state d with
  | nil =>
    simp only [loop, pure_run, Except.ok.injEq, Prod.mk.injEq, exists_and_left, exists_eq', and_true]
    constructor
    · rintro rfl
      exact ⟨by simp [Db.rulesValid], by simp [Db.validRules], rfl⟩
    · exact fun h => h.2.2.symm
  | cons e es ih =>
    rw [validRules_cons, applyRules_append]
    constructor
    · rintro ⟨d', hrun⟩
      obtain ⟨s₁, d₁, hturn, hrest⟩ := bind_ok.1 hrun
      obtain ⟨hvalid, hready, hs₁⟩ := evaluateTurn_ok.1 ⟨d₁, hturn⟩
      obtain ⟨hvalid', hready', hs'⟩ := ih.1 ⟨d', hrest⟩
      refine ⟨List.forall_mem_cons.2 ⟨hvalid, hvalid'⟩, fun r hr => ?_, hs₁ ▸ hs'⟩
      rcases List.mem_append.1 hr with hr | hr
      · exact hready r (Option.mem_toList.1 hr)
      · exact hready' r hr
    · rintro ⟨hvalid, hready, hs'⟩
      obtain ⟨hvalid, hvalid'⟩ := List.forall_mem_cons.1 hvalid
      obtain ⟨d₁, hturn⟩ := evaluateTurn_ok.2 ⟨hvalid,
        fun r hr => hready r (List.mem_append_left _ (Option.mem_toList.2 hr)), rfl⟩
      obtain ⟨d', hrest⟩ := ih.2 ⟨hvalid', fun r hr => hready r (List.mem_append_right _ hr), hs'⟩
      exact ⟨d', bind_ok.2 ⟨_, _, hturn, hrest⟩⟩

/-! ## Texts -/

/-- The published texts of two databases are the same. -/
def SameTexts (db db' : Db) : Prop :=
  db'.contentManifests = db.contentManifests ∧ db'.stagedContentChunks = db.stagedContentChunks

theorem SameTexts.symm (h : SameTexts db db') : SameTexts db' db := ⟨h.1.symm, h.2.symm⟩

theorem SameTexts.decodeSnapshot (h : SameTexts db db') (r : SourceRecordId) (pointer : ContentManifestPointer) :
    decodeSnapshot db' r pointer = decodeSnapshot db r pointer := by
  have hchunks : db'.safeChunks r pointer.refreshId = db.safeChunks r pointer.refreshId := by
    unfold Db.safeChunks
    rw [h.2]
  simp only [Inoreader.decodeSnapshot, hchunks]

/-- A loop that looks at nothing but its inputs ends the same way from every state. -/
theorem loop_ok_of_reads {α β : Type} {f : α → β → StoreTx α}
    (hf : ∀ acc x acc' d d' d₁, f acc x d = .ok (acc', d₁) → f acc x d' = .ok (acc', d')) {d d' d₁ : Db} {acc acc' : α}
    {xs : List β} (h : loop f acc xs d = .ok (acc', d₁)) : loop f acc xs d' = .ok (acc', d') := by
  induction xs generalizing acc d with
  | nil =>
    cases h
    rfl
  | cons x xs ih =>
    obtain ⟨acc₁, d₂, hx, hxs⟩ := bind_ok.1 h
    exact bind_ok.2 ⟨acc₁, d', hf _ _ _ _ _ _ hx, ih hxs⟩

theorem SameTexts.articleFullText (h : SameTexts db db') {a : Article} {result : Option String × List Nat} {d : Db}
    (hrun : articleFullText a db = .ok (result, d)) : articleFullText a db' = .ok (result, db') := by
  unfold Inoreader.articleFullText at hrun ⊢
  rw [bind_run, get_run] at hrun ⊢
  obtain ⟨acc, d₁, hloop, hrun⟩ := bind_ok.1 hrun
  refine bind_ok.2 ⟨acc, db', ?_, ?_⟩
  · simp only [h.1, h.decodeSnapshot]
    refine loop_ok_of_reads (fun acc record acc' d d' d₁ hturn => ?_) hloop
    cases hm : db.contentManifests.lookup record with
    | none =>
      simp only [hm] at hturn ⊢
      cases hturn
      rfl
    | some pointer =>
      simp only [hm] at hturn ⊢
      obtain ⟨html, hhtml, hturn⟩ := bind_orThrow_ok.1 hturn
      cases hturn
      exact bind_orThrow_ok.2 ⟨html, hhtml, rfl⟩
  · cases hrun
    rfl

theorem SameTexts.fullText (h : SameTexts db db') (a : Article) : db'.fullText a = db.fullText a := by
  unfold Db.fullText
  cases hrun : Inoreader.articleFullText a db with
  | ok result =>
    obtain ⟨result, d⟩ := result
    rw [h.articleFullText hrun]
  | error e =>
    cases hrun' : Inoreader.articleFullText a db' with
    | ok result =>
      obtain ⟨result, d⟩ := result
      rw [h.symm.articleFullText hrun'] at hrun
      cases hrun
    | error e' => rfl

/-! ## The transactions -/

theorem storeState_ok {key : ArticleKey} {u : Unit} (h : storeState key a state db = .ok (u, db')) :
    (state = a.state ∧ db' = db) ∨ (state ≠ a.state ∧ min (a.revision + 1) (2 ^ 64 - 1) ≤ bigintMax ∧
      db' = db.setArticle key { a with state, revision := min (a.revision + 1) (2 ^ 64 - 1) }) := by
  unfold storeState at h
  split at h
  · cases h
    exact .inl ⟨‹_›, rfl⟩
  · obtain ⟨hrev, h⟩ := bind_require_ok.1 h
    cases h
    exact .inr ⟨‹_›, hrev, rfl⟩

theorem storeState_of_fits {key : ArticleKey}
    (h : state ≠ a.state → min (a.revision + 1) (2 ^ 64 - 1) ≤ bigintMax) :
    ∃ db', storeState key a state db = .ok ((), db') := by
  unfold storeState
  split
  · exact ⟨db, rfl⟩
  · exact ⟨_, bind_require_ok.2 ⟨h ‹_›, rfl⟩⟩

/-- What storing the state after the turns does to the articles. -/
theorem storeState_articles {rules : List Rule} {key : ArticleKey} {u : Unit} {d : Db}
    (ha : d.articles.lookup key = some a)
    (h : storeState key a (applyRules P a.key.title (db.fullText a) rules a.state) d = .ok (u, db')) (k : ArticleKey) :
    db'.articles.lookup k =
      if k = key then some (db.afterRules P rules a) else d.articles.lookup k := by
  unfold Db.afterRules
  rcases storeState_ok h with ⟨hsame, rfl⟩ | ⟨hne, -, rfl⟩
  · rw [if_pos hsame]
    split
    · rw [‹k = key›, ha]
    · rfl
  · rw [if_neg hne, Db.setArticle, Table.lookup_insert_if]

/-- `evaluate_article_rules` with its turns named. -/
theorem evaluateArticleRules_eq (lease : LeasedWork) (now : DateTime) :
    evaluateArticleRules P lease now w id evaluations = (do
      assertLease lease now
      let db ← Tx.get
      match db.articles.lookup (w, id) with
      | none => pure ()
      | some a => do
        let text ← articleFullText a
        let state ← loop (evaluateTurn P db.rules w id a text.1 text.2) a.state evaluations
        storeState (w, id) a state) := rfl

/-- What the evaluation of one article needs to commit. -/
structure EvaluateReady (P : Platform) (db : Db) (lease : LeasedWork) (now : DateTime) (w : WorkspaceId)
    (id : ArticleId) (evaluations : List PendingRuleEvaluation) : Prop where
  lease : db.leaseCurrent lease now = true
  rules : (db.articles.lookup (w, id)).isSome → db.rulesValid w evaluations
  row : ∀ a, db.articles.lookup (w, id) = some a → db.RowReady P (db.validRules w evaluations) a

theorem evaluateArticleRules_ok {lease : LeasedWork} {now : DateTime} {u : Unit}
    (hrun : evaluateArticleRules P lease now w id evaluations db = .ok (u, db')) :
    EvaluateReady P db lease now w id evaluations ∧ ∀ k, db'.articles.lookup k =
      if k = (w, id) then (db.articles.lookup k).map (db.afterRules P (db.validRules w evaluations))
      else db.articles.lookup k := by
  rw [evaluateArticleRules_eq] at hrun
  obtain ⟨_, hassert, hrun⟩ := (bind_ok_of_reads (assertLease_keeps _ _)).1 hrun
  have hlease := (assertLease_ok hassert).1
  rw [bind_run, get_run] at hrun
  cases ha : db.articles.lookup (w, id) with
  | none =>
    simp only [ha] at hrun
    cases hrun
    refine ⟨⟨hlease, by simp [ha], by simp [ha]⟩, fun k => ?_⟩
    split
    · rw [‹k = _›, ha]
      rfl
    · rfl
  | some a =>
    simp only [ha] at hrun
    obtain ⟨text, htext, hrun⟩ := (bind_ok_of_reads (articleFullText_keeps a)).1 hrun
    obtain ⟨state, d, hloop, hrun⟩ := bind_ok.1 hrun
    obtain ⟨hvalid, hready, hstate⟩ := evaluateTurns_ok.1 ⟨d, hloop⟩
    have hd : d.articles = db.articles :=
      keeps_loop (f := Db.articles) (fun _ _ => evaluateTurn_keeps (fun _ _ => rfl) _ _) _ _ _ _ _ hloop
    rw [← (articleFullText_ok htext).2] at hready hstate
    subst hstate
    have hrevision : applyRules P a.key.title (db.fullText a) (db.validRules w evaluations) a.state ≠ a.state →
        min (a.revision + 1) (2 ^ 64 - 1) ≤ bigintMax := by
      intro hne
      rcases storeState_ok hrun with ⟨hsame, -⟩ | ⟨-, hrev, -⟩
      · exact absurd hsame hne
      · exact hrev
    refine ⟨⟨hlease, fun _ => hvalid, fun a' ha' => ?_⟩, fun k => ?_⟩
    · rw [ha] at ha'
      cases ha'
      exact ⟨⟨text, htext⟩, fun r hr => (hready r hr).1, fun r hr => (hready r hr).2, hrevision⟩
    · rw [storeState_articles (by rw [hd]; exact ha) hrun k, hd]
      split
      · rw [‹k = _›, ha]
        rfl
      · rfl

theorem EvaluateReady.run {lease : LeasedWork} {now : DateTime} (h : EvaluateReady P db lease now w id evaluations) :
    ∃ db', evaluateArticleRules P lease now w id evaluations db = .ok ((), db') := by
  rw [evaluateArticleRules_eq]
  cases ha : db.articles.lookup (w, id) with
  | none =>
    refine ⟨db, ?_⟩
    simp only [bind_run, assertLease_run, h.lease, if_true, get_run, ha]
    rfl
  | some a =>
    have hrow := h.row a ha
    obtain ⟨text, htext⟩ := hrow.text
    have hfull := (articleFullText_ok htext).2
    have hturns : ∃ d, loop (evaluateTurn P db.rules w id a text.1 text.2) a.state evaluations db =
        .ok (applyRules P a.key.title text.1 (db.validRules w evaluations) a.state, d) :=
      evaluateTurns_ok.2 ⟨h.rules (by simp [ha]), fun r hr => ⟨hfull ▸ hrow.decided r hr, hrow.version r hr⟩, rfl⟩
    obtain ⟨d, hloop⟩ := hturns
    have hstore : ∃ db', storeState (w, id) a (applyRules P a.key.title text.1 (db.validRules w evaluations) a.state) d =
        .ok ((), db') := storeState_of_fits (hfull ▸ hrow.revision)
    obtain ⟨db', hstore⟩ := hstore
    refine ⟨db', ?_⟩
    simp only [bind_run, assertLease_run, h.lease, if_true, get_run, ha, htext]
    rw [hloop]
    exact hstore

end
end Inoreader
