import Inoreader.Rules.World

/-!
# Rules and newer decisions

`RuleInv` says what every open transaction of a rule job knows about the rows it has locked. An
evaluation rests on a rule it has not locked (`EvaluateTx.cause`), so the rule must not change before the
evaluation commits (`RuleWorldOp.Undisturbed`).
-/

namespace Inoreader
open Lib Tx

/-- At this moment the rule on whose behalf the transaction changes an article exists, is enabled and has
the version that is fixed in the job. -/
def RuleTx.Justified (db : Db) : RuleTx → Prop
  | .evaluate t => ∃ e ∈ t.evaluations, t.cause = some e ∧
    ∃ r, db.rules.lookup (t.w, e.ruleId) = some r ∧ e.stillValidFor r = true
  | .batch t => ∃ r, db.rules.lookup (t.w, t.ruleId) = some r ∧ r.enabled = true ∧ r.version = t.version

/-- The rule job changes an article only by marking it as read, when it is not protected and the rule
stands. -/
def RuleWorldOp.Respects (P : Platform) (s : RuleWorld) : RuleWorldOp → Prop
  | .start tx lease now job => ∀ s', s.step P (.start tx lease now job) = some s' → s'.db = s.db
  | .next tx => ∀ s' t, s.step P (.next tx) = some s' → s.transactions.lookup tx = some t →
    ∀ k a a', s.db.articles.lookup k = some a → s'.db.articles.lookup k = some a' → a'.state ≠ a.state →
      a'.state = { a.state with read := true } ∧ a.state.protectUnread = false ∧ t.Justified s.db
  | .rollback tx => ∀ s', s.step P (.rollback tx) = some s' → s'.db = s.db
  | _ => True

/-- No rule is edited or deleted while an evaluation that changed its article because of it is open. -/
def RuleWorldOp.Undisturbed (s : RuleWorld) : RuleWorldOp → Prop
  | .saveRule w _ rule => ∀ tx t e, s.transactions.lookup tx = some (.evaluate t) → t.cause = some e →
    (t.w, e.ruleId) ≠ (w, rule.id)
  | .deleteRule w rule _ => ∀ tx t e, s.transactions.lookup tx = some (.evaluate t) → t.cause = some e →
    (t.w, e.ruleId) ≠ (w, rule)
  | _ => True

/-- The state is unchanged, or the unprotected article is marked. -/
def Marked (a : Article) (state : ArticleState) : Prop :=
  state = a.state ∨ (state = { a.state with read := true } ∧ a.state.protectUnread = false)

/-- What an open evaluation knows. -/
structure EvaluateTx.Ok (db : Db) (t : EvaluateTx) : Prop where
  article : db.articles.lookup (t.w, t.id) = some t.article
  rest : ∀ e ∈ t.rest, e ∈ t.evaluations
  marked : Marked t.article t.state
  uncaused : t.cause = none → t.state = t.article.state
  cause : ∀ e, t.cause = some e → e ∈ t.evaluations ∧
    ∃ r, db.rules.lookup (t.w, e.ruleId) = some r ∧ e.stillValidFor r = true

/-- What an open batch knows. -/
structure BatchTx.Ok (db : Db) (t : BatchTx) : Prop where
  rule : db.rules.lookup (t.w, t.ruleId) = some t.rule
  enabled : t.rule.enabled = true
  version : t.rule.version = t.version
  rows : ∀ through rows, t.selected = some (through, rows) → ∀ row ∈ rows, db.articles.lookup (t.w, row.1) = some row.2
  rest : ∀ row ∈ t.rest, ∃ through rows, t.selected = some (through, rows) ∧ row ∈ rows
  turns : ∀ turn ∈ t.turns, Marked turn.article turn.state ∧
    ∃ through rows, t.selected = some (through, rows) ∧ (turn.id, turn.article) ∈ rows

def RuleTx.Ok (db : Db) : RuleTx → Prop
  | .evaluate t => t.Ok db
  | .batch t => t.Ok db

/-- Every open transaction knows what it has locked, and no two have locked one article. -/
structure RuleInv (s : RuleWorld) : Prop where
  ok : ∀ tx t, s.transactions.lookup tx = some t → t.Ok s.db
  disjoint : ∀ tx tx' t t', s.transactions.lookup tx = some t → s.transactions.lookup tx' = some t' → tx ≠ tx' →
    ∀ k ∈ t.articles, k ∉ t'.articles

section
variable {P : Platform} {db db' : Db} {s s' : RuleWorld} {tx : Nat} {t t' : RuleTx}

/-- A change of the database that leaves the locked rows alone, and the rules the evaluations rest on. -/
theorem RuleTx.Ok.congr (h : t.Ok db) (harticles : ∀ k ∈ t.articles, db'.articles.lookup k = db.articles.lookup k)
    (hrule : ∀ r, t.rule = some r → db'.rules.lookup r = db.rules.lookup r)
    (hcause : ∀ v e, t = .evaluate v → v.cause = some e → db'.rules.lookup (v.w, e.ruleId) = db.rules.lookup (v.w, e.ruleId)) :
    t.Ok db' := by
  cases t with
  | evaluate t =>
    refine ⟨?_, h.rest, h.marked, h.uncaused, fun e he => ?_⟩
    · rw [harticles _ (by simp [RuleTx.articles])]
      exact h.article
    · rw [hcause t e rfl he]
      exact h.cause e he
  | batch t =>
    refine ⟨?_, h.enabled, h.version, fun through rows hrows row hrow => ?_, h.rest, h.turns⟩
    · rw [hrule _ rfl]
      exact h.rule
    · rw [harticles]
      · exact h.rows through rows hrows row hrow
      · simp only [RuleTx.articles, hrows]
        exact List.mem_map_of_mem hrow

theorem Marked.applyRules {a : Article} {state : ArticleState} (h : Marked a state) (title : String)
    (text : Option String) (rules : List Rule) : Marked a (applyRules P title text rules state) := by
  rw [applyRules_eq]
  split
  · rename_i hmark
    rcases h with rfl | ⟨rfl, hprotect⟩
    · exact .inr ⟨rfl, hmark.1⟩
    · exact .inr ⟨rfl, hprotect⟩
  · exact h

/-! ## Evaluations -/

theorem EvaluateTx.next_go {t : EvaluateTx} {t' : RuleTx} (h : t.Ok db) (hnext : t.next P db = .go t') :
    ∃ v, t' = .evaluate v ∧ v.Ok db ∧ v.w = t.w ∧ v.id = t.id := by
  unfold EvaluateTx.next at hnext
  cases htext : t.text with
  | none =>
    simp only [htext] at hnext
    split at hnext
    · cases hnext
      exact ⟨_, rfl, ⟨h.article, h.rest, h.marked, h.uncaused, h.cause⟩, rfl, rfl⟩
    · cases hnext
  | some text =>
    simp only [htext] at hnext
    cases hrest : t.rest with
    | nil =>
      simp only [hrest] at hnext
      split at hnext <;> cases hnext
    | cons e rest =>
      simp only [hrest] at hnext
      cases hturn : evaluateTurn P db.rules t.w t.id t.article text.1 text.2 t.state e db with
      | error err =>
        simp only [hturn] at hnext
        cases hnext
      | ok result =>
        simp only [hturn] at hnext
        cases hnext
        obtain ⟨-, -, hstate⟩ := evaluateTurn_ok.1 ⟨result.2, hturn⟩
        have hmem : ∀ e' ∈ rest, e' ∈ t.evaluations := fun e' he' => h.rest e' (by rw [hrest]; exact List.mem_cons_of_mem _ he')
        refine ⟨_, rfl, ⟨h.article, hmem, ?_, fun hc => ?_, fun e' he' => ?_⟩, rfl, rfl⟩
        · show Marked t.article result.1
          rw [hstate]
          exact h.marked.applyRules _ _ _
        · -- without a cause no turn has changed the state
          dsimp only at hc ⊢
          split at hc
          · rename_i hsame
            rw [hsame]
            exact h.uncaused hc
          · cases hc
        · dsimp only at he'
          split at he'
          · exact h.cause e' he'
          · rename_i hchanged
            cases he'
            refine ⟨h.rest e (by rw [hrest]; exact List.mem_cons_self), ?_⟩
            cases hvalid : (db.rules.lookup (t.w, e.ruleId)).filter e.stillValidFor with
            | none =>
              rw [hvalid] at hstate
              exact absurd hstate hchanged
            | some r =>
              obtain ⟨hr, hstill⟩ := Option.filter_eq_some_iff.1 hvalid
              exact ⟨r, hr, hstill⟩

theorem EvaluateTx.next_commit {t : EvaluateTx} (h : t.Ok db) (hnext : t.next P db = .commit db') :
    db'.rules = db.rules ∧ (∀ k, k ≠ (t.w, t.id) → db'.articles.lookup k = db.articles.lookup k) ∧
      ∃ a', db'.articles.lookup (t.w, t.id) = some a' ∧ a'.state = t.state := by
  unfold EvaluateTx.next at hnext
  cases htext : t.text with
  | none =>
    simp only [htext] at hnext
    split at hnext <;> cases hnext
  | some text =>
    simp only [htext] at hnext
    cases hrest : t.rest with
    | cons e rest =>
      simp only [hrest] at hnext
      split at hnext <;> cases hnext
    | nil =>
      simp only [hrest] at hnext
      split at hnext
      · rename_i hrun
        cases hnext
        obtain ⟨_, d, hupsert, hstore⟩ := bind_ok.1 hrun
        cases hupsert
        rcases storeState_ok hstore with ⟨hsame, rfl⟩ | ⟨-, -, rfl⟩
        · exact ⟨rfl, fun k _ => rfl, t.article, h.article, hsame.symm⟩
        · refine ⟨rfl, fun k hk => ?_, { t.article with state := t.state, revision := min (t.article.revision + 1) (2 ^ 64 - 1) }, ?_, rfl⟩
          · rw [Db.setArticle, Table.lookup_insert_if, if_neg hk]
          · rw [Db.setArticle, Table.lookup_insert_if, if_pos rfl]
      · cases hnext

/-! ## Batches -/

theorem BatchTx.next_go {t : BatchTx} {t' : RuleTx} (h : t.Ok db) (hnext : t.next P db = .go t') :
    ∃ v, t' = .batch v ∧ v.Ok db ∧ v.w = t.w ∧ v.ruleId = t.ruleId := by
  unfold BatchTx.next at hnext
  cases hsel : t.selected with
  | none =>
    simp only [hsel] at hnext
    split at hnext
    · cases hnext
    · cases hnext
      refine ⟨_, rfl, ⟨h.rule, h.enabled, h.version, ?_, fun row hrow => ⟨_, _, rfl, hrow⟩, fun turn hturn => ?_⟩, rfl, rfl⟩
      · intro through rows hrows row hrow
        cases hrows
        exact mem_ruleBatch hrow
      · obtain ⟨-, through, rows, hrows, -⟩ := h.turns turn hturn
        rw [hsel] at hrows
        cases hrows
  | some selected =>
    obtain ⟨through, rows⟩ := selected
    simp only [hsel] at hnext
    cases hrest : t.rest with
    | nil =>
      simp only [hrest] at hnext
      split at hnext <;> cases hnext
    | cons row rest =>
      simp only [hrest] at hnext
      have hrows := h.rows
      have hrests := h.rest
      have hturns := h.turns
      simp only [hsel, hrest] at hrows hrests hturns
      split at hnext
      · cases hnext
        refine ⟨_, rfl, ⟨h.rule, h.enabled, h.version, hrows, fun r hr => ?_, fun turn hturn => ?_⟩, rfl, rfl⟩
        · exact hrests r (List.mem_cons_of_mem _ hr)
        · rcases List.mem_append.1 hturn with hturn | hturn
          · exact hturns turn hturn
          · rw [List.mem_singleton] at hturn
            subst hturn
            refine ⟨?_, hrests row List.mem_cons_self⟩
            exact (Marked.applyRules (.inl rfl) _ _ [t.rule] : Marked row.2 (Inoreader.applyRules P _ _ _ _))
      · cases hnext

theorem BatchTx.turns_articles {t : BatchTx} {turns : List BatchTurn} {u : Unit}
    (hrun : Tx.loop (fun _ turn => storeState (t.w, turn.id) turn.article turn.state) () turns db = .ok (u, db')) :
    db'.rules = db.rules ∧ ∀ k, db'.articles.lookup k = db.articles.lookup k ∨
      ∃ turn ∈ turns, k = (t.w, turn.id) ∧ ∃ a', db'.articles.lookup k = some a' ∧ a'.state = turn.state := by
  induction turns generalizing db with
  | nil =>
    cases hrun
    exact ⟨rfl, fun k => .inl rfl⟩
  | cons turn turns ih =>
    obtain ⟨_, d, hstore, hrest⟩ := bind_ok.1 hrun
    obtain ⟨hrules, harticles⟩ := ih hrest
    have hd : d.rules = db.rules ∧ ∀ k, d.articles.lookup k = db.articles.lookup k ∨
        (k = (t.w, turn.id) ∧ ∃ a', d.articles.lookup k = some a' ∧ a'.state = turn.state) := by
      rcases storeState_ok hstore with ⟨-, rfl⟩ | ⟨-, -, rfl⟩
      · exact ⟨rfl, fun k => .inl rfl⟩
      · refine ⟨rfl, fun k => ?_⟩
        rw [Db.setArticle, Table.lookup_insert_if]
        split
        · exact .inr ⟨‹_›, _, rfl, rfl⟩
        · exact .inl rfl
    refine ⟨hrules.trans hd.1, fun k => ?_⟩
    rcases harticles k with hsame | ⟨turn', hmem, hk, ha'⟩
    · rw [hsame]
      rcases hd.2 k with hsame' | ⟨hk, ha'⟩
      · exact .inl hsame'
      · exact .inr ⟨turn, by simp, hk, ha'⟩
    · exact .inr ⟨turn', by simp [hmem], hk, ha'⟩

theorem enqueueNextBatch_keeps {γ : Type} {f : Db → γ} (hf : ∀ db i j, f (Db.setJob db i j) = f db) (now : DateTime)
    (w : WorkspaceId) (rule : RuleId) (version : Nat) (through : ArticleId) (last : Option ArticleId) :
    Keeps f (enqueueNextBatch now w rule version through last) := by
  unfold enqueueNextBatch
  split
  · exact keeps_pure _
  · exact keeps_onlyIf (enqueueWork_keeps hf _ _ _)

theorem BatchTx.next_commit {t : BatchTx} (hnext : t.next P db = .commit db') :
    db'.rules = db.rules ∧ ∀ k, db'.articles.lookup k = db.articles.lookup k ∨
      ∃ turn ∈ t.turns, k = (t.w, turn.id) ∧ ∃ a', db'.articles.lookup k = some a' ∧ a'.state = turn.state := by
  unfold BatchTx.next at hnext
  cases hsel : t.selected with
  | none =>
    simp only [hsel] at hnext
    split at hnext
    · cases hnext
      exact ⟨rfl, fun k => .inl rfl⟩
    · cases hnext
  | some selected =>
    obtain ⟨through, rows⟩ := selected
    simp only [hsel] at hnext
    cases hrest : t.rest with
    | cons row rest =>
      simp only [hrest] at hnext
      split at hnext <;> cases hnext
    | nil =>
      simp only [hrest] at hnext
      split at hnext
      · rename_i hrun
        cases hnext
        obtain ⟨_, d₁, hloop, hrun⟩ := bind_ok.1 hrun
        obtain ⟨_, d₂, hupsert, hrun⟩ := bind_ok.1 hrun
        cases hupsert
        have hk : ∀ {γ : Type} {f : Db → γ}, (∀ db i j, f (Db.setJob db i j) = f db) → f db' = _ := fun hf =>
          keeps_onlyIf (enqueueNextBatch_keeps hf _ _ _ _ _ _) _ _ _ hrun
        obtain ⟨hrules, harticles⟩ := turns_articles hloop
        refine ⟨(hk (f := Db.rules) fun _ _ _ => rfl).trans hrules, fun k => ?_⟩
        rw [hk (f := Db.articles) fun _ _ _ => rfl]
        exact harticles k
      · cases hnext

/-! ## The invariant -/

theorem saveRule_lookup {w : WorkspaceId} {expected : Option Nat} {rule : Rule} {u : Unit} {r : WorkspaceId × RuleId}
    (hrun : saveRule w expected rule db = .ok (u, db')) (hr : r ≠ (w, rule.id)) :
    db'.rules.lookup r = db.rules.lookup r := by
  unfold saveRule at hrun
  obtain ⟨-, hrun⟩ := bind_require_ok.1 hrun
  obtain ⟨-, hrun⟩ := bind_require_ok.1 hrun
  rw [bind_run, get_run] at hrun
  obtain ⟨_, -, hrun⟩ := (bind_ok_of_reads (requireRevision_keeps _ _)).1 hrun
  cases hrun
  exact (Table.lookup_insert_if _ _ _ _).trans (if_neg hr)

theorem deleteRule_lookup {w : WorkspaceId} {rule : RuleId} {expected : Nat} {u : Unit} {r : WorkspaceId × RuleId}
    (hrun : deleteRule w rule expected db = .ok (u, db')) (hr : r ≠ (w, rule)) :
    db'.rules.lookup r = db.rules.lookup r := by
  unfold deleteRule at hrun
  obtain ⟨-, hrun⟩ := bind_require_ok.1 hrun
  rw [bind_run, get_run] at hrun
  obtain ⟨-, hrun⟩ := bind_require_ok.1 hrun
  cases hrun
  exact (Table.lookup_erase_if _ _ _).trans (if_neg hr)

/-- The next statement of a transaction keeps what the transaction knows and the rule it has locked. -/
theorem RuleTx.next_go (h : t.Ok db) (hnext : t.next P db = .go t') : t'.Ok db ∧ t'.rule = t.rule := by
  cases t with
  | evaluate t =>
    obtain ⟨v, rfl, hv, -, -⟩ := EvaluateTx.next_go h hnext
    exact ⟨hv, rfl⟩
  | batch t =>
    obtain ⟨v, rfl, hv, hw, hrule⟩ := BatchTx.next_go h hnext
    refine ⟨hv, ?_⟩
    simp only [RuleTx.rule, hw, hrule]

/-- A commit leaves the rules alone; it changes locked articles only, by marking them, for a rule that
stands. -/
theorem RuleTx.next_commit (h : t.Ok db) (hnext : t.next P db = .commit db') :
    db'.rules = db.rules ∧ ∀ k, db'.articles.lookup k = db.articles.lookup k ∨
      (k ∈ t.articles ∧ ∃ a a', db.articles.lookup k = some a ∧ db'.articles.lookup k = some a' ∧ Marked a a'.state ∧
        (a'.state ≠ a.state → t.Justified db)) := by
  cases t with
  | evaluate t =>
    obtain ⟨hrules, hother, a', ha', hstate⟩ := EvaluateTx.next_commit h hnext
    refine ⟨hrules, fun k => ?_⟩
    by_cases hk : k = (t.w, t.id)
    · subst hk
      refine .inr ⟨by simp [RuleTx.articles], t.article, a', h.article, ha', hstate ▸ h.marked, fun hne => ?_⟩
      cases hcause : t.cause with
      | none => exact absurd (hstate.trans (h.uncaused hcause)) hne
      | some e => exact ⟨e, (h.cause e hcause).1, hcause, (h.cause e hcause).2⟩
    · exact .inl (hother k hk)
  | batch t =>
    obtain ⟨hrules, harticles⟩ := BatchTx.next_commit hnext
    refine ⟨hrules, fun k => ?_⟩
    rcases harticles k with hsame | ⟨turn, hturn, rfl, a', ha', hstate⟩
    · exact .inl hsame
    · obtain ⟨hmarked, through, rows, hsel, hrow⟩ := h.turns turn hturn
      refine .inr ⟨?_, turn.article, a', h.rows through rows hsel _ hrow, ha', hstate ▸ hmarked, fun _ => ?_⟩
      · simp only [RuleTx.articles, hsel]
        exact List.mem_map_of_mem hrow
      · exact ⟨t.rule, h.rule, h.enabled, h.version⟩

theorem RuleWorld.setTx_lookup (s : RuleWorld) (tx tx' : Nat) (t : RuleTx) :
    (s.setTx tx t).transactions.lookup tx' = if tx' = tx then some t else s.transactions.lookup tx' :=
  Table.lookup_insert_if _ _ _ _

theorem RuleWorld.closeTx_lookup (s : RuleWorld) (tx tx' : Nat) (db : Db) :
    (s.closeTx tx db).transactions.lookup tx' = if tx' = tx then none else s.transactions.lookup tx' :=
  Table.lookup_erase_if _ _ _

namespace RuleInv

/-- A transaction begins or goes on. -/
theorem setTx (h : RuleInv s) (ht : t.Ok s.db) (hfree : ∀ k ∈ t.articles, s.ArticleFree tx k) : RuleInv (s.setTx tx t) := by
  have hlocked : ∀ tx' t', tx' ≠ tx → s.transactions.lookup tx' = some t' → ∀ k ∈ t.articles, k ∉ t'.articles :=
    fun tx' t' hne ht' k hk => hfree k hk (tx', t') (Table.mem_rows.2 ht') hne
  refine ⟨fun tx' t' ht' => ?_, fun tx₁ tx₂ t₁ t₂ h₁ h₂ hne k hk hk' => ?_⟩
  · rw [RuleWorld.setTx_lookup] at ht'
    split at ht'
    · cases ht'
      exact ht
    · exact h.ok tx' t' ht'
  · rw [RuleWorld.setTx_lookup] at h₁ h₂
    split at h₁
    · cases h₁
      rw [if_neg fun e => hne (‹tx₁ = tx›.trans e.symm)] at h₂
      exact hlocked tx₂ t₂ (fun e => hne (‹tx₁ = tx›.trans e.symm)) h₂ k hk hk'
    · split at h₂
      · cases h₂
        exact hlocked tx₁ t₁ ‹_› h₁ k hk' hk
      · exact h.disjoint tx₁ tx₂ t₁ t₂ h₁ h₂ hne k hk hk'

/-- A change that leaves every locked row and every cause alone. -/
theorem congr (h : RuleInv s)
    (harticles : ∀ tx t, s.transactions.lookup tx = some t → ∀ k ∈ t.articles, db.articles.lookup k = s.db.articles.lookup k)
    (hrule : ∀ tx t r, s.transactions.lookup tx = some t → t.rule = some r → db.rules.lookup r = s.db.rules.lookup r)
    (hcause : ∀ tx v e, s.transactions.lookup tx = some (.evaluate v) → v.cause = some e →
      db.rules.lookup (v.w, e.ruleId) = s.db.rules.lookup (v.w, e.ruleId)) : RuleInv { s with db } := by
  refine ⟨fun tx t ht => ?_, h.disjoint⟩
  refine (h.ok tx t ht).congr (harticles tx t ht) (hrule tx t · ht) fun v e hv he => ?_
  subst hv
  exact hcause tx v e ht he

theorem rollback (h : RuleInv s) : RuleInv (s.closeTx tx s.db) := by
  refine ⟨fun tx' t' ht' => ?_, fun tx₁ tx₂ t₁ t₂ h₁ h₂ hne => ?_⟩
  · rw [RuleWorld.closeTx_lookup] at ht'
    split at ht'
    · cases ht'
    · exact h.ok tx' t' ht'
  · rw [RuleWorld.closeTx_lookup] at h₁ h₂
    split at h₁
    · cases h₁
    · split at h₂
      · cases h₂
      · exact h.disjoint tx₁ tx₂ t₁ t₂ h₁ h₂ hne

/-- The commit of one transaction touches no row that another has locked. -/
theorem commit (h : RuleInv s) (ht : s.transactions.lookup tx = some t) (hnext : t.next P s.db = .commit db) :
    RuleInv (s.closeTx tx db) := by
  obtain ⟨hrules, harticles⟩ := RuleTx.next_commit (h.ok tx t ht) hnext
  have hclosed : RuleInv (s.closeTx tx s.db) := h.rollback
  refine ⟨fun tx' t' ht' => ?_, hclosed.disjoint⟩
  rw [RuleWorld.closeTx_lookup] at ht'
  split at ht'
  · cases ht'
  · rename_i hne
    refine (h.ok tx' t' ht').congr (fun k hk => ?_) (fun r _ => by rw [show (s.closeTx tx db).db.rules = s.db.rules from hrules])
      fun v e _ _ => by rw [show (s.closeTx tx db).db.rules = s.db.rules from hrules]
    rcases harticles k with hsame | ⟨hk', -⟩
    · exact hsame
    · exact absurd hk (h.disjoint tx tx' t t' ht ht' (fun e => hne e.symm) k hk')

theorem start (h : RuleInv s) {lease : LeasedWork} {now : DateTime} {job : RuleJob}
    (hstep : s.startJob tx lease now job = some s') : RuleInv s' ∧ s'.db = s.db := by
  unfold RuleWorld.startJob at hstep
  split at hstep
  · cases hstep
    exact ⟨h, rfl⟩
  · cases job with
    | evaluate w id evaluations =>
      dsimp only at hstep
      cases ha : s.db.articles.lookup (w, id) with
      | none =>
        simp only [ha] at hstep
        cases hstep
        exact ⟨h, rfl⟩
      | some a =>
        simp only [ha] at hstep
        split at hstep
        · rename_i hfree
          cases hstep
          refine ⟨h.setTx ⟨ha, fun _ he => he, .inl rfl, fun _ => rfl, fun e he => by cases he⟩ fun k hk => ?_, rfl⟩
          rw [RuleTx.articles, List.mem_singleton] at hk
          rw [hk]
          exact hfree
        · cases hstep
    | batch w ruleId version afterId throughId limit =>
      dsimp only at hstep
      cases hr : s.db.rules.lookup (w, ruleId) with
      | none =>
        simp only [hr] at hstep
        cases hstep
        exact ⟨h, rfl⟩
      | some rule =>
        simp only [hr] at hstep
        split at hstep
        · split at hstep
          · rename_i hrule
            cases hstep
            refine ⟨h.setTx ⟨hr, hrule.2.1, hrule.2.2, ?_, ?_, ?_⟩ ?_, rfl⟩
            · intro through rows hsel
              cases hsel
            · intro row hrow
              cases hrow
            · intro turn hturn
              cases hturn
            · intro k hk
              cases hk
          · cases hstep
            exact ⟨h, rfl⟩
        · cases hstep

/-- A rule command that changes one free rule no open evaluation rests on. -/
theorem edit (h : RuleInv s) {w : WorkspaceId} {i : RuleId} (hfree : s.RuleFree (w, i))
    (hcause : ∀ tx t e, s.transactions.lookup tx = some (.evaluate t) → t.cause = some e → (t.w, e.ruleId) ≠ (w, i))
    (hrules : ∀ r, r ≠ (w, i) → db.rules.lookup r = s.db.rules.lookup r) (harticles : db.articles = s.db.articles) :
    RuleInv { s with db } := by
  refine h.congr (fun _ _ _ k _ => by rw [harticles]) (fun tx t r ht hr => ?_) fun tx v e ht he => ?_
  · refine hrules r fun e => ?_
    exact hfree (tx, t) (Table.mem_rows.2 ht) (by rw [hr, e])
  · exact hrules _ (hcause tx v e ht he)

theorem step (h : RuleInv s) {op : RuleWorldOp} (hop : op.Undisturbed s) (hstep : s.step P op = some s') : RuleInv s' := by
  cases op with
  | start tx lease now job =>
    simp only [RuleWorld.step] at hstep
    split at hstep
    · cases hstep
    · exact (h.start hstep).1
  | next tx =>
    simp only [RuleWorld.step] at hstep
    cases ht : s.transactions.lookup tx with
    | none =>
      simp only [ht] at hstep
      cases hstep
    | some t =>
      simp only [ht] at hstep
      cases hnext : t.next P s.db with
      | go t' =>
        simp only [hnext] at hstep
        split at hstep
        · rename_i hfree
          cases hstep
          exact h.setTx (RuleTx.next_go (h.ok tx t ht) hnext).1 hfree
        · cases hstep
      | commit db =>
        simp only [hnext] at hstep
        cases hstep
        exact h.commit ht hnext
      | rollback =>
        simp only [hnext] at hstep
        cases hstep
        exact h.rollback
  | rollback tx =>
    cases hstep
    exact h.rollback
  | saveRule w expected rule =>
    simp only [RuleWorld.step] at hstep
    split at hstep
    · rename_i hfree
      cases hrun : Inoreader.saveRule w expected rule s.db with
      | error e =>
        simp only [hrun] at hstep
        cases hstep
      | ok result =>
        simp only [hrun] at hstep
        cases hstep
        refine h.edit hfree hop (fun r hr => ?_) (saveRule_keeps (f := Db.articles) (fun _ _ => rfl) _ _ _ _ _ _ hrun)
        exact saveRule_lookup hrun hr
    · cases hstep
  | deleteRule w rule expected =>
    simp only [RuleWorld.step] at hstep
    split at hstep
    · rename_i hfree
      cases hrun : Inoreader.deleteRule w rule expected s.db with
      | error e =>
        simp only [hrun] at hstep
        cases hstep
      | ok result =>
        simp only [hrun] at hstep
        cases hstep
        refine h.edit hfree hop (fun r hr => ?_) (deleteRule_keeps (f := Db.articles) (fun _ _ => rfl) _ _ _ _ _ _ hrun)
        exact deleteRule_lookup hrun hr
    · cases hstep
  | other db =>
    simp only [RuleWorld.step] at hstep
    split at hstep
    · rename_i hguard
      cases hstep
      refine h.congr (fun tx t ht k hk => hguard.2 (tx, t) (Table.mem_rows.2 ht) k hk) (fun _ _ _ _ _ => by rw [hguard.1])
        fun _ _ _ _ _ => by rw [hguard.1]
    · cases hstep

/-- In a state that the invariant describes every step of a rule job respects the newer decisions. -/
theorem respects (h : RuleInv s) (op : RuleWorldOp) : op.Respects P s := by
  cases op with
  | start tx lease now job =>
    intro s' hstep
    simp only [RuleWorld.step] at hstep
    split at hstep
    · cases hstep
    · exact (h.start hstep).2
  | next tx =>
    intro s' t hstep ht k a a' ha ha' hne
    simp only [RuleWorld.step, ht] at hstep
    cases hnext : t.next P s.db with
    | go t' =>
      simp only [hnext] at hstep
      split at hstep
      · cases hstep
        rw [show (s.setTx tx t').db = s.db from rfl, ha] at ha'
        cases ha'
        exact absurd rfl hne
      · cases hstep
    | commit db =>
      simp only [hnext] at hstep
      cases hstep
      obtain ⟨-, harticles⟩ := RuleTx.next_commit (h.ok tx t ht) hnext
      have ha'' : db.articles.lookup k = some a' := ha'
      rcases harticles k with hsame | ⟨-, b, b', hb, hb', hmarked, hjust⟩
      · rw [hsame, ha] at ha''
        cases ha''
        exact absurd rfl hne
      · rw [ha] at hb
        rw [ha''] at hb'
        cases hb
        cases hb'
        rcases hmarked with hsame | ⟨hmark, hprotect⟩
        · exact absurd hsame hne
        · exact ⟨hmark, hprotect, hjust hne⟩
    | rollback =>
      simp only [hnext] at hstep
      cases hstep
      rw [show (s.closeTx tx s.db).db = s.db from rfl, ha] at ha'
      cases ha'
      exact absurd rfl hne
  | rollback tx =>
    intro s' hstep
    cases hstep
    rfl
  | saveRule _ _ _ | deleteRule _ _ _ | other _ => trivial

end RuleInv

/-- Rules never override newer decisions: in every run in which no rule is edited or deleted while an
evaluation that changed its article because of it is open, every step of a rule job marks unprotected
articles as read for a rule that stands, and nothing else; and the states that rule jobs leave depend
neither on the order of the evaluations in a job nor on the order of jobs of different rules. -/
theorem rules_yield (hstart : s.transactions = ∅) {ops : List RuleWorldOp}
    (hops : Along (RuleWorld.step P) (fun s op => op.Undisturbed s) s ops) :
    Along (RuleWorld.step P) (fun s op => op.Respects P s) s ops ∧
    (∀ db lease now w id es es', es.Perm es' → ∀ k,
      (((evaluateArticleRules P lease now w id es).commit db).articles.lookup k).map (·.state) =
        (((evaluateArticleRules P lease now w id es').commit db).articles.lookup k).map (·.state)) ∧
    ∀ db xs ys, xs.Pairwise (RuleExecution.Different db) → xs.Perm ys → ∀ k,
      ((executeJobs P db xs).articles.lookup k).map (·.state) = ((executeJobs P db ys).articles.lookup k).map (·.state) := by
  refine ⟨?_, fun db lease now w id es es' hperm k => by rw [evaluations_perm hperm k],
    fun db xs ys hdiff hperm k => executeJobs_perm hdiff hperm k⟩
  have hinv : RuleInv s := by
    refine ⟨fun tx t ht => ?_, fun tx tx' t t' ht => ?_⟩
    · rw [hstart] at ht
      cases ht
    · rw [hstart] at ht
      cases ht
  exact along_of_inv RuleInv (fun s op s' hI hop hstep => hI.step hop hstep) (fun s op hI _ => hI.respects op) hinv hops

end

namespace Sample

/-- A rule for the title of the delivered article. -/
def titleRule (version : Nat) (enabled : Bool) : Rule :=
  { id := ⟨1⟩, subscriptionId := ⟨1⟩, version, enabled, field := .title, needles := ["first"], action := .markRead }

def ruleWorld : RuleWorld :=
  { db := { delivered.db with rules := (∅ : Table (WorkspaceId × RuleId) Rule).insert (⟨1⟩, ⟨1⟩) (titleRule 0 true) }
    transactions := ∅ }

def pending : PendingRuleEvaluation := { ruleId := ⟨1⟩, ruleVersion := 0, subscriptionId := ⟨1⟩ }

def evaluation : RuleJob := .evaluate ⟨1⟩ ⟨1⟩ [pending]

/-- The evaluation locks its article, reads the texts and reads the rule. -/
def evaluating : List RuleWorldOp := [.start 1 lease 6 evaluation, .next 1, .next 1]

def evaluated : RuleWorld := (run (RuleWorld.step platform) ruleWorld (evaluating ++ [.next 1])).getD ruleWorld

/-- The rule is disabled before the evaluation commits. -/
def disabling : List RuleWorldOp := evaluating ++ [.saveRule ⟨1⟩ (some 0) (titleRule 1 false)]

def disabled : RuleWorld := (run (RuleWorld.step platform) ruleWorld disabling).getD ruleWorld

/-- The evaluation when the rule is disabled. -/
def openEvaluation : EvaluateTx :=
  { w := ⟨1⟩, id := ⟨1⟩, article := article "first" 1, text := some (none, []), evaluations := [pending], rest := []
    state := { read := true }, cause := some pending
    upserts := [(⟨⟨1⟩, ⟨1⟩, ⟨1⟩, 0⟩, .evaluated true .markRead true false (some []))] }

def marked : RuleWorld := (disabled.step platform (.next 1)).getD disabled

end Sample

theorem rules_yield_undisturbed :
    run (RuleWorld.step Sample.platform) Sample.ruleWorld (Sample.evaluating ++ [.next 1]) = some Sample.evaluated ∧
    (Sample.evaluated.db.articles.lookup (⟨1⟩, ⟨1⟩)).map (·.state.read) = some true ∧
    Along (RuleWorld.step Sample.platform) (fun s op => op.Respects Sample.platform s) Sample.ruleWorld
      (Sample.evaluating ++ [.next 1]) := by
  have hsome : (run (RuleWorld.step Sample.platform) Sample.ruleWorld (Sample.evaluating ++ [.next 1])).isSome := by
    decide +kernel
  have hops : ∀ op ∈ Sample.evaluating ++ [.next 1], ∀ s, RuleWorldOp.Undisturbed s op := by
    intro op hop s
    simp only [Sample.evaluating, List.cons_append, List.nil_append, List.mem_cons, List.not_mem_nil, or_false] at hop
    rcases hop with rfl | rfl | rfl | rfl <;> trivial
  refine ⟨run_getD hsome _, by decide +kernel, (rules_yield rfl ?_).1⟩
  exact (along_of_forall _ hops).mono fun s op h => h s

/-- A rule that was disabled while the evaluation was open still marks the article. -/
theorem disabled_rule_marks :
    run (RuleWorld.step Sample.platform) Sample.ruleWorld Sample.disabling = some Sample.disabled ∧
    Sample.disabled.db.rules.lookup (⟨1⟩, ⟨1⟩) = some (Sample.titleRule 1 false) ∧
    ¬ RuleWorldOp.Respects Sample.platform Sample.disabled (.next 1) := by
  have hsome : (run (RuleWorld.step Sample.platform) Sample.ruleWorld Sample.disabling).isSome := by decide +kernel
  have hrule : Sample.disabled.db.rules.lookup (⟨1⟩, ⟨1⟩) = some (Sample.titleRule 1 false) := by decide +kernel
  have htx : Sample.disabled.transactions.lookup 1 = some (.evaluate Sample.openEvaluation) := by decide +kernel
  have hnext : Sample.disabled.step Sample.platform (.next 1) = some Sample.marked := by
    have hsome : (Sample.disabled.step Sample.platform (.next 1)).isSome := by decide +kernel
    obtain ⟨s, hs⟩ := Option.isSome_iff_exists.1 hsome
    rw [Sample.marked, hs]
    rfl
  have hbefore : Sample.disabled.db.articles.lookup (⟨1⟩, ⟨1⟩) = some (Sample.article "first" 1) := by decide +kernel
  have hafter : Sample.marked.db.articles.lookup (⟨1⟩, ⟨1⟩) =
      some { Sample.article "first" 2 with state := { read := true } } := by decide +kernel
  refine ⟨run_getD hsome _, hrule, fun h => ?_⟩
  obtain ⟨-, -, e, he, -, r, hr, hvalid⟩ := h Sample.marked _ hnext htx _ _ _ hbefore hafter (by decide)
  rw [List.mem_singleton.1 he] at hr hvalid
  rw [show (Sample.openEvaluation.w, Sample.pending.ruleId) = (⟨1⟩, ⟨1⟩) from rfl, hrule] at hr
  rw [← Option.some.inj hr] at hvalid
  exact absurd hvalid (by decide)

end Inoreader
