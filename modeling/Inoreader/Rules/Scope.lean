import Inoreader.Rules.Jobs
import Inoreader.Library.Run

/-!
# The scope of a rule

A rule belongs to one subscription. Both rule jobs match it against the title of the article and the
texts of all its origins put together, and the batch runs over the whole workspace, so a match may come
from elsewhere: `Foreign` is an article without an origin through the rule's subscription, `Borrowed` a
match in the text of another subscription's record or across two texts.
-/

namespace Inoreader
open Lib Tx

/-- The published text of one record. -/
def Db.recordText (db : Db) (r : SourceRecordId) : Option String :=
  (db.contentManifests.lookup r).bind (decodeSnapshot db r)

namespace Rule

/-- The phrase is in the title and the rule looks there. -/
def inTitle (lower : String → String) (r : Rule) (title : String) : Bool :=
  r.field != .text && r.needles.any fun n => containsText (lower title) (lower n)

/-- The phrase is in the text and the rule looks there. -/
def inText (lower : String → String) (r : Rule) (text : String) : Bool :=
  r.field != .title && r.needles.any fun n => containsText (lower text) (lower n)

end Rule

section
variable (P : Platform) (db : Db) (key : ArticleKey) (a : Article) (r : Rule)

/-- The record came to the article through the rule's subscription. -/
def Delivered (record : SourceRecordId) : Prop :=
  { workspaceId := key.1, articleId := key.2, subscriptionId := r.subscriptionId, sourceRecordId := record } ∈
    db.libraryOrigins

/-- What the rule may act on: an article of its subscription that has the phrase in the title or in the
text of one record of the subscription. -/
structure InScope : Prop where
  origin : ∃ record, Delivered db key r record
  phrase : r.inTitle P.lowercase a.key.title = true ∨
    ∃ record text, Delivered db key r record ∧ db.recordText record = some text ∧ r.inText P.lowercase text = true

/-- The article has no origin through the rule's subscription. -/
def Foreign : Prop := ∀ record, ¬ Delivered db key r record

/-- The phrase is neither in the title nor in the text of one record of the rule's subscription. -/
def Borrowed : Prop :=
  r.inTitle P.lowercase a.key.title = false ∧
    ∀ record text, Delivered db key r record → db.recordText record = some text → r.inText P.lowercase text = false

/-- The article's state is different before and after the turn of the rule. -/
def RuleJob.OnBehalf (job : RuleJob) : Prop :=
  (key, a) ∈ job.rows db ∧ ∃ before after, job.rules db = before ++ r :: after ∧
    applyRules P a.key.title (db.fullText a) (before ++ [r]) a.state ≠
      applyRules P a.key.title (db.fullText a) before a.state

/-- The rule is the first of the job that matches an unread, unprotected article. -/
structure RuleJob.FirstMatch (job : RuleJob) : Prop where
  row : (key, a) ∈ job.rows db
  unread : a.state.read = false
  unprotected : a.state.protectUnread = false
  matched : r.isMatch P.lowercase a.key.title (db.fullText a) = true
  first : ∃ before after, job.rules db = before ++ r :: after ∧
    ∀ r' ∈ before, r'.isMatch P.lowercase a.key.title (db.fullText a) = false

end

inductive RuleOp
  | execute (lease : LeasedWork) (now : DateTime) (job : RuleJob)
  /-- Anything else that happens between two rule jobs. -/
  | other (db : Db)

def ruleStep (P : Platform) (db : Db) : RuleOp → Option Db
  | .execute lease now job => some ((job.tx P lease now).commit db)
  | .other db' => some db'

/-- A rule job that commits changes the state of an article on behalf of some rule, and on behalf of a
rule only what is in its scope. -/
def RuleOp.Scoped (P : Platform) (db : Db) : RuleOp → Prop
  | .execute lease now job => ∀ db', job.tx P lease now db = .ok ((), db') →
    (∀ key a a', db.articles.lookup key = some a → db'.articles.lookup key = some a' → a'.state ≠ a.state →
      ∃ r, job.OnBehalf P db key a r) ∧
    ∀ key a r, job.OnBehalf P db key a r → InScope P db key a r
  | .other _ => True

/-- No rule of a job that goes through has its first match on a foreign article or by a borrowed phrase. -/
def RuleOp.Own (P : Platform) (db : Db) : RuleOp → Prop
  | .execute lease now job => job.Ready P db lease now → ∀ key a r, job.FirstMatch P db key a r →
    ¬ Foreign db key r ∧ ¬ Borrowed P db key a r
  | .other _ => True

section
variable {P : Platform} {db db' : Db} {key : ArticleKey} {a : Article} {r : Rule} {job : RuleJob}

theorem inScope_iff : InScope P db key a r ↔ ¬ Foreign db key r ∧ ¬ Borrowed P db key a r := by
  constructor
  · rintro ⟨⟨record, horigin⟩, hphrase⟩
    refine ⟨fun h => h record horigin, fun h => ?_⟩
    rcases hphrase with htitle | ⟨record', text, hdelivered, htext, hin⟩
    · rw [h.1] at htitle
      cases htitle
    · rw [h.2 record' text hdelivered htext] at hin
      cases hin
  · rintro ⟨hforeign, hborrowed⟩
    refine ⟨?_, ?_⟩
    · by_contra h
      exact hforeign fun record hr => h ⟨record, hr⟩
    · by_contra h
      rw [not_or] at h
      refine hborrowed ⟨by simpa using h.1, fun record text hdelivered htext => ?_⟩
      by_contra hin
      exact h.2 ⟨record, text, hdelivered, htext, by simpa using hin⟩

theorem markRead_ne (s : ArticleState) : { s with read := true } ≠ s ↔ s.read = false := by
  obtain ⟨read, later, protectUnread⟩ := s
  cases read <;> simp

/-- A turn changes the state exactly if it is the first match on an unread, unprotected article. -/
theorem applyRules_turn_ne {title : String} {text : Option String} {s : ArticleState} {before : List Rule} :
    applyRules P title text (before ++ [r]) s ≠ applyRules P title text before s ↔
      s.read = false ∧ s.protectUnread = false ∧ r.isMatch P.lowercase title text = true ∧
        ∀ r' ∈ before, r'.isMatch P.lowercase title text = false := by
  have hnone : (∀ r' ∈ before, r'.isMatch P.lowercase title text = false) ↔
      ¬ ∃ r' ∈ before, r'.isMatch P.lowercase title text = true := by simp
  have hlast : (∃ r' ∈ before ++ [r], r'.isMatch P.lowercase title text = true) ↔
      (∃ r' ∈ before, r'.isMatch P.lowercase title text = true) ∨ r.isMatch P.lowercase title text = true := by
    simp only [List.mem_append, List.mem_singleton, or_and_right, exists_or, exists_eq_left]
  rw [applyRules_eq, applyRules_eq, hnone]
  simp only [hlast]
  by_cases hprotect : s.protectUnread = false
  · by_cases hbefore : ∃ r' ∈ before, r'.isMatch P.lowercase title text = true
    · simp [hprotect, hbefore]
    · by_cases hmatch : r.isMatch P.lowercase title text = true
      · rw [if_pos ⟨hprotect, .inr hmatch⟩, if_neg fun h => hbefore h.2, markRead_ne]
        exact ⟨fun h => ⟨h, hprotect, hmatch, hbefore⟩, fun h => h.1⟩
      · rw [if_neg fun h => h.2.elim hbefore hmatch, if_neg fun h => hbefore h.2]
        exact ⟨fun h => absurd rfl h, fun h => absurd h.2.2.1 hmatch⟩
  · rw [if_neg fun h => hprotect h.1, if_neg fun h => hprotect h.1]
    exact ⟨fun h => absurd rfl h, fun h => absurd h.2.1 hprotect⟩

theorem RuleJob.onBehalf_iff : job.OnBehalf P db key a r ↔ job.FirstMatch P db key a r := by
  constructor
  · rintro ⟨hrow, before, after, hrules, hne⟩
    obtain ⟨hread, hprotect, hmatch, hbefore⟩ := applyRules_turn_ne.1 hne
    exact ⟨hrow, hread, hprotect, hmatch, before, after, hrules, hbefore⟩
  · rintro ⟨hrow, hread, hprotect, hmatch, before, after, hrules, hbefore⟩
    exact ⟨hrow, before, after, hrules, applyRules_turn_ne.2 ⟨hread, hprotect, hmatch, hbefore⟩⟩

/-- A list of turns that changes the state has one that does. -/
theorem exists_turn {title : String} {text : Option String} {s : ArticleState} {rules : List Rule}
    (h : applyRules P title text rules s ≠ s) :
    ∃ before r after, rules = before ++ r :: after ∧
      applyRules P title text (before ++ [r]) s ≠ applyRules P title text before s := by
  induction rules using List.reverseRecOn with
  | nil => exact absurd rfl h
  | append_singleton rules r ih =>
    by_cases hsame : applyRules P title text rules s = s
    · exact ⟨rules, r, [], rfl, by rw [hsame]; exact h⟩
    · obtain ⟨before, r', after, hrules, hne⟩ := ih hsame
      exact ⟨before, r', after ++ [r], by rw [hrules]; simp, hne⟩

/-- The step lemma: a job keeps to the scope of its rules exactly if it is `Own`. -/
theorem RuleOp.scoped_iff (op : RuleOp) : op.Scoped P db ↔ op.Own P db := by
  cases op with
  | other db' => exact Iff.rfl
  | execute lease now job =>
    constructor
    · intro h hready key a r hfirst
      obtain ⟨db', hrun⟩ := hready.run
      exact inScope_iff.1 ((h db' hrun).2 key a r (RuleJob.onBehalf_iff.2 hfirst))
    · intro h db' hrun
      obtain ⟨hready, hdone⟩ := RuleJob.tx_ok hrun
      refine ⟨fun key a a' ha ha' hne => ?_, fun key a r hbehalf => ?_⟩
      · rw [hdone.articles key] at ha'
        split at ha'
        · rename_i hin
          rw [ha] at ha'
          cases ha'
          have hrow : (key, a) ∈ job.rows db := by
            obtain ⟨row, hrow, hkey⟩ := List.mem_map.1 hin
            have hstored := job.lookup_of_mem_rows hrow
            rw [hkey, ha] at hstored
            rw [← hkey, Option.some.inj hstored]
            exact hrow
          have hturns : applyRules P a.key.title (db.fullText a) (job.rules db) a.state ≠ a.state := by
            intro heq
            exact hne (by rw [Db.afterRules, if_pos heq])
          obtain ⟨before, r, after, hrules, hturn⟩ := exists_turn hturns
          exact ⟨r, hrow, before, after, hrules, hturn⟩
        · rw [ha] at ha'
          cases ha'
          exact absurd rfl hne
      · exact inScope_iff.2 (h hready key a r (RuleJob.onBehalf_iff.1 hbehalf))

/-- In every run of rule jobs, whatever happens between them, every job keeps to the scope of its rules
exactly if no rule has its first match on a foreign article or by a borrowed phrase. -/
theorem rules_scoped_iff (P : Platform) (db : Db) (ops : List RuleOp) :
    Along (ruleStep P) (fun db op => op.Scoped P db) db ops ↔ Along (ruleStep P) (fun db op => op.Own P db) db ops := by
  constructor
  · exact fun h => h.mono fun _ op => (RuleOp.scoped_iff op).1
  · exact fun h => h.mono fun _ op => (RuleOp.scoped_iff op).2

end

namespace Sample

/-- A rule of another subscription than the one that delivered the article. -/
def foreignRule : Rule :=
  { id := ⟨7⟩, subscriptionId := ⟨2⟩, version := 0, enabled := true, field := .title, needles := ["first"]
    action := .markRead }

/-- The library after the delivery of one record through the first subscription. -/
def foreignDb : Db := { delivered.db with rules := (∅ : Table (WorkspaceId × RuleId) Rule).insert (⟨1⟩, ⟨7⟩) foreignRule }

/-- The rule is applied to the archive. -/
def foreignBatch : RuleJob := .batch ⟨1⟩ ⟨7⟩ 0 none none 10

end Sample

/-- The batch marks an article that has no origin through the rule's subscription. -/
theorem rule_marks_foreign_article :
    ∃ db', Sample.foreignBatch.tx Sample.platform Sample.lease 6 Sample.foreignDb = .ok ((), db') ∧
      (db'.articles.lookup (⟨1⟩, ⟨1⟩)).map (·.state.read) = some true ∧
      Sample.foreignBatch.OnBehalf Sample.platform Sample.foreignDb (⟨1⟩, ⟨1⟩) (Sample.article "first" 1) Sample.foreignRule ∧
      ¬ InScope Sample.platform Sample.foreignDb (⟨1⟩, ⟨1⟩) (Sample.article "first" 1) Sample.foreignRule := by
  have hok : Sample.foreignBatch.tx Sample.platform Sample.lease 6 Sample.foreignDb =
      .ok ((), (Sample.foreignBatch.tx Sample.platform Sample.lease 6).commit Sample.foreignDb) :=
    ok_commit (by decide +kernel)
  refine ⟨_, hok, by decide +kernel, ⟨by decide +kernel, [], [], by decide +kernel, by decide +kernel⟩, ?_⟩
  rintro ⟨⟨record, hdelivered⟩, -⟩
  have horigins : ∀ row ∈ Sample.foreignDb.libraryOrigins, row.subscriptionId = ⟨1⟩ := by decide +kernel
  exact absurd (congrArg SubscriptionId.uuid (horigins _ hdelivered)) (show ¬ 2 = 1 by decide)

end Inoreader
