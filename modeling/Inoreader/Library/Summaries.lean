import Mathlib.Data.List.Dedup
import Mathlib.Data.List.Sort
import Inoreader.Lib.Except
import Inoreader.Lib.Lists
import Inoreader.Library.Presentation

/-!
# Lists and single presentations agree

The list takes the origins of all its articles from one query and groups them; each article gets the rows that a query
for it alone returns, in the same order.
-/

namespace Inoreader
open Lib

section
variable {α β κ ν ρ ε σ : Type}

/-- An element that stands before all others is inserted at the front. -/
theorem orderedInsert_front {r : α → α → Prop} [DecidableRel r] {a : α} {l : List α} (h : ∀ b ∈ l, r a b) :
    l.orderedInsert r a = a :: l := by
  cases l with
  | nil => rfl
  | cons b l => exact List.orderedInsert_cons_of_le r l (h b List.mem_cons_self)

theorem filter_orderedInsert (r : α → α → Prop) [DecidableRel r] [IsTrans α r] (p : α → Bool) (a : α) {l : List α}
    (hl : l.Pairwise r) :
    (l.orderedInsert r a).filter p = if p a then (l.filter p).orderedInsert r a else l.filter p := by
  induction l with
  | nil => cases ha : p a <;> simp [ha]
  | cons b l ih =>
    rw [List.pairwise_cons] at hl
    by_cases hab : r a b
    · have hfront : ∀ c ∈ (b :: l).filter p, r a c := by
        intro c hc
        rcases List.mem_cons.1 (List.mem_filter.1 hc).1 with rfl | hc
        · exact hab
        · exact IsTrans.trans a b c hab (hl.1 c hc)
      rw [List.orderedInsert_cons_of_le r l hab, List.filter_cons, orderedInsert_front hfront]
    · rw [List.orderedInsert_of_not_le r l hab, List.filter_cons, List.filter_cons, ih hl.2]
      cases hb : p b with
      | false => rfl
      | true =>
        cases ha : p a with
        | false => rfl
        | true => exact (List.orderedInsert_of_not_le r _ hab).symm

/-- A stable sort keeps the order of what is left. -/
theorem filter_insertionSort (r : α → α → Prop) [DecidableRel r] [IsTrans α r] [Std.Total r] (p : α → Bool)
    (l : List α) : (l.insertionSort r).filter p = (l.filter p).insertionSort r := by
  induction l with
  | nil => rfl
  | cons a l ih =>
    rw [List.insertionSort_cons, filter_orderedInsert r p a (List.pairwise_insertionSort r l), ih, List.filter_cons]
    cases ha : p a with
    | false => rfl
    | true => rfl

theorem flatMap_if {p : α → Prop} [DecidablePred p] (f : α → List β) (l : List α) :
    (l.flatMap fun a => if p a then f a else []) = (l.filter p).flatMap f := by
  induction l with
  | nil => rfl
  | cons a l ih =>
    rw [List.flatMap_cons, List.filter_cons, ih]
    by_cases ha : p a
    · simp only [if_pos ha, decide_eq_true ha, if_true, List.flatMap_cons]
    · simp only [if_neg ha, decide_eq_false ha, Bool.false_eq_true, if_false, List.nil_append]

theorem lookup_filterMap_key [DecidableEq κ] (f : κ → Option ρ) (g : ρ → ν) (l : List κ) (k : κ) :
    (l.filterMap fun j => (f j).map fun row => (j, g row)).lookup k = if k ∈ l then (f k).map g else none := by
  induction l with
  | nil => rfl
  | cons j l ih =>
    rw [List.filterMap_cons]
    cases hj : f j with
    | none =>
      rw [Option.map_none]
      dsimp only
      rw [ih]
      by_cases hk : k = j
      · rw [hk, hj]
        simp
      · simp [hk]
    | some v =>
      rw [Option.map_some]
      dsimp only
      rw [List.lookup_cons, ih]
      by_cases hk : k = j
      · simp [hk, hj]
      · simp [hk, beq_eq_false_iff_ne.2 hk]

theorem lookup_filter_ne [DecidableEq κ] {j k : κ} (l : List (κ × ν)) (h : k ≠ j) :
    (l.filter (·.1 ≠ j)).lookup k = l.lookup k := by
  induction l with
  | nil => rfl
  | cons e l ih =>
    obtain ⟨i, v⟩ := e
    rw [List.filter_cons, List.lookup_cons]
    by_cases hi : i = j
    · subst hi
      simp only [ne_eq, not_true_eq_false, decide_false, Bool.false_eq_true, if_false, beq_eq_false_iff_ne.2 h]
      exact ih
    · simp only [ne_eq, hi, not_false_eq_true, decide_true, if_true, List.lookup_cons, ih]

/-- A loop with a check of every element succeeds if the checks and the loop do. -/
theorem foldlM_check_ok {f : σ → α → Except ε σ} {check : α → Except ε Unit} {l : List α} {s t : σ} :
    l.foldlM (fun s a => do
      let s ← f s a
      check a
      pure s) s = .ok t ↔ (∀ a ∈ l, check a = .ok ()) ∧ l.foldlM f s = .ok t := by
  induction l generalizing s with
  | nil => simp
  | cons a l ih =>
    rw [List.foldlM_cons, List.foldlM_cons, List.forall_mem_cons]
    constructor
    · intro h
      obtain ⟨s', hstep, hrest⟩ := except_bind_ok.1 h
      obtain ⟨s₁, hs₁, hstep⟩ := except_bind_ok.1 hstep
      obtain ⟨u, hcheck, hstep⟩ := except_bind_ok.1 hstep
      cases hstep
      obtain ⟨hchecks, hloop⟩ := ih.1 hrest
      exact ⟨⟨hcheck, hchecks⟩, except_bind_ok.2 ⟨s', hs₁, hloop⟩⟩
    · rintro ⟨⟨hcheck, hchecks⟩, h⟩
      obtain ⟨s₁, hs₁, hloop⟩ := except_bind_ok.1 h
      refine except_bind_ok.2 ⟨s₁, ?_, ih.2 ⟨hchecks, hloop⟩⟩
      exact except_bind_ok.2 ⟨s₁, hs₁, except_bind_ok.2 ⟨(), hcheck, rfl⟩⟩

end

section
variable {parseUrl : String → Option Url} {policy : ReasonPolicy}
  {evidence : ContentManifestPointer → List PublicationEvidence} {w : WorkspaceId} {db : Db} {articles : List Article}

/-- What a list shows of an article whose rows and method are these. -/
def Summary (evidence : ContentManifestPointer → List PublicationEvidence) (rows : List PresentationRow)
    (method : Option ReadMethod) (article : Article) (summary : ArticlePresentation) : Prop :=
  ∃ facts, rows.foldlM (noteOrigin evidence) {} = .ok facts ∧
    facts.present article method none (!facts.manifests.isEmpty) = summary

theorem presentation_ok {a : Article} {v : ArticlePresentation} :
    presentation parseUrl policy evidence w a false db = .ok v ↔
      (∀ row ∈ db.presentationRows w [a.id], checkOrigin parseUrl policy w row = .ok ()) ∧
      Summary evidence (db.presentationRows w [a.id]) ((db.readMethods w [a.id]).lookup a.id) a v := by
  unfold presentation Summary
  rw [except_bind_ok]
  simp only [foldlM_check_ok]
  constructor
  · rintro ⟨facts, ⟨hchecks, hfacts⟩, hrest⟩
    exact ⟨hchecks, facts, hfacts, Except.ok.inj hrest⟩
  · rintro ⟨hchecks, facts, hfacts, rfl⟩
    exact ⟨facts, ⟨hchecks, hfacts⟩, rfl⟩

theorem presentSummaries_ok {rowsOf : Article → List PresentationRow} {methodOf : Article → Option ReadMethod}
    {rows : List PresentationRow} {methods : List (ArticleId × ReadMethod)} {l : List ArticlePresentation}
    (hids : (articles.map (·.id)).Nodup) (hrows : ∀ a ∈ articles, rows.filter (·.articleId = a.id) = rowsOf a)
    (hmethods : ∀ a ∈ articles, methods.lookup a.id = methodOf a) :
    presentSummaries evidence rows methods articles = .ok l ↔
      List.Forall₂ (fun a v => Summary evidence (rowsOf a) (methodOf a) a v) articles l := by
  induction articles generalizing rows methods l with
  | nil => simp [presentSummaries, eq_comm]
  | cons a articles ih =>
    rw [List.map_cons, List.nodup_cons] at hids
    obtain ⟨hself, hrest⟩ := List.forall_mem_cons.1 hrows
    obtain ⟨hmethod, hmethods⟩ := List.forall_mem_cons.1 hmethods
    -- what is taken out belongs to this article alone
    have hother : ∀ b ∈ articles, b.id ≠ a.id := fun b hb he => hids.1 (he ▸ List.mem_map_of_mem hb)
    have hrest' : ∀ b ∈ articles, (rows.filter (·.articleId ≠ a.id)).filter (·.articleId = b.id) = rowsOf b := by
      intro b hb
      rw [filter_key_rest PresentationRow.articleId, if_neg (hother b hb), hrest b hb]
    have hmethods' : ∀ b ∈ articles, (if a.state.read then methods.filter (·.1 ≠ a.id) else methods).lookup b.id =
        methodOf b := by
      intro b hb
      rw [← hmethods b hb]
      split
      · exact lookup_filter_ne methods (hother b hb)
      · rfl
    rw [presentSummaries, except_bind_ok, List.forall₂_cons_left_iff, hself, hmethod]
    constructor
    · rintro ⟨facts, hfacts, h⟩
      obtain ⟨summaries, hsummaries, h⟩ := except_bind_ok.1 h
      cases h
      exact ⟨_, summaries, ⟨facts, hfacts, rfl⟩, (ih hids.2 hrest' hmethods').1 hsummaries, rfl⟩
    · rintro ⟨v, summaries, ⟨facts, hfacts, rfl⟩, hsummaries, rfl⟩
      exact ⟨facts, hfacts, except_bind_ok.2 ⟨summaries, (ih hids.2 hrest' hmethods').2 hsummaries, rfl⟩⟩

theorem before_iff {x y : PresentationRow} : x.before y = true ↔ (x.present = true ∧ y.present = false) ∨
    (x.present = y.present ∧ x.subscriptionId.uuid ≤ y.subscriptionId.uuid) := by
  simp [PresentationRow.before]

instance : Std.Total fun x y : PresentationRow => x.before y = true := by
  refine ⟨fun x y => ?_⟩
  rw [before_iff, before_iff]
  cases x.present <;> cases y.present <;> simp [Nat.le_total]

instance : IsTrans PresentationRow fun x y => x.before y = true := by
  refine ⟨fun x y z hxy hyz => ?_⟩
  rw [before_iff] at hxy hyz ⊢
  rcases hxy with ⟨hx, hy⟩ | ⟨hxy, hle⟩
  · refine .inl ⟨hx, ?_⟩
    rcases hyz with ⟨hy', -⟩ | ⟨hyz, -⟩
    · rw [hy] at hy'
      cases hy'
    · exact hyz.symm.trans hy
  · rcases hyz with ⟨hy, hz⟩ | ⟨hyz, hle'⟩
    · exact .inl ⟨hxy.trans hy, hz⟩
    · exact .inr ⟨hxy.trans hyz, hle.trans hle'⟩

theorem presentationRows_article {ids : List ArticleId} {i : ArticleId} (hi : i ∈ ids) :
    (db.presentationRows w ids).filter (·.articleId = i) = db.presentationRows w [i] := by
  unfold Db.presentationRows
  rw [filter_insertionSort, List.filter_flatMap]
  congr 1
  -- the rows of an origin are of its article
  have horigin : ∀ o, (db.originRows o).filter (·.articleId = i) = if o.articleId = i then db.originRows o else [] := by
    intro o
    unfold Db.originRows
    split
    · rename_i ho
      exact List.filter_eq_self.2 fun row hrow => by
        obtain ⟨d, -, rfl⟩ := List.mem_map.1 hrow
        exact decide_eq_true ho
    · rename_i ho
      refine List.filter_eq_nil_iff.2 fun row hrow => ?_
      obtain ⟨d, -, rfl⟩ := List.mem_map.1 hrow
      exact fun h => ho (of_decide_eq_true h)
  simp only [horigin]
  rw [flatMap_if, List.filter_filter]
  congr 1
  refine List.filter_congr fun o _ => ?_
  by_cases ho : o.articleId = i
  · simp [ho, hi]
  · simp [ho]

theorem readMethods_article {ids : List ArticleId} {i : ArticleId} (hi : i ∈ ids) :
    (db.readMethods w ids).lookup i = (db.readMethods w [i]).lookup i := by
  unfold Db.readMethods
  have h := lookup_filterMap_key (fun i => (List.insertionSort (fun x y => y.1.2 ≤ x.1.2)
    (db.articleReadEvents.rows.filter fun row => row.1.1 = (w, i))).head?) (fun row => row.2)
  rw [h, h, if_pos (List.mem_dedup.2 hi), if_pos (by simp)]

end

/-! ## The first post -/

namespace Sample

def firstSummary : ArticlePresentation :=
  { article := firstArticle, readMethod := none, publication := [], subscriptionIds := [⟨1⟩], subscriptionTitles := [""]
    safeHtml := none, descriptionMediaType := some "text/html", fullTextStatus := .pending, failureReason := none }

/-- What is left for the article when its rows were taken. -/
def emptySummary : ArticlePresentation :=
  { firstSummary with subscriptionIds := [], subscriptionTitles := [], descriptionMediaType := none }

end Sample

open Sample

end Inoreader
