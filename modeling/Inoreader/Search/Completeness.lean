import Inoreader.Lib.Offsets
import Inoreader.Search.Isolation

/-!
# What following the offsets lists

Page after page, a search lists what the account can find once each. Its order within a rank compares the texts of two
formats of time, so it is the order of the instants exactly when these texts compare like them: they do not for an
article and a page of one day, and not for articles of one second of which one text continues the other.
-/

namespace Inoreader
open Lib

section
variable (P : SearchPlatform) {limits : SearchLimits} (q : SearchRequest limits) (db : SearchDb) (owner : AccountId)

/-- The text has the query in it, in any case. -/
def searchContains (text : String) : Prop := lowerText P q.query <:+: lowerText P text

/-- The articles and pages that a search is for. -/
def SearchDb.Finds : SearchTarget → Prop
  | .news w a =>
    q.kind ≠ .wiki ∧ ∃ article workspace, db.articles.lookup (w, a) = some article ∧
      db.workspaces.lookup w = some workspace ∧ workspace.owner = owner ∧
      (∀ s, q.subscription = some s → ∃ o ∈ db.originRows, o.workspaceId = w ∧ o.articleId = a ∧ o.subscriptionId = s) ∧
      (searchContains P q article.key.title ∨ (∃ d, article.key.description = some d ∧ searchContains P q d) ∨
        ∃ o ∈ db.originRows, o.workspaceId = w ∧ o.articleId = a ∧
          ∃ t, db.searchContent.lookup o.sourceRecordId = some t ∧ searchContains P q t)
  | .wiki ns p =>
    q.kind ≠ .news ∧ ∃ page, db.pages.lookup (ns, p) = some page ∧ page.deleted = false ∧
      (∀ n, q.namespace = some n → n = ns) ∧ db.canRead owner ns = true ∧
      (searchContains P q page.name ∨ searchContains P q page.markdown)

/-- When an article arrived, when a page was changed. -/
def SearchDb.instant : SearchTarget → Option DateTime
  | .news w a => (db.articles.lookup (w, a)).map (·.firstArrivedAt)
  | .wiki ns p => (db.pages.lookup (ns, p)).map (·.updatedAt)

/-- The second target is the later one. -/
def SearchDb.IsLater (a b : SearchTarget) : Prop := ∃ s t, db.instant a = some s ∧ db.instant b = some t ∧ s < t

/-- The page at an offset, if it can be asked for and is answered. -/
def searchFrom (offset : Nat) : Option (List SearchHit × Bool) :=
  if offset < 2 ^ 32 then
    match search P { q with offset := UInt32.ofNat offset } db owner with
    | .ok page => some (page.items, page.hasMore)
    | .error _ => none
  else none

/-- The search is literal; the pages end, list what it is for once each, and the latest first within a rank. -/
structure SearchComplete : Prop where
  literal : ∀ text, SearchDb.ilike P q text = true ↔ searchContains P q text
  pages : ∃ pages, Offsets.Follows limits.pageSize (searchFrom P q db owner) 0 pages ∧
    (pages.flatten.map (·.target)).Nodup ∧ (∀ t, t ∈ pages.flatten.map (·.target) ↔ db.Finds P q owner t) ∧
    pages.flatten.Pairwise fun a b =>
      searchRank P q a.title = searchRank P q b.title → ¬ db.IsLater a.target b.target

/-- The excerpts and the offsets fit into their types, and of two hits of one rank the later one is sorted first. -/
structure SearchOrdinary : Prop where
  excerpts : ∀ row ∈ db.hits P owner q,
    excerptStart P q ((db.body P q row.target).getD row.text) + limits.excerptCharacters < 2 ^ 31
  offsets : Offsets.lastOffset limits.pageSize (db.hits P owner q).length < 2 ^ 32
  stamps : ∀ a ∈ db.hits P owner q, ∀ b ∈ db.hits P owner q, searchRank P q a.title = searchRank P q b.title →
    db.IsLater a.target b.target → OrderBy.before (searchColumns P q) b a = true

end

namespace SearchDb
variable {P : SearchPlatform} {limits : SearchLimits} {q : SearchRequest limits} {db : SearchDb} {owner : AccountId}

/-! ## Matching -/

theorem ilike_iff (text : String) : ilike P q text = true ↔ searchContains P q text :=
  Like.isILike_contains P.lower_special q.query.toList text.toList

theorem any_ilike_iff (text : Option String) :
    text.any (ilike P q) = true ↔ ∃ t, text = some t ∧ searchContains P q t := by
  cases text with
  | none => simp
  | some t => simp [ilike_iff]

theorem inSubscription_iff {key : WorkspaceId × ArticleId} : db.inSubscription q key = true ↔
    ∀ s, q.subscription = some s →
      ∃ o ∈ db.originRows, o.workspaceId = key.1 ∧ o.articleId = key.2 ∧ o.subscriptionId = s := by
  unfold inSubscription
  cases q.subscription with
  | none => simp
  | some s => simp [and_assoc]

/-- A target has a row exactly if the search is for it. -/
theorem rowOf_isSome_iff {target : SearchTarget} :
    (∃ row, db.rowOf P owner q target = some row) ↔ db.Finds P q owner target := by
  cases target with
  | news w a =>
    unfold rowOf Finds
    dsimp only
    have hmatch : ∀ article, db.articles.lookup (w, a) = some article → (db.articleMatches P q (w, a) ↔
        (searchContains P q article.key.title ∨ (∃ d, article.key.description = some d ∧ searchContains P q d) ∨
          ∃ o ∈ db.originRows, o.workspaceId = w ∧ o.articleId = a ∧
            ∃ t, db.searchContent.lookup o.sourceRecordId = some t ∧ searchContains P q t)) := by
      intro article harticle
      unfold articleMatches
      simp only [harticle, Option.some.injEq, exists_eq_left', ilike_iff, any_ilike_iff, Prod.mk.injEq, or_assoc,
        and_assoc]
    constructor
    · rintro ⟨row, hrow⟩
      split_ifs at hrow with hcond
      obtain ⟨article, workspace, harticle, hworkspace, howner, hsub, -⟩ := newsRow_eq_some.1 hrow
      exact ⟨hcond.1, article, workspace, harticle, hworkspace, howner, inSubscription_iff.1 hsub,
        (hmatch article harticle).1 hcond.2⟩
    · rintro ⟨hkind, article, workspace, harticle, hworkspace, howner, hsub, h⟩
      exact ⟨_, (if_pos ⟨hkind, (hmatch article harticle).2 h⟩).trans
        (newsRow_eq_some.2 ⟨article, workspace, harticle, hworkspace, howner, inSubscription_iff.2 hsub, rfl⟩)⟩
  | wiki ns p =>
    unfold rowOf Finds
    dsimp only
    constructor
    · rintro ⟨row, hrow⟩
      split_ifs at hrow with hkind
      obtain ⟨page, hpage, hrow⟩ := Option.bind_eq_some_iff.1 hrow
      obtain ⟨_, _, hdeleted, hscope, hread, hmatch, -⟩ := wikiRow_eq_some.1 hrow
      simp only [ilike_iff] at hmatch
      refine ⟨hkind, page, hpage, hdeleted, ?_, hread, hmatch⟩
      intro n hn
      rw [hn] at hscope
      exact of_decide_eq_true hscope
    · rintro ⟨hkind, page, hpage, hdeleted, hscope, hread, hmatch⟩
      obtain ⟨row, hrow, -⟩ := (Option.any_eq_true ..).1 hread
      simp only [← ilike_iff] at hmatch
      have hall : q.namespace.all (· = ns) = true := by
        cases hq : q.namespace with
        | none => rfl
        | some n => exact decide_eq_true (hscope n hq)
      exact ⟨_, (if_pos hkind).trans (Option.bind_eq_some_iff.2 ⟨page, hpage,
        wikiRow_eq_some.2 ⟨row, hrow, hdeleted, hall, hread, hmatch, rfl⟩⟩)⟩

theorem mem_targets {target : SearchTarget} :
    target ∈ (db.hits P owner q).map (·.target) ↔ db.Finds P q owner target := by
  rw [← rowOf_isSome_iff, List.mem_map]
  constructor
  · rintro ⟨row, hrow, rfl⟩
    exact ⟨row, mem_hits.1 hrow⟩
  · rintro ⟨row, hrow⟩
    have htarget := target_of_rowOf hrow
    exact ⟨row, mem_hits.2 (by rwa [htarget]), htarget⟩

/-! ## Order -/

/-- A sorted list shows later hits first exactly if the columns put them first. -/
theorem pairwise_sorted_iff : (db.sorted P q owner).Pairwise (fun a b =>
      searchRank P q a.title = searchRank P q b.title → ¬ db.IsLater a.target b.target) ↔
    ∀ a ∈ db.hits P owner q, ∀ b ∈ db.hits P owner q, searchRank P q a.title = searchRank P q b.title →
      db.IsLater a.target b.target → OrderBy.before (searchColumns P q) b a = true := by
  have hsorted : (db.sorted P q owner).Pairwise fun a b => OrderBy.before (searchColumns P q) a b = true :=
    OrderBy.sort_pairwise searchColumns_column _
  have hmem : ∀ {row}, row ∈ db.sorted P q owner ↔ row ∈ db.hits P owner q := (OrderBy.sort_perm _ _).mem_iff
  constructor
  · intro h a ha b hb hrank hlater
    have hne : a ≠ b := by
      rintro rfl
      obtain ⟨s, t, hs, ht, hlt⟩ := hlater
      rw [hs] at ht
      cases ht
      exact lt_irrefl _ hlt
    rcases OrderBy.pairwise_or (hsorted.and h) (hmem.2 ha) (hmem.2 hb) hne with hab | hba
    · exact absurd hlater (hab.2 hrank)
    · exact hba.1
  · intro h
    refine hsorted.imp_of_mem fun {a b} ha hb hab hrank hlater => ?_
    have hba := h a (hmem.1 ha) b (hmem.1 hb) hrank hlater
    have hsame := separates_hits a (hmem.1 ha) b (hmem.1 hb) (OrderBy.same_of_before hab hba)
    obtain ⟨s, t, hs, ht, hlt⟩ := hlater
    rw [hsame, ht] at hs
    cases hs
    exact lt_irrefl _ hlt

/-! ## Pages -/

theorem not_refused (h : db.inScope q owner) :
    (q.namespace.any fun ns => !db.canRead owner ns) = false ∧
      (q.subscription.any fun id => !db.ownsSubscription owner id) = false := by
  constructor
  · cases hq : q.namespace with
    | none => rfl
    | some ns => simp [h.1 ns hq]
  · cases hq : q.subscription with
    | none => rfl
    | some id => simp [h.2 id hq]

/-- The pages of a search are cut from its sorted rows. -/
theorem searchFrom_eq (hscope : db.inScope q owner) (hquery : q.query ≠ "") :
    searchFrom P q db owner =
      Offsets.fetch limits.pageSize (2 ^ 32) (FoundRow.finish P q db) (db.sorted P q owner) := by
  funext offset
  unfold searchFrom Offsets.fetch
  by_cases hoffset : offset < 2 ^ 32
  · rw [if_pos hoffset, if_pos hoffset]
    have hto : (UInt32.ofNat offset).toNat = offset := UInt32.toNat_ofNat_of_lt' hoffset
    obtain ⟨hns, hsub⟩ := not_refused hscope
    unfold search
    dsimp only
    rw [namespace_refused, if_neg (by rw [hns]; exact Bool.false_ne_true),
      if_neg (by rw [hsub]; exact Bool.false_ne_true), if_neg hquery, hto]
    have hrows : (((db.sorted P { q with offset := UInt32.ofNat offset } owner).drop offset).take (limits.pageSize + 1)).mapM
        (FoundRow.finish P { q with offset := UInt32.ofNat offset } db) =
      (((db.sorted P q owner).drop offset).take (limits.pageSize + 1)).mapM (FoundRow.finish P q db) := rfl
    rw [hrows]
    cases (((db.sorted P q owner).drop offset).take (limits.pageSize + 1)).mapM (FoundRow.finish P q db) with
    | none => rfl
    | some rows => rfl
  · rw [if_neg hoffset, if_neg hoffset]

theorem finish_isSome_iff {row : FoundRow} : (FoundRow.finish P q db row).isSome = true ↔
    excerptStart P q ((db.body P q row.target).getD row.text) + limits.excerptCharacters < 2 ^ 31 := by
  unfold FoundRow.finish excerpt
  rw [Option.isSome_map]
  by_cases h : 2 ^ 31 ≤ excerptStart P q ((db.body P q row.target).getD row.text) + limits.excerptCharacters
  · rw [if_pos h]
    exact iff_of_false Bool.false_ne_true (not_lt.2 h)
  · rw [if_neg h]
    exact iff_of_true rfl (not_le.1 h)

theorem mapM_isSome {α β : Type} {f : α → Option β} {l : List α} :
    (∃ bs, l.mapM f = some bs) ↔ ∀ a ∈ l, (f a).isSome = true := by
  induction l with
  | nil => simp
  | cons a l ih =>
    rw [List.forall_mem_cons, ← ih]
    constructor
    · rintro ⟨bs, h⟩
      rw [List.mapM_cons] at h
      obtain ⟨b, hb, h⟩ := Option.bind_eq_some_iff.1 h
      obtain ⟨bs, hbs, -⟩ := Option.bind_eq_some_iff.1 h
      exact ⟨by rw [hb]; rfl, bs, hbs⟩
    · rintro ⟨ha, bs, hbs⟩
      obtain ⟨b, hb⟩ := Option.isSome_iff_exists.1 ha
      exact ⟨b :: bs, by rw [List.mapM_cons, hb, hbs]; rfl⟩

/-- A finished list has the data that finishing a row keeps. -/
theorem map_of_mapM {α β γ : Type} {f : α → Option β} (g : α → γ) (g' : β → γ) {l : List α} {bs : List β}
    (hkeep : ∀ a b, f a = some b → g' b = g a) (h : l.mapM f = some bs) : bs.map g' = l.map g := by
  induction l generalizing bs with
  | nil =>
    cases h
    rfl
  | cons a l ih =>
    rw [List.mapM_cons] at h
    obtain ⟨b, hb, h⟩ := Option.bind_eq_some_iff.1 h
    obtain ⟨bs', hbs, h⟩ := Option.bind_eq_some_iff.1 h
    cases h
    rw [List.map_cons, List.map_cons, hkeep a b hb, ih hbs]

theorem finish_eq_some {row : FoundRow} {hit : SearchHit} (h : FoundRow.finish P q db row = some hit) :
    (hit.target, hit.title) = (row.target, row.title) := by
  obtain ⟨_, _, rfl⟩ := Option.map_eq_some_iff.1 h
  rfl

/-- What is listed when all rows are finished. -/
theorem listed_iff {hs : List SearchHit} (h : (db.sorted P q owner).mapM (FoundRow.finish P q db) = some hs) :
    (hs.map (·.target)).Nodup ∧ (∀ t, t ∈ hs.map (·.target) ↔ db.Finds P q owner t) ∧
      ((hs.Pairwise fun a b => searchRank P q a.title = searchRank P q b.title → ¬ db.IsLater a.target b.target) ↔
        (db.sorted P q owner).Pairwise fun a b =>
          searchRank P q a.title = searchRank P q b.title → ¬ db.IsLater a.target b.target) := by
  have hboth := map_of_mapM (fun row : FoundRow => (row.target, row.title))
    (fun hit : SearchHit => (hit.target, hit.title)) (fun _ _ hrow => finish_eq_some hrow) h
  have htargets : hs.map (·.target) = (db.sorted P q owner).map (·.target) := by
    have he := congrArg (List.map Prod.fst) hboth
    rwa [List.map_map, List.map_map] at he
  have hperm := (OrderBy.sort_perm (searchColumns P q) (db.hits P owner q)).map fun row : FoundRow => row.target
  refine ⟨?_, fun t => ?_, ?_⟩
  · rw [htargets]
    exact hperm.nodup_iff.2 nodup_targets
  · rw [htargets, ← mem_targets]
    exact hperm.mem_iff
  · have hpairs := congrArg (List.Pairwise fun x y : SearchTarget × String =>
      searchRank P q x.2 = searchRank P q y.2 → ¬ db.IsLater x.1 y.1) hboth
    rwa [List.pairwise_map, List.pairwise_map, eq_iff_iff] at hpairs

end SearchDb

section
variable {P : SearchPlatform} {limits : SearchLimits} {q : SearchRequest limits} {db : SearchDb} {owner : AccountId}

theorem searchOrdinary_of_complete (hscope : db.inScope q owner) (hquery : q.query ≠ "")
    (h : SearchComplete P q db owner) : SearchOrdinary P q db owner := by
  have hsize : 0 < limits.pageSize := Nat.pos_of_ne_zero fun hzero => limits.valid (.inr (.inl hzero))
  have hperm := OrderBy.sort_perm (searchColumns P q) (db.hits P owner q)
  obtain ⟨pages, hpages, -, -, hlatest⟩ := h.pages
  rw [SearchDb.searchFrom_eq hscope hquery] at hpages
  obtain ⟨hall, hlast⟩ := hpages.sound hsize
  rw [List.drop_zero] at hall
  refine ⟨fun row hrow => ?_, ?_, ?_⟩
  · exact SearchDb.finish_isSome_iff.1 (SearchDb.mapM_isSome.1 ⟨_, hall⟩ row (hperm.mem_iff.2 hrow))
  · rwa [Nat.zero_add, Nat.sub_zero, show (db.sorted P q owner).length = _ from hperm.length_eq] at hlast
  · exact SearchDb.pairwise_sorted_iff.1 ((SearchDb.listed_iff hall).2.2.1 hlatest)

/-- The stamp of a hit is the text of its instant, in the format of its kind. -/
theorem updatedAt_of_mem {row : FoundRow} (h : row ∈ db.hits P owner q) {t : DateTime}
    (ht : db.instant row.target = some t) :
    row.updatedAt = if row.target.kindOrder = 0 then Calendar.rfc3339 t else Calendar.timestamptz t := by
  have hrow := SearchDb.mem_hits.1 h
  generalize htarget : row.target = target at hrow ht
  cases target with
  | news w a =>
    unfold SearchDb.rowOf at hrow
    dsimp only at hrow
    split_ifs at hrow
    obtain ⟨article, _, harticle, _, _, _, rfl⟩ := SearchDb.newsRow_eq_some.1 hrow
    unfold SearchDb.instant at ht
    dsimp only at ht
    rw [harticle] at ht
    cases ht
    rfl
  | wiki ns p =>
    unfold SearchDb.rowOf at hrow
    dsimp only at hrow
    split_ifs at hrow
    obtain ⟨page, hpage, hrow⟩ := Option.bind_eq_some_iff.1 hrow
    obtain ⟨_, _, _, _, _, _, rfl⟩ := SearchDb.wikiRow_eq_some.1 hrow
    unfold SearchDb.instant at ht
    dsimp only at ht
    rw [hpage] at ht
    cases ht
    rfl

/-- Sorted by code points, an article comes before every page of its rank and day, the later ones too. -/
theorem not_searchComplete_of_same_day (hcode : ∀ a b, P.textLe a b = decide (a ≤ b)) (hscope : db.inScope q owner)
    (hquery : q.query ≠ "") {a b : FoundRow} (ha : a ∈ db.hits P owner q) (hb : b ∈ db.hits P owner q)
    (hrank : searchRank P q a.title = searchRank P q b.title) (hnews : a.target.kindOrder = 0)
    (hwiki : b.target.kindOrder = 1) {s t : DateTime} (hs : db.instant a.target = some s)
    (ht : db.instant b.target = some t) (hlt : s < t) (hday : t / Calendar.nanosPerDay = s / Calendar.nanosPerDay)
    (hyear : 0 < Calendar.year t ∧ Calendar.year t ≤ 9999) : ¬ SearchComplete P q db owner := by
  intro h
  have hbefore := (searchOrdinary_of_complete hscope hquery h).stamps a ha b hb hrank ⟨s, t, hs, ht, hlt⟩
  have hstamp := (OrderBy.before_cons.1 hbefore).2 (decide_eq_true (le_of_eq hrank))
  have hle := (OrderBy.before_cons.1 hstamp).1
  rw [hcode, updatedAt_of_mem ha hs, updatedAt_of_mem hb ht, if_pos hnews, if_neg (by rw [hwiki]; decide)] at hle
  exact absurd (Calendar.timestamptz_lt_rfc3339 hday hyear) (String.not_lt.2 (of_decide_eq_true hle))

end

namespace Sample

/-- An article of 1 a.m. and a page of the same name that was changed at the given time. -/
def stampedDb (updatedAt : DateTime) : SearchDb where
  workspaces := (∅ : Table WorkspaceId SearchWorkspace).insert ⟨1⟩ ⟨⟨1⟩, "Home"⟩
  articles := (∅ : Table (WorkspaceId × ArticleId) Article).insert (⟨1⟩, ⟨1⟩) (searchArticle 1 "X" 1774314000000000000)
  namespaces := (∅ : Table Nat WikiNamespace).insert 5 ⟨⟨1⟩, "Notes"⟩
  pages := (∅ : Table (Nat × Nat) WikiPage).insert (5, 9)
    { parent := none, «namespace» := 5, id := 9, revision := 1, name := "X", markdown := "", deleted := false,
      author := ⟨1⟩, updatedAt }

/-- 11 p.m. of the same day. -/
def lateEvening : DateTime := 1774393200000000000

def nextEvening : DateTime := lateEvening + 86400000000000

def stampedArticle : FoundRow where
  target := .news ⟨1⟩ ⟨1⟩
  title := "X"
  context := "Home"
  text := ""
  updatedAt := "2026-03-24T01:00:00Z"

def stampedPage (updatedAt : String) : FoundRow where
  target := .wiki 5 9
  title := "X"
  context := "Notes"
  text := ""
  updatedAt

theorem hits_lateEvening : (stampedDb lateEvening).hits searchPlatform ⟨1⟩ searchAll =
    [stampedArticle, stampedPage "2026-03-24 23:00:00+00"] := by
  decide +kernel

theorem hits_nextEvening : (stampedDb nextEvening).hits searchPlatform ⟨1⟩ searchAll =
    [stampedArticle, stampedPage "2026-03-25 23:00:00+00"] := by
  decide +kernel

theorem inScope_stampedDb (updatedAt : DateTime) : (stampedDb updatedAt).inScope searchAll ⟨1⟩ := by
  constructor
  · intro ns h
    cases (show (none : Option Nat) = some ns from h)
  · intro id h
    cases (show (none : Option SubscriptionId) = some id from h)

end Sample

open Sample

end Inoreader
