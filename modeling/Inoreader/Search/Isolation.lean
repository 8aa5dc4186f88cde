import Inoreader.Search.Query

/-!
# Search does not leak

The articles of all accounts are candidates, and records are shared. What an account finds is a function of its own rows
nevertheless: a hit is the row of its target, and that row reads nothing else.
-/

namespace Inoreader
open Lib

namespace SearchDb
variable (P : SearchPlatform) {limits : SearchLimits} (db db' : SearchDb) (owner : AccountId) (q : SearchRequest limits)

def ownsWorkspace (w : WorkspaceId) : Bool := (db.workspaces.lookup w).any fun row => row.owner = owner

/-- The title, the description or the text of a record matches. -/
def articleMatches (key : WorkspaceId × ArticleId) : Prop :=
  (∃ article, db.articles.lookup key = some article ∧
    (ilike P q article.key.title = true ∨ article.key.description.any (ilike P q) = true)) ∨
    ∃ o ∈ db.originRows, (o.workspaceId, o.articleId) = key ∧
      (db.searchContent.lookup o.sourceRecordId).any (ilike P q) = true

open Classical in
/-- The row of a target, if the account finds it. -/
noncomputable def rowOf : SearchTarget → Option FoundRow
  | .news w a => if q.kind ≠ .wiki ∧ db.articleMatches P q (w, a) then db.newsRow owner q (w, a) else none
  | .wiki ns p =>
    if q.kind ≠ .news then (db.pages.lookup (ns, p)).bind (db.wikiRow P owner q (ns, p)) else none

/-- Two databases with the same rows of an account: its workspaces with their articles, origins, contents and
subscriptions, and the namespaces that it owns or is a member of. -/
structure Agree : Prop where
  workspaces : ∀ w row, row.owner = owner → (db.workspaces.lookup w = some row ↔ db'.workspaces.lookup w = some row)
  articles : ∀ key, db.ownsWorkspace owner key.1 = true → db.articles.lookup key = db'.articles.lookup key
  origins : ∀ o, db.ownsWorkspace owner o.workspaceId = true → (o ∈ db.originRows ↔ o ∈ db'.originRows)
  contents : ∀ o ∈ db.originRows, db.ownsWorkspace owner o.workspaceId = true →
    db.searchContent.lookup o.sourceRecordId = db'.searchContent.lookup o.sourceRecordId
  subscriptions : ∀ s w, db.ownsWorkspace owner w = true →
    (db.subscriptions.lookup s = some w ↔ db'.subscriptions.lookup s = some w)
  readable : ∀ ns, db.canRead owner ns = db'.canRead owner ns
  namespaces : ∀ ns, db.canRead owner ns = true → db.namespaces.lookup ns = db'.namespaces.lookup ns
  pages : ∀ key, db.canRead owner key.1 = true → db.pages.lookup key = db'.pages.lookup key

variable {P db db' owner q} {key : WorkspaceId × ArticleId} {row : FoundRow} {target : SearchTarget}

/-! ## Hits are rows of targets -/

theorem mem_candidates : key ∈ db.candidates P q ↔ q.kind ≠ .wiki ∧ db.articleMatches P q key := by
  unfold candidates
  by_cases hkind : q.kind = .wiki
  · simp [hkind]
  rw [if_neg hkind, List.mem_dedup, List.mem_append, List.mem_append]
  simp only [List.mem_map, List.mem_filter, hkind, ne_eq, not_false_eq_true, true_and]
  constructor
  · rintro ((⟨⟨k, article⟩, ⟨hrow, htitle⟩, rfl⟩ | ⟨⟨k, article⟩, ⟨hrow, hdescription⟩, rfl⟩) | ⟨o, ⟨ho, hcontent⟩, hkey⟩)
    · exact .inl ⟨article, Table.mem_rows.1 hrow, .inl htitle⟩
    · exact .inl ⟨article, Table.mem_rows.1 hrow, .inr hdescription⟩
    · exact .inr ⟨o, ho, hkey, hcontent⟩
  · rintro (⟨article, hrow, htitle | hdescription⟩ | ⟨o, ho, hkey, hcontent⟩)
    · exact .inl (.inl ⟨(key, article), ⟨Table.mem_rows.2 hrow, htitle⟩, rfl⟩)
    · exact .inl (.inr ⟨(key, article), ⟨Table.mem_rows.2 hrow, hdescription⟩, rfl⟩)
    · exact .inr ⟨o, ⟨ho, hcontent⟩, hkey⟩

theorem newsRow_eq_some : db.newsRow owner q key = some row ↔
    ∃ article workspace, db.articles.lookup key = some article ∧ db.workspaces.lookup key.1 = some workspace ∧
      workspace.owner = owner ∧ db.inSubscription q key = true ∧
      row = { target := .news key.1 key.2, title := article.key.title, context := workspace.name,
              text := article.key.description.getD "", updatedAt := Calendar.rfc3339 article.firstArrivedAt } := by
  unfold newsRow
  rw [Option.bind_eq_some_iff]
  constructor
  · rintro ⟨article, harticle, h⟩
    obtain ⟨workspace, hworkspace, h⟩ := Option.bind_eq_some_iff.1 h
    split_ifs at h with hcond
    cases h
    exact ⟨article, workspace, harticle, hworkspace, hcond.1, hcond.2, rfl⟩
  · rintro ⟨article, workspace, harticle, hworkspace, howner, hsub, rfl⟩
    exact ⟨article, harticle, Option.bind_eq_some_iff.2 ⟨workspace, hworkspace, if_pos ⟨howner, hsub⟩⟩⟩

theorem wikiRow_eq_some {key : Nat × Nat} {page : WikiPage} : db.wikiRow P owner q key page = some row ↔
    ∃ ns, db.namespaces.lookup key.1 = some ns ∧ page.deleted = false ∧ q.namespace.all (· = key.1) = true ∧
      db.canRead owner key.1 = true ∧ (ilike P q page.name = true ∨ ilike P q page.markdown = true) ∧
      row = { target := .wiki key.1 key.2, title := page.name, context := ns.name, text := page.markdown,
              updatedAt := Calendar.timestamptz page.updatedAt } := by
  unfold wikiRow
  rw [Option.bind_eq_some_iff]
  constructor
  · rintro ⟨ns, hns, h⟩
    split_ifs at h with hcond
    cases h
    exact ⟨ns, hns, hcond.1, hcond.2.1, hcond.2.2.1, hcond.2.2.2, rfl⟩
  · rintro ⟨ns, hns, hdeleted, hscope, hread, hmatch, rfl⟩
    exact ⟨ns, hns, if_pos ⟨hdeleted, hscope, hread, hmatch⟩⟩

/-- The row of a target is of this target. -/
theorem target_of_rowOf (h : db.rowOf P owner q target = some row) : row.target = target := by
  cases target with
  | news w a =>
    unfold rowOf at h
    dsimp only at h
    split_ifs at h
    obtain ⟨_, _, _, _, _, _, rfl⟩ := newsRow_eq_some.1 h
    rfl
  | wiki ns p =>
    unfold rowOf at h
    dsimp only at h
    split_ifs at h
    obtain ⟨page, -, h⟩ := Option.bind_eq_some_iff.1 h
    obtain ⟨_, _, _, _, _, _, rfl⟩ := wikiRow_eq_some.1 h
    rfl

theorem mem_hits : row ∈ db.hits P owner q ↔ db.rowOf P owner q row.target = some row := by
  unfold hits
  rw [List.mem_append, List.mem_filterMap]
  constructor
  · rintro (⟨key, hkey, hrow⟩ | hrow)
    · have hcond := mem_candidates.1 hkey
      have htarget : row.target = .news key.1 key.2 := by
        obtain ⟨_, _, _, _, _, _, rfl⟩ := newsRow_eq_some.1 hrow
        rfl
      rw [htarget]
      exact (if_pos hcond).trans hrow
    · by_cases hkind : q.kind = .news
      · rw [if_pos hkind] at hrow
        exact absurd hrow List.not_mem_nil
      rw [if_neg hkind] at hrow
      obtain ⟨⟨key, page⟩, hpage, hrow⟩ := List.mem_filterMap.1 hrow
      have htarget : row.target = .wiki key.1 key.2 := by
        obtain ⟨_, _, _, _, _, _, rfl⟩ := wikiRow_eq_some.1 hrow
        rfl
      rw [htarget]
      exact (if_pos hkind).trans (Option.bind_eq_some_iff.2 ⟨page, Table.mem_rows.1 hpage, hrow⟩)
  · intro h
    generalize htarget : row.target = target at h
    cases target with
    | news w a =>
      unfold rowOf at h
      dsimp only at h
      split_ifs at h with hcond
      exact .inl ⟨(w, a), mem_candidates.2 hcond, h⟩
    | wiki ns p =>
      unfold rowOf at h
      dsimp only at h
      split_ifs at h with hkind
      obtain ⟨page, hpage, h⟩ := Option.bind_eq_some_iff.1 h
      right
      rw [if_neg hkind]
      exact List.mem_filterMap.2 ⟨((ns, p), page), Table.mem_rows.2 hpage, h⟩

/-- Every article and every page is found once. -/
theorem nodup_targets : ((db.hits P owner q).map (·.target)).Nodup := by
  have hnews : (((db.candidates P q).filterMap (db.newsRow owner q)).map (·.target)).Nodup := by
    rw [List.map_filterMap]
    refine List.Nodup.filterMap ?_ (by unfold candidates; split <;> simp [List.nodup_dedup])
    intro k k' t ht ht'
    obtain ⟨r, hr, rfl⟩ := Option.map_eq_some_iff.1 ht
    obtain ⟨r', hr', he⟩ := Option.map_eq_some_iff.1 ht'
    obtain ⟨_, _, _, _, _, _, rfl⟩ := newsRow_eq_some.1 hr
    obtain ⟨_, _, _, _, _, _, rfl⟩ := newsRow_eq_some.1 hr'
    obtain ⟨h₁, h₂⟩ := SearchTarget.news.inj he
    exact Prod.ext h₁.symm h₂.symm
  have hwiki : ((db.pages.rows.filterMap fun r => db.wikiRow P owner q r.1 r.2).map (·.target)).Nodup := by
    rw [List.map_filterMap]
    have hkeys : (db.pages.rows.map (·.1)).Nodup := Table.nodup_rows _
    refine List.Pairwise.filterMap _ ?_ (List.pairwise_map.1 hkeys)
    intro k k' hne t ht t' ht' he
    obtain ⟨r, hr, rfl⟩ := Option.map_eq_some_iff.1 ht
    obtain ⟨r', hr', rfl⟩ := Option.map_eq_some_iff.1 ht'
    obtain ⟨_, _, _, _, _, _, rfl⟩ := wikiRow_eq_some.1 hr
    obtain ⟨_, _, _, _, _, _, rfl⟩ := wikiRow_eq_some.1 hr'
    obtain ⟨h₁, h₂⟩ := SearchTarget.wiki.inj he
    exact hne (Prod.ext h₁ h₂)
  unfold hits
  rw [List.map_append]
  by_cases hkind : q.kind = .news
  · rw [if_pos hkind, List.map_nil, List.append_nil]
    exact hnews
  rw [if_neg hkind]
  refine List.Nodup.append hnews hwiki ?_
  intro t ht ht'
  obtain ⟨r, hr, rfl⟩ := List.mem_map.1 ht
  obtain ⟨r', hr', he⟩ := List.mem_map.1 ht'
  obtain ⟨k, -, hr⟩ := List.mem_filterMap.1 hr
  obtain ⟨k', -, hr'⟩ := List.mem_filterMap.1 hr'
  obtain ⟨_, _, _, _, _, _, rfl⟩ := newsRow_eq_some.1 hr
  obtain ⟨_, _, _, _, _, _, rfl⟩ := wikiRow_eq_some.1 hr'
  cases he

/-- The columns of the result separate the hits. -/
theorem separates_hits : OrderBy.Separates (searchColumns P q) (db.hits P owner q) := by
  intro a ha b hb hsame
  have hcolumn : ∀ key : FoundRow → Nat, (fun a b => decide (key a ≤ key b)) ∈ searchColumns P q → key a = key b := by
    intro key hkey
    have h := hsame _ hkey
    exact le_antisymm (of_decide_eq_true h.1) (of_decide_eq_true h.2)
  have hkind := hcolumn (fun r => r.target.kindOrder) (by simp [searchColumns])
  have hcontainer := hcolumn (fun r => r.target.container) (by simp [searchColumns])
  have hid := hcolumn (fun r => r.target.id) (by simp [searchColumns])
  have htarget : a.target = b.target := by
    generalize a.target = s at hkind hcontainer hid ⊢
    generalize b.target = t at hkind hcontainer hid ⊢
    cases s with
    | news w i =>
      cases t with
      | news w' i' =>
        obtain ⟨w⟩ := w
        obtain ⟨w'⟩ := w'
        obtain ⟨i⟩ := i
        obtain ⟨i'⟩ := i'
        cases hcontainer
        cases hid
        rfl
      | wiki n p => cases hkind
    | wiki n p =>
      cases t with
      | news w i => cases hkind
      | wiki n' p' =>
        cases hcontainer
        cases hid
        rfl
  have ha := mem_hits.1 ha
  have hb := mem_hits.1 hb
  rw [htarget, hb] at ha
  exact (Option.some.inj ha).symm

theorem searchColumns_column : ∀ c ∈ searchColumns P q, OrderBy.Column c := by
  intro c hc
  simp only [searchColumns, List.mem_cons, List.not_mem_nil, or_false] at hc
  rcases hc with rfl | rfl | rfl | rfl | rfl
  · exact OrderBy.Column.of_key fun r : FoundRow => searchRank P q r.title
  · exact ⟨fun a b => (P.collation.total _ _).symm, fun a b d h h' => P.collation.trans _ _ _ h' h⟩
  · exact OrderBy.Column.of_key fun r : FoundRow => r.target.kindOrder
  · exact OrderBy.Column.of_key fun r : FoundRow => r.target.container
  · exact OrderBy.Column.of_key fun r : FoundRow => r.target.id

/-- The sorted rows are determined by the rows of the targets. -/
theorem sorted_congr (h : ∀ target, db.rowOf P owner q target = db'.rowOf P owner q target) :
    db.sorted P q owner = db'.sorted P q owner := by
  refine OrderBy.sort_eq_of_perm searchColumns_column separates_hits ?_
  refine (List.perm_ext_iff_of_nodup (List.Nodup.of_map _ nodup_targets) (List.Nodup.of_map _ nodup_targets)).2 ?_
  intro row
  rw [mem_hits, mem_hits, h]

/-! ## Rows of an account -/

theorem Agree.owns (h : Agree db db' owner) (w : WorkspaceId) : db.ownsWorkspace owner w = db'.ownsWorkspace owner w := by
  have hiff : db.ownsWorkspace owner w = true ↔ db'.ownsWorkspace owner w = true := by
    simp only [ownsWorkspace, Option.any_eq_true, decide_eq_true_eq]
    constructor
    · rintro ⟨row, hrow, howner⟩
      exact ⟨row, (h.workspaces w row howner).1 hrow, howner⟩
    · rintro ⟨row, hrow, howner⟩
      exact ⟨row, (h.workspaces w row howner).2 hrow, howner⟩
  exact Bool.eq_iff_iff.2 hiff

/-- What a database says about an article of the account is in its rows. -/
theorem articleMatches_of_agree (h : Agree db db' owner) (hown : db.ownsWorkspace owner key.1 = true) :
    db.articleMatches P q key ↔ db'.articleMatches P q key := by
  unfold articleMatches
  rw [h.articles key hown]
  refine or_congr_right ⟨?_, ?_⟩
  · rintro ⟨o, ho, rfl, hcontent⟩
    exact ⟨o, (h.origins o hown).1 ho, rfl, by rwa [← h.contents o ho hown]⟩
  · rintro ⟨o, ho, rfl, hcontent⟩
    have ho' := (h.origins o hown).2 ho
    exact ⟨o, ho', rfl, by rwa [h.contents o ho' hown]⟩

theorem inSubscription_of_agree (h : Agree db db' owner) (hown : db.ownsWorkspace owner key.1 = true) :
    db.inSubscription q key = db'.inSubscription q key := by
  have hiff : ∀ s, (db.originRows.any fun o => o.workspaceId = key.1 && o.articleId = key.2 && o.subscriptionId = s) =
      db'.originRows.any fun o => o.workspaceId = key.1 && o.articleId = key.2 && o.subscriptionId = s := by
    intro s
    rw [Bool.eq_iff_iff, List.any_eq_true, List.any_eq_true]
    constructor
    · rintro ⟨o, ho, hcond⟩
      have hw : o.workspaceId = key.1 := by simp only [Bool.and_eq_true, decide_eq_true_eq] at hcond; exact hcond.1.1
      exact ⟨o, (h.origins o (by rwa [hw])).1 ho, hcond⟩
    · rintro ⟨o, ho, hcond⟩
      have hw : o.workspaceId = key.1 := by simp only [Bool.and_eq_true, decide_eq_true_eq] at hcond; exact hcond.1.1
      exact ⟨o, (h.origins o (by rwa [hw])).2 ho, hcond⟩
  unfold inSubscription
  cases q.subscription with
  | none => rfl
  | some s => exact hiff s

/-- The row of an article needs a workspace of the account. -/
theorem owns_of_newsRow (h : db.newsRow owner q key = some row) : db.ownsWorkspace owner key.1 = true := by
  obtain ⟨_, workspace, _, hworkspace, howner, _, _⟩ := newsRow_eq_some.1 h
  exact (Option.any_eq_true ..).2 ⟨workspace, hworkspace, decide_eq_true howner⟩

theorem newsRow_of_agree (h : Agree db db' owner) (hown : db.ownsWorkspace owner key.1 = true) :
    db.newsRow owner q key = db'.newsRow owner q key := by
  have hiff : ∀ row, db.newsRow owner q key = some row ↔ db'.newsRow owner q key = some row := by
    intro row
    rw [newsRow_eq_some, newsRow_eq_some, h.articles key hown, inSubscription_of_agree h hown]
    constructor
    · rintro ⟨article, workspace, harticle, hworkspace, howner, hrest⟩
      exact ⟨article, workspace, harticle, (h.workspaces _ _ howner).1 hworkspace, howner, hrest⟩
    · rintro ⟨article, workspace, harticle, hworkspace, howner, hrest⟩
      exact ⟨article, workspace, harticle, (h.workspaces _ _ howner).2 hworkspace, howner, hrest⟩
  exact Option.ext hiff

theorem newsRow_eq_none (hown : ¬ db.ownsWorkspace owner key.1 = true) : db.newsRow owner q key = none :=
  Option.eq_none_iff_forall_ne_some.2 fun _ hrow => hown (owns_of_newsRow hrow)

theorem wikiRow_of_agree (h : Agree db db' owner) {key : Nat × Nat} {page : WikiPage} :
    db.wikiRow P owner q key page = db'.wikiRow P owner q key page := by
  have hiff : ∀ row, db.wikiRow P owner q key page = some row ↔ db'.wikiRow P owner q key page = some row := by
    intro row
    rw [wikiRow_eq_some, wikiRow_eq_some, h.readable key.1]
    constructor
    · rintro ⟨ns, hns, hdeleted, hscope, hread, hrest⟩
      rw [h.namespaces _ (by rwa [h.readable])] at hns
      exact ⟨ns, hns, hdeleted, hscope, hread, hrest⟩
    · rintro ⟨ns, hns, hdeleted, hscope, hread, hrest⟩
      rw [← h.namespaces _ (by rwa [h.readable])] at hns
      exact ⟨ns, hns, hdeleted, hscope, hread, hrest⟩
  exact Option.ext hiff

theorem wikiRow_eq_none {key : Nat × Nat} {page : WikiPage} (hread : ¬ db.canRead owner key.1 = true) :
    db.wikiRow P owner q key page = none := by
  refine Option.eq_none_iff_forall_ne_some.2 fun _ hrow => ?_
  obtain ⟨_, _, _, _, h, _, _⟩ := wikiRow_eq_some.1 hrow
  exact hread h

theorem rowOf_of_agree (h : Agree db db' owner) (target : SearchTarget) :
    db.rowOf P owner q target = db'.rowOf P owner q target := by
  cases target with
  | news w a =>
    unfold rowOf
    dsimp only
    by_cases hown : db.ownsWorkspace owner w = true
    · have hmatch : db.articleMatches P q (w, a) ↔ db'.articleMatches P q (w, a) := articleMatches_of_agree h hown
      have hrow : db.newsRow owner q (w, a) = db'.newsRow owner q (w, a) := newsRow_of_agree h hown
      rw [hrow, propext hmatch]
    · have hown' : ¬ db'.ownsWorkspace owner w = true := by rwa [← h.owns w]
      have hnone : db.newsRow owner q (w, a) = none := newsRow_eq_none hown
      have hnone' : db'.newsRow owner q (w, a) = none := newsRow_eq_none hown'
      rw [hnone, hnone']
      split_ifs <;> rfl
  | wiki ns p =>
    unfold rowOf
    dsimp only
    by_cases hread : db.canRead owner ns = true
    · rw [h.pages (ns, p) hread]
      simp only [wikiRow_of_agree h]
    · have hread' : ¬ db'.canRead owner ns = true := by rwa [← h.readable ns]
      have hnone : ∀ page, db.wikiRow P owner q (ns, p) page = none := fun page => wikiRow_eq_none hread
      have hnone' : ∀ page, db'.wikiRow P owner q (ns, p) page = none := fun page => wikiRow_eq_none hread'
      cases db.pages.lookup (ns, p) <;> cases db'.pages.lookup (ns, p) <;> simp [hnone, hnone']

/-! ## The page -/

theorem nodup_originRows : db.originRows.Nodup := Table.nodup_rows _

/-- The excerpt of a hit is of the account's records. -/
theorem body_of_agree (h : Agree db db' owner) (hrow : db.rowOf P owner q target = some row) :
    db.body P q target = db'.body P q target := by
  cases target with
  | wiki ns p => rfl
  | news w a =>
    have hown : db.ownsWorkspace owner w = true := by
      unfold rowOf at hrow
      dsimp only at hrow
      split_ifs at hrow
      exact owns_of_newsRow hrow
    have hperm : (db.originRows.filter fun o => o.workspaceId = w && o.articleId = a).Perm
        (db'.originRows.filter fun o => o.workspaceId = w && o.articleId = a) := by
      refine (List.perm_ext_iff_of_nodup (nodup_originRows.filter _) (nodup_originRows.filter _)).2 fun o => ?_
      rw [List.mem_filter, List.mem_filter]
      refine and_congr_left fun hcond => ?_
      simp only [Bool.and_eq_true, decide_eq_true_eq] at hcond
      exact h.origins o (by rwa [hcond.1])
    have hcontents : ∀ o ∈ db.originRows.filter (fun o => o.workspaceId = w && o.articleId = a),
        db.searchContent.lookup o.sourceRecordId = db'.searchContent.lookup o.sourceRecordId := by
      intro o ho
      obtain ⟨ho, hcond⟩ := List.mem_filter.1 ho
      simp only [Bool.and_eq_true, decide_eq_true_eq] at hcond
      exact h.contents o ho (by rwa [hcond.1])
    unfold body
    dsimp only
    rw [List.filterMap_congr fun o ho => by rw [hcontents o ho]]
    rw [OrderBy.sort_eq_of_perm ?_ ?_ (hperm.filterMap _)]
    · intro c hc
      rw [List.mem_singleton.1 hc]
      exact OrderBy.Column.of_key fun e : SourceRecordId × String => e.1.uuid
    · intro e he e' he' hsame
      have hrec := hsame _ (List.mem_singleton_self _)
      have huuid := le_antisymm (of_decide_eq_true hrec.1) (of_decide_eq_true hrec.2)
      obtain ⟨o, -, he⟩ := List.mem_filterMap.1 he
      obtain ⟨o', -, he'⟩ := List.mem_filterMap.1 he'
      obtain ⟨t, ht, rfl⟩ := Option.map_eq_some_iff.1 he
      obtain ⟨t', ht', rfl⟩ := Option.map_eq_some_iff.1 he'
      have hid : o.sourceRecordId = o'.sourceRecordId := by
        cases hr : o.sourceRecordId
        cases hr' : o'.sourceRecordId
        rw [hr, hr'] at huuid
        cases huuid
        rfl
      rw [hid, ht'] at ht
      rw [hid, Option.some.inj ht]

theorem ownsSubscription_of_agree (h : Agree db db' owner) (id : SubscriptionId) :
    db.ownsSubscription owner id = db'.ownsSubscription owner id := by
  rw [Bool.eq_iff_iff]
  simp only [ownsSubscription, Option.any_eq_true, Option.bind_eq_some_iff, decide_eq_true_eq]
  have hown : ∀ {d : SearchDb} {w row}, d.workspaces.lookup w = some row → row.owner = owner →
      d.ownsWorkspace owner w = true := fun hrow howner => (Option.any_eq_true ..).2 ⟨_, hrow, decide_eq_true howner⟩
  constructor
  · rintro ⟨row, ⟨w, hw, hrow⟩, howner⟩
    exact ⟨row, ⟨w, (h.subscriptions id w (hown hrow howner)).1 hw, (h.workspaces w row howner).1 hrow⟩, howner⟩
  · rintro ⟨row, ⟨w, hw, hrow⟩, howner⟩
    have hrow' := (h.workspaces w row howner).2 hrow
    exact ⟨row, ⟨w, (h.subscriptions id w (hown hrow' howner)).2 hw, hrow'⟩, howner⟩

/-- A namespace that is asked for is found among those of the account, if it is one of them. -/
theorem namespace_refused : (q.namespace.any fun ns => decide (ns ∉ (db.namespaces.rows.map (·.1)).filter fun ns =>
      db.canRead owner ns && q.namespace.all (· = ns))) = q.namespace.any fun ns => !db.canRead owner ns := by
  cases hq : q.namespace with
  | none => rfl
  | some ns =>
    rw [Option.any_some, Option.any_some, Bool.eq_iff_iff, decide_eq_true_eq, Bool.not_eq_true', ← Bool.not_eq_true,
      not_iff_not, List.mem_filter]
    constructor
    · rintro ⟨-, h⟩
      exact ((Bool.and_eq_true ..).mp h).1
    · intro h
      obtain ⟨row, hrow, -⟩ := (Option.any_eq_true ..).1 h
      refine ⟨List.mem_map.2 ⟨(ns, row), Table.mem_rows.2 hrow, rfl⟩, ?_⟩
      rw [h]
      simp

end SearchDb

theorem mapM_congr {α β : Type} {f g : α → Option β} {l : List α} (h : ∀ a ∈ l, f a = g a) : l.mapM f = l.mapM g := by
  induction l with
  | nil => rfl
  | cons a l ih =>
    rw [List.mapM_cons, List.mapM_cons, h a List.mem_cons_self, ih fun b hb => h b (List.mem_cons_of_mem _ hb)]

/-- Two databases that agree on the rows of an account give it the same page and the same error, whatever the rows of
the others are. -/
theorem search_isolated (P : SearchPlatform) {limits : SearchLimits} {db db' : SearchDb} {owner : AccountId}
    (h : SearchDb.Agree db db' owner) (q : SearchRequest limits) : search P q db owner = search P q db' owner := by
  have hsorted : db.sorted P q owner = db'.sorted P q owner :=
    SearchDb.sorted_congr fun target => SearchDb.rowOf_of_agree h target
  have hfinish : ∀ row ∈ ((db'.sorted P q owner).drop q.offset.toNat).take (limits.pageSize + 1),
      FoundRow.finish P q db row = FoundRow.finish P q db' row := by
    intro row hrow
    have hmem := List.mem_of_mem_drop (List.mem_of_mem_take hrow)
    rw [← hsorted] at hmem
    have hhit := SearchDb.mem_hits.1 ((OrderBy.sort_perm _ _).mem_iff.1 hmem)
    unfold FoundRow.finish
    rw [SearchDb.body_of_agree h hhit]
  unfold search
  dsimp only
  rw [SearchDb.namespace_refused, SearchDb.namespace_refused, hsorted, mapM_congr hfinish]
  simp only [h.readable, SearchDb.ownsSubscription_of_agree h]

namespace Sample

/-- A platform whose texts are in the letters of the samples and sorted by their code points. -/
def searchPlatform : SearchPlatform where
  lower c := if c = 'X' then 'x' else c
  textLe a b := decide (a ≤ b)
  lower_special := by
    intro c d hd
    by_cases hc : c = 'X'
    · subst hc
      have hx : 'x' ≠ d := fun he => absurd (he ▸ hd) (by decide)
      have hX : 'X' ≠ d := fun he => absurd (he ▸ hd) (by decide)
      simp [hx, hX]
    · show (if c = 'X' then 'x' else c) = d ↔ c = d
      rw [if_neg hc]
  collation := ⟨fun a b => by simpa using String.le_total a b, fun a b d h h' => by
    simpa using String.le_trans (of_decide_eq_true h) (of_decide_eq_true h')⟩

def searchLimits : SearchLimits where
  queryBytes := 512
  pageSize := 1
  excerptCharacters := 80
  valid := by decide

def searchAll : SearchRequest searchLimits where
  query := "x"
  kind := .all
  «namespace» := none
  subscription := none
  offset := 0
  fits := by decide
  scope := by decide

def searchArticle (id : Nat) (title : String) (arrived : DateTime) : Article where
  id := ⟨id⟩
  key := { location := .url "https://a.test/" ⟨"https://a.test/", "https", some "a.test", none⟩, title, description := none }
  state := {}
  firstArrivedAt := arrived
  origins := []
  revision := 0

/-- An account with an article whose record has a text. -/
def searchDb : SearchDb where
  workspaces := (∅ : Table WorkspaceId SearchWorkspace).insert ⟨1⟩ ⟨⟨1⟩, "Home"⟩
  articles := (∅ : Table (WorkspaceId × ArticleId) Article).insert (⟨1⟩, ⟨1⟩) (searchArticle 1 "A" 0)
  origins := (∅ : Table OriginRow Unit).insert ⟨⟨1⟩, ⟨1⟩, ⟨1⟩, ⟨7⟩⟩ ()
  searchContent := (∅ : Table SourceRecordId String).insert ⟨7⟩ "X marks the spot"

/-- The same with an article of another account, of the same record. -/
def sharedDb : SearchDb where
  workspaces := searchDb.workspaces.insert ⟨2⟩ ⟨⟨2⟩, "Away"⟩
  articles := searchDb.articles.insert (⟨2⟩, ⟨2⟩) (searchArticle 2 "X" 0)
  origins := searchDb.origins.insert ⟨⟨2⟩, ⟨2⟩, ⟨2⟩, ⟨7⟩⟩ ()
  searchContent := searchDb.searchContent

theorem owns_searchDb {w : WorkspaceId} (h : searchDb.ownsWorkspace ⟨1⟩ w = true) : w = ⟨1⟩ := by
  by_contra hne
  obtain ⟨row, hrow, -⟩ := (Option.any_eq_true ..).1 h
  have hlookup : searchDb.workspaces.lookup w = none := by simp [searchDb, Table.lookup_insert_if, hne]
  rw [hlookup] at hrow
  cases hrow

theorem agree_sharedDb : SearchDb.Agree searchDb sharedDb ⟨1⟩ where
  workspaces w row howner := by
    rw [sharedDb, Table.lookup_insert_if]
    by_cases hw : w = ⟨2⟩
    · subst hw
      have hrow : row ≠ ⟨⟨2⟩, "Away"⟩ := by rintro rfl; cases howner
      simp [searchDb, Table.lookup_insert_if, hrow.symm]
    · rw [if_neg hw]
  articles key hown := by
    rw [sharedDb, Table.lookup_insert_if, if_neg]
    rintro rfl
    cases owns_searchDb hown
  origins o hown := by
    have hne : o ≠ ⟨⟨2⟩, ⟨2⟩, ⟨2⟩, ⟨7⟩⟩ := by
      rintro rfl
      cases owns_searchDb hown
    have hrows : ∀ d : SearchDb, o ∈ d.originRows ↔ d.origins.lookup o = some () := by
      intro d
      rw [SearchDb.originRows, List.mem_map]
      constructor
      · rintro ⟨⟨k, u⟩, hk, rfl⟩
        exact Table.mem_rows.1 hk
      · exact fun h => ⟨(o, ()), Table.mem_rows.2 h, rfl⟩
    rw [hrows, hrows, sharedDb, Table.lookup_insert_if, if_neg hne]
  contents _ _ _ := rfl
  subscriptions _ _ _ := Iff.rfl
  readable _ := rfl
  namespaces _ _ := rfl
  pages _ _ := rfl

/-- The account finds its article, and the article of the other account does not change that. -/
theorem search_isolated_shared : search searchPlatform searchAll searchDb ⟨1⟩ = search searchPlatform searchAll sharedDb ⟨1⟩ :=
  search_isolated searchPlatform agree_sharedDb searchAll

end Sample
end Inoreader
