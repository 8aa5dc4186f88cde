import Inoreader.Library.Pages

/-!
# Walks through the pages

With different keys a page is the part of one descending list that a cursor leaves, cut to the limit. The cursors of the
server round the time of their article down to a microsecond, so walks with them are exact where the times have no finer
part.
-/

namespace Inoreader
open Lib Lib.Keyset

/-- No two rows have the same time and id. -/
def DistinctKeys (rows : List PageRow) : Prop := (rows.map (·.key)).Nodup

section
variable {rows rows' l : List PageRow} {n : Nat}

theorem DistinctKeys.perm (h : DistinctKeys rows) (hperm : rows.Perm rows') : DistinctKeys rows' :=
  (hperm.map _).nodup h

/-- Rows in descending order are the only ones that stand so. -/
theorem newestFirst_eq (hperm : rows.Perm l) (hl : Ordered (· < ·) PageRow.key l) : newestFirst rows = l := by
  have hsorted : (newestFirst rows).Pairwise fun x y => y.key ≤ x.key :=
    List.pairwise_insertionSort (fun x y : PageRow => y.key ≤ x.key) _
  have hnodup : (l.map (·.key)).Nodup := List.pairwise_map.2 (hl.imp fun h => ne_of_gt h)
  have hperm' : (newestFirst rows).Perm l := (List.perm_insertionSort _ _).trans hperm
  refine hperm'.eq_of_pairwise (fun x y hx hy hxy hyx => ?_) hsorted (hl.imp fun h => le_of_lt h)
  exact List.inj_on_of_nodup_map hnodup (hperm'.subset hx) hy (le_antisymm hyx hxy)

theorem newestFirst_perm (rows : List PageRow) : (newestFirst rows).Perm rows := List.perm_insertionSort _ _

theorem newestFirst_ordered (h : DistinctKeys rows) : Ordered (· < ·) PageRow.key (newestFirst rows) := by
  have hsorted : (newestFirst rows).Pairwise fun x y => y.key ≤ x.key :=
    List.pairwise_insertionSort (fun x y : PageRow => y.key ≤ x.key) _
  have hdistinct : (newestFirst rows).Pairwise fun x y => x.key ≠ y.key :=
    List.pairwise_map.1 (h.perm (newestFirst_perm rows).symm)
  exact (hsorted.and hdistinct).imp fun h => lt_of_le_of_ne h.1 h.2.symm

theorem newestFirst_congr (h : DistinctKeys rows) (hperm : rows.Perm rows') : newestFirst rows = newestFirst rows' :=
  newestFirst_eq (hperm.trans (newestFirst_perm rows').symm) (newestFirst_ordered (h.perm hperm))

theorem newestFirst_filter (h : DistinctKeys rows) (p : PageRow → Bool) :
    newestFirst (rows.filter p) = (newestFirst rows).filter p :=
  newestFirst_eq ((newestFirst_perm rows).symm.filter p) ((newestFirst_ordered h).sublist List.filter_sublist)

theorem oldestFirst_eq (h : DistinctKeys rows) : oldestFirst rows = (newestFirst rows).reverse := by
  have hsorted : (oldestFirst rows).Pairwise fun x y => x.key ≤ y.key :=
    List.pairwise_insertionSort (fun x y : PageRow => x.key ≤ y.key) _
  have hperm : (oldestFirst rows).Perm rows := List.perm_insertionSort _ _
  have hdistinct : (oldestFirst rows).Pairwise fun x y => x.key ≠ y.key := List.pairwise_map.1 (h.perm hperm.symm)
  have hreverse : newestFirst rows = (oldestFirst rows).reverse := by
    refine newestFirst_eq (hperm.symm.trans (List.reverse_perm _).symm) ?_
    rw [Ordered, List.pairwise_reverse]
    exact (hsorted.and hdistinct).imp fun h => lt_of_le_of_ne h.1 h.2
  rw [hreverse, List.reverse_reverse]

theorem reverse_ordered (h : DistinctKeys rows) : Ordered (· > ·) PageRow.key (newestFirst rows).reverse := by
  rw [Ordered, List.pairwise_reverse]
  exact newestFirst_ordered h

end

/-! ## One page -/

namespace ArticlePageDirection

/-- The rows behind a cursor in the order of the direction. -/
def selected (d : ArticlePageDirection) (cursor : Option ArticlePageCursor) (rows : List PageRow) : List PageRow :=
  let matching := (newestFirst rows).filter (d.follows cursor)
  if d = .newer then matching.reverse else matching

/-- The rows of a page, the newest one first. -/
def shown (d : ArticlePageDirection) (rows : List PageRow) : List PageRow :=
  if d = .newer then rows.reverse else rows

theorem selected_older (cursor : Option ArticlePageCursor) (rows : List PageRow) :
    older.selected cursor rows = behind (· < ·) PageRow.key (newestFirst rows) (cursor.map (·.key)) := by
  cases cursor with
  | none => exact List.filter_true _
  | some c => rfl

theorem selected_newer (cursor : Option ArticlePageCursor) (rows : List PageRow) :
    newer.selected cursor rows = behind (· > ·) PageRow.key (newestFirst rows).reverse (cursor.map (·.key)) := by
  cases cursor with
  | none => exact congrArg List.reverse (List.filter_true _)
  | some c => exact List.filter_reverse.symm

end ArticlePageDirection

namespace ArticlePageRequest
variable {r : ArticlePageRequest} {rows : List PageRow}

/-- The page of a request on rows with different keys: what the query fetches and what the default of the trait cuts. -/
theorem fetch_eq (h : DistinctKeys rows) : r.fetch rows =
    (r.direction.shown ((r.direction.selected r.boundCursor rows).take r.limit.get),
      decide (r.limit.get < (r.direction.selected r.boundCursor rows).length)) := by
  have hfilter : DistinctKeys (rows.filter (r.direction.follows r.boundCursor)) :=
    h.sublist (List.filter_sublist.map _)
  have hordered : r.direction.sorted (rows.filter (r.direction.follows r.boundCursor)) =
      r.direction.selected r.boundCursor rows := by
    unfold ArticlePageDirection.selected
    cases hd : r.direction with
    | older =>
      rw [hd] at hfilter
      exact newestFirst_filter h _
    | newer =>
      rw [hd] at hfilter
      show oldestFirst (rows.filter (ArticlePageDirection.newer.follows r.boundCursor)) = _
      rw [oldestFirst_eq hfilter, newestFirst_filter h]
      rfl
  unfold fetch
  dsimp only
  rw [hordered, SelectionLimit.lookahead, List.take_take, Nat.min_eq_left (Nat.le_succ _), List.length_take]
  refine Prod.ext rfl (decide_eq_decide.2 ?_)
  omega

/-- The query compares a cursor of these with the times as it is. -/
def Exact (r : ArticlePageRequest) (c : ArticlePageCursor) : Prop :=
  r.readPeriod.isSome = true → c.arrivedAt % 1000 = 0

theorem boundMicros_eq {t : Int} (h : t % 1000 = 0) : boundMicros t = t := by
  unfold boundMicros
  have hdvd : (1000 : Int) ∣ t - 946684800000000000 := by omega
  rw [Int.tdiv_mul_cancel hdvd]
  exact Int.sub_add_cancel t _

theorem boundCursor_eq (h : ∀ c, r.cursor = some c → r.Exact c) : r.boundCursor = r.cursor := by
  unfold boundCursor
  cases hc : r.cursor with
  | none => rfl
  | some c =>
    have hexact := h c hc
    rw [Option.map_some]
    by_cases hperiod : r.readPeriod.isSome = true
    · rw [if_pos hperiod, boundMicros_eq (hexact hperiod)]
    · rw [if_neg hperiod]

end ArticlePageRequest

/-- The pages of a repository, but for the unread counter, are those of the rows; `exact` are the cursors that it compares
as they are. -/
structure Lists (exact : ArticlePageCursor → Prop) (page : ArticlePageRequest → ArticlePage) (r : ArticlePageRequest)
    (rows : List PageRow) : Prop where
  distinct : DistinctKeys rows
  older (c : Option ArticlePageCursor) : (∀ k, c = some k → exact k) → ∃ unreadTotal, page (r.older c) =
    (r.older c).page ((ArticlePageDirection.older.selected c rows).take r.limit.get)
      (decide (r.limit.get < (ArticlePageDirection.older.selected c rows).length)) rows.length unreadTotal
  newer (c : ArticlePageCursor) : exact c → ∃ unreadTotal, page (r.newer c) =
    (r.newer c).page ((ArticlePageDirection.newer.selected (some c) rows).take r.limit.get).reverse
      (decide (r.limit.get < (ArticlePageDirection.newer.selected (some c) rows).length)) rows.length unreadTotal

section
variable {v : PageTables} {db : Db} {w : WorkspaceId} {r : ArticlePageRequest} {all : List ArticleListing}
  {rows : List PageRow} {page : ArticlePageRequest → ArticlePage}

/-- The pages of the queries. -/
theorem articleSummaryPage_lists (h : DistinctKeys (db.selection v w r)) :
    Lists r.Exact (articleSummaryPage v db w) r (db.selection v w r) where
  distinct := h
  older c hc := by
    have hbound : (r.older c).boundCursor = c := ArticlePageRequest.boundCursor_eq hc
    refine ⟨db.unreadTotal v w (r.older c), ?_⟩
    show (r.older c).page ((r.older c).fetch (db.selection v w r)).1 ((r.older c).fetch (db.selection v w r)).2 _ _ = _
    rw [ArticlePageRequest.fetch_eq h, hbound]
    rfl
  newer c hc := by
    have hbound : (r.newer c).boundCursor = some c :=
      ArticlePageRequest.boundCursor_eq fun k hk => by
        cases hk
        exact hc
    refine ⟨db.unreadTotal v w (r.newer c), ?_⟩
    show (r.newer c).page ((r.newer c).fetch (db.selection v w r)).1 ((r.newer c).fetch (db.selection v w r)).2 _ _ = _
    rw [ArticlePageRequest.fetch_eq h, hbound]
    rfl

/-- The pages of the default. -/
theorem defaultArticleSummaryPage_lists (h : DistinctKeys rows) (hperm : (defaultSelection all r).Perm rows) :
    Lists (fun _ => True) (defaultArticleSummaryPage all) r rows := by
  have hrows : newestFirst (defaultSelection all r) = newestFirst rows := newestFirst_congr (h.perm hperm.symm) hperm
  have hlength : (newestFirst rows).length = rows.length := (newestFirst_perm rows).length_eq
  refine ⟨h, fun c _ => ⟨all.countP fun x => !x.row.article.state.read, ?_⟩,
    fun c _ => ⟨all.countP fun x => !x.row.article.state.read, ?_⟩⟩
  · show ArticlePageRequest.page _ _ _ (newestFirst (defaultSelection all r)).length _ = _
    rw [← hlength]
    unfold ArticlePageDirection.selected
    rw [← hrows]
    rfl
  · show ArticlePageRequest.page _ _ _ (newestFirst (defaultSelection all r)).length _ = _
    rw [← hlength]
    unfold ArticlePageDirection.selected
    rw [← hrows]
    rfl

end

/-! ## Walks -/

/-- The cursors of the rows lead back to their places. -/
def Leads {κ : Type} (exact : ArticlePageCursor → Prop) (decode : κ → Option ArticlePageCursor) (cursor : PageRow → κ)
    (rows : List PageRow) : Prop :=
  ∀ x ∈ rows, ∃ c, decode (cursor x) = some c ∧ c.key = x.key ∧ exact c

section
variable {κ : Type} {decode : κ → Option ArticlePageCursor} {cursor : PageRow → κ} {r : ArticlePageRequest}
  {rows : List PageRow} {page : ArticlePageRequest → ArticlePage} {exact : ArticlePageCursor → Prop}

/-- A page of the walk over the sorted rows. -/
theorem step_eq {ρ : ℤ ×ₗ ℕ → ℤ ×ₗ ℕ → Prop} [DecidableRel ρ] {l m : List PageRow} {n : Nat} {c : Option (ℤ ×ₗ ℕ)}
    (h : behind ρ PageRow.key l c = m) : step ρ PageRow.key PageRow.key n l c =
      (m.take n, if n < m.length then (m.take n).getLast?.map (·.key) else none) := by
  unfold step
  rw [read_eq, h]
  by_cases hlt : n < m.length
  · rw [decide_eq_true hlt, if_pos rfl, if_pos hlt]
  · rw [decide_eq_false hlt, if_neg Bool.false_ne_true, if_neg hlt]

theorem mem_of_selected {d : ArticlePageDirection} {c : Option ArticlePageCursor} {x : PageRow}
    (hx : x ∈ d.selected c rows) : x ∈ rows := by
  unfold ArticlePageDirection.selected at hx
  refine (newestFirst_perm rows).subset ?_
  split at hx
  · exact (List.mem_filter.1 (List.mem_reverse.1 hx)).1
  · exact (List.mem_filter.1 hx).1

/-- The walk over the sorted rows and a walk with cursors are after the same row. -/
def SamePlace (cursor : PageRow → κ) (rows : List PageRow) (c : Option (ℤ ×ₗ ℕ)) (c' : Option κ) : Prop :=
  ∃ x ∈ rows, c = some x.key ∧ c' = some (cursor x)

/-- The next cursors of a page are after the same row. -/
theorem samePlace_next (cursor : PageRow → κ) {m : List PageRow} (n : Nat) (hm : ∀ x ∈ m, x ∈ rows) :
    ((if n < m.length then (m.take n).getLast?.map (·.key) else none) = none ∧
      (if decide (n < m.length) = true then (m.take n).getLast?.map cursor else none) = none) ∨
    ∃ k k', (if n < m.length then (m.take n).getLast?.map (·.key) else none) = some k ∧
      (if decide (n < m.length) = true then (m.take n).getLast?.map cursor else none) = some k' ∧
      SamePlace cursor rows (some k) (some k') := by
  by_cases hlt : n < m.length
  · rw [if_pos hlt, if_pos (decide_eq_true hlt)]
    cases hlast : (m.take n).getLast? with
    | none => exact .inl ⟨rfl, rfl⟩
    | some x =>
      have hx : x ∈ rows := hm x (List.mem_of_mem_take (List.mem_of_getLast? hlast))
      exact .inr ⟨x.key, cursor x, rfl, rfl, x, hx, rfl, rfl⟩
  · rw [if_neg hlt, if_neg (by simpa using hlt)]
    exact .inl ⟨rfl, rfl⟩

/-- The page of older rows after a place, or from the beginning. -/
theorem Lists.olderPage_eq (h : Lists exact page r rows) {c : Option κ} {a : Option ArticlePageCursor}
    (ha : (c = none ∧ a = none) ∨ ∃ text k, c = some text ∧ a = some k ∧ decode text = some k)
    (hexact : ∀ k, a = some k → exact k) : olderPage decode cursor page r c =
      ((ArticlePageDirection.older.selected a rows).take r.limit.get,
        if decide (r.limit.get < (ArticlePageDirection.older.selected a rows).length) = true then
          ((ArticlePageDirection.older.selected a rows).take r.limit.get).getLast?.map cursor else none) := by
  obtain ⟨u, hu⟩ := h.older a hexact
  rcases ha with ⟨rfl, rfl⟩ | ⟨text, k, rfl, rfl, hdecode⟩
  · dsimp only [olderPage]
    rw [hu]
    rfl
  · dsimp only [olderPage]
    rw [hdecode]
    dsimp only
    rw [hu]
    rfl

/-- Following the older pages from the beginning reads every row once, in order; a cursor is issued if and only if
rows remain. -/
theorem Lists.older_walk (decode : κ → Option ArticlePageCursor) (cursor : PageRow → κ) (h : Lists exact page r rows) (hcursor : Leads exact decode cursor rows) :
    ∃ pages, Walk (olderPage decode cursor page r) none pages ∧ pages.flatten = newestFirst rows ∧
      ∀ p ∈ pages.tail, p ≠ [] := by
  obtain ⟨pages, hwalk, hflatten, hne⟩ := exists_walk PageRow.key (newestFirst_ordered h.distinct) r.limit.pos
    (fun _ _ _ _ => Iff.rfl) none
  have hpage : ∀ c c', (c = none ∧ c' = none) ∨ SamePlace cursor rows c c' → ∃ a : Option ArticlePageCursor,
      a.map (·.key) = c ∧ olderPage decode cursor page r c' =
        ((ArticlePageDirection.older.selected a rows).take r.limit.get,
          if decide (r.limit.get < (ArticlePageDirection.older.selected a rows).length) = true then
            ((ArticlePageDirection.older.selected a rows).take r.limit.get).getLast?.map cursor else none) := by
    rintro c c' (⟨rfl, rfl⟩ | ⟨x, hx, rfl, rfl⟩)
    · exact ⟨none, rfl, h.olderPage_eq (.inl ⟨rfl, rfl⟩) fun k hk => by cases hk⟩
    · obtain ⟨k, hdecode, hkey, hexact⟩ := hcursor x hx
      refine ⟨some k, congrArg some hkey, h.olderPage_eq (.inr ⟨_, k, rfl, rfl, hdecode⟩) fun k' hk' => ?_⟩
      cases hk'
      exact hexact
  have hsim : Simulates (step (· < ·) PageRow.key PageRow.key r.limit.get (newestFirst rows))
      (olderPage decode cursor page r) id fun c c' => (c = none ∧ c' = none) ∨ SamePlace cursor rows c c' := by
    constructor
    · intro c c' hc
      obtain ⟨a, rfl, hpage⟩ := hpage c c' hc
      rw [hpage, step_eq (ArticlePageDirection.selected_older a rows).symm]
      rfl
    · intro c c' hc
      obtain ⟨a, rfl, hpage⟩ := hpage c c' hc
      rw [hpage, step_eq (ArticlePageDirection.selected_older a rows).symm]
      have hrows : ∀ y ∈ ArticlePageDirection.older.selected a rows, y ∈ rows := fun y hy => mem_of_selected hy
      rcases samePlace_next cursor r.limit.get hrows with hnone | ⟨k₁, k₂, h₁, h₂, hsame⟩
      · exact .inl hnone
      · exact .inr ⟨k₁, k₂, h₁, h₂, .inr hsame⟩
  have hserved := hwalk.simulate hsim (.inl ⟨rfl, rfl⟩)
  rw [List.map_id] at hserved
  exact ⟨pages, hserved, hflatten, hne⟩

/-- The page of newer rows before a place. -/
theorem Lists.newerPage_eq (h : Lists exact page r rows) {c : κ} {k : ArticlePageCursor} (hdecode : decode c = some k)
    (hexact : exact k) : newerPage decode cursor page r (some c) =
      (((ArticlePageDirection.newer.selected (some k) rows).take r.limit.get).reverse,
        if decide (r.limit.get < (ArticlePageDirection.newer.selected (some k) rows).length) = true then
          ((ArticlePageDirection.newer.selected (some k) rows).take r.limit.get).getLast?.map cursor else none) := by
  obtain ⟨u, hu⟩ := h.newer k hexact
  dsimp only [newerPage]
  rw [hdecode]
  dsimp only
  rw [hu, ← List.head?_reverse]
  rfl

/-- The rows before a row of a list in descending order. -/
theorem takeWhile_eq {l : List PageRow} (hl : Ordered (· < ·) PageRow.key l) (hl' : Ordered (· > ·) PageRow.key l.reverse)
    {x : PageRow} (hx : x ∈ l) :
    l.takeWhile (· ≠ x) = (behind (· > ·) PageRow.key l.reverse (some x.key)).reverse := by
  obtain ⟨m₁, m₂, rfl⟩ := List.append_of_mem hx
  have hrows : behind (· > ·) PageRow.key (m₁ ++ x :: m₂).reverse none = m₂.reverse ++ x :: m₁.reverse := by
    show (m₁ ++ x :: m₂).reverse = _
    simp
  rw [behind_key hl' hrows, List.reverse_reverse]
  have hbefore : ∀ y ∈ m₁, decide (y ≠ x) = true := by
    intro y hy
    refine decide_eq_true fun he => ?_
    rw [he] at hy
    exact lt_irrefl _ ((List.pairwise_append.1 hl).2.2 x hy x List.mem_cons_self)
  rw [List.takeWhile_append_of_pos hbefore]
  simp

/-- Following the newer pages from a row reads exactly the rows before it. -/
theorem Lists.newer_walk (h : Lists exact page r rows) (hcursor : Leads exact decode cursor rows) {x : PageRow} (hx : x ∈ rows) :
    ∃ pages, Walk (newerPage decode cursor page r) (some (cursor x)) pages ∧
      pages.reverse.flatten = (newestFirst rows).takeWhile (· ≠ x) := by
  obtain ⟨pages, hwalk, hflatten, -⟩ := exists_walk PageRow.key (reverse_ordered h.distinct) r.limit.pos
    (fun _ _ _ _ => Iff.rfl) (some x.key)
  have hpage : ∀ c c', SamePlace cursor rows c c' → ∃ k : ArticlePageCursor, c = some k.key ∧
      newerPage decode cursor page r c' =
        (((ArticlePageDirection.newer.selected (some k) rows).take r.limit.get).reverse,
          if decide (r.limit.get < (ArticlePageDirection.newer.selected (some k) rows).length) = true then
            ((ArticlePageDirection.newer.selected (some k) rows).take r.limit.get).getLast?.map cursor else none) := by
    rintro c c' ⟨y, hy, rfl, rfl⟩
    obtain ⟨k, hdecode, hkey, hexact⟩ := hcursor y hy
    exact ⟨k, congrArg some hkey.symm, h.newerPage_eq hdecode hexact⟩
  have hselected : ∀ k : ArticlePageCursor, behind (· > ·) PageRow.key (newestFirst rows).reverse (some k.key) =
      ArticlePageDirection.newer.selected (some k) rows := fun k => (ArticlePageDirection.selected_newer (some k) rows).symm
  have hsim : Simulates (step (· > ·) PageRow.key PageRow.key r.limit.get (newestFirst rows).reverse)
      (newerPage decode cursor page r) List.reverse (SamePlace cursor rows) := by
    constructor
    · intro c c' hc
      obtain ⟨k, rfl, hpage⟩ := hpage c c' hc
      rw [hpage, step_eq (hselected k)]
    · intro c c' hc
      obtain ⟨k, rfl, hpage⟩ := hpage c c' hc
      rw [hpage, step_eq (hselected k)]
      exact samePlace_next cursor r.limit.get fun y hy => mem_of_selected hy
  refine ⟨_, hwalk.simulate hsim ⟨x, hx, rfl, rfl⟩, ?_⟩
  rw [takeWhile_eq (newestFirst_ordered h.distinct) (reverse_ordered h.distinct) ((newestFirst_perm rows).symm.subset hx),
    ← hflatten, List.reverse_flatten]

/-- A cursor before its row: the newer pages read the row again, or another one that is not before it. -/
theorem Lists.newer_repeats (h : Lists exact page r rows) {x : PageRow} (hx : x ∈ rows) {k : ArticlePageCursor}
    (hdecode : decode (cursor x) = some k) (hexact : exact k) (hk : k.key < x.key) {pages : List (List PageRow)}
    (hwalk : Walk (newerPage decode cursor page r) (some (cursor x)) pages) :
    pages.reverse.flatten ≠ (newestFirst rows).takeWhile (· ≠ x) := by
  intro hflatten
  have hmem : x ∈ newestFirst rows := (newestFirst_perm rows).symm.subset hx
  obtain ⟨y, hy, hy'⟩ := read_repeats (reverse_ordered h.distinct) r.limit.pos (List.mem_reverse.2 hmem) hk
  rw [read_eq] at hy
  have hfirst : y ∈ (newerPage decode cursor page r (some (cursor x))).1 := by
    rw [h.newerPage_eq hdecode hexact, ArticlePageDirection.selected_newer]
    exact List.mem_reverse.2 hy
  have hread : y ∈ pages.reverse.flatten := by
    have hflat : y ∈ pages.flatten := hwalk.first hfirst
    rw [List.mem_flatten] at hflat ⊢
    obtain ⟨p, hp, hyp⟩ := hflat
    exact ⟨p, List.mem_reverse.2 hp, hyp⟩
  rw [hflatten, takeWhile_eq (newestFirst_ordered h.distinct) (reverse_ordered h.distinct) hmem, List.mem_reverse] at hread
  exact hy' hread

end

/-! ## The rows of a request -/

section
variable {v : PageTables} {db : Db} {w : WorkspaceId} {r : ArticlePageRequest}

/-- The articles of a selection are among those of the workspace, in their order. -/
theorem selection_sublist (v : PageTables) (db : Db) (w : WorkspaceId) (r : ArticlePageRequest) :
    ((db.selection v w r).map (·.article)).Sublist ((db.workspaceArticles w).map (·.2)) := by
  unfold Db.selection
  split
  · rename_i period _
    unfold Db.readRows
    induction db.workspaceArticles w with
    | nil => exact List.Sublist.refl _
    | cons row rest ih =>
      rw [List.filterMap_cons]
      split
      · exact ih.trans (List.sublist_cons_self _ _)
      · rename_i x hx
        have harticle : x.article = row.2 := by
          split at hx
          · obtain ⟨e, -, rfl⟩ := Option.map_eq_some_iff.1 hx
            rfl
          · cases hx
        rw [List.map_cons, List.map_cons, harticle]
        exact ih.cons_cons _
  · unfold Db.scopeRows
    rw [List.map_map]
    exact List.filter_sublist.map _

theorem nodup_articleIds (h : db.OwnIds w) : ((db.workspaceArticles w).map (·.2.id)).Nodup := by
  have hids : (db.workspaceArticles w).map (·.2.id) = (db.workspaceArticles w).map (·.1) :=
    List.map_congr_left fun row hrow => h.row hrow
  rw [hids]
  exact nodup_workspaceArticles db

theorem distinctKeys_of_ids {rows : List PageRow} (h : (rows.map (·.article.id)).Nodup) : DistinctKeys rows := by
  unfold DistinctKeys
  rw [List.Nodup, List.pairwise_map] at h ⊢
  refine h.imp fun {x y} hne he => hne ?_
  have huuid : x.article.id.uuid = y.article.id.uuid := congrArg (fun k : ℤ ×ₗ ℕ => (ofLex k).2) he
  calc x.article.id = ⟨x.article.id.uuid⟩ := rfl
    _ = ⟨y.article.id.uuid⟩ := by rw [huuid]

theorem distinctKeys_selection (h : db.OwnIds w) : DistinctKeys (db.selection v w r) := by
  refine distinctKeys_of_ids ?_
  have hsub := (selection_sublist v db w r).map Article.id
  rw [List.map_map, List.map_map] at hsub
  exact (nodup_articleIds h).sublist hsub

/-- The time of a listed reading is a number of microseconds. -/
theorem time_of_period {period : ReadPeriod} {x : PageRow} (hx : x ∈ db.readRows v w period) : (x.time : Int) % 1000 = 0 := by
  unfold Db.readRows at hx
  obtain ⟨row, -, hrow⟩ := List.mem_filterMap.1 hx
  split at hrow
  · obtain ⟨e, -, rfl⟩ := Option.map_eq_some_iff.1 hrow
    exact Int.mul_emod_left _ _
  · cases hrow

end

/-! ## Through the cursors of the server -/

theorem micros_eq {t : Int} (h : t % 1000 = 0) : t / 1000 * 1000 = t := by omega

theorem micros_lt {t : Int} (h : t % 1000 ≠ 0) : t / 1000 * 1000 < t := by omega

section
variable {uuidText : ArticleId → List Char} {parseUuid : List Char → Option ArticleId} {x : PageRow}

/-- The time of an article is one of chrono's, and its id is read back from its text. -/
structure PageRow.Written (uuidText : ArticleId → List Char) (parseUuid : List Char → Option ArticleId) (x : PageRow) :
    Prop where
  time : inChronoRange (x.time / 1000) = true
  uuid : parseUuid (uuidText x.article.id) = some x.article.id

/-- The cursor of an article is read back with its time rounded down to a microsecond. -/
theorem decode_articleCursor (h : x.Written uuidText parseUuid) : decodeArticleCursor parseUuid (articleCursor uuidText x) =
    some { arrivedAt := x.time / 1000 * 1000, articleId := x.article.id } := by
  have hpoint : ∀ c ∈ intChars (x.time / 1000), decide (c ≠ '.') = true := by
    intro c hc
    refine decide_eq_true fun he => point_notMem_intChars (x.time / 1000) ?_
    rw [← he]
    exact hc
  have hrange := h.time
  unfold inChronoRange at hrange
  simp only [decide_eq_true_eq] at hrange
  have hread : readI64 (intChars (x.time / 1000)) = some (x.time / 1000) := by
    refine readI64_intChars ?_ ?_
    · exact le_trans (by decide) hrange.1
    · exact lt_of_le_of_lt hrange.2 (by decide)
  unfold decodeArticleCursor articleCursor cursorText
  rw [String.toList_ofList, List.dropWhile_append_of_pos hpoint, List.takeWhile_append_of_pos hpoint]
  simp [hread, h.time, h.uuid, guard]

/-- A cursor that the server can decode has no finer time than microseconds. -/
theorem micros_of_decode {text : String} {c : ArticlePageCursor} (h : decodeArticleCursor parseUuid text = some c) :
    (c.arrivedAt : Int) % 1000 = 0 := by
  unfold decodeArticleCursor at h
  split at h
  · cases h
  · obtain ⟨micros, -, h⟩ := Option.bind_eq_some_iff.1 h
    obtain ⟨-, -, h⟩ := Option.bind_eq_some_iff.1 h
    obtain ⟨id, -, h⟩ := Option.bind_eq_some_iff.1 h
    cases h
    exact Int.mul_emod_left _ _

/-- The pages agree in everything but the unread counter. -/
def SameListing (p p' : ArticlePage) : Prop := { p with unreadTotal := p'.unreadTotal } = p'

/-- The older pages from the beginning list every row of the request once and in order, and the newer pages from an
article exactly the rows before it, both with the cursors of the server; and where the default of the trait selects the
same rows, its pages are the same. -/
structure CoversOnce (uuidText : ArticleId → List Char) (parseUuid : List Char → Option ArticleId) (v : PageTables) (db : Db)
    (w : WorkspaceId) (r : ArticlePageRequest) : Prop where
  older : ∃ pages, Walk (olderPage (decodeArticleCursor parseUuid) (articleCursor uuidText) (articleSummaryPage v db w) r)
      none pages ∧
    pages.flatten = newestFirst (db.selection v w r) ∧ ∀ p ∈ pages.tail, p ≠ []
  newer : ∀ x ∈ db.selection v w r, ∃ pages,
    Walk (newerPage (decodeArticleCursor parseUuid) (articleCursor uuidText) (articleSummaryPage v db w) r)
      (some (articleCursor uuidText x)) pages ∧
    pages.reverse.flatten = (newestFirst (db.selection v w r)).takeWhile (· ≠ x)
  default : ∀ all, (defaultSelection all r).Perm (db.selection v w r) →
    SameListing (articleSummaryPage v db w (r.older none)) (defaultArticleSummaryPage all (r.older none)) ∧
    ∀ text c, decodeArticleCursor parseUuid text = some c →
      SameListing (articleSummaryPage v db w (r.older (some c))) (defaultArticleSummaryPage all (r.older (some c))) ∧
      SameListing (articleSummaryPage v db w (r.newer c)) (defaultArticleSummaryPage all (r.newer c))

variable {v : PageTables} {db : Db} {w : WorkspaceId} {r : ArticlePageRequest}

/-- The queries and the default list the same rows on the same page. -/
theorem same_pages (h : db.OwnIds w) {all : List ArticleListing} (hperm : (defaultSelection all r).Perm (db.selection v w r)) :
    (∀ c : Option ArticlePageCursor, (∀ k, c = some k → r.Exact k) →
      SameListing (articleSummaryPage v db w (r.older c)) (defaultArticleSummaryPage all (r.older c))) ∧
    ∀ c : ArticlePageCursor, r.Exact c →
      SameListing (articleSummaryPage v db w (r.newer c)) (defaultArticleSummaryPage all (r.newer c)) := by
  have hdistinct : DistinctKeys (db.selection v w r) := distinctKeys_selection h
  have hsql := articleSummaryPage_lists hdistinct
  have hdefault := defaultArticleSummaryPage_lists hdistinct hperm
  constructor
  · intro c hc
    obtain ⟨u, hu⟩ := hsql.older c hc
    obtain ⟨u', hu'⟩ := hdefault.older c fun _ _ => trivial
    rw [hu, hu']
    rfl
  · intro c hc
    obtain ⟨u, hu⟩ := hsql.newer c hc
    obtain ⟨u', hu'⟩ := hdefault.newer c trivial
    rw [hu, hu']
    rfl

/-- An article that arrived within a microsecond is read again by the newer pages from its own cursor. -/
theorem not_coversOnce (h : db.OwnIds w) {x : PageRow} (hx : x ∈ db.selection v w r) (hwritten : x.Written uuidText parseUuid)
    (hfine : (x.time : Int) % 1000 ≠ 0) : ¬ CoversOnce uuidText parseUuid v db w r := by
  intro hcovers
  obtain ⟨pages, hwalk, hflatten⟩ := hcovers.newer x hx
  have hlists := articleSummaryPage_lists (distinctKeys_selection (v := v) (r := r) h)
  have hdecode := decode_articleCursor hwritten
  have hexact : r.Exact { arrivedAt := x.time / 1000 * 1000, articleId := x.article.id } :=
    fun _ => Int.mul_emod_left _ _
  exact hlists.newer_repeats hx hdecode hexact (Prod.Lex.toLex_lt_toLex.2 (.inl (micros_lt hfine))) hwalk hflatten

theorem coversOnce_iff (h : db.OwnIds w) (hwritten : ∀ x ∈ db.selection v w r, x.Written uuidText parseUuid) :
    CoversOnce uuidText parseUuid v db w r ↔ ∀ x ∈ db.selection v w r, (x.time : Int) % 1000 = 0 := by
  constructor
  · intro hcovers x hx
    by_contra hfine
    exact not_coversOnce h hx (hwritten x hx) hfine hcovers
  · intro hwhole
    have hlists := articleSummaryPage_lists (distinctKeys_selection (v := v) (r := r) h)
    have hleads : Leads r.Exact (decodeArticleCursor parseUuid) (articleCursor uuidText) (db.selection v w r) := by
      intro x hx
      refine ⟨_, decode_articleCursor (hwritten x hx), ?_, fun _ => Int.mul_emod_left _ _⟩
      show toLex ((x.time : Int) / 1000 * 1000, x.article.id.uuid) = x.key
      rw [micros_eq (hwhole x hx)]
      rfl
    refine ⟨hlists.older_walk _ _ hleads, fun x hx => hlists.newer_walk hleads hx, fun all hperm => ?_⟩
    obtain ⟨holder, hnewer⟩ := same_pages h hperm
    refine ⟨holder none (fun k hk => by cases hk), fun text c hdecode => ⟨holder (some c) fun k hk => ?_, ?_⟩⟩
    · cases hk
      exact fun _ => micros_of_decode hdecode
    · exact hnewer c fun _ => micros_of_decode hdecode

end

/-! ## Two articles -/

def pagedArticle (id : Nat) (arrivedAt : DateTime) : Article :=
  { id := ⟨id⟩, key := { location := .sourceRecord ⟨1⟩ "entry", title := "Title", description := none }, state := {}
    firstArrivedAt := arrivedAt, origins := [], revision := 1 }

def pagedDb (arrivedAt : DateTime) : Db :=
  { articles := ((∅ : Table ArticleKey Article).insert (⟨1⟩, ⟨1⟩) (pagedArticle 1 1000)).insert (⟨1⟩, ⟨2⟩)
      (pagedArticle 2 arrivedAt) }

def pagedTables : PageTables :=
  { finalUrl := fun _ => "", redditFlair := fun _ => none, timestamptz := fun t => t / 1000, occurredAt := fun _ => 0 }

theorem one_lookahead_fits : 1 + 1 ≤ bigintMax := by decide

/-- The unread articles, one on a page. -/
def pagedRequest : ArticlePageRequest :=
  { scope := .feed, cursor := none, direction := .older, limit := ⟨1, Nat.one_pos, one_lookahead_fits⟩
    newer_cursor := fun h => absurd h ArticlePageRequest.older_ne_newer
    period_feed := fun h => absurd h ArticlePageRequest.not_isSome_none
    project_feed := fun h => absurd h ArticlePageRequest.not_isSome_none }

/-- The texts of the UUIDs 1 and 2. -/
def pagedUuid (id : ArticleId) : List Char := "00000000-0000-0000-0000-00000000000".toList ++ Nat.toDigits 16 id.uuid

def parsePagedUuid (cs : List Char) : Option ArticleId :=
  [⟨1⟩, ⟨2⟩].find? fun id => pagedUuid id == cs

instance (x : PageRow) : Decidable (x.Written pagedUuid parsePagedUuid) :=
  decidable_of_iff (inChronoRange (x.time / 1000) = true ∧ parsePagedUuid (pagedUuid x.article.id) = some x.article.id)
    ⟨fun h => ⟨h.1, h.2⟩, fun h => ⟨h.time, h.uuid⟩⟩

theorem coversOnce_micros : (∀ x ∈ (pagedDb 2000).selection pagedTables ⟨1⟩ pagedRequest, (x.time : Int) % 1000 = 0) ∧
    CoversOnce pagedUuid parsePagedUuid pagedTables (pagedDb 2000) ⟨1⟩ pagedRequest := by
  have hwhole : ∀ x ∈ (pagedDb 2000).selection pagedTables ⟨1⟩ pagedRequest, (x.time : Int) % 1000 = 0 := by
    decide +kernel
  exact ⟨hwhole, (coversOnce_iff (.of_rows (by decide +kernel)) (by decide +kernel)).2 hwhole⟩

/-- The second article arrived one nanosecond after a microsecond. -/
theorem nanosecond_not_coversOnce : ¬ CoversOnce pagedUuid parsePagedUuid pagedTables (pagedDb 2001) ⟨1⟩ pagedRequest := by
  refine not_coversOnce (x := { article := pagedArticle 2 2001 }) (.of_rows (by decide +kernel)) ?_ ?_ ?_
  · decide +kernel
  · decide +kernel
  · decide

end Inoreader
