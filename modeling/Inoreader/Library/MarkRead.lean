import Inoreader.Library.Pages

/-!
# Marking a scope read (`mark_scope_read_atomic`)

The operation marks batch after batch of the unread rows of a scope. Marking rows that are shown hides no other unread row,
so the batches together mark the rows that its snapshot has. Other transactions commit while it runs: they neither write a
row that it has marked nor does it mark one that they have written.
-/

namespace Inoreader
open Lib Tx

/-- The document that the operation writes. -/
def Article.markedRead (a : Article) : Article :=
  { a with state := { a.state with read := true }, revision := a.revision + 1 }

/-- The rows marked read, each with its event. -/
def Db.withRead (db : Db) (w : WorkspaceId) (rows : List (ArticleId × Article)) : Db :=
  { db with
    articles := rows.foldl (fun t row => t.insert (w, row.1) row.2.markedRead) db.articles
    articleReadEvents := rows.foldl (fun t row => t.insert ((w, row.1), row.2.revision + 1) .bulk) db.articleReadEvents }

/-- The checks of the operation on a row, and a free place for its event. -/
structure Db.Markable (db : Db) (w : WorkspaceId) (row : ArticleId × Article) : Prop where
  own_id : row.1 = row.2.id
  revision_le : row.2.revision + 1 ≤ bigintMax
  no_event : db.articleReadEvents.lookup ((w, row.1), row.2.revision + 1) = none

/-- Unread rows of the workspace, each once. -/
structure Db.UnreadRows (db : Db) (w : WorkspaceId) (rows : List (ArticleId × Article)) : Prop where
  nodup : (rows.map (·.1)).Nodup
  stored {row} : row ∈ rows → db.articles.lookup (w, row.1) = some row.2
  unread {row} : row ∈ rows → row.2.state.read = false

section
variable {w : WorkspaceId} {db db' : Db} {rows rows' : List (ArticleId × Article)} {row : ArticleId × Article}

theorem Db.withRead_append : db.withRead w (rows ++ rows') = (db.withRead w rows).withRead w rows' := by
  unfold Db.withRead
  rw [List.foldl_append, List.foldl_append]

theorem lookup_withRead (h : (rows.map (·.1)).Nodup) (hrow : row ∈ rows) :
    (db.withRead w rows).articles.lookup (w, row.1) = some row.2.markedRead := by
  have hnodup : (rows.map fun row => (w, row.1)).Nodup := by
    have hpairs := h.map (f := fun i => (w, i)) fun i j hij => congrArg Prod.snd hij
    rwa [List.map_map] at hpairs
  exact Table.lookup_foldl_insert_of_mem (fun row : ArticleId × Article => (w, row.1)) db.articles hnodup hrow

theorem lookup_withRead_of_ne {k : ArticleKey} (h : ∀ row ∈ rows, (w, row.1) ≠ k) :
    (db.withRead w rows).articles.lookup k = db.articles.lookup k :=
  Table.lookup_foldl_insert_of_ne db.articles h

theorem event_withRead (h : (rows.map (·.1)).Nodup) (hrow : row ∈ rows) :
    (db.withRead w rows).articleReadEvents.lookup ((w, row.1), row.2.revision + 1) = some .bulk := by
  have hnodup : (rows.map fun row => ((w, row.1), row.2.revision + 1)).Nodup := by
    rw [List.Nodup, List.pairwise_map] at h ⊢
    exact h.imp fun hne he => hne (congrArg (fun e : ArticleKey × Nat => e.1.2) he)
  exact Table.lookup_foldl_insert_of_mem (fun row : ArticleId × Article => ((w, row.1), row.2.revision + 1))
    db.articleReadEvents hnodup hrow

theorem event_withRead_of_ne {e : ArticleKey × Nat} (h : ∀ row ∈ rows, ((w, row.1), row.2.revision + 1) ≠ e) :
    (db.withRead w rows).articleReadEvents.lookup e = db.articleReadEvents.lookup e :=
  Table.lookup_foldl_insert_of_ne db.articleReadEvents h

theorem Db.UnreadRows.sublist (h : db.UnreadRows w rows) (hsub : rows'.Sublist rows) : db.UnreadRows w rows' where
  nodup := h.nodup.sublist (hsub.map _)
  stored hrow := h.stored (hsub.subset hrow)
  unread hrow := h.unread (hsub.subset hrow)

/-- Marking rows leaves the later ones of the list as they are. -/
theorem Db.UnreadRows.after (rows : List (ArticleId × Article)) (h : db.UnreadRows w (rows ++ rows')) : (db.withRead w rows).UnreadRows w rows' where
  nodup := (h.sublist (List.sublist_append_right _ _)).nodup
  stored {row} hrow := by
    rw [lookup_withRead_of_ne, h.stored (List.mem_append_right _ hrow)]
    intro other hother he
    have hdisjoint := List.disjoint_of_nodup_append (by rw [← List.map_append]; exact h.nodup)
    have hid : other.1 = row.1 := congrArg Prod.snd he
    refine hdisjoint (List.mem_map_of_mem hother) ?_
    rw [hid]
    exact List.mem_map_of_mem hrow
  unread hrow := h.unread (List.mem_append_right _ hrow)

theorem markable_after (hne : row.1 ∉ rows.map (·.1)) :
    (db.withRead w rows).Markable w row ↔ db.Markable w row := by
  have hevent : (db.withRead w rows).articleReadEvents.lookup ((w, row.1), row.2.revision + 1) =
      db.articleReadEvents.lookup ((w, row.1), row.2.revision + 1) := by
    refine event_withRead_of_ne fun other hother he => hne ?_
    have hid : other.1 = row.1 := congrArg (fun e : ArticleKey × Nat => e.1.2) he
    rw [← hid]
    exact List.mem_map_of_mem hother
  constructor
  · exact fun h => ⟨h.own_id, h.revision_le, hevent ▸ h.no_event⟩
  · exact fun h => ⟨h.own_id, h.revision_le, hevent.symm ▸ h.no_event⟩

/-! ## One batch -/

/-- The value of a row in the `UPDATE`. -/
def markedValue (row : ArticleId × Article) : ArticleId × Nat := (row.1, row.2.revision + 1)

/-- One value of an unread row: the row is marked unless its event is there. -/
theorem markValue_ok {n m : Nat} (hstored : db.articles.lookup (w, row.1) = some row.2) (hunread : row.2.state.read = false) :
    markValue w n (markedValue row) db = .ok (m, db') ↔
      (row.2.revision + 1 ≤ bigintMax ∧ db.articleReadEvents.lookup ((w, row.1), row.2.revision + 1) = none) ∧
        m = n + 1 ∧ db' = db.withRead w [row] := by
  unfold markValue markedValue
  rw [bind_run, get_run]
  dsimp only
  simp only [hstored]
  rw [if_pos ⟨trivial, hunread⟩, bind_run, modify_run]
  dsimp only
  unfold recordRead repoI64
  constructor
  · intro hrun
    obtain ⟨_, d, hrecord, hrun⟩ := bind_ok.1 hrun
    cases hrun
    obtain ⟨hle, hrecord⟩ := bind_require_ok.1 hrecord
    rw [bind_run, get_run] at hrecord
    obtain ⟨hfree, hrecord⟩ := bind_require_ok.1 hrecord
    cases hrecord
    exact ⟨⟨hle, hfree⟩, rfl, rfl⟩
  · rintro ⟨⟨hle, hfree⟩, rfl, rfl⟩
    refine bind_ok.2 ⟨(), db.withRead w [row], ?_, rfl⟩
    refine bind_require_ok.2 ⟨hle, ?_⟩
    rw [bind_run, get_run]
    exact bind_require_ok.2 ⟨hfree, rfl⟩

/-- The values of unread rows in turn. -/
theorem markValues_ok (h : db.UnreadRows w rows) {n m : Nat} :
    loop (markValue w) n (rows.map markedValue) db = .ok (m, db') ↔
      (∀ row ∈ rows, row.2.revision + 1 ≤ bigintMax ∧
        db.articleReadEvents.lookup ((w, row.1), row.2.revision + 1) = none) ∧
      m = n + rows.length ∧ db' = db.withRead w rows := by
  induction rows generalizing n db with
  | nil =>
    show (Except.ok (n, db) : Except RepositoryError (Nat × Db)) = _ ↔ _
    simp only [List.not_mem_nil, false_implies, implies_true, true_and, Except.ok.injEq, Prod.mk.injEq,
      List.length_nil, Nat.add_zero]
    exact and_congr eq_comm eq_comm
  | cons row rows ih =>
    have hafter : (db.withRead w [row]).UnreadRows w rows := Db.UnreadRows.after [row] h
    have hfirst : row.1 ∉ rows.map (·.1) := (List.nodup_cons.1 h.nodup).1
    -- the event of a later row is another one
    have hevents : ∀ other ∈ rows,
        (db.withRead w [row]).articleReadEvents.lookup ((w, other.1), other.2.revision + 1) =
          db.articleReadEvents.lookup ((w, other.1), other.2.revision + 1) := by
      intro other hother
      refine event_withRead_of_ne fun x hx he => hfirst ?_
      rw [List.mem_singleton.1 hx] at he
      have hid : row.1 = other.1 := congrArg (fun e : ArticleKey × Nat => e.1.2) he
      rw [hid]
      exact List.mem_map_of_mem hother
    rw [List.map_cons, loop, bind_ok]
    constructor
    · rintro ⟨k, d, hvalue, hrest⟩
      obtain ⟨hrow, rfl, rfl⟩ := (markValue_ok (h.stored List.mem_cons_self) (h.unread List.mem_cons_self)).1 hvalue
      obtain ⟨hrows, rfl, rfl⟩ := (ih hafter).1 hrest
      refine ⟨List.forall_mem_cons.2 ⟨hrow, fun other hother => ?_⟩, by rw [List.length_cons]; omega, rfl⟩
      rw [← hevents other hother]
      exact hrows other hother
    · rintro ⟨hrows, rfl, rfl⟩
      obtain ⟨hrow, hrows⟩ := List.forall_mem_cons.1 hrows
      refine ⟨n + 1, _, (markValue_ok (h.stored List.mem_cons_self) (h.unread List.mem_cons_self)).2 ⟨hrow, rfl, rfl⟩, ?_⟩
      refine (ih hafter).2 ⟨fun other hother => ?_, by rw [List.length_cons]; omega, rfl⟩
      rw [hevents other hother]
      exact hrows other hother

/-- The statements over the pieces of a batch. -/
theorem markChunks_ok (chunks : List (List (ArticleId × Article))) (u : Unit) (db' : Db)
    (h : db.UnreadRows w chunks.flatten) :
    loop (fun _ chunk => markChunk w chunk) () (chunks.map (List.map markedValue)) db = .ok (u, db') ↔
      (∀ row ∈ chunks.flatten, row.2.revision + 1 ≤ bigintMax ∧
        db.articleReadEvents.lookup ((w, row.1), row.2.revision + 1) = none) ∧ db' = db.withRead w chunks.flatten := by
  induction chunks generalizing db with
  | nil =>
    show (Except.ok ((), db) : Except RepositoryError (Unit × Db)) = _ ↔ _
    simp only [List.flatten_nil, List.not_mem_nil, false_implies, implies_true, true_and, Except.ok.injEq,
      Prod.mk.injEq]
    exact eq_comm
  | cons chunk chunks ih =>
    rw [List.flatten_cons] at h ⊢
    have hchunk := h.sublist (List.sublist_append_left chunk chunks.flatten)
    have hdisjoint : (chunk.map (·.1)).Disjoint (chunks.flatten.map (·.1)) :=
      List.disjoint_of_nodup_append (by rw [← List.map_append]; exact h.nodup)
    have hevents : ∀ row ∈ chunks.flatten,
        (db.withRead w chunk).articleReadEvents.lookup ((w, row.1), row.2.revision + 1) =
          db.articleReadEvents.lookup ((w, row.1), row.2.revision + 1) := by
      intro row hrow
      refine event_withRead_of_ne fun other hother he => hdisjoint (List.mem_map_of_mem hother) ?_
      have hid : other.1 = row.1 := congrArg (fun e : ArticleKey × Nat => e.1.2) he
      rw [hid]
      exact List.mem_map_of_mem hrow
    rw [List.map_cons, loop, bind_ok, Db.withRead_append]
    constructor
    · rintro ⟨_, d, hmark, hrest⟩
      obtain ⟨n, d₁, hvalues, hrequire⟩ := bind_ok.1 hmark
      obtain ⟨-, rfl⟩ := require_ok.1 hrequire
      obtain ⟨hrows, -, rfl⟩ := (markValues_ok hchunk).1 hvalues
      obtain ⟨hlater, rfl⟩ := (ih (h.after chunk)).1 hrest
      refine ⟨List.forall_mem_append.2 ⟨hrows, fun row hrow => ?_⟩, rfl⟩
      rw [← hevents row hrow]
      exact hlater row hrow
    · rintro ⟨hrows, rfl⟩
      obtain ⟨hrows, hrest⟩ := List.forall_mem_append.1 hrows
      refine ⟨(), db.withRead w chunk, ?_, (ih (h.after chunk)).2 ⟨fun row hrow => ?_, rfl⟩⟩
      · refine bind_ok.2 ⟨0 + chunk.length, _, (markValues_ok hchunk).2 ⟨hrows, rfl, rfl⟩, ?_⟩
        rw [Nat.zero_add]
        exact require_ok.2 ⟨(List.length_map _).symm, rfl⟩
      · rw [hevents row hrow]
        exact hrest row hrow

theorem selectedValue_ok {value : ArticleId × Nat} :
    selectedValue row db = .ok (value, db') ↔
      (row.1 = row.2.id ∧ row.2.revision + 1 ≤ bigintMax) ∧ value = markedValue row ∧ db' = db := by
  unfold selectedValue repoI64 markedValue
  rw [bind_require_ok, bind_require_ok, bind_require_ok, pure_run]
  have hbig : row.2.revision + 1 ≤ bigintMax → row.2.revision + 1 < 2 ^ 64 := by
    unfold bigintMax
    omega
  constructor
  · rintro ⟨hid, -, hle, hpure⟩
    cases hpure
    exact ⟨⟨hid, hle⟩, rfl, rfl⟩
  · rintro ⟨⟨hid, hle⟩, rfl, rfl⟩
    exact ⟨hid, hbig hle, hle, rfl⟩

theorem selectedValues_ok {acc values : List (ArticleId × Nat)} :
    loop (fun values row => selectedValue row >>= fun value => pure (values ++ [value])) acc rows db = .ok (values, db') ↔
      (∀ row ∈ rows, row.1 = row.2.id ∧ row.2.revision + 1 ≤ bigintMax) ∧ values = acc ++ rows.map markedValue ∧
        db' = db := by
  induction rows generalizing acc with
  | nil =>
    show (Except.ok (acc, db) : Except RepositoryError (List (ArticleId × Nat) × Db)) = _ ↔ _
    simp only [List.not_mem_nil, false_implies, implies_true, true_and, Except.ok.injEq, Prod.mk.injEq, List.map_nil,
      List.append_nil]
    exact and_congr eq_comm eq_comm
  | cons row rows ih =>
    rw [loop, bind_ok]
    constructor
    · rintro ⟨acc', d, hvalue, hrest⟩
      obtain ⟨value, d₁, hvalue, hpure⟩ := bind_ok.1 hvalue
      cases hpure
      obtain ⟨hrow, rfl, rfl⟩ := selectedValue_ok.1 hvalue
      obtain ⟨hrows, rfl, rfl⟩ := ih.1 hrest
      exact ⟨List.forall_mem_cons.2 ⟨hrow, hrows⟩, by simp, rfl⟩
    · rintro ⟨hrows, rfl, rfl⟩
      obtain ⟨hrow, hrows⟩ := List.forall_mem_cons.1 hrows
      refine ⟨acc ++ [markedValue row], db', ?_, ih.2 ⟨hrows, by simp, rfl⟩⟩
      exact bind_ok.2 ⟨_, _, selectedValue_ok.2 ⟨hrow, rfl, rfl⟩, rfl⟩

/-- A batch of unread rows is marked as a whole, if every row passes. -/
theorem markRows_ok (h : db.UnreadRows w rows) {u : Unit} :
    markRows w rows db = .ok (u, db') ↔ (∀ row ∈ rows, db.Markable w row) ∧ db' = db.withRead w rows := by
  have hpieces : (chunksOf (65535 / 2) rows).flatten = rows := flatten_chunksOf (by decide) rows
  have hchunks := markChunks_ok (chunksOf (65535 / 2) rows) u db' (by rw [hpieces]; exact h)
  rw [hpieces] at hchunks
  unfold markRows
  rw [bind_ok]
  constructor
  · rintro ⟨values, d, hvalues, hrest⟩
    obtain ⟨hrows, rfl, rfl⟩ := selectedValues_ok.1 hvalues
    rw [List.nil_append, chunksOf_map] at hrest
    obtain ⟨hevents, rfl⟩ := hchunks.1 hrest
    exact ⟨fun row hrow => ⟨(hrows row hrow).1, (hrows row hrow).2, (hevents row hrow).2⟩, rfl⟩
  · rintro ⟨hrows, rfl⟩
    refine ⟨rows.map markedValue, db, selectedValues_ok.2 ⟨fun row hrow => ?_, rfl, rfl⟩, ?_⟩
    · exact ⟨(hrows row hrow).own_id, (hrows row hrow).revision_le⟩
    · rw [chunksOf_map]
      exact hchunks.2 ⟨fun row hrow => ⟨(hrows row hrow).revision_le, (hrows row hrow).no_event⟩, rfl⟩

end

/-! ## What marking hides -/

section
variable {v : VisibilityTables} {w : WorkspaceId} {db : Db} {rows : List (ArticleId × Article)} {row prior : ArticleId × Article}

theorem priorDuplicate_iff : priorDuplicate v db w row prior = true ↔
    (readerDisplayUrl v db w prior).isSome = true ∧ readerDisplayUrl v db w prior = readerDisplayUrl v db w row ∧
      prior.2.key.title = row.2.key.title ∧ (prior.2.state.read = true ∨ arrivalKey prior < arrivalKey row) ∧
      prior.1 ≠ row.1 := by
  simp [priorDuplicate, and_assoc]

/-- Of two articles with the same page and title one priorDuplicate the other. -/
theorem priorDuplicate_or (prior : ArticleId × Article) (hsame : readerDisplayUrl v db w prior = readerDisplayUrl v db w row)
    (hsome : (readerDisplayUrl v db w prior).isSome = true) (htitle : prior.2.key.title = row.2.key.title)
    (hne : prior.1 ≠ row.1) : priorDuplicate v db w row prior = true ∨ priorDuplicate v db w prior row = true := by
  have hkeys : arrivalKey prior ≠ arrivalKey row := by
    intro he
    have huuid : prior.1.uuid = row.1.uuid := congrArg (fun k : ℤ ×ₗ ℕ => (ofLex k).2) he
    exact hne (congrArg ArticleId.mk huuid)
  rcases lt_or_gt_of_ne hkeys with hlt | hgt
  · exact .inl (priorDuplicate_iff.2 ⟨hsome, hsame, htitle, .inr hlt, hne⟩)
  · exact .inr (priorDuplicate_iff.2 ⟨by rw [← hsame]; exact hsome, hsame.symm, htitle.symm, .inr hgt, hne.symm⟩)

/-- A row after marking is a marked one, or another one as it was. -/
theorem lookup_withRead_iff (h : db.UnreadRows w rows) {i : ArticleId} {b : Article} :
    (db.withRead w rows).articles.lookup (w, i) = some b ↔
      (∃ a, (i, a) ∈ rows ∧ b = a.markedRead) ∨ (i ∉ rows.map (·.1) ∧ db.articles.lookup (w, i) = some b) := by
  by_cases hi : i ∈ rows.map (·.1)
  · obtain ⟨⟨j, a⟩, ha, rfl⟩ := List.mem_map.1 hi
    have hmarked : (db.withRead w rows).articles.lookup (w, j) = some a.markedRead := lookup_withRead h.nodup ha
    rw [hmarked]
    constructor
    · intro hb
      cases hb
      exact .inl ⟨a, ha, rfl⟩
    · rintro (⟨a', ha', rfl⟩ | ⟨hnot, -⟩)
      · have hsame : db.articles.lookup (w, j) = some a' := h.stored ha'
        rw [h.stored ha] at hsame
        cases hsame
        rfl
      · exact absurd hi hnot
  · have hother : (db.withRead w rows).articles.lookup (w, i) = db.articles.lookup (w, i) := by
      refine lookup_withRead_of_ne fun other hother he => hi ?_
      have hid : other.1 = i := congrArg Prod.snd he
      rw [← hid]
      exact List.mem_map_of_mem hother
    rw [hother]
    constructor
    · exact fun hb => .inr ⟨hi, hb⟩
    · rintro (⟨a, ha, -⟩ | ⟨-, hb⟩)
      · exact absurd (List.mem_map_of_mem (f := (·.1)) ha) hi
      · exact hb

/-- Marking shown rows makes no other row a duplicate: one that a marked row would hide is hidden already, or it hides the
marked row. -/
theorem any_priorDuplicate_withRead (h : db.UnreadRows w rows)
    (hshown : ∀ row ∈ rows, (db.workspaceArticles w).any (priorDuplicate v db w row) = false)
    (hstored : db.articles.lookup (w, row.1) = some row.2) :
    ((db.withRead w rows).workspaceArticles w).any (priorDuplicate v (db.withRead w rows) w row) =
      (db.workspaceArticles w).any (priorDuplicate v db w row) := by
  rw [Bool.eq_iff_iff, List.any_eq_true, List.any_eq_true]
  constructor
  · rintro ⟨⟨i, b⟩, hb, hprior⟩
    rcases (lookup_withRead_iff h).1 (mem_workspaceArticles.1 hb) with ⟨a, ha, rfl⟩ | ⟨-, hb⟩
    · obtain ⟨hsome, hsame, htitle, -, hid⟩ := priorDuplicate_iff.1 hprior
      rcases priorDuplicate_or (i, a) hsame hsome htitle hid with hbefore | hafter
      · exact ⟨(i, a), mem_workspaceArticles.2 (h.stored ha), hbefore⟩
      · have hhidden : (db.workspaceArticles w).any (priorDuplicate v db w (i, a)) = true :=
          List.any_eq_true.2 ⟨row, mem_workspaceArticles.2 hstored, hafter⟩
        rw [hshown (i, a) ha] at hhidden
        cases hhidden
    · exact ⟨(i, b), mem_workspaceArticles.2 hb, hprior⟩
  · rintro ⟨⟨i, b⟩, hb, hprior⟩
    have hb : db.articles.lookup (w, i) = some b := mem_workspaceArticles.1 hb
    by_cases hi : i ∈ rows.map (·.1)
    · obtain ⟨⟨j, a⟩, ha, rfl⟩ := List.mem_map.1 hi
      have hab : b = a := by
        rw [show db.articles.lookup (w, j) = some a from h.stored ha] at hb
        cases hb
        rfl
      subst hab
      obtain ⟨hsome, hsame, htitle, -, hid⟩ := priorDuplicate_iff.1 hprior
      refine ⟨(j, b.markedRead), mem_workspaceArticles.2 (lookup_withRead h.nodup ha), ?_⟩
      exact priorDuplicate_iff.2 ⟨hsome, hsame, htitle, .inl rfl, hid⟩
    · exact ⟨(i, b), mem_workspaceArticles.2 ((lookup_withRead_iff h).2 (.inr ⟨hi, hb⟩)), hprior⟩

/-- A shown article is no duplicate where duplicates are hidden. -/
theorem not_priorDuplicate_of_visible {p : VisibilityPreferences} (hp : v.readingPreferences.lookup w = some p)
    (hskip : p.skipDuplicates = true) (h : readerArticleVisible v db w row = true) :
    (db.workspaceArticles w).any (priorDuplicate v db w row) = false := by
  unfold readerArticleVisible at h
  simp only [hp, hskip, Bool.true_and, Bool.not_eq_true', Bool.or_eq_false_iff] at h
  exact h.1.1.1.2

/-- Marking shown rows hides and shows no other row. -/
theorem visible_withRead (h : db.UnreadRows w rows) (hshown : ∀ row ∈ rows, readerArticleVisible v db w row = true)
    (hstored : db.articles.lookup (w, row.1) = some row.2) :
    readerArticleVisible v (db.withRead w rows) w row = readerArticleVisible v db w row := by
  unfold readerArticleVisible
  cases hp : v.readingPreferences.lookup w with
  | none => rfl
  | some p =>
    have hcareer : isRedditCareer v (db.withRead w rows) w row.1 = isRedditCareer v db w row.1 := rfl
    have hduplicate : (p.skipDuplicates &&
        ((db.withRead w rows).workspaceArticles w).any (priorDuplicate v (db.withRead w rows) w row)) =
        (p.skipDuplicates && (db.workspaceArticles w).any (priorDuplicate v db w row)) := by
      cases hskip : p.skipDuplicates with
      | false => rfl
      | true =>
        rw [any_priorDuplicate_withRead h (fun row hrow => not_priorDuplicate_of_visible hp hskip (hshown row hrow)) hstored]
    dsimp only
    rw [hduplicate, hcareer]

end

/-! ## The rows of a scope -/

/-- `reader_article_visible` of a document under its own id. -/
def shownArticle (v : VisibilityTables) (db : Db) (w : WorkspaceId) (a : Article) : Bool :=
  readerArticleVisible v db w (a.id, a)

/-- The row is unread and in the scope. -/
def Db.inScope (v : VisibilityTables) (db : Db) (w : WorkspaceId) (scope : ArticleScope) (row : ArticleId × Article) : Bool :=
  !row.2.state.read &&
    ((match scope with | .subscription _ => true | _ => false) || shownArticle v db w row.2) &&
    (decide (scope ≠ .later) || row.2.state.later) &&
    scope.subscriptionId.all fun s => db.libraryOrigins.any fun o =>
      o.workspaceId = w ∧ o.articleId = row.1 ∧ o.subscriptionId = s

section
variable {v : VisibilityTables} {w : WorkspaceId} {db : Db} {scope : ArticleScope} {after : Option ArticleId}
  {rows m₁ m₂ : List (ArticleId × Article)} {row last : ArticleId × Article}

theorem mem_unreadInScope : row ∈ db.unreadInScope (shownArticle v) w scope after ↔
    db.articles.lookup (w, row.1) = some row.2 ∧ db.inScope v w scope row = true ∧
      ∀ a, after = some a → a.uuid < row.1.uuid := by
  unfold Db.unreadInScope Db.inScope
  rw [List.mem_filter, mem_workspaceArticles, Bool.and_eq_true]
  refine and_congr_right fun _ => and_congr_right fun _ => ?_
  cases after with
  | none => simp
  | some a => simp

theorem unread_of_inScope (h : db.inScope v w scope row = true) : row.2.state.read = false := by
  unfold Db.inScope at h
  simp only [Bool.and_eq_true, Bool.not_eq_true'] at h
  exact h.1.1.1

theorem shown_of_inScope (h : db.inScope v w scope row = true) (hscope : ∀ s, scope ≠ .subscription s) :
    shownArticle v db w row.2 = true := by
  unfold Db.inScope at h
  simp only [Bool.and_eq_true] at h
  have hshown := h.1.1.2
  cases scope with
  | subscription s => exact absurd rfl (hscope s)
  | feed => simpa using hshown
  | later => simpa using hshown
  | subscriptionUnread s => simpa using hshown

/-- The rows of a scope stand in the order of their ids. -/
theorem unreadInScope_increasing (db : Db) (w : WorkspaceId) (scope : ArticleScope) (after : Option ArticleId) :
    (db.unreadInScope (shownArticle v) w scope after).Pairwise fun x y => x.1.uuid < y.1.uuid := by
  have h := articleIds_increasing db w
  rw [List.pairwise_map] at h
  exact h.sublist List.filter_sublist

theorem unreadInScope_unreadRows : db.UnreadRows w (db.unreadInScope (shownArticle v) w scope after) where
  nodup := (nodup_workspaceArticles db).sublist (List.filter_sublist.map _)
  stored hrow := (mem_unreadInScope.1 hrow).1
  unread hrow := unread_of_inScope (mem_unreadInScope.1 hrow).2.1

/-- Marking rows of the scope leaves the others of the scope in it. -/
theorem inScope_withRead (hids : db.OwnIds w) (h : db.UnreadRows w rows) (hrows : ∀ row ∈ rows, db.inScope v w scope row = true)
    (hstored : db.articles.lookup (w, row.1) = some row.2) :
    (db.withRead w rows).inScope v w scope row = db.inScope v w scope row := by
  have hid : row.2.id = row.1 := hids row.1 row.2 hstored
  by_cases hscope : ∃ s, scope = .subscription s
  · obtain ⟨s, rfl⟩ := hscope
    rfl
  · have hall : ∀ row ∈ rows, readerArticleVisible v db w row = true := by
      intro other hother
      have hshown := shown_of_inScope (hrows other hother) fun s hs => hscope ⟨s, hs⟩
      unfold shownArticle at hshown
      rwa [hids other.1 other.2 (h.stored hother)] at hshown
    have hvisible : shownArticle v (db.withRead w rows) w row.2 = shownArticle v db w row.2 := by
      unfold shownArticle
      rw [hid]
      exact visible_withRead h hall hstored
    unfold Db.inScope
    rw [hvisible]
    rfl

/-- Increasing lists with the same rows are the same. -/
theorem eq_of_increasing (h₁ : m₁.Pairwise fun x y => x.1.uuid < y.1.uuid) (h₂ : m₂.Pairwise fun x y => x.1.uuid < y.1.uuid)
    (hmem : ∀ row, row ∈ m₁ ↔ row ∈ m₂) : m₁ = m₂ := by
  have hnodup : ∀ {m : List (ArticleId × Article)}, m.Pairwise (fun x y => x.1.uuid < y.1.uuid) → m.Nodup :=
    fun h => h.imp fun hlt he => by rw [he] at hlt; exact lt_irrefl _ hlt
  have hperm : m₁.Perm m₂ := (List.perm_ext_iff_of_nodup (hnodup h₁) (hnodup h₂)).2 hmem
  exact hperm.eq_of_pairwise (fun x y _ _ hxy hyx => absurd (lt_trans hxy hyx) (lt_irrefl _)) h₁ h₂

/-- After a batch the rows behind its last one are those that were behind it before. -/
theorem unreadInScope_after (hids : db.OwnIds w) (hrows : db.unreadInScope (shownArticle v) w scope after = m₁ ++ m₂)
    (hlast : m₁.getLast? = some last) :
    (db.withRead w m₁).unreadInScope (shownArticle v) w scope (some last.1) = m₂ := by
  have hincreasing := unreadInScope_increasing (v := v) db w scope after
  have hunread : db.UnreadRows w (db.unreadInScope (shownArticle v) w scope after) := unreadInScope_unreadRows
  rw [hrows] at hincreasing hunread
  have hbatch : db.UnreadRows w m₁ := hunread.sublist (List.sublist_append_left _ _)
  have hscope : ∀ row ∈ m₁, db.inScope v w scope row = true := by
    intro row hrow
    have hmem : row ∈ db.unreadInScope (shownArticle v) w scope after := by
      rw [hrows]
      exact List.mem_append_left _ hrow
    exact (mem_unreadInScope.1 hmem).2.1
  obtain ⟨init, rfl⟩ : ∃ init, m₁ = init ++ [last] := by
    obtain ⟨init, hinit⟩ := List.getLast?_eq_some_iff.1 hlast
    exact ⟨init, hinit⟩
  refine eq_of_increasing (unreadInScope_increasing _ w scope _) (List.pairwise_append.1 hincreasing).2.1 fun row => ?_
  constructor
  · intro hrow
    obtain ⟨hstored, hin, hbehind⟩ := mem_unreadInScope.1 hrow
    have hlt : last.1.uuid < row.1.uuid := hbehind last.1 rfl
    -- a marked row is read, so this one was there before
    have hbefore : db.articles.lookup (w, row.1) = some row.2 := by
      rcases (lookup_withRead_iff hbatch).1 hstored with ⟨a, -, ha⟩ | ⟨-, hbefore⟩
      · have hread := unread_of_inScope hin
        rw [ha] at hread
        cases hread
      · exact hbefore
    rw [inScope_withRead hids hbatch hscope hbefore] at hin
    have hmem : row ∈ db.unreadInScope (shownArticle v) w scope after := by
      refine mem_unreadInScope.2 ⟨hbefore, hin, fun a ha => ?_⟩
      have hfirst : last ∈ db.unreadInScope (shownArticle v) w scope after := by
        rw [hrows]
        simp
      exact lt_trans ((mem_unreadInScope.1 hfirst).2.2 a ha) hlt
    rw [hrows, List.mem_append] at hmem
    rcases hmem with hmem | hmem
    · rcases List.mem_append.1 hmem with hinit | hself
      · have hordered := (List.pairwise_append.1 (List.pairwise_append.1 hincreasing).1).2.2 row hinit last List.mem_cons_self
        omega
      · rw [List.mem_singleton.1 hself] at hlt
        omega
    · exact hmem
  · intro hrow
    have hmem : row ∈ db.unreadInScope (shownArticle v) w scope after := by
      rw [hrows]
      exact List.mem_append_right _ hrow
    obtain ⟨hstored, hin, -⟩ := mem_unreadInScope.1 hmem
    refine mem_unreadInScope.2 ⟨(hunread.after _).stored hrow, ?_, fun a ha => ?_⟩
    · rw [inScope_withRead hids hbatch hscope hstored]
      exact hin
    · cases ha
      exact (List.pairwise_append.1 hincreasing).2.2 last (by simp) row hrow

theorem ownIds_withRead (hids : db.OwnIds w) (h : db.UnreadRows w rows) : (db.withRead w rows).OwnIds w := by
  intro i a ha
  rcases (lookup_withRead_iff h).1 ha with ⟨b, hb, rfl⟩ | ⟨-, hb⟩
  · exact hids i b (h.stored hb)
  · exact hids i a hb

/-- A batch is the first rows of the scope. -/
theorem batch_rows {batch : Nat} (rows : List (ArticleId × Article)) (hlast : (rows.take batch).getLast? = some last) :
    rows = rows.take batch ++ rows.drop batch ∧ (rows.drop batch).length < rows.length := by
  have hne : rows.take batch ≠ [] := by
    intro hnil
    rw [hnil] at hlast
    cases hlast
  have hpos : 0 < (rows.take batch).length := List.length_pos_iff.2 hne
  rw [List.length_take] at hpos
  have hlength : (rows.drop batch).length < rows.length := by
    rw [List.length_drop]
    omega
  exact ⟨(List.take_append_drop batch rows).symm, hlength⟩

/-- The rows behind a batch pass in the state after it if and only if they pass before it. -/
theorem markable_rest (h : db.UnreadRows w (m₁ ++ m₂)) : (∀ row ∈ m₂, (db.withRead w m₁).Markable w row) ↔
    ∀ row ∈ m₂, db.Markable w row := by
  have hdisjoint : (m₁.map (·.1)).Disjoint (m₂.map (·.1)) :=
    List.disjoint_of_nodup_append (by rw [← List.map_append]; exact h.nodup)
  refine forall₂_congr fun row hrow => markable_after fun hmem => ?_
  exact hdisjoint hmem (List.mem_map_of_mem hrow)

/-- The batches together mark the rows that the first one finds, if all of them pass. -/
theorem markBatches_ok {batch bound : Nat} {db' : Db} {u : Unit} (after : Option ArticleId) (hids : db.OwnIds w)
    (hbatch : 0 < batch) (hbound : (db.unreadInScope (shownArticle v) w scope after).length < bound) :
    markBatches (shownArticle v) w scope batch bound after db = .ok (u, db') ↔
      (∀ row ∈ db.unreadInScope (shownArticle v) w scope after, db.Markable w row) ∧
        db' = db.withRead w (db.unreadInScope (shownArticle v) w scope after) := by
  induction bound generalizing db after with
  | zero => omega
  | succ bound ih =>
    have hunread : db.UnreadRows w (db.unreadInScope (shownArticle v) w scope after) := unreadInScope_unreadRows
    simp only [markBatches]
    rw [bind_run, get_run]
    cases hlast : ((db.unreadInScope (shownArticle v) w scope after).take batch).getLast? with
    | none =>
      have hnil : db.unreadInScope (shownArticle v) w scope after = [] := by
        rcases List.take_eq_nil_iff.1 (List.getLast?_eq_none_iff.1 hlast) with hzero | hnil
        · omega
        · exact hnil
      simp only [hlast]
      rw [hnil, pure_run]
      show (Except.ok ((), db) : Except RepositoryError (Unit × Db)) = _ ↔ _
      simp only [List.not_mem_nil, false_implies, implies_true, true_and, Except.ok.injEq, Prod.mk.injEq]
      exact eq_comm
    | some last =>
      obtain ⟨hrows, hshorter⟩ := batch_rows _ hlast
      rw [hrows] at hunread
      have hafter := unreadInScope_after hids hrows hlast
      have hrest := hunread.sublist (List.sublist_append_left _ _)
      have hih := ih (some last.1) (ownIds_withRead hids hrest) (by rw [hafter]; omega)
      rw [hafter, markable_rest hunread, ← Db.withRead_append, ← hrows] at hih
      simp only [hlast]
      rw [bind_ok]
      constructor
      · rintro ⟨_, d, hmark, hbatches⟩
        obtain ⟨hfirst, rfl⟩ := (markRows_ok hrest).1 hmark
        obtain ⟨hothers, rfl⟩ := hih.1 hbatches
        refine ⟨fun row hrow => ?_, rfl⟩
        rw [hrows] at hrow
        rcases List.mem_append.1 hrow with hrow | hrow
        · exact hfirst row hrow
        · exact hothers row hrow
      · rintro ⟨hall, rfl⟩
        refine ⟨(), _, (markRows_ok hrest).2 ⟨fun row hrow => hall row (List.mem_of_mem_take hrow), rfl⟩, ?_⟩
        exact hih.2 ⟨fun row hrow => hall row (List.mem_of_mem_drop hrow), rfl⟩

/-- The operation marks the unread rows of the scope, or fails if one of them does not pass. -/
theorem markScopeReadAtomic_ok {batch : Nat} {db' : Db} {u : Unit} (hids : db.OwnIds w) (hbatch : 0 < batch) :
    markScopeReadAtomic (shownArticle v) w scope batch db = .ok (u, db') ↔
      (∀ row ∈ db.unreadInScope (shownArticle v) w scope none, db.Markable w row) ∧
        db' = db.withRead w (db.unreadInScope (shownArticle v) w scope none) := by
  unfold markScopeReadAtomic
  rw [bind_run, get_run]
  refine markBatches_ok none hids hbatch ?_
  exact Nat.lt_succ_of_le List.filter_sublist.length_le

end
end Inoreader
