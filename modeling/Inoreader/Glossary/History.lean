import Inoreader.Glossary.Projection
import Mathlib.Data.Finset.Card
import Mathlib.Data.Finset.Filter

/-!
# The walk through the public history (`reader-glossary/src/service.rs`)

`history_once` leases the channel, reads one page below the cursor and commits it; a page that does not parse keeps the
cursor. The walk ends with a commit without a cursor. `parse_public_page` takes the id 1 for the end of the history and an
empty page for an error, so a channel without a post 1 is never walked to its end.
-/

namespace Inoreader
open Lib

/-- The part of `GlossaryConfig` that `history_once` reads. -/
structure HistoryConfig where
  leaseSeconds : Nat
  retryMaxSeconds : Nat
  publicPageIntervalMilliseconds : Nat
  historyReconcileIntervalSeconds : Nat

/-- One call of `history_once`: the UUIDs it draws, the times of its first and of its last statement and the answers of the
page source. -/
structure HistoryTurn where
  lease : Nat
  receipt : Nat
  start : DateTime
  finish : DateTime
  page : Option Int → String × List PageNode

/-- The pause after a page; `div_ceil(1000)` of the interval between two pages. -/
def HistoryConfig.delay (config : HistoryConfig) (page : PublicPage) : Nat :=
  if page.before.isNone then config.historyReconcileIntervalSeconds
  else (config.publicPageIntervalMilliseconds + 999) / 1000

section
variable (P : GlossaryPlatform) (parser : GlossaryParser) (config : HistoryConfig) (key : AccountId × WorkspaceId)

/-- `history_once` when the channel `key` is the next one: its result and the tables after it. -/
def historyOnce (t : HistoryTurn) (db : GlossaryDb) : Except GlossaryError Bool × GlossaryDb :=
  match leaseHistory key t.lease config.leaseSeconds t.start db with
  | .error e => (.error e, db)
  | .ok (none, db₁) => (.ok false, db₁)
  | .ok (some claim, db₁) =>
    match parsePublicPage P parser (t.page claim.before).1 (t.page claim.before).2 claim.before with
    | .ok page =>
      match persistPage parser.version claim page (config.delay page) t.receipt t.finish db₁ with
      | .ok (_, db₂) => (.ok true, db₂)
      | .error e => (.error e, db₁)
    | .error error =>
      match releaseHistory claim error.text config.retryMaxSeconds t.finish db₁ with
      | .ok (_, db₂) => (.error error, db₂)
      | .error e => (.error e, db₁)

/-- The tables after the first `i` turns. -/
def historyWalk (turns : Nat → HistoryTurn) (db : GlossaryDb) : Nat → GlossaryDb
  | 0 => db
  | i + 1 => (historyOnce P parser config key (turns i) (historyWalk turns db i)).2

/-- What turn `i` returns. -/
def historyResult (turns : Nat → HistoryTurn) (db : GlossaryDb) (i : Nat) : Except GlossaryError Bool :=
  (historyOnce P parser config key (turns i) (historyWalk P parser config key turns db i)).1

/-- The cursor of the channel. -/
def GlossaryDb.cursor (db : GlossaryDb) : Option (Option Int) := (db.channels.lookup key).map (·.historyBefore)

end

/-! ## The page source -/

/-- The posts below the cursor. -/
def belowCursor (ids : Finset Int) : Option Int → Finset Int
  | none => ids
  | some before => ids.filter (· < before)

/-- The page has at most `k` of the newest posts below `before`, at least one if there is any, and each of its elements is
read as the post of its id. -/
structure ServesPage (P : GlossaryPlatform) (parser : GlossaryParser) (ids : Finset Int) (k : Nat) (before : Option Int)
    (nodes : List PageNode) : Prop where
  channel : ∀ n ∈ nodes, n.channel = channelUsername
  reads : ∀ n ∈ nodes, ∃ id post, n.id = some id ∧ id ∈ belowCursor ids before ∧
    ObservedPost.archive P parser (n.record P id).text = .ok post ∧ post.id = id
  nodup : (nodes.map (·.id)).Nodup
  newest : ∀ id, some id ∈ nodes.map (·.id) → ∀ id' ∈ belowCursor ids before, id < id' → some id' ∈ nodes.map (·.id)
  nonempty : (belowCursor ids before).Nonempty → nodes ≠ []
  length : nodes.length ≤ k

/-- The rows of `glossary_definitions` of the projection can be stored. -/
def PostProjection.Storable (p : PostProjection) : Prop :=
  (p.definitions.map (·.position)).Nodup ∧ ∀ d ∈ p.definitions, d.position ≤ bigintMax

/-- Turns come again and again, and each ends before its lease does. -/
structure HistorySchedule (config : HistoryConfig) (turns : Nat → HistoryTurn) : Prop where
  within : ∀ i, (turns i).finish < secondsLater (turns i).start config.leaseSeconds
  again : ∀ t i, ∃ j, i ≤ j ∧ t ≤ (turns j).start

/-! ## A page is read and stored -/

section
variable {P : GlossaryPlatform} {parser : GlossaryParser} {ids : Finset Int} {k : Nat} {before : Option Int}
  {nodes : List PageNode}

theorem below_of_mem {id : Int} (h : id ∈ belowCursor ids before) : id ∈ ids ∧ before.any (· ≤ id) = false := by
  cases before with
  | none => exact ⟨h, rfl⟩
  | some b =>
    obtain ⟨hmem, hlt⟩ := Finset.mem_filter.1 h
    exact ⟨hmem, by simpa using hlt⟩

theorem pagePosts_ok {seen : List Int} (hchannel : ∀ n ∈ nodes, n.channel = channelUsername)
    (hreads : ∀ n ∈ nodes, ∃ id post, n.id = some id ∧ id ∈ belowCursor ids before ∧
      ObservedPost.archive P parser (n.record P id).text = .ok post ∧ post.id = id)
    (hnodup : (nodes.map (·.id)).Nodup) (hseen : ∀ n ∈ nodes, ∀ id ∈ seen, n.id ≠ some id) :
    ∃ posts, PageNode.posts P parser before nodes seen = .ok posts ∧ posts.map (some ·.id) = nodes.map (·.id) := by
  induction nodes generalizing seen with
  | nil => exact ⟨[], rfl, rfl⟩
  | cons n nodes ih =>
    simp only [List.forall_mem_cons] at hchannel hreads hseen
    obtain ⟨hchannel, hchannels⟩ := hchannel
    obtain ⟨⟨id, post, hid, hbelow, hpost, hpostId⟩, hreads⟩ := hreads
    obtain ⟨hseen, hseens⟩ := hseen
    rw [List.map_cons, List.nodup_cons] at hnodup
    have hseen' : ∀ n' ∈ nodes, ∀ i ∈ id :: seen, n'.id ≠ some i := by
      intro n' hn' i hi
      rcases List.mem_cons.1 hi with rfl | hi
      · intro e
        exact hnodup.1 (List.mem_map.2 ⟨n', hn', e.trans hid.symm⟩)
      · exact hseens n' hn' i hi
    obtain ⟨posts, hposts, hids⟩ := ih hchannels hreads hnodup.2 hseen'
    refine ⟨post :: posts, ?_, ?_⟩
    · unfold PageNode.posts
      rw [if_neg (not_not.2 hchannel), hid]
      simp only [(below_of_mem hbelow).2, Bool.false_eq_true, if_false]
      rw [if_neg fun h => hseen id h hid, hpost, hposts]
      rfl
    · rw [List.map_cons, List.map_cons, hids, hpostId, hid]

/-- A page with elements has its posts and the smallest id above 1 as the next cursor. -/
theorem parsePublicPage_served (raw : String) (hserves : ServesPage P parser ids k before nodes) (hnodes : nodes ≠ []) :
    ∃ page lowest, parsePublicPage P parser raw nodes before = .ok page ∧
      page.before = (some lowest).filter (1 < ·) ∧ lowest ∈ page.posts.map (·.id) ∧
      (∀ id ∈ page.posts.map (·.id), lowest ≤ id) ∧ page.posts.map (some ·.id) = nodes.map (·.id) := by
  have hseen : ∀ n ∈ nodes, ∀ id ∈ ([] : List Int), n.id ≠ some id := by simp
  obtain ⟨posts, hposts, hids⟩ := pagePosts_ok hserves.channel hserves.reads hserves.nodup hseen
  cases posts with
  | nil =>
    rw [List.map_nil, eq_comm, List.map_eq_nil_iff] at hids
    exact absurd hids hnodes
  | cons post posts =>
    have hmin : (post.id :: posts.map (·.id)).min? = some ((posts.map (·.id)).foldl min post.id) := List.min?_cons'
    generalize hlowest : (posts.map (·.id)).foldl min post.id = lowest at hmin
    obtain ⟨hmem, hle⟩ := List.min?_eq_some_iff.1 hmin
    refine ⟨⟨raw, post :: posts, (some lowest).filter (1 < ·)⟩, lowest, ?_, rfl, hmem, hle, hids⟩
    unfold parsePublicPage
    rw [hposts]
    simp only [hlowest]

/-- A page without elements is an error. -/
theorem parsePublicPage_empty (raw : String) : parsePublicPage P parser raw [] before = .error .protocol := rfl

theorem insertDefinitions_total {key : PostKey} {definitions : List Definition} {db : GlossaryDb}
    (hbound : ∀ d ∈ definitions, d.position ≤ bigintMax)
    (hnodup : ((db.definitionsOf key ++ definitions).map (·.position)).Nodup) :
    Tx.fails (Tx.loop (fun _ d => insertDefinition key d) () definitions) (fun _ => False) db := by
  induction definitions generalizing db with
  | nil => simp [Tx.loop]
  | cons d definitions ih =>
    simp only [List.forall_mem_cons] at hbound
    have hother : ∀ d' ∈ db.definitionsOf key, d'.position ≠ d.position := by
      rw [List.map_append, List.nodup_append] at hnodup
      intro d' hd'
      exact hnodup.2.2 _ (List.mem_map.2 ⟨d', hd', rfl⟩) _ (List.mem_map.2 ⟨d, List.mem_cons_self, rfl⟩)
    simp only [Tx.loop, insertDefinition, Tx.fails_bind, Tx.fails_get, Tx.wp_bind, Tx.wp_get, Tx.fails_require,
      Tx.wp_require, Tx.fails_modify, Tx.wp_modify, implies_true, true_and]
    refine ⟨⟨fun h => h ⟨hbound.1, hother⟩, trivial⟩, fun _ => ih hbound.2 ?_⟩
    have hdefinitions : GlossaryDb.definitionsOf { db with definitions := db.definitions ++ [(key, d)] } key =
        db.definitionsOf key ++ [d] := by simp [GlossaryDb.definitionsOf]
    rw [hdefinitions]
    simpa using hnodup

theorem storePost_total {key : PostKey} {row : PostRow} {db : GlossaryDb} (h : row.document.Storable) :
    Tx.fails (storePost key row) (fun _ => False) db := by
  unfold storePost
  simp only [Tx.fails_bind, Tx.fails_modify, Tx.wp_modify, true_and]
  refine ⟨insertDefinitions_total h.2 ?_, fun _ _ _ => trivial⟩
  have hnone : GlossaryDb.definitionsOf
      { db.setPost key row with definitions := (db.setPost key row).definitions.filter fun d => d.1 ≠ key } key = [] := by
    simp [GlossaryDb.definitionsOf, List.filter_filter, GlossaryDb.setPost]
  rw [hnone]
  exact h.1

theorem applyPost_total {version : String} {owner : AccountId} {workspace : WorkspaceId} {post : ObservedPost} {receipt : Nat}
    {kind : PostKind} {db : GlossaryDb} (h : post.projection.Storable) :
    Tx.fails (applyPost version owner workspace post receipt kind) (fun _ => False) db := by
  unfold applyPost
  simp only [Tx.fails_bind, Tx.fails_get, Tx.wp_get, Tx.fails_modify, Tx.wp_modify, true_and]
  split
  · exact storePost_total h
  · split
    · simp
    · simp
    · simp
    · exact storePost_total h

/-- A channel but for the number of its revision. -/
def ChannelRow.schedule (c : ChannelRow) : ChannelRow := { c with revision := 0 }

/-- The owners and the channels, as far as the history reads them. -/
def GlossaryDb.schedules (db : GlossaryDb) : Table WorkspaceId AccountId × (AccountId × WorkspaceId → Option ChannelRow) :=
  (db.owners, fun key => (db.channels.lookup key).map ChannelRow.schedule)

theorem schedules_storePost (key : PostKey) (row : PostRow) : Tx.Keeps GlossaryDb.schedules (storePost key row) := by
  unfold storePost
  refine Tx.keeps_bind (Tx.keeps_modify fun _ => rfl) fun _ => ?_
  refine Tx.keeps_bind (Tx.keeps_modify fun _ => rfl) fun _ => ?_
  refine Tx.keeps_bind (Tx.keeps_loop (fun _ d => ?_) _ _) fun _ => Tx.keeps_modify fun db => ?_
  · unfold insertDefinition
    refine Tx.keeps_bind Tx.keeps_get fun _ => ?_
    exact Tx.keeps_bind (Tx.keeps_require _ _) fun _ => Tx.keeps_modify fun _ => rfl
  · unfold GlossaryDb.schedules
    refine Prod.ext rfl (funext fun k => ?_)
    simp only [Table.lookup_update]
    split
    · rw [Option.map_map]
      rfl
    · rfl

theorem schedules_applyPost (version : String) (owner : AccountId) (workspace : WorkspaceId) (post : ObservedPost) (receipt : Nat)
    (kind : PostKind) : Tx.Keeps GlossaryDb.schedules (applyPost version owner workspace post receipt kind) := by
  unfold applyPost
  refine Tx.keeps_bind Tx.keeps_get fun db => ?_
  refine Tx.keeps_bind (Tx.keeps_modify fun _ => rfl) fun _ => ?_
  split
  · exact schedules_storePost _ _
  · split
    · exact Tx.keeps_pure _
    · exact Tx.keeps_modify fun _ => rfl
    · exact Tx.keeps_modify fun _ => rfl
    · exact schedules_storePost _ _

/-- The posts of a page are applied in order. -/
theorem applyPosts_ok (version : String) (owner : AccountId) (workspace : WorkspaceId) (receipt : Nat) {posts : List ObservedPost}
    (db : GlossaryDb) (h : ∀ post ∈ posts, post.projection.Storable) :
    ∃ db', Tx.loop (fun _ post => applyPost version owner workspace post receipt .page) () posts db = .ok ((), db') ∧
      db'.schedules = db.schedules ∧ ∃ applied : List Observation, db'.observed = applied ++ db.observed ∧
        (∀ o ∈ applied, o.kind = .page) ∧
        applied.reverse.map (·.key) = posts.map fun post => ⟨owner, workspace, post.id⟩ := by
  induction posts generalizing db with
  | nil => exact ⟨db, rfl, rfl, [], rfl, by simp, rfl⟩
  | cons post posts ih =>
    simp only [List.forall_mem_cons] at h
    have htotal : Tx.fails (applyPost version owner workspace post receipt .page) (fun _ => False) db := applyPost_total h.1
    obtain ⟨_, db₁, happly, -⟩ := Tx.exists_ok (Q := fun _ _ => True) (fun _ _ _ => trivial) htotal
    obtain ⟨o, hkind, -, -, hkey, happlied⟩ := applyPost_ok happly
    have hschedules := schedules_applyPost _ _ _ _ _ _ db _ db₁ happly
    obtain ⟨db', hloop, hschedules', applied, hobserved, hkinds, hkeys⟩ := ih db₁ h.2
    refine ⟨db', Tx.bind_ok.2 ⟨_, db₁, happly, hloop⟩, hschedules'.trans hschedules, applied ++ [o], ?_, ?_, ?_⟩
    · rw [hobserved, happlied.observed, List.append_assoc, List.singleton_append]
    · intro o' ho'
      rcases List.mem_append.1 ho' with ho' | ho'
      · exact hkinds o' ho'
      · rw [List.mem_singleton.1 ho', hkind]
    · rw [List.reverse_append, List.map_append, hkeys, List.reverse_singleton, List.map_singleton, hkey]
      rfl

/-! ## One turn -/

/-- The channel may be leased. -/
def ChannelRow.Due (c : ChannelRow) (now : DateTime) : Prop := c.nextHistory ≤ now ∧ c.historyUntil.all (· ≤ now) = true

instance (c : ChannelRow) (now : DateTime) : Decidable (c.Due now) := inferInstanceAs (Decidable (_ ∧ _))

/-- The channel after it was leased. -/
def HistoryTurn.leased (t : HistoryTurn) (config : HistoryConfig) (c : ChannelRow) : ChannelRow :=
  { c with historyLease := some t.lease, historyUntil := some (secondsLater t.start config.leaseSeconds) }

/-- The row of the channel; its import is complete and its owner owns the workspace. -/
structure GlossaryDb.Walks (db : GlossaryDb) (key : AccountId × WorkspaceId) (c : ChannelRow) : Prop where
  row : db.channels.lookup key = some c
  imported : c.importComplete = true
  owned : db.owners.lookup key.2 = some key.1

variable {config : HistoryConfig} {key : AccountId × WorkspaceId} {t : HistoryTurn} {db : GlossaryDb} {c : ChannelRow}

theorem historyOnce_early (hwalks : db.Walks key c) (hdue : ¬ c.Due t.start) :
    historyOnce P parser config key t db = (.ok false, db) := by
  have hlease : leaseHistory key t.lease config.leaseSeconds t.start db = .ok (none, db) := by
    unfold leaseHistory
    rw [Tx.bind_run, Tx.get_run]
    simp only [hwalks.row]
    rw [if_neg fun h => hdue ⟨h.2.1, h.2.2.1⟩]
    rfl
  unfold historyOnce
  rw [hlease]

theorem leaseHistory_due (hwalks : db.Walks key c) (hdue : c.Due t.start) :
    leaseHistory key t.lease config.leaseSeconds t.start db =
      .ok (some ⟨key.1, key.2, c.historyBefore, t.lease⟩, db.setChannel key (t.leased config c)) := by
  unfold leaseHistory
  rw [Tx.bind_run, Tx.get_run]
  simp only [hwalks.row]
  rw [if_pos ⟨hwalks.imported, hdue.1, hdue.2, hwalks.owned⟩]
  rfl

theorem persistPage_ok (version : String) (claim : HistoryClaim) (page : PublicPage) (delay receipt : Nat) {now : DateTime}
    (hdecreases : ∀ next ∈ page.before, ∀ b ∈ claim.before, next < b)
    (hrow : db.channels.lookup (claim.owner, claim.workspace) = some c) (hlease : c.historyLease = some claim.lease)
    (htime : c.historyUntil.any (now < ·) = true) (hstorable : ∀ post ∈ page.posts, post.projection.Storable) :
    ∃ db', persistPage version claim page delay receipt now db = .ok ((), db') ∧ db'.owners = db.owners ∧
      (∃ c', db'.channels.lookup (claim.owner, claim.workspace) = some c' ∧
        c'.schedule = (c.advanced page.before delay now).schedule) ∧
      ∃ applied : List Observation, db'.observed = applied ++ db.observed ∧ (∀ o ∈ applied, o.kind = .page) ∧
        applied.reverse.map (·.key) = page.posts.map fun post => ⟨claim.owner, claim.workspace, post.id⟩ := by
  have hnext : ¬ page.before.any (fun next => claim.before.any (· ≤ next)) = true := by
    simp only [Option.any_eq_true, not_exists, not_and, decide_eq_true_eq]
    intro next hnext b hb
    exact not_le.2 (hdecreases next hnext b hb)
  obtain ⟨db₁, hloop, hschedules, applied, hobserved, hkinds, hkeys⟩ :=
    applyPosts_ok version claim.owner claim.workspace receipt
      { db with receipts := db.receipts ++ [⟨receipt, claim.owner, claim.workspace, "public_page",
        (claim.before.map toString).getD "latest", page.raw⟩] } hstorable
  unfold persistPage
  simp only [Tx.bind_run, Tx.require, if_pos hnext, Tx.pure_run, Tx.get_run, hrow, Tx.orThrow, if_pos (And.intro hlease htime),
    addReceipt, Tx.modify_run, hloop]
  refine ⟨_, rfl, congrArg Prod.fst hschedules, ?_, applied, hobserved, hkinds, hkeys⟩
  have hrow₁ := congrFun (congrArg Prod.snd hschedules) (claim.owner, claim.workspace)
  simp only [GlossaryDb.schedules, hrow, Option.map_some] at hrow₁
  obtain ⟨c₁, hc₁, hsame⟩ := Option.map_eq_some_iff.1 hrow₁
  refine ⟨c₁.advanced page.before delay now, ?_, ?_⟩
  · simp only [Table.lookup_update, if_pos, hc₁, Option.map_some]
  · unfold ChannelRow.schedule ChannelRow.advanced at *
    simp only [ChannelRow.mk.injEq] at hsame ⊢
    simp_all

/-- The elements of a page are the posts below the cursor from its lowest one on. -/
theorem ServesPage.mem_iff (hserves : ServesPage P parser ids k before nodes) {posts : List ObservedPost} {lowest : Int}
    (hids : posts.map (some ·.id) = nodes.map (·.id)) (hmem : lowest ∈ posts.map (·.id))
    (hle : ∀ id ∈ posts.map (·.id), lowest ≤ id) (id : Int) :
    id ∈ posts.map (·.id) ↔ id ∈ belowCursor ids before ∧ lowest ≤ id := by
  have hnode : ∀ i, i ∈ posts.map (·.id) ↔ some i ∈ nodes.map (·.id) := by
    intro i
    rw [← hids]
    simp
  have hbelow : ∀ i ∈ posts.map (·.id), i ∈ belowCursor ids before := by
    intro i hi
    obtain ⟨n, hn, hid⟩ := List.mem_map.1 ((hnode i).1 hi)
    obtain ⟨i', _, hid', hbelow, -⟩ := hserves.reads n hn
    rw [hid] at hid'
    cases hid'
    exact hbelow
  constructor
  · exact fun h => ⟨hbelow id h, hle id h⟩
  · rintro ⟨hid, hlowest⟩
    rcases hlowest.eq_or_lt with rfl | hlt
    · exact hmem
    · exact (hnode id).2 (hserves.newest lowest ((hnode lowest).1 hmem) id hid hlt)

/-- A turn that finds posts below the cursor commits them. -/
theorem historyOnce_commits (hparser : ∀ html, (parser.html html).Storable) (hwalks : db.Walks key c) (hdue : c.Due t.start)
    (hwithin : t.finish < secondsLater t.start config.leaseSeconds)
    (hserves : ServesPage P parser ids k c.historyBefore (t.page c.historyBefore).2)
    (hbelow : (belowCursor ids c.historyBefore).Nonempty) :
    ∃ db' c' lowest, historyOnce P parser config key t db = (.ok true, db') ∧ db'.Walks key c' ∧
      lowest ∈ belowCursor ids c.historyBefore ∧ c'.historyBefore = (some lowest).filter (1 < ·) ∧
      ∃ applied : List Observation, db'.observed = applied ++ db.observed ∧ (∀ o ∈ applied, o.kind = .page) ∧
        (applied.map (·.key)).Nodup ∧ ∀ k, k ∈ applied.map (·.key) ↔
          ∃ id ∈ belowCursor ids c.historyBefore, lowest ≤ id ∧ k = ⟨key.1, key.2, id⟩ := by
  obtain ⟨page, lowest, hpage, hnext, hmem, hle, hids⟩ :=
    parsePublicPage_served (t.page c.historyBefore).1 hserves (hserves.nonempty hbelow)
  have hiff := hserves.mem_iff hids hmem hle
  have hstorable : ∀ post ∈ page.posts, post.projection.Storable := by
    intro post hpost
    obtain ⟨raw, harchive⟩ := parsePublicPage_archive hpage post hpost
    obtain ⟨-, -, content, hcontent⟩ := archive_ok harchive
    rw [hcontent]
    exact hparser content
  have hdecreases : ∀ next ∈ page.before, ∀ b ∈ c.historyBefore, next < b := by
    intro next hnext' b hb
    rw [hnext, Option.mem_def, Option.filter_eq_some_iff] at hnext'
    have hlowest := ((hiff lowest).1 hmem).1
    rw [Option.mem_def.1 hb] at hlowest
    cases hnext'.1
    exact (Finset.mem_filter.1 hlowest).2
  have hleased : (db.setChannel key (t.leased config c)).channels.lookup (key.1, key.2) = some (t.leased config c) := by
    unfold GlossaryDb.setChannel
    rw [Table.lookup_insert_if, if_pos rfl]
  obtain ⟨db', hpersist, howners, ⟨c', hrow', hsame⟩, applied, hobserved, hkinds, hkeys⟩ :=
    persistPage_ok parser.version ⟨key.1, key.2, c.historyBefore, t.lease⟩ page (config.delay page) t.receipt
      hdecreases hleased rfl (by simpa [HistoryTurn.leased] using hwithin) hstorable
  simp only [ChannelRow.schedule, ChannelRow.advanced, HistoryTurn.leased, ChannelRow.mk.injEq] at hsame
  refine ⟨db', c', lowest, ?_, ⟨hrow', ?_, ?_⟩, ((hiff lowest).1 hmem).1, ?_, applied, hobserved, hkinds, ?_, ?_⟩
  · unfold historyOnce
    rw [leaseHistory_due hwalks hdue]
    simp only [hpage, hpersist]
  · simp_all [hwalks.imported]
  · rw [howners]
    exact hwalks.owned
  · simp_all
  · rw [← List.nodup_reverse, ← List.map_reverse, hkeys]
    have hnodup : (page.posts.map (some ·.id)).Nodup := hids ▸ hserves.nodup
    refine List.Nodup.of_map (some ·.message) ?_
    rwa [List.map_map]
  · intro k
    rw [← List.mem_reverse, ← List.map_reverse, hkeys, List.mem_map]
    constructor
    · rintro ⟨post, hpost, rfl⟩
      obtain ⟨hb, hl⟩ := (hiff post.id).1 (List.mem_map.2 ⟨post, hpost, rfl⟩)
      exact ⟨post.id, hb, hl, rfl⟩
    · rintro ⟨id, hb, hl, rfl⟩
      obtain ⟨post, hpost, rfl⟩ := List.mem_map.1 ((hiff id).2 ⟨hb, hl⟩)
      exact ⟨post, hpost, rfl⟩

end

/-! ## The whole walk -/

/-- Since `db₀` the posts `ids` were applied from pages, each of them once. -/
def GlossaryDb.Passed (key : AccountId × WorkspaceId) (ids : Finset Int) (db₀ db : GlossaryDb) : Prop :=
  ∃ pass : List Observation, db.observed = pass ++ db₀.observed ∧ (∀ o ∈ pass, o.kind = .page) ∧
    (pass.map (·.key)).Nodup ∧ ∀ k, k ∈ pass.map (·.key) ↔ ∃ id ∈ ids, k = ⟨key.1, key.2, id⟩

section
variable (P : GlossaryPlatform) (parser : GlossaryParser) (config : HistoryConfig) (key : AccountId × WorkspaceId)
  (turns : Nat → HistoryTurn) (db : GlossaryDb)

/-- Turn `i` comes too early and changes nothing. -/
def HistorySkips (i : Nat) : Prop :=
  historyResult P parser config key turns db i = .ok false ∧
    historyWalk P parser config key turns db (i + 1) = historyWalk P parser config key turns db i

/-- Turn `i` commits a page and moves the cursor down. -/
def HistoryAdvances (i : Nat) : Prop :=
  historyResult P parser config key turns db i = .ok true ∧
    ∃ before next, (historyWalk P parser config key turns db i).cursor key = some before ∧
      (historyWalk P parser config key turns db (i + 1)).cursor key = some (some next) ∧ ∀ b ∈ before, next < b

/-- Some turn `n` commits the end of the history; the turns before it skip or move the cursor down, and with them every post
was applied once. -/
def HistoryCompletes (ids : Finset Int) : Prop :=
  ∃ n, (∀ i < n, HistorySkips P parser config key turns db i ∨ HistoryAdvances P parser config key turns db i) ∧
    historyResult P parser config key turns db n = .ok true ∧
    (historyWalk P parser config key turns db (n + 1)).cursor key = some none ∧
    db.Passed key ids (historyWalk P parser config key turns db (n + 1))

end

section
variable {P : GlossaryPlatform} {parser : GlossaryParser} {config : HistoryConfig} {key : AccountId × WorkspaceId}
  {turns : Nat → HistoryTurn} {db : GlossaryDb} {ids : Finset Int} {k : Nat}

theorem GlossaryDb.Passed.append {done more : Finset Int} {db₁ db₂ : GlossaryDb} (h : db.Passed key done db₁)
    (hdisjoint : ∀ id ∈ more, id ∉ done) (hmore : db₁.Passed key more db₂) : db.Passed key (done ∪ more) db₂ := by
  obtain ⟨pass, hobserved, hkinds, hnodup, hkeys⟩ := h
  obtain ⟨pass', hobserved', hkinds', hnodup', hkeys'⟩ := hmore
  refine ⟨pass' ++ pass, ?_, ?_, ?_, ?_⟩
  · rw [hobserved', hobserved, List.append_assoc]
  · intro o ho
    rcases List.mem_append.1 ho with ho | ho
    · exact hkinds' o ho
    · exact hkinds o ho
  · rw [List.map_append, List.nodup_append]
    refine ⟨hnodup', hnodup, fun a ha b hb e => ?_⟩
    obtain ⟨id, hid, rfl⟩ := (hkeys' a).1 ha
    obtain ⟨id', hid', rfl⟩ := (hkeys b).1 hb
    cases e
    exact hdisjoint id hid hid'
  · intro key'
    rw [List.map_append, List.mem_append, hkeys', hkeys]
    simp only [Finset.mem_union]
    constructor
    · rintro (⟨id, hid, rfl⟩ | ⟨id, hid, rfl⟩)
      · exact ⟨id, .inr hid, rfl⟩
      · exact ⟨id, .inl hid, rfl⟩
    · rintro ⟨id, hid | hid, rfl⟩
      · exact .inr ⟨id, hid, rfl⟩
      · exact .inl ⟨id, hid, rfl⟩

theorem historyWalk_succ {i : Nat} {r : Except GlossaryError Bool} {db' : GlossaryDb}
    (h : historyOnce P parser config key (turns i) (historyWalk P parser config key turns db i) = (r, db')) :
    historyResult P parser config key turns db i = r ∧ historyWalk P parser config key turns db (i + 1) = db' :=
  ⟨congrArg Prod.fst h, congrArg Prod.snd h⟩

/-- The walk waits until the channel is due. -/
theorem historyWalk_waits {i : Nat} {c : ChannelRow} (hwalks : (historyWalk P parser config key turns db i).Walks key c)
    (hagain : ∀ t i, ∃ j, i ≤ j ∧ t ≤ (turns j).start) :
    ∃ j, i ≤ j ∧ c.Due (turns j).start ∧
      historyWalk P parser config key turns db j = historyWalk P parser config key turns db i ∧
      ∀ l, i ≤ l → l < j → HistorySkips P parser config key turns db l := by
  have hexists : ∃ d, c.Due (turns (i + d)).start := by
    obtain ⟨j, hj, hstart⟩ := hagain (max c.nextHistory (c.historyUntil.getD c.nextHistory)) i
    refine ⟨j - i, ?_⟩
    rw [Nat.add_sub_cancel' hj]
    refine ⟨le_trans (le_max_left _ _) hstart, ?_⟩
    cases huntil : c.historyUntil with
    | none => rfl
    | some u =>
      rw [huntil] at hstart
      exact decide_eq_true (le_trans (le_max_right _ _) hstart)
  have hsame : ∀ d ≤ Nat.find hexists,
      historyWalk P parser config key turns db (i + d) = historyWalk P parser config key turns db i ∧
      ∀ l, i ≤ l → l < i + d → HistorySkips P parser config key turns db l := by
    intro d hd
    induction d with
    | zero => exact ⟨rfl, fun l hl hlt => by omega⟩
    | succ d ih =>
      obtain ⟨heq, hskips⟩ := ih (by omega)
      have hearly : ¬ c.Due (turns (i + d)).start := Nat.find_min hexists (by omega)
      obtain ⟨hresult, hnext⟩ := historyWalk_succ (historyOnce_early (heq ▸ hwalks) hearly)
      refine ⟨hnext.trans heq, fun l hl hlt => ?_⟩
      rcases Nat.lt_succ_iff_lt_or_eq.1 hlt with hlt | rfl
      · exact hskips l hl hlt
      · exact ⟨hresult, hnext⟩
  obtain ⟨heq, hskips⟩ := hsame (Nat.find hexists) le_rfl
  exact ⟨i + Nat.find hexists, Nat.le_add_right _ _, Nat.find_spec hexists, heq, hskips⟩

theorem belowCursor_subset (before : Option Int) : belowCursor ids before ⊆ ids := fun _ hid => (below_of_mem hid).1

/-- After a page with the lowest id `lowest` the posts from there on are done. -/
theorem done_union {before : Option Int} {lowest : Int} (hlowest : lowest ∈ belowCursor ids before) :
    (ids \ belowCursor ids before) ∪ (belowCursor ids before).filter (lowest ≤ ·) = ids.filter (lowest ≤ ·) := by
  ext id
  simp only [Finset.mem_union, Finset.mem_sdiff, Finset.mem_filter]
  constructor
  · rintro (⟨hid, hnot⟩ | ⟨hid, hle⟩)
    · refine ⟨hid, ?_⟩
      cases before with
      | none => exact absurd hid hnot
      | some b =>
        simp only [belowCursor, Finset.mem_filter] at hnot hlowest
        have hb : ¬ id < b := fun h => hnot ⟨hid, h⟩
        omega
    · exact ⟨belowCursor_subset before hid, hle⟩
  · rintro ⟨hid, hle⟩
    by_cases hmem : id ∈ belowCursor ids before
    · exact .inr ⟨hmem, hle⟩
    · exact .inl ⟨hid, hmem⟩

theorem sdiff_belowCursor (lowest : Int) : ids \ belowCursor ids (some lowest) = ids.filter (lowest ≤ ·) := by
  rw [belowCursor, ← Finset.filter_not]
  exact Finset.filter_congr fun _ _ => not_lt

theorem card_belowCursor_lt {before : Option Int} {lowest : Int} (hlowest : lowest ∈ belowCursor ids before) :
    (belowCursor ids (some lowest)).card < (belowCursor ids before).card := by
  refine Finset.card_lt_card ⟨fun id hid => ?_, fun hsub => ?_⟩
  · obtain ⟨hid, hlt⟩ := Finset.mem_filter.1 hid
    cases before with
    | none => exact hid
    | some b => exact Finset.mem_filter.2 ⟨hid, hlt.trans (Finset.mem_filter.1 hlowest).2⟩
  · exact lt_irrefl lowest (Finset.mem_filter.1 (hsub hlowest)).2

/-- If the channel has a post 1, every state of the walk leads to its end. The induction is on the number of posts below the
cursor; as long as the cursor is above 1 there is one. -/
theorem historyWalk_completes (hparser : ∀ html, (parser.html html).Storable) (hschedule : HistorySchedule config turns)
    (hserves : ∀ i before, ServesPage P parser ids k before ((turns i).page before).2) (hpositive : ∀ id ∈ ids, 0 < id)
    (hone : 1 ∈ ids) (m : Nat) : ∀ i c, (historyWalk P parser config key turns db i).Walks key c →
      (∀ b ∈ c.historyBefore, 1 < b) → (belowCursor ids c.historyBefore).card = m →
      db.Passed key (ids \ belowCursor ids c.historyBefore) (historyWalk P parser config key turns db i) →
      (∀ l < i, HistorySkips P parser config key turns db l ∨ HistoryAdvances P parser config key turns db l) →
      HistoryCompletes P parser config key turns db ids := by
  induction m using Nat.strong_induction_on with
  | _ m ih =>
    intro i c hwalks hcursor hcard hpassed hbefore
    obtain ⟨j, hij, hdue, hsame, hskips⟩ := historyWalk_waits hwalks hschedule.again
    rw [← hsame] at hwalks hpassed
    have hnonempty : (belowCursor ids c.historyBefore).Nonempty := by
      refine ⟨1, ?_⟩
      cases hb : c.historyBefore with
      | none => exact hone
      | some b => exact Finset.mem_filter.2 ⟨hone, hcursor b hb⟩
    obtain ⟨db', c', lowest, honce, hwalks', hlowest, hnext, applied, hobserved, hkinds, hnodup, hkeys⟩ :=
      historyOnce_commits hparser hwalks hdue (hschedule.within j) (hserves j c.historyBefore) hnonempty
    obtain ⟨hresult, hwalk⟩ := historyWalk_succ honce
    have hmore : (historyWalk P parser config key turns db j).Passed key
        ((belowCursor ids c.historyBefore).filter (lowest ≤ ·)) db' := by
      refine ⟨applied, hobserved, hkinds, hnodup, fun k' => ?_⟩
      rw [hkeys]
      simp only [Finset.mem_filter, and_assoc]
    have hpassed' := hpassed.append (fun id hid hdone => (Finset.mem_sdiff.1 hdone).2 (Finset.mem_filter.1 hid).1) hmore
    rw [done_union hlowest] at hpassed'
    have hturns : ∀ l < j, HistorySkips P parser config key turns db l ∨ HistoryAdvances P parser config key turns db l := by
      intro l hl
      by_cases hli : l < i
      · exact hbefore l hli
      · exact .inl (hskips l (not_lt.1 hli) hl)
    by_cases hend : 1 < lowest
    · have hcursor' : c'.historyBefore = some lowest := by rw [hnext]; simp [hend]
      have hadvances : HistoryAdvances P parser config key turns db j := by
        refine ⟨hresult, c.historyBefore, lowest, ?_, ?_, fun b hb => ?_⟩
        · simp [GlossaryDb.cursor, hwalks.row]
        · simp [GlossaryDb.cursor, hwalk, hwalks'.row, hcursor']
        · rw [Option.mem_def.1 hb] at hlowest
          exact (Finset.mem_filter.1 hlowest).2
      have hdecreases : (belowCursor ids c'.historyBefore).card < m := by
        rw [← hcard, hcursor']
        exact card_belowCursor_lt hlowest
      refine ih _ hdecreases (j + 1) c' (hwalk ▸ hwalks') (fun b hb => ?_) rfl ?_ fun l hl => ?_
      · rw [hcursor'] at hb
        cases hb
        exact hend
      · rw [hwalk, hcursor']
        rwa [sdiff_belowCursor]
      · rcases Nat.lt_succ_iff_lt_or_eq.1 hl with hl | rfl
        · exact hturns l hl
        · exact .inr hadvances
    · have hall : ids.filter (lowest ≤ ·) = ids := by
        refine Finset.filter_true_of_mem fun id hid => ?_
        have := hpositive id hid
        omega
      refine ⟨j, hturns, hresult, ?_, hwalk ▸ hall ▸ hpassed'⟩
      simp [GlossaryDb.cursor, hwalk, hwalks'.row, hnext, not_lt.1 hend]

theorem persistPage_cursor {version : String} {claim : HistoryClaim} {page : PublicPage} {delay receipt : Nat} {now : DateTime}
    {db₁ db₂ : GlossaryDb} {u : Unit} (h : persistPage version claim page delay receipt now db₁ = .ok (u, db₂)) :
    db₂.cursor (claim.owner, claim.workspace) = some page.before := by
  unfold persistPage at h
  obtain ⟨-, h⟩ := Tx.bind_require_ok.1 h
  simp only [Tx.bind_run, Tx.get_run] at h
  obtain ⟨channel, hrow, h⟩ := Tx.bind_orThrow_ok.1 h
  obtain ⟨-, h⟩ := Tx.bind_require_ok.1 h
  simp only [addReceipt, Tx.modify_run] at h
  obtain ⟨_, db', hloop, h⟩ := Tx.bind_ok.1 h
  cases h
  have hkeeps := Tx.keeps_loop (fun (_ : Unit) post => schedules_applyPost version claim.owner claim.workspace post receipt .page)
    () page.posts _ _ _ hloop
  have hrow' := congrFun (congrArg Prod.snd hkeeps) (claim.owner, claim.workspace)
  simp only [GlossaryDb.schedules, hrow, Option.map_some] at hrow'
  obtain ⟨c', hc', -⟩ := Option.map_eq_some_iff.1 hrow'
  simp [GlossaryDb.cursor, Table.lookup_update, hc', ChannelRow.advanced]

theorem leaseHistory_claim {lease seconds : Nat} {now : DateTime} {claim : HistoryClaim} {db₁ : GlossaryDb}
    (h : leaseHistory key lease seconds now db = .ok (some claim, db₁)) : (claim.owner, claim.workspace) = key := by
  unfold leaseHistory at h
  rw [Tx.bind_run, Tx.get_run] at h
  cases hrow : db.channels.lookup key with
  | none =>
    simp only [hrow] at h
    cases h
  | some c =>
    simp only [hrow] at h
    split_ifs at h
    · cases h
      rfl
    · cases h

/-- A turn that returns `true` has committed a page, and its cursor is that of the page. -/
theorem historyOnce_true {t : HistoryTurn} {db' : GlossaryDb}
    (h : historyOnce P parser config key t db = (.ok true, db')) :
    ∃ before page, parsePublicPage P parser (t.page before).1 (t.page before).2 before = .ok page ∧
      db'.cursor key = some page.before := by
  unfold historyOnce at h
  split at h
  · cases h
  · cases h
  · rename_i claim db₁ hlease
    split at h
    · rename_i page hpage
      split at h
      · rename_i hpersist
        cases h
        refine ⟨claim.before, page, hpage, ?_⟩
        have hcursor := persistPage_cursor hpersist
        rwa [leaseHistory_claim hlease] at hcursor
      · cases h
    · split at h <;> cases h

/-- The end of the history is committed only after a page with the post 1. -/
theorem one_mem_of_end (hserves : ∀ i before, ServesPage P parser ids k before ((turns i).page before).2)
    (hpositive : ∀ id ∈ ids, 0 < id) {n : Nat} (hresult : historyResult P parser config key turns db n = .ok true)
    (hcursor : (historyWalk P parser config key turns db (n + 1)).cursor key = some none) : 1 ∈ ids := by
  obtain ⟨before, page, hpage, hbefore⟩ := historyOnce_true (Prod.ext hresult rfl)
  have hnone : page.before = none := Option.some.inj (hbefore.symm.trans hcursor)
  have hnodes : ((turns n).page before).2 ≠ [] := by
    intro hnil
    rw [hnil, parsePublicPage_empty] at hpage
    cases hpage
  obtain ⟨page', lowest, hpage', hnext, hmem, hle, hids⟩ :=
    parsePublicPage_served ((turns n).page before).1 (hserves n before) hnodes
  rw [hpage] at hpage'
  cases hpage'
  have hlowest := belowCursor_subset before (((hserves n before).mem_iff hids hmem hle lowest).1 hmem).1
  have hle : lowest ≤ 1 := by
    rw [hnext] at hnone
    simpa using hnone
  have hpos := hpositive lowest hlowest
  have hone : lowest = 1 := by omega
  rwa [hone] at hlowest

end

/-- For every page source the walk completes just when the channel has a post with the id 1. -/
theorem history_walk_completes_iff (P : GlossaryPlatform) (parser : GlossaryParser) (config : HistoryConfig)
    (key : AccountId × WorkspaceId) (turns : Nat → HistoryTurn) (db : GlossaryDb) (ids : Finset Int) (k : Nat)
    (hpositive : ∀ id ∈ ids, 0 < id) (hserves : ∀ i before, ServesPage P parser ids k before ((turns i).page before).2)
    (hparser : ∀ html, (parser.html html).Storable) (hschedule : HistorySchedule config turns) {c : ChannelRow}
    (hwalks : db.Walks key c) (hstart : c.historyBefore = none) :
    HistoryCompletes P parser config key turns db ids ↔ 1 ∈ ids := by
  constructor
  · rintro ⟨n, -, hresult, hcursor, -⟩
    exact one_mem_of_end hserves hpositive hresult hcursor
  · intro hone
    refine historyWalk_completes hparser hschedule hserves hpositive hone _ 0 c hwalks ?_ rfl ?_ ?_
    · simp [hstart]
    · rw [hstart]
      exact ⟨[], rfl, by simp, by simp, by simp [belowCursor]⟩
    · simp

/-! ## A channel with the posts 1 and 3, and one with the post 3 -/

namespace Sample

/-- An element of a page. -/
def historyNode (id : Int) : PageNode := ⟨channelUsername, some id, some "one", none, "a"⟩

/-- The archive record of the element. -/
def historyFields (id : Int) : List (String × Json) :=
  [("id", jsonNumber id), ("channel", jsonString channelUsername), ("permalink", jsonString (ObservedPost.permalink id)),
    ("timestamp", ⟨"null"⟩), ("formatted_html", jsonString "one"), ("raw_post_html", jsonString "a"),
    ("provenance", jsonObject [("transport", jsonString "direct_public_preview")])]

def historyPlatform : GlossaryPlatform where
  parseJson := fun s => ([1, 3].find? fun id => (jsonObject (historyFields id)).text == s).map fun id =>
    jsonObject (historyFields id)
  get? := fun v key => (([1, 3].find? fun id => jsonObject (historyFields id) == v).bind fun id =>
    (historyFields id).find? fun f => f.1 == key).map (·.2)
  asI64 := fun v => [1, 3].find? fun n => jsonNumber n == v
  asStr := fun v =>
    [channelUsername, ObservedPost.permalink 1, ObservedPost.permalink 3, "one"].find? fun s => jsonString s == v
  object := jsonObject
  string := jsonString
  number := jsonNumber
  null := ⟨"null"⟩
  parseTime := fun _ => none

def historyParser : GlossaryParser := glossaryParsers.parser "v1"

/-- One post on a page, the newest one below the cursor. -/
def historyPage (ids : List Int) (before : Option Int) : String × List PageNode :=
  ("", ((ids.find? fun id => before.all (id < ·)).map historyNode).toList)

/-- A turn every hundred seconds. -/
def historyTurns (ids : List Int) (i : Nat) : HistoryTurn where
  lease := i
  receipt := i
  start := secondsLater 0 (100 * i)
  finish := secondsLater 0 (100 * i)
  page := historyPage ids

def historyConfig : HistoryConfig where
  leaseSeconds := 60
  retryMaxSeconds := 10
  publicPageIntervalMilliseconds := 1500
  historyReconcileIntervalSeconds := 3600

theorem mem_belowCursor {ids : List Int} {before : Option Int} {id : Int} :
    id ∈ belowCursor ids.toFinset before ↔ id ∈ ids ∧ before.all (id < ·) = true := by
  cases before <;> simp [belowCursor]

theorem historyPage_serves {ids : List Int} (hsorted : ids.Pairwise (· > ·)) (hreads : ∀ id ∈ ids, ∃ post,
      ObservedPost.archive historyPlatform historyParser ((historyNode id).record historyPlatform id).text = .ok post ∧
        post.id = id) (before : Option Int) :
    ServesPage historyPlatform historyParser ids.toFinset 1 before (historyPage ids before).2 := by
  cases hfind : ids.find? fun id => before.all (id < ·) with
  | none =>
    have hnone : ∀ id ∈ ids, ¬ before.all (id < ·) = true := List.find?_eq_none.1 hfind
    have hpage : (historyPage ids before).2 = [] := by simp [historyPage, hfind]
    rw [hpage]
    refine ⟨by simp, by simp, by simp, by simp, ?_, by simp⟩
    rintro ⟨id, hid⟩
    obtain ⟨hid, hbelow⟩ := mem_belowCursor.1 hid
    exact absurd hbelow (hnone id hid)
  | some id =>
    have hpage : (historyPage ids before).2 = [historyNode id] := by simp [historyPage, hfind]
    obtain ⟨hbelow, front, rest, heq, hfront⟩ := List.find?_eq_some_iff_append.1 hfind
    have hid : id ∈ ids := by rw [heq]; simp
    rw [hpage]
    refine ⟨by simp [historyNode], ?_, by simp, ?_, by simp, by simp⟩
    · intro n hn
      rw [List.mem_singleton.1 hn]
      obtain ⟨post, hpost, hpostId⟩ := hreads id hid
      exact ⟨id, post, rfl, mem_belowCursor.2 ⟨hid, hbelow⟩, hpost, hpostId⟩
    · -- a larger id below the cursor would stand before `id` and be found first
      intro i hi i' hi' hlt
      have hi : i = id := by simpa [historyNode] using hi
      obtain ⟨hi', hbelow'⟩ := mem_belowCursor.1 hi'
      rw [heq] at hi' hsorted
      rcases List.mem_append.1 hi' with hi' | hi'
      · exact absurd (hfront i' hi') (by simp [hbelow'])
      · rcases List.mem_cons.1 hi' with rfl | hi'
        · omega
        · have hgt := (List.pairwise_cons.1 (List.pairwise_append.1 hsorted).2.1).1 i' hi'
          omega

theorem historyTurns_schedule (ids : List Int) : HistorySchedule historyConfig (historyTurns ids) where
  within := by
    intro i
    change (0 : Int) + (100 * i : Nat) * 1000000000 < 0 + (100 * i : Nat) * 1000000000 + (60 : Nat) * 1000000000
    omega
  again := by
    intro t i
    refine ⟨max i t.toNat, le_max_left _ _, ?_⟩
    refine le_trans (Int.self_le_toNat t) ?_
    change (Int.toNat t : Int) ≤ 0 + (100 * max i (Int.toNat t) : Nat) * 1000000000
    omega

theorem historyParser_storable (html : String) : (historyParser.html html).Storable :=
  ⟨List.nodup_nil, by simp [historyParser, ParserFamily.parser, glossaryParsers, PostProjection.definitions]⟩

theorem glossaryDb_walks : (glossaryDb 0 []).Walks (⟨1⟩, ⟨1⟩) glossaryChannel := ⟨by decide, rfl, by decide⟩

theorem historyReads : ∀ id ∈ ([3, 1] : List Int), ∃ post,
    ObservedPost.archive historyPlatform historyParser ((historyNode id).record historyPlatform id).text = .ok post ∧
      post.id = id := by
  have hids : ∀ id ∈ ([3, 1] : List Int), (ObservedPost.archive historyPlatform historyParser
      ((historyNode id).record historyPlatform id).text).map (·.id) = .ok id := by decide +kernel
  intro id hid
  have hmap := hids id hid
  cases harchive : ObservedPost.archive historyPlatform historyParser ((historyNode id).record historyPlatform id).text with
  | error e =>
    rw [harchive] at hmap
    cases hmap
  | ok post =>
    rw [harchive] at hmap
    exact ⟨post, rfl, Except.ok.inj hmap⟩

end Sample

open Sample

/-- The walk through the posts 3 and 1 completes. -/
theorem history_walk_completes_iff_first_post :
    HistoryCompletes historyPlatform historyParser historyConfig (⟨1⟩, ⟨1⟩) (historyTurns [3, 1]) (glossaryDb 0 [])
      ([3, 1] : List Int).toFinset := by
  have hserves : ∀ i before, ServesPage historyPlatform historyParser ([3, 1] : List Int).toFinset 1 before
      ((historyTurns [3, 1] i).page before).2 := fun _ before => historyPage_serves (by decide) historyReads before
  exact (history_walk_completes_iff historyPlatform historyParser historyConfig _ _ _ _ 1 (by decide) hserves
    historyParser_storable (historyTurns_schedule _) glossaryDb_walks rfl).2 (by decide)

/-- The first post has the id 3: the page below it is empty and the walk never ends. -/
theorem history_walk_stuck : (∀ before, ServesPage historyPlatform historyParser ([3] : List Int).toFinset 1 before
      (historyPage [3] before).2) ∧
    ¬ HistoryCompletes historyPlatform historyParser historyConfig (⟨1⟩, ⟨1⟩) (historyTurns [3]) (glossaryDb 0 [])
      ([3] : List Int).toFinset := by
  have hserves : ∀ before, ServesPage historyPlatform historyParser ([3] : List Int).toFinset 1 before
      (historyPage [3] before).2 :=
    fun before => historyPage_serves (by decide) (fun id hid => historyReads id (by simp_all)) before
  refine ⟨hserves, ?_⟩
  rintro ⟨n, -, hresult, hcursor, -⟩
  have hone : (1 : Int) ∈ ([3] : List Int).toFinset := one_mem_of_end (fun _ before => hserves before) (by decide) hresult hcursor
  exact absurd hone (by decide)

end Inoreader
