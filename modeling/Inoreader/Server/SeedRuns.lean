import Inoreader.Server.Seed

/-!
# Runs of a seed

After a run the tables have what the manifest asks for, and commands keep it. But a second run builds every subscription
anew, at a time of its own, and takes what it finds under the id for a conflict unless it is the same document: only
items whose URL was there before are applied again.
-/

namespace Inoreader
open Lib

/-! ## The rows of a manifest at another time -/

section
variable {P : SeedPlatform} {scope : SeedScope} {db : SeedDb P} {seed : SeedManifest P.web}
  {now now' : String → DateTime}

/-- The same value, built at another time. -/
def PreparedSeed.retime (now : String → DateTime) (v : PreparedSeed P) : PreparedSeed P :=
  { v with value := { v.value with createdAt := some (now v.key) } }

def PreparedRow.retime (now : String → DateTime) (row : PreparedRow P) : PreparedRow P :=
  { row with value := { row.value with createdAt := some (now row.key) } }

theorem seedValue_retime (item : SeedItem) :
    seedValue P seed now' item = (seedValue P seed now item).map (·.retime now') := by
  unfold seedValue
  split
  · split
    · rfl
    · split
      · rfl
      · split
        · rfl
        · rename_i url _
          by_cases hscheme : url.1.scheme ≠ "http" ∧ url.1.scheme ≠ "https"
          · rw [if_pos hscheme, if_pos hscheme]
            rfl
          · rw [if_neg hscheme, if_neg hscheme]
            rfl
  · rfl

theorem prepareRow_retime {workspace : WebUuid P.web} (v : PreparedSeed P) :
    prepareRow P scope workspace (v.retime now') = (prepareRow P scope workspace v).map (·.retime now') := by
  unfold prepareRow
  by_cases hscope : v.value.subscription.workspaceId ≠ ⟨workspace.1⟩
  · refine (if_pos hscope).trans ?_
    rw [if_pos hscope]
    rfl
  · refine (if_neg hscope).trans ?_
    rw [if_neg hscope]
    have hvalid : (v.retime now').value.subscription.validate P.web.parseUrl scope.reasonPolicy =
        v.value.subscription.validate P.web.parseUrl scope.reasonPolicy := rfl
    rw [hvalid]
    cases v.value.subscription.validate P.web.parseUrl scope.reasonPolicy with
    | error e => rfl
    | ok u =>
      cases hkind : seedSourceKind P v.source v.configuration with
      | error e =>
        simp only [PreparedSeed.retime, hkind]
        rfl
      | ok kind =>
        cases hsource : SeedSourceDefinition.new P v.url.1 kind with
        | error e =>
          simp only [PreparedSeed.retime, hkind, bind, Except.bind, hsource]
          rfl
        | ok source =>
          simp only [PreparedSeed.retime, hkind, bind, Except.bind, hsource]
          rfl

theorem mapM_retime {α β : Type} {f g : α → Except String β} {r : β → β} (hfg : ∀ a, g a = (f a).map r) {l : List α}
    {bs : List β} (h : l.mapM f = .ok bs) : l.mapM g = .ok (bs.map r) := by
  rw [mapM_ok] at h ⊢
  induction h with
  | nil => exact .nil
  | cons hab _ ih =>
    refine .cons ?_ ih
    rw [hfg, hab]
    rfl

/-- A value that a manifest makes. -/
theorem seedValue_ok {item : SeedItem} {v : PreparedSeed P} (h : seedValue P seed now item = .ok v) :
    v.key = item.idempotencyKey ∧ v.configuration = item.configuration ∧ ∃ url title, v.value =
      newSubscription ⟨P.oid (seedIdentity P seed item.idempotencyKey)⟩ ⟨seed.workspaceId.1⟩ url title (now v.key) := by
  unfold seedValue at h
  split at h
  · split at h
    · cases h
    · split at h
      · cases h
      · split at h
        · cases h
        · rename_i url _
          by_cases hscheme : url.1.scheme ≠ "http" ∧ url.1.scheme ≠ "https"
          · rw [if_pos hscheme] at h
            cases h
          · rw [if_neg hscheme] at h
            cases h
            exact ⟨rfl, rfl, url.1, _, rfl⟩
  · cases h

theorem prepareRow_ok {workspace : WebUuid P.web} {v : PreparedSeed P} {row : PreparedRow P}
    (h : prepareRow P scope workspace v = .ok row) :
    row.key = v.key ∧ row.value = v.value ∧ row.configuration = P.jsonText v.configuration := by
  unfold prepareRow at h
  by_cases hscope : v.value.subscription.workspaceId ≠ ⟨workspace.1⟩
  · rw [if_pos hscope] at h
    cases h
  · rw [if_neg hscope] at h
    split at h
    · cases h
    · simp only [except_bind_ok] at h
      obtain ⟨kind, -, source, -, h⟩ := h
      cases h
      exact ⟨rfl, rfl, rfl⟩

/-- The keys of the items of a manifest that was loaded differ. -/
theorem checkItems_ok {ids keys : List String} {items : List SeedItem} (h : checkItems P ids keys items = .ok ()) :
    (items.map (·.idempotencyKey)).Nodup ∧ ∀ item ∈ items, item.idempotencyKey ∉ keys := by
  induction items generalizing ids keys with
  | nil => exact ⟨List.nodup_nil, List.forall_mem_nil _⟩
  | cons item items ih =>
    rw [checkItems] at h
    split_ifs at h with _ hseen
    obtain ⟨hnodup, hkeys⟩ := ih h
    rw [not_or] at hseen
    refine ⟨?_, List.forall_mem_cons.2 ⟨hseen.2, fun i hi hmem => hkeys i hi (List.mem_cons_of_mem _ hmem)⟩⟩
    rw [List.map_cons, List.nodup_cons]
    refine ⟨fun hmem => ?_, hnodup⟩
    obtain ⟨i, hi, hkey⟩ := List.mem_map.1 hmem
    exact hkeys i hi (hkey ▸ List.mem_cons_self)

theorem loadSeed_ok {seed' : SeedManifest P.web} (h : loadSeed P seed = .ok seed') :
    seed' = seed ∧ (seed.items.map (·.idempotencyKey)).Nodup := by
  unfold loadSeed at h
  split_ifs at h
  split at h
  · cases h
  · rename_i hitems
    cases h
    exact ⟨rfl, (checkItems_ok hitems).1⟩

end

/-! ## Commands between two runs -/

/-- No command but the replacement of the source changes the workspace and the URL. -/
theorem Subscription.Transition.source {parseUrl : String → Option Url} {s s' : Subscription} {c : SubscriptionCommand}
    (h : s.Transition parseUrl s' c) (hc : ∀ url exact title, c ≠ .replaceSource url exact title) :
    s'.workspaceId = s.workspaceId ∧ s'.sourceUrl = s.sourceUrl := by
  cases c with
  | pause reason actor atTime =>
    obtain ⟨event, rfl⟩ := h
    unfold Subscription.pause
    split <;> exact ⟨rfl, rfl⟩
  | resume =>
    obtain ⟨rfl, -⟩ := h
    unfold Subscription.resume
    split <;> exact ⟨rfl, rfl⟩
  | archive =>
    cases h
    unfold Subscription.archive
    split <;> exact ⟨rfl, rfl⟩
  | restore =>
    obtain ⟨rfl, -⟩ := h
    unfold Subscription.restore
    split <;> exact ⟨rfl, rfl⟩
  | rename name =>
    cases h
    unfold Subscription.rename
    generalize (if name = "" then none else some name) = customName
    dsimp only
    split <;> exact ⟨rfl, rfl⟩
  | replaceSource url exact title => exact absurd rfl (hc url exact title)

section
variable {P : SeedPlatform} {scope : SeedScope} {db db' : SeedDb P} {row : PreparedRow P}

/-- What has the id of a row was built with it, and every change of it counts in the revision. -/
def Built (db : SeedDb P) (row : PreparedRow P) : Prop :=
  ∀ document, db.subscriptions.lookup row.value.subscription.id = some document →
    document.createdAt = row.value.createdAt ∧
      (document.subscription.revision = 0 → document.subscription = row.value.subscription)

theorem runCommand_cases (scope : SeedScope) (db : SeedDb P) (command : SeedCommand) : runCommand P scope db command = db ∨
    ∃ document subscription jobs, db.subscriptions.lookup command.id = some document ∧
      document.subscription.Transition P.web.parseUrl subscription command.label.command ∧
      runCommand P scope db command =
        { db with subscriptions := db.subscriptions.insert command.id { document with subscription }, jobs } := by
  unfold runCommand
  split
  · exact .inl rfl
  · rename_i document hlookup
    split
    · rename_i subscription _ hcommand
      exact .inr ⟨document, subscription, _, hlookup, (Subscription.command_ok hcommand).2, rfl⟩
    · exact .inl rfl

theorem SeedCommand.not_replaces {command : SeedCommand} (h : command.keepsSource = true) (url : Url)
    (exact title : String) : command.label.command ≠ .replaceSource url exact title := by
  intro hreplace
  unfold SeedCommand.keepsSource at h
  rw [hreplace] at h
  cases h

theorem Settled.runCommand {command : SeedCommand} (hkeeps : command.keepsSource = true) (h : Settled db row) :
    Settled (runCommand P scope db command) row := by
  rcases runCommand_cases scope db command with hrun | ⟨document, s, jobs, hlookup, htransition, hrun⟩
  · rwa [hrun]
  · obtain ⟨hworkspace, hsource⟩ := htransition.source (SeedCommand.not_replaces hkeeps)
    obtain ⟨id, found, hfound, hmatch⟩ := urlExists_iff.1 h.2
    rw [hrun]
    refine ⟨h.1, urlExists_iff.2 ?_⟩
    by_cases hid : id = command.id
    · subst hid
      rw [hlookup] at hfound
      cases hfound
      refine ⟨command.id, { document with subscription := s }, ?_, hworkspace.trans hmatch.1, ?_⟩
      · exact (Table.lookup_insert_if ..).trans (if_pos rfl)
      · rw [hsource]
        exact hmatch.2
    · exact ⟨id, found, (Table.lookup_insert_if ..).trans ((if_neg hid).trans hfound), hmatch⟩

theorem Built.runCommand {command : SeedCommand} (h : Built db row) : Built (runCommand P scope db command) row := by
  rcases runCommand_cases scope db command with hrun | ⟨document, s, jobs, hlookup, htransition, hrun⟩
  · rwa [hrun]
  · rw [hrun]
    intro found hfound
    have hfound' : (db.subscriptions.insert command.id { document with subscription := s }).lookup
        row.value.subscription.id = some found := hfound
    rw [Table.lookup_insert_if] at hfound'
    split_ifs at hfound' with hid
    · cases hfound'
      obtain ⟨hcreated, hsame⟩ := h document (hid ▸ hlookup)
      refine ⟨hcreated, fun hrevision => ?_⟩
      rcases htransition.counted with rfl | ⟨hcounted, -⟩
      · exact hsame hrevision
      · have hrevision' : s.revision = 0 := hrevision
        omega
    · exact h found hfound'

theorem foldl_runCommand {commands : List SeedCommand} (hkeeps : ∀ command ∈ commands, command.keepsSource = true)
    (hsettled : Settled db row) (hbuilt : Built db row) :
    Settled (commands.foldl (runCommand P scope) db) row ∧ Built (commands.foldl (runCommand P scope) db) row := by
  induction commands generalizing db with
  | nil => exact ⟨hsettled, hbuilt⟩
  | cons command commands ih =>
    rw [List.forall_mem_cons] at hkeeps
    exact ih hkeeps.2 (hsettled.runCommand hkeeps.1) hbuilt.runCommand

end

/-! ## Two runs -/

section
variable {P : SeedPlatform} {scope : SeedScope} {db db' : SeedDb P} {seed : SeedManifest P.web}
  {now : String → DateTime}

theorem seedApply_ok_iff : seedApply P scope seed now db = .ok db' ↔ ∃ values rows, loadSeed P seed = .ok seed ∧
    seedValues P seed now = .ok values ∧ values.mapM (prepareRow P scope seed.workspaceId) = .ok rows ∧
    (∀ row ∈ rows, checkRow P db row = .ok ()) ∧ rows.foldlM (applyRow P scope) db = .ok db' := by
  simp only [seedApply, applySeedAtomic, except_bind_ok]
  constructor
  · rintro ⟨seed', hload, values, hvalues, rows, hrows, ⟨⟩, hcheck, hfold⟩
    obtain ⟨rfl, -⟩ := loadSeed_ok hload
    exact ⟨values, rows, hload, hvalues, hrows, forM_ok_iff.1 hcheck, hfold⟩
  · rintro ⟨values, rows, hload, hvalues, hrows, hcheck, hfold⟩
    exact ⟨seed, hload, values, hvalues, rows, hrows, (), forM_ok_iff.2 hcheck, hfold⟩

/-- The row of an item. -/
structure RowOf (P : SeedPlatform) (seed : SeedManifest P.web) (now : String → DateTime) (item : SeedItem)
    (row : PreparedRow P) : Prop where
  key : row.key = item.idempotencyKey
  configuration : row.configuration = P.jsonText item.configuration
  id : row.value.subscription.id = ⟨P.oid (seedIdentity P seed item.idempotencyKey)⟩
  exactUrl : row.value.subscription.exactUrl = none
  revision : row.value.subscription.revision = 0

theorem rows_of {values : List (PreparedSeed P)} {rows : List (PreparedRow P)}
    (hvalues : seedValues P seed now = .ok values)
    (hrows : values.mapM (prepareRow P scope seed.workspaceId) = .ok rows) :
    List.Forall₂ (RowOf P seed now) (seed.items.filter (·.selected)) rows := by
  have hvalues' := mapM_ok.1 hvalues
  have hrows' := mapM_ok.1 hrows
  clear hvalues hrows
  generalize seed.items.filter (·.selected) = items at hvalues'
  induction hvalues' generalizing rows with
  | nil =>
    cases hrows'
    exact .nil
  | cons hvalue _ ih =>
    obtain ⟨row, rows, hrow, hrest, rfl⟩ := List.forall₂_cons_left_iff.1 hrows'
    obtain ⟨hkey, hconfiguration, url, title, hvalue'⟩ := seedValue_ok hvalue
    obtain ⟨hkey', hsame, hconfiguration'⟩ := prepareRow_ok hrow
    refine .cons ⟨hkey'.trans hkey, ?_, ?_, ?_, ?_⟩ (ih hrest)
    · rw [hconfiguration', hconfiguration]
    · rw [hsame, hvalue', newSubscription]
    · rw [hsame, hvalue', newSubscription]
    · rw [hsame, hvalue', newSubscription]

theorem rows_keys {rows : List (PreparedRow P)} (hload : loadSeed P seed = .ok seed)
    (hrows : List.Forall₂ (RowOf P seed now) (seed.items.filter (·.selected)) rows) : (rows.map (·.key)).Nodup := by
  have hkeys : rows.map (·.key) = (seed.items.filter (·.selected)).map (·.idempotencyKey) := by
    rw [← List.forall₂_eq_eq_eq, List.forall₂_map_left_iff, List.forall₂_map_right_iff]
    exact hrows.flip.imp fun _ _ hrow => hrow.key
  rw [hkeys]
  exact (loadSeed_ok hload).2.sublist (List.filter_sublist.map _)

theorem rows_ids {rows : List (PreparedRow P)}
    (hids : ((seed.items.filter (·.selected)).map fun item => P.oid (seedIdentity P seed item.idempotencyKey)).Nodup)
    (hrows : List.Forall₂ (RowOf P seed now) (seed.items.filter (·.selected)) rows) :
    (rows.map (·.value.subscription.id)).Nodup := by
  have hmap : rows.map (·.value.subscription.id) =
      ((seed.items.filter (·.selected)).map fun item => P.oid (seedIdentity P seed item.idempotencyKey)).map
        SubscriptionId.mk := by
    rw [List.map_map, ← List.forall₂_eq_eq_eq, List.forall₂_map_left_iff, List.forall₂_map_right_iff]
    exact hrows.flip.imp fun _ _ hrow => hrow.id
  rw [hmap]
  exact hids.map fun _ _ h => SubscriptionId.mk.inj h

/-- After a run the tables have what its rows ask for. -/
theorem seedApply_settles {rows : List (PreparedRow P)} (hload : loadSeed P seed = .ok seed)
    (hids : ((seed.items.filter (·.selected)).map fun item => P.oid (seedIdentity P seed item.idempotencyKey)).Nodup)
    (hrows : List.Forall₂ (RowOf P seed now) (seed.items.filter (·.selected)) rows)
    (hcheck : ∀ row ∈ rows, checkRow P db row = .ok ()) (hfold : rows.foldlM (applyRow P scope) db = .ok db') :
    ∀ row ∈ rows, Settled db' row ∧ Built db' row := by
  have hrowIds := rows_ids hids hrows
  have hexact : ∀ row ∈ rows, row.value.subscription.sourceUrlExact = row.value.subscription.sourceUrl.text := by
    intro row hrow
    obtain ⟨item, -, hitem⟩ := (forall₂_mem hrows).2 row hrow
    rw [Subscription.sourceUrlExact, hitem.exactUrl, Option.getD_none]
  have hadmissible : ∀ row ∈ rows, Admissible db row := fun row hrow =>
    ⟨hexact row hrow, (checkRow_ok_iff.1 (hcheck row hrow)).1, (checkRow_ok_iff.1 (hcheck row hrow)).2⟩
  intro row hrow
  refine ⟨(foldlM_applyRow_ok (rows_keys hload hrows) hrowIds hadmissible hfold).2 row hrow, fun document hlookup => ?_⟩
  have hsame : document = row.value := by
    rcases foldlM_applyRow_subscriptions hfold hlookup with hold | ⟨r, hr, hid, rfl⟩
    · exact (hadmissible row hrow).subscription document hold
    · rw [List.inj_on_of_nodup_map hrowIds hrow hr hid]
  rw [hsame]
  exact ⟨rfl, fun _ => rfl⟩

/-- The rows of a manifest at another time. -/
theorem rows_retime (now' : String → DateTime) {values : List (PreparedSeed P)} {rows : List (PreparedRow P)}
    (hvalues : seedValues P seed now = .ok values)
    (hrows : values.mapM (prepareRow P scope seed.workspaceId) = .ok rows) :
    seedValues P seed now' = .ok (values.map (·.retime now')) ∧
      (values.map (·.retime now')).mapM (prepareRow P scope seed.workspaceId) = .ok (rows.map (·.retime now')) := by
  refine ⟨mapM_retime seedValue_retime hvalues, ?_⟩
  rw [mapM_ok] at hrows ⊢
  rw [List.forall₂_map_left_iff, List.forall₂_map_right_iff]
  refine hrows.imp fun v row hrow => ?_
  rw [prepareRow_retime, hrow]
  rfl

/-- The second run passes its checks exactly if what has the id of a row is new and unchanged. -/
theorem checkRow_retime {now' : String → DateTime} {row : PreparedRow P} {item : SeedItem}
    (hitem : RowOf P seed now item row)
    (hsettled : Settled db row) (hbuilt : Built db row) : checkRow P db (row.retime now') = .ok () ↔
      ∀ document, db.subscriptions.lookup ⟨P.oid (seedIdentity P seed item.idempotencyKey)⟩ = some document →
        document.createdAt = some (now' item.idempotencyKey) ∧ document.subscription.revision = 0 := by
  have hid : (row.retime now').value.subscription.id = ⟨P.oid (seedIdentity P seed item.idempotencyKey)⟩ := hitem.id
  have hvalue : (row.retime now').value = ⟨row.value.subscription, some (now' item.idempotencyKey)⟩ := by
    rw [← hitem.key]
    rfl
  rw [checkRow_ok_iff, hid, hvalue]
  constructor
  · rintro ⟨hsame, -⟩ document hlookup
    rw [hsame document hlookup]
    exact ⟨rfl, hitem.revision⟩
  · intro hnew
    refine ⟨fun document hlookup => ?_, fun configuration hlookup => ?_⟩
    · obtain ⟨hcreated, hrevision⟩ := hnew document hlookup
      rw [← hitem.id] at hlookup
      rw [← (hbuilt document hlookup).2 hrevision, ← hcreated]
    · exact Option.some.inj (hlookup.symm.trans hsettled.1)

/-- A run with another configuration of a settled key fails. -/
theorem seedApply_conflict {seed' : SeedManifest P.web} {now' : String → DateTime} {row : PreparedRow P}
    {item : SeedItem} (hsettled : Settled db row) (hitem : item ∈ seed'.items) (hselected : item.selected = true)
    (hkey : item.idempotencyKey = row.key) (hconfiguration : P.jsonText item.configuration ≠ row.configuration) :
    ∃ e, seedApply P scope seed' now' db = .error e := by
  cases hrun : seedApply P scope seed' now' db with
  | error e => exact ⟨e, rfl⟩
  | ok db' =>
    obtain ⟨values, rows, -, hvalues, hrows, hcheck, -⟩ := seedApply_ok_iff.1 hrun
    obtain ⟨r, hr, hof⟩ := (forall₂_mem (rows_of hvalues hrows)).1 item (List.mem_filter.2 ⟨hitem, hselected⟩)
    have hlookup : db.seedItems.lookup r.key = some row.configuration := by
      rw [hof.key, hkey]
      exact hsettled.1
    exact absurd (hof.configuration.symm.trans ((checkRow_ok_iff.1 (hcheck r hr)).2 _ hlookup).symm) hconfiguration

/-- Between two runs come commands of the owners. The second run succeeds and changes nothing exactly if no subscription
has the id of a selected item but one that was built at the same time and that no command has changed. A run with
another configuration of a key fails. -/
theorem seed_reapplied {now₁ now₂ : String → DateTime} {db₁ db₂ : SeedDb P} {commands : List SeedCommand}
    (hids : ((seed.items.filter (·.selected)).map fun item => P.oid (seedIdentity P seed item.idempotencyKey)).Nodup)
    (hfirst : seedApply P scope seed now₁ db₁ = .ok db₂)
    (hkeeps : ∀ command ∈ commands, command.keepsSource = true) :
    (seedApply P scope seed now₂ (commands.foldl (runCommand P scope) db₂) =
        .ok (commands.foldl (runCommand P scope) db₂) ↔
      ∀ item ∈ seed.items, item.selected = true → ∀ document,
        (commands.foldl (runCommand P scope) db₂).subscriptions.lookup
          ⟨P.oid (seedIdentity P seed item.idempotencyKey)⟩ = some document →
        document.createdAt = some (now₂ item.idempotencyKey) ∧ document.subscription.revision = 0) ∧
    ∀ (seed' : SeedManifest P.web) (now' : String → DateTime),
      (∃ item ∈ seed.items, ∃ item' ∈ seed'.items, item.selected = true ∧ item'.selected = true ∧
        item'.idempotencyKey = item.idempotencyKey ∧ P.jsonText item'.configuration ≠ P.jsonText item.configuration) →
      ∃ e, seedApply P scope seed' now' (commands.foldl (runCommand P scope) db₂) = .error e := by
  obtain ⟨values, rows, hload, hvalues, hrows, hcheck, hfold⟩ := seedApply_ok_iff.1 hfirst
  have hof := rows_of hvalues hrows
  have hstate : ∀ row ∈ rows, Settled (commands.foldl (runCommand P scope) db₂) row ∧
      Built (commands.foldl (runCommand P scope) db₂) row := fun row hrow =>
    have hrow' := seedApply_settles hload hids hof hcheck hfold row hrow
    foldl_runCommand hkeeps hrow'.1 hrow'.2
  generalize commands.foldl (runCommand P scope) db₂ = db₃ at hstate
  obtain ⟨hvalues', hrows'⟩ := rows_retime now₂ hvalues hrows
  refine ⟨⟨fun hsecond => ?_, fun hnew => ?_⟩, ?_⟩
  · intro item hitem hselected
    obtain ⟨row, hrow, hrowOf⟩ := (forall₂_mem hof).1 item (List.mem_filter.2 ⟨hitem, hselected⟩)
    obtain ⟨values₂, rows₂, -, hvalues₂, hrows₂, hcheck₂, -⟩ := seedApply_ok_iff.1 hsecond
    cases hvalues'.symm.trans hvalues₂
    cases hrows'.symm.trans hrows₂
    exact (checkRow_retime hrowOf (hstate row hrow).1 (hstate row hrow).2).1 (hcheck₂ _ (List.mem_map_of_mem hrow))
  · refine seedApply_ok_iff.2 ⟨_, _, hload, hvalues', hrows', ?_, ?_⟩
    · rw [List.forall_mem_map]
      intro row hrow
      obtain ⟨item, hitem, hrowOf⟩ := (forall₂_mem hof).2 row hrow
      obtain ⟨hitem, hselected⟩ := List.mem_filter.1 hitem
      exact (checkRow_retime hrowOf (hstate row hrow).1 (hstate row hrow).2).2 (hnew item hitem hselected)
    · refine foldlM_applyRow_settled (List.forall_mem_map.2 fun row hrow => ⟨?_, (hstate row hrow).1⟩)
      obtain ⟨item, -, hrowOf⟩ := (forall₂_mem hof).2 row hrow
      exact congrArg (Option.getD · row.value.subscription.sourceUrl.text) hrowOf.exactUrl
  · rintro seed' now' ⟨item, hitem, item', hitem', hselected, hselected', hkey, hother⟩
    obtain ⟨row, hrow, hrowOf⟩ := (forall₂_mem hof).1 item (List.mem_filter.2 ⟨hitem, hselected⟩)
    refine seedApply_conflict (hstate row hrow).1 hitem' hselected' (hkey.trans hrowOf.key.symm) ?_
    rw [hrowOf.configuration]
    exact hother

end

/-! ## A manifest with one feed -/

namespace Sample

/-- The names under which the manifest below makes its UUIDs, and the text of its configuration. -/
def seedPlatform : SeedPlatform where
  web := webPlatform
  oid name :=
    if name = "seed-job/personal_feed:a" then 57737598093010982611786701426699285313
    else 288545506162109689940301872683042463101
  urlUuid _ := 248607758821835626957340135073715674228
  jsonText value :=
    if (value.get "url").isSome then "\x7b\"name\":\"A\",\"url\":\"https://a.test/\"\x7d"
    else "\x7b\"name\":\"A\",\"feed_url\":\"https://a.test/\"\x7d"
  letters := { lower := fun c => [c], upper := fun c => [c], cased := fun _ => false, ignorable := fun _ => false }

def seedUuid : WebUuid seedPlatform.web := ⟨1, "00000000-0000-0000-0000-000000000001", rfl⟩

/-- A selected item with the URL under the given name. -/
def seedManifest (member : String) : SeedManifest seedPlatform.web where
  schemaVersion := 1
  ownerAccountId := seedUuid
  workspaceId := seedUuid
  items := [{ sourceInventoryId := "a", idempotencyKey := "personal_feed:a", selected := true, status := "reviewed",
              configuration := .obj [("name", .ofText "A"), (member, .ofText "https://a.test/")], note := none }]

def seedScope : SeedScope := ⟨⟨100⟩, 10⟩

def unseeded : SeedDb seedPlatform where
  subscriptions := ∅
  sources := ∅
  sourceUrls := ∅
  subscriptionSources := ∅
  webFeedRecipes := ∅
  seedItems := ∅
  jobs := ∅
  records _ := []

def seededUrl : Url := ⟨"https://a.test/", "https", some "a.test", none⟩

def seededSource : SourceId := ⟨248607758821835626957340135073715674228⟩

def seededId : SubscriptionId := ⟨288545506162109689940301872683042463101⟩

def seededDocument : SubscriptionDocument := Inoreader.newSubscription seededId ⟨1⟩ seededUrl "A" 0

/-- What the manifest makes of the feed at time 0. -/
def seeded : SeedDb seedPlatform where
  subscriptions := Table.insert ∅ seededId seededDocument
  sources := Table.insert ∅ seededSource ⟨seededUrl, .auto⟩
  sourceUrls := Table.insert ∅ "https://a.test/" seededSource
  subscriptionSources := Table.insert ∅ seededId seededSource
  webFeedRecipes := ∅
  seedItems := Table.insert ∅ "personal_feed:a" "\x7b\"name\":\"A\",\"feed_url\":\"https://a.test/\"\x7d"
  jobs := Table.insert ∅ 57737598093010982611786701426699285313 (.pollSource seededSource)
  records _ := []

theorem seedApply_seeded :
    seedApply seedPlatform seedScope (seedManifest "feed_url") (fun _ => 0) unseeded = .ok seeded := rfl

/-- The same manifest succeeds again at the same time, and another configuration fails. -/
theorem seed_reapplied_at_once :
    seedApply seedPlatform seedScope (seedManifest "feed_url") (fun _ => 0) seeded = .ok seeded ∧
      ∃ e, seedApply seedPlatform seedScope (seedManifest "url") (fun _ => 1) seeded = .error e := by
  have hlookup : seeded.subscriptions.lookup seededId = some seededDocument := rfl
  obtain ⟨hsame, hother⟩ := @seed_reapplied _ _ _ _ (fun _ => 0) _ _ [] (by decide) seedApply_seeded
    (List.forall_mem_nil _)
  refine ⟨hsame.2 fun item hitem _ document hdocument => ?_, hother _ _
    ⟨_, List.mem_singleton_self _, _, List.mem_singleton_self _, rfl, rfl, rfl, by decide⟩⟩
  cases List.mem_singleton.1 hitem
  cases hlookup.symm.trans hdocument
  exact ⟨rfl, rfl⟩

/-- A second run at a later time finds the subscription of the first one in conflict. -/
theorem later_seed_conflicts :
    seedApply seedPlatform seedScope (seedManifest "feed_url") (fun _ => 0) unseeded = .ok seeded ∧
      seedApply seedPlatform seedScope (seedManifest "feed_url") (fun _ => 1) seeded =
        .error "seed idempotency key conflicts with existing subscription" :=
  ⟨rfl, rfl⟩

end Sample

end Inoreader
