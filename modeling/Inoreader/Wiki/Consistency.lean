import Inoreader.Wiki.Store

/-!
# The wiki tables agree with each other

`Stored` says what a committed change does to the tables; the invariant `Consistent` follows from it.
-/

namespace Inoreader
open Lib

/-- The page `page` was written. -/
structure WikiDb.Stored (db db' : WikiDb) (page : WikiPage) (action : String) : Prop where
  parent : ∀ p, page.parent = some p →
    (db.pages.lookup (page.namespace, p)).isSome = true ∧ page.id ∉ db.ancestors page.namespace p
  pages : db'.pages = db.pages.insert (page.namespace, page.id) page
  names : db.names.lookup (page.namespace, page.name) = some page.id ∧ db'.names = db.names ∨
    db.names.lookup (page.namespace, page.name) = none ∧ db'.names = db.names.insert (page.namespace, page.name) page.id
  fresh : db.revisions.lookup (page.namespace, page.id, page.revision) = none
  revisions : db'.revisions = db.revisions.insert (page.namespace, page.id, page.revision) (page.asRevision action)
  links : ∀ ns id, db'.linksOf ns id = if (ns, id) = (page.namespace, page.id) then linkNames page.markdown else db.linksOf ns id
  roles : db'.namespaces = db.namespaces ∧ db'.members = db.members

section
variable {limits : WikiLimits} {db db' : WikiDb} {actor : AccountId} {ns : Nat} {role : WikiRole} {input : WriteInput}

/-! ## What only reads -/

theorem keeps_wikiResult {α : Type} (r : Except WikiError α) : Tx.Keeps (fun s => s) (wikiResult r) := by
  unfold wikiResult
  split
  · exact Tx.keeps_pure _
  · exact Tx.keeps_throw _

theorem keeps_authorizeWiki (actor : AccountId) (ns : Nat) : Tx.Keeps (fun s => s) (authorizeWiki actor ns) := by
  unfold authorizeWiki
  refine Tx.keeps_bind Tx.keeps_get fun db => Tx.keeps_bind (Tx.keeps_orThrow _ _) fun row => ?_
  exact Tx.keeps_ite (Tx.keeps_pure _) (keeps_wikiResult _)

theorem keeps_loadPage (ns id : Nat) (role : WikiRole) : Tx.Keeps (fun s => s) (loadPage ns id role) := by
  unfold loadPage
  refine Tx.keeps_bind Tx.keeps_get fun db => Tx.keeps_bind (Tx.keeps_orThrow _ _) fun page => ?_
  exact Tx.keeps_bind (Tx.keeps_require _ _) fun _ => Tx.keeps_pure _

theorem keeps_livePage (current : Option WikiPage) : Tx.Keeps (fun s => s) (livePage current) := by
  unfold livePage
  refine Tx.keeps_bind (Tx.keeps_orThrow _ _) fun page => ?_
  exact Tx.keeps_bind (Tx.keeps_require _ _) fun _ => Tx.keeps_pure _

theorem keeps_changedContent (ns : Nat) (input : WriteInput) (current : Option WikiPage) :
    Tx.Keeps (fun s => s) (changedContent ns input current) := by
  have htrash : ∀ deleted, Tx.Keeps (fun s => s) (moveTrash current deleted) := by
    intro deleted
    unfold moveTrash
    refine Tx.keeps_bind (Tx.keeps_orThrow _ _) fun page => ?_
    exact Tx.keeps_bind (Tx.keeps_require _ _) fun _ => Tx.keeps_pure _
  unfold changedContent
  split
  · exact Tx.keeps_bind (Tx.keeps_require _ _) fun _ => Tx.keeps_pure _
  · exact Tx.keeps_bind (keeps_livePage _) fun _ => Tx.keeps_pure _
  · exact Tx.keeps_bind (keeps_livePage _) fun _ => Tx.keeps_pure _
  · exact htrash true
  · exact htrash false
  · refine Tx.keeps_bind (keeps_livePage _) fun _ => Tx.keeps_bind Tx.keeps_get fun db => ?_
    exact Tx.keeps_bind (Tx.keeps_orThrow _ _) fun row => Tx.keeps_pure _

/-- A parent that passes is a page of the namespace, and the page is not among its ancestors. -/
theorem checkParent_ok {parent : Option Nat} {u : Unit} (h : checkParent ns role input parent db = .ok (u, db')) :
    db' = db ∧ ∀ p, parent = some p → (db.pages.lookup (ns, p)).isSome = true ∧ input.page ∉ db.ancestors ns p := by
  unfold checkParent at h
  cases parent with
  | none =>
    cases h
    exact ⟨rfl, nofun⟩
  | some p =>
    obtain ⟨target, hload, h⟩ := (Tx.bind_ok_of_reads (keeps_loadPage ns p role)).1 h
    obtain ⟨-, h⟩ := Tx.bind_require_ok.1 h
    simp only [Tx.bind_run, Tx.get_run] at h
    obtain ⟨hcycle, rfl⟩ := Tx.require_ok.1 h
    refine ⟨rfl, fun p' hp' => ?_⟩
    cases hp'
    refine ⟨?_, hcycle⟩
    unfold loadPage at hload
    simp only [Tx.bind_run, Tx.get_run] at hload
    obtain ⟨page, hpage, -⟩ := Tx.bind_orThrow_ok.1 hload
    simp [hpage]

/-! ## What is written -/

theorem linksOf_setLinks (db : WikiDb) (ns id ns' id' : Nat) (targets : List String) :
    (db.setLinks ns id targets).linksOf ns' id' = if (ns', id') = (ns, id) then targets else db.linksOf ns' id' :=
  rows_replaced db.links (ns, id) (ns', id') targets

theorem storePage_ok {page : WikiPage} {action : String} {u : Unit}
    (hparent : ∀ p, page.parent = some p →
      (db.pages.lookup (page.namespace, p)).isSome = true ∧ page.id ∉ db.ancestors page.namespace p)
    (hoccupied : (db.names.lookup (page.namespace, page.name)).all (· = page.id) = true)
    (h : storePage page action (db.names.lookup (page.namespace, page.name)) db = .ok (u, db')) :
    db.Stored db' page action ∧ db'.operations = db.operations ∧ db'.subscriptionRoots = db.subscriptionRoots := by
  unfold storePage at h
  simp only [Tx.bind_run, Tx.modify_run] at h
  cases hname : db.names.lookup (page.namespace, page.name) with
  | none =>
    simp only [hname, Tx.onlyIf, if_true, Tx.modify_run, Tx.get_run] at h
    obtain ⟨hfresh, h⟩ := Tx.bind_require_ok.1 h
    cases h
    exact ⟨⟨hparent, rfl, .inr ⟨hname, rfl⟩, hfresh, rfl, fun ns id => linksOf_setLinks _ _ _ ns id _, rfl, rfl⟩, rfl, rfl⟩
  | some id =>
    have hid : id = page.id := by simpa [hname] using hoccupied
    simp only [hname, Tx.onlyIf, reduceCtorEq, if_false, Tx.pure_run, Tx.get_run] at h
    obtain ⟨hfresh, h⟩ := Tx.bind_require_ok.1 h
    cases h
    exact ⟨⟨hparent, rfl, .inl ⟨hid ▸ hname, rfl⟩, hfresh, rfl, fun ns id => linksOf_setLinks _ _ _ ns id _, rfl, rfl⟩, rfl, rfl⟩

/-- A change that takes effect was made against the current revision. -/
theorem applyChange_ok {revision : Nat} {now : DateTime} {page : WikiPage}
    (h : applyChange limits actor ns role input revision now db = .ok (page, db')) :
    (db.pages.lookup (ns, input.page)).map (·.revision) = input.expectedRevision ∧ page.namespace = ns ∧ page.id = input.page ∧
    ∃ action, db.Stored db' page action ∧
      db'.operations = db.operations.insert (ns, actor, input.operation) ⟨input, page⟩ := by
  unfold applyChange at h
  obtain ⟨hrevision, h⟩ := Tx.bind_require_ok.1 (Tx.bind_get_ok.1 h)
  obtain ⟨content, -, h⟩ := (Tx.bind_ok_of_reads (keeps_changedContent _ _ _)).1 h
  obtain ⟨_, db₀, hcheck, h⟩ := Tx.bind_ok.1 h
  obtain ⟨hsame, hparent⟩ := checkParent_ok hcheck
  rw [hsame] at h
  obtain ⟨-, -, h⟩ := (Tx.bind_ok_of_reads (keeps_wikiResult _)).1 h
  obtain ⟨-, -, h⟩ := (Tx.bind_ok_of_reads (keeps_wikiResult _)).1 h
  obtain ⟨hoccupied, h⟩ := Tx.bind_require_ok.1 (Tx.bind_get_ok.1 h)
  obtain ⟨_, db₁, hstore, h⟩ := Tx.bind_ok.1 h
  obtain ⟨hstored, hoperations, -⟩ := storePage_ok hparent hoccupied hstore
  cases h
  refine ⟨hrevision, rfl, rfl, content.action, ⟨hstored.parent, hstored.pages, hstored.names, hstored.fresh, hstored.revisions,
    hstored.links, hstored.roles⟩, ?_⟩
  show Table.insert db₁.operations _ _ = _
  rw [hoperations]

/-! ## The invariant -/

structure WikiDb.Consistent (db : WikiDb) : Prop where
  keyed : ∀ ns id page, db.pages.lookup (ns, id) = some page → page.namespace = ns ∧ page.id = id
  inside : ∀ ns id page p, db.pages.lookup (ns, id) = some page → page.parent = some p →
    (db.pages.lookup (ns, p)).isSome = true
  acyclic : ∀ ns, Pointers.Acyclic (db.parentOf ns)
  named : ∀ ns id page, db.pages.lookup (ns, id) = some page → db.names.lookup (ns, page.name) = some id
  used : ∀ ns id revision row, db.revisions.lookup (ns, id, revision) = some row → db.names.lookup (ns, row.name) = some id
  links : ∀ ns id, db.linksOf ns id = ((db.pages.lookup (ns, id)).map fun page => linkNames page.markdown).getD []
  revision : ∀ ns id page, db.pages.lookup (ns, id) = some page →
    ∃ action, db.revisions.lookup (ns, id, page.revision) = some (page.asRevision action)

/-- Names, revisions and operations stay as they are once they are there. -/
structure WikiDb.Extends (db db' : WikiDb) : Prop where
  names : ∀ k id, db.names.lookup k = some id → db'.names.lookup k = some id
  revisions : ∀ k row, db.revisions.lookup k = some row → db'.revisions.lookup k = some row
  operations : ∀ k op, db.operations.lookup k = some op → db'.operations.lookup k = some op
  roles : db'.namespaces = db.namespaces ∧ db'.members = db.members

variable {page : WikiPage} {action : String}

namespace WikiDb.Stored

theorem names_kept (h : db.Stored db' page action) {k : Nat × String} {id : Nat} (hk : db.names.lookup k = some id) :
    db'.names.lookup k = some id := by
  rcases h.names with ⟨-, hnames⟩ | ⟨hnone, hnames⟩
  · rw [hnames]
    exact hk
  · rw [hnames, Table.lookup_insert_if, if_neg]
    · exact hk
    · intro e
      rw [← e, hk] at hnone
      cases hnone

theorem revisions_kept (h : db.Stored db' page action) {k : Nat × Nat × Nat} {row : WikiRevision}
    (hk : db.revisions.lookup k = some row) : db'.revisions.lookup k = some row := by
  rw [h.revisions, Table.lookup_insert_if, if_neg]
  · exact hk
  · intro e
    have hfresh := h.fresh
    rw [← e, hk] at hfresh
    cases hfresh

/-- The name of the new page is its own. -/
theorem name_self (h : db.Stored db' page action) : db'.names.lookup (page.namespace, page.name) = some page.id := by
  rcases h.names with ⟨hname, hnames⟩ | ⟨-, hnames⟩
  · rw [hnames]
    exact hname
  · rw [hnames, Table.lookup_insert_if, if_pos rfl]

/-- A row of the new table is the new page or an old row. -/
theorem lookup_cases (h : db.Stored db' page action) {ns id : Nat} {row : WikiPage} (hrow : db'.pages.lookup (ns, id) = some row) :
    (ns = page.namespace ∧ id = page.id ∧ row = page) ∨
      ((ns, id) ≠ (page.namespace, page.id) ∧ db.pages.lookup (ns, id) = some row) := by
  rw [h.pages, Table.lookup_insert_if] at hrow
  split at hrow
  · rename_i hkey
    cases hkey
    cases hrow
    exact .inl ⟨rfl, rfl, rfl⟩
  · rename_i hkey
    exact .inr ⟨hkey, hrow⟩

theorem isSome_kept (h : db.Stored db' page action) {k : Nat × Nat} (hk : (db.pages.lookup k).isSome = true) :
    (db'.pages.lookup k).isSome = true := by
  rw [h.pages, Table.lookup_insert_if]
  split
  · rfl
  · exact hk

theorem acyclic (h : db.Stored db' page action) (hacyclic : ∀ ns, Pointers.Acyclic (db.parentOf ns)) (ns : Nat) :
    Pointers.Acyclic (db'.parentOf ns) := by
  have hother : ∀ id, (ns, id) ≠ (page.namespace, page.id) → db'.parentOf ns id = db.parentOf ns id := by
    intro id hne
    unfold WikiDb.parentOf
    rw [h.pages, Table.lookup_insert_if, if_neg hne]
  by_cases hns : ns = page.namespace
  · subst hns
    refine Pointers.acyclic_set (fun id hid => hother id fun e => hid (Prod.mk.inj e).2) (hacyclic _) fun p hp hreach => ?_
    have hparent : page.parent = some p := by
      unfold WikiDb.parentOf at hp
      rwa [h.pages, Table.lookup_insert_if, if_pos rfl] at hp
    refine (h.parent p hparent).2 ?_
    have hdomain : ∀ id, (db.parentOf page.namespace id).isSome = true → id ∈ db.pages.rows.map fun row => row.1.2 := by
      intro id hid
      obtain ⟨row, hrow, -⟩ := Option.bind_eq_some_iff.1 (Option.isSome_iff_exists.1 hid).choose_spec
      exact List.mem_map.2 ⟨((page.namespace, id), row), Table.mem_rows.2 hrow, rfl⟩
    have hmem := Pointers.mem_chain_of_reach (hacyclic _) hdomain hreach
    rwa [List.length_map] at hmem
  · have hsame : db'.parentOf ns = db.parentOf ns := funext fun id => hother id fun e => hns (Prod.mk.inj e).1
    rw [hsame]
    exact hacyclic ns

theorem consistent (h : db.Stored db' page action) (hdb : db.Consistent) : db'.Consistent where
  keyed := by
    intro ns id row hrow
    rcases h.lookup_cases hrow with ⟨rfl, rfl, rfl⟩ | ⟨-, hrow⟩
    · exact ⟨rfl, rfl⟩
    · exact hdb.keyed ns id row hrow
  inside := by
    intro ns id row p hrow hp
    rcases h.lookup_cases hrow with ⟨rfl, rfl, rfl⟩ | ⟨-, hrow⟩
    · exact h.isSome_kept (h.parent p hp).1
    · exact h.isSome_kept (hdb.inside ns id row p hrow hp)
  acyclic := h.acyclic hdb.acyclic
  named := by
    intro ns id row hrow
    rcases h.lookup_cases hrow with ⟨rfl, rfl, rfl⟩ | ⟨-, hrow⟩
    · exact h.name_self
    · exact h.names_kept (hdb.named ns id row hrow)
  used := by
    intro ns id revision row hrow
    rw [h.revisions, Table.lookup_insert_if] at hrow
    split at hrow
    · rename_i hkey
      cases hkey
      cases hrow
      exact h.name_self
    · exact h.names_kept (hdb.used ns id revision row hrow)
  links := by
    intro ns id
    rw [h.links, h.pages, Table.lookup_insert_if]
    split
    · rfl
    · exact hdb.links ns id
  revision := by
    intro ns id row hrow
    rcases h.lookup_cases hrow with ⟨rfl, rfl, rfl⟩ | ⟨-, hrow⟩
    · exact ⟨action, by rw [h.revisions, Table.lookup_insert_if, if_pos rfl]⟩
    · obtain ⟨action', hrevision⟩ := hdb.revision ns id row hrow
      exact ⟨action', h.revisions_kept hrevision⟩

end WikiDb.Stored

/-! ## Requests -/

/-- The actor may change pages of the namespace. -/
def WikiDb.MayEdit (db : WikiDb) (actor : AccountId) (ns : Nat) : Prop :=
  ∃ role, authorizeWiki actor ns db = .ok (role, db) ∧ role.canEdit = true

/-- The roles are all that `authorize` reads. -/
theorem WikiDb.MayEdit.of_roles (h : db.MayEdit actor ns) (hroles : db'.namespaces = db.namespaces ∧ db'.members = db.members) :
    db'.MayEdit actor ns := by
  obtain ⟨role, hauthorize, hedit⟩ := h
  refine ⟨role, ?_, hedit⟩
  unfold authorizeWiki at hauthorize ⊢
  have h₁ := Tx.bind_get_ok.1 hauthorize
  obtain ⟨row, hrow, h₂⟩ := Tx.bind_orThrow_ok.1 h₁
  refine Tx.bind_get_ok.2 (Tx.bind_orThrow_ok.2 ⟨row, hroles.1 ▸ hrow, ?_⟩)
  rw [hroles.2]
  split at h₂
  · rename_i howner
    rw [if_pos howner]
    cases h₂
    rfl
  · rename_i howner
    rw [if_neg howner]
    cases hmember : memberRole (db.members.lookup (ns, actor)) with
    | error e =>
      rw [hmember] at h₂
      cases h₂
    | ok r =>
      rw [hmember] at h₂
      cases h₂
      rfl

/-- A request for a page was made before, or it takes effect now. -/
theorem changePage_ok {command : WikiWrite limits} {revision : Nat} {now : DateTime}
    (h : changePage limits actor ns command revision now db = .ok (page, db')) :
    db.MayEdit actor ns ∧
    ((∃ op, db.operations.lookup (ns, actor, command.input.operation) = some op ∧ op.request = command.input ∧
        page = op.response ∧ db' = db) ∨
      (db.operations.lookup (ns, actor, command.input.operation) = none ∧
        ∃ role, applyChange limits actor ns role command.input revision now db = .ok (page, db'))) := by
  unfold changePage requireEditor at h
  obtain ⟨role, hauthorize, h⟩ := (Tx.bind_ok_of_reads (keeps_authorizeWiki actor ns)).1 h
  obtain ⟨hedit, h⟩ := Tx.bind_require_ok.1 h
  refine ⟨⟨role, hauthorize, hedit⟩, ?_⟩
  have h := Tx.bind_get_ok.1 h
  cases hprior : db.operations.lookup (ns, actor, command.input.operation) with
  | none =>
    simp only [hprior] at h
    exact .inr ⟨rfl, role, h⟩
  | some op =>
    simp only [hprior] at h
    obtain ⟨hrequest, h⟩ := Tx.bind_require_ok.1 h
    cases h
    exact .inl ⟨op, rfl, hrequest, rfl, rfl⟩

/-- A request that was made before is answered as it was, or refused if it is another one. -/
theorem changePage_replay (hedit : db.MayEdit actor ns) (command : WikiWrite limits) (revision : Nat) (now : DateTime)
    {op : WikiOperation} (hop : db.operations.lookup (ns, actor, command.input.operation) = some op) :
    changePage limits actor ns command revision now db =
      if op.request = command.input then .ok (op.response, db) else .error .conflict := by
  obtain ⟨role, hauthorize, hedit⟩ := hedit
  unfold changePage requireEditor
  rw [Tx.bind_run, hauthorize]
  by_cases hrequest : op.request = command.input
  · simp only [Tx.require, hedit, if_true, Tx.bind_run, Tx.pure_run, Tx.get_run, hop, hrequest]
  · simp only [Tx.require, hedit, if_true, Tx.bind_run, Tx.pure_run, Tx.get_run, hop, hrequest, if_false, Tx.throw_run]

/-- The subscription root is there, or it is a new page. -/
theorem ensureSubscriptionRoot_ok {id revision : Nat} {now : DateTime} (hdb : db.Consistent)
    (h : ensureSubscriptionRoot limits actor ns id revision now db = .ok (page, db')) :
    db' = db ∨ ∃ page action, db.Stored db' page action ∧ db'.operations = db.operations := by
  unfold ensureSubscriptionRoot requireEditor at h
  obtain ⟨-, -, h⟩ := (Tx.bind_ok_of_reads (keeps_wikiResult _)).1 h
  obtain ⟨role, -, h⟩ := (Tx.bind_ok_of_reads (keeps_authorizeWiki actor ns)).1 h
  obtain ⟨-, h⟩ := Tx.bind_require_ok.1 h
  have h := Tx.bind_get_ok.1 h
  cases hroot : db.subscriptionRoots.lookup ns with
  | some root =>
    simp only [hroot] at h
    obtain ⟨root, -, h⟩ := (Tx.bind_ok_of_reads (keeps_loadPage _ _ _)).1 h
    obtain ⟨-, h⟩ := Tx.bind_require_ok.1 h
    cases h
    exact .inl rfl
  | none =>
    simp only [hroot] at h
    obtain ⟨hname, h⟩ := Tx.bind_require_ok.1 h
    obtain ⟨hpage, h⟩ := Tx.bind_require_ok.1 h
    obtain ⟨_, _, hset, h⟩ := Tx.bind_ok.1 h
    cases hset
    obtain ⟨hfresh, h⟩ := Tx.bind_require_ok.1 (Tx.bind_get_ok.1 h)
    cases h
    refine .inr ⟨⟨none, ns, id, revision, subscriptionsName, "", false, actor, now⟩, "create_subscription_root",
      ⟨(by intro _ h; cases h), rfl, .inr ⟨hname, rfl⟩, hfresh, rfl, fun ns' id' => ?_, rfl, rfl⟩, rfl⟩
    show db.linksOf ns' id' = _
    split
    · rename_i hkey
      cases hkey
      rw [hdb.links, hpage]
      show [] = linkNames ""
      decide
    · rfl

/-- What a request keeps: the tables agree, and who has made a change may still make one. -/
structure WikiDb.Sound (db : WikiDb) : Prop where
  consistent : db.Consistent
  entitled : ∀ ns actor operation op, db.operations.lookup (ns, actor, operation) = some op → db.MayEdit actor ns

theorem WikiDb.Extends.refl (db : WikiDb) : db.Extends db := ⟨fun _ _ h => h, fun _ _ h => h, fun _ _ h => h, rfl, rfl⟩

theorem WikiDb.Extends.trans {db₁ db₂ db₃ : WikiDb} (h : db₁.Extends db₂) (h' : db₂.Extends db₃) : db₁.Extends db₃ where
  names := fun k id hk => h'.names k id (h.names k id hk)
  revisions := fun k row hk => h'.revisions k row (h.revisions k row hk)
  operations := fun k op hk => h'.operations k op (h.operations k op hk)
  roles := ⟨h'.roles.1.trans h.roles.1, h'.roles.2.trans h.roles.2⟩

theorem wikiStep_sound {l : WikiLabel limits} (hdb : db.Sound) (h : wikiStep limits db l = some db') :
    db'.Sound ∧ db.Extends db' := by
  cases l with
  | change actor ns command revision now =>
    cases h
    cases hrun : changePage limits actor ns command revision now db with
    | error e =>
      rw [Tx.commit_of_error hrun]
      exact ⟨hdb, .refl db⟩
    | ok r =>
      obtain ⟨page, db'⟩ := r
      rw [Tx.commit_of_ok hrun]
      obtain ⟨hedit, ⟨op, -, -, -, rfl⟩ | ⟨hnew, role, happly⟩⟩ := changePage_ok hrun
      · exact ⟨hdb, .refl _⟩
      · obtain ⟨-, -, -, action, hstored, hoperations⟩ := applyChange_ok happly
        refine ⟨⟨hstored.consistent hdb.consistent, fun ns' actor' operation op hop => ?_⟩,
          fun k id hk => hstored.names_kept hk, fun k row hk => hstored.revisions_kept hk, fun k op hop => ?_, hstored.roles⟩
        · rw [hoperations, Table.lookup_insert_if] at hop
          split at hop
          · rename_i hkey
            cases hkey
            exact hedit.of_roles hstored.roles
          · exact (hdb.entitled ns' actor' operation op hop).of_roles hstored.roles
        · rw [hoperations, Table.lookup_insert_if, if_neg]
          · exact hop
          · intro e
            rw [e, hnew] at hop
            cases hop
  | ensureRoot actor ns id revision now =>
    cases h
    cases hrun : ensureSubscriptionRoot limits actor ns id revision now db with
    | error e =>
      rw [Tx.commit_of_error hrun]
      exact ⟨hdb, .refl db⟩
    | ok r =>
      obtain ⟨page, db'⟩ := r
      rw [Tx.commit_of_ok hrun]
      rcases ensureSubscriptionRoot_ok hdb.consistent hrun with rfl | ⟨page, action, hstored, hoperations⟩
      · exact ⟨hdb, .refl _⟩
      · refine ⟨⟨hstored.consistent hdb.consistent, fun ns' actor' operation op hop => ?_⟩,
          fun k id hk => hstored.names_kept hk, fun k row hk => hstored.revisions_kept hk, fun k op hop => ?_, hstored.roles⟩
        · rw [hoperations] at hop
          exact (hdb.entitled ns' actor' operation op hop).of_roles hstored.roles
        · rw [hoperations]
          exact hop

theorem wikiRun_sound {as : List (WikiLabel limits)} (hdb : db.Sound) (hrun : run (wikiStep limits) db as = some db') :
    db'.Sound ∧ db.Extends db' := by
  induction as generalizing db with
  | nil =>
    cases hrun
    exact ⟨hdb, .refl _⟩
  | cons a as ih =>
    obtain ⟨db₁, hstep, hrun⟩ := run_cons.1 hrun
    obtain ⟨hdb₁, hextends⟩ := wikiStep_sound hdb hstep
    obtain ⟨hdb', hextends'⟩ := ih hdb₁ hrun
    exact ⟨hdb', hextends.trans hextends'⟩

/-- A wiki without pages; its namespaces and members are arbitrary. -/
structure WikiDb.Fresh (db : WikiDb) : Prop where
  pages : db.pages = ∅
  names : db.names = ∅
  revisions : db.revisions = ∅
  links : db.links = []
  operations : db.operations = ∅

theorem WikiDb.Fresh.sound (h : db.Fresh) : db.Sound where
  consistent := by
    have hpages : ∀ k, db.pages.lookup k = none := by simp [h.pages]
    refine ⟨by simp [hpages], by simp [hpages], fun ns a ha => ?_, by simp [hpages], by simp [h.revisions], ?_, by simp [hpages]⟩
    · obtain ⟨b, hstep, -⟩ := Relation.TransGen.head'_iff.1 ha
      have hstep : (db.pages.lookup (ns, a)).bind (·.parent) = some b := hstep
      rw [hpages] at hstep
      cases hstep
    · intro ns id
      rw [hpages, WikiDb.linksOf, h.links]
      rfl
  entitled := by simp [h.operations]

end

/-- In every state of a wiki: its tables agree, what was named, revised or answered stays so, a request is made at most once
and against the current revision, and a rejected one changes nothing. -/
theorem wiki_consistent (limits : WikiLimits) {db₀ db : WikiDb} {as : List (WikiLabel limits)} (hfresh : db₀.Fresh)
    (hrun : run (wikiStep limits) db₀ as = some db) :
    db.Consistent ∧
    (∀ bs db', run (wikiStep limits) db bs = some db' → db.Extends db') ∧
    (∀ actor ns command revision now op, db.operations.lookup (ns, actor, command.input.operation) = some op →
      changePage limits actor ns command revision now db =
        if op.request = command.input then .ok (op.response, db) else .error .conflict) ∧
    (∀ actor ns command revision now page db', changePage limits actor ns command revision now db = .ok (page, db') →
      db.operations.lookup (ns, actor, command.input.operation) = none →
      (db.pages.lookup (ns, command.input.page)).map (·.revision) = command.input.expectedRevision ∧
      db'.pages.lookup (ns, command.input.page) = some page ∧
      db'.operations.lookup (ns, actor, command.input.operation) = some ⟨command.input, page⟩) ∧
    (∀ actor ns command revision now e, changePage limits actor ns command revision now db = .error e →
      wikiStep limits db (.change actor ns command revision now) = some db) ∧
    ∀ actor ns id revision now e, ensureSubscriptionRoot limits actor ns id revision now db = .error e →
      wikiStep limits db (.ensureRoot actor ns id revision now) = some db := by
  obtain ⟨hdb, -⟩ := wikiRun_sound hfresh.sound hrun
  refine ⟨hdb.consistent, fun bs db' hbs => (wikiRun_sound hdb hbs).2, ?_, ?_, ?_, ?_⟩
  · intro actor ns command revision now op hop
    exact changePage_replay (hdb.entitled ns actor _ op hop) command revision now hop
  · intro actor ns command revision now page db' hchange hnew
    obtain ⟨-, ⟨op, hop, -⟩ | ⟨-, role, happly⟩⟩ := changePage_ok hchange
    · rw [hnew] at hop
      cases hop
    · obtain ⟨hrevision, hns, hid, action, hstored, hoperations⟩ := applyChange_ok happly
      refine ⟨hrevision, ?_, ?_⟩
      · rw [hstored.pages, hns, hid, Table.lookup_insert_if, if_pos rfl]
      · rw [hoperations, Table.lookup_insert_if, if_pos rfl]
  · intro actor ns command revision now e herror
    simp only [wikiStep, Tx.commit_of_error herror]
  · intro actor ns id revision now e herror
    simp only [wikiStep, Tx.commit_of_error herror]

/-! ## A small wiki -/

namespace Sample

def wikiLimits : WikiLimits := ⟨100, 1000⟩

/-- A namespace of the account 1. -/
def wikiDb : WikiDb := { namespaces := (∅ : Table Nat WikiNamespace).insert 5 ⟨⟨1⟩, "wiki"⟩ }

/-- Two pages are saved, and the first one becomes the parent of the second. -/
def wikiRun : List (WikiLabel wikiLimits) :=
  [.change ⟨1⟩ 5 ⟨⟨1, 10, none, .save "A" "[[B]]"⟩, by decide +kernel⟩ 100 0,
    .change ⟨1⟩ 5 ⟨⟨2, 20, none, .save "B" ""⟩, by decide +kernel⟩ 200 1,
    .change ⟨1⟩ 5 ⟨⟨3, 20, some 200, .setParent (some 10)⟩, by decide +kernel⟩ 201 2]

def wikiEnd : WikiDb := (run (wikiStep wikiLimits) wikiDb wikiRun).getD {}

end Sample

open Sample in
/-- The links of the first page, and the second page under it. -/
theorem wiki_consistent_tree :
    wikiEnd.linksOf 5 10 = linkNames "[[B]]" ∧ wikiEnd.parentOf 5 20 = some 10 ∧ Pointers.Acyclic (wikiEnd.parentOf 5) := by
  have hrun : run (wikiStep wikiLimits) wikiDb wikiRun = some wikiEnd := run_getD (by decide +kernel) _
  have hparent : wikiEnd.parentOf 5 20 = some 10 := by decide +kernel
  have hpage : (wikiEnd.pages.lookup (5, 10)).map (·.markdown) = some "[[B]]" := by decide +kernel
  generalize wikiEnd = db at hrun hparent hpage ⊢
  obtain ⟨page, hlookup, hmarkdown⟩ := Option.map_eq_some_iff.1 hpage
  obtain ⟨hconsistent, -⟩ := wiki_consistent wikiLimits ⟨rfl, rfl, rfl, rfl, rfl⟩ hrun
  refine ⟨?_, hparent, hconsistent.acyclic 5⟩
  rw [hconsistent.links, hlookup, Option.map_some, hmarkdown]
  rfl

end Inoreader
