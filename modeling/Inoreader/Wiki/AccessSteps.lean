import Inoreader.Wiki.Access

/-!
# What a request to a namespace can do

Each request either leaves everything as it is or changes one table, in the way its role allows.
-/

namespace Inoreader
open Lib

section
variable {α : Type} {limits : WikiLimits} {accountOf : String → Option AccountId} {s s' : WikiSpace} {actor : AccountId}
  {ns ns' : Nat} {subject : Option AccountId}

/-! ## Roles -/

theorem onPages_ok {m : WikiTx α} {a : α} :
    onPages m s = .ok (a, s') ↔ ∃ db', m s.db = .ok (a, db') ∧ s' = { s with db := db' } := by
  unfold onPages
  cases m s.db with
  | error e => simp
  | ok r =>
    obtain ⟨b, db⟩ := r
    simp only [Except.ok.injEq, Prod.mk.injEq]
    constructor
    · rintro ⟨rfl, rfl⟩
      exact ⟨db, ⟨rfl, rfl⟩, rfl⟩
    · rintro ⟨db', ⟨rfl, rfl⟩, rfl⟩
      exact ⟨rfl, rfl⟩

theorem keeps_onPages {m : WikiTx α} (h : Tx.Keeps (fun db => db) m) : Tx.Keeps (fun s => s) (onPages m) := by
  intro s a s' hm
  obtain ⟨db', hdb, rfl⟩ := onPages_ok.1 hm
  have hsame : db' = s.db := h s.db a db' hdb
  rw [hsame]

theorem roleOf_ok {role : WikiRole} : s.roleOf ns actor = .ok role ↔ authorizeWiki actor ns s.db = .ok (role, s.db) := by
  unfold WikiSpace.roleOf
  rw [except_map_ok]
  constructor
  · rintro ⟨⟨r, db⟩, h, rfl⟩
    have hsame : db = s.db := keeps_authorizeWiki actor ns s.db r db h
    rw [h, hsame]
  · exact fun h => ⟨_, h, rfl⟩

/-- The role comes first. -/
theorem bind_role_ok {β : Type} {k : WikiRole → SpaceTx β} {b : β} :
    (onPages (authorizeWiki actor ns) >>= k) s = .ok (b, s') ↔
      ∃ role, s.roleOf ns actor = .ok role ∧ k role s = .ok (b, s') := by
  rw [Tx.bind_ok_of_reads (keeps_onPages (keeps_authorizeWiki actor ns))]
  refine exists_congr fun role => and_congr_left' ?_
  rw [roleOf_ok, onPages_ok]
  constructor
  · rintro ⟨db', h, hs⟩
    have hdb : db' = s.db := (congrArg WikiSpace.db hs).symm
    rw [h, hdb]
  · exact fun h => ⟨s.db, h, rfl⟩

/-- An owner or an editor. -/
def WikiSpace.Edits (s : WikiSpace) (ns : Nat) (actor : AccountId) : Prop :=
  s.roleOf ns actor = .ok .owner ∨ s.roleOf ns actor = .ok .editor

theorem WikiSpace.Edits.of_role {role : WikiRole} (h : s.roleOf ns actor = .ok role) (hedit : role.canEdit = true) :
    s.Edits ns actor := by
  cases role with
  | owner => exact .inl h
  | editor => exact .inr h
  | reader => cases hedit

theorem WikiSpace.Edits.of_mayEdit (h : s.db.MayEdit actor ns) : s.Edits ns actor := by
  obtain ⟨role, hrole, hedit⟩ := h
  exact .of_role (roleOf_ok.2 hrole) hedit

theorem bind_editor_ok {β : Type} {k : Unit → SpaceTx β} {role : WikiRole} {b : β} :
    (onPages (requireEditor role) >>= k) s = .ok (b, s') ↔ role.canEdit = true ∧ k () s = .ok (b, s') := by
  unfold requireEditor
  rw [Tx.bind_ok_of_reads (keeps_onPages (Tx.keeps_require _ _))]
  constructor
  · rintro ⟨_, h, hk⟩
    obtain ⟨db', h, -⟩ := onPages_ok.1 h
    exact ⟨(Tx.require_ok.1 h).1, hk⟩
  · rintro ⟨hedit, hk⟩
    exact ⟨(), onPages_ok.2 ⟨s.db, Tx.require_ok.2 ⟨hedit, rfl⟩, rfl⟩, hk⟩

theorem bind_page_ok {β : Type} {id : Nat} {role : WikiRole} {k : WikiPage → SpaceTx β} {b : β} :
    (onPages (loadPage ns id role) >>= k) s = .ok (b, s') ↔
      ∃ page, s.db.pages.lookup (ns, id) = some page ∧ (page.deleted = false ∨ role.canEdit = true) ∧
        k page s = .ok (b, s') := by
  rw [Tx.bind_ok_of_reads (keeps_onPages (keeps_loadPage ns id role))]
  refine exists_congr fun page => ?_
  rw [← and_assoc]
  refine and_congr_left' ?_
  rw [onPages_ok]
  unfold loadPage
  constructor
  · rintro ⟨db', h, -⟩
    obtain ⟨page', hpage, h⟩ := Tx.bind_orThrow_ok.1 (Tx.bind_get_ok.1 h)
    obtain ⟨hread, h⟩ := Tx.bind_require_ok.1 h
    cases h
    exact ⟨hpage, hread⟩
  · rintro ⟨hpage, hread⟩
    refine ⟨s.db, Tx.bind_get_ok.2 (Tx.bind_orThrow_ok.2 ⟨page, hpage, ?_⟩), rfl⟩
    exact Tx.bind_require_ok.2 ⟨hread, rfl⟩

/-! ## Other namespaces -/

theorem WikiDb.pagesOf_congr {db db' : WikiDb} (hpages : ∀ id, db'.pages.lookup (ns', id) = db.pages.lookup (ns', id))
    (hnames : ∀ name, db'.names.lookup (ns', name) = db.names.lookup (ns', name))
    (hrevisions : ∀ id revision, db'.revisions.lookup (ns', id, revision) = db.revisions.lookup (ns', id, revision))
    (hlinks : ∀ id, db'.linksOf ns' id = db.linksOf ns' id)
    (hoperations : ∀ actor id, db'.operations.lookup (ns', actor, id) = db.operations.lookup (ns', actor, id))
    (hroot : db'.subscriptionRoots.lookup ns' = db.subscriptionRoots.lookup ns') : db'.pagesOf ns' = db.pagesOf ns' := by
  unfold WikiDb.pagesOf
  simp only [hpages, hnames, hrevisions, hlinks, hoperations, hroot]

/-- A row of one namespace is none of another. -/
theorem lookup_elsewhere {κ ν : Type} [DecidableEq κ] (h : ns' ≠ ns) (t : Table (Nat × κ) ν) (k k' : κ) (v : ν) :
    (t.insert (ns, k) v).lookup (ns', k') = t.lookup (ns', k') := by
  rw [Table.lookup_insert_if, if_neg fun hsame => h (Prod.mk.inj hsame).1]

theorem erase_elsewhere {κ ν : Type} [DecidableEq κ] (h : ns' ≠ ns) (t : Table (Nat × κ) ν) (k k' : κ) :
    (t.erase (ns, k)).lookup (ns', k') = t.lookup (ns', k') := by
  rw [Table.lookup_erase_if, if_neg fun hsame => h (Prod.mk.inj hsame).1]

theorem linksOf_elsewhere {db : WikiDb} {id : Nat} {targets : List String} (h : ns' ≠ ns) (id' : Nat) :
    (db.setLinks ns id targets).linksOf ns' id' = db.linksOf ns' id' := by
  rw [linksOf_setLinks, if_neg fun hsame => h (Prod.mk.inj hsame).1]

theorem keeps_storePage {page : WikiPage} {action : String} {occupied : Option Nat} (h : ns' ≠ page.namespace) :
    Tx.Keeps (·.pagesOf ns') (storePage page action occupied) := by
  unfold storePage
  refine Tx.keeps_bind (Tx.keeps_modify fun db => ?_) fun _ => ?_
  · exact WikiDb.pagesOf_congr (fun id => lookup_elsewhere h _ _ _ _) (fun _ => rfl) (fun _ _ => rfl) (fun _ => rfl)
      (fun _ _ => rfl) rfl
  refine Tx.keeps_bind (Tx.keeps_onlyIf (Tx.keeps_modify fun db => ?_)) fun _ => ?_
  · exact WikiDb.pagesOf_congr (fun _ => rfl) (fun name => lookup_elsewhere h _ _ _ _) (fun _ _ => rfl) (fun _ => rfl)
      (fun _ _ => rfl) rfl
  refine Tx.keeps_bind Tx.keeps_get fun _ => Tx.keeps_bind (Tx.keeps_require _ _) fun _ => ?_
  refine Tx.keeps_bind (Tx.keeps_modify fun db => ?_) fun _ => Tx.keeps_modify fun db => ?_
  · exact WikiDb.pagesOf_congr (fun _ => rfl) (fun _ => rfl) (fun id revision => lookup_elsewhere h _ _ _ _) (fun _ => rfl)
      (fun _ _ => rfl) rfl
  · exact WikiDb.pagesOf_congr (fun _ => rfl) (fun _ => rfl) (fun _ _ => rfl) (linksOf_elsewhere h) (fun _ _ => rfl) rfl

theorem keeps_checkParent {role : WikiRole} {input : WriteInput} {parent : Option Nat} :
    Tx.Keeps (fun db => db) (checkParent ns role input parent) := by
  unfold checkParent
  split
  · exact Tx.keeps_pure _
  · refine Tx.keeps_bind (keeps_loadPage _ _ _) fun _ => Tx.keeps_bind (Tx.keeps_require _ _) fun _ => ?_
    exact Tx.keeps_bind Tx.keeps_get fun _ => Tx.keeps_require _ _

/-- What only reads keeps every part of the state. -/
theorem keeps_part {σ ε β γ : Type} {m : Tx σ ε β} {f : σ → γ} (h : Tx.Keeps (fun s => s) m) : Tx.Keeps f m := by
  intro s a s' hm
  exact congrArg f (h s a s' hm)

/-- A change to a page keeps the other namespaces. -/
theorem keeps_changePage {command : WikiWrite limits} {revision : Nat} {now : DateTime} (h : ns' ≠ ns) :
    Tx.Keeps (·.pagesOf ns') (changePage limits actor ns command revision now) := by
  unfold changePage requireEditor
  refine Tx.keeps_bind (keeps_part (keeps_authorizeWiki _ _)) fun role => Tx.keeps_bind (Tx.keeps_require _ _) fun _ => ?_
  refine Tx.keeps_bind Tx.keeps_get fun db => ?_
  split
  · exact Tx.keeps_bind (Tx.keeps_require _ _) fun _ => Tx.keeps_pure _
  unfold applyChange
  refine Tx.keeps_bind Tx.keeps_get fun _ => Tx.keeps_bind (Tx.keeps_require _ _) fun _ => ?_
  refine Tx.keeps_bind (keeps_part (keeps_changedContent _ _ _)) fun content => Tx.keeps_bind (keeps_part keeps_checkParent) fun _ => ?_
  refine Tx.keeps_bind (keeps_part (keeps_wikiResult _)) fun _ => Tx.keeps_bind (keeps_part (keeps_wikiResult _)) fun _ => ?_
  refine Tx.keeps_bind Tx.keeps_get fun _ => Tx.keeps_bind (Tx.keeps_require _ _) fun _ => ?_
  refine Tx.keeps_bind (keeps_storePage h) fun _ => Tx.keeps_bind (Tx.keeps_modify fun db => ?_) fun _ => Tx.keeps_pure _
  exact WikiDb.pagesOf_congr (fun _ => rfl) (fun _ => rfl) (fun _ _ => rfl) (fun _ => rfl)
    (fun actor id => lookup_elsewhere h _ _ _ _) rfl

theorem keeps_ensureRoot {id revision : Nat} {now : DateTime} (h : ns' ≠ ns) :
    Tx.Keeps (·.pagesOf ns') (ensureSubscriptionRoot limits actor ns id revision now) := by
  unfold ensureSubscriptionRoot requireEditor
  refine Tx.keeps_bind (keeps_part (keeps_wikiResult _)) fun _ => Tx.keeps_bind (keeps_part (keeps_authorizeWiki _ _)) fun role => ?_
  refine Tx.keeps_bind (Tx.keeps_require _ _) fun _ => Tx.keeps_bind Tx.keeps_get fun db => ?_
  split
  · refine Tx.keeps_bind (keeps_part (keeps_loadPage _ _ _)) fun _ => ?_
    exact Tx.keeps_bind (Tx.keeps_require _ _) fun _ => Tx.keeps_pure _
  refine Tx.keeps_bind (Tx.keeps_require _ _) fun _ => Tx.keeps_bind (Tx.keeps_require _ _) fun _ => ?_
  refine Tx.keeps_bind (Tx.keeps_modify fun db => ?_) fun _ => ?_
  · exact WikiDb.pagesOf_congr (fun _ => lookup_elsewhere h _ _ _ _) (fun _ => rfl) (fun _ _ => rfl) (fun _ => rfl)
      (fun _ _ => rfl) rfl
  refine Tx.keeps_bind Tx.keeps_get fun _ => Tx.keeps_bind (Tx.keeps_require _ _) fun _ => ?_
  refine Tx.keeps_bind (Tx.keeps_modify fun db => ?_) fun _ => Tx.keeps_bind (Tx.keeps_modify fun db => ?_) fun _ => ?_
  · exact WikiDb.pagesOf_congr (fun _ => rfl) (fun _ => rfl) (fun _ _ => lookup_elsewhere h _ _ _ _) (fun _ => rfl)
      (fun _ _ => rfl) rfl
  · exact WikiDb.pagesOf_congr (fun _ => rfl) (fun _ => lookup_elsewhere h _ _ _ _) (fun _ _ => rfl) (fun _ => rfl)
      (fun _ _ => rfl) rfl
  refine Tx.keeps_bind (Tx.keeps_modify fun db => ?_) fun _ => Tx.keeps_pure _
  refine WikiDb.pagesOf_congr (fun _ => rfl) (fun _ => rfl) (fun _ _ => rfl) (fun _ => rfl) (fun _ _ => rfl) ?_
  exact (Table.lookup_insert_if _ _ _ _).trans (if_neg h)

/-! ## Requests -/

/-- What a request of the actor about the namespace can do, and to whom it can give a role. -/
inductive SpaceOutcome (s : WikiSpace) (actor : AccountId) (ns : Nat) (subject : Option AccountId) : WikiSpace → Prop
  | same : SpaceOutcome s actor ns subject s
  | created {name : String} (hnew : s.row ns = none) :
      SpaceOutcome s actor ns subject { s with db := { s.db with namespaces := s.db.namespaces.insert ns ⟨actor, name⟩ } }
  | pages {db' : WikiDb} (hedits : s.Edits ns actor) (hstored : ∃ page action, page.namespace = ns ∧ s.db.Stored db' page action)
      (hothers : ∀ ns', ns' ≠ ns → db'.pagesOf ns' = s.db.pagesOf ns') : SpaceOutcome s actor ns subject { s with db := db' }
  | saved {id : Nat} {row : WikiDraft} (hedits : s.Edits ns actor)
      (hpage : row.content.page.isSome = row.content.baseRevision.isSome)
      (hrefers : ∀ page base, row.content.refers = some (page, base) →
        (s.db.pages.lookup (ns, page)).isSome = true ∧ (s.db.revisions.lookup (ns, page, base)).isSome = true) :
      SpaceOutcome s actor ns subject { s with drafts := s.drafts.insert (ns, actor, id) row }
  | discarded {id : Nat} (hedits : s.Edits ns actor) :
      SpaceOutcome s actor ns subject { s with drafts := s.drafts.erase (ns, actor, id) }
  | joined {account : AccountId} {role : WikiRole} (howner : s.roleOf ns actor = .ok .owner) (hother : account ≠ actor)
      (hsubject : subject = some account) :
      SpaceOutcome s actor ns subject { s with db := { s.db with members := s.db.members.insert (ns, account) (roleText role) } }
  | left {account : AccountId} (howner : s.roleOf ns actor = .ok .owner) :
      SpaceOutcome s actor ns subject { s with db := { s.db with members := s.db.members.erase (ns, account) } }
  | favored {id : Nat} {role : WikiRole} (hrole : s.roleOf ns actor = .ok role)
      (hpage : (s.db.pages.lookup (ns, id)).isSome = true) :
      SpaceOutcome s actor ns subject { s with favorites := s.favorites.insert (ns, id, actor) () }
  | unfavored {id : Nat} {role : WikiRole} (hrole : s.roleOf ns actor = .ok role) :
      SpaceOutcome s actor ns subject { s with favorites := s.favorites.erase (ns, id, actor) }
  | bound {subscription id : Nat} {role : WikiRole} {page : WikiPage} {owner : AccountId}
      (hsubscription : s.subscriptions.lookup subscription = some actor) (hrole : s.roleOf ns actor = .ok role)
      (hpage : s.db.pages.lookup (ns, id) = some page) (hlive : page.deleted = false) :
      SpaceOutcome s actor ns subject { s with bindings := s.bindings.insert subscription ⟨owner, ns, id⟩ }
  | unbound {subscription : Nat} (hsubscription : s.subscriptions.lookup subscription = some actor) :
      SpaceOutcome s actor ns subject { s with bindings := s.bindings.erase subscription }

theorem createNamespace_ok {name : String} {u : Unit} (h : createNamespace limits actor ns name s = .ok (u, s')) :
    SpaceOutcome s actor ns subject s' := by
  unfold createNamespace at h
  obtain ⟨_, -, h⟩ := (Tx.bind_ok_of_reads (keeps_onPages (keeps_wikiResult _))).1 h
  obtain ⟨_, s₁, hmodify, h⟩ := Tx.bind_ok.1 h
  obtain ⟨role, -, h⟩ := bind_role_ok.1 h
  obtain ⟨row, -, h⟩ := Tx.bind_orThrow_ok.1 (Tx.bind_get_ok.1 h)
  obtain ⟨-, rfl⟩ := Tx.require_ok.1 h
  cases hmodify
  dsimp only
  split
  · exact .same
  · rename_i hnone
    exact .created (Option.not_isSome_iff_eq_none.1 hnone)

theorem bind_draftPage_ok {β : Type} {role : WikiRole} {content : DraftContent} {k : Unit → SpaceTx β} {b : β} :
    (draftPage ns role content >>= k) s = .ok (b, s') →
      (∀ page, content.page = some page → (s.db.pages.lookup (ns, page)).isSome = true) ∧ k () s = .ok (b, s') := by
  intro h
  unfold draftPage at h
  split at h
  · rename_i page hpage
    obtain ⟨_, s₁, hload, hk⟩ := Tx.bind_ok.1 h
    obtain ⟨row, hrow, -, hload⟩ := bind_page_ok.1 hload
    cases hload
    refine ⟨fun page' hpage' => ?_, hk⟩
    rw [hpage] at hpage'
    cases hpage'
    rw [hrow]
    rfl
  · rename_i hnone
    refine ⟨fun page hpage => ?_, h⟩
    rw [hnone] at hpage
    cases hpage

theorem saveDraft_ok {id drawn : Nat} {expected : Option Nat} {content : DraftContent} {row : WikiDraft}
    (h : saveDraft limits actor ns id expected content drawn s = .ok (row, s')) :
    s.Edits ns actor ∧
    ((s' = s ∧ s.draft ns actor id = some row ∧ row.content = content) ∨
      ((s.draft ns actor id).map (·.revision) = expected ∧ row = ⟨drawn, content⟩ ∧
        content.page.isSome = content.baseRevision.isSome ∧
        (∀ page base, content.refers = some (page, base) →
          (s.db.pages.lookup (ns, page)).isSome = true ∧ (s.db.revisions.lookup (ns, page, base)).isSome = true) ∧
        s' = { s with drafts := s.drafts.insert (ns, actor, id) row })) := by
  unfold saveDraft at h
  have hreads : Tx.Keeps (fun s => s) (Tx.onlyIf (content.name ≠ "") (onPages (wikiResult (limits.name content.name)))) :=
    Tx.keeps_onlyIf (keeps_onPages (keeps_wikiResult _))
  obtain ⟨_, -, h⟩ := (Tx.bind_ok_of_reads hreads).1 h
  obtain ⟨_, -, h⟩ := (Tx.bind_ok_of_reads (keeps_onPages (keeps_wikiResult _))).1 h
  obtain ⟨hpage, h⟩ := Tx.bind_require_ok.1 h
  obtain ⟨role, hrole, h⟩ := bind_role_ok.1 h
  obtain ⟨hedit, h⟩ := bind_editor_ok.1 h
  refine ⟨.of_role hrole hedit, ?_⟩
  obtain ⟨hpages, h⟩ := bind_draftPage_ok h
  have h := Tx.bind_get_ok.1 h
  split at h
  · obtain ⟨row', hrow, h⟩ := Tx.bind_orThrow_ok.1 h
    obtain ⟨hcontent, h⟩ := Tx.bind_require_ok.1 h
    cases h
    exact .inl ⟨rfl, hrow, hcontent⟩
  · rename_i hexpected
    obtain ⟨hknown, h⟩ := Tx.bind_require_ok.1 (Tx.bind_get_ok.1 h)
    cases h
    refine .inr ⟨not_not.1 hexpected, rfl, hpage, ?_, rfl⟩
    intro page base hrefers
    rw [hrefers] at hknown
    refine ⟨hpages page ?_, hknown⟩
    obtain ⟨page', hpage', hmap⟩ := Option.bind_eq_some_iff.1 hrefers
    obtain ⟨base', -, hpair⟩ := Option.map_eq_some_iff.1 hmap
    cases hpair
    exact hpage'

theorem discardDraft_ok {id : Nat} {expected : Option Nat} {u : Unit}
    (h : discardDraft actor ns id expected s = .ok (u, s')) :
    s.Edits ns actor ∧ (∀ row, s.draft ns actor id = some row → expected = some row.revision) ∧
      s' = { s with drafts := s.drafts.erase (ns, actor, id) } := by
  unfold discardDraft at h
  obtain ⟨role, hrole, h⟩ := bind_role_ok.1 h
  obtain ⟨hedit, h⟩ := bind_editor_ok.1 h
  obtain ⟨hcurrent, h⟩ := Tx.bind_require_ok.1 (Tx.bind_get_ok.1 h)
  cases h
  refine ⟨.of_role hrole hedit, fun row hrow => ?_, rfl⟩
  rw [show s.drafts.lookup (ns, actor, id) = some row from hrow] at hcurrent
  simp only [Option.map_some, Option.isSome_some, true_and, not_not] at hcurrent
  exact hcurrent.symm

theorem setMember_ok {username : String} {role : Option WikiRole} {u : Unit}
    (h : setMember accountOf actor ns username role s = .ok (u, s')) :
    SpaceOutcome s actor ns (role.bind fun _ => accountOf username) s' := by
  unfold setMember at h
  obtain ⟨-, h⟩ := Tx.bind_require_ok.1 h
  obtain ⟨own, hrole, h⟩ := bind_role_ok.1 h
  obtain ⟨rfl, h⟩ := Tx.bind_require_ok.1 h
  obtain ⟨account, haccount, h⟩ := Tx.bind_orThrow_ok.1 h
  obtain ⟨hother, h⟩ := Tx.bind_require_ok.1 h
  cases h
  cases role with
  | none => exact .left hrole
  | some role => exact .joined hrole hother haccount

theorem setFavorite_ok {id : Nat} {favorite : Bool} {u : Unit} (h : setFavorite actor ns id favorite s = .ok (u, s')) :
    SpaceOutcome s actor ns subject s' := by
  unfold setFavorite at h
  obtain ⟨role, hrole, h⟩ := bind_role_ok.1 h
  obtain ⟨page, hpage, -, h⟩ := bind_page_ok.1 h
  obtain ⟨-, h⟩ := Tx.bind_require_ok.1 h
  cases h
  cases favorite with
  | true => exact .favored hrole (by rw [hpage]; rfl)
  | false => exact .unfavored hrole

theorem bind_owner_ok {β : Type} {subscription : Nat} {k : Unit → SpaceTx β} {b : β} :
    (subscriptionOwner actor subscription >>= k) s = .ok (b, s') ↔
      s.subscriptions.lookup subscription = some actor ∧ k () s = .ok (b, s') := by
  rw [Tx.bind_ok]
  constructor
  · rintro ⟨_, t, h, hk⟩
    unfold subscriptionOwner at h
    have h := Tx.bind_get_ok.1 h
    obtain ⟨hactor, ht⟩ := Tx.require_ok.1 h
    rw [ht] at hk
    exact ⟨hactor, hk⟩
  · rintro ⟨hactor, hk⟩
    have hrun : subscriptionOwner actor subscription s = .ok ((), s) := by
      unfold subscriptionOwner
      refine Tx.bind_get_ok.2 ?_
      exact Tx.require_ok.2 ⟨hactor, rfl⟩
    exact ⟨(), s, hrun, hk⟩

theorem bindPage_ok {subscription id : Nat} {u : Unit} (h : bindPage actor subscription ns id s = .ok (u, s')) :
    SpaceOutcome s actor ns subject s' := by
  unfold bindPage at h
  obtain ⟨hsubscription, h⟩ := bind_owner_ok.1 h
  obtain ⟨role, hrole, h⟩ := bind_role_ok.1 h
  obtain ⟨page, hpage, -, h⟩ := bind_page_ok.1 h
  obtain ⟨hlive, h⟩ := Tx.bind_require_ok.1 h
  cases h
  exact .bound hsubscription hrole hpage hlive

theorem unbindPage_ok {subscription : Nat} {u : Unit} (h : unbindPage actor subscription s = .ok (u, s')) :
    SpaceOutcome s actor ns subject s' := by
  unfold unbindPage at h
  obtain ⟨hsubscription, h⟩ := bind_owner_ok.1 h
  cases h
  dsimp only
  split
  · exact .unbound hsubscription
  · exact .same

theorem ensureRoot_ok {id revision : Nat} {now : DateTime} {page : WikiPage} {db' : WikiDb} (hdb : s.db.Consistent)
    (h : ensureSubscriptionRoot limits actor ns id revision now s.db = .ok (page, db')) :
    SpaceOutcome s actor ns subject { s with db := db' } := by
  have hothers : ∀ ns', ns' ≠ ns → db'.pagesOf ns' = s.db.pagesOf ns' := fun ns' hne => keeps_ensureRoot hne _ _ _ h
  rcases ensureSubscriptionRoot_ok hdb h with rfl | ⟨page', action, hstored, -⟩
  · exact .same
  · refine .pages ?_ ⟨page', action, ?_, hstored⟩ hothers
    · unfold ensureSubscriptionRoot requireEditor at h
      obtain ⟨-, -, h⟩ := (Tx.bind_ok_of_reads (keeps_wikiResult _)).1 h
      obtain ⟨role, hrole, h⟩ := (Tx.bind_ok_of_reads (keeps_authorizeWiki actor ns)).1 h
      exact .of_mayEdit ⟨role, hrole, (Tx.bind_require_ok.1 h).1⟩
    · -- a page of another namespace would be there already, and have its revision
      by_contra hne
      have hpages := congrArg (fun v => v.pages page'.id) (hothers page'.namespace hne)
      have hlookup : s.db.pages.lookup (page'.namespace, page'.id) = some page' := by
        refine hpages.symm.trans ?_
        show db'.pages.lookup (page'.namespace, page'.id) = _
        rw [hstored.pages, Table.lookup_insert_if, if_pos rfl]
      obtain ⟨action', hrevision⟩ := hdb.revision _ _ _ hlookup
      rw [hstored.fresh] at hrevision
      cases hrevision

/-- Every request does one of these things. -/
theorem perform_ok {l : SpaceLabel limits} {u : Unit} (hdb : s.db.Consistent) (h : l.perform limits accountOf s = .ok (u, s')) :
    SpaceOutcome s l.actor l.ns (l.subject limits accountOf) s' := by
  obtain ⟨actor, ns, request⟩ := l
  cases request with
  | create name => exact createNamespace_ok h
  | change command revision now =>
    obtain ⟨page, s₁, hpage, h⟩ := Tx.bind_ok.1 h
    cases h
    obtain ⟨db', hchange, rfl⟩ := onPages_ok.1 hpage
    obtain ⟨hedit, ⟨op, -, -, -, rfl⟩ | ⟨-, role, happly⟩⟩ := changePage_ok hchange
    · exact .same
    · obtain ⟨-, hns, -, action, hstored, -⟩ := applyChange_ok happly
      exact .pages (.of_mayEdit hedit) ⟨page, action, hns, hstored⟩ fun ns' hne => keeps_changePage hne _ _ _ hchange
  | ensureRoot id revision now =>
    obtain ⟨page, s₁, hpage, h⟩ := Tx.bind_ok.1 h
    cases h
    obtain ⟨db', hroot, rfl⟩ := onPages_ok.1 hpage
    exact ensureRoot_ok hdb hroot
  | saveDraft id expected content drawn =>
    obtain ⟨row, s₁, hdraft, h⟩ := Tx.bind_ok.1 h
    cases h
    obtain ⟨hedits, ⟨rfl, -⟩ | ⟨-, rfl, hpage, hrefers, rfl⟩⟩ := saveDraft_ok hdraft
    · exact .same
    · exact .saved hedits hpage hrefers
  | discardDraft id expected =>
    obtain ⟨hedits, -, rfl⟩ := discardDraft_ok h
    exact .discarded hedits
  | setMember username role =>
    cases role with
    | none => exact setMember_ok h
    | some role => exact setMember_ok h
  | setFavorite page favorite => exact setFavorite_ok h
  | bindPage subscription page => exact bindPage_ok h
  | unbindPage subscription => exact unbindPage_ok h

/-! ## The invariant -/

/-- Roles do not depend on what the members do with the pages. -/
theorem WikiDb.Consistent.of_pages {db db' : WikiDb} (h : db.Consistent) (hpages : db'.pages = db.pages) (hnames : db'.names = db.names)
    (hrevisions : db'.revisions = db.revisions) (hlinks : db'.links = db.links) : db'.Consistent := by
  have hparent : ∀ ns, db'.parentOf ns = db.parentOf ns := fun ns => funext fun id => by rw [WikiDb.parentOf, hpages]; rfl
  have hlinksOf : ∀ ns id, db'.linksOf ns id = db.linksOf ns id := fun ns id => by rw [WikiDb.linksOf, hlinks]; rfl
  refine ⟨?_, ?_, ?_, ?_, ?_, ?_, ?_⟩
  · rw [hpages]
    exact h.keyed
  · rw [hpages]
    exact h.inside
  · simp only [hparent]
    exact h.acyclic
  · rw [hpages, hnames]
    exact h.named
  · rw [hrevisions, hnames]
    exact h.used
  · simp only [hlinksOf, hpages]
    exact h.links
  · rw [hpages, hrevisions]
    exact h.revision

theorem row_of_role {role : WikiRole} (h : s.roleOf ns actor = .ok role) : (s.row ns).isSome = true := by
  obtain ⟨row, hrow, -⟩ := Tx.bind_orThrow_ok.1 (Tx.bind_get_ok.1 (roleOf_ok.1 h))
  exact Option.isSome_iff_exists.2 ⟨row, hrow⟩

theorem WikiSpace.Edits.row (h : s.Edits ns actor) : (s.row ns).isSome = true := by
  rcases h with h | h
  · exact row_of_role h
  · exact row_of_role h

theorem memberRole_owner (text : Option String) : memberRole text ≠ .ok .owner := by
  unfold memberRole
  split <;> exact fun h => by cases h

theorem roleOf_owner (h : s.roleOf ns actor = .ok .owner) : ∃ row, s.row ns = some row ∧ row.owner = actor := by
  obtain ⟨row, hrow, h⟩ := Tx.bind_orThrow_ok.1 (Tx.bind_get_ok.1 (roleOf_ok.1 h))
  refine ⟨row, hrow, ?_⟩
  by_contra howner
  rw [if_neg howner] at h
  cases hrole : memberRole (s.db.members.lookup (ns, actor)) with
  | error e =>
    rw [hrole] at h
    cases h
  | ok role =>
    rw [hrole] at h
    cases h
    exact memberRole_owner _ hrole

/-- The invariant, where all that it speaks of is there as before or is new and sound. -/
theorem WikiSpace.Sound.step (hs : s.Sound) (hconsistent : s'.db.Consistent)
    (hrows : ∀ ns row, s.row ns = some row → s'.row ns = some row)
    (hpages : ∀ k, (s.db.pages.lookup k).isSome = true → (s'.db.pages.lookup k).isSome = true)
    (hrevisions : ∀ k, (s.db.revisions.lookup k).isSome = true → (s'.db.revisions.lookup k).isSome = true)
    (hnew : ∀ ns id, (s'.db.pages.lookup (ns, id)).isSome = true →
      (s.db.pages.lookup (ns, id)).isSome = true ∨ (s.row ns).isSome = true)
    (hmembers : ∀ ns account role, s'.member ns account = some role → s.member ns account = some role ∨
      (role = "reader" ∨ role = "editor") ∧ ∃ row, s.row ns = some row ∧ row.owner ≠ account)
    (hdrafts : ∀ ns author id row, s'.draft ns author id = some row → s.draft ns author id = some row ∨
      (s.row ns).isSome = true ∧ row.content.page.isSome = row.content.baseRevision.isSome ∧
      ∀ page base, row.content.refers = some (page, base) →
        (s.db.pages.lookup (ns, page)).isSome = true ∧ (s.db.revisions.lookup (ns, page, base)).isSome = true)
    (hfavorites : ∀ ns account page, s'.favorite ns account page = true → s.favorite ns account page = true ∨
      (s.db.pages.lookup (ns, page)).isSome = true)
    (hbindings : ∀ subscription binding, s'.bindings.lookup subscription = some binding →
      s.bindings.lookup subscription = some binding ∨
        (s.db.pages.lookup (binding.namespace, binding.page)).isSome = true) : s'.Sound := by
  have hrow : ∀ ns, (s.row ns).isSome = true → (s'.row ns).isSome = true := by
    intro ns h
    obtain ⟨row, hrow⟩ := Option.isSome_iff_exists.1 h
    rw [hrows ns row hrow]
    rfl
  refine ⟨hconsistent, ?_, ?_, ?_, ?_, ?_⟩
  · intro ns account role h
    have hgood : (role = "reader" ∨ role = "editor") ∧ ∃ row, s.row ns = some row ∧ row.owner ≠ account := by
      rcases hmembers ns account role h with h | h
      · exact hs.members ns account role h
      · exact h
    obtain ⟨hrole, row, hr, howner⟩ := hgood
    exact ⟨hrole, row, hrows ns row hr, howner⟩
  · intro ns id h
    rcases hnew ns id h with h | h
    · exact hrow ns (hs.pages ns id h)
    · exact hrow ns h
  · intro ns author id row h
    have hgood : (s.row ns).isSome = true ∧ row.content.page.isSome = row.content.baseRevision.isSome ∧
        ∀ page base, row.content.refers = some (page, base) →
          (s.db.pages.lookup (ns, page)).isSome = true ∧ (s.db.revisions.lookup (ns, page, base)).isSome = true := by
      rcases hdrafts ns author id row h with h | h
      · exact hs.drafts ns author id row h
      · exact h
    obtain ⟨hsome, hpage, hrefers⟩ := hgood
    exact ⟨hrow ns hsome, hpage, fun page base hr =>
      ⟨hpages _ (hrefers page base hr).1, hrevisions _ (hrefers page base hr).2⟩⟩
  · intro ns account page h
    rcases hfavorites ns account page h with h | h
    · exact hpages _ (hs.favorites ns account page h)
    · exact hpages _ h
  · intro subscription binding h
    rcases hbindings subscription binding h with h | h
    · exact hpages _ (hs.bindings subscription binding h)
    · exact hpages _ h

/-- The invariant is kept. -/
theorem SpaceOutcome.sound (h : SpaceOutcome s actor ns subject s') (hs : s.Sound) : s'.Sound := by
  cases h with
  | same => exact hs
  | @created name hnew =>
    refine hs.step (hs.consistent.of_pages rfl rfl rfl rfl) ?_ (fun _ h => h) (fun _ h => h) (fun _ _ h => .inl h)
      (fun _ _ _ h => .inl h) (fun _ _ _ _ h => .inl h) (fun _ _ _ h => .inl h) (fun _ _ h => .inl h)
    intro ns' row hrow
    refine (Table.lookup_insert_if _ _ _ _).trans ?_
    rw [if_neg]
    · exact hrow
    · rintro rfl
      rw [hnew] at hrow
      cases hrow
  | @pages db' hedits hstored hothers =>
    obtain ⟨page, action, hns, hstored⟩ := hstored
    refine hs.step (hstored.consistent hs.consistent) ?_ (fun _ h => hstored.isSome_kept h) ?_ ?_ ?_
      (fun _ _ _ _ h => .inl h) (fun _ _ _ h => .inl h) (fun _ _ h => .inl h)
    · intro ns' row hrow
      exact (congrArg (fun t => Table.lookup t ns') hstored.roles.1).trans hrow
    · intro k hk
      obtain ⟨row, hrow⟩ := Option.isSome_iff_exists.1 hk
      exact Option.isSome_iff_exists.2 ⟨row, hstored.revisions_kept hrow⟩
    · intro ns' id hpage
      by_cases hsame : ns' = ns
      · rw [hsame]
        exact .inr hedits.row
      · have hpages := congrArg (fun v => v.pages id) (hothers ns' hsame)
        exact .inl ((congrArg Option.isSome hpages).symm.trans hpage)
    · intro ns' account role hmember
      exact .inl ((congrArg (fun t => Table.lookup t (ns', account)) hstored.roles.2).symm.trans hmember)
  | @saved id row hedits hpage hrefers =>
    refine hs.step hs.consistent (fun _ _ h => h) (fun _ h => h) (fun _ h => h) (fun _ _ h => .inl h)
      (fun _ _ _ h => .inl h) ?_ (fun _ _ _ h => .inl h) (fun _ _ h => .inl h)
    intro ns' author id' row' hdraft
    have hlookup := (Table.lookup_insert_if _ _ _ _).symm.trans hdraft
    split at hlookup
    · rename_i hkey
      cases hkey
      cases hlookup
      exact .inr ⟨hedits.row, hpage, hrefers⟩
    · exact .inl hlookup
  | @discarded id hedits =>
    refine hs.step hs.consistent (fun _ _ h => h) (fun _ h => h) (fun _ h => h) (fun _ _ h => .inl h)
      (fun _ _ _ h => .inl h) ?_ (fun _ _ _ h => .inl h) (fun _ _ h => .inl h)
    intro ns' author id' row' hdraft
    have hlookup := (Table.lookup_erase_if _ _ _).symm.trans hdraft
    split at hlookup
    · cases hlookup
    · exact .inl hlookup
  | @joined account role howner hother hsubject =>
    refine hs.step (hs.consistent.of_pages rfl rfl rfl rfl) (fun _ _ h => h) (fun _ h => h) (fun _ h => h)
      (fun _ _ h => .inl h) ?_ (fun _ _ _ _ h => .inl h) (fun _ _ _ h => .inl h) (fun _ _ h => .inl h)
    intro ns' account' role' hmember
    have hlookup := (Table.lookup_insert_if _ _ _ _).symm.trans hmember
    split at hlookup
    · rename_i hkey
      cases hkey
      cases hlookup
      obtain ⟨row, hrow, rfl⟩ := roleOf_owner howner
      refine .inr ⟨?_, row, hrow, hother.symm⟩
      cases role <;> simp [roleText]
    · exact .inl hlookup
  | @left account howner =>
    refine hs.step (hs.consistent.of_pages rfl rfl rfl rfl) (fun _ _ h => h) (fun _ h => h) (fun _ h => h)
      (fun _ _ h => .inl h) ?_ (fun _ _ _ _ h => .inl h) (fun _ _ _ h => .inl h) (fun _ _ h => .inl h)
    intro ns' account' role' hmember
    have hlookup := (Table.lookup_erase_if _ _ _).symm.trans hmember
    split at hlookup
    · cases hlookup
    · exact .inl hlookup
  | @favored id role hrole hpage =>
    refine hs.step hs.consistent (fun _ _ h => h) (fun _ h => h) (fun _ h => h) (fun _ _ h => .inl h)
      (fun _ _ _ h => .inl h) (fun _ _ _ _ h => .inl h) ?_ (fun _ _ h => .inl h)
    intro ns' account page' hfavorite
    have hlookup := (congrArg Option.isSome (Table.lookup_insert_if _ _ _ _)).symm.trans hfavorite
    split at hlookup
    · rename_i hkey
      cases hkey
      exact .inr hpage
    · exact .inl hlookup
  | @unfavored id role hrole =>
    refine hs.step hs.consistent (fun _ _ h => h) (fun _ h => h) (fun _ h => h) (fun _ _ h => .inl h)
      (fun _ _ _ h => .inl h) (fun _ _ _ _ h => .inl h) ?_ (fun _ _ h => .inl h)
    intro ns' account page' hfavorite
    have hlookup := (congrArg Option.isSome (Table.lookup_erase_if _ _ _)).symm.trans hfavorite
    split at hlookup
    · cases hlookup
    · exact .inl hlookup
  | @bound subscription id role page owner hsubscription hrole hpage hlive =>
    refine hs.step hs.consistent (fun _ _ h => h) (fun _ h => h) (fun _ h => h) (fun _ _ h => .inl h)
      (fun _ _ _ h => .inl h) (fun _ _ _ _ h => .inl h) (fun _ _ _ h => .inl h) ?_
    intro subscription' binding hbinding
    have hlookup := (Table.lookup_insert_if _ _ _ _).symm.trans hbinding
    split at hlookup
    · cases hlookup
      exact .inr (Option.isSome_iff_exists.2 ⟨page, hpage⟩)
    · exact .inl hlookup
  | @unbound subscription hsubscription =>
    refine hs.step hs.consistent (fun _ _ h => h) (fun _ h => h) (fun _ h => h) (fun _ _ h => .inl h)
      (fun _ _ _ h => .inl h) (fun _ _ _ _ h => .inl h) (fun _ _ _ h => .inl h) ?_
    intro subscription' binding hbinding
    have hlookup := (Table.lookup_erase_if _ _ _).symm.trans hbinding
    split at hlookup
    · cases hlookup
    · exact .inl hlookup

/-- No request does more than its role allows. -/
theorem SpaceOutcome.allowed (h : SpaceOutcome s actor ns subject s') : AllowedChange s s' actor ns := by
  have hsame : ∀ {α : Type} {a : α} {P : Prop}, a ≠ a → P := fun h => absurd rfl h
  have hnone : ∀ {α β : Type} {f : α → β} {P : Prop}, (∃ a, f a ≠ f a) → P := fun h => h.elim fun _ h => absurd rfl h
  cases h with
  | same =>
    exact ⟨fun _ _ h => h, fun _ _ h => h, fun _ _ => ⟨rfl, rfl, fun _ => rfl, fun _ _ => rfl, fun _ _ => rfl⟩, hsame, hnone,
      fun _ _ => hsame, fun _ _ => hsame, fun _ => hsame⟩
  | @created name hnew =>
    refine ⟨?_, fun _ _ h => h, ?_, hsame, hnone, fun _ _ => hsame, fun _ _ => hsame, fun _ => hsame⟩
    · intro ns' row hrow
      refine (Table.lookup_insert_if _ _ _ _).trans ?_
      rw [if_neg]
      · exact hrow
      · rintro rfl
        rw [hnew] at hrow
        cases hrow
    · intro ns' hne
      exact ⟨(Table.lookup_insert_if _ _ _ _).trans (if_neg hne), rfl, fun _ => rfl, fun _ _ => rfl, fun _ _ => rfl⟩
  | @pages db' hedits hstored hothers =>
    obtain ⟨page, action, hns, hstored⟩ := hstored
    have hrow : ∀ ns', db'.namespaces.lookup ns' = s.db.namespaces.lookup ns' := fun ns' => by rw [hstored.roles.1]
    have hmember : ∀ k, db'.members.lookup k = s.db.members.lookup k := fun k => by rw [hstored.roles.2]
    refine ⟨fun ns' row h => (hrow ns').trans h, fun k row h => hstored.revisions_kept h, fun ns' hne => ?_, fun _ => hedits, ?_,
      fun _ _ => hsame, fun _ _ => hsame, fun _ => hsame⟩
    · exact ⟨hrow ns', hothers ns' hne, fun account => hmember _, fun _ _ => rfl, fun _ _ => rfl⟩
    · rintro ⟨account, h⟩
      exact absurd (hmember _) h
  | @saved id row hedits hpage hrefers =>
    refine ⟨fun _ _ h => h, fun _ _ h => h, fun ns' hne => ?_, hsame, hnone, fun account id' h => ?_, fun _ _ => hsame,
      fun _ => hsame⟩
    · exact ⟨rfl, rfl, fun _ => rfl, fun account id' => lookup_elsewhere hne _ _ _ _, fun _ _ => rfl⟩
    · refine ⟨?_, hedits⟩
      by_contra hother
      exact h ((Table.lookup_insert_if _ _ _ _).trans (if_neg fun hkey => hother (Prod.mk.inj (Prod.mk.inj hkey).2).1))
  | @discarded id hedits =>
    refine ⟨fun _ _ h => h, fun _ _ h => h, fun ns' hne => ?_, hsame, hnone, fun account id' h => ?_, fun _ _ => hsame,
      fun _ => hsame⟩
    · exact ⟨rfl, rfl, fun _ => rfl, fun account id' => erase_elsewhere hne _ _ _, fun _ _ => rfl⟩
    · refine ⟨?_, hedits⟩
      by_contra hother
      exact h ((Table.lookup_erase_if _ _ _).trans (if_neg fun hkey => hother (Prod.mk.inj (Prod.mk.inj hkey).2).1))
  | @joined account role howner hother hsubject =>
    refine ⟨fun _ _ h => h, fun _ _ h => h, fun ns' hne => ?_, hsame, fun _ => howner, fun _ _ => hsame, fun _ _ => hsame,
      fun _ => hsame⟩
    exact ⟨rfl, rfl, fun account' => lookup_elsewhere hne _ _ _ _, fun _ _ => rfl, fun _ _ => rfl⟩
  | @left account howner =>
    refine ⟨fun _ _ h => h, fun _ _ h => h, fun ns' hne => ?_, hsame, fun _ => howner, fun _ _ => hsame, fun _ _ => hsame,
      fun _ => hsame⟩
    exact ⟨rfl, rfl, fun account' => erase_elsewhere hne _ _ _, fun _ _ => rfl, fun _ _ => rfl⟩
  | @favored id role hrole hpage =>
    refine ⟨fun _ _ h => h, fun _ _ h => h, fun ns' hne => ?_, hsame, hnone, fun _ _ => hsame, fun account page h => ?_,
      fun _ => hsame⟩
    · exact ⟨rfl, rfl, fun _ => rfl, fun _ _ => rfl, fun account page => congrArg Option.isSome (lookup_elsewhere hne _ _ _ _)⟩
    · refine ⟨?_, role, hrole⟩
      by_contra hother
      exact h (congrArg Option.isSome ((Table.lookup_insert_if _ _ _ _).trans
        (if_neg fun hkey => hother (Prod.mk.inj (Prod.mk.inj hkey).2).2)))
  | @unfavored id role hrole =>
    refine ⟨fun _ _ h => h, fun _ _ h => h, fun ns' hne => ?_, hsame, hnone, fun _ _ => hsame, fun account page h => ?_,
      fun _ => hsame⟩
    · exact ⟨rfl, rfl, fun _ => rfl, fun _ _ => rfl, fun account page => congrArg Option.isSome (erase_elsewhere hne _ _ _)⟩
    · refine ⟨?_, role, hrole⟩
      by_contra hother
      exact h (congrArg Option.isSome ((Table.lookup_erase_if _ _ _).trans
        (if_neg fun hkey => hother (Prod.mk.inj (Prod.mk.inj hkey).2).2)))
  | @bound subscription id role page owner hsubscription hrole hpage hlive =>
    refine ⟨fun _ _ h => h, fun _ _ h => h, fun _ _ => ⟨rfl, rfl, fun _ => rfl, fun _ _ => rfl, fun _ _ => rfl⟩, hsame, hnone,
      fun _ _ => hsame, fun _ _ => hsame, fun subscription' h => ?_⟩
    have hkey : subscription' = subscription := by
      by_contra hother
      exact h ((Table.lookup_insert_if _ _ _ _).trans (if_neg hother))
    subst hkey
    refine ⟨hsubscription, fun binding hbinding => ?_⟩
    have hlookup := (Table.lookup_insert_if _ _ _ _).symm.trans hbinding
    rw [if_pos rfl] at hlookup
    cases hlookup
    exact ⟨rfl, ⟨role, hrole⟩, page, hpage, hlive⟩
  | @unbound subscription hsubscription =>
    refine ⟨fun _ _ h => h, fun _ _ h => h, fun _ _ => ⟨rfl, rfl, fun _ => rfl, fun _ _ => rfl, fun _ _ => rfl⟩, hsame, hnone,
      fun _ _ => hsame, fun _ _ => hsame, fun subscription' h => ?_⟩
    have hkey : subscription' = subscription := by
      by_contra hother
      exact h ((Table.lookup_erase_if _ _ _).trans (if_neg hother))
    subst hkey
    refine ⟨hsubscription, fun binding hbinding => ?_⟩
    have hlookup := (Table.lookup_erase_if _ _ _).symm.trans hbinding
    rw [if_pos rfl] at hlookup
    cases hlookup

theorem spaceStep_ok {l : SpaceLabel limits} (hs : s.Sound) (h : spaceStep limits accountOf s l = some s') :
    s'.Sound ∧ AllowedChange s s' l.actor l.ns := by
  cases h
  cases hrun : l.perform limits accountOf s with
  | error e =>
    rw [Tx.commit_of_error hrun]
    exact ⟨hs, (@SpaceOutcome.same s l.actor l.ns none).allowed⟩
  | ok r =>
    obtain ⟨u, s'⟩ := r
    rw [Tx.commit_of_ok hrun]
    have hout := perform_ok hs.consistent hrun
    exact ⟨hout.sound hs, hout.allowed⟩

theorem spaceRun_sound {as : List (SpaceLabel limits)} (hs : s.Sound)
    (hrun : run (spaceStep limits accountOf) s as = some s') : s'.Sound :=
  run_inv' WikiSpace.Sound (fun _ _ _ hs h => (spaceStep_ok hs h).1) hs hrun

/-- In every state of a wiki in which members come and go: its tables agree and what refers to a page refers to one that is
there, and no request does more than the role of its actor allows in that state. -/
theorem wiki_access {s₀ : WikiSpace} {as : List (SpaceLabel limits)} (hs : s₀.Sound)
    (hrun : run (spaceStep limits accountOf) s₀ as = some s) :
    s.Sound ∧ ∀ l s', spaceStep limits accountOf s l = some s' → AllowedChange s s' l.actor l.ns :=
  ⟨spaceRun_sound hs hrun, fun _ _ h => (spaceStep_ok (spaceRun_sound hs hrun) h).2⟩

theorem WikiSpace.sound_empty : ({} : WikiSpace).Sound where
  consistent := (WikiDb.Fresh.sound ⟨rfl, rfl, rfl, rfl, rfl⟩).consistent
  members := fun _ _ _ h => by cases h
  pages := fun _ _ h => by cases h
  drafts := fun _ _ _ _ h => by cases h
  favorites := fun _ _ _ h => by cases h
  bindings := fun _ _ h => by cases h

end

namespace Sample

def wikiAccounts (username : String) : Option AccountId := if username = "bob" then some ⟨2⟩ else none

theorem saveA_valid : WriteInput.validate wikiLimits ⟨1, 10, none, .save "A" "[[B]]"⟩ = .ok () := by decide +kernel

/-- The account 1 makes a namespace with a page and lets the account 2 read it. -/
def spaceRun : List (SpaceLabel wikiLimits) :=
  [⟨⟨1⟩, 5, .create "wiki"⟩, ⟨⟨1⟩, 5, .setMember "bob" (some .reader)⟩,
    ⟨⟨1⟩, 5, .change ⟨⟨1, 10, none, .save "A" "[[B]]"⟩, saveA_valid⟩ 100 0⟩]

def spaceEnd : WikiSpace := (run (spaceStep wikiLimits wikiAccounts) {} spaceRun).getD {}

theorem spaceRun_ok : run (spaceStep wikiLimits wikiAccounts) {} spaceRun = some spaceEnd := run_getD (by decide +kernel) _

/-- The account 2 tries to make the account 3 a member. -/
theorem wiki_access_reader :
    spaceEnd.Sound ∧ AllowedChange spaceEnd
      ((SpaceLabel.perform wikiLimits wikiAccounts ⟨⟨2⟩, 5, .setMember "carl" (some .editor)⟩).commit spaceEnd) ⟨2⟩ 5 := by
  obtain ⟨hsound, hallowed⟩ := wiki_access WikiSpace.sound_empty spaceRun_ok
  exact ⟨hsound, hallowed ⟨⟨2⟩, 5, .setMember "carl" (some .editor)⟩ _ rfl⟩

end Sample

end Inoreader
