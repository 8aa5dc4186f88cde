import Inoreader.Wiki.Reads

/-!
# What readers and outsiders see

Who may not edit gets the answers that a wiki without the pages in trash would give: their texts, names, revisions and links
do not count. The one exception is the list of pages that stand alone, where a child in trash still counts. Who has no role
gets answers that do not depend on the wiki at all.
-/

namespace Inoreader
open Lib

namespace WikiSpace
variable (s : WikiSpace)

/-- The page is there and not in trash. -/
def live (ns id : Nat) : Bool := (s.db.pages.lookup (ns, id)).any fun page => !page.deleted

/-- The wiki without its pages in trash, their names, revisions and links. -/
def withoutTrash : WikiSpace :=
  { s with db := { s.db with
      pages := s.db.pages.restrict fun _ page => !page.deleted
      names := s.db.names.restrict fun k id => s.live k.1 id
      revisions := s.db.revisions.restrict fun k _ => s.live k.1 k.2.1
      links := s.db.links.filter fun l => s.live l.1.1 l.1.2 } }

variable {s} {ns id : Nat} {actor : AccountId} {role : WikiRole}

/-- The result that a row stands for. -/
def found {α : Type} (row : Option α) : Except WikiError α := (row.map Except.ok).getD (.error .notFound)

theorem roleOf_eq : s.roleOf ns actor =
    found (s.row ns) >>= fun row => if row.owner = actor then .ok .owner else memberRole (s.member ns actor) := by
  unfold roleOf authorizeWiki row member
  cases hrow : s.db.namespaces.lookup ns with
  | none => simp only [Tx.bind_run, Tx.get_run, hrow]; rfl
  | some row =>
    simp only [Tx.bind_run, Tx.get_run, hrow, Tx.orThrow_some]
    have hfound : (found (some row) >>= fun row => if row.owner = actor then .ok .owner
        else memberRole (s.db.members.lookup (ns, actor))) =
      if row.owner = actor then .ok .owner else memberRole (s.db.members.lookup (ns, actor)) := rfl
    rw [hfound]
    by_cases howner : row.owner = actor
    · rw [if_pos howner, if_pos howner]
      rfl
    · rw [if_neg howner, if_neg howner]
      cases memberRole (s.db.members.lookup (ns, actor)) <;> rfl

theorem loaded_eq : s.loaded ns id role =
    found ((s.db.pages.lookup (ns, id)).filter fun page => !page.deleted || role.canEdit) := by
  unfold loaded loadPage
  cases hpage : s.db.pages.lookup (ns, id) with
  | none => simp only [Tx.bind_run, Tx.get_run, hpage]; rfl
  | some page =>
    simp only [Tx.bind_run, Tx.get_run, hpage, Tx.orThrow_some]
    by_cases hread : page.deleted = false ∨ role.canEdit = true
    · rw [Tx.require_pos hread, Option.filter_some, if_pos (by simpa using hread)]
      rfl
    · rw [Tx.require_neg hread, Option.filter_some, if_neg (by simpa using hread)]
      rfl

theorem roleOf_withoutTrash : s.withoutTrash.roleOf ns actor = s.roleOf ns actor := by
  rw [roleOf_eq, roleOf_eq]
  rfl

theorem page_withoutTrash : s.withoutTrash.db.pages.lookup (ns, id) = (s.db.pages.lookup (ns, id)).filter fun page => !page.deleted :=
  Table.lookup_restrict _ _ _

/-- A reader loads no page in trash. -/
theorem loaded_withoutTrash (hrole : role.canEdit = false) : s.withoutTrash.loaded ns id role = s.loaded ns id role := by
  rw [loaded_eq, loaded_eq, page_withoutTrash, hrole, Option.filter_filter]
  simp

theorem loaded_live {page : WikiPage} (hrole : role.canEdit = false) (h : s.loaded ns id role = .ok page) :
    s.db.pages.lookup (ns, id) = some page ∧ page.deleted = false := by
  rw [loaded_eq, hrole] at h
  cases hpage : s.db.pages.lookup (ns, id) with
  | none =>
    rw [hpage] at h
    cases h
  | some page' =>
    rw [hpage, Option.filter_some] at h
    cases hdeleted : page'.deleted with
    | true =>
      rw [hdeleted] at h
      cases h
    | false =>
      rw [hdeleted] at h
      cases h
      exact ⟨rfl, hdeleted⟩

theorem live_of_loaded {page : WikiPage} (hrole : role.canEdit = false) (h : s.loaded ns id role = .ok page) :
    s.live ns id = true := by
  obtain ⟨hpage, hlive⟩ := loaded_live hrole h
  rw [live, hpage, Option.any_some, hlive]
  rfl

theorem loaded_dead {e : WikiError} (h : s.loaded ns id role = .error e) : e = .notFound := by
  rw [loaded_eq] at h
  unfold found at h
  cases hpage : (s.db.pages.lookup (ns, id)).filter fun page => !page.deleted || role.canEdit with
  | none =>
    rw [hpage] at h
    cases h
    rfl
  | some page =>
    rw [hpage] at h
    cases h

theorem pagesIn_withoutTrash : s.withoutTrash.pagesIn ns = (s.pagesIn ns).filter fun page => !page.deleted := by
  unfold pagesIn
  show ((Table.restrict _ s.db.pages).rows.filter _).map _ = _
  rw [Table.rows_restrict, List.filter_map, List.filter_filter, List.filter_filter]
  refine congrArg (List.map _) (List.filter_congr fun e _ => ?_)
  exact Bool.and_comm _ _

theorem linkTarget_withoutTrash (name : String) : s.withoutTrash.linkTarget ns name = s.linkTarget ns name := by
  have hlive : ∀ id, ((s.withoutTrash.db.pages.lookup (ns, id)).any fun page => !page.deleted) = s.live ns id := by
    intro id
    rw [page_withoutTrash, live]
    cases s.db.pages.lookup (ns, id) with
    | none => rfl
    | some page => cases hdeleted : page.deleted <;> simp [Option.filter_some, hdeleted]
  unfold linkTarget
  simp only [hlive]
  show (Table.lookup (Table.restrict _ s.db.names) (ns, name)).filter _ = _
  rw [Table.lookup_restrict, Option.filter_filter]
  simp only [Bool.and_self]
  rfl

theorem linksOf_withoutTrash (hlive : s.live ns id = true) : s.withoutTrash.db.linksOf ns id = s.db.linksOf ns id := by
  unfold WikiDb.linksOf
  show ((s.db.links.filter _).filter _).map _ = _
  rw [List.filter_filter]
  refine congrArg (List.map _) (List.filter_congr fun l _ => ?_)
  by_cases hkey : l.1 = (ns, id)
  · simp [hkey, hlive]
  · simp [hkey]

end WikiSpace

section
variable {limits : WikiLimits} {R : WikiReads} {s : WikiSpace} {actor : AccountId} {ns : Nat}

theorem readLinks_withoutTrash {id : Nat} (hlive : s.live ns id = true) :
    readLinks R s.withoutTrash ns id = readLinks R s ns id := by
  unfold readLinks
  rw [WikiSpace.linksOf_withoutTrash hlive]
  exact List.map_congr_left fun name _ => by rw [WikiSpace.linkTarget_withoutTrash]

theorem readHistory_withoutTrash {id : Nat} (hlive : s.live ns id = true) (offset : Nat) :
    readHistory R s.withoutTrash ns id offset = readHistory R s ns id offset := by
  have hrows : (s.withoutTrash.db.revisions.rows.filter fun e => decide (e.1.1 = ns) && decide (e.1.2.1 = id)) =
      s.db.revisions.rows.filter fun e => decide (e.1.1 = ns) && decide (e.1.2.1 = id) := by
    show (Table.restrict _ s.db.revisions).rows.filter _ = _
    rw [Table.rows_restrict, List.filter_filter]
    refine List.filter_congr fun e _ => ?_
    by_cases hkey : e.1.1 = ns ∧ e.1.2.1 = id
    · obtain ⟨rfl, rfl⟩ := hkey
      simp [hlive]
    · simp only [← Bool.decide_and, hkey, decide_false, Bool.false_and]
  unfold readHistory
  rw [hrows]

/-- What only lists live pages does not see the others. -/
theorem filter_withoutTrash {f : WikiPage → Bool} (hf : ∀ page, f page = true → page.deleted = false) :
    (s.withoutTrash.pagesIn ns).filter f = (s.pagesIn ns).filter f := by
  rw [WikiSpace.pagesIn_withoutTrash, List.filter_filter]
  refine List.filter_congr fun page _ => ?_
  cases hpage : f page with
  | false => rfl
  | true => rw [hf page hpage]; rfl

theorem readPages_withoutTrash (search : String) (offset : Nat) :
    readPages R s.withoutTrash ns search false offset = readPages R s ns search false offset := by
  unfold readPages
  dsimp only
  rw [filter_withoutTrash]
  intro page hpage
  simpa using (Bool.and_eq_true_iff.1 hpage).1

theorem readFavorites_withoutTrash (offset : Nat) :
    readCollection R s.withoutTrash actor ns .favorites offset = readCollection R s actor ns .favorites offset := by
  have hrows : collectionRows R s.withoutTrash actor ns .favorites = collectionRows R s actor ns .favorites := by
    unfold collectionRows
    refine congrArg R.byName ?_
    refine Eq.trans ?_ (filter_withoutTrash (s := s) fun page hpage => ?_)
    · rfl
    · simpa using (Bool.and_eq_true_iff.1 hpage).1
  unfold readCollection
  rw [hrows]

theorem readOrganization_withoutTrash (page : WikiPage) (id offset : Nat) :
    readOrganization R s.withoutTrash actor ns page id offset = readOrganization R s actor ns page id offset := by
  have hparent : ((page.parent.bind fun parent => s.withoutTrash.db.pages.lookup (ns, parent)).filter fun page => !page.deleted) =
      (page.parent.bind fun parent => s.db.pages.lookup (ns, parent)).filter fun page => !page.deleted := by
    cases page.parent with
    | none => rfl
    | some parent =>
      rw [Option.bind_some, Option.bind_some, WikiSpace.page_withoutTrash, Option.filter_filter]
      simp only [Bool.and_self]
  have hchildren : ((s.withoutTrash.pagesIn ns).filter fun child => decide (child.parent = some id) && !child.deleted) =
      (s.pagesIn ns).filter fun child => decide (child.parent = some id) && !child.deleted :=
    filter_withoutTrash fun page hpage => by simpa using (Bool.and_eq_true_iff.1 hpage).2
  unfold readOrganization
  rw [hparent, hchildren]
  rfl

/-- A link to a page in trash leads nowhere, whoever follows it. -/
theorem readBinding_withoutTrash (subscription : Nat) :
    readBinding s.withoutTrash actor subscription = readBinding s actor subscription := by
  unfold readBinding
  by_cases howner : s.subscriptions.lookup subscription ≠ some actor
  · exact (if_pos howner).trans (if_pos howner).symm
  refine (if_neg howner).trans (Eq.trans ?_ (if_neg howner).symm)
  cases hbinding : (s.bindings.lookup subscription).filter fun binding => decide (binding.owner = actor) with
  | none => simp only [WikiSpace.withoutTrash, hbinding]
  | some binding =>
    have hbinding' : (s.withoutTrash.bindings.lookup subscription).filter (fun binding => decide (binding.owner = actor)) =
        some binding := hbinding
    simp only [hbinding', WikiSpace.roleOf_withoutTrash]
    cases s.roleOf binding.namespace actor with
    | error e => cases e <;> rfl
    | ok role =>
      simp only [WikiSpace.loaded_eq, WikiSpace.page_withoutTrash]
      cases s.db.pages.lookup (binding.namespace, binding.page) with
      | none => rfl
      | some page =>
        cases hdeleted : page.deleted with
        | false => simp [Option.filter_some, hdeleted]
        | true =>
          simp only [Option.filter_some, hdeleted]
          cases role.canEdit with
          | false => rfl
          | true => simp [WikiSpace.found, hdeleted]

/-- Who may not edit is answered as if there were no trash. -/
theorem answer_withoutTrash {role : WikiRole} (hrole : s.roleOf ns actor = .ok role) (hreader : role.canEdit = false)
    {q : WikiQuery} (hq : ∀ offset, q ≠ .collection .standalone offset) :
    answer limits R s.withoutTrash actor ns q = answer limits R s actor ns q := by
  have hrole' : s.withoutTrash.roleOf ns actor = .ok role := WikiSpace.roleOf_withoutTrash.trans hrole
  have hbind : ∀ {α β : Type} (a : α) (f : α → Except WikiError β), (Except.ok a >>= f) = f a := fun _ _ => rfl
  -- a page that is loaded is live, and what follows sees only live pages
  have hloaded : ∀ {id : Nat} {f f' : WikiPage → Except WikiError WikiAnswer},
      (∀ page, s.loaded ns id role = .ok page → f page = f' page) →
      (s.withoutTrash.loaded ns id role >>= f) = (s.loaded ns id role >>= f') := by
    intro id f f' hf
    rw [WikiSpace.loaded_withoutTrash hreader]
    cases hload : s.loaded ns id role with
    | error e => rfl
    | ok page => exact hf page hload
  unfold answer
  cases q with
  | «namespace» =>
    simp only [hrole, hrole', hbind]
    rfl
  | page id =>
    simp only [hrole, hrole', hbind]
    exact hloaded fun page _ => rfl
  | resolve name =>
    simp only [hrole, hrole', hbind]
    cases limits.name name with
    | error e => rfl
    | ok _ =>
      simp only [hbind]
      have hname : s.withoutTrash.db.names.lookup (ns, name) = (s.db.names.lookup (ns, name)).filter (s.live ns) :=
        Table.lookup_restrict _ _ _
      rw [hname]
      cases s.db.names.lookup (ns, name) with
      | none => rfl
      | some id =>
        cases hlive : s.live ns id with
        | true =>
          rw [Option.filter_some, if_pos hlive]
          exact hloaded fun page _ => rfl
        | false =>
          rw [Option.filter_some, if_neg (by rw [hlive]; exact Bool.false_ne_true)]
          cases hload : s.loaded ns id role with
          | error e =>
            cases WikiSpace.loaded_dead hload
            simp only [Option.map_some, Option.getD_some, hbind, hload]
            rfl
          | ok page =>
            rw [WikiSpace.live_of_loaded hreader hload] at hlive
            cases hlive
  | revision id revision =>
    simp only [hrole, hrole', hbind]
    refine hloaded fun page hpage => ?_
    have hrow : s.withoutTrash.db.revisions.lookup (ns, id, revision) = s.db.revisions.lookup (ns, id, revision) := by
      refine (Table.lookup_restrict _ _ _).trans ?_
      have hlive := WikiSpace.live_of_loaded hreader hpage
      cases s.db.revisions.lookup (ns, id, revision) with
      | none => rfl
      | some row => rw [Option.filter_some, if_pos hlive]
    rw [hrow]
  | links id =>
    simp only [hrole, hrole', hbind]
    refine hloaded fun page hpage => ?_
    rw [readLinks_withoutTrash (WikiSpace.live_of_loaded hreader hpage)]
  | history id offset =>
    simp only [hrole, hrole', hbind]
    refine hloaded fun page hpage => ?_
    rw [readHistory_withoutTrash (WikiSpace.live_of_loaded hreader hpage)]
  | pages search trash offset =>
    simp only [hrole, hrole', hbind]
    cases R.search search with
    | error e => rfl
    | ok _ =>
      simp only [hbind, hreader]
      cases trash with
      | true => rfl
      | false => simp only [readPages_withoutTrash]
  | collection kind offset =>
    simp only [hrole, hrole', hbind]
    cases kind with
    | favorites => rw [readFavorites_withoutTrash]
    | standalone => exact absurd rfl (hq offset)
  | organization id offset =>
    simp only [hrole, hrole', hbind]
    refine hloaded fun page hpage => ?_
    rw [readOrganization_withoutTrash]
  | draft id =>
    simp only [hrole, hrole', hbind, hreader]
    rfl
  | members offset =>
    simp only [hrole, hrole', hbind]
    have hother : role ≠ .owner := by
      rintro rfl
      cases hreader
    rw [if_pos hother, if_pos hother]
    rfl
  | binding subscription => exact readBinding_withoutTrash subscription

/-- The pages that stand alone: a child in trash counts, and nothing else of the trash does. -/
theorem standalone_withoutTrash {page : WikiPage} : page ∈ collectionRows R s actor ns .standalone ↔
    page ∈ collectionRows R s.withoutTrash actor ns .standalone ∧
      ∀ child ∈ s.pagesIn ns, child.deleted = true → child.parent ≠ some page.id := by
  unfold collectionRows WikiReads.byName
  rw [(OrderBy.sort_perm _ _).mem_iff, (OrderBy.sort_perm _ _).mem_iff, List.mem_filter, List.mem_filter,
    WikiSpace.pagesIn_withoutTrash, List.mem_filter]
  simp only [WikiSpace.collects, WikiSpace.pagesIn_withoutTrash, Bool.and_eq_true, Bool.not_eq_true', Option.isNone_iff_eq_none,
    List.any_eq_false, decide_eq_true_eq, List.mem_filter]
  constructor
  · rintro ⟨hmem, hdeleted, hparent, hchildren⟩
    exact ⟨⟨⟨hmem, hdeleted⟩, hdeleted, hparent, fun child hchild => hchildren child hchild.1⟩,
      fun child hchild _ => hchildren child hchild⟩
  · rintro ⟨⟨⟨hmem, hdeleted⟩, -, hparent, hlive⟩, htrash⟩
    refine ⟨hmem, hdeleted, hparent, fun child hchild => ?_⟩
    cases hchildDeleted : child.deleted with
    | true => exact htrash child hchild hchildDeleted
    | false => exact hlive child ⟨hchild, hchildDeleted⟩

/-! ## Outsiders -/

variable {o : AccountId} {accountOf : String → Option AccountId}

theorem WikiSpace.Outsider.role (h : s.Outsider ns o) : s.roleOf ns o = .error .notFound := by
  rw [WikiSpace.roleOf, h.authorize]
  rfl

/-- What an outsider asks is answered the same way whatever the namespace holds. -/
theorem answer_outsider (q : WikiQuery) (hq : ∀ subscription, q ≠ .binding subscription) :
    ∃ e, ∀ s : WikiSpace, s.Outsider ns o → answer limits R s o ns q = .error e := by
  cases q with
  | resolve name =>
    cases hname : limits.name name with
    | error e =>
      refine ⟨e, fun s _ => ?_⟩
      simp only [answer, hname]
      rfl
    | ok u =>
      refine ⟨.notFound, fun s hs => ?_⟩
      simp only [answer, hname, hs.role]
      rfl
  | pages search trash offset =>
    cases hsearch : R.search search with
    | error e =>
      refine ⟨e, fun s _ => ?_⟩
      simp only [answer, hsearch]
      rfl
    | ok u =>
      refine ⟨.notFound, fun s hs => ?_⟩
      simp only [answer, hsearch, hs.role]
      rfl
  | binding subscription => exact absurd rfl (hq subscription)
  | _ =>
    refine ⟨.notFound, fun s hs => ?_⟩
    simp only [answer, hs.role]
    rfl

theorem outsider_states {as : List (SpaceLabel limits)} {s' : WikiSpace} (hs : s.Sound) (ho : s.Outsider ns o)
    (hnever : ∀ l ∈ as, l.ns = ns → l.subject limits accountOf ≠ some o)
    (hrun : run (spaceStep limits accountOf) s as = some s') : s'.Outsider ns o := by
  have hinv : s'.Sound ∧ s'.Outsider ns o := by
    refine run_inv (P := fun _ l => l.ns = ns → l.subject limits accountOf ≠ some o) (fun s => s.Sound ∧ s.Outsider ns o) ?_
      ⟨hs, ho⟩ (along_of_forall s hnever) hrun
    rintro s l s' ⟨hs, ho⟩ hl hstep
    exact ⟨(spaceStep_ok hs hstep).1, outsider_step hs ho hl hstep⟩
  exact hinv.2

end

namespace Sample

def wikiReads : WikiReads :=
  { pageSize := 50, searchBytes := 100, searchExcerptCharacters := 100, lower := id, textLe := fun a b => decide (a ≤ b)
    usernameOf := fun _ => "ann" }

end Sample

end Inoreader
