import Inoreader.Glossary.Moves

/-!
# Posts converge to the latest edit

A post behaves like a register in which the last edit wins: the stored row goes back to one of the observations of its
post (`Tracks`), and its edit time is at least that of every observation. Archive records and public pages have no edit
time, so they never replace what the bot reported. The parser may be upgraded at any point of a run.
-/

namespace Inoreader
open Lib

section
variable {P : GlossaryPlatform} {parsers : ParserFamily}

/-! ## Edit times -/

theorem not_editBefore_self (t : Option Int) : editBefore t t = false := by
  cases t with
  | none => rfl
  | some a => simp [editBefore]

theorem editBefore_trans_left {a b c : Option Int} (h : editBefore b a = false) (h' : editBefore c b = false) :
    editBefore c a = false := by
  cases a with
  | none => cases c <;> rfl
  | some a =>
    cases b with
    | none => cases h
    | some b =>
      cases c with
      | none => cases h'
      | some c =>
        simp only [editBefore, decide_eq_false_iff_not] at h h' ⊢
        omega

theorem not_editBefore_of_editBefore {a b : Option Int} (h : editBefore a b = true) : editBefore b a = false := by
  cases a with
  | none => cases b <;> rfl
  | some a =>
    cases b with
    | none => cases h
    | some b =>
      simp only [editBefore, decide_eq_true_eq, decide_eq_false_iff_not] at h ⊢
      omega

theorem isSome_of_editBefore {a b : Option Int} (h : editBefore a b = true) : b.isSome = true := by
  cases b with
  | none => cases a <;> cases h
  | some b => rfl

/-! ## What the source of a post determines -/

theorem editDate_ok {value : Json} {date : Int} {edit : Option Int} (h : ObservedPost.editDate P value date = .ok edit) :
    edit = (P.get? value "edit_date").bind P.asI64 := by
  unfold ObservedPost.editDate at h
  split at h
  · rename_i hnone
    cases h
    rw [hnone]
    rfl
  · rename_i v hv
    split at h
    · rename_i edit hedit
      cases h
      rw [hv]
      exact (Option.filter_eq_some_iff.1 hedit).1.symm
    · cases h

theorem telegram_ok {parser : GlossaryParser} {value : Json} {channelId : Int} {post : ObservedPost}
    (h : ObservedPost.telegram P parser value channelId = .ok post) : post.raw = value.text ∧
      post.editedAt = (P.get? value "edit_date").bind P.asI64 ∧ post.projection = parser.message value := by
  unfold ObservedPost.telegram at h
  split at h
  · cases h
  · split at h
    · cases h
    · cases h
    · split at h
      · cases h
      · cases h
      · rename_i hedit
        cases h
        exact ⟨rfl, editDate_ok hedit, rfl⟩

theorem archive_ok {parser : GlossaryParser} {raw : String} {post : ObservedPost}
    (h : ObservedPost.archive P parser raw = .ok post) : post.raw = raw ∧ post.editedAt = none ∧
      ∃ content, post.projection = parser.html content := by
  unfold ObservedPost.archive at h
  split at h
  · cases h
  · split at h
    · cases h
    · split at h
      · cases h
      · split at h
        · cases h
        · split at h
          · cases h
          · cases h
          · rename_i content _ _
            cases h
            exact ⟨rfl, rfl, content, rfl⟩

namespace Observation
variable {o o' : Observation}

theorem Genuine.edited (h : o.Genuine P parsers) (h' : o'.Genuine P parsers) (hkind : o'.kind = o.kind)
    (hraw : o'.post.raw = o.post.raw) : o'.post.editedAt = o.post.editedAt := by
  unfold Genuine at h h'
  rw [hkind] at h'
  cases hk : o.kind with
  | bot =>
    simp only [hk] at h h'
    obtain ⟨value, channelId, h⟩ := h
    obtain ⟨value', channelId', h'⟩ := h'
    obtain ⟨hr, hedit, -⟩ := telegram_ok h
    obtain ⟨hr', hedit', -⟩ := telegram_ok h'
    have hvalue : value' = value := by
      cases value
      cases value'
      simp_all
    rw [hedit, hedit', hvalue]
  | _ =>
    simp only [hk] at h h'
    obtain ⟨raw, h⟩ := h
    obtain ⟨raw', h'⟩ := h'
    rw [(archive_ok h).2.1, (archive_ok h').2.1]

/-- Only messages of the bot have an edit time. -/
theorem Genuine.bot (h : o.Genuine P parsers) (hedit : o.post.editedAt.isSome = true) : o.kind = .bot := by
  unfold Genuine at h
  cases hk : o.kind with
  | bot => rfl
  | _ =>
    simp only [hk] at h
    obtain ⟨raw, h⟩ := h
    rw [(archive_ok h).2.1] at hedit
    cases hedit

end Observation

/-! ## Decisions -/

namespace PostRow
variable {row : PostRow} {version : String} {kind : PostKind} {post : ObservedPost}

theorem decide_stored (h : row.decide version kind post = .stored) :
    row.sameSource kind post = true ∨ (kind = .bot ∧ editBefore row.editedAt post.editedAt = true) := by
  unfold decide at h
  split at h
  · split at h <;> cases h
  · split at h
    · cases h
    · split at h
      · rename_i hyields
        unfold yields at hyields
        simp only [Bool.or_eq_true, Bool.and_eq_true, beq_iff_eq] at hyields
        rcases hyields with hsame | ⟨⟨hbot, hedit⟩, hnone | hlater⟩
        · exact .inl hsame
        · refine .inr ⟨hbot, ?_⟩
          obtain ⟨t, ht⟩ := Option.isSome_iff_exists.1 hedit
          rw [Option.isNone_iff_eq_none.1 hnone, ht]
          rfl
        · exact .inr ⟨hbot, hlater⟩
      · split at h <;> cases h

theorem decide_refreshed (h : row.decide version kind post = .refreshed) : row.document = post.projection ∧
    row.parserVersion = version ∧ kind = .bot ∧ editBefore row.editedAt post.editedAt = true := by
  unfold decide at h
  split at h
  · rename_i hsame
    split at h
    · rename_i hlater
      exact ⟨hsame.1, hsame.2, hlater.1, hlater.2⟩
    · cases h
  · split at h
    · cases h
    · split at h
      · cases h
      · split at h <;> cases h

/-- An observation that is kept out or marks the post is no later edit of the bot. -/
theorem decide_kept (h : row.decide version kind post = .unchanged ∨ row.decide version kind post = .marked)
    (hbot : kind = .bot) : editBefore row.editedAt post.editedAt = false := by
  by_contra hlater
  have hlater : editBefore row.editedAt post.editedAt = true := by simpa using hlater
  unfold decide at h
  by_cases hsame : row.document = post.projection ∧ row.parserVersion = version
  · rw [if_pos hsame, if_pos ⟨hbot, hlater⟩] at h
    rcases h with h | h <;> cases h
  · rw [if_neg hsame, if_neg, if_pos] at h
    · rcases h with h | h <;> cases h
    · unfold yields
      simp [hbot, isSome_of_editBefore hlater, hlater]
    · rintro ⟨-, -, hstale⟩
      rw [not_editBefore_of_editBefore hlater] at hstale
      cases hstale

end PostRow

/-! ## The rows of a post -/

/-- The row is what the observation left. -/
structure Observation.Tracks (o : Observation) (row : PostRow) : Prop where
  kind : o.kind = row.kind
  raw : o.post.raw = row.source
  edited : o.post.editedAt = row.editedAt
  version : o.version = row.parserVersion
  document : o.post.projection = row.document

theorem editBefore_none (t : Option Int) : editBefore t none = false := by
  cases t <;> rfl

namespace Observation
variable {o o' : Observation} {row : PostRow}

theorem tracks_row (o : Observation) (receipt : Nat) (old : Option PostRow) :
    o.Tracks (o.post.row o.version receipt o.kind old) := ⟨rfl, rfl, rfl, rfl, rfl⟩

/-- A source that is read again has its old edit time. -/
theorem edited_of_sameSource (h : o.Genuine P parsers) (h' : o'.Genuine P parsers) (htracks : o'.Tracks row)
    (hsame : row.sameSource o.kind o.post = true) : o.post.editedAt = row.editedAt := by
  simp only [PostRow.sameSource, Bool.and_eq_true, beq_iff_eq] at hsame
  rw [← htracks.edited]
  exact h'.edited h (hsame.2.symm.trans htracks.kind.symm) (hsame.1.symm.trans htracks.raw.symm)

/-- What an observation does to a stored row. -/
theorem result_of_stored (h : o.Genuine P parsers) (h' : o'.Genuine P parsers) (htracks : o'.Tracks row)
    (hstored : o.stored = some row) (receipt : Nat) :
    editBefore (o.result receipt).editedAt row.editedAt = false ∧
    editBefore (o.result receipt).editedAt o.post.editedAt = false ∧
    (o.Tracks (o.result receipt) ∨ o'.Tracks (o.result receipt)) := by
  have hkept : row.decide o.version o.kind o.post = .unchanged ∨ row.decide o.version o.kind o.post = .marked →
      editBefore row.editedAt o.post.editedAt = false := by
    intro hdecide
    by_cases hbot : o.kind = .bot
    · exact PostRow.decide_kept hdecide hbot
    · have hnone : o.post.editedAt = none := by
        by_contra hsome
        exact hbot (h.bot (Option.isSome_iff_ne_none.2 hsome))
      rw [hnone]
      exact editBefore_none _
  unfold result
  rw [hstored]
  simp only
  cases hdecide : row.decide o.version o.kind o.post with
  | unchanged => exact ⟨not_editBefore_self _, hkept (.inl hdecide), .inr htracks⟩
  | refreshed =>
    obtain ⟨hdocument, hversion, hbot, hlater⟩ := PostRow.decide_refreshed hdecide
    exact ⟨not_editBefore_of_editBefore hlater, not_editBefore_self _, .inl ⟨rfl, rfl, rfl, hversion.symm, hdocument.symm⟩⟩
  | marked =>
    exact ⟨not_editBefore_self _, hkept (.inr hdecide),
      .inr ⟨htracks.kind, htracks.raw, htracks.edited, htracks.version, htracks.document⟩⟩
  | stored =>
    refine ⟨?_, not_editBefore_self _, .inl (o.tracks_row receipt (some row))⟩
    show editBefore o.post.editedAt row.editedAt = false
    rcases PostRow.decide_stored hdecide with hsame | ⟨-, hlater⟩
    · rw [edited_of_sameSource h h' htracks hsame]
      exact not_editBefore_self _
    · exact not_editBefore_of_editBefore hlater

/-- A document is replaced by its own source, read again, or by a later edit of the bot. -/
theorem result_document (hstored : o.stored = some row) (receipt : Nat) (hne : (o.result receipt).document ≠ row.document) :
    (row.source = o.post.raw ∧ row.kind = o.kind) ∨ (o.kind = .bot ∧ editBefore row.editedAt o.post.editedAt = true) := by
  unfold result at hne
  rw [hstored] at hne
  simp only at hne
  cases hdecide : row.decide o.version o.kind o.post with
  | stored =>
    rcases PostRow.decide_stored hdecide with hsame | hlater
    · simp only [PostRow.sameSource, Bool.and_eq_true, beq_iff_eq] at hsame
      exact .inl hsame
    · exact .inr hlater
  | _ =>
    rw [hdecide] at hne
    exact absurd rfl hne

end Observation

structure GlossaryDb.Sound (P : GlossaryPlatform) (parsers : ParserFamily) (db : GlossaryDb) : Prop where
  genuine : ∀ o ∈ db.observed, o.Genuine P parsers
  tracks : ∀ key row, db.posts.lookup key = some row → ∃ o ∈ db.observed, o.key = key ∧ o.Tracks row
  /-- No observation is later than the row of its post. -/
  latest : ∀ o ∈ db.observed, ∃ row, db.posts.lookup o.key = some row ∧ editBefore row.editedAt o.post.editedAt = false
  definitions : ∀ key, db.definitionsOf key = ((db.posts.lookup key).map (·.document.definitions)).getD []

/-- What happens to the row of a post: its edit time does not go back. -/
def GlossaryDb.Evolves (db db' : GlossaryDb) : Prop :=
  ∀ key row, db.posts.lookup key = some row → ∃ row', db'.posts.lookup key = some row' ∧
    editBefore row'.editedAt row.editedAt = false

variable {db db' db'' : GlossaryDb} {o : Observation}

theorem GlossaryDb.Evolves.refl (db : GlossaryDb) : db.Evolves db :=
  fun _ row hlookup => ⟨row, hlookup, not_editBefore_self _⟩

theorem GlossaryDb.Evolves.trans (h : db.Evolves db') (h' : db'.Evolves db'') : db.Evolves db'' := by
  intro key row hlookup
  obtain ⟨row', hlookup', hle⟩ := h key row hlookup
  obtain ⟨row'', hlookup'', hle'⟩ := h' key row' hlookup'
  exact ⟨row'', hlookup'', editBefore_trans_left hle hle'⟩

/-- The row after an applied observation. -/
theorem GlossaryDb.Sound.applied_row (hsound : db.Sound P parsers) (hgenuine : o.Genuine P parsers)
    (h : db.Applied db' o) : ∃ row', db'.posts.lookup o.key = some row' ∧
      editBefore row'.editedAt o.post.editedAt = false ∧
      (∃ o' ∈ o :: db.observed, o'.key = o.key ∧ o'.Tracks row') ∧
      ∀ row, db.posts.lookup o.key = some row → editBefore row'.editedAt row.editedAt = false := by
  obtain ⟨receipt, hposts⟩ := h.posts
  refine ⟨o.result receipt, by rw [hposts, if_pos rfl], ?_⟩
  cases hold : db.posts.lookup o.key with
  | none =>
    have hresult : o.result receipt = o.post.row o.version receipt o.kind none := by
      unfold Observation.result
      rw [h.stored, hold]
    rw [hresult]
    exact ⟨not_editBefore_self _, ⟨o, List.mem_cons_self, rfl, o.tracks_row receipt none⟩, nofun⟩
  | some row =>
    obtain ⟨o', ho', hkey, htracks⟩ := hsound.tracks o.key row hold
    obtain ⟨hback, hle, hresult⟩ := Observation.result_of_stored hgenuine (hsound.genuine o' ho') htracks
      (h.stored.trans hold) receipt
    refine ⟨hle, ?_, fun row₁ hrow₁ => ?_⟩
    · rcases hresult with hresult | hresult
      · exact ⟨o, List.mem_cons_self, rfl, hresult⟩
      · exact ⟨o', List.mem_cons_of_mem _ ho', hkey, hresult⟩
    · cases hrow₁
      exact hback

theorem GlossaryDb.Applied.lookup_ne (h : db.Applied db' o) {key : PostKey} (hne : key ≠ o.key) :
    db'.posts.lookup key = db.posts.lookup key := by
  obtain ⟨receipt, hposts⟩ := h.posts
  rw [hposts, if_neg hne]

theorem GlossaryDb.Sound.evolves (hsound : db.Sound P parsers) (hgenuine : o.Genuine P parsers) (h : db.Applied db' o) :
    db.Evolves db' := by
  intro key row hlookup
  by_cases hkey : key = o.key
  · subst hkey
    obtain ⟨row', hlookup', -, -, hback⟩ := hsound.applied_row hgenuine h
    exact ⟨row', hlookup', hback row hlookup⟩
  · exact ⟨row, by rw [h.lookup_ne hkey]; exact hlookup, not_editBefore_self _⟩

theorem GlossaryDb.Applied.definitions_sound (h : db.Applied db' o)
    (hsound : ∀ key, db.definitionsOf key = ((db.posts.lookup key).map (·.document.definitions)).getD []) (key : PostKey) :
    db'.definitionsOf key = ((db'.posts.lookup key).map (·.document.definitions)).getD [] := by
  by_cases hkey : key = o.key
  · subst hkey
    obtain ⟨receipt, hposts⟩ := h.posts
    rw [hposts, if_pos rfl, Option.map_some, Option.getD_some]
    cases hold : db.posts.lookup o.key with
    | none =>
      have hstored : o.stored = none := h.stored.trans hold
      have hreplaces : o.Replaces := fun row hrow => by rw [hstored] at hrow; cases hrow
      rw [h.replaced hreplaces]
      unfold Observation.result
      rw [hstored]
      rfl
    | some row =>
      have hstored : o.stored = some row := h.stored.trans hold
      have hold' := hsound o.key
      rw [hold, Option.map_some, Option.getD_some] at hold'
      by_cases hdecide : row.decide o.version o.kind o.post = .stored
      · have hreplaces : o.Replaces := fun row' hrow' => by
          rw [hstored] at hrow'
          cases hrow'
          exact hdecide
        rw [h.replaced hreplaces]
        unfold Observation.result
        rw [hstored]
        simp only [hdecide]
        rfl
      · have hkept : ¬ o.Replaces := fun hreplaces => hdecide (hreplaces row hstored)
        rw [h.kept o.key (.inr hkept), hold']
        unfold Observation.result
        rw [hstored]
        simp only
        cases hd : row.decide o.version o.kind o.post with
        | stored => exact absurd hd hdecide
        | _ => rfl
  · rw [h.kept key (.inl hkey), h.lookup_ne hkey]
    exact hsound key

theorem GlossaryDb.Sound.applied (hsound : db.Sound P parsers) (hgenuine : o.Genuine P parsers) (h : db.Applied db' o) :
    db'.Sound P parsers := by
  obtain ⟨row', hlookup', hle, htracked, hback⟩ := hsound.applied_row hgenuine h
  refine ⟨fun o' ho' => ?_, fun key row hlookup => ?_, fun o' ho' => ?_, h.definitions_sound hsound.definitions⟩
  · rw [h.observed] at ho'
    rcases List.mem_cons.1 ho' with rfl | ho'
    · exact hgenuine
    · exact hsound.genuine o' ho'
  · rw [h.observed]
    by_cases hkey : key = o.key
    · subst hkey
      rw [hlookup'] at hlookup
      cases hlookup
      exact htracked
    · rw [h.lookup_ne hkey] at hlookup
      obtain ⟨o', ho', htracks⟩ := hsound.tracks key row hlookup
      exact ⟨o', List.mem_cons_of_mem _ ho', htracks⟩
  · rw [h.observed] at ho'
    rcases List.mem_cons.1 ho' with rfl | ho'
    · exact ⟨row', hlookup', hle⟩
    · obtain ⟨row, hlookup, hlatest⟩ := hsound.latest o' ho'
      obtain ⟨row₁, hlookup₁, hnot⟩ := hsound.evolves hgenuine h o'.key row hlookup
      exact ⟨row₁, hlookup₁, editBefore_trans_left hlatest hnot⟩

theorem GlossaryDb.Move.sound (h : db.Move P parsers db') (hsound : db.Sound P parsers) :
    db'.Sound P parsers ∧ db.Evolves db' := by
  cases h with
  | applied hgenuine h => exact ⟨hsound.applied hgenuine h, hsound.evolves hgenuine h⟩
  | aside posts definitions observed =>
    refine ⟨⟨?_, ?_, ?_, ?_⟩, ?_⟩
    · rw [observed]
      exact hsound.genuine
    · rw [posts, observed]
      exact hsound.tracks
    · rw [posts, observed]
      exact hsound.latest
    · unfold GlossaryDb.definitionsOf
      rw [posts, definitions]
      exact hsound.definitions
    · intro key row hlookup
      rw [posts]
      exact ⟨row, hlookup, not_editBefore_self _⟩

theorem moves_sound (h : Relation.ReflTransGen (GlossaryDb.Move P parsers) db db') (hsound : db.Sound P parsers) :
    db'.Sound P parsers ∧ db.Evolves db' := by
  induction h with
  | refl => exact ⟨hsound, .refl db⟩
  | tail _ hmove ih =>
    obtain ⟨hsound', hevolves⟩ := hmove.sound ih.1
    exact ⟨hsound', ih.2.trans hevolves⟩

/-- The row of a post is that of its newest edit. -/
theorem GlossaryDb.Sound.newest (hsound : db.Sound P parsers) {e : Observation} (he : e ∈ db.observed)
    (hedit : e.post.editedAt.isSome = true)
    (hnewest : ∀ o ∈ db.observed, o.key = e.key → o.kind = .bot → o.post.raw ≠ e.post.raw →
      editBefore o.post.editedAt e.post.editedAt = true) :
    ∃ row, db.posts.lookup e.key = some row ∧ ∃ o ∈ db.observed, o.key = e.key ∧ o.kind = .bot ∧
      o.post.raw = e.post.raw ∧ o.Tracks row := by
  obtain ⟨row, hlookup, hle⟩ := hsound.latest e he
  obtain ⟨o, ho, hkey, htracks⟩ := hsound.tracks e.key row hlookup
  have hsome : o.post.editedAt.isSome = true := by
    rw [htracks.edited]
    cases hrow : row.editedAt with
    | none =>
      obtain ⟨t, ht⟩ := Option.isSome_iff_exists.1 hedit
      rw [hrow, ht] at hle
      cases hle
    | some t => rfl
  have hbot := (hsound.genuine o ho).bot hsome
  refine ⟨row, hlookup, o, ho, hkey, hbot, ?_, htracks⟩
  by_contra hraw
  have hlater := hnewest o ho hkey hbot hraw
  rw [htracks.edited, hle] at hlater
  cases hlater

end

/-- No posts yet. -/
structure GlossaryDb.Fresh (db : GlossaryDb) : Prop where
  posts : db.posts = ∅
  definitions : db.definitions = []
  observed : db.observed = []

theorem GlossaryDb.Fresh.sound {db : GlossaryDb} (h : db.Fresh) (P : GlossaryPlatform) (parsers : ParserFamily) :
    db.Sound P parsers where
  genuine := by simp [h.observed]
  tracks := by simp [h.posts]
  latest := by simp [h.observed]
  definitions := by simp [h.posts, GlossaryDb.definitionsOf, h.definitions]

namespace GlossaryWorld

/-- Edit times do not go back, a document gives way to its own source or a later edit only, the definitions are those
of the document, and the newest edit of the bot is the one that is stored. -/
theorem glossary_converges (P : GlossaryPlatform) (parsers : ParserFamily) {w₀ w : GlossaryWorld} {as : List GlossaryLabel}
    (hfresh : w₀.db.Fresh) (hrun : run (step P parsers) w₀ as = some w) :
    (∀ bs w', run (step P parsers) w bs = some w' → w.db.Evolves w'.db) ∧
    (∀ version owner workspace post receipt kind row db',
      applyPost version owner workspace post receipt kind w.db = .ok ((), db') →
      w.db.posts.lookup ⟨owner, workspace, post.id⟩ = some row → ∃ row', db'.posts.lookup ⟨owner, workspace, post.id⟩ = some row' ∧
        (row'.document ≠ row.document → (row.source = post.raw ∧ row.kind = kind) ∨
          (kind = .bot ∧ editBefore row.editedAt post.editedAt = true))) ∧
    (∀ key, w.db.definitionsOf key = ((w.db.posts.lookup key).map (·.document.definitions)).getD []) ∧
    ∀ e ∈ w.db.observed, e.kind = .bot → e.post.editedAt.isSome = true →
      (∀ o ∈ w.db.observed, o.key = e.key → o.kind = .bot → o.post.raw ≠ e.post.raw →
        editBefore o.post.editedAt e.post.editedAt = true) →
      ∃ row value, w.db.posts.lookup e.key = some row ∧ row.kind = .bot ∧ row.source = e.post.raw ∧
        row.editedAt = e.post.editedAt ∧ value.text = e.post.raw ∧
        row.document = (parsers.parser row.parserVersion).message value ∧
        (row.parserVersion = e.version → row.document = e.post.projection) := by
  obtain ⟨hsound, -⟩ := moves_sound (run_moves hrun) (hfresh.sound P parsers)
  refine ⟨fun bs w' hbs => (moves_sound (run_moves hbs) hsound).2, ?_, hsound.definitions, ?_⟩
  · intro version owner workspace post receipt kind row db' happly hlookup
    obtain ⟨o, rfl, rfl, rfl, hkey, happlied⟩ := applyPost_ok happly
    obtain ⟨receipt', hposts⟩ := happlied.posts
    refine ⟨o.result receipt', by rw [hposts, hkey, if_pos rfl], ?_⟩
    exact Observation.result_document (happlied.stored.trans (hkey ▸ hlookup)) receipt'
  · intro e he hbot hedit hnewest
    obtain ⟨row, hlookup, o, ho, -, hobot, hraw, htracks⟩ := hsound.newest he hedit hnewest
    have hgenuine := hsound.genuine o ho
    have hgenuine' := hsound.genuine e he
    have hedited := hgenuine'.edited hgenuine (hobot.trans hbot.symm) hraw
    unfold Observation.Genuine at hgenuine hgenuine'
    rw [hobot] at hgenuine
    rw [hbot] at hgenuine'
    obtain ⟨value, channelId, htelegram⟩ := hgenuine
    obtain ⟨value', channelId', htelegram'⟩ := hgenuine'
    obtain ⟨hvalue, -, hprojection⟩ := telegram_ok htelegram
    obtain ⟨hvalue', -, hprojection'⟩ := telegram_ok htelegram'
    have hsame : value' = value := by
      cases value
      cases value'
      simp_all
    refine ⟨row, value, hlookup, htracks.kind.symm.trans hobot, htracks.raw.symm.trans hraw,
      htracks.edited.symm.trans hedited, hvalue.symm.trans hraw, ?_, fun hversion => ?_⟩
    · rw [← htracks.document, hprojection, htracks.version]
    · rw [← htracks.document, hprojection, hprojection', hsame, htracks.version, hversion]

open Sample in
/-- An older edit that comes late does not replace the newest one. -/
theorem glossary_converges_late_edit :
    let w := glossaryEnd (editApplied 30 "two" ++ editApplied 20 "one")
    ∃ row, w.db.posts.lookup messageKey = some row ∧ row.document = .indexed "two" [] ∧ row.editedAt = some 30 := by
  intro w
  have hrun : run (step glossaryPlatform glossaryParsers) ⟨{}, "v1"⟩ (editApplied 30 "two" ++ editApplied 20 "one") = some w :=
    run_getD (by decide +kernel) _
  obtain ⟨e, he, hkey, hbot, hedit, hversion, hprojection, hnewest⟩ : ∃ e ∈ w.db.observed, e.key = messageKey ∧
      e.kind = .bot ∧ e.post.editedAt = some 30 ∧ e.version = "v1" ∧ e.post.projection = .indexed "two" [] ∧
      ∀ o ∈ w.db.observed, o.post.raw ≠ e.post.raw → editBefore o.post.editedAt e.post.editedAt = true := by
    decide +kernel
  have hrow : (w.db.posts.lookup messageKey).map (·.parserVersion) = some "v1" := by decide +kernel
  obtain ⟨-, -, -, hconverges⟩ := glossary_converges glossaryPlatform glossaryParsers ⟨rfl, rfl, rfl⟩ hrun
  obtain ⟨row, value, hlookup, -, -, hedited, -, -, hdocument⟩ := hconverges e he hbot (by rw [hedit]; rfl)
    fun o ho _ _ hraw => hnewest o ho hraw
  rw [hkey] at hlookup
  rw [hlookup, Option.map_some, Option.some.injEq] at hrow
  exact ⟨row, hlookup, (hdocument (hrow.trans hversion.symm)).trans hprojection, hedited.trans hedit⟩

end GlossaryWorld
end Inoreader
