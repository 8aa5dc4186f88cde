import Inoreader.Ai.Chats
import Inoreader.Lib.Except

/-!
# What the row of a chat stores

`ChatRow.Holds`: the two texts of the row are those of a record, and the published view is the projection
of that record. `write_record` computes the projection from the whole record, `write_progress` patches the
view that was published before; `writeRecord_ok` and `writeProgress_ok` say that both store a record with its
projection. The second needs `Previews`: the view that it patches shows the preview of every summary that is
not complete.
-/

namespace Inoreader
open Lib

theorem bind_liftExcept_ok {α β : Type} {x : Except AiError α} {f : α → AiTx β} {db db' : AiDb} {b : β} :
    (liftExcept x >>= f) db = .ok (b, db') ↔ ∃ a, x = .ok a ∧ f a db = .ok (b, db') := by
  cases x with
  | ok a => simp [liftExcept, Tx.bind_run, Tx.pure_run]
  | error e => simp [liftExcept, Tx.bind_run, Tx.throw_run]

/-- `row` is the row `id` and stores `r`. -/
structure ChatRow.Holds (P : AiPlatform) (id : Nat) (row : ChatRow) (r : ChatRecord) : Prop where
  document : row.document = some r.progress.toValue
  inputs : row.inputs = some r.inputs.toValue
  owner : row.owner = r.owner
  key : r.view.id = id
  workspace : row.workspace = r.view.workspaceId
  article : row.article = r.view.articleId
  /-- Unless the row is quarantined. -/
  status : ∀ st, row.status = some st → st = r.view.status
  published : ∃ view, r.intoPublicView P = .ok view ∧ row.publicView = some view

/-- The row after a write of `r`, published as `view`. -/
def ChatRow.written (row : ChatRow) (r : ChatRecord) (view : ArticleChat) : ChatRow :=
  { row with
    document := some r.progress.toValue
    inputs := some r.inputs.toValue
    status := some r.view.status
    publicView := some view
    publicRevision := row.publicRevision + 1 }

section
variable {P : AiPlatform} {id : Nat} {row : ChatRow} {r r' : ChatRecord} {db db' : AiDb} {owner : AccountId}

theorem ChatRow.Holds.decode (h : row.Holds P id r) : ChatDocument.decode row.document row.inputs = .ok r := by
  rw [h.document, h.inputs]
  exact ChatDocument.decode_toValue r.progress r.inputs

theorem ChatRow.Holds.unique (h : row.Holds P id r) (h' : row.Holds P id r') : r' = r := by
  have heq := h'.decode.symm.trans h.decode
  cases heq
  rfl

theorem ChatRow.Holds.checked (h : row.Holds P id r) : row.checked id = .ok r := by
  unfold ChatRow.checked
  rw [h.decode]
  exact if_pos ⟨h.key, h.owner.symm, h.workspace.symm, h.article.symm⟩

/-- A row that differs in its queue metadata only. -/
theorem ChatRow.Holds.congr {row' : ChatRow} (h : row.Holds P id r) (hdocument : row'.document = row.document)
    (hinputs : row'.inputs = row.inputs) (howner : row'.owner = row.owner) (hworkspace : row'.workspace = row.workspace)
    (harticle : row'.article = row.article) (hstatus : row'.status = row.status ∨ row'.status = none)
    (hpublished : row'.publicView = row.publicView) : row'.Holds P id r := by
  refine ⟨hdocument.trans h.document, hinputs.trans h.inputs, howner.trans h.owner, h.key, hworkspace.trans h.workspace,
    harticle.trans h.article, fun st hst => ?_, ?_⟩
  · rcases hstatus with hs | hs
    · exact h.status st (hs.symm.trans hst)
    · rw [hs] at hst
      cases hst
  · obtain ⟨view, hview, hpub⟩ := h.published
    exact ⟨view, hview, hpublished.trans hpub⟩

/-- A written row stores what was written. -/
theorem ChatRow.Holds.written (h : row.Holds P id r) (howner : r'.owner = r.owner) (hkey : r'.view.id = r.view.id)
    (hworkspace : r'.view.workspaceId = r.view.workspaceId) (harticle : r'.view.articleId = r.view.articleId)
    {view : ArticleChat} (hview : r'.intoPublicView P = .ok view) : (row.written r' view).Holds P id r' where
  document := rfl
  inputs := rfl
  owner := h.owner.trans howner.symm
  key := hkey.trans h.key
  workspace := h.workspace.trans hworkspace.symm
  article := h.article.trans harticle.symm
  status := fun st hst => by cases hst; rfl
  published := ⟨view, hview, rfl⟩

/-! ## Reading -/

theorem bind_ownedChat_ok {α : Type} {f : ChatRow → AiTx α} {a : α} :
    (ownedChat owner id >>= f) db = .ok (a, db') ↔ ∃ row, db.chats.lookup id = some row ∧ row.owner = owner ∧
      db.policy.ownsWorkspace owner row.workspace = true ∧ f row db = .ok (a, db') := by
  unfold ownedChat
  constructor
  · intro h
    obtain ⟨row, t, hrow, hf⟩ := Tx.bind_ok.1 h
    simp only [Tx.bind_run, Tx.get_run] at hrow
    obtain ⟨_, hlookup, hrow⟩ := Tx.bind_orThrow_ok.1 hrow
    obtain ⟨⟨howner, hws⟩, hrow⟩ := Tx.bind_require_ok.1 hrow
    cases hrow
    exact ⟨row, hlookup, howner, hws, hf⟩
  · rintro ⟨row, hlookup, howner, hws, hf⟩
    refine Tx.bind_ok.2 ⟨row, db, ?_, hf⟩
    simp only [Tx.bind_run, Tx.get_run]
    exact Tx.bind_orThrow_ok.2 ⟨row, hlookup, Tx.bind_require_ok.2 ⟨⟨howner, hws⟩, rfl⟩⟩

/-- `locked` returns the record of the row. -/
theorem bind_lockedRecord_ok {α : Type} {f : ChatRecord → AiTx α} {a : α} (hlookup : db.chats.lookup id = some row)
    (hrow : row.Holds P id r) (h : (lockedRecord owner id >>= f) db = .ok (a, db')) :
    r.owner = owner ∧ f r db = .ok (a, db') := by
  unfold lockedRecord at h
  obtain ⟨record, t, hlocked, hf⟩ := Tx.bind_ok.1 h
  obtain ⟨row', hlookup', -, -, hlocked⟩ := bind_ownedChat_ok.1 hlocked
  rw [hlookup] at hlookup'
  cases hlookup'
  rw [hrow.decode] at hlocked
  obtain ⟨_, hrecord, hlocked⟩ := bind_liftExcept_ok.1 hlocked
  cases hrecord
  obtain ⟨⟨howner, -⟩, hlocked⟩ := Tx.bind_require_ok.1 hlocked
  cases hlocked
  exact ⟨howner, hf⟩

/-- `locked` of a chat that does not exist. -/
theorem bind_lockedRecord_lookup {α : Type} {f : ChatRecord → AiTx α} {a : α}
    (h : (lockedRecord owner id >>= f) db = .ok (a, db')) : ∃ row, db.chats.lookup id = some row := by
  unfold lockedRecord at h
  obtain ⟨record, t, hlocked, -⟩ := Tx.bind_ok.1 h
  obtain ⟨row, hlookup, -⟩ := bind_ownedChat_ok.1 hlocked
  exact ⟨row, hlookup⟩

/-- `locked_progress` returns the progress and the published view of the row. -/
theorem bind_lockedProgress_ok {α : Type} {f : LockedProgress → AiTx α} {a : α}
    (h : (lockedProgress owner id >>= f) db = .ok (a, db')) :
    ∃ row published, db.chats.lookup id = some row ∧ row.owner = owner ∧ row.publicView = some published ∧
      ∀ r, row.Holds P id r → row.status = some r.view.status ∧
        f { record := r.progress, published } db = .ok (a, db') := by
  unfold lockedProgress at h
  obtain ⟨state, t, hlocked, hf⟩ := Tx.bind_ok.1 h
  obtain ⟨row, hlookup, howner, -, hlocked⟩ := bind_ownedChat_ok.1 hlocked
  obtain ⟨hstatus, hlocked⟩ := Tx.bind_require_ok.1 hlocked
  obtain ⟨document, hdocument, hlocked⟩ := Tx.bind_orThrow_ok.1 hlocked
  obtain ⟨p, hp, hlocked⟩ := bind_liftExcept_ok.1 hlocked
  obtain ⟨published, hpublished, hlocked⟩ := Tx.bind_orThrow_ok.1 hlocked
  obtain ⟨-, hlocked⟩ := Tx.bind_require_ok.1 hlocked
  cases hlocked
  refine ⟨row, published, hlookup, howner, hpublished, fun r hr => ?_⟩
  rw [hr.document] at hdocument
  cases hdocument
  rw [Progress.fromValue_toValue] at hp
  cases hp
  obtain ⟨st, hst⟩ := Option.isSome_iff_exists.1 hstatus
  exact ⟨by rw [hst, hr.status st hst], hf⟩

/-! ## The projection -/

/-- `published` shows the preview of every summary of `r` that is not complete. -/
def ChatRecord.Previews (P : AiPlatform) (r : ChatRecord) (published : ArticleChat) : Prop :=
  ∀ m ∈ r.view.messages, m.purpose = some .summary → m.status ≠ .complete →
    ∃ old, published.messages.find? (·.id == m.id) = some old ∧
      previewOf P r.operations r.snapshot r.limits.maxResponseBytes m.id = .ok old.content

theorem publicMessage_id {operations : List Operation} {snapshot : Option ArticleSnapshot} {limit : Nat}
    {m m' : ChatMessage} (h : publicMessage P operations snapshot limit m = .ok m') : m'.id = m.id := by
  unfold publicMessage at h
  split at h
  · cases h; rfl
  · obtain ⟨content, -, rfl⟩ := except_map_ok.1 h
    rfl

/-- The projection shows the message under its id. -/
theorem find_of_forall₂ {R : ChatMessage → ChatMessage → Prop} (hR : ∀ m m', R m m' → m'.id = m.id)
    {ms ms' : List ChatMessage} (h : List.Forall₂ R ms ms') (hnd : (ms.map (·.id)).Nodup) {m : ChatMessage}
    (hm : m ∈ ms) : ∃ m', ms'.find? (·.id == m.id) = some m' ∧ R m m' := by
  induction h with
  | nil => cases hm
  | @cons a b as bs hab _ ih =>
    rw [List.map_cons, List.nodup_cons] at hnd
    rw [List.find?_cons, hR a b hab]
    rcases List.mem_cons.1 hm with rfl | hm
    · exact ⟨b, by simp, hab⟩
    · have hne : a.id ≠ m.id := fun e => hnd.1 (e ▸ List.mem_map_of_mem hm)
      rw [beq_false_of_ne hne]
      exact ih hnd.2 hm

theorem ChatRecord.intoPublicView_ok {view : ArticleChat} :
    r.intoPublicView P = .ok view ↔ ∃ messages,
      List.Forall₂ (fun m m' => publicMessage P r.operations r.snapshot r.limits.maxResponseBytes m = .ok m')
        r.view.messages messages ∧ view = { r.view with messages := messages } := by
  unfold ChatRecord.intoPublicView publicMessages
  rw [except_map_ok]
  constructor
  · rintro ⟨messages, hmessages, rfl⟩
    exact ⟨messages, mapM_ok.1 hmessages, rfl⟩
  · rintro ⟨messages, hmessages, rfl⟩
    exact ⟨messages, mapM_ok.2 hmessages, rfl⟩

/-- What a row publishes are the previews of its record. -/
theorem ChatRow.Holds.previews (h : row.Holds P id r) (hnd : (r.view.messages.map (·.id)).Nodup)
    {published : ArticleChat} (hpub : row.publicView = some published) : r.Previews P published := by
  obtain ⟨view, hview, hpub'⟩ := h.published
  rw [hpub] at hpub'
  cases hpub'
  obtain ⟨messages, hmessages, rfl⟩ := ChatRecord.intoPublicView_ok.1 hview
  intro m hm hpurpose hstatus
  obtain ⟨old, hfind, hold⟩ := find_of_forall₂ (fun _ _ => publicMessage_id) hmessages hnd hm
  refine ⟨old, hfind, ?_⟩
  unfold publicMessage at hold
  rw [if_neg (by simp [hpurpose, hstatus])] at hold
  obtain ⟨content, hcontent, rfl⟩ := except_map_ok.1 hold
  exact hcontent

/-- Patching a view that shows the previews yields the projection. -/
theorem ChatRecord.Previews.kept {published : ArticleChat} (h : r.Previews P published) {messages : List ChatMessage}
    (hkept : keptMessages published r.view.messages = .ok messages) :
    r.intoPublicView P = .ok { r.view with messages := messages } := by
  refine ChatRecord.intoPublicView_ok.2 ⟨messages, ?_, rfl⟩
  refine List.Forall₂.imp ?_ ((List.forall₂_and_left _ _).2 ⟨fun m hm => hm, mapM_ok.1 hkept⟩)
  rintro m m' ⟨hm, hkeep⟩
  unfold keptMessage at hkeep
  unfold publicMessage
  split at hkeep
  · rename_i hsummary
    obtain ⟨old, hfind, hpreview⟩ := h m hm hsummary.1 hsummary.2
    rw [hfind] at hkeep
    cases hkeep
    rw [if_neg (by simp [hsummary.1, hsummary.2]), hpreview]
    rfl
  · rename_i hother
    cases hkeep
    rw [if_pos]
    by_cases hpurpose : m.purpose = some .summary
    · exact .inr (by simpa [hpurpose] using hother)
    · exact .inl hpurpose

/-- The previews stay where the open summaries are old ones and their previews are the same. -/
theorem ChatRecord.Previews.mono {published : ArticleChat} (h : r.Previews P published)
    (hopen : ∀ m' ∈ r'.view.messages, m'.purpose = some .summary → m'.status ≠ .complete →
      ∃ m ∈ r.view.messages, m.id = m'.id ∧ m.purpose = some .summary ∧ m.status ≠ .complete)
    (hsame : ∀ a content, previewOf P r.operations r.snapshot r.limits.maxResponseBytes a = .ok content →
      previewOf P r'.operations r'.snapshot r'.limits.maxResponseBytes a = .ok content) : r'.Previews P published := by
  intro m' hm' hpurpose' hstatus'
  obtain ⟨m, hm, hid, hpurpose, hstatus⟩ := hopen m' hm' hpurpose' hstatus'
  obtain ⟨old, hfind, hpreview⟩ := h m hm hpurpose hstatus
  rw [hid] at hfind hpreview
  exact ⟨old, hfind, hsame m'.id old.content hpreview⟩

/-! ## Writing -/

/-- `write_record` of a record with the inputs of the row. -/
theorem writeRecord_ok {u : Unit} (hlookup : db.chats.lookup r'.view.id = some row) (hrow : row.Holds P r'.view.id r)
    (hinputs : r'.inputs = r.inputs) (h : writeRecord P r' db = .ok (u, db')) :
    ∃ view, r'.intoPublicView P = .ok view ∧ db' = db.setChat r'.view.id (row.written r' view) := by
  unfold writeRecord at h
  rw [ChatDocument.encode_eq] at h
  obtain ⟨_, hencode, h⟩ := bind_liftExcept_ok.1 h
  cases hencode
  obtain ⟨view, hview, h⟩ := bind_liftExcept_ok.1 h
  simp only [Tx.bind_run, Tx.get_run] at h
  obtain ⟨row', hlookup', h⟩ := Tx.bind_orThrow_ok.1 h
  rw [hlookup] at hlookup'
  cases hlookup'
  obtain ⟨-, h⟩ := Tx.bind_require_ok.1 h
  cases h
  refine ⟨view, hview, ?_⟩
  have hstored : row.inputs = some r'.inputs.toValue := hinputs ▸ hrow.inputs
  simp only [ChatRow.written, ← hstored, ite_self]

/-- `write_progress` of a state whose published view shows the previews of its record. -/
theorem writeProgress_ok (r' : ChatRecord) {published : ArticleChat} {u : Unit} (hlookup : db.chats.lookup r'.view.id = some row)
    (hinputs : row.inputs = some r'.inputs.toValue) (hpreviews : r'.Previews P published)
    (h : writeProgress { record := r'.progress, published } db = .ok (u, db')) :
    ∃ view, r'.intoPublicView P = .ok view ∧ db' = db.setChat r'.view.id (row.written r' view) := by
  unfold writeProgress at h
  obtain ⟨messages, hkept, h⟩ := bind_liftExcept_ok.1 h
  simp only [Tx.bind_run, Tx.get_run] at h
  obtain ⟨row', hlookup', h⟩ := Tx.bind_orThrow_ok.1 h
  have hrow : row' = row := Option.some.inj (hlookup'.symm.trans hlookup)
  subst hrow
  obtain ⟨-, h⟩ := Tx.bind_require_ok.1 h
  cases h
  refine ⟨_, hpreviews.kept hkept, ?_⟩
  simp only [ChatRow.written, ← hinputs]
  rfl

end
end Inoreader
