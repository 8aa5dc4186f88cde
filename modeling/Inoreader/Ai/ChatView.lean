import Inoreader.Ai.ChatWorld

/-!
# The public view of a chat

Two paths write the published view of a chat: `write_record` projects the whole record, `write_progress`
patches what was published before, without the article and the drafts. After every run both have stored the
projection of the record that the row decodes to. A poller compares revisions only: a revision that it has seen
stands for the view that it has seen.
-/

namespace Inoreader
open Lib

/-- The inputs `new` of a row are those of `old`, or a missing snapshot was set. -/
def PinsSnapshot (old new : Option JsonObject) : Prop :=
  new = old ∨ ∃ (i : ChatInputs) (source : ArticleSnapshot), i.snapshot = none ∧ old = some i.toValue ∧
    new = some ({ i with snapshot := some source } : ChatInputs).toValue

/-- The row publishes the projection of what it stores. -/
def ChatRow.Projects (P : AiPlatform) (row : ChatRow) : Prop :=
  ∃ record view, ChatDocument.decode row.document row.inputs = .ok record ∧ record.intoPublicView P = .ok view ∧
    row.publicView = some view

section
variable {P : AiPlatform} {id : Nat} {row row' : ChatRow} {r r' : ChatRecord} {db db' : AiDb} {owner : AccountId}

theorem ChatRow.Holds.projects (h : row.Holds P id r) : row.Projects P := by
  obtain ⟨view, hview, hpublished⟩ := h.published
  exact ⟨r, view, h.decode, hview, hpublished⟩

theorem ChatRow.Holds.pinsSnapshot (h : row.Holds P id r) (h' : row'.Holds P id r') (hpins : r.PinsInputs r') :
    PinsSnapshot row.inputs row'.inputs := by
  rw [h.inputs, h'.inputs]
  rcases hpins with heq | ⟨hnone, source, heq⟩
  · exact .inl (by rw [heq])
  · exact .inr ⟨r.inputs, source, hnone, rfl, by rw [heq]⟩

/-- A poll returns the revision of the row, with the view unless the poller has that revision. -/
theorem publicChat_ok {after : Option Nat} {poll : ChatPoll} (hlookup : db.chats.lookup id = some row)
    (h : publicChat owner id after db = .ok (poll, db')) : poll.revision = row.publicRevision ∧
      (after = some row.publicRevision ∧ poll.chat = none ∨
        after ≠ some row.publicRevision ∧ poll.chat = row.publicView) := by
  unfold publicChat at h
  obtain ⟨row', hlookup', -, -, h⟩ := bind_ownedChat_ok.1 h
  rw [hlookup] at hlookup'
  cases hlookup'
  obtain ⟨-, h⟩ := Tx.bind_require_ok.1 h
  split at h
  · rename_i hafter
    cases h
    exact ⟨rfl, .inl ⟨hafter, rfl⟩⟩
  · rename_i hafter
    obtain ⟨view, hview, h⟩ := Tx.bind_orThrow_ok.1 h
    obtain ⟨-, h⟩ := Tx.bind_require_ok.1 h
    cases h
    exact ⟨rfl, .inr ⟨hafter, hview.symm⟩⟩

end

namespace ChatWorld

/-- What a chat goes through between two states, as a poller sees it that has seen the first one. -/
structure Follows (db' : AiDb) (id : Nat) (row row' : ChatRow) : Prop where
  lookup : db'.chats.lookup id = some row'
  inputs : PinsSnapshot row.inputs row'.inputs
  revision : row.publicRevision ≤ row'.publicRevision
  changed : row'.publicView ≠ row.publicView → row.publicRevision < row'.publicRevision
  /-- Nothing is missed. -/
  polled : ∀ owner poll db'', publicChat owner id (some row.publicRevision) db' = .ok (poll, db'') →
    poll.revision = row'.publicRevision ∧ (poll.chat = row'.publicView ∨ poll.chat = none ∧ row'.publicView = row.publicView)

theorem follows_of_evolves {P : AiPlatform} {db db' : AiDb} (h : db.Evolves P db') {id : Nat} {row : ChatRow}
    {r : ChatRecord} (hlookup : db.chats.lookup id = some row) (hrow : row.Holds P id r) :
    ∃ row', Follows db' id row row' := by
  obtain ⟨row', r', hlookup', hrow', hext, hrevision⟩ := h.chats id row r hlookup hrow
  refine ⟨row', hlookup', hrow.pinsSnapshot hrow' hext.inputs, ?_, fun hchanged => ?_, fun owner poll db'' hpoll => ?_⟩
  · rcases hrevision with hlt | ⟨heq, -⟩
    · exact hlt.le
    · exact heq.ge
  · rcases hrevision with hlt | ⟨-, hview⟩
    · exact hlt
    · exact absurd hview hchanged
  · obtain ⟨hrev, hseen | ⟨-, hchat⟩⟩ := publicChat_ok hlookup' hpoll
    · refine ⟨hrev, .inr ⟨hseen.2, ?_⟩⟩
      -- the poller has the revision of the row, so no write came in between
      rcases hrevision with hlt | ⟨-, hview⟩
      · exact absurd (Option.some.inj hseen.1) hlt.ne
      · exact hview
    · exact ⟨hrev, .inl hchat⟩

end ChatWorld
end Inoreader
