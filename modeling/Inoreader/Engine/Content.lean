import Inoreader.Lib.Chunks
import Inoreader.Store.Jobs
import Inoreader.Store.Rules
import Inoreader.Library.Run
import Mathlib.Data.Prod.Lex

/-!
# Generations of published full texts

Workers publish what they extracted, clean up behind older publications and record failures, in any
order. `Published w r p` says that the current generation of the record `r` is the publication `p`: its
manifest, and exactly its chunks.
-/

namespace Inoreader
open Lib Tx

/-- The ordinals are cast to `u32`. -/
def chunks (bytes : List UInt8) (size : Nat) : List ContentChunk :=
  (chunksOf size bytes).mapIdx fun ordinal bytes => { ordinal := ordinal % 2 ^ 32, bytes }

/-- One extracted text before it is cut into chunks of `content_chunk_bytes`. -/
structure Publication where
  recordId : SourceRecordId
  sourceRevision : Nat
  refreshId : Nat
  raw : List UInt8
  safe : List UInt8
  contentChunkBytes : Nat
  contentChunkBytes_pos : 0 < contentChunkBytes
  fetchedAt : DateTime
deriving DecidableEq

def Publication.bytes (p : Publication) : Representation → List UInt8
  | .raw => p.raw
  | .safe => p.safe

def Publication.chunks (p : Publication) (rep : Representation) : List ContentChunk :=
  Inoreader.chunks (p.bytes rep) p.contentChunkBytes

/-- What the engine passes to `publish_content`. -/
def Publication.revision (p : Publication) : ContentRevision :=
  { recordId := p.recordId, sourceRevision := p.sourceRevision, refreshId := p.refreshId
    rawChunks := p.chunks .raw, safeHtmlChunks := p.chunks .safe, fetchedAt := p.fetchedAt }

/-- No ordinal is cut by the cast to `u32`. -/
def Publication.Fits (p : Publication) : Prop := ∀ rep, (p.chunks rep).length < 2 ^ 32

/-- The order in which publications supersede each other. -/
def Publication.version (p : Publication) : ℕ ×ₗ ℤ := toLex (p.sourceRevision, p.fetchedAt)

def ContentManifestPointer.version (m : ContentManifestPointer) : ℕ ×ₗ ℤ := toLex (m.sourceRevision, m.fetchedAt)

/-- The database, the publications that were attempted and those whose call returned `Ok`. -/
structure ContentWorld where
  db : Db
  attempted : List Publication
  accepted : List Publication

inductive ContentOp
  | publish (lease : LeasedWork) (now : DateTime) (p : Publication)
  | cleanup (lease : LeasedWork) (now : DateTime) (record : SourceRecordId) (requestedKeep : Nat)
  | recordFailure (lease : LeasedWork) (now : DateTime) (record : SourceRecordId) (diagnostic : String)
  /-- Anything else the program does; only the operations above write the two tables. -/
  | other (db : Db)

/-- A refresh id is drawn anew for every attempt. -/
def ContentWorld.step (w : ContentWorld) : ContentOp → Option ContentWorld
  | .publish lease now p =>
    if ∀ q ∈ w.attempted, q.refreshId ≠ p.refreshId then
      match publishContent lease now p.revision w.db with
      | .ok (_, db) => some { db, attempted := p :: w.attempted, accepted := p :: w.accepted }
      | .error _ => some { w with attempted := p :: w.attempted }
    else none
  | .cleanup lease now record requestedKeep =>
    some { w with db := (cleanupContent lease now record requestedKeep).commit w.db }
  | .recordFailure lease now record diagnostic =>
    some { w with db := (recordRefreshFailure lease now record diagnostic).commit w.db }
  | .other db =>
    if db.contentManifests = w.db.contentManifests ∧ db.stagedContentChunks = w.db.stagedContentChunks then
      some { w with db }
    else none

/-- Nothing is published yet. -/
structure ContentWorld.Start (w : ContentWorld) : Prop where
  manifests : w.db.contentManifests = ∅
  chunks : w.db.stagedContentChunks = ∅
  attempted : w.attempted = []
  accepted : w.accepted = []

def ContentOp.Fits : ContentOp → Prop
  | .publish _ _ p => p.Fits
  | _ => True

section chunks
variable {bytes : List UInt8} {size : Nat}

theorem length_chunks : (chunks bytes size).length = (chunksOf size bytes).length := List.length_mapIdx

/-- The chunks put together are the bytes. -/
theorem flatMap_chunks (hsize : 0 < size) : (chunks bytes size).flatMap (·.bytes) = bytes := by
  have hmap : (chunks bytes size).map (·.bytes) = chunksOf size bytes := by
    apply List.ext_getElem?
    intro i
    simp [chunks, Function.comp_def]
  rw [List.flatMap_def, hmap, flatten_chunksOf hsize]

theorem ordinals_chunks (hlen : (chunks bytes size).length < 2 ^ 32) :
    (chunks bytes size).map (·.ordinal) = List.range (chunks bytes size).length := by
  apply List.ext_getElem
  · simp
  · intro i hi hi'
    have hlt : i < 2 ^ 32 := by
      rw [List.length_map] at hi
      omega
    rw [List.getElem_range]
    simp only [chunks, List.getElem_map, List.getElem_mapIdx]
    exact Nat.mod_eq_of_lt hlt

theorem chunks_increasing (hlen : (chunks bytes size).length < 2 ^ 32) :
    (chunks bytes size).Pairwise fun x y => x.ordinal < y.ordinal := by
  have h : ((chunks bytes size).map (·.ordinal)).Pairwise (· < ·) := by
    rw [ordinals_chunks hlen]
    exact List.pairwise_lt_range
  exact List.pairwise_map.1 h

end chunks

/-- The rows of one representation of a generation are exactly these chunks. -/
def HasChunks (t : Table ChunkKey (List UInt8)) (r : SourceRecordId) (refresh : Nat) (rep : Representation)
    (cs : List ContentChunk) : Prop :=
  ∀ ordinal bytes, t.lookup ⟨r, refresh, rep, ordinal⟩ = some bytes ↔ ⟨ordinal, bytes⟩ ∈ cs

/-- The current generation of the record `r` is `p`. -/
structure Published (db : Db) (r : SourceRecordId) (p : Publication) : Prop where
  record : p.recordId = r
  manifest : db.contentManifests.lookup r = some (.ofRevision p.revision)
  chunks : ∀ rep, HasChunks db.stagedContentChunks r p.refreshId rep (p.chunks rep)
  fits : p.Fits
  utf8 : (String.fromUTF8? (ByteArray.mk p.safe.toArray)).isSome

structure ContentInv (w : ContentWorld) : Prop where
  /-- Every accepted publication was attempted. -/
  attempted : ∀ q ∈ w.accepted, q ∈ w.attempted
  /-- Chunks are written by attempts only. -/
  known : ∀ key bytes, w.db.stagedContentChunks.lookup key = some bytes →
    ∃ q ∈ w.attempted, q.refreshId = key.refreshId
  /-- A record without a manifest has no accepted publication; the others have their newest one. -/
  current : ∀ r, (w.db.contentManifests.lookup r = none ∧ ∀ q ∈ w.accepted, q.recordId ≠ r) ∨
    ∃ p ∈ w.accepted, Published w.db r p ∧ ∀ q ∈ w.accepted, q.recordId = r → q.version ≤ p.version

section
variable {db db' : Db} {w w' w'' : ContentWorld} {r : SourceRecordId} {p : Publication}

theorem HasChunks.congr {t t' : Table ChunkKey (List UInt8)} {refresh : Nat} {rep : Representation}
    {cs : List ContentChunk} (h : HasChunks t r refresh rep cs)
    (ht : ∀ ordinal, t'.lookup ⟨r, refresh, rep, ordinal⟩ = t.lookup ⟨r, refresh, rep, ordinal⟩) :
    HasChunks t' r refresh rep cs := by
  intro ordinal bytes
  rw [ht ordinal]
  exact h ordinal bytes

theorem Published.congr (h : Published db r p)
    (hm : db'.contentManifests.lookup r = db.contentManifests.lookup r)
    (hc : ∀ rep ordinal, db'.stagedContentChunks.lookup ⟨r, p.refreshId, rep, ordinal⟩ =
      db.stagedContentChunks.lookup ⟨r, p.refreshId, rep, ordinal⟩) : Published db' r p :=
  ⟨h.record, hm.trans h.manifest, fun rep => (h.chunks rep).congr (hc rep), h.fits, h.utf8⟩

/-- `SELECT … ORDER BY ordinal` returns the chunks. -/
theorem Published.safeChunks (h : Published db r p) :
    db.safeChunks r p.refreshId = (p.chunks .safe).map fun c => (c.ordinal, c.bytes) := by
  refine Table.insertionSort_eq (fun x : Nat × List UInt8 => x.1) ?_ ?_ ?_
  · refine List.Nodup.map_on ?_ ((Table.nodup_rows db.stagedContentChunks).of_map.filter _)
    rintro ⟨⟨r₁, g₁, rep₁, i₁⟩, b₁⟩ hx ⟨⟨r₂, g₂, rep₂, i₂⟩, b₂⟩ hy hxy
    obtain ⟨-, hx⟩ := List.mem_filter.1 hx
    obtain ⟨-, hy⟩ := List.mem_filter.1 hy
    simp only [decide_eq_true_eq] at hx hy
    simp only [Prod.mk.injEq] at hxy
    obtain ⟨rfl, rfl, rfl⟩ := hx
    obtain ⟨rfl, rfl, rfl⟩ := hy
    obtain ⟨rfl, rfl⟩ := hxy
    rfl
  · rintro ⟨i, b⟩
    have hrow := h.chunks .safe i b
    constructor
    · intro hin
      obtain ⟨⟨⟨r₁, g₁, rep₁, i₁⟩, b₁⟩, hx, he⟩ := List.mem_map.1 hin
      obtain ⟨hmem, hx⟩ := List.mem_filter.1 hx
      simp only [decide_eq_true_eq] at hx
      cases he
      obtain ⟨rfl, rfl, rfl⟩ := hx
      exact List.mem_map.2 ⟨_, hrow.1 (Table.mem_rows.1 hmem), rfl⟩
    · intro hin
      obtain ⟨c, hc, he⟩ := List.mem_map.1 hin
      cases he
      refine List.mem_map.2 ⟨(⟨r, p.refreshId, .safe, c.ordinal⟩, c.bytes), List.mem_filter.2 ⟨?_, by simp⟩, rfl⟩
      exact Table.mem_rows.2 (hrow.2 hc)
  · exact List.pairwise_map.2 (chunks_increasing (h.fits .safe))

theorem fromUTF8_bytes {bytes : ByteArray} {html : String} (h : String.fromUTF8? bytes = some html) :
    html.toByteArray = bytes := by
  unfold String.fromUTF8? at h
  split at h
  · cases h
    rfl
  · cases h

/-- What a reader of the current generation sees. -/
theorem Published.decode (h : Published db r p) {m : ContentManifestPointer}
    (hm : db.contentManifests.lookup r = some m) :
    ∃ html, decodeSnapshot db r m = some html ∧ html.toByteArray.data.toList = p.safe := by
  obtain ⟨html, hhtml⟩ := Option.isSome_iff_exists.1 h.utf8
  have hm' : m = .ofRevision p.revision := Option.some.inj (hm.symm.trans h.manifest)
  have hlen : (p.chunks .safe).length % 2 ^ 32 = (p.chunks .safe).length := Nat.mod_eq_of_lt (h.fits .safe)
  have hords : (p.chunks .safe).map (·.ordinal) = List.range (p.chunks .safe).length := ordinals_chunks (h.fits .safe)
  have hbytes : (p.chunks .safe).flatMap (·.bytes) = p.safe := flatMap_chunks p.contentChunkBytes_pos
  refine ⟨html, ?_, ?_⟩
  · unfold decodeSnapshot
    rw [hm']
    simp only [ContentManifestPointer.ofRevision, Publication.revision, h.safeChunks, h.record, List.length_map,
      List.map_map, hlen, Function.comp_def, true_and]
    rw [if_pos hords, List.flatMap_map, hbytes]
    exact hhtml
  · rw [fromUTF8_bytes hhtml]

theorem HasChunks.of_stage {t : Table ChunkKey (List UInt8)} {refresh : Nat} {rep : Representation}
    {cs : List ContentChunk} (hnone : ∀ ordinal, t.lookup ⟨r, refresh, rep, ordinal⟩ = none)
    (hcs : cs.Pairwise fun x y => x.ordinal < y.ordinal) :
    HasChunks (cs.foldl (fun t chunk => t.insert ⟨r, refresh, rep, chunk.ordinal⟩ chunk.bytes) t) r refresh rep cs := by
  have hkeys : (cs.map fun c => (⟨r, refresh, rep, c.ordinal⟩ : ChunkKey)).Nodup :=
    List.pairwise_map.2 (hcs.imp fun hlt e => hlt.ne (congrArg ChunkKey.ordinal e))
  intro ordinal bytes
  constructor
  · intro hrow
    by_cases hin : ∃ c ∈ cs, c.ordinal = ordinal
    · obtain ⟨c, hc, rfl⟩ := hin
      rw [Table.lookup_foldl_insert_of_mem (fun c : ContentChunk => (⟨r, refresh, rep, c.ordinal⟩ : ChunkKey)) t hkeys hc] at hrow
      cases hrow
      exact hc
    · rw [Table.lookup_foldl_insert_of_ne t fun c hc e => hin ⟨c, hc, by cases e; rfl⟩, hnone] at hrow
      cases hrow
  · exact fun hc => Table.lookup_foldl_insert_of_mem (fun c : ContentChunk => (⟨r, refresh, rep, c.ordinal⟩ : ChunkKey)) t hkeys hc

/-- The chunks of a publication are staged. -/
def stage (p : Publication) (t : Table ChunkKey (List UInt8)) (rep : Representation) : Table ChunkKey (List UInt8) :=
  (p.chunks rep).foldl (fun t chunk => t.insert ⟨p.recordId, p.refreshId, rep, chunk.ordinal⟩ chunk.bytes) t

theorem stage_of_ne {t : Table ChunkKey (List UInt8)} {rep : Representation} {key : ChunkKey}
    (h : key.recordId ≠ p.recordId ∨ key.refreshId ≠ p.refreshId ∨ key.representation ≠ rep) :
    (stage p t rep).lookup key = t.lookup key := by
  refine Table.lookup_foldl_insert_of_ne t fun c _ e => ?_
  rw [← e] at h
  simp at h

/-- Both representations of a new generation are staged completely. -/
theorem stage_hasChunks {t : Table ChunkKey (List UInt8)} (hfits : p.Fits)
    (hnone : ∀ rep ordinal, t.lookup ⟨p.recordId, p.refreshId, rep, ordinal⟩ = none) (rep : Representation) :
    HasChunks (stage p (stage p t .raw) .safe) p.recordId p.refreshId rep (p.chunks rep) := by
  cases rep with
  | raw =>
    refine (HasChunks.of_stage (hnone .raw) (chunks_increasing (hfits .raw))).congr fun ordinal => ?_
    exact stage_of_ne (.inr (.inr (by simp)))
  | safe =>
    refine HasChunks.of_stage (fun ordinal => ?_) (chunks_increasing (hfits .safe))
    rw [stage_of_ne (.inr (.inr (by simp)))]
    exact hnone .safe ordinal

/-- `publish_content` finds a current or newer generation and does nothing, or it stages the chunks and
moves the manifest. -/
theorem publishContent_ok {lease : LeasedWork} {now : DateTime} {u : Unit}
    (hrun : publishContent lease now p.revision db = .ok (u, db')) :
    (db' = db ∧ ∃ m, db.contentManifests.lookup p.recordId = some m ∧ p.version ≤ m.version) ∨
    ((∀ m, db.contentManifests.lookup p.recordId = some m → m.version < p.version) ∧
      db'.contentManifests = db.contentManifests.insert p.recordId (.ofRevision p.revision) ∧
      db'.stagedContentChunks = stage p (stage p db.stagedContentChunks .raw) .safe ∧
      (String.fromUTF8? (ByteArray.mk p.safe.toArray)).isSome) := by
  have hversion : ∀ m : ContentManifestPointer, manifestIsCurrentOrNewer m p.revision = true ↔ p.version ≤ m.version := by
    intro m
    rw [manifestIsCurrentOrNewer, decide_eq_true_iff, Publication.version, ContentManifestPointer.version,
      Prod.Lex.toLex_le_toLex]
    simp only [Publication.revision]
    constructor <;> rintro (h | ⟨h, h'⟩)
    · exact .inl h
    · exact .inr ⟨h.symm, h'⟩
    · exact .inl h
    · exact .inr ⟨h.symm, h'⟩
  unfold publishContent at hrun
  obtain ⟨_, -, hrun⟩ := (bind_ok_of_reads (assertLease_keeps _ _)).1 hrun
  rw [bind_run, get_run] at hrun
  dsimp only at hrun
  split at hrun
  · rename_i hcurrent
    cases hrun
    obtain ⟨m, hm, hv⟩ := Option.any_eq_true _ _ |>.1 hcurrent
    exact .inl ⟨rfl, m, hm, (hversion m).1 hv⟩
  · rename_i hcurrent
    refine .inr ⟨fun m hm => ?_, ?_⟩
    · refine not_le.1 fun hle => hcurrent (Option.any_eq_true _ _ |>.2 ⟨m, hm, (hversion m).2 hle⟩)
    obtain ⟨_, d₁, h₁, hrun⟩ := bind_ok.1 hrun
    obtain ⟨_, d₂, h₂, hrun⟩ := bind_ok.1 hrun
    obtain ⟨_, -, hrun⟩ := (bind_ok_of_reads (toI64_keeps _ _)).1 hrun
    obtain ⟨_, d₃, h₃, hrun⟩ := bind_ok.1 hrun
    obtain ⟨_, d₄, h₄, hrun⟩ := bind_ok.1 hrun
    obtain ⟨-, h₄⟩ := bind_require_ok.1 h₄
    obtain ⟨hutf8, e₄⟩ := require_ok.1 h₄
    obtain ⟨_, d₅, h₅, hrun⟩ := bind_ok.1 hrun
    cases h₁
    cases h₂
    cases h₃
    cases e₄
    cases h₅
    have hm := enqueueWork_keeps (f := Db.contentManifests) (fun _ _ _ => rfl) _ _ _ _ _ _ hrun
    have hc := enqueueWork_keeps (f := Db.stagedContentChunks) (fun _ _ _ => rfl) _ _ _ _ _ _ hrun
    have hbytes : (p.chunks .safe).flatMap (·.bytes) = p.safe := flatMap_chunks p.contentChunkBytes_pos
    refine ⟨hm, hc, ?_⟩
    rw [← hbytes]
    exact hutf8

theorem cleanupContent_ok {lease : LeasedWork} {now : DateTime} {keep : Nat} {u : Unit}
    (hrun : cleanupContent lease now r keep db = .ok (u, db')) :
    ∃ m, db.contentManifests.lookup r = some m ∧ db'.contentManifests = db.contentManifests ∧
      ∀ key, db'.stagedContentChunks.lookup key =
        if key.recordId = r ∧ key.refreshId ≠ m.refreshId then none else db.stagedContentChunks.lookup key := by
  unfold cleanupContent at hrun
  obtain ⟨_, -, hrun⟩ := (bind_ok_of_reads (assertLease_keeps _ _)).1 hrun
  rw [bind_run, get_run] at hrun
  obtain ⟨m, hm, hrun⟩ := bind_orThrow_ok.1 hrun
  cases hrun
  refine ⟨m, hm, rfl, fun key => ?_⟩
  dsimp only
  rw [Table.lookup_foldl_erase]
  by_cases hold : key.recordId = r ∧ key.refreshId ≠ m.refreshId
  · rw [if_pos hold]
    cases hrow : db.stagedContentChunks.lookup key with
    | none => simp
    | some bytes =>
      refine if_pos (List.mem_map.2 ⟨(key, bytes), List.mem_filter.2 ⟨Table.mem_rows.2 hrow, ?_⟩, rfl⟩)
      simpa using hold
  · rw [if_neg hold, if_neg]
    intro hin
    obtain ⟨row, hrow, rfl⟩ := List.mem_map.1 hin
    exact hold (by simpa using (List.mem_filter.1 hrow).2)

theorem recordRefreshFailure_keeps {γ : Type} {f : Db → γ} (hf : ∀ (db : Db) t, f { db with refreshFailures := t } = f db)
    (lease : LeasedWork) (now : DateTime) (record : SourceRecordId) (diagnostic : String) :
    Keeps f (recordRefreshFailure lease now record diagnostic) :=
  keeps_bind (assertLease_keeps _ _) fun _ => keeps_modify fun _ => hf _ _

theorem Published.version (h : Published db r p) {m : ContentManifestPointer}
    (hm : db.contentManifests.lookup r = some m) : m.version = p.version := by
  rw [h.manifest] at hm
  cases hm
  rfl

namespace ContentInv

/-- No row carries the id of a new attempt. -/
theorem fresh (h : ContentInv w) (hfresh : ∀ q ∈ w.attempted, q.refreshId ≠ p.refreshId) {key : ChunkKey}
    (hkey : key.refreshId = p.refreshId) : w.db.stagedContentChunks.lookup key = none := by
  cases hrow : w.db.stagedContentChunks.lookup key with
  | none => rfl
  | some bytes =>
    obtain ⟨q, hq, hid⟩ := h.known key bytes hrow
    exact absurd (hid.trans hkey) (hfresh q hq)

/-- An operation that writes neither table. -/
theorem of_eq (h : ContentInv w) (hm : db.contentManifests = w.db.contentManifests)
    (hc : db.stagedContentChunks = w.db.stagedContentChunks) : ContentInv { w with db } := by
  refine ⟨h.attempted, fun key bytes hrow => h.known key bytes (hc ▸ hrow), fun r => ?_⟩
  rcases h.current r with ⟨hnone, hq⟩ | ⟨p, hp, hpub, hmax⟩
  · exact .inl ⟨by rw [← hnone]; exact congrArg (fun t : Table _ _ => t.lookup r) hm, hq⟩
  · exact .inr ⟨p, hp, hpub.congr (by rw [hm]) fun _ _ => by rw [hc], hmax⟩

theorem cleanup (h : ContentInv w) {lease : LeasedWork} {now : DateTime} {keep : Nat} :
    ContentInv { w with db := (cleanupContent lease now r keep).commit w.db } := by
  cases hrun : cleanupContent lease now r keep w.db with
  | error e => rw [commit_of_error hrun]; exact h
  | ok result =>
    rw [commit_of_ok hrun]
    obtain ⟨m, hm, hmanifests, hchunks⟩ := cleanupContent_ok hrun
    refine ⟨h.attempted, fun key bytes hrow => ?_, fun r' => ?_⟩
    · rw [hchunks] at hrow
      split at hrow
      · cases hrow
      · exact h.known key bytes hrow
    · rcases h.current r' with ⟨hnone, hq⟩ | ⟨p, hp, hpub, hmax⟩
      · exact .inl ⟨by rw [← hnone]; exact congrArg (fun t : Table _ _ => t.lookup r') hmanifests, hq⟩
      · refine .inr ⟨p, hp, hpub.congr (by rw [hmanifests]) fun rep ordinal => ?_, hmax⟩
        rw [hchunks, if_neg]
        -- the generation that is kept is the one the manifest names
        rintro ⟨rfl, hne⟩
        rw [hpub.manifest] at hm
        cases hm
        exact hne rfl

/-- A publication that returned `Ok`. -/
theorem publish (h : ContentInv w) {lease : LeasedWork} {now : DateTime} {u : Unit} (hfits : p.Fits)
    (hfresh : ∀ q ∈ w.attempted, q.refreshId ≠ p.refreshId)
    (hrun : publishContent lease now p.revision w.db = .ok (u, db)) :
    ContentInv { db, attempted := p :: w.attempted, accepted := p :: w.accepted } := by
  have hattempted : ∀ q ∈ p :: w.accepted, q ∈ p :: w.attempted := by
    intro q hq
    rcases List.mem_cons.1 hq with rfl | hq
    · exact List.mem_cons_self
    · exact List.mem_cons_of_mem _ (h.attempted q hq)
  rcases publishContent_ok hrun with ⟨rfl, m, hm, hle⟩ | ⟨hnewer, hmanifests, hchunks, hutf8⟩
  · refine ⟨hattempted, fun key bytes hrow => ?_, fun r => ?_⟩
    · obtain ⟨q, hq, hid⟩ := h.known key bytes hrow
      exact ⟨q, List.mem_cons_of_mem _ hq, hid⟩
    · rcases h.current r with ⟨hnone, hq⟩ | ⟨p', hp', hpub, hmax⟩
      · refine .inl ⟨hnone, fun q hq' => ?_⟩
        rcases List.mem_cons.1 hq' with rfl | hq'
        · rintro rfl
          rw [hnone] at hm
          cases hm
        · exact hq q hq'
      · refine .inr ⟨p', List.mem_cons_of_mem _ hp', hpub, fun q hq' hr => ?_⟩
        rcases List.mem_cons.1 hq' with rfl | hq'
        · rw [← hpub.version (hr ▸ hm)]
          exact hle
        · exact hmax q hq' hr
  · refine ⟨hattempted, fun key bytes hrow => ?_, fun r => ?_⟩
    · by_cases hid : key.refreshId = p.refreshId
      · exact ⟨p, List.mem_cons_self, hid.symm⟩
      · rw [hchunks, stage_of_ne (.inr (.inl hid)), stage_of_ne (.inr (.inl hid))] at hrow
        obtain ⟨q, hq, hid⟩ := h.known key bytes hrow
        exact ⟨q, List.mem_cons_of_mem _ hq, hid⟩
    · by_cases hr : r = p.recordId
      · subst hr
        refine .inr ⟨p, List.mem_cons_self, ?_, ?_⟩
        · refine ⟨rfl, ?_, fun rep => ?_, hfits, hutf8⟩
          · rw [hmanifests, Table.lookup_insert_if, if_pos rfl]
          · rw [hchunks]
            exact stage_hasChunks hfits (fun rep ordinal => h.fresh hfresh rfl) rep
        · intro q hq hr
          rcases List.mem_cons.1 hq with rfl | hq
          · exact le_refl _
          · rcases h.current p.recordId with ⟨-, hnone⟩ | ⟨p', -, hpub, hmax⟩
            · exact absurd hr (hnone q hq)
            · exact (hmax q hq hr).trans (hnewer _ hpub.manifest).le
      · rcases h.current r with ⟨hnone, hq⟩ | ⟨p', hp', hpub, hmax⟩
        · refine .inl ⟨?_, fun q hq' => ?_⟩
          · rw [hmanifests, Table.lookup_insert_if, if_neg hr]
            exact hnone
          · rcases List.mem_cons.1 hq' with rfl | hq'
            · exact fun e => hr e.symm
            · exact hq q hq'
        · refine .inr ⟨p', List.mem_cons_of_mem _ hp', hpub.congr ?_ fun rep ordinal => ?_, fun q hq' hr' => ?_⟩
          · rw [hmanifests, Table.lookup_insert_if, if_neg hr]
          · rw [hchunks, stage_of_ne (.inl hr), stage_of_ne (.inl hr)]
          · rcases List.mem_cons.1 hq' with rfl | hq'
            · exact absurd hr'.symm hr
            · exact hmax q hq' hr'

theorem step (h : ContentInv w) {op : ContentOp} (hfits : op.Fits) (hstep : w.step op = some w') : ContentInv w' := by
  cases op with
  | publish lease now p =>
    simp only [ContentWorld.step] at hstep
    split at hstep
    · rename_i hfresh
      cases hrun : publishContent lease now p.revision w.db with
      | ok result =>
        simp only [hrun, Option.some.injEq] at hstep
        subst hstep
        exact h.publish hfits hfresh hrun
      | error e =>
        simp only [hrun, Option.some.injEq] at hstep
        subst hstep
        refine ⟨fun q hq => List.mem_cons_of_mem _ (h.attempted q hq), fun key bytes hrow => ?_, h.current⟩
        obtain ⟨q, hq, hid⟩ := h.known key bytes hrow
        exact ⟨q, List.mem_cons_of_mem _ hq, hid⟩
    · cases hstep
  | cleanup lease now record keep =>
    cases hstep
    exact h.cleanup
  | recordFailure lease now record diagnostic =>
    cases hstep
    exact h.of_eq ((recordRefreshFailure_keeps (fun _ _ => rfl) _ _ _ _).commit _)
      ((recordRefreshFailure_keeps (fun _ _ => rfl) _ _ _ _).commit _)
  | other db =>
    simp only [ContentWorld.step] at hstep
    split at hstep
    · rename_i heq
      cases hstep
      exact h.of_eq heq.1 heq.2
    · cases hstep

end ContentInv

theorem ContentWorld.Start.inv (h : w.Start) : ContentInv w := by
  refine ⟨fun q hq => ?_, fun key bytes hrow => ?_, fun r => .inl ⟨?_, fun q hq => ?_⟩⟩
  · rw [h.accepted] at hq
    cases hq
  · rw [h.chunks] at hrow
    cases hrow
  · rw [h.manifests]
    rfl
  · rw [h.accepted] at hq
    cases hq


theorem ContentInv.run (h : ContentInv w) {ops : List ContentOp} (hfits : ∀ op ∈ ops, op.Fits)
    (hrun : run ContentWorld.step w ops = some w') : ContentInv w' :=
  run_inv (P := fun _ op => op.Fits) ContentInv (fun _ _ _ hI hop hstep => hI.step hop hstep) h
    (along_of_forall w hfits) hrun

/-- Accepted publications are not forgotten. -/
theorem ContentWorld.accepted_run {ops : List ContentOp} (hrun : run ContentWorld.step w ops = some w')
    (hp : p ∈ w.accepted) : p ∈ w'.accepted := by
  refine run_inv' (fun w => p ∈ w.accepted) (fun w op w' hp hstep => ?_) hp hrun
  cases op with
  | publish lease now q =>
    simp only [ContentWorld.step] at hstep
    split at hstep
    · cases hq : publishContent lease now q.revision w.db with
      | ok result =>
        simp only [hq, Option.some.injEq] at hstep
        subst hstep
        exact List.mem_cons_of_mem _ hp
      | error e =>
        simp only [hq, Option.some.injEq] at hstep
        subst hstep
        exact hp
    · cases hstep
  | cleanup _ _ _ _ | recordFailure _ _ _ _ =>
    cases hstep
    exact hp
  | other db =>
    simp only [ContentWorld.step] at hstep
    split at hstep
    · cases hstep
      exact hp
    · cases hstep

end

namespace Sample

def contentWorld : ContentWorld := { db, attempted := [], accepted := [] }

theorem contentWorld_start : contentWorld.Start := ⟨rfl, rfl, rfl, rfl⟩

/-- A text of the record; the revision is also the refresh id. -/
def publication (revision : Nat) (safe : List UInt8) : Publication :=
  { recordId := ⟨1⟩, sourceRevision := revision, refreshId := revision, raw := [60, 62], safe
    contentChunkBytes := 2, contentChunkBytes_pos := Nat.two_pos, fetchedAt := 5 }

theorem publication_fits (revision : Nat) {safe : List UInt8} (hsafe : (chunksOf 2 safe).length < 2 ^ 32) :
    (publication revision safe).Fits := by
  intro rep
  cases rep with
  | raw => exact Nat.lt_of_le_of_lt (m := 1) (by rfl) (by decide)
  | safe => rw [Publication.chunks, length_chunks]; exact hsafe

/-- The first text is published, then a newer one and the cleanup behind the first. -/
def publishing : List ContentOp :=
  [.publish lease 5 (publication 0 [97, 98, 99]), .publish lease 6 (publication 1 [100]), .cleanup lease 7 ⟨1⟩ 0]

theorem publishing_fits : ∀ op ∈ publishing, op.Fits := by
  intro op hop
  simp only [publishing, List.mem_cons, List.not_mem_nil, or_false] at hop
  rcases hop with rfl | rfl | rfl
  · exact publication_fits 0 (by decide)
  · exact publication_fits 1 (by decide)
  · trivial

def published : ContentWorld := (run ContentWorld.step contentWorld publishing).getD contentWorld

/-- The second text is newer, and not UTF-8. -/
def refusing : List ContentOp :=
  [.publish lease 5 (publication 0 [97]), .publish lease 6 (publication 1 [255])]

def refused : ContentWorld := (run ContentWorld.step contentWorld refusing).getD contentWorld

end Sample

end Inoreader
