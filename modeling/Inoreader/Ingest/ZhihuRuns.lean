import Inoreader.Ai.Crypto
import Inoreader.Ingest.Zhihu
import Inoreader.Lib.Run
import Inoreader.Lib.Table

/-!
# The sessions of Zhihu (`reader-ingest/src/zhihu/mod.rs`, `reader-storage-postgres/src/zhihu.rs`)

Accounts paste, check and remove their sessions while workers collect sources. An operation waits for its requests and for the
store, and others run in between: each step below is one transaction, or requests that read nothing of what others write.
-/

namespace Inoreader.Zhihu
open Lib

/-- A source; `maxPages` is there where its kind is `BuiltIn(Zhihu)`. -/
structure Source where
  id : SourceId
  url : ZhihuUrl
  maxPages : Option Nat
  revision : Nat
deriving DecidableEq, Repr

/-- What a request is for. -/
inductive Purpose
  | save | check | collect (source : Source)
deriving DecidableEq, Repr

/-- A request and the account whose operation sent it. -/
structure Sent where
  account : AccountId
  purpose : Purpose
  request : Request
deriving DecidableEq, Repr

/-- Where an operation waits. -/
inductive Task
  /-- `save` after its validation. -/
  | saving (owner : AccountId) (raw : List Char)
  /-- `check` with the cookies of the store. -/
  | checking (owner : AccountId) (cookies : Cookies)
  /-- `collect_inner` after `source_owner`. -/
  | owned (owner : AccountId) (source : Source) (name : List Char) (pages : Nat)
  /-- `collect_inner` with the cookies of the store. -/
  | collecting (owner : AccountId) (source : Source) (name : List Char) (pages : Nat) (cookies : Cookies)

structure World where
  /-- `zhihu_sessions` -/
  sessions : Table AccountId (List UInt8)
  sources : List Source
  /-- The accounts with a subscription to the source, each once. -/
  owners : SourceId → List AccountId
  /-- The sources with a new job `RefreshSource`. -/
  queue : List SourceId
  tasks : List Task
  sent : List Sent
  /-- What `collect_inner` returned. -/
  collected : List (Source × List SourceRecord)

/-- The service and the store it works with; `pages` is positive. -/
structure Service where
  platform : Platform
  aead : Aead
  pages : Nat

namespace World
variable (S : Service)

/-- Send the requests of `m` for an account. -/
def ask {α : Type} (w : World) (account : AccountId) (purpose : Purpose) (m : Proc (List Request) ZhihuError α) :
    Except ZhihuError α × World :=
  let sent := w.sent.map (·.request)
  let result := m sent
  (result.1, { w with sent := w.sent ++ (result.2.drop sent.length).map fun request => { account, purpose, request } })

/-! ## The store -/

/-- The loop of `PostgresZhihuStore::save` over the sources of the owner; a source of nobody else is collected with the
session from now on. -/
def activate (owner : AccountId) (owners : SourceId → List AccountId) (source : Source) :
    Except ZhihuError (Source × List SourceId) :=
  if owner ∉ owners source.id ∨ author source.url = none then .ok (source, [])
  else if owners source.id ≠ [owner] then .error .sharedSource
  else if bigintMax < source.revision + 1 then .error .storage
  else .ok ({ source with maxPages := some S.pages, revision := source.revision + 1 }, [source.id])

/-- `PostgresZhihuStore::save` -/
def storeSave (owner : AccountId) (encrypted : List UInt8) (w : World) : Except ZhihuError World :=
  match w.sources.mapM (activate S owner w.owners) with
  | .error e => .error e
  | .ok rows => .ok { w with
      sources := rows.map (·.1)
      queue := w.queue ++ rows.flatMap (·.2)
      sessions := w.sessions.insert owner encrypted }

def sourceOwner (w : World) (source : SourceId) : Except ZhihuError AccountId :=
  match w.owners source with
  | [owner] => .ok owner
  | _ => .error .sharedSource

/-- `Service::cookies` -/
def cookies (owner : AccountId) (w : World) : Except ZhihuError Cookies :=
  match w.sessions.lookup owner with
  | none => .error .missing
  | some encrypted =>
    match CredentialCipher.decrypt S.aead owner encrypted with
    | none => .error .storage
    | some raw => Cookies.parse raw

/-! ## Operations -/

/-- `save` up to its validation. -/
def save (owner : AccountId) (raw : List Char) (http : Http) (w : World) : World :=
  match Cookies.parse raw with
  | .error _ => w
  | .ok cookies =>
    match w.ask owner .save (validate S.platform http cookies) with
    | (.error _, w) => w
    | (.ok _, w) => { w with tasks := w.tasks ++ [.saving owner raw] }

/-- The rest of `save`. -/
def commit (owner : AccountId) (raw : List Char) (nonce : Vector UInt8 12) (w : World) : World :=
  match CredentialCipher.encrypt S.aead nonce owner raw with
  | none => w
  | some encrypted =>
    match storeSave S owner encrypted w with
    | .error _ => w
    | .ok w => w

/-- `check` up to its request. -/
def check (owner : AccountId) (w : World) : World :=
  match w.cookies S owner with
  | .error _ => w
  | .ok cookies => { w with tasks := w.tasks ++ [.checking owner cookies] }

/-- `collect_inner` up to the owner of the source; a worker brings the source. -/
def collect (source : Source) (w : World) : World :=
  match source.maxPages, author source.url with
  | some pages, some name =>
    match w.sourceOwner source.id with
    | .error _ => w
    | .ok owner => { w with tasks := w.tasks ++ [.owned owner source name pages] }
  | _, _ => w

/-- `collect_inner` with the session of the owner. -/
def load (owner : AccountId) (source : Source) (name : List Char) (pages : Nat) (w : World) : World :=
  match w.cookies S owner with
  | .error _ => w
  | .ok cookies => { w with tasks := w.tasks ++ [.collecting owner source name pages cookies] }

/-- The pages of `collect_inner`. -/
def read (owner : AccountId) (source : Source) (name : List Char) (pages : Nat) (cookies : Cookies) (http : Http) (w : World) :
    World :=
  match w.ask owner (.collect source) (collectPages S.platform http source.id name cookies pages 0 {}) with
  | (.error _, w) => w
  | (.ok records, w) => { w with collected := w.collected ++ [(source, records)] }

/-- An operation goes on. -/
def resume (http : Http) (nonce : Vector UInt8 12) (w : World) : Task → World
  | .saving owner raw => w.commit S owner raw nonce
  | .checking owner cookies => (w.ask owner .check (validate S.platform http cookies)).2
  | .owned owner source name pages => w.load S owner source name pages
  | .collecting owner source name pages cookies => w.read S owner source name pages cookies http

inductive Label
  | save (owner : AccountId) (raw : List Char) (http : Http)
  | check (owner : AccountId)
  | remove (owner : AccountId)
  | collect (source : Source)
  | resume (i : Nat) (http : Http) (nonce : Vector UInt8 12)
  /-- An operation is given up. -/
  | drop (i : Nat)
  /-- Sources and subscriptions change. -/
  | subscribe (sources : List Source) (owners : SourceId → List AccountId)

def step (w : World) : Label → Option World
  | .save owner raw http => some (w.save S owner raw http)
  | .check owner => some (w.check S owner)
  | .remove owner => some { w with sessions := w.sessions.erase owner }
  | .collect source => some (w.collect source)
  | .resume i http nonce => (w.tasks[i]?).map fun task => resume S http nonce { w with tasks := w.tasks.eraseIdx i } task
  | .drop i => some { w with tasks := w.tasks.eraseIdx i }
  | .subscribe sources owners => some { w with sources, owners }

/-! ## What a run allows -/

/-- The account pasted the text. -/
def Submitted (labels : List Label) (owner : AccountId) (raw : List Char) : Prop := ∃ http, Label.save owner raw http ∈ labels

/-- The account pasted the text, and the site took its cookies for a session. -/
def Validated (w₀ : World) (labels : List Label) (owner : AccountId) (raw : List Char) (cookies : Cookies) : Prop :=
  ∃ pre post http w, labels = pre ++ .save owner raw http :: post ∧ run (step S) w₀ pre = some w ∧
    Cookies.parse raw = .ok cookies ∧ (validate S.platform http cookies (w.sent.map (·.request))).1 = .ok ()

/-- When the source was to be collected, it was the account's alone. -/
def Granted (w₀ : World) (labels : List Label) (owner : AccountId) (source : Source) : Prop :=
  ∃ pre post w, labels = pre ++ .collect source :: post ∧ run (step S) w₀ pre = some w ∧ w.owners source.id = [owner]

/-- A request for `path` with the header of the cookies. -/
def Uses (request : Request) (cookies : Cookies) (path : List Char) : Prop :=
  request.url = origin ++ path ∧ cookies.header (urlPath path) = .ok request.cookie

/-- The requests that may be sent for an account: with a session of its own, to two pages of one site. -/
inductive Sanctioned (w₀ : World) (labels : List Label) : Sent → Prop
  | save {owner : AccountId} {request : Request} {raw : List Char} {cookies : Cookies} (h : Submitted labels owner raw)
      (hparse : Cookies.parse raw = .ok cookies) (huses : Uses request cookies mePath) :
      Sanctioned w₀ labels ⟨owner, .save, request⟩
  | check {owner : AccountId} {request : Request} {raw : List Char} {cookies : Cookies}
      (h : Validated S w₀ labels owner raw cookies) (huses : Uses request cookies mePath) :
      Sanctioned w₀ labels ⟨owner, .check, request⟩
  | collect {owner : AccountId} {request : Request} {source : Source} {name raw : List Char} {offset : Nat} {cookies : Cookies}
      (hgranted : Granted S w₀ labels owner source) (hname : author source.url = some name)
      (h : Validated S w₀ labels owner raw cookies) (huses : Uses request cookies (articlesPath name offset)) :
      Sanctioned w₀ labels ⟨owner, .collect source, request⟩

/-- What an operation that waits has established. -/
inductive Waits (w₀ : World) (labels : List Label) : Task → Prop
  | saving {owner : AccountId} {raw : List Char} {cookies : Cookies} (h : Validated S w₀ labels owner raw cookies) :
      Waits w₀ labels (.saving owner raw)
  | checking {owner : AccountId} {raw : List Char} {cookies : Cookies} (h : Validated S w₀ labels owner raw cookies) :
      Waits w₀ labels (.checking owner cookies)
  | owned {owner : AccountId} {source : Source} {name : List Char} {pages : Nat} (hgranted : Granted S w₀ labels owner source)
      (hname : author source.url = some name) : Waits w₀ labels (.owned owner source name pages)
  | collecting {owner : AccountId} {source : Source} {name raw : List Char} {pages : Nat} {cookies : Cookies}
      (hgranted : Granted S w₀ labels owner source) (hname : author source.url = some name)
      (h : Validated S w₀ labels owner raw cookies) : Waits w₀ labels (.collecting owner source name pages cookies)

/-- The records are whole free articles of the source, each once. -/
def Sound (source : Source) (records : List SourceRecord) : Prop :=
  (records.map fun r => r.upstreamId.toList).Nodup ∧ ∀ r ∈ records, ∃ row, Complete S.platform source.id row r

structure Inv (w₀ : World) (labels : List Label) (w : World) : Prop where
  sent : ∀ e ∈ w.sent, Sanctioned S w₀ labels e
  tasks : ∀ t ∈ w.tasks, Waits S w₀ labels t
  sessions : ∀ owner encrypted, w.sessions.lookup owner = some encrypted →
    ∃ raw cookies, CredentialCipher.decrypt S.aead owner encrypted = some raw ∧ Validated S w₀ labels owner raw cookies
  collected : ∀ c ∈ w.collected, Sound S c.1 c.2

section
variable {S} {w₀ w w' : World} {labels : List Label} {l : Label} {owner : AccountId} {source : Source} {raw name : List Char}
  {session : Cookies}

theorem Submitted.append (h : Submitted labels owner raw) : Submitted (labels ++ [l]) owner raw := by
  obtain ⟨http, hmem⟩ := h
  exact ⟨http, by simp [hmem]⟩

theorem Validated.append (h : Validated S w₀ labels owner raw session) : Validated S w₀ (labels ++ [l]) owner raw session := by
  obtain ⟨pre, post, http, w, rfl, h⟩ := h
  exact ⟨pre, post ++ [l], http, w, by simp, h⟩

theorem Granted.append (h : Granted S w₀ labels owner source) : Granted S w₀ (labels ++ [l]) owner source := by
  obtain ⟨pre, post, w, rfl, h⟩ := h
  exact ⟨pre, post ++ [l], w, by simp, h⟩

theorem Sanctioned.append {e : Sent} (h : Sanctioned S w₀ labels e) : Sanctioned S w₀ (labels ++ [l]) e := by
  cases h with
  | save h hparse huses => exact .save h.append hparse huses
  | check h huses => exact .check h.append huses
  | collect hgranted hname h huses => exact .collect hgranted.append hname h.append huses

theorem Waits.append {t : Task} (h : Waits S w₀ labels t) : Waits S w₀ (labels ++ [l]) t := by
  cases h with
  | saving h => exact .saving h.append
  | checking h => exact .checking h.append
  | owned hgranted hname => exact .owned hgranted.append hname
  | collecting hgranted hname h => exact .collecting hgranted.append hname h.append

theorem Inv.append (h : Inv S w₀ labels w) : Inv S w₀ (labels ++ [l]) w where
  sent e he := (h.sent e he).append
  tasks t ht := (h.tasks t ht).append
  sessions owner encrypted hs := by
    obtain ⟨raw, session, hraw, hvalid⟩ := h.sessions owner encrypted hs
    exact ⟨raw, session, hraw, hvalid.append⟩
  collected := h.collected

/-! ## Requests -/

theorem ask_eq {α : Type} {purpose : Purpose} {m : Proc (List Request) ZhihuError α} {r : Except ZhihuError α}
    {requests : List Request} (h : m (w.sent.map (·.request)) = (r, w.sent.map (·.request) ++ requests)) :
    w.ask owner purpose m = (r, { w with sent := w.sent ++ requests.map fun request => ⟨owner, purpose, request⟩ }) := by
  unfold ask
  simp only [h, List.drop_left]

theorem validate_eq (http : Http) (session : Cookies) (sent : List Request) :
    ∃ r request, Uses request session mePath ∧ validate S.platform http session sent = (r, sent ++ [request]) := by
  obtain ⟨hheader, -⟩ := Cookies.header_eq session (urlPath mePath)
  generalize [';', ' '].intercalate ((session.cookies.filter (Cookie.covers (urlPath mePath))).map Cookie.pair) = cookie
    at hheader
  have hrequest : request S.platform http session mePath sent =
      (readResponse S.platform (http sent { url := origin ++ mePath, cookie }), sent ++ [{ url := origin ++ mePath, cookie }]) :=
    request_eq hheader sent
  unfold validate
  rcases hr : readResponse S.platform (http sent { url := origin ++ mePath, cookie }) with e | value
  · rw [hr] at hrequest
    exact ⟨.error e, _, ⟨rfl, hheader⟩, Proc.bind_error hrequest⟩
  · rw [hr] at hrequest
    rw [Proc.bind_ok hrequest]
    unfold Proc.require
    split
    · exact ⟨.ok (), _, ⟨rfl, hheader⟩, rfl⟩
    · exact ⟨.error .session, _, ⟨rfl, hheader⟩, rfl⟩

theorem Inv.send (h : Inv S w₀ labels w) {purpose : Purpose} {requests : List Request}
    (hrequests : ∀ request ∈ requests, Sanctioned S w₀ labels ⟨owner, purpose, request⟩) :
    Inv S w₀ labels { w with sent := w.sent ++ requests.map fun request => ⟨owner, purpose, request⟩ } where
  sent e he := by
    rcases List.mem_append.1 he with he | he
    · exact h.sent e he
    · obtain ⟨request, hrequest, rfl⟩ := List.mem_map.1 he
      exact hrequests request hrequest
  tasks := h.tasks
  sessions := h.sessions
  collected := h.collected

theorem Inv.wait (h : Inv S w₀ labels w) {t : Task} (ht : Waits S w₀ labels t) :
    Inv S w₀ labels { w with tasks := w.tasks ++ [t] } where
  sent := h.sent
  tasks t' ht' := by
    rcases List.mem_append.1 ht' with ht' | ht'
    · exact h.tasks t' ht'
    · rw [List.mem_singleton.1 ht']
      exact ht
  sessions := h.sessions
  collected := h.collected

theorem Inv.take (h : Inv S w₀ labels w) (i : Nat) : Inv S w₀ labels { w with tasks := w.tasks.eraseIdx i } where
  sent := h.sent
  tasks t ht := h.tasks t (List.mem_of_mem_eraseIdx ht)
  sessions := h.sessions
  collected := h.collected

/-- What the store gives an account is a session of its own. -/
theorem Inv.cookies_ok (h : Inv S w₀ labels w) (hc : w.cookies S owner = .ok session) :
    ∃ raw, Validated S w₀ labels owner raw session := by
  unfold cookies at hc
  split at hc
  · cases hc
  · rename_i encrypted hlookup
    obtain ⟨raw, session', hraw, hvalid⟩ := h.sessions owner encrypted hlookup
    rw [hraw] at hc
    obtain ⟨pre, post, http, v, hlabels, hrun, hparse, hok⟩ := hvalid
    dsimp only at hc
    rw [hparse] at hc
    cases hc
    exact ⟨raw, pre, post, http, v, hlabels, hrun, hparse, hok⟩

/-! ## Steps -/

theorem Inv.save (h : Inv S w₀ labels w) (hrun : run (step S) w₀ labels = some w) (http : Http) :
    Inv S w₀ (labels ++ [.save owner raw http]) (w.save S owner raw http) := by
  unfold World.save
  split
  · exact h.append
  · rename_i session hparse
    obtain ⟨r, request, huses, hvalidate⟩ := validate_eq (S := S) http session (w.sent.map (·.request))
    have hsend : Inv S w₀ (labels ++ [.save owner raw http])
        { w with sent := w.sent ++ [request].map fun request => ⟨owner, .save, request⟩ } := by
      refine h.append.send fun q hq => ?_
      rw [List.mem_singleton.1 hq]
      exact .save ⟨http, by simp⟩ hparse huses
    rw [ask_eq hvalidate]
    cases r with
    | error e => exact hsend
    | ok u => exact hsend.wait (.saving ⟨labels, [], http, w, rfl, hrun, hparse, by rw [hvalidate]⟩)

theorem storeSave_ok {encrypted : List UInt8} (h : storeSave S owner encrypted w = .ok w') :
    ∃ sources queue, w' = { w with sources, queue, sessions := w.sessions.insert owner encrypted } := by
  unfold storeSave at h
  split at h
  · cases h
  · cases h
    exact ⟨_, _, rfl⟩

theorem Inv.commit (hA : S.aead.Correct) (h : Inv S w₀ labels w) (hvalid : Validated S w₀ labels owner raw session)
    (nonce : Vector UInt8 12) : Inv S w₀ labels (w.commit S owner raw nonce) := by
  unfold World.commit
  split
  · exact h
  · rename_i encrypted hencrypted
    split
    · exact h
    · rename_i w' hstore
      obtain ⟨sources, queue, rfl⟩ := storeSave_ok hstore
      refine ⟨h.sent, h.tasks, ?_, h.collected⟩
      intro owner' encrypted' hlookup
      rw [Table.lookup_insert_if] at hlookup
      split at hlookup
      · rename_i howner
        cases hlookup
        rw [howner]
        exact ⟨raw, session, CredentialCipher.decrypt_encrypt hA hencrypted, hvalid⟩
      · exact h.sessions owner' encrypted' hlookup

theorem Inv.remove (h : Inv S w₀ labels w) (owner : AccountId) :
    Inv S w₀ labels { w with sessions := w.sessions.erase owner } where
  sent := h.sent
  tasks := h.tasks
  sessions owner' encrypted hlookup := by
    rw [Table.lookup_erase_if] at hlookup
    split at hlookup
    · cases hlookup
    · exact h.sessions owner' encrypted hlookup
  collected := h.collected

theorem Inv.collect (h : Inv S w₀ labels w) (hrun : run (step S) w₀ labels = some w) (source : Source) :
    Inv S w₀ (labels ++ [.collect source]) (w.collect source) := by
  unfold World.collect
  split
  · rename_i pages name _ hname
    split
    · exact h.append
    · rename_i owner howner
      refine h.append.wait (.owned ⟨labels, [], w, rfl, hrun, ?_⟩ hname)
      unfold sourceOwner at howner
      split at howner
      · rename_i heq
        cases howner
        exact heq
      · cases howner
  · exact h.append

theorem Window.sound {limit : Nat} {pages : List (List Lib.Json × Bool)} {records : List SourceRecord}
    (h : Window S.platform source.id limit pages records)
    (hdistinct : (records.map fun r => r.upstreamId.toList).Nodup) : Sound S source records := by
  refine ⟨hdistinct, fun r hr => ?_⟩
  obtain ⟨row, -, hrow⟩ := (forall₂_mem h.complete).2 r hr
  exact ⟨row, hrow⟩

theorem Inv.read (h : Inv S w₀ labels w) (hgranted : Granted S w₀ labels owner source)
    (hname : author source.url = some name) (hvalid : Validated S w₀ labels owner raw session) (pages : Nat) (http : Http) :
    Inv S w₀ labels (w.read S owner source name pages session http) := by
  obtain ⟨hheader, -⟩ := Cookies.header_eq session (listingPath name)
  generalize [';', ' '].intercalate ((session.cookies.filter (Cookie.covers (listingPath name))).map Cookie.pair) = cookie
    at hheader
  have hslug := (author_slug hname).2
  rcases hpages : collectPages S.platform http source.id name session pages 0 {} (w.sent.map (·.request)) with ⟨r, sent⟩
  obtain ⟨offsets, -, rfl, hok⟩ := collectPages_run hslug hheader Collected.Sound.nil hpages
  have hrequests : ∀ request ∈ offsets.map (listing name cookie), Sanctioned S w₀ labels ⟨owner, .collect source, request⟩ := by
    intro request hrequest
    obtain ⟨offset, -, rfl⟩ := List.mem_map.1 hrequest
    have huses : Uses (listing name cookie offset) session (articlesPath name offset) :=
      ⟨rfl, by rw [urlPath_articlesPath hslug]; exact hheader⟩
    exact .collect hgranted hname hvalid huses
  have hsend := h.send hrequests
  unfold World.read
  rw [ask_eq hpages]
  cases r with
  | error e => exact hsend
  | ok records =>
    obtain ⟨hdistinct, pages', rs, -, hrecords, hwindow⟩ := hok records rfl
    refine ⟨hsend.sent, hsend.tasks, hsend.sessions, ?_⟩
    intro c hc
    rcases List.mem_append.1 hc with hc | hc
    · exact h.collected c hc
    · have hrs : records = rs := hrecords
      rw [List.mem_singleton.1 hc, hrs]
      rw [hrs] at hdistinct
      exact Window.sound hwindow hdistinct

theorem Inv.resume (hA : S.aead.Correct) (h : Inv S w₀ labels w) {t : Task} (ht : Waits S w₀ labels t) (http : Http)
    (nonce : Vector UInt8 12) : Inv S w₀ labels (World.resume S http nonce w t) := by
  cases ht with
  | saving hvalid => exact h.commit hA hvalid nonce
  | @checking owner raw session hvalid =>
    obtain ⟨r, request, huses, hvalidate⟩ := validate_eq (S := S) http session (w.sent.map (·.request))
    simp only [World.resume, ask_eq hvalidate]
    refine h.send fun q hq => ?_
    rw [List.mem_singleton.1 hq]
    exact .check hvalid huses
  | owned hgranted hname =>
    unfold World.resume World.load
    dsimp only
    split
    · exact h
    · rename_i session hsession
      obtain ⟨raw, hvalid⟩ := h.cookies_ok hsession
      exact h.wait (.collecting hgranted hname hvalid)
  | collecting hgranted hname hvalid => exact h.read hgranted hname hvalid _ http

/-- What one step keeps. -/
theorem Inv.step (hA : S.aead.Correct) (h : Inv S w₀ labels w) (hrun : run (step S) w₀ labels = some w)
    (hstep : step S w l = some w') : Inv S w₀ (labels ++ [l]) w' := by
  cases l with
  | save owner raw http =>
    cases hstep
    exact h.save hrun http
  | check owner =>
    cases hstep
    unfold World.check
    split
    · exact h.append
    · rename_i session hsession
      obtain ⟨raw, hvalid⟩ := h.cookies_ok hsession
      exact h.append.wait (.checking hvalid.append)
  | remove owner =>
    cases hstep
    exact h.append.remove owner
  | collect source =>
    cases hstep
    exact h.collect hrun source
  | resume i http nonce =>
    obtain ⟨t, ht, rfl⟩ := Option.map_eq_some_iff.1 hstep
    exact (h.append.take i).resume hA (h.tasks t (List.mem_of_getElem? ht)).append http nonce
  | drop i =>
    cases hstep
    exact h.append.take i
  | subscribe sources owners =>
    cases hstep
    exact ⟨h.append.sent, h.append.tasks, h.append.sessions, h.collected⟩

/-- Nothing has been done yet. -/
structure Fresh (w : World) : Prop where
  sessions : w.sessions = ∅
  tasks : w.tasks = []
  sent : w.sent = []
  collected : w.collected = []

theorem Fresh.inv (h : w.Fresh) : Inv S w [] w where
  sent e he := by rw [h.sent] at he; cases he
  tasks t ht := by rw [h.tasks] at ht; cases ht
  sessions owner encrypted hs := by
    rw [h.sessions] at hs
    cases hs
  collected c hc := by rw [h.collected] at hc; cases hc

/-- Whatever accounts, workers and the site do, and in whatever order: a request goes to `www.zhihu.com` with a session that
its own account pasted; it collects a source only where that account alone subscribed to it; the store keeps no session that
the site did not take; and what is collected are whole free articles. -/
theorem sessions_confined (hA : S.aead.Correct) (h₀ : w₀.Fresh) (hrun : run (World.step S) w₀ labels = some w) :
    (∀ e ∈ w.sent, Sanctioned S w₀ labels e) ∧
      (∀ owner encrypted, w.sessions.lookup owner = some encrypted → ∃ raw cookies,
        CredentialCipher.decrypt S.aead owner encrypted = some raw ∧ Validated S w₀ labels owner raw cookies) ∧
      ∀ c ∈ w.collected, Sound S c.1 c.2 := by
  have h := run_inv_past (fun past w => run (World.step S) w₀ past = some w ∧ Inv S w₀ past w)
    (fun past w l w' hpast hstep => ⟨run_append.2 ⟨w, hpast.1, run_cons.2 ⟨w', hstep, rfl⟩⟩, hpast.2.step hA hpast.1 hstep⟩)
    ⟨rfl, h₀.inv⟩ hrun
  exact ⟨h.2.sent, h.2.sessions, h.2.collected⟩

end

end World

/-! An account pastes a session, and a worker collects its source. -/

namespace Sample
open World

/-- A cipher that only names the account. -/
def aead : Aead where
  sealInPlace _ aad body := some (aad ++ body)
  openInPlace _ aad body := if aad.isPrefixOf body then some (body.drop aad.length) else none

theorem aead_correct : aead.Correct := by
  intro nonce aad body sealed h
  cases h
  simp [aead, List.isPrefixOf_iff_prefix]

def service : Service where
  platform := platform
  aead := aead
  pages := 5

def source : Source where
  id := ⟨7⟩
  url := url
  maxPages := some 5
  revision := 0

def start : World where
  sessions := ∅
  sources := [source]
  owners _ := [⟨1⟩]
  queue := []
  tasks := []
  sent := []
  collected := []

def me : Http := fun _ _ => some { status := 200, sameUrl := true, body := bytes meText }

/-- The pages follow the request for the account. -/
def pages : Http := fun sent request => http sent.tail request

def nonce : Vector UInt8 12 := Vector.replicate 12 0

def labels : List Label :=
  [.save ⟨1⟩ "z_c0=A".toList me, .resume 0 me nonce, .collect source, .resume 0 me nonce, .resume 0 pages nonce]

theorem sessions_confined_collected : ∃ w, Lib.run (step service) start labels = some w ∧
    w.sent.length = 3 ∧ w.collected.map (fun c => c.2.length) = [2] ∧ ∃ e ∈ w.sent, Sanctioned service start labels e := by
  have hsome : (Lib.run (step service) start labels).isSome = true := by decide +kernel
  obtain ⟨w, hw⟩ := Option.isSome_iff_exists.1 hsome
  have hcount : (Lib.run (step service) start labels).map (fun w => (w.sent.length, w.collected.map fun c => c.2.length)) =
      some (3, [2]) := by decide +kernel
  rw [hw] at hcount
  have hcount := Prod.mk.inj (Option.some.inj hcount)
  obtain ⟨hsent, -, -⟩ := sessions_confined aead_correct ⟨rfl, rfl, rfl, rfl⟩ hw
  have hpos : 0 < w.sent.length := by rw [hcount.1]; decide
  exact ⟨w, hw, hcount.1, hcount.2, w.sent[0], List.getElem_mem hpos, hsent _ (List.getElem_mem hpos)⟩

end Sample

end Inoreader.Zhihu
