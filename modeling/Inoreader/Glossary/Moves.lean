import Inoreader.Glossary.Store
import Inoreader.Lib.Lists
import Inoreader.Lib.Run

/-!
# What the transactions of the glossary do to its posts

Every transaction is a sequence of applied observations and of writes to other tables. `Applied` says what one
observation does to the rows; the invariants of the posts are proved from it.
-/

namespace Inoreader
open Lib

namespace Observation
variable (o : Observation)

/-- The row of the post after the observation. -/
def result (receipt : Nat) : PostRow :=
  match o.stored with
  | none => o.post.row o.version receipt o.kind none
  | some row =>
    match row.decide o.version o.kind o.post with
    | .unchanged => row
    | .refreshed => { row with editedAt := o.post.editedAt, kind := o.kind, receipt := receipt, source := o.post.raw }
    | .marked => { row with conflicted := true }
    | .stored => o.post.row o.version receipt o.kind (some row)

/-- The observation is new or replaces the stored one. -/
def Replaces : Prop := ∀ row, o.stored = some row → row.decide o.version o.kind o.post = .stored

/-- The post was read by the parser of its version, from a message of the bot or an archive record. -/
def Genuine (P : GlossaryPlatform) (parsers : ParserFamily) : Prop :=
  match o.kind with
  | .bot => ∃ value channelId, ObservedPost.telegram P (parsers.parser o.version) value channelId = .ok o.post
  | _ => ∃ raw, ObservedPost.archive P (parsers.parser o.version) raw = .ok o.post

end Observation

/-- The observation `o` is applied. -/
structure GlossaryDb.Applied (db db' : GlossaryDb) (o : Observation) : Prop where
  stored : o.stored = db.posts.lookup o.key
  observed : db'.observed = o :: db.observed
  posts : ∃ receipt, ∀ k, db'.posts.lookup k = if k = o.key then some (o.result receipt) else db.posts.lookup k
  /-- The definitions of the post are replaced with it. -/
  replaced : o.Replaces → db'.definitionsOf o.key = o.post.projection.definitions
  kept : ∀ k, k ≠ o.key ∨ ¬ o.Replaces → db'.definitionsOf k = db.definitionsOf k

/-- A part of a transaction. -/
inductive GlossaryDb.Move (P : GlossaryPlatform) (parsers : ParserFamily) (db db' : GlossaryDb) : Prop
  | applied {o : Observation} (genuine : o.Genuine P parsers) (h : db.Applied db' o)
  | aside (posts : db'.posts = db.posts) (definitions : db'.definitions = db.definitions)
      (observed : db'.observed = db.observed)

section
variable {P : GlossaryPlatform} {parsers : ParserFamily} {db db' : GlossaryDb} {key : PostKey}

theorem insertDefinitions_ok {definitions : List Definition} {u : Unit}
    (h : Tx.loop (fun _ d => insertDefinition key d) () definitions db = .ok (u, db')) :
    db' = { db with definitions := db.definitions ++ definitions.map fun d => (key, d) } := by
  induction definitions generalizing db with
  | nil =>
    cases h
    simp
  | cons d definitions ih =>
    obtain ⟨_, db₁, hinsert, h⟩ := Tx.bind_ok.1 h
    have hinsert : insertDefinition key d db = .ok ((), db₁) := hinsert
    unfold insertDefinition at hinsert
    simp only [Tx.bind_run, Tx.get_run] at hinsert
    obtain ⟨-, hinsert⟩ := Tx.bind_require_ok.1 hinsert
    cases hinsert
    rw [ih h]
    simp

theorem definitionsOf_replaced (db : GlossaryDb) (key k : PostKey) (definitions : List Definition) :
    GlossaryDb.definitionsOf { db with definitions :=
      (db.definitions.filter fun d => d.1 ≠ key) ++ definitions.map fun d => (key, d) } k =
        if k = key then definitions else db.definitionsOf k :=
  rows_replaced db.definitions key k definitions

theorem storePost_ok {row : PostRow} {u : Unit} (h : storePost key row db = .ok (u, db')) :
    db'.observed = db.observed ∧ db'.posts = db.posts.insert key row ∧
      ∀ k, db'.definitionsOf k = if k = key then row.document.definitions else db.definitionsOf k := by
  unfold storePost at h
  simp only [Tx.bind_run, Tx.modify_run] at h
  obtain ⟨_, db₁, hloop, h⟩ := Tx.bind_ok.1 h
  cases h
  rw [insertDefinitions_ok hloop]
  exact ⟨rfl, rfl, fun k => definitionsOf_replaced db key k row.document.definitions⟩

/-- An observation that keeps the document. -/
theorem GlossaryDb.Applied.of_row {o : Observation} {row : PostRow} (receipt : Nat) (hrow : o.stored = some row)
    (hstored : o.stored = db.posts.lookup o.key) (hdecide : row.decide o.version o.kind o.post ≠ .stored)
    (hobserved : db'.observed = o :: db.observed) (hdefinitions : db'.definitions = db.definitions)
    (hposts : db'.posts = db.posts.insert o.key (o.result receipt)) : db.Applied db' o where
  stored := hstored
  observed := hobserved
  posts := ⟨receipt, fun k => by rw [hposts, Table.lookup_insert_if]⟩
  replaced := fun h => absurd (h row hrow) hdecide
  kept := fun k _ => by unfold GlossaryDb.definitionsOf; rw [hdefinitions]

theorem applyPost_ok {version : String} {owner : AccountId} {workspace : WorkspaceId} {post : ObservedPost}
    {receipt : Nat} {kind : PostKind} {u : Unit} (h : applyPost version owner workspace post receipt kind db = .ok (u, db')) :
    ∃ o : Observation, o.kind = kind ∧ o.post = post ∧ o.version = version ∧
      o.key = { owner, workspace, message := post.id } ∧ db.Applied db' o := by
  unfold applyPost at h
  simp only [Tx.bind_run, Tx.get_run, Tx.modify_run] at h
  generalize hkey : ({ owner, workspace, message := post.id } : PostKey) = key at h
  refine ⟨⟨key, kind, post, version, db.posts.lookup key⟩, rfl, rfl, rfl, hkey ▸ rfl, ?_⟩
  cases hold : db.posts.lookup key with
  | none =>
    rw [hold] at h
    obtain ⟨hobserved, hposts, hdefinitions⟩ := storePost_ok h
    refine ⟨hold.symm, hobserved, ⟨receipt, fun k => ?_⟩, fun _ => ?_, fun k hk => ?_⟩
    · rw [hposts, Table.lookup_insert_if]
      rfl
    · rw [hdefinitions, if_pos rfl]
      rfl
    · rcases hk with hk | hk
      · rw [hdefinitions, if_neg hk]
        rfl
      · exact absurd (fun row hrow => by cases hrow) hk
  | some row =>
    rw [hold] at h
    simp only at h
    cases hdecide : row.decide version kind post with
    | unchanged =>
      rw [hdecide] at h
      cases h
      refine ⟨hold.symm, rfl, ⟨receipt, fun k => ?_⟩, fun hreplaces => ?_, fun k _ => rfl⟩
      · simp only [Observation.result, hdecide]
        split
        · rename_i hk
          rw [hk]
          exact hold
        · rfl
      · have := hreplaces row rfl
        rw [hdecide] at this
        cases this
    | refreshed =>
      rw [hdecide] at h
      cases h
      refine .of_row receipt rfl hold.symm (by rw [hdecide]; intro h; cases h) rfl rfl ?_
      simp only [Observation.result, hdecide]
      rfl
    | marked =>
      rw [hdecide] at h
      cases h
      refine .of_row receipt rfl hold.symm (by rw [hdecide]; intro h; cases h) rfl rfl ?_
      simp only [Observation.result, hdecide]
      rfl
    | stored =>
      rw [hdecide] at h
      obtain ⟨hobserved, hposts, hdefinitions⟩ := storePost_ok h
      refine ⟨hold.symm, hobserved, ⟨receipt, fun k => ?_⟩, fun _ => ?_, fun k hk => ?_⟩
      · rw [hposts, Table.lookup_insert_if]
        simp only [Observation.result, hdecide]
        rfl
      · rw [hdefinitions, if_pos rfl]
        rfl
      · rcases hk with hk | hk
        · rw [hdefinitions, if_neg hk]
          rfl
        · refine absurd (fun row' hrow' => ?_) hk
          cases hrow'
          exact hdecide

/-! ## Transactions -/

theorem moves_aside {g : GlossaryDb → GlossaryDb} (hposts : ∀ db, (g db).posts = db.posts)
    (hdefinitions : ∀ db, (g db).definitions = db.definitions) (hobserved : ∀ db, (g db).observed = db.observed) :
    Tx.Moves (GlossaryDb.Move P parsers) (Tx.modify g : GlossaryTx Unit) :=
  Tx.moves_modify fun db => .aside (hposts db) (hdefinitions db) (hobserved db)

theorem moves_applyPost {version : String} {owner : AccountId} {workspace : WorkspaceId} {post : ObservedPost}
    {receipt : Nat} {kind : PostKind} (hgenuine : ∀ o : Observation, o.kind = kind → o.post = post → o.version = version →
      o.Genuine P parsers) :
    Tx.Moves (GlossaryDb.Move P parsers) (applyPost version owner workspace post receipt kind) := by
  intro db u db' h
  obtain ⟨o, hkind, hpost, hversion, -, happlied⟩ := applyPost_ok h
  exact .single (.applied (hgenuine o hkind hpost hversion) happlied)

/-- An archived post, or one of a public page. -/
theorem genuine_archive {parser : GlossaryParser} {raw : String} {post : ObservedPost} {kind : PostKind} {version : String}
    (hparser : parsers.parser version = parser) (hkind : kind ≠ .bot) (h : ObservedPost.archive P parser raw = .ok post)
    (o : Observation) (hk : o.kind = kind) (hp : o.post = post) (hv : o.version = version) : o.Genuine P parsers := by
  unfold Observation.Genuine
  rw [hk, hp, hv, hparser]
  cases kind with
  | bot => exact absurd rfl hkind
  | _ => exact ⟨raw, h⟩

theorem genuine_telegram {parser : GlossaryParser} {value : Json} {channelId : Int} {post : ObservedPost} {version : String}
    (hparser : parsers.parser version = parser) (h : ObservedPost.telegram P parser value channelId = .ok post)
    (o : Observation) (hk : o.kind = .bot) (hp : o.post = post) (hv : o.version = version) : o.Genuine P parsers := by
  unfold Observation.Genuine
  rw [hk, hp, hv, hparser]
  exact ⟨value, channelId, h⟩

theorem moves_addReceipt (id : Nat) (owner : AccountId) (workspace : WorkspaceId) (kind k raw : String) :
    Tx.Moves (GlossaryDb.Move P parsers) (addReceipt id owner workspace kind k raw) :=
  moves_aside (fun _ => rfl) (fun _ => rfl) fun _ => rfl

theorem moves_importPost {version : String} {owner : AccountId} {workspace : WorkspaceId} {raw : String} {post : ObservedPost} {receipt : Nat}
    (hpost : ObservedPost.archive P (parsers.parser version) raw = .ok post) :
    Tx.Moves (GlossaryDb.Move P parsers) (importPost version owner workspace post receipt) := by
  have happly : ∀ r, Tx.Moves (GlossaryDb.Move P parsers) (applyPost version owner workspace post r .archive) :=
    fun r => moves_applyPost (genuine_archive rfl nofun hpost)
  unfold importPost ownedGlossary
  refine Tx.moves_bind (Tx.moves_of_keeps (Tx.keeps_bind Tx.keeps_get fun _ => Tx.keeps_require _ _)) fun _ => ?_
  refine Tx.moves_bind (Tx.moves_of_keeps Tx.keeps_get) fun db => ?_
  refine Tx.moves_bind (Tx.moves_of_keeps (Tx.keeps_require _ _)) fun _ => ?_
  split
  · split
    · exact Tx.moves_bind (happly _) fun _ => Tx.moves_of_keeps (Tx.keeps_pure _)
    · refine Tx.moves_bind (moves_addReceipt _ _ _ _ _ _) fun _ => ?_
      refine Tx.moves_bind (moves_aside (fun _ => rfl) (fun _ => rfl) fun _ => rfl) fun _ => ?_
      exact Tx.moves_of_keeps (Tx.keeps_pure _)
  · refine Tx.moves_bind (moves_addReceipt _ _ _ _ _ _) fun _ => ?_
    exact Tx.moves_bind (happly _) fun _ => Tx.moves_of_keeps (Tx.keeps_pure _)

theorem moves_projectEvent (version : String) (owner : AccountId) (workspace : WorkspaceId) (channelId : Int)
    (event : Int × EventRow) :
    Tx.Moves (GlossaryDb.Move P parsers) (projectEvent P (parsers.parser version) owner workspace channelId event) := by
  have hfinish : ∀ error, Tx.Moves (GlossaryDb.Move P parsers) (finishEvent (owner, workspace, event.1) error) :=
    fun error => moves_aside (fun _ => rfl) (fun _ => rfl) fun _ => rfl
  unfold projectEvent
  refine Tx.moves_bind (Tx.moves_of_keeps (Tx.keeps_orThrow _ _)) fun value => ?_
  cases hcontent : eventContent P (parsers.parser version) channelId value with
  | post post =>
    refine Tx.moves_bind (moves_applyPost ?_) fun _ => hfinish none
    unfold eventContent at hcontent
    split at hcontent
    · split at hcontent
      · cases hcontent
      · split at hcontent
        · rename_i message _ _ p htelegram
          cases hcontent
          exact genuine_telegram rfl htelegram
        · cases hcontent
    · split at hcontent <;> cases hcontent
  | ignored => exact hfinish none
  | failed e => exact hfinish (some e.text)

theorem moves_projectEvents (version : String) (owner : AccountId) (workspace : WorkspaceId) (batchSize : Nat) :
    Tx.Moves (GlossaryDb.Move P parsers) (projectEvents P (parsers.parser version) owner workspace batchSize) := by
  unfold projectEvents
  refine Tx.moves_bind (Tx.moves_of_keeps Tx.keeps_get) fun db => ?_
  refine Tx.moves_bind (Tx.moves_of_keeps (Tx.keeps_orThrow _ _)) fun channel => ?_
  refine Tx.moves_bind (Tx.moves_of_keeps (Tx.keeps_orThrow _ _)) fun channelId => ?_
  refine Tx.moves_bind (Tx.moves_of_keeps (Tx.keeps_require _ _)) fun _ => ?_
  exact Tx.moves_loop (fun _ event _ => moves_projectEvent version owner workspace channelId event) ()

/-- A stored source is read by the parser of its kind. -/
theorem genuine_reparsed {version : String} {row : PostRow} {binding : Option Int} {post : ObservedPost}
    (h : row.reparsed P (parsers.parser version) binding = .ok post) (o : Observation) (hk : o.kind = row.kind)
    (hp : o.post = post) (hv : o.version = version) : o.Genuine P parsers := by
  unfold PostRow.reparsed at h
  split at h
  · rename_i hbot
    split at h
    · cases h
    · cases h
    · exact genuine_telegram rfl h o (hk.trans hbot) hp hv
  · rename_i hother
    exact genuine_archive rfl hother h o hk hp hv

theorem moves_reindexBatch (version : String) (owner : AccountId) (workspace : WorkspaceId) (cursor : Int) (batchSize : Nat) :
    Tx.Moves (GlossaryDb.Move P parsers) (reindexBatch P (parsers.parser version) owner workspace cursor batchSize) := by
  unfold reindexBatch
  refine Tx.moves_bind (Tx.moves_of_keeps Tx.keeps_get) fun db => ?_
  refine Tx.moves_bind (Tx.moves_of_keeps (Tx.keeps_orThrow _ _)) fun channel => ?_
  split
  · exact moves_aside (fun _ => rfl) (fun _ => rfl) fun _ => rfl
  · refine Tx.moves_loop (fun _ entry _ => ?_) ()
    unfold reindexPost
    split
    · exact Tx.moves_of_keeps (Tx.keeps_throw _)
    · rename_i post hpost
      refine Tx.moves_bind (Tx.moves_of_keeps (Tx.keeps_require _ _)) fun _ => ?_
      exact moves_applyPost (genuine_reparsed hpost)

theorem posts_archive {parser : GlossaryParser} {before : Option Int} {nodes : List PageNode} {seen : List Int}
    {posts : List ObservedPost} (h : PageNode.posts P parser before nodes seen = .ok posts) (post : ObservedPost)
    (hpost : post ∈ posts) : ∃ raw, ObservedPost.archive P parser raw = .ok post := by
  induction nodes generalizing seen posts with
  | nil =>
    cases h
    cases hpost
  | cons n nodes ih =>
    unfold PageNode.posts at h
    split at h
    · cases h
    · split at h
      · cases h
      · split at h
        · exact ih h hpost
        · split at h
          · cases h
          · split at h
            · cases h
            · rename_i p harchive
              cases hrest : PageNode.posts P parser before nodes (_ :: seen) with
              | error e =>
                rw [hrest] at h
                cases h
              | ok rest =>
                rw [hrest] at h
                cases h
                rcases List.mem_cons.1 hpost with rfl | hpost
                · exact ⟨_, harchive⟩
                · exact ih hrest hpost

theorem parsePublicPage_archive {parser : GlossaryParser} {raw : String} {nodes : List PageNode} {before : Option Int}
    {page : PublicPage} (h : parsePublicPage P parser raw nodes before = .ok page) (post : ObservedPost)
    (hpost : post ∈ page.posts) : ∃ raw, ObservedPost.archive P parser raw = .ok post := by
  unfold parsePublicPage at h
  split at h
  · cases h
  · cases h
  · rename_i hposts
    cases h
    exact posts_archive hposts post hpost

theorem moves_persistPage {version : String} {claim : HistoryClaim} {page : PublicPage} {delay receipt : Nat} {now : DateTime}
    (hpage : ∀ post ∈ page.posts, ∃ raw, ObservedPost.archive P (parsers.parser version) raw = .ok post) :
    Tx.Moves (GlossaryDb.Move P parsers) (persistPage version claim page delay receipt now) := by
  unfold persistPage
  refine Tx.moves_bind (Tx.moves_of_keeps (Tx.keeps_require _ _)) fun _ => ?_
  refine Tx.moves_bind (Tx.moves_of_keeps Tx.keeps_get) fun db => ?_
  refine Tx.moves_bind (Tx.moves_of_keeps (Tx.keeps_orThrow _ _)) fun channel => ?_
  refine Tx.moves_bind (Tx.moves_of_keeps (Tx.keeps_require _ _)) fun _ => ?_
  refine Tx.moves_bind (moves_addReceipt _ _ _ _ _ _) fun _ => ?_
  refine Tx.moves_bind (Tx.moves_loop (fun _ post hpost => ?_) ()) fun _ =>
    moves_aside (fun _ => rfl) (fun _ => rfl) fun _ => rfl
  obtain ⟨raw, harchive⟩ := hpage post hpost
  exact moves_applyPost (genuine_archive rfl nofun harchive)

theorem moves_persistBatch (claim : PollClaim) (batch : UpdateBatch) (receipt : Nat) (now : DateTime) :
    Tx.Moves (GlossaryDb.Move P parsers) (persistBatch claim batch receipt now) := by
  unfold persistBatch
  refine Tx.moves_bind (Tx.moves_of_keeps Tx.keeps_get) fun db => ?_
  refine Tx.moves_bind (Tx.moves_of_keeps (Tx.keeps_orThrow _ _)) fun channel => ?_
  refine Tx.moves_bind (Tx.moves_of_keeps (Tx.keeps_require _ _)) fun _ => ?_
  split
  · exact Tx.moves_of_keeps (Tx.keeps_pure _)
  · refine Tx.moves_bind (Tx.moves_of_keeps (Tx.keeps_orThrow _ _)) fun offset => ?_
    refine Tx.moves_bind (moves_addReceipt _ _ _ _ _ _) fun _ => ?_
    refine Tx.moves_bind (Tx.moves_loop (fun _ event _ => ?_) ()) fun _ =>
      moves_aside (fun _ => rfl) (fun _ => rfl) fun _ => rfl
    unfold saveEvent
    refine Tx.moves_bind (Tx.moves_of_keeps Tx.keeps_get) fun db => ?_
    split
    · exact Tx.moves_onlyIf (moves_aside (fun _ => rfl) (fun _ => rfl) fun _ => rfl)
    · exact moves_aside (fun _ => rfl) (fun _ => rfl) fun _ => rfl

end

/-! ## Runs -/

structure GlossaryWorld where
  db : GlossaryDb
  /-- `PARSER_VERSION` of the running build. -/
  version : String

inductive GlossaryLabel
  | upgrade (version : String)
  | importPost (owner : AccountId) (workspace : WorkspaceId) (raw : String) (receipt : Nat)
  | page (claim : HistoryClaim) (raw : String) (nodes : List PageNode) (delay receipt : Nat) (now : DateTime)
  | batch (claim : PollClaim) (batch : UpdateBatch) (receipt : Nat) (now : DateTime)
  | project (owner : AccountId) (workspace : WorkspaceId) (batchSize : Nat)
  | reindex (owner : AccountId) (workspace : WorkspaceId) (cursor : Int) (batchSize : Nat)
  /-- Any change of the other tables. -/
  | elsewhere (db : GlossaryDb)

namespace GlossaryWorld

def commits {α : Type} (w : GlossaryWorld) (m : GlossaryTx α) : GlossaryWorld := { w with db := m.commit w.db }

/-- One transaction; a text that does not parse is not applied. -/
def step (P : GlossaryPlatform) (parsers : ParserFamily) (w : GlossaryWorld) : GlossaryLabel → Option GlossaryWorld
  | .upgrade version => some { w with version }
  | .importPost owner workspace raw receipt =>
    match ObservedPost.archive P (parsers.parser w.version) raw with
    | .ok post => some (w.commits (Inoreader.importPost w.version owner workspace post receipt))
    | .error _ => some w
  | .page claim raw nodes delay receipt now =>
    match parsePublicPage P (parsers.parser w.version) raw nodes claim.before with
    | .ok page => some (w.commits (persistPage w.version claim page delay receipt now))
    | .error _ => some w
  | .batch claim batch receipt now => some (w.commits (persistBatch claim batch receipt now))
  | .project owner workspace batchSize =>
    some (w.commits (projectEvents P (parsers.parser w.version) owner workspace batchSize))
  | .reindex owner workspace cursor batchSize =>
    some (w.commits (reindexBatch P (parsers.parser w.version) owner workspace cursor batchSize))
  | .elsewhere db =>
    some { w with db := { db with
      posts := w.db.posts, definitions := w.db.definitions, observed := w.db.observed } }

variable {P : GlossaryPlatform} {parsers : ParserFamily} {w w' : GlossaryWorld} {a : GlossaryLabel}

theorem step_moves (h : step P parsers w a = some w') :
    Relation.ReflTransGen (GlossaryDb.Move P parsers) w.db w'.db := by
  cases a with
  | upgrade version =>
    cases h
    exact .refl
  | importPost owner workspace raw receipt =>
    unfold step at h
    simp only at h
    split at h
    · rename_i post hpost
      cases h
      exact (moves_importPost hpost).commit w.db
    · cases h
      exact .refl
  | page claim raw nodes delay receipt now =>
    unfold step at h
    simp only at h
    split at h
    · rename_i page hpage
      cases h
      exact (moves_persistPage (parsePublicPage_archive hpage)).commit w.db
    · cases h
      exact .refl
  | batch claim batch receipt now =>
    cases h
    exact (moves_persistBatch claim batch receipt now).commit w.db
  | project owner workspace batchSize =>
    cases h
    exact (moves_projectEvents w.version owner workspace batchSize).commit w.db
  | reindex owner workspace cursor batchSize =>
    cases h
    exact (moves_reindexBatch w.version owner workspace cursor batchSize).commit w.db
  | elsewhere db =>
    cases h
    exact .single (.aside rfl rfl rfl)

theorem run_moves {as : List GlossaryLabel} (hrun : run (step P parsers) w as = some w') :
    Relation.ReflTransGen (GlossaryDb.Move P parsers) w.db w'.db := by
  induction as generalizing w with
  | nil =>
    cases hrun
    exact .refl
  | cons a as ih =>
    obtain ⟨w₁, hstep, hrun⟩ := run_cons.1 hrun
    exact (step_moves hstep).trans (ih hrun)

end GlossaryWorld

/-! ## A small channel -/

namespace Sample

def jsonString (s : String) : Json := ⟨"\"" ++ s ++ "\""⟩

def jsonNumber (n : Int) : Json := ⟨toString n⟩

def jsonObject (fields : List (String × Json)) : Json :=
  ⟨"\x7b" ++ ",".intercalate (fields.map fun f => (jsonString f.1).text ++ ":" ++ f.2.text) ++ "\x7d"⟩

def chatFields : List (String × Json) := [("id", jsonNumber (-5)), ("type", jsonString "channel")]

/-- The message `7` with an edit time. -/
def messageFields (edit : Int) (text : String) : List (String × Json) :=
  [("message_id", jsonNumber 7), ("date", jsonNumber 10), ("edit_date", jsonNumber edit),
    ("chat", jsonObject chatFields), ("text", jsonString text)]

def eventFields (edit : Int) (text : String) : List (String × Json) :=
  [("update_id", jsonNumber edit), ("edited_channel_post", jsonObject (messageFields edit text))]

/-- An archive record of the message `7`; the HTML of its element is not part of the text. -/
def recordFields (text html : String) : List (String × Json) :=
  [("id", jsonNumber 7), ("channel", jsonString channelUsername), ("permalink", jsonString (ObservedPost.permalink 7)),
    ("timestamp", ⟨"null"⟩), ("formatted_html", jsonString text), ("raw_post_html", jsonString html),
    ("provenance", jsonObject [("transport", jsonString "direct_public_preview")])]

def jsonObjects : List (List (String × Json)) :=
  [chatFields, messageFields 20 "one", messageFields 30 "one", messageFields 30 "two", eventFields 20 "one",
    eventFields 30 "one", eventFields 30 "two", recordFields "one" "a", recordFields "one" "b", recordFields "two" "b"]

def glossaryPlatform : GlossaryPlatform where
  parseJson := fun s => (jsonObjects.find? fun o => (jsonObject o).text == s).map jsonObject
  get? := fun v key => ((jsonObjects.find? fun o => jsonObject o == v).bind fun o => o.find? fun f => f.1 == key).map (·.2)
  asI64 := fun v => [-5, 7, 10, 20, 30].find? fun n => jsonNumber n == v
  asStr := fun v => ["channel", channelUsername, ObservedPost.permalink 7, "one", "two"].find? fun s => jsonString s == v
  object := jsonObject
  string := jsonString
  number := jsonNumber
  null := ⟨"null"⟩
  parseTime := fun _ => none

/-- Every version takes the text as it is. -/
def glossaryParsers : ParserFamily where
  html := fun _ text => .indexed text []
  message := fun _ value => .indexed ((glossaryPlatform.asStr (glossaryPlatform.index value "text")).getD "") []

def glossaryChannel : ChannelRow where
  binding := some (-5)
  pollCursor := none
  pollLease := none
  pollUntil := none
  historyBefore := none
  historyLease := some 1
  historyUntil := some 100
  nextHistory := 0
  lastHistory := none
  historyError := none
  importComplete := true
  revision := 0

/-- The channel with one pending event. -/
def glossaryDb (update : Int) (event : List (String × Json)) : GlossaryDb :=
  { owners := (∅ : Table WorkspaceId AccountId).insert ⟨1⟩ ⟨1⟩
    channels := (∅ : Table (AccountId × WorkspaceId) ChannelRow).insert (⟨1⟩, ⟨1⟩) glossaryChannel
    events := (∅ : Table (AccountId × WorkspaceId × Int) EventRow).insert (⟨1⟩, ⟨1⟩, update)
      { receipt := 1, document := (jsonObject event).text, applied := false, error := none, conflict := false } }

/-- An edit of the message arrives and is applied. -/
def editApplied (edit : Int) (text : String) : List GlossaryLabel :=
  [.elsewhere (glossaryDb edit (eventFields edit text)), .project ⟨1⟩ ⟨1⟩ 10]

/-- The message is seen on a public page. -/
def seenOnPage (text html : String) : List GlossaryLabel :=
  [.elsewhere (glossaryDb 0 []),
    .page ⟨⟨1⟩, ⟨1⟩, none, 1⟩ "" [{ channel := channelUsername, id := some 7, formatted := some text, date := none, html }]
      60 1 0]

def messageKey : PostKey := ⟨⟨1⟩, ⟨1⟩, 7⟩

def glossaryEnd (labels : List GlossaryLabel) : GlossaryWorld :=
  (run (GlossaryWorld.step glossaryPlatform glossaryParsers) ⟨{}, "v1"⟩ labels).getD ⟨{}, "v1"⟩

/-- The stored document, its edit time and its mark. -/
def storedPost (labels : List GlossaryLabel) : Option (PostProjection × Option Int × Bool) :=
  ((glossaryEnd labels).db.posts.lookup messageKey).map fun row => (row.document, row.editedAt, row.conflicted)

end Sample
end Inoreader
