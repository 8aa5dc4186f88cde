import Inoreader.Application.Service
import Inoreader.Engine.Poll
import Inoreader.Lib.Except
import Inoreader.Lib.Lists
import Inoreader.Lib.Xml
import Inoreader.Repository.Presentation

/-!
# OPML (`reader-server/src/opml.rs`, `imports.rs`)

A workspace is written as a list of outlines and outlines are read as subscriptions. The parsers of XML and of URLs are
inputs; of the parser it matters which elements a document has, in their order. The preview before an import and its
warnings are left out.
-/

namespace Inoreader
open Lib

/-- `roxmltree::Document::parse` with the elements of the tree, and `Url::parse`. -/
structure OpmlPlatform where
  parseXml : String → Option (List Xml.Element)
  parseUrl : String → Option Url

inductive OpmlError
  | declarationsForbidden
  | invalidDocument
  | invalidRoot
  | invalidUrl
  | unsupportedUrlScheme
  | invalidTitle
deriving DecidableEq, Repr

/-- `document.contains("<!DOCTYPE") || document.contains("<!ENTITY")` -/
def declares (document : String) : Bool :=
  decide ("<!DOCTYPE".toList <:+: document.toList) || decide ("<!ENTITY".toList <:+: document.toList)

section
variable (W : OpmlPlatform)

/-- The body of the loop, for an outline with the attribute `xmlUrl`. -/
def outline (node : Xml.Element) (raw : List Char) : Except OpmlError (Url × String) :=
  match W.parseUrl (String.ofList raw) with
  | none => .error .invalidUrl
  | some url =>
    if url.scheme ≠ "http" ∧ url.scheme ≠ "https" then .error .unsupportedUrlScheme
    else
      let title := String.ofList (((node.attribute "text").or (node.attribute "title")).getD raw)
      if title = "" ∨ isTrimmed title = false ∨ 256 < title.utf8ByteSize then .error .invalidTitle
      else .ok (url, title)

/-- `outlines` -/
def outlines (document : String) : Except OpmlError (List (Url × String)) :=
  if declares document then .error .declarationsForbidden
  else
    match W.parseXml document with
    | none => .error .invalidDocument
    | some elements =>
      if (elements.head?.map (·.name)) ≠ some "opml".toList then .error .invalidRoot
      else
        let nodes := elements.filter fun e => e.name = "outline".toList
        (nodes.filterMap fun e => (e.attribute "xmlUrl").map fun raw => (e, raw)).mapM fun n => outline W n.1 n.2

end

/-! ## Export -/

def opmlHead : List Char :=
  "<opml version=\"2.0\"><head><title>Subscriptions</title></head><body>".toList

def opmlOpen : List Char := "<outline type=\"rss\" text=\"".toList

def opmlNext : List Char := "\" xmlUrl=\"".toList

def opmlClose : List Char := "\"/>".toList

def opmlOutline (value : Subscription) : List Char :=
  opmlOpen ++ (Xml.escape value.title.toList ++
    (opmlNext ++ (Xml.escape value.sourceUrl.text.toList ++ opmlClose)))

def opmlFoot : List Char := "</body></opml>".toList

/-- `export_opml` of the subscriptions of a workspace. -/
def exportOpml (subscriptions : List Subscription) : String :=
  String.ofList (Xml.declaration ++ (opmlHead ++ (subscriptions.flatMap opmlOutline ++ opmlFoot)))

/-! ## Import -/

/-- `Subscription::new` -/
def Subscription.new (id : SubscriptionId) (workspace : WorkspaceId) (sourceUrl : Url) (title : String) :
    Subscription where
  id := id
  workspaceId := workspace
  sourceUrl := sourceUrl
  sourceTitle := title
  status := .active
  revision := 0
  history := []

/-- The outlines that are not duplicates, of each other or of existing subscriptions. -/
def newOutlines (existing : List Subscription) (seen : List String) : List (Url × String) → List (Url × String)
  | [] => []
  | (url, title) :: rest =>
    if url.text ∈ seen ∨ (existing.any fun v => v.sourceUrl = url) then newOutlines existing (url.text :: seen) rest
    else (url, title) :: newOutlines existing (url.text :: seen) rest

/-- `import_opml` that is applied: the subscriptions it adds, with ids that are drawn. -/
def importOpml (W : OpmlPlatform) (workspace : WorkspaceId) (ids : Nat → SubscriptionId) (existing : List Subscription)
    (document : String) : Except OpmlError (List Subscription) :=
  (outlines W document).map fun values =>
    (newOutlines existing [] values).mapIdx fun i v => Subscription.new (ids i) workspace v.1 v.2

/-! ## What is relied on -/

/-- The parsers are those of XML 1.0, and of URLs whose text is printed in ASCII and read again as the same URL. -/
structure OpmlPlatform.Lawful (W : OpmlPlatform) : Prop where
  xml_reads : ∀ document elements, Xml.read document.toList = some elements → W.parseXml document = some elements
  xml_chars : ∀ document elements, W.parseXml document = some elements → document.toList.all Xml.isChar = true
  url_text : ∀ text u, W.parseUrl text = some u → W.parseUrl u.text = some u
  url_ascii : ∀ text u, W.parseUrl text = some u → ∀ c ∈ u.text.toList, 0x21 ≤ c.toNat ∧ c.toNat ≤ 0x7e

/-- What a subscription of a workspace is known to be: its name is valid, its URL was parsed and is one of HTTP. -/
structure Subscription.Named (W : OpmlPlatform) (s : Subscription) : Prop where
  name : validName s.title = true
  parsed : ∃ text, W.parseUrl text = some s.sourceUrl
  scheme : s.sourceUrl.scheme = "http" ∨ s.sourceUrl.scheme = "https"

def outlineOf (s : Subscription) : Url × String := (s.sourceUrl, s.title)

/-- The subscriptions to feeds, of those whose sources have the given kinds: the pages of a web feed are collected. -/
def feeds (kindOf : Subscription → SourceKind) (subscriptions : List Subscription) : List Subscription :=
  subscriptions.filter fun s => !(kindOf s).isCollected

/-- Export and import are inverse for a workspace: the outlines are those of its feeds, an empty workspace gets them,
and the same workspace gets nothing. -/
structure OpmlInverse (W : OpmlPlatform) (kindOf : Subscription → SourceKind) (workspace : WorkspaceId)
    (ids : Nat → SubscriptionId) (subscriptions : List Subscription) : Prop where
  outlines : outlines W (exportOpml subscriptions) = .ok ((feeds kindOf subscriptions).map outlineOf)
  recreated : (importOpml W workspace ids [] (exportOpml subscriptions)).map (·.map outlineOf) =
    .ok ((feeds kindOf subscriptions).map outlineOf)
  unchanged : importOpml W workspace ids subscriptions (exportOpml subscriptions) = .ok []

/-! ## The document is read -/

/-- The element of a subscription as a reader sees it. -/
def outlineElement (s : Subscription) : Xml.Element where
  name := "outline".toList
  attributes := [("type".toList, "rss".toList), ("text".toList, Xml.normalize false s.title.toList),
    ("xmlUrl".toList, Xml.normalize false s.sourceUrl.text.toList)]

def headElements : List Xml.Element :=
  [⟨"opml".toList, [("version".toList, "2.0".toList)]⟩, ⟨"head".toList, []⟩, ⟨"title".toList, []⟩, ⟨"body".toList, []⟩]

def inBody (elements : List Xml.Element) : Xml.State where
  stack := ["body".toList, "opml".toList]
  elements := elements
  mode := .content

theorem run_head : Xml.State.run {} opmlHead = some (inBody headElements) := by
  decide +kernel

theorem run_outline (elements : List Xml.Element) (s : Subscription) :
    (inBody elements).run (opmlOutline s) = some (inBody (elements ++ [outlineElement s])) := by
  let opened : Xml.Element := ⟨"outline".toList, [("type".toList, "rss".toList)]⟩
  let titled : Xml.Element := { opened with
    attributes := opened.attributes ++ [("text".toList, Xml.normalize false s.title.toList)] }
  have hopen : (inBody elements).run opmlOpen =
      some ((inBody elements).atValue opened "text".toList [] false) := rfl
  obtain ⟨r, htitle⟩ := Xml.run_escape (inBody elements) opened "text".toList s.title.toList [] false
  have hnext : ((inBody elements).atValue opened "text".toList (Xml.normalize false s.title.toList) r).run
      opmlNext = some ((inBody elements).atValue titled "xmlUrl".toList [] false) := rfl
  obtain ⟨r', hurl⟩ := Xml.run_escape (inBody elements) titled "xmlUrl".toList s.sourceUrl.text.toList [] false
  have hclose : ((inBody elements).atValue titled "xmlUrl".toList (Xml.normalize false s.sourceUrl.text.toList) r').run
      opmlClose = some (inBody (elements ++ [outlineElement s])) := rfl
  rw [List.nil_append] at htitle hurl
  unfold opmlOutline
  rw [Xml.State.run_append, hopen, Option.bind_some, Xml.State.run_append, htitle, Option.bind_some,
    Xml.State.run_append, hnext, Option.bind_some, Xml.State.run_append, hurl, Option.bind_some, hclose]

theorem run_outlines (elements : List Xml.Element) (subscriptions : List Subscription) :
    (inBody elements).run (subscriptions.flatMap opmlOutline) =
      some (inBody (elements ++ subscriptions.map outlineElement)) := by
  induction subscriptions generalizing elements with
  | nil => rw [List.map_nil, List.append_nil]; rfl
  | cons s rest ih =>
    rw [List.flatMap_cons, Xml.State.run_append, run_outline, Option.bind_some, ih, List.map_cons, List.append_assoc,
      List.singleton_append]

theorem run_foot (elements : List Xml.Element) :
    (inBody elements).run opmlFoot = some { stack := [], elements := elements, mode := .content } := rfl

theorem run_export (subscriptions : List Subscription) :
    Xml.State.run {} (opmlHead ++ (subscriptions.flatMap opmlOutline ++ opmlFoot)) =
      some { stack := [], elements := headElements ++ subscriptions.map outlineElement, mode := .content } := by
  rw [Xml.State.run_append, run_head, Option.bind_some, Xml.State.run_append, run_outlines, Option.bind_some, run_foot]

theorem toList_export (subscriptions : List Subscription) : (exportOpml subscriptions).toList =
    Xml.declaration ++ (opmlHead ++ (subscriptions.flatMap opmlOutline ++ opmlFoot)) :=
  String.toList_ofList

/-- The exported document is one that the reader of XML takes, if its names have the characters of a document. -/
theorem read_export {subscriptions : List Subscription}
    (hchars : (exportOpml subscriptions).toList.all Xml.isChar = true) :
    Xml.read (exportOpml subscriptions).toList = some (headElements ++ subscriptions.map outlineElement) := by
  have hrun := run_export subscriptions
  unfold Xml.read
  rw [if_pos hchars, toList_export]
  dsimp only
  rw [if_pos (List.prefix_append ..), List.drop_left, hrun, Option.bind_some, if_pos ⟨rfl, rfl, by simp [headElements]⟩]

/-- It has no declarations that would refuse it. -/
theorem declares_export (subscriptions : List Subscription) : declares (exportOpml subscriptions) = false := by
  have hbang : Xml.hasBang (exportOpml subscriptions).toList = false := by
    rw [toList_export, Bool.eq_false_iff]
    intro h
    rcases Xml.hasBang_append h with h | h | h
    · exact absurd h (by decide)
    · have hnone := Xml.run_of_hasBang h {}
      rw [run_export] at hnone
      cases hnone
    · exact absurd h (by decide)
  have hno : ∀ pattern : String, Xml.hasBang pattern.toList = true →
      ¬ pattern.toList <:+: (exportOpml subscriptions).toList := by
    intro pattern hpattern h
    rw [Xml.hasBang_of_infix hpattern h] at hbang
    cases hbang
  unfold declares
  rw [decide_eq_false (hno "<!DOCTYPE" (by decide)), decide_eq_false (hno "<!ENTITY" (by decide))]
  rfl

/-! ## The outlines of an export -/

section
variable {W : OpmlPlatform} {kindOf : Subscription → SourceKind} {workspace : WorkspaceId} {ids : Nat → SubscriptionId}
  {s : Subscription} {subscriptions : List Subscription}

theorem Subscription.Named.parses (hW : W.Lawful) (h : s.Named W) : W.parseUrl s.sourceUrl.text = some s.sourceUrl := by
  obtain ⟨text, htext⟩ := h.parsed
  exact hW.url_text text _ htext

/-- The text of a URL is kept by the reader. -/
theorem Subscription.Named.kept (hW : W.Lawful) (h : s.Named W) :
    ∀ c ∈ s.sourceUrl.text.toList, Xml.isKept c = true := by
  intro c hc
  obtain ⟨text, htext⟩ := h.parsed
  obtain ⟨hlow, hhigh⟩ := hW.url_ascii text _ htext c hc
  have hne : ∀ d : Char, d.toNat < 0x21 → c ≠ d := by
    rintro d hd rfl
    omega
  refine Xml.isKept_iff.2 ⟨?_, hne _ (by decide), hne _ (by decide), hne _ (by decide)⟩
  have hrange : 0x20 ≤ c.toNat ∧ c.toNat ≠ 0xfffe ∧ c.toNat ≠ 0xffff := by omega
  simp [Xml.isChar, hrange]

/-- A document can have the characters of an export if it can have those of its names. -/
theorem isChar_export (hW : W.Lawful) (hnamed : ∀ s ∈ subscriptions, s.Named W) :
    (exportOpml subscriptions).toList.all Xml.isChar = true ↔
      ∀ s ∈ subscriptions, ∀ c ∈ s.title.toList, Xml.isChar c = true := by
  have hfixed : Xml.declaration.all Xml.isChar = true ∧ opmlHead.all Xml.isChar = true ∧
      opmlFoot.all Xml.isChar = true := by decide +kernel
  have houtline : ∀ s ∈ subscriptions, ((opmlOutline s).all Xml.isChar = true ↔
      ∀ c ∈ s.title.toList, Xml.isChar c = true) := by
    intro s hs
    have hurl : (Xml.escape s.sourceUrl.text.toList).all Xml.isChar = true :=
      Xml.all_isChar_escape.2 fun c hc => (Xml.isKept_iff.1 ((hnamed s hs).kept hW c hc)).1
    have hparts : opmlOpen.all Xml.isChar = true ∧ opmlNext.all Xml.isChar = true ∧
        opmlClose.all Xml.isChar = true := by decide +kernel
    simp only [opmlOutline, List.all_append, hparts, hurl, Bool.and_true, Bool.true_and, Xml.all_isChar_escape]
  rw [toList_export]
  simp only [List.all_append, hfixed, Bool.and_true, Bool.true_and, List.all_flatMap]
  rw [List.all_eq_true]
  exact forall₂_congr houtline

/-- What the reader makes of a subscription. -/
def readOutline (s : Subscription) : Url × String := (s.sourceUrl, String.ofList (Xml.normalize false s.title.toList))

theorem outline_ok (hW : W.Lawful) (h : s.Named W) {v : Url × String}
    (hv : outline W (outlineElement s) (Xml.normalize false s.sourceUrl.text.toList) = .ok v) : v = readOutline s := by
  rw [Xml.normalize_of_kept (h.kept hW)] at hv
  unfold outline at hv
  rw [String.ofList_toList, h.parses hW] at hv
  dsimp only at hv
  split_ifs at hv
  cases hv
  rfl

theorem outline_of_kept (hW : W.Lawful) (h : s.Named W) (hkept : ∀ c ∈ s.title.toList, Xml.isKept c = true) :
    outline W (outlineElement s) (Xml.normalize false s.sourceUrl.text.toList) = .ok (outlineOf s) := by
  have htitle : String.ofList ((((outlineElement s).attribute "text").or ((outlineElement s).attribute "title")).getD
      s.sourceUrl.text.toList) = s.title := by
    show String.ofList (Xml.normalize false s.title.toList) = s.title
    rw [Xml.normalize_of_kept hkept, String.ofList_toList]
  have hname := h.name
  simp only [validName, Bool.and_eq_true, bne_iff_ne, decide_eq_true_eq] at hname
  have hscheme : ¬ (s.sourceUrl.scheme ≠ "http" ∧ s.sourceUrl.scheme ≠ "https") := fun hne =>
    h.scheme.elim hne.1 hne.2
  have hvalid : ¬ (s.title = "" ∨ isTrimmed s.title = false ∨ 256 < s.title.utf8ByteSize) := by
    rintro (hempty | htrim | hlong)
    · exact hname.1.1 hempty
    · rw [hname.1.2] at htrim
      cases htrim
    · omega
  rw [Xml.normalize_of_kept (h.kept hW)]
  unfold outline
  rw [String.ofList_toList, h.parses hW]
  dsimp only
  rw [htitle, if_neg hscheme, if_neg hvalid]
  rfl

/-- The outlines of an export, one for each subscription. -/
theorem outlines_export (hW : W.Lawful) (hchars : (exportOpml subscriptions).toList.all Xml.isChar = true) :
    outlines W (exportOpml subscriptions) = subscriptions.mapM fun s =>
      outline W (outlineElement s) (Xml.normalize false s.sourceUrl.text.toList) := by
  have hread := hW.xml_reads _ _ (read_export hchars)
  have hnodes : ((headElements ++ subscriptions.map outlineElement).filter fun e => e.name = "outline".toList).filterMap
      (fun e => (e.attribute "xmlUrl").map fun raw => (e, raw)) =
      subscriptions.map fun s => (outlineElement s, Xml.normalize false s.sourceUrl.text.toList) := by
    have hhead : (headElements.filter fun e => e.name = "outline".toList) = [] := by decide
    have hname : ∀ e ∈ subscriptions.map outlineElement, decide (e.name = "outline".toList) = true := by
      intro e he
      obtain ⟨s, -, rfl⟩ := List.mem_map.1 he
      exact decide_eq_true rfl
    rw [List.filter_append, hhead, List.nil_append, List.filter_eq_self.2 hname, List.filterMap_map]
    exact congrFun (List.filterMap_eq_map
      (f := fun s => (outlineElement s, Xml.normalize false s.sourceUrl.text.toList))) subscriptions
  unfold outlines
  rw [declares_export, if_neg Bool.false_ne_true, hread]
  dsimp only
  rw [if_neg (by simp [headElements]), hnodes, List.mapM_map]
  rfl

/-! ## Duplicates -/

theorem newOutlines_sublist (existing : List Subscription) (seen : List String) (os : List (Url × String)) :
    (newOutlines existing seen os).Sublist os := by
  induction os generalizing seen with
  | nil => exact List.Sublist.refl []
  | cons o rest ih =>
    unfold newOutlines
    split_ifs
    · exact (ih _).trans (List.sublist_cons_self ..)
    · exact (ih _).cons_cons o

/-- Nothing is skipped in an empty workspace exactly if no URL occurs twice. -/
theorem newOutlines_eq_self_iff {seen : List String} {os : List (Url × String)} :
    newOutlines [] seen os = os ↔ (os.map (·.1.text)).Nodup ∧ ∀ o ∈ os, o.1.text ∉ seen := by
  induction os generalizing seen with
  | nil => simp [newOutlines]
  | cons o rest ih =>
    unfold newOutlines
    by_cases hseen : o.1.text ∈ seen
    · have hshort : newOutlines [] (o.1.text :: seen) rest ≠ o :: rest := by
        intro h
        have hlength := (newOutlines_sublist [] (o.1.text :: seen) rest).length_le
        rw [h, List.length_cons] at hlength
        omega
      rw [if_pos (.inl hseen)]
      exact ⟨fun h => absurd h hshort, fun h => absurd hseen (h.2 o List.mem_cons_self)⟩
    · rw [if_neg (by simp [hseen]), List.cons_inj_right, ih, List.map_cons, List.nodup_cons]
      constructor
      · rintro ⟨hnodup, hrest⟩
        refine ⟨⟨fun hmem => ?_, hnodup⟩, fun v hv => ?_⟩
        · obtain ⟨v, hv, htext⟩ := List.mem_map.1 hmem
          exact hrest v hv (htext ▸ List.mem_cons_self)
        · rcases List.mem_cons.1 hv with rfl | hv
          · exact hseen
          · exact fun h => hrest v hv (List.mem_cons_of_mem _ h)
      · rintro ⟨⟨hhead, hnodup⟩, hall⟩
        refine ⟨hnodup, fun v hv hmem => ?_⟩
        rcases List.mem_cons.1 hmem with htext | hmem
        · exact hhead (List.mem_map.2 ⟨v, hv, htext⟩)
        · exact hall v (List.mem_cons_of_mem _ hv) hmem

/-- Every outline of a known URL is skipped. -/
theorem newOutlines_of_known {existing : List Subscription} {seen : List String} {os : List (Url × String)}
    (h : ∀ o ∈ os, ∃ s ∈ existing, s.sourceUrl = o.1) : newOutlines existing seen os = [] := by
  induction os generalizing seen with
  | nil => rfl
  | cons o rest ih =>
    have hknown : existing.any (fun v => v.sourceUrl = o.1) = true := by
      obtain ⟨s, hs, hurl⟩ := h o List.mem_cons_self
      exact List.any_eq_true.2 ⟨s, hs, decide_eq_true hurl⟩
    unfold newOutlines
    rw [if_pos (.inr hknown)]
    exact ih fun v hv => h v (List.mem_cons_of_mem _ hv)

/-- The new subscriptions are those of their outlines. -/
theorem outlineOf_imported (os : List (Url × String)) :
    (os.mapIdx fun i v => Subscription.new (ids i) workspace v.1 v.2).map outlineOf = os := by
  refine List.ext_getElem? fun i => ?_
  rw [List.getElem?_map, List.getElem?_mapIdx]
  cases os[i]? <;> rfl

theorem importOpml_ok {existing : List Subscription} {document : String} {os : List (Url × String)}
    (h : outlines W document = .ok os) : importOpml W workspace ids existing document =
      .ok ((newOutlines existing [] os).mapIdx fun i v => Subscription.new (ids i) workspace v.1 v.2) := by
  rw [importOpml, h]
  rfl

/-! ## Export and import -/

/-- The outlines of an export are read if every name has the characters that a value keeps. -/
theorem outlines_of_kept (hW : W.Lawful) (hnamed : ∀ s ∈ subscriptions, s.Named W)
    (hkept : ∀ s ∈ subscriptions, ∀ c ∈ s.title.toList, Xml.isKept c = true) :
    outlines W (exportOpml subscriptions) = .ok (subscriptions.map outlineOf) := by
  have hchars : (exportOpml subscriptions).toList.all Xml.isChar = true :=
    (isChar_export hW hnamed).2 fun s hs c hc => (Xml.isKept_iff.1 (hkept s hs c hc)).1
  rw [outlines_export hW hchars, mapM_ok, List.forall₂_map_right_iff, List.forall₂_same]
  exact fun s hs => outline_of_kept hW (hnamed s hs) (hkept s hs)

/-- What is read of an export, if it is read at all. -/
theorem outlines_export_ok (hW : W.Lawful) (hnamed : ∀ s ∈ subscriptions, s.Named W) {os : List (Url × String)}
    (h : outlines W (exportOpml subscriptions) = .ok os) :
    (∀ s ∈ subscriptions, ∀ c ∈ s.title.toList, Xml.isChar c = true) ∧ os = subscriptions.map readOutline := by
  have hchars : (exportOpml subscriptions).toList.all Xml.isChar = true := by
    have hread := h
    unfold outlines at hread
    rw [declares_export, if_neg Bool.false_ne_true] at hread
    cases hparse : W.parseXml (exportOpml subscriptions) with
    | none =>
      rw [hparse] at hread
      cases hread
    | some elements => exact hW.xml_chars _ _ hparse
  refine ⟨(isChar_export hW hnamed).1 hchars, ?_⟩
  rw [outlines_export hW hchars, mapM_ok] at h
  clear hchars
  induction h with
  | nil => rfl
  | cons hv _ ih =>
    rw [List.map_cons, outline_ok hW (hnamed _ List.mem_cons_self) hv,
      ih fun s hs => hnamed s (List.mem_cons_of_mem _ hs)]

/-- What it takes for export and import to be inverse: all subscriptions are feeds with different URLs, and their names
have only characters that the value of an attribute keeps. -/
def Exportable (kindOf : Subscription → SourceKind) (subscriptions : List Subscription) : Prop :=
  (∀ s ∈ subscriptions, (kindOf s).isCollected = false ∧ ∀ c ∈ s.title.toList, Xml.isKept c = true) ∧
    (subscriptions.map (·.sourceUrl.text)).Nodup

instance : Decidable (Exportable kindOf subscriptions) :=
  decidable_of_iff ((subscriptions.all fun s => !(kindOf s).isCollected && s.title.toList.all Xml.isKept) = true ∧
    (subscriptions.map (·.sourceUrl.text)).Nodup) (by simp [Exportable])

theorem map_outlineOf_text (subscriptions : List Subscription) :
    (subscriptions.map outlineOf).map (·.1.text) = subscriptions.map (·.sourceUrl.text) := by
  rw [List.map_map]
  rfl

theorem OpmlInverse.exportable (hW : W.Lawful) (hnamed : ∀ s ∈ subscriptions, s.Named W)
    (h : OpmlInverse W kindOf workspace ids subscriptions) : Exportable kindOf subscriptions := by
  obtain ⟨houtlines, hrecreated, -⟩ := h
  obtain ⟨hchars, hread⟩ := outlines_export_ok hW hnamed houtlines
  -- every subscription is written, so that none of them is a page
  have hfeeds : feeds kindOf subscriptions = subscriptions := by
    have hlength := congrArg List.length hread
    rw [List.length_map, List.length_map] at hlength
    exact List.filter_sublist.eq_of_length hlength
  rw [hfeeds] at houtlines hrecreated hread
  refine ⟨fun s hs => ⟨?_, ?_⟩, ?_⟩
  · have hfeed := List.filter_eq_self.1 hfeeds s hs
    rwa [Bool.not_eq_true'] at hfeed
  · have htitle : s.title = String.ofList (Xml.normalize false s.title.toList) :=
      congrArg Prod.snd (List.map_inj_left.1 hread s hs)
    refine (Xml.normalize_eq_self_iff (hchars s hs)).1 ?_
    rw [← String.toList_ofList (l := Xml.normalize false s.title.toList), ← htitle]
  · obtain ⟨values, hvalues, hmap⟩ := except_map_ok.1 hrecreated
    rw [importOpml_ok houtlines] at hvalues
    cases hvalues
    rw [outlineOf_imported] at hmap
    rw [← map_outlineOf_text]
    exact (newOutlines_eq_self_iff.1 hmap).1

theorem Exportable.inverse (hW : W.Lawful) (hnamed : ∀ s ∈ subscriptions, s.Named W)
    (h : Exportable kindOf subscriptions) : OpmlInverse W kindOf workspace ids subscriptions := by
  obtain ⟨hall, hnodup⟩ := h
  have hfeeds : feeds kindOf subscriptions = subscriptions :=
    List.filter_eq_self.2 fun s hs => by rw [(hall s hs).1]; rfl
  have houtlines := outlines_of_kept hW hnamed fun s hs => (hall s hs).2
  have hnew : newOutlines [] [] (subscriptions.map outlineOf) = subscriptions.map outlineOf :=
    newOutlines_eq_self_iff.2 ⟨map_outlineOf_text subscriptions ▸ hnodup, fun _ _ => List.not_mem_nil⟩
  have hknown : newOutlines subscriptions [] (subscriptions.map outlineOf) = [] := by
    refine newOutlines_of_known fun o ho => ?_
    obtain ⟨s, hs, rfl⟩ := List.mem_map.1 ho
    exact ⟨s, hs, rfl⟩
  refine ⟨?_, ?_, ?_⟩
  · rw [hfeeds, houtlines]
  · rw [hfeeds, importOpml_ok houtlines, hnew]
    exact congrArg Except.ok (outlineOf_imported _)
  · rw [importOpml_ok houtlines, hknown]
    rfl

/-- For subscriptions with valid names, export and import are inverse exactly if the subscriptions are exportable. -/
theorem opmlInverse_iff (hW : W.Lawful) (hnamed : ∀ s ∈ subscriptions, s.Named W) :
    OpmlInverse W kindOf workspace ids subscriptions ↔ Exportable kindOf subscriptions :=
  ⟨OpmlInverse.exportable hW hnamed, Exportable.inverse hW hnamed⟩

end

namespace Sample

/-- A platform that reads documents of elements and knows one URL. -/
def opmlPlatform : OpmlPlatform where
  parseXml document := Xml.read document.toList
  parseUrl text := if text = "https://a.test/feed?a=1&b=2" then some ⟨text, "https", some "a.test", none⟩ else none

theorem opmlPlatform_lawful : opmlPlatform.Lawful where
  xml_reads _ _ h := h
  xml_chars document elements h := by
    change Xml.read document.toList = some elements at h
    by_cases hchars : document.toList.all Xml.isChar = true
    · exact hchars
    · rw [Xml.read, if_neg hchars] at h
      cases h
  url_text text u h := by
    change (if text = "https://a.test/feed?a=1&b=2" then some _ else none) = some u at h
    split_ifs at h with ht
    cases h
    rw [ht]
    rfl
  url_ascii text u h := by
    change (if text = "https://a.test/feed?a=1&b=2" then some _ else none) = some u at h
    split_ifs at h with ht
    cases h
    rw [ht]
    have hall : ("https://a.test/feed?a=1&b=2".toList.all fun c => 0x21 ≤ c.toNat && c.toNat ≤ 0x7e) = true := by
      decide
    simpa only [List.all_eq_true, Bool.and_eq_true, decide_eq_true_eq] using hall

/-- A subscription to that URL under the given name. -/
def titled (title : String) : Subscription :=
  Subscription.new ⟨1⟩ ⟨1⟩ ⟨"https://a.test/feed?a=1&b=2", "https", some "a.test", none⟩ title

theorem titled_named {title : String} (h : validName title = true) : (titled title).Named opmlPlatform where
  name := h
  parsed := ⟨"https://a.test/feed?a=1&b=2", rfl⟩
  scheme := .inr rfl

/-- A feed whose name needs escapes is exportable. -/
theorem opmlInverse_ampersand : OpmlInverse opmlPlatform (fun _ => .auto) ⟨1⟩ (fun i => ⟨i⟩) [titled "R&D <news>"] := by
  have hnamed : ∀ s ∈ [titled "R&D <news>"], s.Named opmlPlatform := by
    intro s hs
    rw [List.mem_singleton.1 hs]
    exact titled_named (by decide)
  exact (opmlInverse_iff opmlPlatform_lawful hnamed).2 (by decide)

/-- A feed whose valid name has a tab, and a page with any valid name. -/
theorem tab_not_inverse :
    (validName "a\tb" = true ∧ ¬ OpmlInverse opmlPlatform (fun _ => .auto) ⟨1⟩ (fun i => ⟨i⟩) [titled "a\tb"]) ∧
      ¬ OpmlInverse opmlPlatform (fun _ => .webPage) ⟨1⟩ (fun i => ⟨i⟩) [titled "a"] := by
  have hnamed : ∀ title, validName title = true → ∀ s ∈ [titled title], s.Named opmlPlatform := by
    intro title htitle s hs
    rw [List.mem_singleton.1 hs]
    exact titled_named htitle
  refine ⟨⟨by decide, fun h => ?_⟩, fun h => ?_⟩
  · have hexportable := h.exportable opmlPlatform_lawful (hnamed "a\tb" (by decide))
    exact absurd hexportable (by decide)
  · have hexportable := h.exportable opmlPlatform_lawful (hnamed "a" (by decide))
    exact absurd hexportable (by decide)

end Sample
end Inoreader
