import Inoreader.Lib.Lists
import Inoreader.Lib.Text
import Mathlib.Data.List.Basic

/-!
# The cookies of a Zhihu session (`reader-ingest/src/zhihu/cookies.rs`)

A session is pasted as a `Cookie` header or as the table of a browser, twelve cells a row. It is kept as it was pasted, and
the `Cookie` header of a request is written again from the cookies whose path covers the request.
-/

namespace Inoreader
open Lib

/-- `zhihu::Error` -/
inductive ZhihuError
  | invalidCookies | session | transport | protocol | restrictedContent | storage | missing | sharedSource
deriving DecidableEq, Repr

structure Cookie where
  name : List Char
  value : List Char
  path : List Char
deriving DecidableEq, Repr

/-- `strip_prefix` and `strip_suffix` with a quote, where both are there. -/
def unquoted : List Char → List Char
  | '"' :: cs => if cs.getLast? = some '"' then cs.dropLast else '"' :: cs
  | cs => cs

def isAsciiAlphanumeric (c : Char) : Bool :=
  (48 ≤ c.toNat && c.toNat ≤ 57) || (65 ≤ c.toNat && c.toNat ≤ 90) || (97 ≤ c.toNat && c.toNat ≤ 122)

def isTokenChar (c : Char) : Bool := isAsciiAlphanumeric c || "!#$%&'*+-.^_`|~".toList.contains c

def isCookieOctet (c : Char) : Bool :=
  c.toNat == 0x21 || (0x23 ≤ c.toNat && c.toNat ≤ 0x3a) || (0x3c ≤ c.toNat && c.toNat ≤ 0x5b) ||
    (0x5d ≤ c.toNat && c.toNat ≤ 0x7e)

namespace Cookie

/-- What the last loop of `parse` checks. -/
def isValid (c : Cookie) : Bool :=
  !c.name.isEmpty && c.name.all isTokenChar && (unquoted c.value).all isCookieOctet &&
    !c.path.any fun x => x == '\r' || x == '\n' || x == '\t'

/-- The cookie of a signed-in session. -/
def isSession (c : Cookie) : Bool := c.name == "z_c0".toList && !c.value.isEmpty && c.path == ['/']

/-- The path of the cookie covers that of a request. -/
def covers (path : List Char) (c : Cookie) : Bool :=
  path == c.path ||
    (c.path.isPrefixOf path && (c.path.getLast? == some '/' || (path.drop c.path.length).head? == some '/'))

def pair (c : Cookie) : List Char := c.name ++ '=' :: c.value

end Cookie

structure Cookies where
  cookies : List Cookie
  session : cookies.any Cookie.isSession = true
  valid : cookies.all Cookie.isValid = true

namespace Cookies

def hosts : List (List Char) :=
  [".zhihu.com".toList, "zhihu.com".toList, "www.zhihu.com".toList, ".www.zhihu.com".toList]

/-- Name, domain and path. -/
abbrev Key : Type := List Char × List Char × List Char

local instance lawfulKey : LawfulBEq (List Char) := inferInstance

/-- A row of the table. -/
def tableCookie (line : List Char) : Option (Key × Cookie) :=
  match line.splitOn '\t' with
  | [name, value, domain, path, _, _, _, _, _, _, _, _] =>
    if domain ∈ hosts ∧ path.head? = some '/' then some ((name, domain, path), ⟨name, value, path⟩) else none
  | _ => none

/-- `strip_prefix(' ').unwrap_or(pair)` -/
def stripSpace : List Char → List Char
  | ' ' :: cs => cs
  | cs => cs

/-- `split_once('=')` -/
def splitOnce (cs : List Char) : Option (List Char × List Char) :=
  match cs.dropWhile (· != '=') with
  | [] => none
  | _ :: value => some (cs.takeWhile (· != '='), value)

/-- A pair of the header. -/
def pairCookie (pair : List Char) : Option (Key × Cookie) :=
  (splitOnce (stripSpace pair)).map fun p => ((p.1, "www.zhihu.com".toList, ['/']), ⟨p.1, p.2, ['/']⟩)

/-- The loops over rows and over pairs; `keys` holds the keys so far. -/
def collect (item : List Char → Option (Key × Cookie)) (keys : List Key) : List (List Char) → Except ZhihuError (List Cookie)
  | [] => .ok []
  | text :: texts =>
    match item text with
    | none => .error .invalidCookies
    | some (key, cookie) =>
      if key ∈ keys then .error .invalidCookies
      else
        match collect item (key :: keys) texts with
        | .error e => .error e
        | .ok cookies => .ok (cookie :: cookies)

def values (raw : List Char) : Except ZhihuError (List Cookie) :=
  if '\t' ∈ raw then collect tableCookie [] (textLines [] raw) else collect pairCookie [] (raw.splitOn ';')

def parse (raw : List Char) : Except ZhihuError Cookies :=
  match values raw with
  | .error e => .error e
  | .ok cookies =>
    if session : cookies.any Cookie.isSession = true then
      if valid : cookies.all Cookie.isValid = true then .ok { cookies, session, valid } else .error .invalidCookies
    else .error .invalidCookies

/-- `HeaderValue::from_str` takes visible ASCII. -/
def headerValue (raw : List Char) : Except ZhihuError (List Char) :=
  if raw.all fun c => (0x20 ≤ c.toNat && c.toNat < 0x7f) || c == '\t' then .ok raw else .error .invalidCookies

def header (self : Cookies) (path : List Char) : Except ZhihuError (List Char) :=
  headerValue ([';', ' '].intercalate ((self.cookies.filter (Cookie.covers path)).map Cookie.pair))

end Cookies

/-! ## Reading a header

What a server makes of the header: the pairs between the semicolons, a space before each but the first, and a name up to
the first equals sign.
-/

/-- The names and values of a `Cookie` header. -/
def readCookies (header : List Char) : Option (List (List Char × List Char)) :=
  (header.splitOn ';').mapM fun pair => Cookies.splitOnce (Cookies.stripSpace pair)

namespace Cookie
variable {c : Cookie} {x : Char}

theorem isTokenChar_bounds (h : isTokenChar x = true) : 0x21 ≤ x.toNat ∧ x.toNat ≤ 0x7e ∧ x ≠ ';' ∧ x ≠ '=' := by
  simp only [isTokenChar, isAsciiAlphanumeric, Bool.or_eq_true, Bool.and_eq_true, decide_eq_true_eq] at h
  rcases h with ((h | h) | h) | h
  · refine ⟨by omega, by omega, ?_, ?_⟩ <;> (rintro rfl; revert h; decide)
  · refine ⟨by omega, by omega, ?_, ?_⟩ <;> (rintro rfl; revert h; decide)
  · refine ⟨by omega, by omega, ?_, ?_⟩ <;> (rintro rfl; revert h; decide)
  · have hmarks : ("!#$%&'*+-.^_`|~".toList.all fun y =>
        decide (0x21 ≤ y.toNat) && decide (y.toNat ≤ 0x7e) && y != ';' && y != '=') = true := by decide
    have hx := List.all_eq_true.1 hmarks x (List.contains_iff_mem.1 h)
    simp only [Bool.and_eq_true, decide_eq_true_eq, bne_iff_ne, ne_eq] at hx
    exact ⟨hx.1.1.1, hx.1.1.2, hx.1.2, hx.2⟩

theorem isCookieOctet_bounds (h : isCookieOctet x = true) : 0x21 ≤ x.toNat ∧ x.toNat ≤ 0x7e ∧ x ≠ ';' := by
  simp only [isCookieOctet, Bool.or_eq_true, Bool.and_eq_true, decide_eq_true_eq, beq_iff_eq] at h
  refine ⟨by omega, by omega, ?_⟩
  rintro rfl
  revert h
  decide

/-- The quotes of a value are the only characters of it that need not be octets. -/
theorem mem_value {v : List Char} (h : x ∈ v) : x ∈ unquoted v ∨ x = '"' := by
  unfold unquoted
  split
  · rename_i cs
    split
    · rename_i hlast
      rcases List.mem_cons.1 h with rfl | h
      · exact .inr rfl
      · have hne : cs ≠ [] := List.ne_nil_of_mem h
        rw [List.getLast?_eq_some_getLast hne] at hlast
        rw [← List.dropLast_append_getLast hne, Option.some.inj hlast] at h
        rcases List.mem_append.1 h with h | h
        · exact .inl h
        · exact .inr (List.mem_singleton.1 h)
    · exact .inl h
  · exact .inl h

theorem isValid_iff : c.isValid = true ↔
    c.name ≠ [] ∧ (∀ x ∈ c.name, isTokenChar x = true) ∧ (∀ x ∈ unquoted c.value, isCookieOctet x = true) ∧
      ∀ x ∈ c.path, x ≠ '\r' ∧ x ≠ '\n' ∧ x ≠ '\t' := by
  simp [isValid, and_assoc]

theorem pair_bounds (h : c.isValid = true) : ∀ x ∈ c.pair, 0x21 ≤ x.toNat ∧ x.toNat ≤ 0x7e ∧ x ≠ ';' := by
  obtain ⟨-, hname, hvalue, -⟩ := isValid_iff.1 h
  intro x hx
  rcases List.mem_append.1 hx with hx | hx
  · obtain ⟨h1, h2, h3, -⟩ := isTokenChar_bounds (hname x hx)
    exact ⟨h1, h2, h3⟩
  · rcases List.mem_cons.1 hx with rfl | hx
    · decide
    · rcases mem_value hx with hx | rfl
      · exact isCookieOctet_bounds (hvalue x hx)
      · decide

theorem stripSpace_pair (h : c.isValid = true) : Cookies.stripSpace c.pair = c.pair := by
  obtain ⟨hne, hname, -, -⟩ := isValid_iff.1 h
  unfold pair
  cases hn : c.name with
  | nil => exact absurd hn hne
  | cons x xs =>
    have hx := isTokenChar_bounds (hname x (by simp [hn]))
    unfold Cookies.stripSpace
    split
    · rename_i heq
      have hspace : x = ' ' := (List.cons.inj heq).1
      rw [hspace] at hx
      exact absurd hx.1 (by decide)
    · rfl

theorem splitOnce_pair (h : c.isValid = true) : Cookies.splitOnce c.pair = some (c.name, c.value) := by
  obtain ⟨-, hname, -, -⟩ := isValid_iff.1 h
  have hne : ∀ x ∈ c.name, (x != '=') = true := by
    intro x hx
    simpa using (isTokenChar_bounds (hname x hx)).2.2.2
  unfold Cookies.splitOnce pair
  rw [List.dropWhile_append_of_pos hne, List.takeWhile_append_of_pos hne]
  simp

end Cookie

theorem splitOn_pairs {c : Cookie} {cs : List Cookie} (h : ∀ d ∈ c :: cs, d.isValid = true) :
    ([';', ' '].intercalate ((c :: cs).map Cookie.pair)).splitOn ';' = c.pair :: cs.map fun d => ' ' :: d.pair := by
  rw [List.map_cons, intercalate_cons_sep, List.splitOn_intercalate]
  · simp
  · intro l hl
    rcases List.mem_cons.1 hl with rfl | hl
    · intro hx
      exact (Cookie.pair_bounds (h c (by simp)) _ hx).2.2 rfl
    · simp only [List.map_map, List.mem_map, Function.comp] at hl
      obtain ⟨d, hd, rfl⟩ := hl
      intro hx
      have hx' : ';' ∈ d.pair := by simpa using hx
      exact (Cookie.pair_bounds (h d (by simp [hd])) _ hx').2.2 rfl
  · simp

/-- A header of valid cookies reads as these cookies. -/
theorem readCookies_pairs {cs : List Cookie} (hne : cs ≠ []) (h : ∀ c ∈ cs, c.isValid = true) :
    readCookies ([';', ' '].intercalate (cs.map Cookie.pair)) = some (cs.map fun c => (c.name, c.value)) := by
  cases cs with
  | nil => exact absurd rfl hne
  | cons c cs =>
    have htail : (cs.map fun d => ' ' :: d.pair).mapM (fun p => Cookies.splitOnce (Cookies.stripSpace p)) =
        some (cs.map fun d => (d.name, d.value)) := by
      rw [List.mapM_map]
      exact mapM_some fun d hd => Cookie.splitOnce_pair (h d (by simp [hd]))
    have hc := h c (by simp)
    unfold readCookies
    rw [splitOn_pairs h, List.mapM_cons, Cookie.stripSpace_pair hc, Cookie.splitOnce_pair hc, htail]
    rfl

/-! ## What is pasted -/

namespace Cookies

/-- The rows of a pasted text, none of them for a key that another one has. -/
def Rows (item : List Char → Option (Key × Cookie)) (texts : List (List Char)) (rows : List (Key × Cookie)) : Prop :=
  texts.map item = rows.map some ∧ (rows.map (·.1)).Nodup

theorem collect_ok {item : List Char → Option (Key × Cookie)} {keys : List Key} {texts : List (List Char)}
    {cookies : List Cookie} :
    collect item keys texts = .ok cookies ↔
      ∃ rows, Rows item texts rows ∧ (∀ k ∈ rows.map (·.1), k ∉ keys) ∧ cookies = rows.map (·.2) := by
  induction texts generalizing keys cookies with
  | nil =>
    constructor
    · intro h
      cases h
      exact ⟨[], ⟨rfl, List.nodup_nil⟩, by simp, rfl⟩
    · rintro ⟨rows, ⟨hmap, -⟩, -, rfl⟩
      have hrows : rows = [] := by simpa using hmap.symm
      rw [hrows]
      rfl
  | cons text texts ih =>
    unfold collect
    constructor
    · intro h
      split at h
      · cases h
      · rename_i key cookie hitem
        split at h
        · cases h
        · rename_i hkey
          split at h
          · cases h
          · rename_i rest hrest
            cases h
            obtain ⟨rows, ⟨hmap, hnodup⟩, hfresh, rfl⟩ := ih.1 hrest
            refine ⟨(key, cookie) :: rows, ⟨by simp [hitem, hmap], ?_⟩, ?_, rfl⟩
            · rw [List.map_cons, List.nodup_cons]
              exact ⟨fun hmem => hfresh key hmem (by simp), hnodup⟩
            · intro k hk
              rcases List.mem_cons.1 hk with rfl | hk
              · exact hkey
              · exact fun hmem => hfresh k hk (by simp [hmem])
    · rintro ⟨rows, ⟨hmap, hnodup⟩, hfresh, rfl⟩
      cases rows with
      | nil => simp at hmap
      | cons row rows =>
        obtain ⟨key, cookie⟩ := row
        simp only [List.map_cons, List.cons.injEq] at hmap
        rw [List.map_cons, List.nodup_cons] at hnodup
        have hkey : key ∉ keys := hfresh key (by simp)
        have hrest : collect item (key :: keys) texts = .ok (rows.map (·.2)) := by
          refine ih.2 ⟨rows, ⟨hmap.2, hnodup.2⟩, ?_, rfl⟩
          intro k hk hmem
          rcases List.mem_cons.1 hmem with rfl | hmem
          · exact hnodup.1 hk
          · exact hfresh k (List.mem_cons_of_mem _ hk) hmem
        simp only [hmap.1, if_neg hkey, hrest, List.map_cons]

/-- The rows of a text: those of a table where it has a tab. -/
def Pasted (raw : List Char) (rows : List (Key × Cookie)) : Prop :=
  ('\t' ∈ raw → Rows tableCookie (textLines [] raw) rows) ∧ ('\t' ∉ raw → Rows pairCookie (raw.splitOn ';') rows)

theorem values_ok {raw : List Char} {cookies : List Cookie} :
    values raw = .ok cookies ↔ ∃ rows, Pasted raw rows ∧ cookies = rows.map (·.2) := by
  unfold values Pasted
  split
  · rename_i htab
    rw [collect_ok]
    simp [htab]
  · rename_i htab
    rw [collect_ok]
    simp [htab]

/-- `parse` accepts the texts whose rows have different keys and are valid, one of them the session. -/
theorem parse_ok {raw : List Char} {self : Cookies} :
    parse raw = .ok self ↔ ∃ rows, Pasted raw rows ∧ self.cookies = rows.map (·.2) := by
  unfold parse
  constructor
  · intro h
    split at h
    · cases h
    · rename_i cookies hvalues
      split at h
      · split at h
        · cases h
          exact values_ok.1 hvalues
        · cases h
      · cases h
  · intro h
    obtain ⟨cookies, session, valid⟩ := self
    rw [values_ok.2 h]
    simp only [dif_pos session, dif_pos valid]

/-! ## Headers -/

variable {raw path : List Char} {self : Cookies}

theorem valid_of_mem {c : Cookie} (h : c ∈ self.cookies) : c.isValid = true := List.all_eq_true.1 self.valid c h

theorem covers_root {c : Cookie} (hpath : path.head? = some '/') (h : c.path = ['/']) : c.covers path = true := by
  cases path with
  | nil => cases hpath
  | cons x xs =>
    cases hpath
    simp [Cookie.covers, h]

/-- The session is among the cookies of every request. -/
theorem session_covers (hpath : path.head? = some '/') :
    ∃ c ∈ self.cookies.filter (Cookie.covers path), c.name = "z_c0".toList ∧ c.value ≠ [] := by
  obtain ⟨c, hc, hsession⟩ := List.any_eq_true.1 self.session
  simp only [Cookie.isSession, Bool.and_eq_true, beq_iff_eq, Bool.not_eq_true', List.isEmpty_eq_false_iff] at hsession
  obtain ⟨⟨hname, hvalue⟩, hroot⟩ := hsession
  exact ⟨c, List.mem_filter.2 ⟨hc, covers_root hpath hroot⟩, hname, hvalue⟩

theorem intercalate_bounds {ls : List (List Char)} (h : ∀ l ∈ ls, ∀ x ∈ l, 0x20 ≤ x.toNat ∧ x.toNat ≤ 0x7e) :
    ∀ x ∈ [';', ' '].intercalate ls, 0x20 ≤ x.toNat ∧ x.toNat ≤ 0x7e := by
  induction ls with
  | nil => simp
  | cons l ls ih =>
    have hls := ih fun l' hl' => h l' (List.mem_cons_of_mem _ hl')
    intro x hx
    cases ls with
    | nil => exact h l (by simp) x (by simpa using hx)
    | cons l' ls =>
      rw [List.intercalate_cons_cons] at hx
      rcases List.mem_append.1 hx with hx | hx
      · rcases List.mem_append.1 hx with hx | hx
        · exact h l (by simp) x hx
        · have hsep : x = ';' ∨ x = ' ' := by simpa using hx
          rcases hsep with rfl | rfl
          · decide
          · decide
      · exact hls x hx

theorem header_eq (self : Cookies) (path : List Char) :
    self.header path = .ok ([';', ' '].intercalate ((self.cookies.filter (Cookie.covers path)).map Cookie.pair)) ∧
      ∀ x ∈ [';', ' '].intercalate ((self.cookies.filter (Cookie.covers path)).map Cookie.pair),
        0x20 ≤ x.toNat ∧ x.toNat ≤ 0x7e := by
  have hbounds : ∀ x ∈ [';', ' '].intercalate ((self.cookies.filter (Cookie.covers path)).map Cookie.pair),
      0x20 ≤ x.toNat ∧ x.toNat ≤ 0x7e := by
    apply intercalate_bounds
    intro l hl x hx
    obtain ⟨c, hc, rfl⟩ := List.mem_map.1 hl
    have hx' := Cookie.pair_bounds (valid_of_mem (List.mem_of_mem_filter hc)) x hx
    exact ⟨by omega, hx'.2.1⟩
  refine ⟨?_, hbounds⟩
  unfold header headerValue
  rw [if_pos]
  rw [List.all_eq_true]
  intro x hx
  have hx' := hbounds x hx
  simp only [Bool.or_eq_true, Bool.and_eq_true, decide_eq_true_eq]
  exact .inl ⟨hx'.1, by omega⟩

/-- A cookie that stands for itself in a header. -/
theorem pairCookie_pair {c : Cookie} (h : c.isValid = true) :
    pairCookie c.pair = some ((c.name, "www.zhihu.com".toList, ['/']), { c with path := ['/'] }) := by
  unfold pairCookie
  rw [Cookie.stripSpace_pair h, Cookie.splitOnce_pair h]
  rfl

theorem pairCookie_space {c : Cookie} (h : c.isValid = true) : pairCookie (' ' :: c.pair) = pairCookie c.pair := by
  unfold pairCookie
  rw [Cookie.stripSpace_pair h]
  rfl

theorem pairCookie_key {pair : List Char} {row : Key × Cookie} (h : pairCookie pair = some row) :
    row.1 = (row.2.name, "www.zhihu.com".toList, ['/']) ∧ row.2.path = ['/'] := by
  unfold pairCookie at h
  obtain ⟨p, -, rfl⟩ := Option.map_eq_some_iff.1 h
  exact ⟨rfl, rfl⟩

/-- The header that is written for a pasted header has the same rows. -/
theorem pasted_header {rows : List (Key × Cookie)} (hne : rows ≠ [])
    (hkey : ∀ row ∈ rows, row.1 = (row.2.name, "www.zhihu.com".toList, ['/']) ∧ row.2.path = ['/'])
    (hnodup : (rows.map (·.1)).Nodup) (hvalid : ∀ row ∈ rows, row.2.isValid = true) :
    Rows pairCookie (([';', ' '].intercalate (rows.map fun row => row.2.pair)).splitOn ';') rows := by
  have hself : ∀ row ∈ rows, pairCookie row.2.pair = some row := by
    intro row hrow
    obtain ⟨key, cookie⟩ := row
    obtain ⟨hk, hp⟩ := hkey _ hrow
    rw [pairCookie_pair (hvalid _ hrow)]
    obtain ⟨name, value, path⟩ := cookie
    simp only at hk hp
    rw [hk, hp]
  refine ⟨?_, hnodup⟩
  cases rows with
  | nil => exact absurd rfl hne
  | cons row rows =>
    have hsplit : ([';', ' '].intercalate ((row :: rows).map fun row => row.2.pair)).splitOn ';' =
        row.2.pair :: rows.map fun row => ' ' :: row.2.pair := by
      have hcookies : ∀ d ∈ row.2 :: rows.map (·.2), d.isValid = true := by
        intro d hd
        rcases List.mem_cons.1 hd with rfl | hd
        · exact hvalid row (by simp)
        · obtain ⟨r, hr, rfl⟩ := List.mem_map.1 hd
          exact hvalid r (by simp [hr])
      simpa [Function.comp_def] using splitOn_pairs hcookies
    rw [hsplit, List.map_cons, List.map_cons, hself row (by simp), List.map_map]
    congr 1
    apply List.map_congr_left
    intro r hr
    simp only [Function.comp]
    rw [pairCookie_space (hvalid r (by simp [hr])), hself r (by simp [hr])]

/-- Every request of an accepted session gets a header, and the header says exactly what was pasted for its path: the same
names and values in the same order, the session among them. What was pasted as a header is accepted again as it is sent. -/
theorem header_faithful (hraw : parse raw = .ok self) (hpath : path.head? = some '/') :
    ∃ rows header, Pasted raw rows ∧ self.header path = .ok header ∧
      readCookies header = some (((rows.map (·.2)).filter (Cookie.covers path)).map fun c => (c.name, c.value)) ∧
      (∃ value, value ≠ [] ∧ ∃ pairs, readCookies header = some pairs ∧ ("z_c0".toList, value) ∈ pairs) ∧
      (∀ x ∈ header, 0x20 ≤ x.toNat ∧ x.toNat ≤ 0x7e) ∧ ('\t' ∉ raw → parse header = .ok self) := by
  obtain ⟨rows, hrows, hcookies⟩ := parse_ok.1 hraw
  obtain ⟨hheader, hbounds⟩ := header_eq self path
  have hsession : ∃ c ∈ self.cookies.filter (Cookie.covers path), c.name = "z_c0".toList ∧ c.value ≠ [] :=
    session_covers hpath
  obtain ⟨c, hc, hname, hvalue⟩ := hsession
  have hread : readCookies ([';', ' '].intercalate ((self.cookies.filter (Cookie.covers path)).map Cookie.pair)) =
      some ((self.cookies.filter (Cookie.covers path)).map fun c => (c.name, c.value)) :=
    readCookies_pairs (List.ne_nil_of_mem hc) fun d hd => valid_of_mem (List.mem_of_mem_filter hd)
  refine ⟨rows, _, hrows, hheader, by rw [hread, hcookies], ?_, hbounds, ?_⟩
  · exact ⟨c.value, hvalue, _, hread, List.mem_map.2 ⟨c, hc, by rw [hname]⟩⟩
  · intro htab
    obtain ⟨hmap, hnodup⟩ := hrows.2 htab
    have hkey : ∀ row ∈ rows, row.1 = (row.2.name, "www.zhihu.com".toList, ['/']) ∧ row.2.path = ['/'] := by
      intro row hrow
      have hmem : some row ∈ (raw.splitOn ';').map pairCookie := by
        rw [hmap]
        exact List.mem_map_of_mem hrow
      obtain ⟨pair, -, hpair⟩ := List.mem_map.1 hmem
      exact pairCookie_key hpair
    have hall : self.cookies.filter (Cookie.covers path) = self.cookies := by
      rw [List.filter_eq_self, hcookies]
      intro d hd
      obtain ⟨row, hrow, rfl⟩ := List.mem_map.1 hd
      exact covers_root hpath (hkey row hrow).2
    have hvalid : ∀ row ∈ rows, row.2.isValid = true := by
      intro row hrow
      exact valid_of_mem (by rw [hcookies]; exact List.mem_map_of_mem hrow)
    have hne : rows ≠ [] := by
      rintro rfl
      rw [List.filter_eq_nil_iff.2 (by simp [hcookies])] at hc
      simp at hc
    have hagain := pasted_header hne hkey hnodup hvalid
    rw [hall] at hbounds ⊢
    refine parse_ok.2 ⟨rows, ⟨?_, ?_⟩, hcookies⟩
    · intro hmem
      exact absurd (hbounds _ hmem).1 (by decide)
    · intro _
      rw [hcookies, List.map_map]
      exact hagain

/-- A session with a second cookie, pasted without the space. -/
def sampleHeader : List Char := "z_c0=A==;x=1".toList

theorem header_faithful_sample : ∃ self, parse sampleHeader = .ok self ∧
    ∃ rows header, Pasted sampleHeader rows ∧ self.header ['/', 'a'] = .ok header ∧
      readCookies header = some (((rows.map (·.2)).filter (Cookie.covers ['/', 'a'])).map fun c => (c.name, c.value)) := by
  have hparse : ∃ self, parse sampleHeader = .ok self := by
    have hok : (parse sampleHeader).isOk = true := by decide
    cases h : parse sampleHeader with
    | error e => rw [h] at hok; cases hok
    | ok self => exact ⟨self, rfl⟩
  obtain ⟨self, hself⟩ := hparse
  have hpath : ['/', 'a'].head? = some '/' := rfl
  obtain ⟨rows, header, h1, h2, h3, -⟩ := header_faithful hself hpath
  exact ⟨self, hself, rows, header, h1, h2, h3⟩

end Cookies

end Inoreader
