import Inoreader.Glossary.Post
import Inoreader.Lib.Cuts
import Inoreader.Lib.Json
import Inoreader.Lib.Except

/-!
# Styled texts (`reader-glossary/src/model.rs`)

A text with marks. A mark is an interval of UTF-16 code units, the text itself is sliced at bytes of UTF-8; a position
must not lie within a character.
-/

namespace Inoreader.Glossary
open Lib

inductive MarkKind
  | bold | italic | underline | strike | code | pre | spoiler | quote
  | link (url : List Char)
deriving DecidableEq, Repr

/-- `end` is `stop`. -/
structure TextMark where
  start : Nat
  stop : Nat
  style : MarkKind
deriving DecidableEq, Repr

/-- `char::len_utf16` -/
def lenUtf16 (ch : Char) : Nat := if ch.toNat < 0x10000 then 1 else 2

/-- `str::len` -/
def byteLen (text : List Char) : Nat := units Char.utf8Size text

/-- `encode_utf16().count()` -/
def utf16Len (text : List Char) : Nat := units lenUtf16 text

theorem lenUtf16_pos (ch : Char) : 0 < lenUtf16 ch := by
  unfold lenUtf16
  split_ifs <;> omega

/-- The loop of `utf16_byte` over the characters, with the byte and the units that are reached. -/
def utf16ByteFrom (offset byte reached : Nat) : List Char → Except GlossaryError Nat
  | [] => if reached = offset then .ok byte else .error .formatting
  | ch :: rest =>
    if reached = offset then .ok byte
    else if offset < reached + lenUtf16 ch then .error .formatting
    else utf16ByteFrom offset (byte + ch.utf8Size) (reached + lenUtf16 ch) rest

/-- `utf16_byte` -/
def utf16Byte (text : List Char) (offset : Nat) : Except GlossaryError Nat := utf16ByteFrom offset 0 0 text

/-- What `StyledText::new` checks of a mark. -/
def TextMark.check (text : List Char) (mark : TextMark) : Except GlossaryError Unit := do
  if mark.stop ≤ mark.start then throw .formatting
  discard (utf16Byte text mark.start)
  discard (utf16Byte text mark.stop)
  if mark.style = .link [] then throw .formatting

/-- A text whose marks were checked. -/
@[ext]
structure StyledText where
  text : List Char
  marks : List TextMark
  checked : ∀ mark ∈ marks, (mark.check text).isOk = true
deriving DecidableEq, Repr

namespace StyledText

/-- `StyledText::new`; there is only one error. -/
def new (text : List Char) (marks : List TextMark) : Except GlossaryError StyledText :=
  if h : ∀ mark ∈ marks, (mark.check text).isOk = true then .ok ⟨text, marks, h⟩ else .error .formatting

end StyledText

/-- `text.get(a..b).ok_or(Formatting)` -/
def getText (text : List Char) (a b : Nat) : Except GlossaryError (List Char) :=
  match between Char.utf8Size text a b with
  | none => .error .formatting
  | some text => .ok text

/-- A mark in a slice, if some of it is left. -/
def TextMark.clip (start stop : Nat) (m : TextMark) : Option TextMark :=
  let left := max m.start start
  let right := min m.stop stop
  if left < right then some { start := left - start, stop := right - start, style := m.style } else none

namespace StyledText

/-- `StyledText::slice` -/
def slice (t : StyledText) (start stop : Nat) : Except GlossaryError StyledText := do
  let a ← utf16Byte t.text start
  let b ← utf16Byte t.text stop
  let text ← getText t.text a b
  new text (t.marks.filterMap (TextMark.clip start stop))

/-- The styles of a code unit. -/
def stylesAt (t : StyledText) (u : Nat) : List MarkKind :=
  (t.marks.filter fun m => m.start ≤ u && u < m.stop).map (·.style)

end StyledText

/-! ## JSON -/

def MarkKind.name : MarkKind → String
  | .bold => "bold"
  | .italic => "italic"
  | .underline => "underline"
  | .strike => "strike"
  | .code => "code"
  | .pre => "pre"
  | .spoiler => "spoiler"
  | .quote => "quote"
  | .link _ => "link"

def MarkKind.toJson : MarkKind → Lib.Json
  | .link url => .obj [("kind", .ofText "link"), ("url", .string url)]
  | kind => .obj [("kind", .ofText kind.name)]

/-- The variants that have no fields. -/
def MarkKind.plain : List MarkKind := [.bold, .italic, .underline, .strike, .code, .pre, .spoiler, .quote]

def MarkKind.ofJson (v : Lib.Json) : Option MarkKind := do
  let kind ← v.required Lib.Json.asText "kind"
  if kind = "link" then
    v.onlyFields ["kind", "url"]
    let url ← v.required Lib.Json.asStr "url"
    some (.link url)
  else MarkKind.plain.find? fun k => k.name = kind

/-- Offsets in a text are numbers of 64 bits. -/
def offsetJson (n : Nat) : Lib.Json := .number (some n)

def TextMark.toJson (m : TextMark) : Lib.Json :=
  .obj [("start", offsetJson m.start), ("end", offsetJson m.stop), ("style", m.style.toJson)]

def TextMark.ofJson (v : Lib.Json) : Option TextMark := do
  v.onlyFields ["start", "end", "style"]
  let start ← v.required Lib.Json.asU64 "start"
  let stop ← v.required Lib.Json.asU64 "end"
  let style ← v.required MarkKind.ofJson "style"
  some { start, stop, style }

def StyledText.toJson (t : StyledText) : Lib.Json :=
  .obj [("text", .string t.text), ("marks", .ofList TextMark.toJson t.marks)]

/-- `StyledText::try_from(TextWire)` -/
def StyledText.ofJson (v : Lib.Json) : Option StyledText := do
  v.onlyFields ["text", "marks"]
  let text ← v.required Lib.Json.asStr "text"
  let marks ← v.required (Lib.Json.asList TextMark.ofJson) "marks"
  (StyledText.new text marks).toOption

/-! ## Offsets -/

section
variable {text pre body post : List Char} {t s : StyledText} {start stop offset byte : Nat} {m : TextMark}

theorem utf8Size_pos (ch : Char) : 0 < ch.utf8Size := ch.utf8Size_pos

theorem utf16ByteFrom_eq (offset byte reached : Nat) (hle : reached ≤ offset) (text : List Char) :
    utf16ByteFrom offset byte reached text =
      match cut lenUtf16 text (offset - reached) with
      | some p => .ok (byte + byteLen p.1)
      | none => .error .formatting := by
  induction text generalizing byte reached with
  | nil =>
    unfold utf16ByteFrom
    by_cases h : reached = offset
    · rw [if_pos h, h, Nat.sub_self]
      rfl
    · obtain ⟨k, hk⟩ : ∃ k, offset - reached = k + 1 := ⟨offset - reached - 1, by omega⟩
      rw [if_neg h, hk]
      rfl
  | cons ch rest ih =>
    unfold utf16ByteFrom
    by_cases h : reached = offset
    · rw [if_pos h, h, Nat.sub_self]
      rfl
    · obtain ⟨k, hk⟩ : ∃ k, offset - reached = k + 1 := ⟨offset - reached - 1, by omega⟩
      rw [if_neg h, hk, cut]
      by_cases hsplit : offset < reached + lenUtf16 ch
      · rw [if_pos hsplit, if_neg (by omega)]
      · have hrest : k + 1 - lenUtf16 ch = offset - (reached + lenUtf16 ch) := by omega
        rw [if_neg hsplit, if_pos (by omega), ih _ _ (by omega), hrest]
        cases cut lenUtf16 rest (offset - (reached + lenUtf16 ch)) with
        | none => rfl
        | some p =>
          show Except.ok _ = Except.ok (byte + units Char.utf8Size (ch :: p.1))
          rw [units_cons, ← Nat.add_assoc]
          rfl

/-- A position in code units is found at the byte where a part of the text ends. -/
theorem utf16Byte_eq (text : List Char) (offset : Nat) : utf16Byte text offset =
    match cut lenUtf16 text offset with
    | some p => .ok (byteLen p.1)
    | none => .error .formatting := by
  rw [utf16Byte, utf16ByteFrom_eq offset 0 0 (Nat.zero_le _), Nat.sub_zero]
  cases cut lenUtf16 text offset with
  | none => rfl
  | some p => exact congrArg Except.ok (Nat.zero_add _)

theorem utf16Byte_append (pre post : List Char) : utf16Byte (pre ++ post) (utf16Len pre) = .ok (byteLen pre) := by
  rw [utf16Byte_eq, utf16Len, cut_append lenUtf16_pos]

theorem utf16Byte_ok : utf16Byte text offset = .ok byte ↔
    ∃ pre, pre <+: text ∧ utf16Len pre = offset ∧ byteLen pre = byte := by
  constructor
  · intro h
    rw [utf16Byte_eq] at h
    cases hcut : cut lenUtf16 text offset with
    | none =>
      rw [hcut] at h
      cases h
    | some p =>
      rw [hcut] at h
      cases h
      obtain ⟨rfl, rfl⟩ := (cut_eq_some lenUtf16_pos).1 hcut
      exact ⟨p.1, List.prefix_append .., rfl, rfl⟩
  · rintro ⟨pre, ⟨post, rfl⟩, rfl, rfl⟩
    exact utf16Byte_append pre post

theorem utf16Byte_error {e : GlossaryError} (h : utf16Byte text offset = .error e) : e = .formatting := by
  rw [utf16Byte_eq] at h
  cases hcut : cut lenUtf16 text offset with
  | none =>
    rw [hcut] at h
    cases h
    rfl
  | some p =>
    rw [hcut] at h
    cases h

/-- A position that does not lie within a character. -/
def Boundary (text : List Char) (offset : Nat) : Prop := ∃ pre, pre <+: text ∧ utf16Len pre = offset

theorem utf16Byte_isOk : (utf16Byte text offset).isOk = true ↔ Boundary text offset := by
  cases h : utf16Byte text offset with
  | ok byte =>
    obtain ⟨pre, hpre, hoffset, -⟩ := utf16Byte_ok.1 h
    exact iff_of_true rfl ⟨pre, hpre, hoffset⟩
  | error e =>
    refine iff_of_false Bool.false_ne_true fun ⟨pre, hpre, hoffset⟩ => ?_
    rw [utf16Byte_ok.2 ⟨pre, hpre, hoffset, rfl⟩] at h
    cases h

theorem check_iff : (m.check text).isOk = true ↔
    m.start < m.stop ∧ Boundary text m.start ∧ Boundary text m.stop ∧ m.style ≠ .link [] := by
  rw [← utf16Byte_isOk, ← utf16Byte_isOk]
  unfold TextMark.check
  by_cases hempty : m.stop ≤ m.start
  · rw [if_pos hempty]
    exact iff_of_false Bool.false_ne_true fun h => absurd h.1 (by omega)
  rw [if_neg hempty]
  cases hstart : utf16Byte text m.start with
  | error e => exact iff_of_false Bool.false_ne_true fun h => Bool.false_ne_true h.2.1
  | ok a =>
    cases hstop : utf16Byte text m.stop with
    | error e => exact iff_of_false Bool.false_ne_true fun h => Bool.false_ne_true h.2.2.1
    | ok b =>
      by_cases hlink : m.style = .link []
      · rw [if_pos hlink]
        exact iff_of_false Bool.false_ne_true fun h => h.2.2.2 hlink
      · rw [if_neg hlink]
        exact iff_of_true rfl ⟨by omega, rfl, rfl, hlink⟩

/-! ## Slices -/

theorem boundary_zero (text : List Char) : Boundary text 0 := ⟨[], List.nil_prefix, rfl⟩

theorem Boundary.of_slice (h : Boundary body offset) : Boundary (pre ++ (body ++ post)) (utf16Len pre + offset) := by
  obtain ⟨p, ⟨q, rfl⟩, rfl⟩ := h
  refine ⟨pre ++ p, ?_, units_append ..⟩
  rw [List.append_assoc, List.prefix_append_right_inj]
  exact List.prefix_append ..

theorem Boundary.in_slice (h : Boundary (pre ++ (body ++ post)) offset) (hlow : utf16Len pre ≤ offset)
    (hhigh : offset ≤ utf16Len pre + utf16Len body) : Boundary body (offset - utf16Len pre) := by
  obtain ⟨p, hp, rfl⟩ := h
  obtain ⟨q, rfl⟩ := prefix_of_units_le lenUtf16_pos (List.prefix_append ..) hp hlow
  have hbody : pre ++ body <+: pre ++ (body ++ post) := ⟨post, List.append_assoc ..⟩
  rw [utf16Len, utf16Len, utf16Len, ← units_append] at hhigh
  have hq : q <+: body := (List.prefix_append_right_inj pre).1 (prefix_of_units_le lenUtf16_pos hp hbody hhigh)
  exact ⟨q, hq, by rw [utf16Len, utf16Len, utf16Len, units_append, Nat.add_sub_cancel_left]⟩

theorem clip_eq_some {m' : TextMark} : m.clip start stop = some m' ↔ max m.start start < min m.stop stop ∧
    m' = { start := max m.start start - start, stop := min m.stop stop - start, style := m.style } := by
  unfold TextMark.clip
  dsimp only
  split_ifs with h
  · rw [Option.some.injEq, eq_comm]
    exact (and_iff_right h).symm
  · exact iff_of_false not_false fun hm => h hm.1

/-- What is left of a mark passes the check in the slice. -/
theorem check_clip {m' : TextMark} (hcheck : (m.check (pre ++ (body ++ post))).isOk = true)
    (hclip : m.clip (utf16Len pre) (utf16Len pre + utf16Len body) = some m') : (m'.check body).isOk = true := by
  obtain ⟨-, hstart, hstop, hlink⟩ := check_iff.1 hcheck
  obtain ⟨hlt, rfl⟩ := clip_eq_some.1 hclip
  have hpre : Boundary (pre ++ (body ++ post)) (utf16Len pre) := (boundary_zero body).of_slice
  have hbody : Boundary (pre ++ (body ++ post)) (utf16Len pre + utf16Len body) :=
    Boundary.of_slice ⟨body, List.prefix_refl _, rfl⟩
  have hleft : Boundary (pre ++ (body ++ post)) (max m.start (utf16Len pre)) := by
    rcases Nat.le_total m.start (utf16Len pre) with h | h
    · rwa [Nat.max_eq_right h]
    · rwa [Nat.max_eq_left h]
  have hright : Boundary (pre ++ (body ++ post)) (min m.stop (utf16Len pre + utf16Len body)) := by
    rcases Nat.le_total m.stop (utf16Len pre + utf16Len body) with h | h
    · rwa [Nat.min_eq_left h]
    · rwa [Nat.min_eq_right h]
  refine check_iff.2 ⟨?_, hleft.in_slice (by omega) (by omega), hright.in_slice (by omega) (by omega), hlink⟩
  show max m.start (utf16Len pre) - utf16Len pre < min m.stop (utf16Len pre + utf16Len body) - utf16Len pre
  omega

namespace StyledText

theorem new_ok {marks : List TextMark} (h : new text marks = .ok s) : s.text = text ∧ s.marks = marks := by
  unfold new at h
  split_ifs at h
  cases h
  exact ⟨rfl, rfl⟩

theorem new_self (t : StyledText) : new t.text t.marks = .ok t := dif_pos t.checked

theorem new_error {marks : List TextMark} {e : GlossaryError} (h : new text marks = .error e) : e = .formatting := by
  unfold new at h
  split_ifs at h
  cases h
  rfl

theorem getText_ok {a b : Nat} : getText text a b = .ok body ↔ between Char.utf8Size text a b = some body := by
  unfold getText
  cases between Char.utf8Size text a b <;> simp

theorem getText_error {a b : Nat} {e : GlossaryError} (h : getText text a b = .error e) : e = .formatting := by
  unfold getText at h
  split at h
  · cases h
    rfl
  · cases h

/-- A slice has the characters between two positions and what is left there of the marks. -/
theorem slice_ok_iff : t.slice start stop = .ok s ↔ ∃ pre post, t.text = pre ++ (s.text ++ post) ∧
    start = utf16Len pre ∧ stop = utf16Len pre + utf16Len s.text ∧
      s.marks = t.marks.filterMap (TextMark.clip start stop) := by
  constructor
  · intro h
    obtain ⟨a, ha, h⟩ := except_bind_ok.1 h
    obtain ⟨b, hb, h⟩ := except_bind_ok.1 h
    obtain ⟨text, htext, h⟩ := except_bind_ok.1 h
    obtain ⟨rfl, hmarks⟩ := new_ok h
    obtain ⟨pre, post, hsplit, rfl, rfl⟩ := (between_eq_some utf8Size_pos).1 (getText_ok.1 htext)
    -- a byte determines the part before it, and with it the code units
    obtain ⟨p, hp, rfl, hpa⟩ := utf16Byte_ok.1 ha
    obtain ⟨q, hq, rfl, hqb⟩ := utf16Byte_ok.1 hb
    have hpre : p = pre := prefix_eq_of_units_eq utf8Size_pos hp (hsplit ▸ List.prefix_append ..) hpa
    have hbody : q = pre ++ s.text := by
      refine prefix_eq_of_units_eq utf8Size_pos hq ?_ (hqb.trans (units_append ..).symm)
      rw [hsplit, ← List.append_assoc]
      exact List.prefix_append ..
    subst hpre hbody
    exact ⟨p, post, hsplit, rfl, units_append .., hmarks⟩
  · rintro ⟨pre, post, hsplit, rfl, rfl, hmarks⟩
    have hstart : utf16Byte t.text (utf16Len pre) = .ok (byteLen pre) := by
      rw [hsplit]
      exact utf16Byte_append ..
    have hstop : utf16Byte t.text (utf16Len pre + utf16Len s.text) = .ok (byteLen (pre ++ s.text)) := by
      rw [hsplit, ← List.append_assoc, utf16Len, utf16Len, ← units_append]
      exact utf16Byte_append ..
    have htext : getText t.text (byteLen pre) (byteLen (pre ++ s.text)) = .ok s.text :=
      getText_ok.2 ((between_eq_some utf8Size_pos).2 ⟨pre, post, hsplit, rfl, units_append ..⟩)
    refine except_bind_ok.2 ⟨_, hstart, except_bind_ok.2 ⟨_, hstop, except_bind_ok.2 ⟨_, htext, ?_⟩⟩⟩
    rw [← hmarks]
    exact new_self s

/-- Every part of a text can be sliced out. -/
theorem exists_slice (h : t.text = pre ++ (body ++ post)) : ∃ s,
    t.slice (utf16Len pre) (utf16Len pre + utf16Len body) = .ok s ∧ s.text = body := by
  have hchecked : ∀ m ∈ t.marks.filterMap (TextMark.clip (utf16Len pre) (utf16Len pre + utf16Len body)),
      (m.check body).isOk = true := by
    intro m' hm'
    obtain ⟨m, hm, hclip⟩ := List.mem_filterMap.1 hm'
    exact check_clip (h ▸ t.checked m hm) hclip
  exact ⟨⟨body, _, hchecked⟩, slice_ok_iff.2 ⟨pre, post, h, rfl, rfl, rfl⟩, rfl⟩

theorem slice_error {e : GlossaryError} (h : t.slice start stop = .error e) : e = .formatting := by
  rcases except_bind_error.1 h with ha | ⟨a, -, h⟩
  · exact utf16Byte_error ha
  rcases except_bind_error.1 h with hb | ⟨b, -, h⟩
  · exact utf16Byte_error hb
  rcases except_bind_error.1 h with htext | ⟨text, -, hnew⟩
  · exact getText_error htext
  · exact new_error hnew

/-- Clipping a mark twice is clipping it once. -/
theorem clip_clip (m : TextMark) {start stop start' stop' : Nat} (h : start + stop' ≤ stop) :
    (m.clip start stop).bind (TextMark.clip start' stop') = m.clip (start + start') (start + stop') := by
  refine Option.ext fun m' => ?_
  rw [Option.bind_eq_some_iff]
  simp only [clip_eq_some]
  constructor
  · rintro ⟨_, ⟨hlt, rfl⟩, hlt', rfl⟩
    dsimp only at hlt' ⊢
    refine ⟨by omega, ?_⟩
    rw [TextMark.mk.injEq]
    exact ⟨by omega, by omega, rfl⟩
  · rintro ⟨hlt, rfl⟩
    refine ⟨_, ⟨by omega, rfl⟩, ?_⟩
    dsimp only
    refine ⟨by omega, ?_⟩
    rw [TextMark.mk.injEq]
    exact ⟨by omega, by omega, rfl⟩

/-- A slice of a slice is a slice. -/
theorem slice_slice {start' stop' : Nat} (h : t.slice start stop = .ok s) (hle : start + stop' ≤ stop) :
    s.slice start' stop' = t.slice (start + start') (start + stop') := by
  obtain ⟨pre, post, hsplit, rfl, rfl, hmarks⟩ := slice_ok_iff.1 h
  have hclips : s.marks.filterMap (TextMark.clip start' stop') =
      t.marks.filterMap (TextMark.clip (utf16Len pre + start') (utf16Len pre + stop')) := by
    rw [hmarks, List.filterMap_filterMap]
    exact List.filterMap_congr fun m _ => clip_clip m hle
  have hiff : ∀ r, s.slice start' stop' = .ok r ↔ t.slice (utf16Len pre + start') (utf16Len pre + stop') = .ok r := by
    intro r
    rw [slice_ok_iff, slice_ok_iff, hclips]
    constructor
    · rintro ⟨p, q, hs, rfl, rfl, hr⟩
      refine ⟨pre ++ p, q ++ post, ?_, (units_append ..).symm, ?_, hr⟩
      · rw [hsplit, hs]
        simp only [List.append_assoc]
      · rw [utf16Len, utf16Len, utf16Len, utf16Len, units_append, Nat.add_assoc]
    · rintro ⟨p, q, ht, hp, hq, hr⟩
      -- the outer slice begins before the part and ends after it
      have hinitial : ∀ x y, t.text = x ++ y → x <+: t.text := fun x y hxy => ⟨y, hxy.symm⟩
      obtain ⟨p', rfl⟩ : pre <+: p := prefix_of_units_le lenUtf16_pos (hinitial _ _ hsplit) (hinitial _ _ ht)
        (show utf16Len pre ≤ utf16Len p by omega)
      have hinside : pre ++ p' ++ r.text <+: pre ++ s.text := by
        refine prefix_of_units_le lenUtf16_pos (hinitial _ q (by simp only [ht, List.append_assoc]))
          (hinitial _ post (by simp only [hsplit, List.append_assoc])) ?_
        have hlen : utf16Len (pre ++ p' ++ r.text) = utf16Len (pre ++ p') + utf16Len r.text := units_append ..
        have hlen' : utf16Len (pre ++ s.text) = utf16Len pre + utf16Len s.text := units_append ..
        show utf16Len _ ≤ utf16Len _
        omega
      rw [List.append_assoc, List.prefix_append_right_inj] at hinside
      obtain ⟨q', hq'⟩ := hinside
      have hlen : utf16Len (pre ++ p') = utf16Len pre + utf16Len p' := units_append ..
      exact ⟨p', q', by rw [← hq', List.append_assoc], by omega, by omega, hr⟩
  cases hs : s.slice start' stop' with
  | ok r => exact ((hiff r).1 hs).symm
  | error e =>
    cases ht : t.slice (utf16Len pre + start') (utf16Len pre + stop') with
    | ok r =>
      rw [(hiff r).2 ht] at hs
      cases hs
    | error e' => rw [slice_error hs, slice_error ht]

/-- A slice has the styles that the text has. -/
theorem stylesAt_slice {u : Nat} (h : t.slice start stop = .ok s) (hu : start + u < stop) :
    s.stylesAt u = t.stylesAt (start + u) := by
  obtain ⟨-, -, -, -, -, hmarks⟩ := slice_ok_iff.1 h
  unfold stylesAt
  rw [hmarks]
  induction t.marks with
  | nil => rfl
  | cons m marks ih =>
    rw [List.filterMap_cons, List.filter_cons]
    by_cases hlt : max m.start start < min m.stop stop
    · rw [clip_eq_some.2 ⟨hlt, rfl⟩]
      dsimp only
      rw [List.filter_cons]
      dsimp only
      by_cases hcover : m.start ≤ start + u ∧ start + u < m.stop
      · rw [if_pos (by simp; omega), if_pos (by simp; omega), List.map_cons, List.map_cons, ih]
      · rw [if_neg (by simp; omega), if_neg (by simp; omega), ih]
    · have hnone : m.clip start stop = none := by
        unfold TextMark.clip
        exact if_neg hlt
      rw [hnone, if_neg (by simp; omega)]
      exact ih

end StyledText

/-! ## Round trips -/

theorem MarkKind.reads : Lib.Json.Reads MarkKind.toJson MarkKind.ofJson := by
  intro k
  cases k with
  | link url =>
    simp [MarkKind.toJson, MarkKind.ofJson, Lib.Json.onlyFields_obj, Lib.Json.required, Lib.Json.member_obj,
      Lib.Json.asStr, List.lookup_cons]
  | _ => rfl

theorem TextMark.reads : Lib.Json.Reads TextMark.toJson TextMark.ofJson := by
  intro m
  have hstyle := MarkKind.reads m.style
  simp [TextMark.toJson, TextMark.ofJson, Lib.Json.onlyFields_obj, Lib.Json.required, Lib.Json.member_obj, hstyle,
    offsetJson, Lib.Json.asU64, List.lookup_cons]

theorem StyledText.reads : Lib.Json.Reads StyledText.toJson StyledText.ofJson := by
  intro t
  have hmarks := Lib.Json.asList_ofList TextMark.reads t.marks
  simp [StyledText.toJson, StyledText.ofJson, Lib.Json.onlyFields_obj, Lib.Json.required, Lib.Json.member_obj, hmarks,
    Lib.Json.asStr, List.lookup_cons, StyledText.new_self, Except.toOption]

end
end Inoreader.Glossary
