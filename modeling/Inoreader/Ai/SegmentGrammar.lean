import Inoreader.Ai.SegmentScan
import Inoreader.Lib.Lists

/-!
# Responses of segments

`EnvelopeText` is the grammar of a response: an object with the single field `segments`, an array of objects
with exactly the string fields `kind` and `content`. The scanner is followed through such a text.
-/

namespace Inoreader
open Lib Lib.JsonText

/-- An object with exactly the string fields `kind` and `content`. -/
def SegmentText (raw : List Char) (s : Segment) : Prop :=
  ObjectText StringText raw [("kind".toList, s.kind), ("content".toList, s.content)] ∨
    ObjectText StringText raw [("content".toList, s.content), ("kind".toList, s.kind)]

/-- An object with the single field `segments`. -/
def EnvelopeText : List Char → List Segment → Prop :=
  DocumentText fun text segments => ObjectText (ArrayText SegmentText) text [("segments".toList, segments)]

/-! ## What `serde` reads -/

/-- A segment, or an array of its fields. -/
def SegmentValue (raw : List Char) (s : Segment) : Prop := SegmentText raw s ∨ ∃ tail, raw = '[' :: tail

theorem segmentOf_some {members : List (List Char × List Char)} {s : Segment} (h : segmentOf members = some s) :
    members = [("kind".toList, s.kind), ("content".toList, s.content)] ∨
      members = [("content".toList, s.content), ("kind".toList, s.kind)] := by
  unfold segmentOf at h
  split at h
  · split at h
    · rename_i hkeys
      cases h
      exact .inl (by rw [hkeys.1, hkeys.2])
    · split at h
      · rename_i hkeys
        cases h
        exact .inr (by rw [hkeys.1, hkeys.2])
      · cases h
  · cases h

theorem readString_array : Sound (ArrayText StringText) (readArray readString) := readList_sound readString_sound

theorem readString_object : Sound (ObjectText StringText) (readObject readString) :=
  readList_sound (readMember_sound readString_sound)

theorem readSegment_sound : Sound SegmentValue readSegment := by
  intro cs s rest h
  unfold readSegment at h
  split at h
  · unfold segmentArray at h
    split at h
    · rename_i kind content more hread
      cases h
      obtain ⟨raw, hraw, body, htext, -⟩ := readString_array _ _ _ hread
      exact ⟨raw, hraw, .inr ⟨_, htext⟩⟩
    · cases h
  · unfold segmentFields at h
    split at h
    · rename_i members more hread
      obtain ⟨seg, hseg, heq⟩ := Option.map_eq_some_iff.1 h
      cases heq
      obtain ⟨raw, hraw, htext⟩ := readString_object _ _ _ hread
      refine ⟨raw, hraw, .inl ?_⟩
      rcases segmentOf_some hseg with rfl | rfl
      · exact .inl htext
      · exact .inr htext
    · cases h

theorem readString_object_complete : Complete (ObjectText StringText) (readObject readString) :=
  readList_complete (readMember_complete readString_complete) (.inr rfl) (.inr rfl)

theorem readSegment_fields {raw : List Char} {members : List (List Char × List Char)}
    (h : ObjectText StringText raw members) (rest : List Char) :
    readSegment (raw ++ rest) = (segmentOf members).map fun s => (s, rest) := by
  have hread := readString_object_complete.reads raw members rest h
  obtain ⟨body, rfl, -⟩ := h
  show segmentFields (readObject readString _) = _
  rw [hread]
  rfl

theorem readSegment_complete : Complete SegmentText readSegment := by
  refine ⟨?_, ?_⟩
  · rintro raw s rest (h | h)
    · rw [readSegment_fields h]
      rfl
    · rw [readSegment_fields h]
      rfl
  · rintro raw s (h | h)
    · exact readString_object_complete.opens _ _ h
    · exact readString_object_complete.opens _ _ h

theorem readSegments_sound : Sound (ArrayText SegmentValue) (readArray readSegment) := readList_sound readSegment_sound

/-- What `serde` reads as a response: the single field, or an array. -/
theorem readEnvelope_sound {r : List Char} {segments : List Segment} (h : readDocument readEnvelope r = some segments) :
    (∃ w tail, r = w ++ '[' :: tail ∧ Space w) ∨
      DocumentText (fun text segments => ObjectText (ArrayText SegmentValue) text [("segments".toList, segments)]) r
        segments := by
  have hsound : Sound (fun text segments => (∃ tail, text = '[' :: tail) ∨
      ObjectText (ArrayText SegmentValue) text [("segments".toList, segments)]) readEnvelope := by
    intro cs segs rest h
    unfold readEnvelope at h
    split at h
    · unfold envelopeArray at h
      split at h
      · rename_i segs' more hread
        cases h
        obtain ⟨raw, hraw, body, htext, -⟩ := readList_sound readSegments_sound _ _ _ hread
        exact ⟨raw, hraw, .inl ⟨_, htext⟩⟩
      · cases h
    · unfold envelopeFields at h
      split at h
      · rename_i key segs' more hread
        split at h
        · rename_i hkey
          cases h
          obtain ⟨raw, hraw, htext⟩ := readList_sound (readMember_sound readSegments_sound) _ _ _ hread
          rw [hkey] at htext
          exact ⟨raw, hraw, .inr htext⟩
        · cases h
      · cases h
  obtain ⟨w, text, w', rfl, hw, hw', ⟨tail, rfl⟩ | htext⟩ := readDocument_sound hsound h
  · exact .inl ⟨w, tail ++ w', rfl, hw⟩
  · exact .inr ⟨w, text, w', rfl, hw, hw', htext⟩

theorem readSegments_complete : Complete (ArrayText SegmentText) (readArray readSegment) :=
  readList_complete readSegment_complete (.inl rfl) (.inl rfl)

theorem readSegments_object_complete : Complete (ObjectText (ArrayText SegmentText)) (readObject (readArray readSegment)) :=
  readList_complete (readMember_complete readSegments_complete) (.inr rfl) (.inr rfl)

theorem readEnvelope_complete {r : List Char} {segments : List Segment} (h : EnvelopeText r segments) :
    readDocument readEnvelope r = some segments := by
  refine readDocument_complete ⟨?_, ?_⟩ h
  · intro raw segs rest htext
    have hread := readSegments_object_complete.reads raw _ rest htext
    obtain ⟨body, rfl, -⟩ := htext
    show envelopeFields (readObject (readArray readSegment) _) = _
    rw [hread]
    rfl
  · intro raw segs htext
    exact readSegments_object_complete.opens _ _ htext

/-- A response that begins as an array fails at its bracket. -/
theorem readEnvelope_bracket {w : List Char} (hw : Space w) : readDocument readEnvelope (w ++ ['[', ']', '}']) = none := by
  have hskip : skipSpace (w ++ ['[', ']', '}']) = ['[', ']', '}'] := by
    rw [skipSpace_append hw]
    rfl
  unfold readDocument
  rw [hskip]
  rfl

/-! ## Text that the scanner passes over -/

namespace VerifiedSegments
variable {s : VerifiedSegments} {c : Char} {a b : List Char} {p : VerifiedSegments → Prop}

def advance (n : Nat) (s : VerifiedSegments) : VerifiedSegments := { s with cursor := s.cursor + n }

theorem advance_advance (m n : Nat) (s : VerifiedSegments) : advance n (advance m s) = advance (m + n) s := by
  simp only [advance, Nat.add_assoc]

/-- In a state of `p` the scanner only moves on. -/
def Quiet (p : VerifiedSegments → Prop) (text : List Char) : Prop :=
  ∀ s, p s → steps text s = .ok (advance text.length s)

def Stays (p : VerifiedSegments → Prop) : Prop := ∀ n s, p s → p (advance n s)

theorem quiet_nil : Quiet p [] := fun _ _ => rfl

theorem Quiet.append (hp : Stays p) (ha : Quiet p a) (hb : Quiet p b) : Quiet p (a ++ b) := by
  intro s hs
  rw [steps_append, ha s hs]
  show steps b (advance a.length s) = _
  rw [hb _ (hp _ s hs), advance_advance, List.length_append]

theorem quiet_char (h : ∀ s, p s → scanned s c = .ok (s, false)) (hp : Stays p) : Quiet p [c] := by
  intro s hs
  have hstep := h _ (hp 1 s hs)
  show (scanned (advance 1 s) c >>= _) = _
  rw [hstep]
  rfl

theorem quiet_of_chars (hp : Stays p) {text : List Char} (h : ∀ c ∈ text, Quiet p [c]) : Quiet p text := by
  induction text with
  | nil => exact quiet_nil
  | cons c text ih =>
    have hhead := h c List.mem_cons_self
    have htail := ih fun d hd => h d (List.mem_cons_of_mem _ hd)
    exact hhead.append hp htail

/-- Before the array. -/
structure InHeader (s : VerifiedSegments) : Prop where
  finished : s.arrayFinished = false
  quoted : s.quoted = false
  escaped : s.escaped = false
  started : s.arrayStarted = false

/-- Between the segments. -/
structure InArray (s : VerifiedSegments) : Prop where
  finished : s.arrayFinished = false
  quoted : s.quoted = false
  started : s.arrayStarted = true
  closed : s.objectStart = none

/-- In a segment. -/
structure InObject (s : VerifiedSegments) : Prop where
  finished : s.arrayFinished = false
  quoted : s.quoted = false
  escaped : s.escaped = false
  started : s.arrayStarted = true
  opened : ∃ start, s.objectStart = some start

/-- In a string. -/
structure InString (s : VerifiedSegments) : Prop where
  finished : s.arrayFinished = false
  quoted : s.quoted = true
  escaped : s.escaped = false

theorem stays_header : Stays InHeader := fun _ _ h => ⟨h.finished, h.quoted, h.escaped, h.started⟩

theorem stays_array : Stays InArray := fun _ _ h => ⟨h.finished, h.quoted, h.started, h.closed⟩

theorem stays_object : Stays InObject := fun _ _ h => ⟨h.finished, h.quoted, h.escaped, h.started, h.opened⟩

theorem stays_string : Stays InString := fun _ _ h => ⟨h.finished, h.quoted, h.escaped⟩

theorem quiet_header (hquote : c ≠ '"') (hbracket : c ≠ '[') : Quiet InHeader [c] := by
  refine quiet_char ?_ stays_header
  intro s h
  simp [scanned, h.finished, h.quoted, h.started, hquote, hbracket]

theorem quiet_array (hspace : isSpace c = true) : Quiet InArray [c] := by
  have hquote : c ≠ '"' := by
    rintro rfl
    cases hspace
  have hascii : isAsciiSpace c = true := by
    simp only [isSpace, isAsciiSpace, Bool.or_eq_true] at hspace ⊢
    exact .inl hspace
  refine quiet_char ?_ stays_array
  intro s h
  simp [scanned, h.finished, h.quoted, h.started, h.closed, hquote, hascii]

theorem quiet_object (hquote : c ≠ '"') (hopen : c ≠ '{') (hclose : c ≠ '}') : Quiet InObject [c] := by
  refine quiet_char ?_ stays_object
  intro s h
  obtain ⟨start, hstart⟩ := h.opened
  simp [scanned, h.finished, h.quoted, h.started, hstart, hquote, hopen, hclose]

theorem quiet_string (hquote : c ≠ '"') (hslash : c ≠ '\\') : Quiet InString [c] := by
  refine quiet_char ?_ stays_string
  intro s h
  simp [scanned, h.finished, h.quoted, h.escaped, hquote, hslash]

theorem isSpace_ne {d : Char} (hc : isSpace c = true) (hd : isSpace d = false) : c ≠ d := by
  rintro rfl
  rw [hc] at hd
  cases hd

theorem quiet_space_header {w : List Char} (hw : Space w) : Quiet InHeader w :=
  quiet_of_chars stays_header fun _ hc => quiet_header (isSpace_ne (hw _ hc) rfl) (isSpace_ne (hw _ hc) rfl)

theorem quiet_space_array {w : List Char} (hw : Space w) : Quiet InArray w :=
  quiet_of_chars stays_array fun _ hc => quiet_array (hw _ hc)

theorem quiet_space_object {w : List Char} (hw : Space w) : Quiet InObject w :=
  quiet_of_chars stays_object fun _ hc =>
    quiet_object (isSpace_ne (hw _ hc) rfl) (isSpace_ne (hw _ hc) rfl) (isSpace_ne (hw _ hc) rfl)

/-- A backslash and the character after it. -/
theorem quiet_escape (e : Char) : Quiet InString ['\\', e] := by
  intro s h
  have hfirst : scanned (advance 1 s) '\\' = .ok ({ advance 1 s with escaped := true }, false) := by
    simp [scanned, advance, h.finished, h.quoted, h.escaped]
  have hsecond : scanned (advance 1 { advance 1 s with escaped := true }) e = .ok (advance 2 s, false) := by
    simp [scanned, advance, h.finished, h.quoted, h.escaped]
  show (scanned (advance 1 s) '\\' >>= _) = _
  rw [hfirst]
  show (scanned (advance 1 { advance 1 s with escaped := true }) e >>= _) = _
  rw [hsecond]
  rfl

theorem quiet_hex4 {a b c d : Char} {n : Nat} (h : hex4 a b c d = some n) : Quiet InString [a, b, c, d] := by
  have hquiet : ∀ {e : Char} {m : Nat}, hexDigit e = some m → Quiet InString [e] := by
    intro e m he
    exact quiet_string (hexDigit_ne he).1 (hexDigit_ne he).2
  unfold hex4 at h
  split at h
  · rename_i ha hb hc hd
    exact (hquiet ha).append stays_string ((hquiet hb).append stays_string ((hquiet hc).append stays_string (hquiet hd)))
  · cases h

theorem quiet_charText {raw : List Char} {v : Char} (h : CharText raw v) : Quiet InString raw := by
  cases h with
  | plain h =>
    refine quiet_string ?_ ?_
    · rintro rfl
      cases h
    · rintro rfl
      cases h
  | escape _ => exact quiet_escape _
  | unicode h _ _ => exact (quiet_escape 'u').append stays_string (quiet_hex4 h)
  | pair h h' _ _ =>
    refine (quiet_escape 'u').append stays_string ((quiet_hex4 h).append stays_string ?_)
    exact (quiet_escape 'u').append stays_string (quiet_hex4 h')

theorem quiet_charsText {raw v : List Char} (h : CharsText raw v) : Quiet InString raw := by
  induction h with
  | nil => exact quiet_nil
  | cons hc _ ih => exact (quiet_charText hc).append stays_string ih

/-- A string, where one may stand. -/
theorem quiet_stringText {raw v : List Char} (h : StringText raw v)
    (hp : ∀ s, p s → s.arrayFinished = false ∧ s.quoted = false ∧ s.escaped = false ∧
      (s.arrayStarted = true → s.objectStart ≠ none)) : Quiet p raw := by
  obtain ⟨body, rfl, hbody⟩ := h
  intro s hs
  obtain ⟨hfinished, hquoted, hescaped, hopen⟩ := hp s hs
  have hfirst : scanned (advance 1 s) '"' = .ok ({ advance 1 s with quoted := true }, false) := by
    simp [scanned, advance, hfinished, hquoted]
    exact hopen
  have hbody' := quiet_charsText hbody { advance 1 s with quoted := true } ⟨hfinished, rfl, hescaped⟩
  have hlast : scanned (advance 1 (advance body.length { advance 1 s with quoted := true })) '"' =
      .ok (advance (body.length + 2) s, false) := by
    simp [scanned, advance, hfinished, hquoted, hescaped]
    omega
  show (scanned (advance 1 s) '"' >>= fun r => steps (body ++ ['"']) r.1) = _
  rw [hfirst]
  show steps (body ++ ['"']) { advance 1 s with quoted := true } = _
  rw [steps_append, hbody']
  show (scanned (advance 1 (advance body.length { advance 1 s with quoted := true })) '"' >>= _) = _
  rw [hlast]
  simp [steps, bind, Except.bind]

theorem quiet_header_string {raw v : List Char} (h : StringText raw v) : Quiet InHeader raw := by
  refine quiet_stringText h fun s hs => ⟨hs.finished, hs.quoted, hs.escaped, fun hstarted => ?_⟩
  rw [hs.started] at hstarted
  cases hstarted

theorem quiet_object_string {raw v : List Char} (h : StringText raw v) : Quiet InObject raw := by
  refine quiet_stringText h fun s hs => ⟨hs.finished, hs.quoted, hs.escaped, fun _ => ?_⟩
  obtain ⟨start, hstart⟩ := hs.opened
  rw [hstart]
  exact Option.some_ne_none _

theorem quiet_member {raw : List Char} {m : List Char × List Char} (h : MemberText StringText raw m) : Quiet InObject raw := by
  obtain ⟨key, w, w', v, rfl, hkey, hw, hw', hv⟩ := h
  have hcolon : Quiet InObject [':'] := quiet_object (by decide) (by decide) (by decide)
  refine (quiet_object_string hkey).append stays_object ((quiet_space_object hw).append stays_object ?_)
  exact hcolon.append stays_object ((quiet_space_object hw').append stays_object (quiet_object_string hv))

theorem quiet_members {raw : List Char} {ms : List (List Char × List Char)} (h : ItemsText (MemberText StringText) raw ms) :
    Quiet InObject raw := by
  have hcomma : Quiet InObject [','] := quiet_object (by decide) (by decide) (by decide)
  induction h with
  | one hw hm hw' =>
    exact (quiet_space_object hw).append stays_object ((quiet_member hm).append stays_object (quiet_space_object hw'))
  | cons hw hm hw' _ ih =>
    refine (quiet_space_object hw).append stays_object ((quiet_member hm).append stays_object ?_)
    exact (quiet_space_object hw').append stays_object (hcomma.append stays_object ih)

/-! ## The segments -/

/-- The content with one more segment. -/
def glue (content rendered : List Char) : List Char :=
  if content = [] then rendered else content ++ '\n' :: '\n' :: rendered

section
variable (r article : List Char) (limit : Nat)

/-- The scanner between two segments. -/
def between (n emitted : Nat) (content : List Char) (separator : Bool) : VerifiedSegments :=
  { raw := r, cursor := n, arrayStarted := true, arrayFinished := false, objectStart := none, depth := 0
    quoted := false, escaped := false, separator, article, emitted, content, limit }

/-- The scanner in a segment. -/
def inside (n start emitted : Nat) (content : List Char) : VerifiedSegments :=
  { raw := r, cursor := n, arrayStarted := true, arrayFinished := false, objectStart := some start, depth := 1
    quoted := false, escaped := false, separator := false, article, emitted, content, limit }

end

variable {r article content : List Char} {limit emitted : Nat} {segment : Segment} {segments : List Segment}

theorem between_array (n : Nat) (separator : Bool) : InArray (between r article limit n emitted content separator) :=
  ⟨rfl, rfl, rfl, rfl⟩

theorem steps_space {w : List Char} (hw : Space w) (n : Nat) (separator : Bool) :
    steps w (between r article limit n emitted content separator) =
      .ok (between r article limit (n + w.length) emitted content separator) :=
  quiet_space_array hw _ (between_array n separator)

theorem steps_cons (c : Char) (text : List Char) (s : VerifiedSegments) :
    steps (c :: text) s = scanned (advance 1 s) c >>= fun r => steps text r.1 := rfl

theorem steps_comma (text : List Char) (n : Nat) :
    steps (',' :: text) (between r article limit n emitted content true) =
      steps text (between r article limit (n + 1) emitted content false) := rfl

/-- A segment that is not an object. -/
theorem steps_bracket (text : List Char) (n : Nat) :
    steps ('[' :: text) (between r article limit n emitted content false) = .error .protocol := rfl

theorem steps_close (text : List Char) (n : Nat) (separator : Bool) :
    steps (']' :: text) (between r article limit n emitted content separator) =
      .ok { between r article limit (n + 1 + text.length) emitted content separator with arrayFinished := true } := by
  have hrest : ∀ text n, steps text { between r article limit n emitted content separator with arrayFinished := true } =
      .ok { between r article limit (n + text.length) emitted content separator with arrayFinished := true } := by
    intro text
    induction text with
    | nil => exact fun n => rfl
    | cons c text ih =>
      intro n
      rw [List.length_cons, Nat.add_comm text.length, ← Nat.add_assoc]
      exact ih (n + 1)
  exact hrest text (n + 1)

/-- The object of a segment, whichever order its fields have. -/
theorem segmentText_shape {raw : List Char} (h : SegmentText raw segment) :
    ∃ body, raw = '{' :: (body ++ ['}']) ∧ Quiet InObject body := by
  rcases h with ⟨body, rfl, h⟩ | ⟨body, rfl, h⟩
  · rcases h with ⟨-, hw⟩ | h
    · exact ⟨body, rfl, quiet_space_object hw⟩
    · exact ⟨body, rfl, quiet_members h⟩
  · rcases h with ⟨-, hw⟩ | h
    · exact ⟨body, rfl, quiet_space_object hw⟩
    · exact ⟨body, rfl, quiet_members h⟩

theorem emit_of_read {s : VerifiedSegments} {start : Nat}
    (h : readDocument readSegment ((s.raw.take s.cursor).drop start) = some segment) :
    emit s start = (renderSegment segment s.article).map fun rendered =>
      { s with objectStart := none, content := glue s.content rendered, emitted := s.emitted + 1, separator := true } := by
  unfold emit
  rw [h]
  show (renderSegment segment s.article >>= _) = _
  cases renderSegment segment s.article with
  | error e => rfl
  | ok rendered => rfl

theorem steps_segment {pre raw post : List Char} (h : SegmentText raw segment) (hr : r = pre ++ (raw ++ post)) :
    steps raw (between r article limit pre.length emitted content false) =
      (renderSegment segment article).map fun rendered =>
        between r article limit (pre.length + raw.length) (emitted + 1) (glue content rendered) true := by
  have hread : readDocument readSegment raw = some segment :=
    readDocument_complete readSegment_complete ⟨[], raw, [], by simp, space_nil, space_nil, h⟩
  obtain ⟨body, hraw, hbody⟩ := segmentText_shape h
  have hlen : pre.length + raw.length = pre.length + 1 + body.length + 1 := by
    rw [hraw]
    simp only [List.length_cons, List.length_append, List.length_nil]
    omega
  have hslice : (r.take (pre.length + 1 + body.length + 1)).drop pre.length = raw := by
    rw [← hlen, hr, ← List.append_assoc, ← List.length_append, List.take_left, List.drop_left]
  have hinside := hbody (inside r article limit (pre.length + 1) pre.length emitted content) ⟨rfl, rfl, rfl, rfl, _, rfl⟩
  have hopen : steps raw (between r article limit pre.length emitted content false) =
      steps (body ++ ['}']) (inside r article limit (pre.length + 1) pre.length emitted content) := by
    rw [hraw]
    rfl
  have hclose : scanned (inside r article limit (pre.length + 1 + body.length + 1) pre.length emitted content) '}' =
      (emit { inside r article limit (pre.length + 1 + body.length + 1) pre.length emitted content with depth := 0 }
        pre.length).map fun s => (s, true) := rfl
  have hsegment : readDocument readSegment ((r.take (pre.length + 1 + body.length + 1)).drop pre.length) = some segment := by
    rw [hslice, hread]
  rw [hopen, steps_append, hinside]
  show (scanned (inside r article limit (pre.length + 1 + body.length + 1) pre.length emitted content) '}' >>= _) = _
  rw [hclose, emit_of_read hsegment, hlen]
  show (((renderSegment segment article).map _).map _ >>= _) = _
  cases renderSegment segment article with
  | error e => rfl
  | ok rendered => rfl

/-- Space and a segment. -/
theorem steps_space_segment {pre w raw post : List Char} (hw : Space w) (h : SegmentText raw segment)
    (hr : r = pre ++ (w ++ (raw ++ post))) (more : List Char) :
    steps (w ++ (raw ++ more)) (between r article limit pre.length emitted content false) =
      (renderSegment segment article).map (fun rendered =>
        between r article limit (pre.length + w.length + raw.length) (emitted + 1) (glue content rendered) true) >>=
          steps more := by
  have hr' : r = (pre ++ w) ++ (raw ++ post) := by rw [hr, List.append_assoc]
  have hsegment : steps raw (between r article limit (pre ++ w).length emitted content false) = _ := steps_segment h hr'
  rw [List.length_append] at hsegment
  rw [steps_append, steps_space hw]
  show steps (raw ++ more) (between r article limit (pre.length + w.length) emitted content false) = _
  rw [steps_append, hsegment]

theorem steps_items {pre body post : List Char} (h : ItemsText SegmentText body segments) (hr : r = pre ++ (body ++ post))
    (emitted : Nat) (content : List Char) :
    steps body (between r article limit pre.length emitted content false) =
      (segments.mapM fun s => renderSegment s article).map fun rendered =>
        between r article limit (pre.length + body.length) (emitted + segments.length) (rendered.foldl glue content) true := by
  induction h generalizing pre emitted content with
  | @one w raw w' segment hw hs hw' =>
    have hr' : r = pre ++ (w ++ (raw ++ (w' ++ post))) := by simpa only [List.append_assoc] using hr
    rw [steps_space_segment hw hs hr']
    cases hrender : renderSegment segment article with
    | error e => simp [hrender, Except.map, bind, Except.bind]
    | ok rendered =>
      show steps w' _ = _
      rw [steps_space hw']
      simp only [List.mapM_cons, List.mapM_nil, hrender, List.length_append, List.length_cons, List.length_nil]
      show _ = Except.ok (between _ _ _ _ _ _ _)
      rw [← Nat.add_assoc, ← Nat.add_assoc]
      rfl
  | @cons w raw w' rest segment segments hw hs hw' _ ih =>
    have hr' : r = pre ++ (w ++ (raw ++ (w' ++ ',' :: (rest ++ post)))) := by
      simpa only [List.append_assoc, List.cons_append] using hr
    have hr'' : r = (pre ++ (w ++ (raw ++ (w' ++ [','])))) ++ (rest ++ post) := by
      simpa only [List.append_assoc, List.cons_append, List.nil_append] using hr
    rw [steps_space_segment hw hs hr']
    cases hrender : renderSegment segment article with
    | error e => simp [hrender, Except.map, bind, Except.bind]
    | ok rendered =>
      have hrest := ih hr'' (emitted + 1) (glue content rendered)
      have hn : pre.length + w.length + raw.length + w'.length + 1 = (pre ++ (w ++ (raw ++ (w' ++ [','])))).length := by
        simp only [List.length_append, List.length_cons, List.length_nil]
        omega
      show steps (w' ++ ',' :: rest) _ = _
      rw [steps_append, steps_space hw']
      show steps (',' :: rest) (between r article limit (pre.length + w.length + raw.length + w'.length) (emitted + 1)
        (glue content rendered) true) = _
      rw [steps_comma, hn, hrest]
      simp only [List.mapM_cons, hrender]
      show _ = ((segments.mapM fun s => renderSegment s article) >>= _).map _
      cases segments.mapM fun s => renderSegment s article with
      | error e => rfl
      | ok rendereds =>
        show Except.ok (between _ _ _ _ _ _ _) = Except.ok (between _ _ _ _ _ _ _)
        rw [← hn, show (w ++ (raw ++ (w' ++ ',' :: rest))).length = w.length + raw.length + w'.length + 1 + rest.length by
          simp only [List.length_append, List.length_cons]; omega]
        simp only [List.length_cons, List.foldl_cons]
        congr 2
        · omega
        · omega

/-- What the scanner gets through is a list of objects. -/
theorem items_of_steps {pre body post : List Char} (h : ItemsText SegmentValue body segments)
    (hr : r = pre ++ (body ++ post)) {emitted : Nat} {content : List Char} {s' : VerifiedSegments}
    (hok : steps body (between r article limit pre.length emitted content false) = .ok s') :
    ItemsText SegmentText body segments := by
  induction h generalizing pre emitted content s' with
  | @one w raw w' segment hw hs hw' =>
    rcases hs with hs | ⟨tail, rfl⟩
    · exact .one hw hs hw'
    · rw [steps_append, steps_space hw] at hok
      cases hok
  | @cons w raw w' rest segment segments hw hs hw' _ ih =>
    rcases hs with hs | ⟨tail, rfl⟩
    · have hr' : r = pre ++ (w ++ (raw ++ (w' ++ ',' :: (rest ++ post)))) := by
        simpa only [List.append_assoc, List.cons_append] using hr
      have hr'' : r = (pre ++ (w ++ (raw ++ (w' ++ [','])))) ++ (rest ++ post) := by
        simpa only [List.append_assoc, List.cons_append, List.nil_append] using hr
      rw [steps_space_segment hw hs hr'] at hok
      obtain ⟨t, ht, hok⟩ := except_bind_ok.1 hok
      obtain ⟨rendered, -, rfl⟩ := except_map_ok.1 ht
      rw [steps_append, steps_space hw'] at hok
      replace hok : steps (',' :: rest) (between r article limit (pre.length + w.length + raw.length + w'.length) (emitted + 1)
        (glue content rendered) true) = .ok s' := hok
      have hn : pre.length + w.length + raw.length + w'.length + 1 = (pre ++ (w ++ (raw ++ (w' ++ [','])))).length := by
        simp only [List.length_append, List.length_cons, List.length_nil]
        omega
      rw [steps_comma, hn] at hok
      exact .cons hw hs hw' (ih hr'' hok)
    · rw [steps_append, steps_space hw] at hok
      cases hok

/-! ## The whole response -/

theorem not_itemsText_nil {α : Type} {item : List Char → α → Prop} {raw : List Char} : ¬ ItemsText item raw [] := by
  intro h
  cases h

/-- The parts of a response, whatever the items of its array are. -/
theorem envelope_shape {X : List Char → Segment → Prop}
    (h : DocumentText (fun text segments => ObjectText (ArrayText X) text [("segments".toList, segments)]) r segments) :
    ∃ head arr tail, r = head ++ '[' :: (arr ++ ']' :: tail) ∧ Quiet InHeader head ∧
      EnvelopeText (head ++ ['[', ']', '}']) [] ∧ ((segments = [] ∧ Space arr) ∨ ItemsText X arr segments) ∧
      ∀ segments', ((segments' = [] ∧ Space arr) ∨ ItemsText SegmentText arr segments') → EnvelopeText r segments' := by
  obtain ⟨w₀, text, w₁, rfl, hw₀, hw₁, body, rfl, hbody⟩ := h
  rcases hbody with ⟨hnil, -⟩ | hbody
  · cases hnil
  · cases hbody with
    | cons _ _ _ hrest => exact absurd hrest not_itemsText_nil
    | @one w m w' _ hw hm hw' =>
      obtain ⟨key, u, u', v, rfl, hkey, hu, hu', arr, rfl, harr⟩ := hm
      have hbrace : Quiet InHeader ['{'] := quiet_header (by decide) (by decide)
      have hcolon : Quiet InHeader [':'] := quiet_header (by decide) (by decide)
      refine ⟨w₀ ++ '{' :: (w ++ (key ++ (u ++ ':' :: u'))), arr, w' ++ '}' :: w₁, ?_, ?_, ?_, harr, ?_⟩
      · simp only [List.append_assoc, List.cons_append, List.nil_append]
      · refine (quiet_space_header hw₀).append stays_header (hbrace.append stays_header ?_)
        refine (quiet_space_header hw).append stays_header ((quiet_header_string hkey).append stays_header ?_)
        exact (quiet_space_header hu).append stays_header (hcolon.append stays_header (quiet_space_header hu'))
      · refine ⟨w₀, '{' :: ((w ++ ((key ++ (u ++ ':' :: (u' ++ ['[', ']']))) ++ [])) ++ ['}']), [], ?_, hw₀, space_nil, _, rfl, ?_⟩
        · simp only [List.append_assoc, List.cons_append, List.nil_append]
        · refine .inr (.one hw ⟨key, u, u', ['[', ']'], rfl, hkey, hu, hu', [], rfl, .inl ⟨rfl, space_nil⟩⟩ space_nil)
      · intro segments' hsegments'
        refine ⟨w₀, _, w₁, rfl, hw₀, hw₁, _, rfl, ?_⟩
        exact .inr (.one hw ⟨key, u, u', _, rfl, hkey, hu, hu', arr, rfl, hsegments'⟩ hw')

/-- The scanner at the bracket that opens the array. -/
theorem steps_to_bracket {head rest : List Char} (hr : r = head ++ '[' :: rest) (hquiet : Quiet InHeader head) :
    steps r (extend r (new article limit)) =
      scanned { between r article limit (head.length + 1) 0 [] false with arrayStarted := false } '[' >>= fun x =>
        steps rest x.1 := by
  have hbefore : advance 1 (advance head.length (extend r (new article limit))) =
      { between r article limit (head.length + 1) 0 [] false with arrayStarted := false } := by
    simp [advance, extend, new, between]
  have hsteps := hquiet (extend r (new article limit)) ⟨rfl, rfl, rfl, rfl⟩
  have hall : steps (head ++ '[' :: rest) (extend r (new article limit)) =
      scanned (advance 1 (advance head.length (extend r (new article limit)))) '[' >>= fun x => steps rest x.1 := by
    rw [steps_append, hsteps]
    rfl
  rw [← hr, hbefore] at hall
  exact hall

theorem take_bracket {head rest : List Char} (hr : r = head ++ '[' :: rest) :
    r.take (head.length + 1) ++ [']', '}'] = head ++ ['[', ']', '}'] := by
  rw [hr, List.take_length_add_append]
  simp

theorem steps_header {head rest : List Char} {segs : List Segment} (hr : r = head ++ '[' :: rest)
    (hquiet : Quiet InHeader head) (hread : readDocument readEnvelope (head ++ ['[', ']', '}']) = some segs) :
    steps r (extend r (new article limit)) = steps rest (between r article limit (head.length + 1) 0 [] false) := by
  have hbracket : scanned { between r article limit (head.length + 1) 0 [] false with arrayStarted := false } '[' =
      .ok (between r article limit (head.length + 1) 0 [] false, false) := by
    simp [scanned, between, take_bracket hr, hread]
  rw [steps_to_bracket hr hquiet, hbracket]
  rfl

/-- A response that begins as an array is refused. -/
theorem steps_array {w tail : List Char} (hr : r = w ++ '[' :: tail) (hw : Space w) :
    steps r (extend r (new article limit)) = .error .protocol := by
  have hbracket : scanned { between r article limit (w.length + 1) 0 [] false with arrayStarted := false } '[' =
      .error .protocol := by
    simp [scanned, between, take_bracket hr, readEnvelope_bracket hw]
  rw [steps_to_bracket hr (quiet_space_header hw), hbracket]
  rfl

theorem steps_arr {head arr tail : List Char} (hr : r = head ++ '[' :: (arr ++ ']' :: tail))
    (harr : (segments = [] ∧ Space arr) ∨ ItemsText SegmentText arr segments) :
    steps (arr ++ ']' :: tail) (between r article limit (head.length + 1) 0 [] false) =
      (segments.mapM fun s => renderSegment s article).map fun rendered =>
        { between r article limit r.length segments.length (rendered.foldl glue []) (!segments.isEmpty) with
          arrayFinished := true } := by
  have hlen : head.length + 1 + arr.length + 1 + tail.length = r.length := by
    rw [hr]
    simp only [List.length_append, List.length_cons]
    omega
  rcases harr with ⟨rfl, hspace⟩ | hitems
  · rw [steps_append, steps_space hspace]
    refine (steps_close tail (head.length + 1 + arr.length) false).trans ?_
    rw [hlen]
    rfl
  · have hr' : r = (head ++ ['[']) ++ (arr ++ ']' :: tail) := by simpa using hr
    have hsteps : steps arr (between r article limit (head ++ ['[']).length 0 [] false) = _ := steps_items hitems hr' 0 []
    have hne : segments.isEmpty = false := by
      cases segments with
      | nil => exact absurd hitems not_itemsText_nil
      | cons _ _ => rfl
    rw [List.length_append, List.length_singleton] at hsteps
    rw [steps_append, hsteps, hne]
    cases segments.mapM fun s => renderSegment s article with
    | error e => rfl
    | ok rendered =>
      refine (steps_close tail (head.length + 1 + arr.length) true).trans ?_
      rw [hlen, Nat.zero_add]
      rfl

/-! ## The content -/

theorem intercalate_glue (sep c x : List Char) (xs : List (List Char)) :
    sep.intercalate ((c ++ (sep ++ x)) :: xs) = sep.intercalate (c :: x :: xs) := by
  cases xs with
  | nil => simp [List.intercalate_cons_cons, List.intercalate_singleton]
  | cons y ys => simp [List.intercalate_cons_cons]

theorem foldl_glue {content : List Char} (hne : content ≠ []) (rendered : List (List Char)) :
    rendered.foldl glue content = ['\n', '\n'].intercalate (content :: rendered) := by
  induction rendered generalizing content with
  | nil => exact List.intercalate_singleton.symm
  | cons x xs ih =>
    have hglue : glue content x = content ++ (['\n', '\n'] ++ x) := if_neg hne
    rw [List.foldl_cons, hglue, ih (by simp [hne]), intercalate_glue]

theorem renderSegment_ne_nil {rendered : List Char} (h : renderSegment segment article = .ok rendered) : rendered ≠ [] := by
  unfold renderSegment at h
  split at h
  · cases h
  · rename_i hne
    split at h
    · split at h
      · cases h
      · cases h
        exact hne
    · split at h
      · split at h
        · cases h
        · cases h
          cases hlines : segment.content.splitOn '\n' with
          | nil => exact absurd hlines (List.splitOn_ne_nil _ _)
          | cons x xs =>
            cases xs with
            | nil => simp [List.intercalate_singleton]
            | cons y ys => simp [List.intercalate_cons_cons]
      · cases h

theorem content_eq {rendered : List (List Char)} (h : (segments.mapM fun s => renderSegment s article) = .ok rendered) :
    rendered.foldl glue [] = ['\n', '\n'].intercalate rendered := by
  cases rendered with
  | nil => rfl
  | cons x xs =>
    have hx : x ≠ [] := by
      cases segments with
      | nil => cases h
      | cons segment segments =>
        rw [List.mapM_cons] at h
        obtain ⟨y, hy, h⟩ := except_bind_ok.1 h
        obtain ⟨ys, -, h⟩ := except_bind_ok.1 h
        cases h
        exact renderSegment_ne_nil hy
    rw [List.foldl_cons]
    exact foldl_glue hx xs

/-- The outcome of a response that is scanned whole. -/
def scannedOutcome (r article : List Char) (limit : Nat) : Except AiError (List Char) :=
  steps r (extend r (new article limit)) >>= finish

theorem outcome_of_envelope (h : EnvelopeText r segments) (hne : segments ≠ []) {rendered : List (List Char)}
    (hrender : (segments.mapM fun s => renderSegment s article) = .ok rendered) :
    scannedOutcome r article limit = .ok (['\n', '\n'].intercalate rendered) := by
  have hread := readEnvelope_complete h
  obtain ⟨head, arr, tail, hr, hquiet, hheader, harr, -⟩ := envelope_shape h
  unfold scannedOutcome
  rw [steps_header hr hquiet (readEnvelope_complete hheader), steps_arr hr harr, hrender]
  show finish _ = _
  unfold finish
  simp only [between, hread, hne, false_or, ne_eq, not_true_eq_false, if_false, hrender]
  rw [← content_eq hrender]
  rfl

theorem envelope_of_outcome {content : List Char} (h : scannedOutcome r article limit = .ok content) :
    ∃ segments rendered, EnvelopeText r segments ∧ segments ≠ [] ∧
      (segments.mapM fun s => renderSegment s article) = .ok rendered := by
  obtain ⟨s, hsteps, hfinish⟩ := except_bind_ok.1 h
  obtain ⟨hgrows, -⟩ := steps_grows hsteps
  have hraw : s.raw = r := hgrows.raw
  have harticle : s.article = article := hgrows.article
  unfold finish at hfinish
  rw [hraw, harticle] at hfinish
  split at hfinish
  · cases hfinish
  · rename_i segments hread
    split at hfinish
    · cases hfinish
    · rename_i hcond
      obtain ⟨rendered, hrender, -⟩ := except_bind_ok.1 hfinish
      refine ⟨segments, rendered, ?_, fun hnil => hcond (.inl hnil), hrender⟩
      obtain ⟨w, tail, hr, hw⟩ | hloose := readEnvelope_sound hread
      · rw [steps_array hr hw] at hsteps
        cases hsteps
      · obtain ⟨head, arr, tail, hr, hquiet, hheader, harr, hstrict⟩ := envelope_shape hloose
        rcases harr with hspace | hitems
        · exact hstrict segments (.inl hspace)
        · have hr' : r = (head ++ ['[']) ++ (arr ++ ']' :: tail) := by simpa using hr
          rw [steps_header hr hquiet (readEnvelope_complete hheader), steps_append] at hsteps
          obtain ⟨t, ht, -⟩ := except_bind_ok.1 hsteps
          have hn : head.length + 1 = (head ++ ['[']).length := by simp
          rw [hn] at ht
          exact hstrict segments (.inr (items_of_steps hitems hr' ht))

end VerifiedSegments

/-- The outcome of a response that arrives in pieces. -/
def segmentsOutcome (article : List Char) (limit : Nat) (chunks : List (List Char)) : Except AiError (List Char) :=
  ((VerifiedSegments.new article limit).pushes chunks).2 >>= VerifiedSegments.finish

open VerifiedSegments in
theorem segmentsOutcome_eq {article r : List Char} {limit : Nat} {chunks : List (List Char)} (hlimit : byteLength r ≤ limit)
    (hcut : chunks.flatten = r) : segmentsOutcome article limit chunks = scannedOutcome r article limit := by
  have hsynced : Synced (new article limit) := rfl
  unfold segmentsOutcome scannedOutcome
  rw [pushes_steps hsynced (by rw [hcut]; simpa [new, byteLength] using hlimit), hcut]

/-- However a response is cut, its outcome is that of the whole; it is accepted exactly if it is an object with the
single field `segments`, a non-empty array of objects with the string fields `kind` and `content` that
`render_segment` accepts, and then its content is the rendered segments with a blank line between them. What `push`
returns only grows. -/
theorem segments_incremental (article : List Char) (limit : Nat) (r : List Char) (chunks : List (List Char))
    (hlimit : byteLength r ≤ limit) (hcut : chunks.flatten = r) :
    segmentsOutcome article limit chunks = segmentsOutcome article limit [r] ∧
    ((∃ content, segmentsOutcome article limit [r] = .ok content) ↔
      ∃ segments, EnvelopeText r segments ∧ segments ≠ [] ∧
        ∀ s ∈ segments, ∃ rendered, renderSegment s article = .ok rendered) ∧
    (∀ content segments, segmentsOutcome article limit [r] = .ok content → EnvelopeText r segments →
      ∃ rendered, (segments.mapM fun s => renderSegment s article) = .ok rendered ∧
        content = ['\n', '\n'].intercalate rendered) ∧
    ((VerifiedSegments.new article limit).pushes chunks).1.Pairwise (· <+: ·) ∧
    ∀ content, segmentsOutcome article limit chunks = .ok content →
      ∀ c ∈ ((VerifiedSegments.new article limit).pushes chunks).1, c <+: content := by
  have hwhole : segmentsOutcome article limit [r] = VerifiedSegments.scannedOutcome r article limit :=
    segmentsOutcome_eq hlimit (by simp)
  have hsynced : (VerifiedSegments.new article limit).Synced := rfl
  have hgrowing := @VerifiedSegments.pushes_grow _ chunks hsynced
  obtain ⟨-, hpairwise, hlast⟩ := hgrowing
  refine ⟨?_, ?_, ?_, hpairwise, ?_⟩
  · rw [hwhole]
    exact segmentsOutcome_eq hlimit hcut
  · rw [hwhole]
    constructor
    · rintro ⟨content, hok⟩
      obtain ⟨segments, rendered, htext, hne, hrender⟩ := VerifiedSegments.envelope_of_outcome hok
      exact ⟨segments, htext, hne, mapM_isOk.1 ⟨rendered, hrender⟩⟩
    · rintro ⟨segments, htext, hne, haccept⟩
      obtain ⟨rendered, hrender⟩ := mapM_isOk.2 haccept
      exact ⟨_, VerifiedSegments.outcome_of_envelope htext hne hrender⟩
  · intro content segments hok htext
    rw [hwhole] at hok
    obtain ⟨segments', rendered, htext', hne, hrender⟩ := VerifiedSegments.envelope_of_outcome hok
    -- a text has one meaning, the one that `from_str` returns
    have heq : segments' = segments :=
      Option.some.inj ((readEnvelope_complete htext').symm.trans (readEnvelope_complete htext))
    subst heq
    refine ⟨rendered, hrender, ?_⟩
    rw [VerifiedSegments.outcome_of_envelope htext' hne hrender] at hok
    exact (Except.ok.inj hok).symm
  · intro content hok c hc
    obtain ⟨s, hs, hfinish⟩ := except_bind_ok.1 hok
    have hcontent : content = s.content := by
      unfold VerifiedSegments.finish at hfinish
      split at hfinish
      · cases hfinish
      · split at hfinish
        · cases hfinish
        · obtain ⟨_, -, hfinish⟩ := except_bind_ok.1 hfinish
          exact (Except.ok.inj hfinish).symm
    rw [hcontent]
    exact (hlast s hs).2 c hc

/-- A quotation and a text, cut inside an escape. -/
def sampleResponse : List (List Char) :=
  ["\x7b\"segments\": [\x7b\"kind\":\"quote\",\"content\":\"a\\".toList,
    "nb\"\x7d , \x7b\"content\":\"c\",\"kind\":\"text\"\x7d]\x7d".toList]

theorem segments_incremental_cut :
    (((VerifiedSegments.new "xa\nb".toList 100).pushes sampleResponse).1 = ["> a\n> b\n\nc".toList] ∧
      segmentsOutcome "xa\nb".toList 100 sampleResponse = .ok "> a\n> b\n\nc".toList) ∧
    segmentsOutcome "xa\nb".toList 100 sampleResponse = segmentsOutcome "xa\nb".toList 100 [sampleResponse.flatten] := by
  refine ⟨by decide +kernel, ?_⟩
  exact (segments_incremental "xa\nb".toList 100 sampleResponse.flatten sampleResponse (by decide +kernel) rfl).1

end Inoreader
