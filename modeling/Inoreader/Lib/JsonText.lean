import Mathlib.Data.List.TakeWhile

/-!
# JSON texts

The grammar of JSON as relations between a text and what it means, for the values that a typed reader asks
for: a string, an array of items and an object of members, over whatever relation the items satisfy. A reader
consumes such a value at the front of a text. `Sound` says that it consumes only texts of the grammar,
`Complete` that it reads each of them, whatever follows.
-/

namespace Lib.JsonText

/-! ## The grammar -/

def isSpace (c : Char) : Bool := c == ' ' || c == '\t' || c == '\n' || c == '\r'

def Space (w : List Char) : Prop := ∀ c ∈ w, isSpace c = true

def escaped : Char → Option Char
  | '"' => some '"'
  | '\\' => some '\\'
  | '/' => some '/'
  | 'b' => some (Char.ofNat 8)
  | 'f' => some (Char.ofNat 12)
  | 'n' => some '\n'
  | 'r' => some '\r'
  | 't' => some '\t'
  | _ => none

def hexDigit (c : Char) : Option Nat :=
  if 48 ≤ c.toNat ∧ c.toNat ≤ 57 then some (c.toNat - 48)
  else if 97 ≤ c.toNat ∧ c.toNat ≤ 102 then some (c.toNat - 87)
  else if 65 ≤ c.toNat ∧ c.toNat ≤ 70 then some (c.toNat - 55)
  else none

/-- The code unit of four hexadecimal digits. -/
def hex4 (a b c d : Char) : Option Nat :=
  match hexDigit a, hexDigit b, hexDigit c, hexDigit d with
  | some a, some b, some c, some d => some (((a * 16 + b) * 16 + c) * 16 + d)
  | _, _, _, _ => none

def isHigh (n : Nat) : Bool := 0xd800 ≤ n && n < 0xdc00

def isLow (n : Nat) : Bool := 0xdc00 ≤ n && n < 0xe000

/-- The character of a pair of surrogates. -/
def surrogates (hi lo : Nat) : Char := Char.ofNat (0x10000 + (hi - 0xd800) * 0x400 + (lo - 0xdc00))

/-- A character that stands for itself in a string. -/
def isPlain (c : Char) : Bool := c != '"' && c != '\\' && decide (0x20 ≤ c.toNat)

/-- The text of one character of a string. -/
inductive CharText : List Char → Char → Prop
  | plain {c : Char} (h : isPlain c = true) : CharText [c] c
  | escape {e c : Char} (h : escaped e = some c) : CharText ['\\', e] c
  | unicode {a b c d : Char} {n : Nat} (h : hex4 a b c d = some n) (hhigh : isHigh n = false) (hlow : isLow n = false) :
    CharText ['\\', 'u', a, b, c, d] (Char.ofNat n)
  | pair {a b c d a' b' c' d' : Char} {hi lo : Nat} (h : hex4 a b c d = some hi) (h' : hex4 a' b' c' d' = some lo)
    (hhigh : isHigh hi = true) (hlow : isLow lo = true) :
    CharText ['\\', 'u', a, b, c, d, '\\', 'u', a', b', c', d'] (surrogates hi lo)

inductive CharsText : List Char → List Char → Prop
  | nil : CharsText [] []
  | cons {raw raws cs : List Char} {c : Char} (h : CharText raw c) (hs : CharsText raws cs) :
    CharsText (raw ++ raws) (c :: cs)

def StringText (raw value : List Char) : Prop := ∃ body, raw = '"' :: (body ++ ['"']) ∧ CharsText body value

section
variable {α : Type}

/-- One item or more, with commas between them and space around them. -/
inductive ItemsText (item : List Char → α → Prop) : List Char → List α → Prop
  | one {w raw w' : List Char} {a : α} (hw : Space w) (h : item raw a) (hw' : Space w') :
    ItemsText item (w ++ (raw ++ w')) [a]
  | cons {w raw w' rest : List Char} {a : α} {as : List α} (hw : Space w) (h : item raw a) (hw' : Space w')
    (hs : ItemsText item rest as) : ItemsText item (w ++ (raw ++ (w' ++ ',' :: rest))) (a :: as)

def ListText (opening closing : Char) (item : List Char → α → Prop) (raw : List Char) (as : List α) : Prop :=
  ∃ body, raw = opening :: (body ++ [closing]) ∧ ((as = [] ∧ Space body) ∨ ItemsText item body as)

def MemberText (value : List Char → α → Prop) (raw : List Char) (m : List Char × α) : Prop :=
  ∃ key w w' v, raw = key ++ (w ++ ':' :: (w' ++ v)) ∧ StringText key m.1 ∧ Space w ∧ Space w' ∧ value v m.2

def ArrayText (item : List Char → α → Prop) : List Char → List α → Prop := ListText '[' ']' item

def ObjectText (value : List Char → α → Prop) : List Char → List (List Char × α) → Prop :=
  ListText '{' '}' (MemberText value)

/-- A whole text: a value with space around it. -/
def DocumentText (value : List Char → α → Prop) (raw : List Char) (a : α) : Prop :=
  ∃ w text w', raw = w ++ (text ++ w') ∧ Space w ∧ Space w' ∧ value text a

/-! ## The readers -/

/-- A value at the front of a text, and what is left of the text. -/
abbrev Reader (α : Type) : Type := List Char → Option (α × List Char)

def skipSpace (cs : List Char) : List Char := cs.dropWhile isSpace

/-- The second half of a pair of surrogates. -/
def readLow (hi : Nat) : Reader Char
  | '\\' :: 'u' :: a :: b :: c :: d :: rest =>
    match hex4 a b c d with
    | some lo => if isLow lo then some (surrogates hi lo, rest) else none
    | none => none
  | _ => none

def readEscape : Reader Char
  | 'u' :: a :: b :: c :: d :: rest =>
    match hex4 a b c d with
    | some n => if isHigh n then readLow n rest else if isLow n then none else some (Char.ofNat n, rest)
    | none => none
  | e :: rest => (escaped e).map fun c => (c, rest)
  | [] => none

def readChar : Reader Char
  | [] => none
  | c :: rest => if c = '\\' then readEscape rest else if isPlain c then some (c, rest) else none

/-- The rest of a string, up to its closing quote. -/
def readChars : Nat → Reader (List Char)
  | 0, _ => none
  | fuel + 1, cs =>
    match cs with
    | [] => none
    | c :: rest =>
      if c = '"' then some ([], rest) else
        match readChar cs with
        | none => none
        | some (v, rest') => (readChars fuel rest').map fun r => (v :: r.1, r.2)

def readString : Reader (List Char)
  | [] => none
  | c :: rest => if c = '"' then readChars rest.length rest else none

/-- What follows an item of a list: its end, or a comma and the next item. -/
def readItems (closing : Char) (item : Reader α) : Nat → Reader (List α)
  | 0, _ => none
  | fuel + 1, cs =>
    match skipSpace cs with
    | [] => none
    | c :: rest =>
      if c = closing then some ([], rest) else
        if c = ',' then
          match item (skipSpace rest) with
          | none => none
          | some (a, rest') => (readItems closing item fuel rest').map fun r => (a :: r.1, r.2)
        else none

/-- A list after its opening bracket. -/
def readBody (closing : Char) (item : Reader α) (cs : List Char) : Option (List α × List Char) :=
  match skipSpace cs with
  | [] => none
  | c :: rest =>
    if c = closing then some ([], rest) else
      match item (c :: rest) with
      | none => none
      | some (a, rest') => (readItems closing item rest'.length rest').map fun r => (a :: r.1, r.2)

def readList (opening closing : Char) (item : Reader α) : Reader (List α)
  | [] => none
  | c :: rest => if c = opening then readBody closing item rest else none

def readMember (value : Reader α) : Reader (List Char × α) := fun cs =>
  match readString cs with
  | none => none
  | some (key, rest) =>
    match skipSpace rest with
    | [] => none
    | c :: rest' => if c = ':' then (value (skipSpace rest')).map fun r => ((key, r.1), r.2) else none

def readArray (item : Reader α) : Reader (List α) := readList '[' ']' item

def readObject (value : Reader α) : Reader (List (List Char × α)) := readList '{' '}' (readMember value)

/-- `from_str`: a value and nothing but space after it. -/
def readDocument (value : Reader α) (cs : List Char) : Option α :=
  match value (skipSpace cs) with
  | none => none
  | some (a, rest) => if skipSpace rest = [] then some a else none

end

/-! ## Soundness -/

section
variable {α : Type}

/-- What is consumed has the grammar of what is returned. -/
def Sound (P : List Char → α → Prop) (read : Reader α) : Prop :=
  ∀ cs a rest, read cs = some (a, rest) → ∃ raw, cs = raw ++ rest ∧ P raw a

theorem space_nil : Space [] := fun _ h => absurd h List.not_mem_nil

theorem skipSpace_spec (cs : List Char) : ∃ w, Space w ∧ cs = w ++ skipSpace cs := by
  refine ⟨cs.takeWhile isSpace, ?_, ?_⟩
  · intro c hc
    exact List.mem_takeWhile_imp hc
  · exact (List.takeWhile_append_dropWhile (p := isSpace) (l := cs)).symm

theorem readLow_sound {hi : Nat} {cs rest : List Char} {v : Char} (h : readLow hi cs = some (v, rest)) :
    ∃ a b c d lo, cs = '\\' :: 'u' :: a :: b :: c :: d :: rest ∧ hex4 a b c d = some lo ∧ isLow lo = true ∧
      v = surrogates hi lo := by
  unfold readLow at h
  split at h
  · rename_i a b c d more
    split at h
    · rename_i lo hlo
      split at h
      · rename_i hlow
        obtain ⟨rfl, rfl⟩ := Prod.mk.inj (Option.some.inj h)
        exact ⟨a, b, c, d, lo, rfl, hlo, hlow, rfl⟩
      · cases h
    · cases h
  · cases h

theorem readEscape_sound {cs rest : List Char} {v : Char} (h : readEscape cs = some (v, rest)) :
    ∃ raw, cs = raw ++ rest ∧ CharText ('\\' :: raw) v := by
  unfold readEscape at h
  split at h
  · rename_i a b c d more
    split at h
    · rename_i n hn
      split at h
      · rename_i hhigh
        obtain ⟨a', b', c', d', lo, rfl, hlo, hlow, hv⟩ := readLow_sound h
        rw [hv]
        exact ⟨['u', a, b, c, d, '\\', 'u', a', b', c', d'], rfl, .pair hn hlo hhigh hlow⟩
      · split at h
        · cases h
        · rename_i hhigh hlow
          obtain ⟨rfl, rfl⟩ := Prod.mk.inj (Option.some.inj h)
          exact ⟨['u', a, b, c, d], rfl, .unicode hn (Bool.eq_false_iff.2 hhigh) (Bool.eq_false_iff.2 hlow)⟩
    · cases h
  · rename_i e more _
    obtain ⟨c, hc, heq⟩ := Option.map_eq_some_iff.1 h
    cases heq
    exact ⟨[e], rfl, .escape hc⟩
  · cases h

theorem readChar_sound : Sound CharText readChar := by
  intro cs v rest h
  cases cs with
  | nil => cases h
  | cons c cs =>
    simp only [readChar] at h
    split at h
    · rename_i hc
      obtain ⟨raw, rfl, htext⟩ := readEscape_sound h
      exact ⟨'\\' :: raw, by rw [hc]; rfl, htext⟩
    · split at h
      · cases h
        exact ⟨[v], rfl, .plain ‹_›⟩
      · cases h

theorem readChars_sound {fuel : Nat} {cs rest v : List Char} (h : readChars fuel cs = some (v, rest)) :
    ∃ body, cs = body ++ '"' :: rest ∧ CharsText body v := by
  induction fuel generalizing cs rest v with
  | zero => cases h
  | succ fuel ih =>
    cases cs with
    | nil => cases h
    | cons c cs =>
      simp only [readChars] at h
      split at h
      · rename_i hc
        cases h
        exact ⟨[], by rw [hc]; rfl, .nil⟩
      · split at h
        · cases h
        · rename_i d more hchar
          obtain ⟨r, hr, heq⟩ := Option.map_eq_some_iff.1 h
          cases heq
          obtain ⟨raw, hraw, htext⟩ := readChar_sound _ _ _ hchar
          obtain ⟨body, rfl, hbody⟩ := ih hr
          exact ⟨raw ++ body, by rw [hraw, List.append_assoc], .cons htext hbody⟩

theorem readString_sound : Sound StringText readString := by
  intro cs v rest h
  cases cs with
  | nil => cases h
  | cons c cs =>
    simp only [readString] at h
    split at h
    · rename_i hc
      obtain ⟨body, rfl, hbody⟩ := readChars_sound h
      exact ⟨'"' :: (body ++ ['"']), by simp [hc], body, rfl, hbody⟩
    · cases h

variable {P : List Char → α → Prop} {item : Reader α} {closing : Char}

theorem readItems_sound (hitem : Sound P item) {fuel : Nat} {cs rest : List Char} {as : List α}
    (h : readItems closing item fuel cs = some (as, rest)) :
    ∃ body, cs = body ++ closing :: rest ∧
      ((as = [] ∧ Space body) ∨ ∃ w tail, body = w ++ ',' :: tail ∧ Space w ∧ ItemsText P tail as) := by
  induction fuel generalizing cs rest as with
  | zero => cases h
  | succ fuel ih =>
    obtain ⟨w, hw, hcs⟩ := skipSpace_spec cs
    simp only [readItems] at h
    split at h
    · cases h
    · rename_i c more hmore
      rw [hmore] at hcs
      split at h
      · rename_i hc
        cases h
        exact ⟨w, by rw [hcs, hc], .inl ⟨rfl, hw⟩⟩
      · split at h
        · rename_i hc
          split at h
          · cases h
          · rename_i a more' hread
            obtain ⟨r, hr, heq⟩ := Option.map_eq_some_iff.1 h
            cases heq
            obtain ⟨w', hw', hskip⟩ := skipSpace_spec more
            obtain ⟨raw, hraw, ha⟩ := hitem _ _ _ hread
            obtain ⟨body, rfl, hbody⟩ := ih hr
            rcases hbody with ⟨has, hspace⟩ | ⟨w'', tail, rfl, hw'', htail⟩
            · refine ⟨w ++ ',' :: (w' ++ (raw ++ body)), ?_, .inr ⟨w, _, rfl, hw, ?_⟩⟩
              · rw [hcs, hc, hskip, hraw]
                simp
              · rw [has]
                exact .one hw' ha hspace
            · refine ⟨w ++ ',' :: (w' ++ (raw ++ (w'' ++ ',' :: tail))), ?_, .inr ⟨w, _, rfl, hw, ?_⟩⟩
              · rw [hcs, hc, hskip, hraw]
                simp
              · exact .cons hw' ha hw'' htail
        · cases h

theorem readBody_sound (hitem : Sound P item) {cs rest : List Char} {as : List α}
    (h : readBody closing item cs = some (as, rest)) :
    ∃ body, cs = body ++ closing :: rest ∧ ((as = [] ∧ Space body) ∨ ItemsText P body as) := by
  obtain ⟨w, hw, hcs⟩ := skipSpace_spec cs
  simp only [readBody] at h
  split at h
  · cases h
  · rename_i c more hmore
    rw [hmore] at hcs
    split at h
    · rename_i hc
      cases h
      exact ⟨w, by rw [hcs, hc], .inl ⟨rfl, hw⟩⟩
    · split at h
      · cases h
      · rename_i a more' hread
        obtain ⟨r, hr, heq⟩ := Option.map_eq_some_iff.1 h
        cases heq
        obtain ⟨raw, hraw, ha⟩ := hitem _ _ _ hread
        obtain ⟨body, rfl, hbody⟩ := readItems_sound hitem hr
        rcases hbody with ⟨has, hspace⟩ | ⟨w'', tail, rfl, hw'', htail⟩
        · refine ⟨w ++ (raw ++ body), ?_, .inr ?_⟩
          · rw [hcs, hraw]
            simp
          · rw [has]
            exact .one hw ha hspace
        · refine ⟨w ++ (raw ++ (w'' ++ ',' :: tail)), ?_, .inr (.cons hw ha hw'' htail)⟩
          rw [hcs, hraw]
          simp

theorem readList_sound {opening : Char} (hitem : Sound P item) :
    Sound (ListText opening closing P) (readList opening closing item) := by
  intro cs as rest h
  cases cs with
  | nil => cases h
  | cons c cs =>
    simp only [readList] at h
    split at h
    · rename_i hc
      obtain ⟨body, rfl, hbody⟩ := readBody_sound hitem h
      exact ⟨opening :: (body ++ [closing]), by simp [hc], body, rfl, hbody⟩
    · cases h

theorem readMember_sound {value : Reader α} (hvalue : Sound P value) : Sound (MemberText P) (readMember value) := by
  intro cs m rest h
  simp only [readMember] at h
  split at h
  · cases h
  · rename_i key more hkey
    split at h
    · cases h
    · rename_i c more' hmore'
      split at h
      · rename_i hc
        obtain ⟨r, hr, heq⟩ := Option.map_eq_some_iff.1 h
        cases heq
        obtain ⟨k, hk, hktext⟩ := readString_sound _ _ _ hkey
        obtain ⟨w, hw, hskip⟩ := skipSpace_spec more
        obtain ⟨w', hw', hskip'⟩ := skipSpace_spec more'
        obtain ⟨v, hv, hvtext⟩ := hvalue _ _ _ hr
        refine ⟨k ++ (w ++ ':' :: (w' ++ v)), ?_, k, w, w', v, rfl, hktext, hw, hw', hvtext⟩
        rw [hk, hskip, hmore', hc, hskip', hv]
        simp
      · cases h

theorem readDocument_sound {value : Reader α} (hvalue : Sound P value) {cs : List Char} {a : α}
    (h : readDocument value cs = some a) : DocumentText P cs a := by
  obtain ⟨w, hw, hcs⟩ := skipSpace_spec cs
  simp only [readDocument] at h
  split at h
  · cases h
  · rename_i b rest hread
    split at h
    · rename_i hrest
      cases h
      obtain ⟨raw, hraw, htext⟩ := hvalue _ _ _ hread
      obtain ⟨w', hw', hskip⟩ := skipSpace_spec rest
      rw [hrest, List.append_nil] at hskip
      exact ⟨w, raw, w', by rw [hcs, hraw, hskip], hw, hw', htext⟩
    · cases h

end

/-! ## Completeness -/

section
variable {α : Type}

/-- Every text of the grammar is read, whatever follows, and it shows by its first character. -/
structure Complete (P : List Char → α → Prop) (read : Reader α) : Prop where
  reads : ∀ raw a rest, P raw a → read (raw ++ rest) = some (a, rest)
  opens : ∀ raw a, P raw a → ∃ c tail, raw = c :: tail ∧ (c = '"' ∨ c = '[' ∨ c = '{')

theorem skipSpace_append {w : List Char} (hw : Space w) (cs : List Char) : skipSpace (w ++ cs) = skipSpace cs := by
  unfold skipSpace
  rw [List.dropWhile_append_of_pos hw]

theorem skipSpace_of_not {c : Char} {cs : List Char} (h : isSpace c = false) : skipSpace (c :: cs) = c :: cs := by
  unfold skipSpace
  rw [List.dropWhile_cons_of_neg]
  rw [h]
  exact Bool.false_ne_true

theorem skipSpace_space {w : List Char} (hw : Space w) : skipSpace w = [] := by
  have h := skipSpace_append hw []
  rw [List.append_nil] at h
  exact h

theorem not_space_of_opens {c : Char} (h : c = '"' ∨ c = '[' ∨ c = '{') : isSpace c = false := by
  rcases h with rfl | rfl | rfl <;> rfl

/-- The space before a value is skipped, up to the value. -/
theorem Complete.skip {P : List Char → α → Prop} {read : Reader α} (h : Complete P read) {w raw rest : List Char} {a : α}
    (hw : Space w) (htext : P raw a) : skipSpace (w ++ (raw ++ rest)) = raw ++ rest := by
  obtain ⟨c, tail, rfl, hc⟩ := h.opens raw a htext
  rw [skipSpace_append hw]
  exact skipSpace_of_not (not_space_of_opens hc)

theorem hexDigit_ne {c : Char} {n : Nat} (h : hexDigit c = some n) : c ≠ '"' ∧ c ≠ '\\' := by
  constructor
  · rintro rfl
    cases h
  · rintro rfl
    cases h

theorem readLow_complete {hi lo : Nat} {a b c d : Char} (rest : List Char) (h : hex4 a b c d = some lo)
    (hlow : isLow lo = true) : readLow hi ('\\' :: 'u' :: a :: b :: c :: d :: rest) = some (surrogates hi lo, rest) := by
  simp only [readLow, h, hlow, if_true]

theorem readEscape_other {e v : Char} (rest : List Char) (h : escaped e = some v) : readEscape (e :: rest) = some (v, rest) := by
  have he : e ≠ 'u' := by
    rintro rfl
    cases h
  unfold readEscape
  split
  · rename_i heq
    cases heq
    exact absurd rfl he
  · rename_i heq
    cases heq
    rw [h]
    rfl
  · rename_i heq
    cases heq

theorem readChar_complete {raw : List Char} {v : Char} (h : CharText raw v) (rest : List Char) :
    readChar (raw ++ rest) = some (v, rest) := by
  cases h with
  | plain h =>
    have hslash : v ≠ '\\' := by
      rintro rfl
      cases h
    show (if v = '\\' then readEscape rest else if isPlain v then some (v, rest) else none) = some (v, rest)
    rw [if_neg hslash, if_pos h]
  | escape h => exact readEscape_other rest h
  | unicode h hhigh hlow =>
    simp only [List.cons_append, List.nil_append, readChar, if_true, readEscape, h, hhigh, hlow]
    rfl
  | pair h h' hhigh hlow =>
    simp only [List.cons_append, List.nil_append, readChar, if_true, readEscape, h, hhigh]
    exact readLow_complete rest h' hlow

theorem CharText.ne_nil {raw : List Char} {v : Char} (h : CharText raw v) : ∃ c tail, raw = c :: tail ∧ c ≠ '"' := by
  cases h with
  | plain h =>
    refine ⟨v, [], rfl, ?_⟩
    rintro rfl
    cases h
  | escape _ => exact ⟨'\\', _, rfl, by decide⟩
  | unicode _ _ _ => exact ⟨'\\', _, rfl, by decide⟩
  | pair _ _ _ _ => exact ⟨'\\', _, rfl, by decide⟩

theorem readChars_complete {body v : List Char} (h : CharsText body v) (rest : List Char) {fuel : Nat}
    (hfuel : body.length < fuel) : readChars fuel (body ++ '"' :: rest) = some (v, rest) := by
  induction h generalizing fuel with
  | nil =>
    obtain ⟨n, rfl⟩ := Nat.exists_eq_succ_of_ne_zero (Nat.ne_of_gt hfuel)
    rfl
  | @cons raw raws cs c hc hs ih =>
    obtain ⟨n, rfl⟩ := Nat.exists_eq_succ_of_ne_zero (Nat.ne_of_gt (Nat.zero_lt_of_lt hfuel))
    have hread := readChar_complete hc (raws ++ '"' :: rest)
    obtain ⟨d, tail, rfl, hd⟩ := hc.ne_nil
    have hlen : raws.length < n := by
      simp only [List.length_append, List.length_cons] at hfuel
      omega
    rw [List.append_assoc]
    rw [List.cons_append] at hread ⊢
    simp only [readChars, hd, if_false, hread, ih hlen]
    rfl

theorem readString_complete : Complete StringText readString := by
  refine ⟨?_, ?_⟩
  · rintro raw v rest ⟨body, rfl, hbody⟩
    simp only [List.cons_append, List.append_assoc, List.nil_append, readString, if_true]
    refine readChars_complete hbody rest ?_
    simp only [List.length_append, List.length_cons]
    omega
  · rintro raw v ⟨body, rfl, -⟩
    exact ⟨'"', _, rfl, .inl rfl⟩

variable {P : List Char → α → Prop} {item : Reader α} {closing : Char}

/-- A bracket that closes a list. -/
def Closes (closing : Char) : Prop := closing = ']' ∨ closing = '}'

theorem Closes.spec (h : Closes closing) :
    isSpace closing = false ∧ closing ≠ ',' ∧ closing ≠ '"' ∧ closing ≠ '[' ∧ closing ≠ '{' := by
  rcases h with rfl | rfl <;> decide

theorem readItems_end (hclose : Closes closing) {w : List Char} (hw : Space w) (rest : List Char) (fuel : Nat) :
    readItems closing item (fuel + 1) (w ++ closing :: rest) = some ([], rest) := by
  have hskip : skipSpace (w ++ closing :: rest) = closing :: rest := by
    rw [skipSpace_append hw, skipSpace_of_not hclose.spec.1]
  simp only [readItems, hskip, if_true]

theorem readItems_complete (hitem : Complete P item) (hclose : Closes closing) {body : List Char} {as : List α}
    (h : ItemsText P body as) {w : List Char} (hw : Space w) (rest : List Char) {fuel : Nat} (hfuel : as.length < fuel) :
    readItems closing item fuel (w ++ ',' :: (body ++ closing :: rest)) = some (as, rest) := by
  have hcomma : ∀ cs, skipSpace (w ++ ',' :: cs) = ',' :: cs := by
    intro cs
    rw [skipSpace_append hw]
    exact skipSpace_of_not rfl
  have hne : ',' ≠ closing := hclose.spec.2.1.symm
  induction h generalizing w fuel with
  | @one w₁ raw w₂ a hw₁ ha hw₂ =>
    obtain ⟨n, rfl⟩ := Nat.exists_eq_add_of_lt hfuel
    have hskip : skipSpace (w₁ ++ (raw ++ w₂) ++ closing :: rest) = raw ++ (w₂ ++ closing :: rest) := by
      rw [List.append_assoc, List.append_assoc]
      exact hitem.skip hw₁ ha
    rw [show ([a] : List α).length + n + 1 = (n + 1) + 1 by simp; omega]
    rw [readItems, hcomma]
    simp only [hne, if_false, if_true, hskip, hitem.reads raw a _ ha, readItems_end hclose hw₂]
    rfl
  | @cons w₁ raw w₂ more a as hw₁ ha hw₂ hs ih =>
    obtain ⟨n, rfl⟩ := Nat.exists_eq_succ_of_ne_zero (Nat.ne_of_gt (Nat.zero_lt_of_lt hfuel))
    have hskip : skipSpace (w₁ ++ (raw ++ (w₂ ++ ',' :: more)) ++ closing :: rest) =
        raw ++ (w₂ ++ ',' :: (more ++ closing :: rest)) := by
      simp only [List.append_assoc, List.cons_append]
      exact hitem.skip hw₁ ha
    have hlen : as.length < n := by
      simp only [List.length_cons] at hfuel
      omega
    rw [readItems, hcomma]
    simp only [hne, if_false, if_true, hskip, hitem.reads raw a _ ha]
    rw [ih hw₂ hlen]
    · rfl
    · intro cs
      rw [skipSpace_append hw₂]
      exact skipSpace_of_not rfl

theorem ItemsText.length_le (hitem : Complete P item) {body : List Char} {as : List α} (h : ItemsText P body as) :
    as.length ≤ body.length := by
  induction h with
  | one _ ha _ =>
    obtain ⟨c, tail, rfl, -⟩ := hitem.opens _ _ ha
    simp only [List.length_append, List.length_cons, List.length_nil]
    omega
  | cons _ ha _ _ ih =>
    simp only [List.length_append, List.length_cons]
    omega

/-- The first item of a list is not its end. -/
theorem Complete.ne_closing (hitem : Complete P item) (hclose : Closes closing) {c : Char} {tail : List Char} {a : α}
    (h : P (c :: tail) a) : c ≠ closing := by
  obtain ⟨d, tail', heq, hd⟩ := hitem.opens _ _ h
  obtain ⟨-, -, hquote, hbracket, hbrace⟩ := hclose.spec
  cases heq
  rcases hd with rfl | rfl | rfl
  · exact hquote.symm
  · exact hbracket.symm
  · exact hbrace.symm

theorem readBody_complete (hitem : Complete P item) (hclose : Closes closing) {body : List Char} {as : List α}
    (h : (as = [] ∧ Space body) ∨ ItemsText P body as) (rest : List Char) :
    readBody closing item (body ++ closing :: rest) = some (as, rest) := by
  rcases h with ⟨rfl, hspace⟩ | h
  · have hskip : skipSpace (body ++ closing :: rest) = closing :: rest := by
      rw [skipSpace_append hspace, skipSpace_of_not hclose.spec.1]
    simp only [readBody, hskip, if_true]
  · cases h with
    | @one w raw w' a hw ha hw' =>
      have hread := hitem.reads raw a (w' ++ closing :: rest) ha
      have hskip : skipSpace (w ++ (raw ++ w') ++ closing :: rest) = raw ++ (w' ++ closing :: rest) := by
        rw [List.append_assoc, List.append_assoc]
        exact hitem.skip hw ha
      obtain ⟨c, tail, rfl, -⟩ := hitem.opens raw a ha
      have hlen : (w' ++ closing :: rest).length = (w'.length + rest.length) + 1 := by
        simp only [List.length_append, List.length_cons]
        omega
      rw [List.cons_append] at hread
      rw [readBody, hskip, List.cons_append]
      simp only [hitem.ne_closing hclose ha, if_false, hread, hlen, readItems_end hclose hw']
      rfl
    | @cons w raw w' more a as hw ha hw' hs =>
      have hread := hitem.reads raw a (w' ++ ',' :: (more ++ closing :: rest)) ha
      have hskip : skipSpace (w ++ (raw ++ (w' ++ ',' :: more)) ++ closing :: rest) =
          raw ++ (w' ++ ',' :: (more ++ closing :: rest)) := by
        simp only [List.append_assoc, List.cons_append]
        exact hitem.skip hw ha
      have hlen : as.length < (w' ++ ',' :: (more ++ closing :: rest)).length := by
        have hle := hs.length_le hitem
        simp only [List.length_append, List.length_cons]
        omega
      obtain ⟨c, tail, rfl, -⟩ := hitem.opens raw a ha
      rw [List.cons_append] at hread
      rw [readBody, hskip, List.cons_append]
      simp only [hitem.ne_closing hclose ha, if_false, hread, readItems_complete hitem hclose hs hw' rest hlen]
      rfl

theorem readList_complete (hitem : Complete P item) {opening : Char} (hopen : opening = '[' ∨ opening = '{')
    (hclose : Closes closing) : Complete (ListText opening closing P) (readList opening closing item) := by
  refine ⟨?_, ?_⟩
  · rintro raw as rest ⟨body, rfl, hbody⟩
    simp only [List.cons_append, List.append_assoc, List.nil_append, readList, if_true]
    exact readBody_complete hitem hclose hbody rest
  · rintro raw as ⟨body, rfl, -⟩
    exact ⟨opening, _, rfl, .inr hopen⟩

theorem readMember_complete {value : Reader α} (hvalue : Complete P value) :
    Complete (MemberText P) (readMember value) := by
  refine ⟨?_, ?_⟩
  · rintro raw m rest ⟨key, w, w', v, rfl, hkey, hw, hw', hv⟩
    have hread := readString_complete.reads key m.1 (w ++ ':' :: (w' ++ (v ++ rest))) hkey
    have hskip : skipSpace (w ++ ':' :: (w' ++ (v ++ rest))) = ':' :: (w' ++ (v ++ rest)) := by
      rw [skipSpace_append hw]
      exact skipSpace_of_not rfl
    simp only [List.append_assoc, List.cons_append]
    simp only [readMember, hread, hskip, if_true, hvalue.skip hw' hv, hvalue.reads v m.2 rest hv]
    rfl
  · rintro raw m ⟨key, w, w', v, rfl, hkey, -⟩
    obtain ⟨c, tail, rfl, hc⟩ := readString_complete.opens key m.1 hkey
    exact ⟨c, _, rfl, hc⟩

theorem readDocument_complete {value : Reader α} (hvalue : Complete P value) {cs : List Char} {a : α}
    (h : DocumentText P cs a) : readDocument value cs = some a := by
  obtain ⟨w, text, w', rfl, hw, hw', htext⟩ := h
  simp only [readDocument, hvalue.skip hw htext, hvalue.reads text a w' htext, skipSpace_space hw', if_true]

end
end Lib.JsonText
