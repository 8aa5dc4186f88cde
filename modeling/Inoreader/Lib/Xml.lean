import Mathlib.Data.List.Basic

/-!
# XML documents of elements

A reader of the documents that consist of elements with attributes and of text without references: no comments, no
processing instructions besides the declaration, no CDATA sections and no prefixes. It goes through the characters with
a stack of open elements and gives the elements in document order. White space in the value of an attribute is a blank,
unless a reference stands for it; a line ends with one character or with two.
-/

namespace Lib.Xml

/-- The characters of a document. -/
def isChar (c : Char) : Bool :=
  c == '\t' || c == '\n' || c == '\r' || (0x20 ≤ c.toNat && c.toNat != 0xfffe && c.toNat != 0xffff)

def isSpace (c : Char) : Bool := c == ' ' || c == '\t' || c == '\n' || c == '\r'

def isNameStart (c : Char) : Bool := c.isAlpha || c == '_'

def isNameChar (c : Char) : Bool := c.isAlphanum || c == '_' || c == '-' || c == '.'

structure Element where
  name : List Char
  attributes : List (List Char × List Char)
deriving DecidableEq, Repr

def Element.attribute (e : Element) (key : String) : Option (List Char) := e.attributes.lookup key.toList

/-- What is being read. -/
inductive Mode
  | content
  | opened
  | name (name : List Char)
  | tag (e : Element) (spaced : Bool)
  | key (e : Element) (key : List Char)
  | equals (e : Element) (key : List Char)
  | quote (e : Element) (key : List Char)
  | value (e : Element) (key : List Char) (quote : Char) (text : List Char) (afterReturn : Bool)
  | reference (e : Element) (key : List Char) (quote : Char) (text ref : List Char)
  | slash (e : Element)
  | closing (name : List Char)
  | closed (name : List Char)
deriving DecidableEq, Repr

structure State where
  stack : List (List Char) := []
  elements : List Element := []
  mode : Mode := .content
deriving DecidableEq, Repr

def digitValue (c : Char) : Option Nat :=
  if '0' ≤ c ∧ c ≤ '9' then some (c.toNat - '0'.toNat)
  else if 'a' ≤ c ∧ c ≤ 'f' then some (c.toNat - 'a'.toNat + 10)
  else if 'A' ≤ c ∧ c ≤ 'F' then some (c.toNat - 'A'.toNat + 10)
  else none

/-- A character by its number in the given base. -/
def numbered (base : Nat) (digits : List Char) : Option Char :=
  (digits.mapM fun c => (digitValue c).filter (· < base)).bind fun ds =>
    let n := ds.foldl (fun n d => n * base + d) 0
    if digits ≠ [] ∧ n.isValidChar ∧ isChar (Char.ofNat n) then some (Char.ofNat n) else none

/-- What a reference stands for. -/
def resolve (ref : List Char) : Option Char :=
  if ref = "amp".toList then some '&'
  else if ref = "lt".toList then some '<'
  else if ref = "gt".toList then some '>'
  else if ref = "quot".toList then some '"'
  else if ref = "apos".toList then some '\''
  else if ref.take 2 = "#x".toList then numbered 16 (ref.drop 2)
  else if ref.take 1 = "#".toList then numbered 10 (ref.drop 1)
  else none

namespace State

/-- A start tag has ended. -/
def push (s : State) (e : Element) : State :=
  { stack := e.name :: s.stack, elements := s.elements ++ [e], mode := .content }

def pop (s : State) (name : List Char) : Option State :=
  match s.stack with
  | [] => none
  | top :: stack => if top = name then some { s with stack, mode := .content } else none

def inTag (s : State) (e : Element) (spaced : Bool) (c : Char) : Option State :=
  if isSpace c then some { s with mode := .tag e true }
  else if c = '/' then some { s with mode := .slash e }
  else if c = '>' then some (s.push e)
  else if isNameStart c && spaced then some { s with mode := .key e [c] }
  else none

local instance : LawfulBEq (List Char) := inferInstance

def inValue (s : State) (e : Element) (key : List Char) (quote : Char) (text : List Char) (afterReturn : Bool)
    (c : Char) : Option State :=
  if c = '<' then none
  else if c = quote then
    if key ∈ e.attributes.map (·.1) then none
    else some { s with mode := .tag { e with attributes := e.attributes ++ [(key, text)] } false }
  else if c = '&' then some { s with mode := .reference e key quote text [] }
  else if c = '\n' then
    some { s with mode := .value e key quote (if afterReturn then text else text ++ [' ']) false }
  else if c = '\r' then some { s with mode := .value e key quote (text ++ [' ']) true }
  else if c = '\t' then some { s with mode := .value e key quote (text ++ [' ']) false }
  else some { s with mode := .value e key quote (text ++ [c]) false }

def step (s : State) (c : Char) : Option State :=
  match s.mode with
  | .content =>
    if c = '<' then some { s with mode := .opened }
    else if s.stack = [] then if isSpace c then some s else none
    else if c = '&' || c = ']' then none
    else some s
  | .opened =>
    if c = '/' then some { s with mode := .closing [] }
    else if isNameStart c && !(s.stack.isEmpty && !s.elements.isEmpty) then some { s with mode := .name [c] }
    else none
  | .name name =>
    if isNameChar c then some { s with mode := .name (name ++ [c]) } else s.inTag ⟨name, []⟩ false c
  | .tag e spaced => s.inTag e spaced c
  | .key e key =>
    if isNameChar c then some { s with mode := .key e (key ++ [c]) }
    else if isSpace c then some { s with mode := .equals e key }
    else if c = '=' then some { s with mode := .quote e key }
    else none
  | .equals e key =>
    if isSpace c then some s else if c = '=' then some { s with mode := .quote e key } else none
  | .quote e key =>
    if isSpace c then some s
    else if c = '"' || c = '\'' then some { s with mode := .value e key c [] false }
    else none
  | .value e key quote text afterReturn => s.inValue e key quote text afterReturn c
  | .reference e key quote text ref =>
    if c = ';' then (resolve ref).map fun d => { s with mode := .value e key quote (text ++ [d]) false }
    else if isNameChar c || c = '#' then some { s with mode := .reference e key quote text (ref ++ [c]) }
    else none
  | .slash e => if c = '>' then some { s with elements := s.elements ++ [e], mode := .content } else none
  | .closing name =>
    if isNameChar c then some { s with mode := .closing (name ++ [c]) }
    else if isSpace c then some { s with mode := .closed name }
    else if c = '>' then s.pop name
    else none
  | .closed name => if isSpace c then some s else if c = '>' then s.pop name else none

def run (s : State) (cs : List Char) : Option State := cs.foldlM step s

theorem run_append (s : State) (cs ds : List Char) : s.run (cs ++ ds) = (s.run cs).bind fun s => s.run ds :=
  List.foldlM_append ..

theorem run_cons (s : State) (c : Char) (cs : List Char) : s.run (c :: cs) = (s.step c).bind fun s => s.run cs :=
  List.foldlM_cons ..

end State

/-- The XML declaration, if a document has one. -/
def declaration : List Char := "<?xml version=\"1.0\" encoding=\"UTF-8\"?>".toList

/-- The elements of a document, in document order. -/
def read (document : List Char) : Option (List Element) :=
  if document.all isChar then
    let body := if declaration <+: document then document.drop declaration.length else document
    (State.run {} body).bind fun s =>
      if s.mode = .content ∧ s.stack = [] ∧ s.elements ≠ [] then some s.elements else none
  else none

/-! ## Escaped values -/

/-- `str::replace` of one character. -/
def replaceChar (c : Char) (new : String) (s : List Char) : List Char :=
  s.flatMap fun d => if d = c then new.toList else [d]

/-- A text for a value between double quotes: the ampersand first, so that no reference is escaped again. -/
def escape (s : List Char) : List Char :=
  replaceChar '>' "&gt;" (replaceChar '<' "&lt;" (replaceChar '"' "&quot;" (replaceChar '&' "&amp;" s)))

def escapeChar (c : Char) : List Char :=
  if c = '&' then "&amp;".toList
  else if c = '"' then "&quot;".toList
  else if c = '<' then "&lt;".toList
  else if c = '>' then "&gt;".toList
  else [c]

/-- How a value is read: white space as blanks, the two characters of a line end as one. -/
def normalize : Bool → List Char → List Char
  | _, [] => []
  | afterReturn, c :: cs =>
    if c = '\n' then if afterReturn then normalize false cs else ' ' :: normalize false cs
    else if c = '\r' then ' ' :: normalize true cs
    else if c = '\t' then ' ' :: normalize false cs
    else c :: normalize false cs

/-- A character that a value keeps. -/
def isKept (c : Char) : Bool := isChar c && c != '\t' && c != '\n' && c != '\r'

variable {s : State} {e : Element} {key text cs : List Char} {c : Char} {afterReturn : Bool}

theorem escape_eq (cs : List Char) : escape cs = cs.flatMap escapeChar := by
  unfold escape replaceChar
  rw [List.flatMap_assoc, List.flatMap_assoc, List.flatMap_assoc]
  refine List.flatMap_congr fun c _ => ?_
  unfold escapeChar
  by_cases hamp : c = '&'
  · subst hamp
    decide
  by_cases hquote : c = '"'
  · subst hquote
    decide
  by_cases hlt : c = '<'
  · subst hlt
    decide
  by_cases hgt : c = '>'
  · subst hgt
    decide
  simp [hamp, hquote, hlt, hgt]

/-- Inside a value between double quotes. -/
def State.atValue (s : State) (e : Element) (key text : List Char) (afterReturn : Bool) : State :=
  { s with mode := .value e key '"' text afterReturn }

theorem normalize_singleton (c : Char) (cs : List Char) (afterReturn : Bool) :
    normalize afterReturn (c :: cs) = normalize afterReturn [c] ++ normalize (decide (c = '\r')) cs := by
  by_cases hn : c = '\n'
  · subst hn
    cases afterReturn <;> rfl
  by_cases hr : c = '\r'
  · subst hr
    rfl
  by_cases ht : c = '\t'
  · subst ht
    rfl
  simp [normalize, hn, hr, ht]

/-- One character of a value. -/
theorem run_escapeChar (c : Char) : (s.atValue e key text afterReturn).run (escapeChar c) =
    some (s.atValue e key (text ++ normalize afterReturn [c]) (decide (c = '\r'))) := by
  by_cases hamp : c = '&'
  · subst hamp
    rfl
  by_cases hquote : c = '"'
  · subst hquote
    rfl
  by_cases hlt : c = '<'
  · subst hlt
    rfl
  by_cases hgt : c = '>'
  · subst hgt
    rfl
  have hescape : escapeChar c = [c] := by simp [escapeChar, hamp, hquote, hlt, hgt]
  have hstep : (s.atValue e key text afterReturn).step c =
      some (s.atValue e key (text ++ normalize afterReturn [c]) (decide (c = '\r'))) := by
    show s.inValue e key '"' text afterReturn c = _
    unfold State.inValue
    rw [if_neg hlt, if_neg hquote, if_neg hamp]
    by_cases hn : c = '\n'
    · subst hn
      cases afterReturn
      · rfl
      · simp [normalize, State.atValue]
    by_cases hr : c = '\r'
    · subst hr
      rfl
    by_cases ht : c = '\t'
    · subst ht
      rfl
    simp [normalize, State.atValue, hn, hr, ht]
  rw [hescape, State.run_cons, hstep]
  rfl

/-- An escaped text is read as what its white space is normalised to. -/
theorem run_escape (s : State) (e : Element) (key cs text : List Char) (afterReturn : Bool) : ∃ r,
    (s.atValue e key text afterReturn).run (escape cs) =
      some (s.atValue e key (text ++ normalize afterReturn cs) r) := by
  rw [escape_eq]
  induction cs generalizing text afterReturn with
  | nil => exact ⟨afterReturn, by rw [normalize, List.append_nil]; rfl⟩
  | cons c cs ih =>
    obtain ⟨r, hr⟩ := ih (text ++ normalize afterReturn [c]) (decide (c = '\r'))
    refine ⟨r, ?_⟩
    rw [List.flatMap_cons, State.run_append, run_escapeChar, Option.bind_some, hr, normalize_singleton c cs,
      List.append_assoc]

theorem isKept_iff : isKept c = true ↔ isChar c = true ∧ c ≠ '\t' ∧ c ≠ '\n' ∧ c ≠ '\r' := by
  simp [isKept, and_assoc]

theorem normalize_of_kept (h : ∀ c ∈ cs, isKept c = true) (afterReturn : Bool) : normalize afterReturn cs = cs := by
  induction cs generalizing afterReturn with
  | nil => rfl
  | cons c cs ih =>
    obtain ⟨-, ht, hn, hr⟩ := isKept_iff.1 (h c List.mem_cons_self)
    rw [normalize, if_neg hn, if_neg hr, if_neg ht, ih fun d hd => h d (List.mem_cons_of_mem _ hd)]

/-- No white space but blanks is left. -/
theorem mem_normalize (h : c ∈ normalize afterReturn cs) : c ≠ '\t' ∧ c ≠ '\n' ∧ c ≠ '\r' := by
  induction cs generalizing afterReturn with
  | nil => exact absurd h List.not_mem_nil
  | cons d cs ih =>
    have hblank : ∀ {r}, c ∈ ' ' :: normalize r cs → c ≠ '\t' ∧ c ≠ '\n' ∧ c ≠ '\r' := by
      intro r h
      rcases List.mem_cons.1 h with rfl | h
      · decide
      · exact ih h
    unfold normalize at h
    split_ifs at h with hn hafter hr ht
    · exact ih h
    · exact hblank h
    · exact hblank h
    · exact hblank h
    · rcases List.mem_cons.1 h with rfl | h
      · exact ⟨ht, hn, hr⟩
      · exact ih h

/-- A value is read as it was written exactly if it keeps its characters. -/
theorem normalize_eq_self_iff (hchars : ∀ c ∈ cs, isChar c = true) :
    normalize false cs = cs ↔ ∀ c ∈ cs, isKept c = true := by
  constructor
  · intro h c hc
    rw [← h] at hc
    obtain ⟨ht, hn, hr⟩ := mem_normalize hc
    rw [h] at hc
    exact isKept_iff.2 ⟨hchars c hc, ht, hn, hr⟩
  · exact fun h => normalize_of_kept h false

/-- Escaping neither adds nor hides a character that a document cannot have. -/
theorem all_isChar_escape : (escape cs).all isChar = true ↔ ∀ c ∈ cs, isChar c = true := by
  have hchar : ∀ c, (escapeChar c).all isChar = isChar c := by
    intro c
    by_cases hamp : c = '&'
    · subst hamp
      decide
    by_cases hquote : c = '"'
    · subst hquote
      decide
    by_cases hlt : c = '<'
    · subst hlt
      decide
    by_cases hgt : c = '>'
    · subst hgt
      decide
    simp [escapeChar, hamp, hquote, hlt, hgt]
  rw [escape_eq, List.all_flatMap, List.all_eq_true]
  simp only [hchar]

/-! ## Declarations -/

/-- An angle bracket with an exclamation mark. -/
def hasBang : List Char → Bool
  | c :: d :: cs => c = '<' && d = '!' || hasBang (d :: cs)
  | _ => false

theorem hasBang_cons (c : Char) (h : hasBang cs = true) : hasBang (c :: cs) = true := by
  cases cs with
  | nil => exact absurd h Bool.false_ne_true
  | cons d cs => rw [hasBang, h, Bool.or_true]

theorem hasBang_of_infix {pattern : List Char} (hpattern : hasBang pattern = true) (h : pattern <:+: cs) :
    hasBang cs = true := by
  have happend : ∀ (p q : List Char), hasBang p = true → hasBang (p ++ q) = true := by
    intro p q hp
    induction p with
    | nil => exact absurd hp Bool.false_ne_true
    | cons c p ih =>
      cases p with
      | nil => exact absurd hp Bool.false_ne_true
      | cons d p =>
        rw [List.cons_append, List.cons_append, hasBang]
        rw [hasBang, Bool.or_eq_true] at hp
        rcases hp with hp | hp
        · rw [hp, Bool.true_or]
        · rw [← List.cons_append, ih hp, Bool.or_true]
  obtain ⟨pre, post, rfl⟩ := h
  rw [List.append_assoc]
  induction pre with
  | nil => exact happend pattern post hpattern
  | cons c pre ih => exact hasBang_cons c ih

theorem hasBang_append {as bs : List Char} (h : hasBang (as ++ bs) = true) :
    hasBang as = true ∨ hasBang bs = true ∨ as.getLast? = some '<' := by
  induction as with
  | nil => exact .inr (.inl h)
  | cons c as ih =>
    cases as with
    | nil =>
      cases bs with
      | nil => exact absurd h Bool.false_ne_true
      | cons d bs =>
        rw [List.cons_append, List.nil_append, hasBang, Bool.or_eq_true, Bool.and_eq_true] at h
        rcases h with ⟨hc, -⟩ | h
        · exact .inr (.inr (by rw [of_decide_eq_true hc]; rfl))
        · exact .inr (.inl h)
    | cons d as =>
      rw [List.cons_append, List.cons_append, hasBang, Bool.or_eq_true] at h
      rcases h with h | h
      · exact .inl (by rw [hasBang, h, Bool.true_or])
      · rcases ih h with h | h | h
        · exact .inl (hasBang_cons c h)
        · exact .inr (.inl h)
        · exact .inr (.inr (by rwa [List.getLast?_cons_cons]))

theorem step_lt {s' : State} (h : s.step '<' = some s') : s'.mode = .opened := by
  obtain ⟨stack, elements, mode⟩ := s
  have hno : ∀ {x : State}, (none : Option State) = some x → False := fun he => by cases he
  cases mode with
  | content =>
    cases h
    rfl
  | value e key quote text r => exact (hno h).elim
  | opened => exact (hno h).elim
  | name name => exact (hno h).elim
  | tag e spaced => exact (hno h).elim
  | key e key => exact (hno h).elim
  | equals e key => exact (hno h).elim
  | quote e key => exact (hno h).elim
  | reference e key quote text ref => exact (hno h).elim
  | slash e => exact (hno h).elim
  | closing name => exact (hno h).elim
  | closed name => exact (hno h).elim

/-- What is read has no declaration. -/
theorem run_of_hasBang (h : hasBang cs = true) (s : State) : s.run cs = none := by
  induction cs generalizing s with
  | nil => exact absurd h Bool.false_ne_true
  | cons c cs ih =>
    cases cs with
    | nil => exact absurd h Bool.false_ne_true
    | cons d cs =>
      rw [State.run_cons]
      cases hs : s.step c with
      | none => rfl
      | some s' =>
        rw [Option.bind_some]
        rw [hasBang, Bool.or_eq_true, Bool.and_eq_true] at h
        rcases h with ⟨hc, hd⟩ | h
        · cases of_decide_eq_true hc
          cases of_decide_eq_true hd
          have hmode := step_lt hs
          have hstep : s'.step '!' = none := by
            unfold State.step
            rw [hmode]
            rfl
          rw [State.run_cons, hstep]
          rfl
        · exact ih h s'

end Lib.Xml
