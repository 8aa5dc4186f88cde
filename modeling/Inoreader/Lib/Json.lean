import Mathlib.Algebra.Group.Nat.Defs
import Mathlib.Data.List.Nodup

/-!
# JSON values

A value as a parser returns it. A number is a `u64` or something else; the members of an object stand in their order.
-/

namespace Lib

inductive Json
  | null
  | bool (value : Bool)
  | number (value : Option Nat)
  | string (value : List Char)
  | array (items : List Json)
  | object (members : List (List Char × Json))

namespace Json

/-- `Value::get`; of members with the same name the last one counts. -/
def get (name : String) : Json → Option Json
  | .object members => (members.reverse.find? fun m => m.1 = name.toList).map (·.2)
  | _ => none

def asU64 : Json → Option Nat
  | .number value => value
  | _ => none

def asStr : Json → Option (List Char)
  | .string value => some value
  | _ => none

def asArray : Json → Option (List Json)
  | .array items => some items
  | _ => none

def isNull : Json → Bool
  | .null => true
  | _ => false

/-- The members of an object in the order of `names`, where it has these names, each at most once, and no others; an
absent member is `none`. -/
def fields (names : List String) : Json → Option (List (Option Json))
  | .object members =>
    if (members.map (·.1)).Nodup ∧ members.all (fun m => names.any fun name => name.toList = m.1) then
      some (names.map fun name => (members.find? fun m => m.1 = name.toList).map (·.2))
    else none
  | _ => none

/-! ## Structs

A struct is written as an object and read from one that has only the struct's names, each at most once; the positional
form of a struct is not read.
-/

/-- An object with the given members. -/
def obj (members : List (String × Json)) : Json := .object (members.map fun m => (m.1.toList, m.2))

def ofText (s : String) : Json := .string s.toList

def ofSize (n : UInt64) : Json := .number (some n.toNat)

def ofOption {α : Type} (encode : α → Json) : Option α → Json
  | none => .null
  | some a => encode a

def ofList {α : Type} (encode : α → Json) (as : List α) : Json := .array (as.map encode)

/-- The names a struct knows; a name twice or an unknown one is an error. -/
def onlyFields (names : List String) : Json → Option Unit
  | .object members =>
    if (members.map (·.1)).Nodup ∧ members.all (fun m => names.any fun name => name.toList = m.1) then some () else none
  | _ => none

def member (name : String) : Json → Option Json
  | .object members => members.lookup name.toList
  | _ => none

section
variable {α : Type}

/-- A field that must be there. -/
def required (decode : Json → Option α) (name : String) (v : Json) : Option α := (v.member name).bind decode

/-- A field of type `Option`. -/
def nullable (decode : Json → Option α) (name : String) (v : Json) : Option (Option α) :=
  match v.member name with
  | none | some .null => some none
  | some v => (decode v).map some

/-- A field with a default. -/
def orDefault (default : α) (decode : Json → Option α) (name : String) (v : Json) : Option α :=
  match v.member name with
  | none => some default
  | some v => decode v

def asText (v : Json) : Option String := v.asStr.map String.ofList

/-- A `usize` of 64 bits. -/
def asSize (v : Json) : Option UInt64 := v.asU64.bind fun n => if n < 2 ^ 64 then some (UInt64.ofNat n) else none

def asBool : Json → Option Bool
  | .bool b => some b
  | _ => none

def asList (decode : Json → Option α) (v : Json) : Option (List α) := v.asArray.bind fun items => items.mapM decode

@[simp] theorem asText_ofText (s : String) : asText (ofText s) = some s := by
  simp [asText, ofText, asStr]

@[simp] theorem asSize_ofSize (n : UInt64) : asSize (ofSize n) = some n := by
  have h : n.toNat < 2 ^ 64 := n.toNat_lt
  simp only [asSize, ofSize, asU64, Option.bind_some, h, if_true, UInt64.ofNat_toNat]

/-- `decode` reads what `encode` writes. -/
def Reads (encode : α → Json) (decode : Json → Option α) : Prop := ∀ a, decode (encode a) = some a

theorem asList_ofList {encode : α → Json} {decode : Json → Option α} (h : Reads encode decode) (as : List α) :
    asList decode (ofList encode as) = some as := by
  simp only [asList, ofList, asArray, Option.bind_some]
  induction as with
  | nil => rfl
  | cons a as ih =>
    rw [List.map_cons, List.mapM_cons, h a, ih]
    rfl

theorem onlyFields_obj {names : List String} {members : List (String × Json)} (hnodup : names.Nodup)
    (hnames : members.map (·.1) = names) : (obj members).onlyFields names = some () := by
  subst hnames
  have hkeys : (members.map fun m => m.1.toList).Nodup := by
    rw [show (fun m : String × Json => m.1.toList) = String.toList ∘ Prod.fst from rfl, ← List.map_map]
    exact List.Nodup.map (fun _ _ h => String.toList_injective h) hnodup
  refine if_pos ⟨by simpa [List.map_map, Function.comp_def] using hkeys, ?_⟩
  rw [List.all_eq_true]
  intro m hm
  obtain ⟨m', hm', rfl⟩ := List.mem_map.1 hm
  rw [List.any_eq_true]
  exact ⟨m'.1, List.mem_map_of_mem hm', by simp⟩

theorem member_obj (name : String) (members : List (String × Json)) :
    (obj members).member name = members.lookup name := by
  induction members with
  | nil => rfl
  | cons m members ih =>
    obtain ⟨key, value⟩ := m
    simp only [obj, member, List.map_cons, List.lookup_cons] at ih ⊢
    by_cases h : name = key
    · simp [h]
    · have h' : ¬ name.toList = key.toList := fun e => h (String.toList_injective e)
      rw [beq_eq_false_iff_ne.2 h, beq_eq_false_iff_ne.2 h']
      exact ih

theorem required_of_member {decode : Json → Option α} {encode : α → Json} (hread : Reads encode decode) {name : String}
    {v : Json} {a : α} (h : v.member name = some (encode a)) : required decode name v = some a := by
  rw [required, h, Option.bind_some, hread]

theorem nullable_of_member {decode : Json → Option α} {encode : α → Json} (hread : Reads encode decode)
    (hnull : ∀ a, encode a ≠ .null) {name : String} {v : Json} {a : Option α}
    (h : v.member name = some (ofOption encode a)) : nullable decode name v = some a := by
  cases a with
  | none => rw [nullable, h, ofOption]
  | some a =>
    rw [nullable, h, ofOption]
    have hnull := hnull a
    have hread : (decode (encode a)).map some = some (some a) := by rw [hread a]; rfl
    generalize encode a = v at hread hnull
    cases v with
    | null => exact absurd rfl hnull
    | bool _ | number _ | string _ | array _ | object _ => exact hread

theorem orDefault_of_member {default : α} {decode : Json → Option α} {v v' : Json} {name : String}
    (h : v.member name = some v') : orDefault default decode name v = decode v' := by
  rw [orDefault, h]

end
end Json
end Lib
