import Mathlib.Data.List.Nodup
import Mathlib.Data.Nat.Cast.Order.Ring
import Mathlib.Data.Rat.Lemmas
import Mathlib.Algebra.Order.Ring.Rat

/-!
# JSON values of a browser

A value as `JSON.parse` returns it. A number is a double: a rational, or `none` where the text is too large for one.
-/

namespace Lib

/-- `Number.MAX_SAFE_INTEGER` -/
def maxSafeInteger : Nat := 9007199254740991

/-- `Number.isSafeInteger` -/
def isSafeInteger (q : ℚ) : Bool := q.den == 1 && decide (|q| ≤ maxSafeInteger)

theorem isSafeInteger_natCast {n : Nat} : isSafeInteger n = true ↔ n ≤ maxSafeInteger := by
  unfold isSafeInteger
  rw [Nat.abs_cast]
  simp

inductive JsValue
  | null
  | bool (value : Bool)
  | number (value : Option ℚ)
  | string (value : List Char)
  | array (items : List JsValue)
  | object (members : List (List Char × JsValue))

namespace JsValue

/-- `value.name`; of members with the same name the last one counts. -/
def get (name : String) : JsValue → Option JsValue
  | .object members => (members.reverse.find? fun m => m.1 = name.toList).map (·.2)
  | _ => none

def asText : JsValue → Option (List Char)
  | .string value => some value
  | _ => none

def asBool : JsValue → Option Bool
  | .bool value => some value
  | _ => none

def asNumber : JsValue → Option ℚ
  | .number value => value
  | _ => none

/-- A number that is a safe integer and not negative. -/
def asSize (v : JsValue) : Option Nat :=
  v.asNumber.bind fun q => if isSafeInteger q ∧ 0 ≤ q then some q.num.toNat else none

def ofNat (n : Nat) : JsValue := .number (some n)

/-- An object with the given members; `JSON.stringify` leaves out the ones that are undefined. -/
def obj (members : List (String × Option JsValue)) : JsValue :=
  .object (members.filterMap fun m => m.2.map fun v => (m.1.toList, v))

@[simp] theorem asNumber_ofNat (n : Nat) : (ofNat n).asNumber = some (n : ℚ) := rfl

theorem asSize_ofNat {n : Nat} (h : n ≤ maxSafeInteger) : (ofNat n).asSize = some n := by
  have hsafe : isSafeInteger (n : ℚ) = true := isSafeInteger_natCast.2 h
  simp [asSize, hsafe]

/-- A member of an object with distinct names. -/
theorem get_obj {name : String} {v : Option JsValue} {members : List (String × Option JsValue)}
    (hnodup : (members.map (·.1)).Nodup) (h : (name, v) ∈ members) : (obj members).get name = v := by
  have hfind : ∀ m ∈ (members.filterMap fun m => m.2.map fun v => (m.1.toList, v)), m.1 = name.toList →
      v = some m.2 := by
    intro m hm hname
    obtain ⟨m', hm', hmap⟩ := List.mem_filterMap.1 hm
    obtain ⟨w, hw, rfl⟩ := Option.map_eq_some_iff.1 hmap
    have hsame : m' = (name, v) := List.inj_on_of_nodup_map hnodup hm' h (String.toList_injective hname)
    rw [hsame] at hw
    exact hw
  rw [obj, get]
  cases hfound : (members.filterMap fun m => m.2.map fun v => (m.1.toList, v)).reverse.find?
      fun m => m.1 = name.toList with
  | some m =>
    have hname := List.find?_some hfound
    rw [Option.map_some, hfind m (List.mem_reverse.1 (List.mem_of_find?_eq_some hfound)) (of_decide_eq_true hname)]
  | none =>
    cases v with
    | none => rfl
    | some w =>
      rw [List.find?_eq_none] at hfound
      have hmem : (name.toList, w) ∈ members.filterMap fun m => m.2.map fun v => (m.1.toList, v) :=
        List.mem_filterMap.2 ⟨(name, some w), h, rfl⟩
      exact absurd (decide_eq_true rfl) (hfound _ (List.mem_reverse.2 hmem))

end JsValue

end Lib
