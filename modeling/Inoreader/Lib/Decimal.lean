import Mathlib.Data.Rat.Defs
import Mathlib.Algebra.Order.Field.Rat
import Mathlib.Data.List.TakeWhile
import Mathlib.Tactic.Positivity

/-!
# Decimal numbers

A decimal keeps its scale: `integer / 10 ^ scale` written with exactly `scale` digits after the point,
as an arbitrary-precision SQL `NUMERIC` is. `ofChars` reads digits with at most one point, `chars`
writes the one canonical form; a text with leading zeros or a bare point is read and written
differently.
-/

namespace Lib

structure Decimal where
  integer : Nat
  scale : Nat
deriving DecidableEq, Repr

/-- The digits of `n`, padded with zeros to `width`. -/
def padDigits (width n : Nat) : List Char :=
  List.replicate (width - (Nat.toDigits 10 n).length) '0' ++ Nat.toDigits 10 n

namespace Decimal

def value (d : Decimal) : ℚ := d.integer / 10 ^ d.scale

def chars (d : Decimal) : List Char :=
  Nat.toDigits 10 (d.integer / 10 ^ d.scale) ++
    if d.scale = 0 then [] else '.' :: padDigits d.scale (d.integer % 10 ^ d.scale)

def text (d : Decimal) : String := String.ofList d.chars

/-- Split at the first point; a second one is no digit and is refused with the rest. -/
def ofChars (cs : List Char) : Option Decimal :=
  let whole := cs.takeWhile (· != '.')
  let fractional := (cs.dropWhile (· != '.')).drop 1
  if whole ≠ [] ∧ (whole ++ fractional).all Char.isDigit then
    some { integer := Nat.ofDigitChars 10 (whole ++ fractional) 0, scale := fractional.length }
  else none

theorem value_nonneg (d : Decimal) : 0 ≤ d.value := by
  unfold value
  positivity

theorem isDigit_padDigits {width n : Nat} : (padDigits width n).all Char.isDigit = true := by
  simp only [padDigits, List.all_append, List.all_replicate, Bool.and_eq_true]
  refine ⟨by simp, ?_⟩
  rw [List.all_eq_true]
  exact fun c hc => Nat.isDigit_of_mem_toDigits (by omega) (by omega) hc

theorem length_padDigits {width n : Nat} (hwidth : 0 < width) (hn : n < 10 ^ width) :
    (padDigits width n).length = width := by
  have hle : (Nat.toDigits 10 n).length ≤ width := (Nat.length_toDigits_le_iff (by omega) hwidth).2 hn
  simp only [padDigits, List.length_append, List.length_replicate]
  omega

theorem ofDigitChars_padDigits (width n init : Nat) :
    Nat.ofDigitChars 10 (padDigits width n) init = 10 ^ (padDigits width n).length * init + n := by
  rw [Nat.ofDigitChars_eq_ofDigitChars_zero, padDigits, Nat.ofDigitChars_append,
    Nat.ofDigitChars_replicate_zero, Nat.mul_zero, Nat.ofDigitChars_ten_toDigits]

private theorem ne_point_of_isDigit {c : Char} (h : c.isDigit = true) : (c != '.') = true := by
  rw [bne_iff_ne]
  rintro rfl
  exact absurd h (by decide)

/-- What is written is read back, with its scale. -/
theorem ofChars_chars (d : Decimal) : ofChars d.chars = some d := by
  obtain ⟨n, scale⟩ := d
  have hdigits : ∀ c ∈ Nat.toDigits 10 (n / 10 ^ scale), (c != '.') = true := fun c hc =>
    ne_point_of_isDigit (Nat.isDigit_of_mem_toDigits (by omega) (by omega) hc)
  have hall : (Nat.toDigits 10 (n / 10 ^ scale)).all Char.isDigit = true := by
    rw [List.all_eq_true]
    exact fun c hc => Nat.isDigit_of_mem_toDigits (by omega) (by omega) hc
  by_cases hscale : scale = 0
  · subst hscale
    have htake : (chars ⟨n, 0⟩).takeWhile (· != '.') = Nat.toDigits 10 (n / 10 ^ 0) := by
      simp only [chars, if_pos, List.append_nil]
      exact List.takeWhile_eq_self_iff.2 hdigits
    have hdrop : (chars ⟨n, 0⟩).dropWhile (· != '.') = [] := by
      simp only [chars, if_pos, List.append_nil]
      exact List.dropWhile_eq_nil_iff.2 hdigits
    simp only [ofChars, htake, hdrop, List.drop_nil, List.append_nil, List.length_nil]
    rw [if_pos ⟨Nat.toDigits_ne_nil, hall⟩, Nat.ofDigitChars_ten_toDigits]
    simp
  · have hpos : 0 < scale := by omega
    have hchars : chars ⟨n, scale⟩ =
        Nat.toDigits 10 (n / 10 ^ scale) ++ '.' :: padDigits scale (n % 10 ^ scale) := by
      simp only [chars, if_neg hscale]
    have htake : (chars ⟨n, scale⟩).takeWhile (· != '.') = Nat.toDigits 10 (n / 10 ^ scale) := by
      rw [hchars, List.takeWhile_append_of_pos hdigits]
      simp
    have hdrop : (chars ⟨n, scale⟩).dropWhile (· != '.') = '.' :: padDigits scale (n % 10 ^ scale) := by
      rw [hchars, List.dropWhile_append_of_pos hdigits]
      simp
    have hlen : (padDigits scale (n % 10 ^ scale)).length = scale :=
      length_padDigits hpos (Nat.mod_lt _ (by positivity))
    simp only [ofChars, htake, hdrop, List.drop_succ_cons, List.drop_zero]
    rw [if_pos ⟨Nat.toDigits_ne_nil, by rw [List.all_append, hall, isDigit_padDigits]; rfl⟩,
      Nat.ofDigitChars_append, Nat.ofDigitChars_ten_toDigits, ofDigitChars_padDigits, hlen,
      Nat.div_add_mod]

end Decimal

/-! ## Integers -/

/-- An integer as a text. -/
def intChars (n : Int) : List Char := if n < 0 then '-' :: Nat.toDigits 10 n.natAbs else Nat.toDigits 10 n.natAbs

/-- The digits after the sign; there has to be one. -/
def readMagnitude (limit : Nat) (cs : List Char) : Option Nat :=
  if cs ≠ [] ∧ cs.all Char.isDigit ∧ Nat.ofDigitChars 10 cs 0 ≤ limit then some (Nat.ofDigitChars 10 cs 0) else none

/-- `str::parse::<i64>`. -/
def readI64 (cs : List Char) : Option Int :=
  match cs with
  | '-' :: cs => (readMagnitude (2 ^ 63) cs).map fun n : Nat => -(n : Int)
  | '+' :: cs => (readMagnitude (2 ^ 63 - 1) cs).map fun n : Nat => (n : Int)
  | cs => (readMagnitude (2 ^ 63 - 1) cs).map fun n : Nat => (n : Int)

/-- The digits of a text after one minus sign, if it has one. -/
def unsigned (cs : List Char) : List Char := if cs.head? = some '-' then cs.tail else cs

/-- The integer of a text that is digits after at most one minus sign. -/
def readInt (cs : List Char) : Int :=
  if cs.head? = some '-' then -(Nat.ofDigitChars 10 (unsigned cs) 0 : Int) else Nat.ofDigitChars 10 (unsigned cs) 0

theorem isDigit_toDigits (n : Nat) : (Nat.toDigits 10 n).all Char.isDigit = true := by
  rw [List.all_eq_true]
  exact fun c hc => Nat.isDigit_of_mem_toDigits (by omega) (by omega) hc

theorem readMagnitude_toDigits {limit n : Nat} (h : n ≤ limit) : readMagnitude limit (Nat.toDigits 10 n) = some n := by
  unfold readMagnitude
  rw [Nat.ofDigitChars_ten_toDigits, if_pos ⟨Nat.toDigits_ne_nil, isDigit_toDigits n, h⟩]

/-- An integer is read back from its text. -/
theorem readI64_intChars {n : Int} (hmin : -2 ^ 63 ≤ n) (hmax : n < 2 ^ 63) : readI64 (intChars n) = some n := by
  unfold intChars
  by_cases hneg : n < 0
  · rw [if_pos hneg]
    show (readMagnitude (2 ^ 63) (Nat.toDigits 10 n.natAbs)).map (fun n : Nat => -(n : Int)) = some n
    rw [readMagnitude_toDigits (by omega), Option.map_some]
    congr 1
    omega
  · rw [if_neg hneg]
    have hread : readMagnitude (2 ^ 63 - 1) (Nat.toDigits 10 n.natAbs) = some n.natAbs :=
      readMagnitude_toDigits (by omega)
    have hdigit := isDigit_toDigits n.natAbs
    unfold readI64
    split
    · rename_i heq
      rw [heq] at hdigit
      simp at hdigit
    · rename_i heq
      rw [heq] at hdigit
      simp at hdigit
    · rw [hread, Option.map_some]
      congr 1
      omega

theorem head_toDigits_ne (n : Nat) : (Nat.toDigits 10 n).head? ≠ some '-' := by
  intro h
  obtain ⟨rest, hrest⟩ : ∃ rest, Nat.toDigits 10 n = '-' :: rest := by
    cases hdigits : Nat.toDigits 10 n with
    | nil =>
      rw [hdigits] at h
      cases h
    | cons c rest =>
      rw [hdigits] at h
      cases h
      exact ⟨rest, rfl⟩
  have hdigit := isDigit_toDigits n
  rw [hrest] at hdigit
  simp at hdigit

theorem unsigned_intChars (n : Int) : unsigned (intChars n) = Nat.toDigits 10 n.natAbs := by
  unfold intChars unsigned
  by_cases hneg : n < 0
  · rw [if_pos hneg]
    rfl
  · rw [if_neg hneg, if_neg (head_toDigits_ne _)]

theorem readInt_intChars (n : Int) : readInt (intChars n) = n := by
  unfold readInt
  rw [unsigned_intChars, Nat.ofDigitChars_ten_toDigits]
  unfold intChars
  by_cases hneg : n < 0
  · rw [if_pos hneg, List.head?_cons, if_pos rfl]
    omega
  · rw [if_neg hneg, if_neg (head_toDigits_ne _)]
    omega

/-- The text of an integer has no point. -/
theorem point_notMem_intChars (n : Int) : '.' ∉ intChars n := by
  intro hmem
  have hdigits : '.' ∉ Nat.toDigits 10 n.natAbs := by
    intro h
    exact absurd (List.all_eq_true.1 (isDigit_toDigits n.natAbs) _ h) (by decide)
  unfold intChars at hmem
  split at hmem
  · rcases List.mem_cons.1 hmem with h | h
    · exact absurd h (by decide)
    · exact hdigits h
  · exact hdigits hmem

end Lib
