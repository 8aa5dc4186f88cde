import Inoreader.Ai.Chat
import Inoreader.Lib.Except
import Mathlib.Tactic.FieldSimp
import Mathlib.Tactic.Linarith
import Mathlib.Tactic.NormNum
import Mathlib.Tactic.Ring

/-!
# Tariffs (`reader-ai/src/pricing.rs`, `budget.rs`)

`CostRates::new` accepts three rates when the largest usage can be priced. The price of a usage is the sum of
`rate * tokens / 10^6` at one scale, six digits more than the most precise rate has, and this text is read again by
`DecimalRate::parse`, which keeps six more digits free: `10^(scale + 6)` must fit in 128 bits both times.
-/

namespace Inoreader
open Lib

/-- The bound of `u64`. -/
def u64Bound : Nat := 2 ^ 64

namespace CostRates

/-- The arguments of `DecimalRate::cost`. -/
def priced (rates : CostRates) (input cached output : Nat) : List (String × Nat) :=
  [(rates.inputUsdPerMillionTokens, input), (rates.cachedInputUsdPerMillionTokens, cached),
    (rates.outputUsdPerMillionTokens, output)]

def new (input cachedInput output : String) : Except AiError CostRates := do
  let rates : CostRates :=
    { inputUsdPerMillionTokens := input, cachedInputUsdPerMillionTokens := cachedInput
      outputUsdPerMillionTokens := output }
  let _ ← DecimalRate.cost (rates.priced (u64Bound - 1) (u64Bound - 1) (u64Bound - 1))
  pure rates

def maximum (rates : CostRates) (input output : Nat) : Except AiError String :=
  DecimalRate.cost (rates.priced input input output)

end CostRates

/-- `checked_add` of `usize`, and the `try_from` of `u64`. -/
def checkedSize (n : Nat) : Except AiError Nat := if n < u64Bound then .ok n else .error .context

/-- The loop of `bound_cost` over the contents of the messages; a content may be no text. -/
def boundTokens (framing : Nat) : Nat → List (Option String) → Except AiError Nat
  | n, [] => .ok n
  | n, content :: contents => do
    let framed ← checkedSize (n + framing)
    match content with
    | none => .error .context
    | some text => boundTokens framing (← checkedSize (framed + text.utf8ByteSize)) contents

def boundCost (contents : List (Option String)) (framing base output : Nat) (rates : CostRates) :
    Except AiError String := do
  let input ← boundTokens framing base contents
  rates.maximum (← checkedSize input) (← checkedSize output)

/-! ## One price -/

namespace DecimalRate

theorem parse_ok {value : String} {d : Decimal} :
    parse value = .ok d ↔
      Decimal.ofChars value.toList = some d ∧ 10 ^ (d.scale + 6) < u128Bound ∧ d.integer < u128Bound := by
  unfold parse
  split
  · rename_i rate hrate
    split
    · rename_i hfits
      constructor
      · intro h
        cases h
        exact ⟨hrate, hfits⟩
      · rintro ⟨hd, -⟩
        rw [hrate] at hd
        rw [Option.some.inj hd]
    · rename_i hfits
      constructor
      · intro h
        cases h
      · rintro ⟨hd, hd'⟩
        rw [hrate] at hd
        cases hd
        exact absurd hd' hfits
  · rename_i hnone
    constructor
    · intro h
      cases h
    · rintro ⟨hd, -⟩
      rw [hnone] at hd
      cases hd

theorem checked_ok {n m : Nat} : checked n = .ok m ↔ m = n ∧ n < u128Bound := by
  unfold checked
  split
  · rename_i h
    constructor
    · intro heq
      cases heq
      exact ⟨rfl, h⟩
    · rintro ⟨rfl, -⟩
      rfl
  · rename_i h
    constructor
    · intro heq
      cases heq
    · rintro ⟨-, hlt⟩
      exact absurd hlt h

/-- The sum of the rates at the scale. -/
def weighed (scale : Nat) (rates : List (Decimal × Nat)) : Nat :=
  (rates.map fun r => r.1.integer * r.2 * 10 ^ (scale - r.1.scale - 6)).sum

/-- Where the powers fit, only the sum can overflow. -/
theorem total_ok {scale sum n : Nat} (rates : List (Decimal × Nat)) (hscale : 10 ^ scale < u128Bound)
    (hsum : sum < u128Bound) :
    total scale sum rates = .ok n ↔ n = sum + weighed scale rates ∧ n < u128Bound := by
  induction rates generalizing sum with
  | nil =>
    constructor
    · intro h
      cases h
      exact ⟨rfl, hsum⟩
    · rintro ⟨rfl, -⟩
      rfl
  | cons r rates ih =>
    obtain ⟨rate, tokens⟩ := r
    have hpower : 10 ^ (scale - rate.scale - 6) < u128Bound :=
      lt_of_le_of_lt (Nat.pow_le_pow_right (by omega) (by omega)) hscale
    have hone : 0 < 10 ^ (scale - rate.scale - 6) := by positivity
    have hle := Nat.le_mul_of_pos_right (rate.integer * tokens) hone
    have hweighed : weighed scale ((rate, tokens) :: rates) =
        rate.integer * tokens * 10 ^ (scale - rate.scale - 6) + weighed scale rates := by
      simp only [weighed, List.map_cons, List.sum_cons]
    simp only [total, except_bind_ok, checked_ok]
    rw [hweighed]
    constructor
    · rintro ⟨product, ⟨rfl, -⟩, power, ⟨rfl, -⟩, scaled, ⟨rfl, -⟩, next, ⟨rfl, hnext⟩, h⟩
      obtain ⟨rfl, hn⟩ := (ih hnext).1 h
      exact ⟨by omega, hn⟩
    · rintro ⟨rfl, hn⟩
      refine ⟨_, ⟨rfl, by omega⟩, _, ⟨rfl, hpower⟩, _, ⟨rfl, by omega⟩, _, ⟨rfl, by omega⟩, ?_⟩
      exact (ih (by omega)).2 ⟨by omega, hn⟩

theorem weighed_mono {scale : Nat} {rates rates' : List (Decimal × Nat)}
    (h : List.Forall₂ (fun r r' => r.1 = r'.1 ∧ r.2 ≤ r'.2) rates rates') :
    weighed scale rates ≤ weighed scale rates' := by
  induction h with
  | nil => exact le_rfl
  | @cons r r' rates rates' hr _ ih =>
    simp only [weighed, List.map_cons, List.sum_cons] at ih ⊢
    rw [hr.1]
    exact Nat.add_le_add (Nat.mul_le_mul_right _ (Nat.mul_le_mul_left _ hr.2)) ih

/-- The sum is exact: no rate has more decimals than the scale keeps. -/
theorem weighed_value {scale : Nat} {rates : List (Decimal × Nat)} (h : ∀ r ∈ rates, r.1.scale + 6 ≤ scale) :
    (weighed scale rates : ℚ) / 10 ^ scale = (rates.map fun r => r.1.value * (r.2 : ℚ) / 10 ^ 6).sum := by
  induction rates with
  | nil => simp [weighed]
  | cons r rates ih =>
    obtain ⟨rate, tokens⟩ := r
    have hrate : rate.scale + 6 ≤ scale := h (rate, tokens) List.mem_cons_self
    obtain ⟨k, rfl⟩ : ∃ k, scale = rate.scale + 6 + k := ⟨scale - (rate.scale + 6), by omega⟩
    have hk : rate.scale + 6 + k - rate.scale - 6 = k := by omega
    have hih := ih fun r hr => h r (List.mem_cons_of_mem _ hr)
    have hcons : weighed (rate.scale + 6 + k) ((rate, tokens) :: rates) =
        rate.integer * tokens * 10 ^ k + weighed (rate.scale + 6 + k) rates := by
      simp only [weighed, List.map_cons, List.sum_cons, hk]
    rw [hcons, List.map_cons, List.sum_cons, ← hih, Decimal.value]
    push_cast
    rw [pow_add, pow_add]
    field_simp

/-- The largest scale of three rates, and six digits for the million. -/
def costScale (a b c : Decimal) : Nat := max (max (a.scale + 6) (b.scale + 6)) (c.scale + 6)

theorem cost_ok {r r' r'' amount : String} {a b c : Decimal} (ha : parse r = .ok a) (hb : parse r' = .ok b)
    (hc : parse r'' = .ok c) {x y z : Nat} :
    cost [(r, x), (r', y), (r'', z)] = .ok amount ↔
      weighed (costScale a b c) [(a, x), (b, y), (c, z)] < u128Bound ∧
        amount = Decimal.text ⟨weighed (costScale a b c) [(a, x), (b, y), (c, z)], costScale a b c⟩ := by
  have hparsed : parseAll [(r, x), (r', y), (r'', z)] = .ok [(a, x), (b, y), (c, z)] := by
    simp only [parseAll, ha, hb, hc, except_bind_ok, except_pure_ok]
    exact ⟨_, rfl, _, ⟨_, rfl, _, ⟨_, rfl, _, rfl, rfl⟩, rfl⟩, rfl⟩
  have hscale : 10 ^ costScale a b c < u128Bound := by
    have hpow : ∀ d : Decimal, 10 ^ (d.scale + 6) < u128Bound → ∀ n, n ≤ d.scale + 6 → 10 ^ n < u128Bound :=
      fun d hd n hn => lt_of_le_of_lt (Nat.pow_le_pow_right (by omega) hn) hd
    obtain h | h | h : costScale a b c ≤ a.scale + 6 ∨ costScale a b c ≤ b.scale + 6 ∨ costScale a b c ≤ c.scale + 6 := by
      unfold costScale
      omega
    · exact hpow a (parse_ok.1 ha).2.1 _ h
    · exact hpow b (parse_ok.1 hb).2.1 _ h
    · exact hpow c (parse_ok.1 hc).2.1 _ h
  have hpos : costScale a b c ≠ 0 := by
    unfold costScale
    omega
  have htext : ∀ n, String.ofList (Nat.toDigits 10 (n / 10 ^ costScale a b c) ++
      '.' :: padDigits (costScale a b c) (n % 10 ^ costScale a b c)) = Decimal.text ⟨n, costScale a b c⟩ := by
    intro n
    rw [Decimal.text, Decimal.chars, if_neg hpos]
  have hsum := fun n => total_ok (n := n) [(a, x), (b, y), (c, z)] hscale (show 0 < u128Bound by decide)
  have hcost : cost [(r, x), (r', y), (r'', z)] =
      total (costScale a b c) 0 [(a, x), (b, y), (c, z)] >>= fun sum =>
        checked (10 ^ costScale a b c) >>= fun divisor => pure (String.ofList
          (Nat.toDigits 10 (sum / divisor) ++ '.' :: padDigits (costScale a b c) (sum % divisor))) := by
    unfold cost
    rw [hparsed]
    rfl
  simp only [hcost, except_bind_ok, except_pure_ok, checked_ok, hsum, Nat.zero_add]
  constructor
  · rintro ⟨_, ⟨rfl, hlt⟩, _, ⟨rfl, -⟩, rfl⟩
    exact ⟨hlt, htext _⟩
  · rintro ⟨hlt, rfl⟩
    exact ⟨_, ⟨rfl, hlt⟩, _, ⟨rfl, hscale⟩, htext _⟩

end DecimalRate

/-! ## What a price is read as -/

/-- A text that is written for a number other than zero has a digit other than zero. -/
theorem text_positive {d : Decimal} (h : d.integer ≠ 0) : d.chars.any fun c => '1' ≤ c && c ≤ '9' := by
  by_contra hnone
  have hread := Decimal.ofChars_chars d
  simp only [Decimal.ofChars] at hread
  split at hread
  · rename_i hdigits
    refine h ?_
    have hzero : ∀ c ∈ d.chars.takeWhile (· != '.') ++ (d.chars.dropWhile (· != '.')).drop 1, c = '0' := by
      intro c hc
      have hdigit : c.isDigit = true := List.all_eq_true.1 hdigits.2 c hc
      have hmem : c ∈ d.chars := by
        rcases List.mem_append.1 hc with hc | hc
        · exact (List.takeWhile_prefix _).subset hc
        · exact (List.dropWhile_suffix _).subset ((List.drop_subset _ _) hc)
      have hlow : ¬ ('1' ≤ c ∧ c ≤ '9') := by
        intro hc'
        exact hnone (List.any_eq_true.2 ⟨c, hmem, by simpa using hc'⟩)
      simp only [Char.isDigit, Bool.and_eq_true, decide_eq_true_eq] at hdigit
      have hval : c.val = 48 := by
        simp only [Char.le_def, UInt32.le_iff_toNat_le] at hlow
        simp only [ge_iff_le, UInt32.le_iff_toNat_le] at hdigit
        apply UInt32.toNat_inj.1
        have h48 : (48 : UInt32).toNat = 48 := rfl
        have h57 : (57 : UInt32).toNat = 57 := rfl
        have h0 : ('0' : Char).val.toNat = 48 := rfl
        have h1 : ('1' : Char).val.toNat = 49 := rfl
        have h9 : ('9' : Char).val.toNat = 57 := rfl
        omega
      exact Char.ext hval
    rw [List.eq_replicate_of_mem hzero] at hread
    have hint := congrArg Decimal.integer (Option.some.inj hread)
    rw [Nat.ofDigitChars_replicate_zero, Nat.mul_zero] at hint
    exact hint.symm
  · cases hread

/-- A price of the given scale is read again when six more digits fit. -/
theorem parse_text {d : Decimal} (hinteger : d.integer < u128Bound) :
    (∃ d', DecimalRate.parse d.text = .ok d') ↔ 10 ^ (d.scale + 6) < u128Bound := by
  have hread : Decimal.ofChars d.text.toList = some d := by
    rw [Decimal.text, String.toList_ofList]
    exact Decimal.ofChars_chars d
  constructor
  · rintro ⟨d', hd'⟩
    obtain ⟨hchars, hscale, -⟩ := DecimalRate.parse_ok.1 hd'
    rw [hread] at hchars
    cases hchars
    exact hscale
  · exact fun hscale => ⟨d, DecimalRate.parse_ok.2 ⟨hread, hscale, hinteger⟩⟩

theorem reservation_ok {amount limit : String} {mode : SpendMode} (hlimit : positiveDecimal limit = true) :
    (∃ reservation, SpendReservation.new amount limit mode = .ok reservation) ↔ positiveDecimal amount = true := by
  unfold SpendReservation.new
  constructor
  · rintro ⟨reservation, h⟩
    split at h
    · rename_i hboth
      exact hboth.1
    · cases h
  · intro h
    rw [dif_pos ⟨h, hlimit⟩]
    exact ⟨_, rfl⟩

namespace CostRates

def decimals (rates : CostRates) : List Decimal :=
  [numeric rates.inputUsdPerMillionTokens, numeric rates.cachedInputUsdPerMillionTokens,
    numeric rates.outputUsdPerMillionTokens]

/-- The sum of `rate * tokens / 10^6`. -/
def exact (rates : CostRates) (input cached output : Nat) : ℚ :=
  ((rates.decimals.zip [input, cached, output]).map fun r => r.1.value * (r.2 : ℚ) / 10 ^ 6).sum

/-- The counts of a usage are `u64`. -/
def Counts (usage : Usage) : Prop :=
  usage.promptTokens < u64Bound ∧ usage.completionTokens < u64Bound ∧
    usage.promptCacheHitTokens + usage.promptCacheMissTokens = usage.promptTokens

/-- The amounts that the application computes. -/
inductive Produces (rates : CostRates) : String → Prop
  | cost {usage : Usage} {amount : String} (hcounts : Counts usage) (h : rates.cost usage = .ok amount) :
    Produces rates amount
  | bound {contents : List (Option String)} {framing base output : Nat} {amount : String}
    (h : boundCost contents framing base output rates = .ok amount) : Produces rates amount

/-- The arithmetic of the rates is exact and its results are amounts again. -/
structure Closed (rates : CostRates) : Prop where
  cost : ∀ usage, Counts usage → ∃ amount, rates.cost usage = .ok amount ∧ (numeric amount).value =
    rates.exact usage.promptCacheMissTokens usage.promptCacheHitTokens usage.completionTokens
  maximum : ∀ input output, input < u64Bound → output < u64Bound →
    ∃ amount, rates.maximum input output = .ok amount ∧ (numeric amount).value = rates.exact input input output
  bounded : ∀ usage input output amount bound, rates.cost usage = .ok amount → rates.maximum input output = .ok bound →
    usage.promptTokens ≤ input → usage.completionTokens ≤ output → (numeric amount).value ≤ (numeric bound).value
  accepted : ∀ amount, rates.Produces amount → (numeric amount).integer ≠ 0 →
    (∃ d, DecimalRate.parse amount = .ok d) ∧ ∀ limit mode, positiveDecimal limit = true →
      ∃ reservation, SpendReservation.new amount limit mode = .ok reservation

section
variable {rates : CostRates}

/-- The three rates as they are read, and the price of the largest usage. -/
structure Priced (rates : CostRates) (a b c : Decimal) : Prop where
  input : DecimalRate.parse rates.inputUsdPerMillionTokens = .ok a
  cached : DecimalRate.parse rates.cachedInputUsdPerMillionTokens = .ok b
  output : DecimalRate.parse rates.outputUsdPerMillionTokens = .ok c
  largest : DecimalRate.weighed (DecimalRate.costScale a b c)
    [(a, u64Bound - 1), (b, u64Bound - 1), (c, u64Bound - 1)] < u128Bound

theorem new_ok {input cachedInput output : String} (h : CostRates.new input cachedInput output = .ok rates) :
    ∃ a b c, Priced rates a b c := by
  obtain ⟨amount, hcost, h⟩ := except_bind_ok.1 h
  rw [except_pure_ok] at h
  subst h
  obtain ⟨parsed, hparsed, -⟩ := except_bind_ok.1 hcost
  obtain ⟨a, ha, hrest⟩ := except_bind_ok.1 hparsed
  obtain ⟨rest, hrest, -⟩ := except_bind_ok.1 hrest
  obtain ⟨b, hb, hlast⟩ := except_bind_ok.1 hrest
  obtain ⟨last, hlast, -⟩ := except_bind_ok.1 hlast
  obtain ⟨c, hc, -⟩ := except_bind_ok.1 hlast
  exact ⟨a, b, c, ha, hb, hc, ((DecimalRate.cost_ok ha hb hc).1 hcost).1⟩

theorem numeric_of_parse {value : String} {d : Decimal} (h : DecimalRate.parse value = .ok d) : numeric value = d := by
  rw [numeric, (DecimalRate.parse_ok.1 h).1]
  rfl

namespace Priced
variable {a b c : Decimal}

theorem decimals_eq (h : Priced rates a b c) : rates.decimals = [a, b, c] := by
  rw [decimals, numeric_of_parse h.input, numeric_of_parse h.cached, numeric_of_parse h.output]

/-- The price of any counts is their weighed sum. -/
theorem price (h : Priced rates a b c) {x y z : Nat} {amount : String} :
    DecimalRate.cost (rates.priced x y z) = .ok amount ↔
      DecimalRate.weighed (DecimalRate.costScale a b c) [(a, x), (b, y), (c, z)] < u128Bound ∧ amount =
        Decimal.text ⟨DecimalRate.weighed (DecimalRate.costScale a b c) [(a, x), (b, y), (c, z)],
          DecimalRate.costScale a b c⟩ :=
  DecimalRate.cost_ok h.input h.cached h.output

theorem fits (h : Priced rates a b c) {x y z : Nat} (hx : x < u64Bound) (hy : y < u64Bound) (hz : z < u64Bound) :
    DecimalRate.weighed (DecimalRate.costScale a b c) [(a, x), (b, y), (c, z)] < u128Bound := by
  refine lt_of_le_of_lt (DecimalRate.weighed_mono ?_) h.largest
  exact .cons ⟨rfl, by omega⟩ (.cons ⟨rfl, by omega⟩ (.cons ⟨rfl, by omega⟩ .nil))

theorem value (h : Priced rates a b c) {x y z : Nat} {amount : String}
    (hcost : DecimalRate.cost (rates.priced x y z) = .ok amount) : (numeric amount).value = rates.exact x y z := by
  obtain ⟨-, rfl⟩ := h.price.1 hcost
  rw [numeric_text, exact, h.decimals_eq, Decimal.value, DecimalRate.weighed_value]
  · rfl
  · intro r hr
    simp only [List.mem_cons, List.not_mem_nil, or_false] at hr
    rcases hr with rfl | rfl | rfl <;> dsimp only [DecimalRate.costScale] <;> omega

theorem priced_ok (h : Priced rates a b c) {x y z : Nat} (hx : x < u64Bound) (hy : y < u64Bound) (hz : z < u64Bound) :
    ∃ amount, DecimalRate.cost (rates.priced x y z) = .ok amount ∧ (numeric amount).value = rates.exact x y z := by
  have hcost := h.price.2 ⟨h.fits hx hy hz, rfl⟩
  exact ⟨_, hcost, h.value hcost⟩

theorem exact_mono (h : Priced rates a b c) {x y z x' y' z' : Nat} (hx : x ≤ x') (hy : y ≤ y') (hz : z ≤ z') :
    rates.exact x y z ≤ rates.exact x' y' z' := by
  have hone : ∀ d : Decimal, ∀ {n n' : Nat}, n ≤ n' → d.value * (n : ℚ) / 10 ^ 6 ≤ d.value * (n' : ℚ) / 10 ^ 6 := by
    intro d n n' hn
    have hcast : (n : ℚ) ≤ n' := by exact_mod_cast hn
    have hmul := mul_le_mul_of_nonneg_left hcast d.value_nonneg
    gcongr
  rw [exact, exact, h.decimals_eq]
  simp only [List.zip_cons_cons, List.zip_nil_right, List.map_cons, List.map_nil, List.sum_cons, List.sum_nil]
  have ha := hone a hx
  have hb := hone b hy
  have hc := hone c hz
  linarith

/-- An amount that the rates produce has their scale. -/
theorem produced (h : Priced rates a b c) {amount : String} (hp : rates.Produces amount) :
    ∃ x y z, DecimalRate.weighed (DecimalRate.costScale a b c) [(a, x), (b, y), (c, z)] < u128Bound ∧ amount =
      Decimal.text ⟨DecimalRate.weighed (DecimalRate.costScale a b c) [(a, x), (b, y), (c, z)],
        DecimalRate.costScale a b c⟩ := by
  cases hp with
  | @cost usage amount hcounts hcost =>
    unfold CostRates.cost at hcost
    rw [if_neg (not_not.2 hcounts.2.2)] at hcost
    exact ⟨_, _, _, h.price.1 hcost⟩
  | bound hbound =>
    obtain ⟨input, -, hbound⟩ := except_bind_ok.1 hbound
    obtain ⟨checked, -, hbound⟩ := except_bind_ok.1 hbound
    obtain ⟨output, -, hbound⟩ := except_bind_ok.1 hbound
    exact ⟨_, _, _, h.price.1 hbound⟩

/-- A produced amount is accepted exactly when there is room for twelve digits more than the rates have. -/
theorem accepted_iff (h : Priced rates a b c) {amount : String} (hp : rates.Produces amount)
    (hne : (numeric amount).integer ≠ 0) :
    ((∃ d, DecimalRate.parse amount = .ok d) ∧ ∀ limit mode, positiveDecimal limit = true →
      ∃ reservation, SpendReservation.new amount limit mode = .ok reservation) ↔
      10 ^ (DecimalRate.costScale a b c + 6) < u128Bound := by
  obtain ⟨x, y, z, hn, rfl⟩ := h.produced hp
  rw [numeric_text] at hne
  generalize DecimalRate.weighed (DecimalRate.costScale a b c) [(a, x), (b, y), (c, z)] = n at hn hne ⊢
  have hparse := parse_text (d := ⟨n, DecimalRate.costScale a b c⟩) hn
  rw [hparse]
  refine ⟨fun h => h.1, fun hscale => ⟨hscale, fun limit mode hlimit => (reservation_ok hlimit).2 ?_⟩⟩
  obtain ⟨d, hd⟩ := hparse.2 hscale
  rw [positiveDecimal, hd, Decimal.text, String.toList_ofList]
  exact text_positive hne

end Priced

theorem power_fits {scale : Nat} : 10 ^ scale < u128Bound ↔ scale ≤ 38 := by
  have h38 : 10 ^ 38 < u128Bound := by norm_num [u128Bound]
  have h39 : u128Bound ≤ 10 ^ 39 := by norm_num [u128Bound]
  constructor
  · intro h
    by_contra hlt
    have hle : 10 ^ 39 ≤ 10 ^ scale := Nat.pow_le_pow_right (by omega) (by omega)
    omega
  · intro h
    have hle : 10 ^ scale ≤ 10 ^ 38 := Nat.pow_le_pow_right (by omega) h
    omega

/-- The rates that `CostRates::new` accepts are closed under their own arithmetic exactly when none of them has more
than 26 decimals, or all of them are zero. -/
theorem tariffs_closed_iff {input cachedInput output : String} (h : CostRates.new input cachedInput output = .ok rates) :
    rates.Closed ↔ (∀ d ∈ rates.decimals, d.scale ≤ 26) ∨ ∀ d ∈ rates.decimals, d.integer = 0 := by
  obtain ⟨a, b, c, hrates⟩ := new_ok h
  have hroom : 10 ^ (DecimalRate.costScale a b c + 6) < u128Bound ↔ ∀ d ∈ rates.decimals, d.scale ≤ 26 := by
    rw [power_fits, hrates.decimals_eq]
    simp only [List.forall_mem_cons, List.not_mem_nil, IsEmpty.forall_iff, implies_true, and_true, DecimalRate.costScale]
    omega
  constructor
  · intro hclosed
    by_contra hcondition
    obtain ⟨hprecise, hpaid⟩ := not_or.1 hcondition
    -- one token of input and one of output cost something
    have hbound : boundCost [] 0 1 1 rates = rates.maximum 1 1 := rfl
    obtain ⟨amount, hamount, -⟩ := hclosed.maximum 1 1 (by decide) (by decide)
    have hproduced : rates.Produces amount := .bound (hbound.trans hamount)
    have hne : (numeric amount).integer ≠ 0 := by
      obtain ⟨-, rfl⟩ := hrates.price.1 hamount
      rw [numeric_text]
      intro hzero
      refine hpaid ?_
      simp only [DecimalRate.weighed, List.map_cons, List.map_nil, List.sum_cons, List.sum_nil, mul_one,
        Nat.add_eq_zero_iff, Nat.mul_eq_zero, Nat.pow_eq_zero] at hzero
      rw [hrates.decimals_eq]
      simp only [List.forall_mem_cons, List.not_mem_nil, IsEmpty.forall_iff, implies_true, and_true]
      omega
    exact hprecise (hroom.1 ((hrates.accepted_iff hproduced hne).1 (hclosed.accepted amount hproduced hne)))
  · intro hcondition
    refine ⟨fun usage hcounts => ?_, fun i o hi ho => hrates.priced_ok hi hi ho, ?_, fun amount hproduced hne => ?_⟩
    · obtain ⟨hprompt, hcompletion, hsum⟩ := hcounts
      have hcost : rates.cost usage = DecimalRate.cost (rates.priced usage.promptCacheMissTokens
          usage.promptCacheHitTokens usage.completionTokens) := by
        unfold CostRates.cost
        rw [if_neg (not_not.2 hsum)]
        rfl
      rw [hcost]
      exact hrates.priced_ok (by omega) (by omega) hcompletion
    · intro usage i o amount bound hcost hmaximum hprompt hcompletion
      unfold CostRates.cost at hcost
      split at hcost
      · cases hcost
      · rename_i hsum
        rw [not_not] at hsum
        rw [hrates.value (x := usage.promptCacheMissTokens) (y := usage.promptCacheHitTokens) hcost, hrates.value hmaximum]
        exact hrates.exact_mono (by omega) (by omega) hcompletion
    · refine (hrates.accepted_iff hproduced hne).2 ?_
      rcases hcondition with hprecise | hfree
      · exact hroom.2 hprecise
      · -- free rates produce nothing but zero
        obtain ⟨x, y, z, -, rfl⟩ := hrates.produced hproduced
        rw [hrates.decimals_eq] at hfree
        simp only [List.forall_mem_cons, List.not_mem_nil, IsEmpty.forall_iff, implies_true, and_true] at hfree
        refine absurd ?_ hne
        rw [numeric_text]
        simp [DecimalRate.weighed, hfree.1, hfree.2.1, hfree.2.2]

end

/-- One billionth of a billionth of a billionth of a dollar for a million tokens of input. -/
private def preciseRates : CostRates :=
  { inputUsdPerMillionTokens := "0.000000000000000000000000001", cachedInputUsdPerMillionTokens := "0"
    outputUsdPerMillionTokens := "0" }

theorem tariffs_closed_iff_ordinary :
    ∃ rates, CostRates.new "0.28" "0.028" "0.42" = .ok rates ∧ rates.Closed := by
  have hnew : CostRates.new "0.28" "0.028" "0.42" = .ok
      { inputUsdPerMillionTokens := "0.28", cachedInputUsdPerMillionTokens := "0.028"
        outputUsdPerMillionTokens := "0.42" } := by decide +kernel
  exact ⟨_, hnew, (tariffs_closed_iff hnew).2 (.inl (by decide +kernel))⟩

/-- The rates are accepted, and no request that costs anything can be reserved at them. -/
theorem tariffs_not_closed :
    CostRates.new "0.000000000000000000000000001" "0" "0" = .ok preciseRates ∧
    preciseRates.maximum 1 1 = .ok "0.000000000000000000000000000000001" ∧
    DecimalRate.parse "0.000000000000000000000000000000001" = .error .configuration ∧
    SpendReservation.new "0.000000000000000000000000000000001" "1" .summary = .error .configuration := by
  decide +kernel

end CostRates

end Inoreader
