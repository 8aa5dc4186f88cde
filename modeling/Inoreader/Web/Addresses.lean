import Inoreader.Lib.Cidr
import Inoreader.Web.Network

/-!
# Special addresses and their spellings

The ranges that are not public, in both families, and the formats in which an IPv6 address carries an IPv4 address.
`validate_public_address` looks into two of these formats.
-/

namespace Inoreader
open Lib

/-! ## Addresses as numbers -/

def v4Number (a b c d : UInt8) : Nat := a.toNat * 2 ^ 24 + b.toNat * 2 ^ 16 + c.toNat * 2 ^ 8 + d.toNat

def v6Number (s₀ s₁ s₂ s₃ s₄ s₅ s₆ s₇ : UInt16) : Nat :=
  s₀.toNat * 2 ^ 112 + s₁.toNat * 2 ^ 96 + s₂.toNat * 2 ^ 80 + s₃.toNat * 2 ^ 64 + s₄.toNat * 2 ^ 48 +
    s₅.toNat * 2 ^ 32 + s₆.toNat * 2 ^ 16 + s₇.toNat

/-- The four octets of the low 32 bits. -/
def octets (n : Nat) : UInt8 × UInt8 × UInt8 × UInt8 :=
  (.ofNat (n / 2 ^ 24), .ofNat (n / 2 ^ 16), .ofNat (n / 2 ^ 8), .ofNat n)

def ofV4Number (n : Nat) : IpAddr := .v4 (octets n).1 (octets n).2.1 (octets n).2.2.1 (octets n).2.2.2

/-- `forbidden_v4` of the address with this number. -/
def forbiddenNumber (n : Nat) : Bool := forbiddenV4 (octets n).1 (octets n).2.1 (octets n).2.2.1 (octets n).2.2.2

/-! ## Ranges -/

namespace Ranges

def unspecified4 : Cidr 32 := ⟨0, 32, by simp⟩
def loopback4 : Cidr 32 := ⟨0x7f000000, 8, by simp⟩
def linkLocal4 : Cidr 32 := ⟨0xa9fe0000, 16, by simp⟩
def multicast4 : Cidr 32 := ⟨0xe0000000, 4, by simp⟩
/-- Private use is to IPv4 what unique local addresses are to IPv6. -/
def private4 : List (Cidr 32) :=
  [⟨0x0a000000, 8, by simp⟩, ⟨0xac100000, 12, by simp⟩, ⟨0xc0a80000, 16, by simp⟩]
def documentation4 : List (Cidr 32) :=
  [⟨0xc0000200, 24, by simp⟩, ⟨0xc6336400, 24, by simp⟩, ⟨0xcb007100, 24, by simp⟩]

def special4 : List (Cidr 32) := [unspecified4, loopback4, linkLocal4, multicast4] ++ private4 ++ documentation4

def unspecified6 : Cidr 128 := ⟨0, 128, by simp⟩
def loopback6 : Cidr 128 := ⟨1, 128, by simp⟩
def linkLocal6 : Cidr 128 := ⟨0xfe80 * 2 ^ 112, 10, by simp⟩
def uniqueLocal6 : Cidr 128 := ⟨0xfc00 * 2 ^ 112, 7, by simp⟩
def multicast6 : Cidr 128 := ⟨0xff00 * 2 ^ 112, 8, by simp⟩
def documentation6 : Cidr 128 := ⟨0x20010db8 * 2 ^ 96, 32, by simp⟩
/-- The second documentation range, `3fff::/20`. -/
def documentation6' : Cidr 128 := ⟨0x3fff * 2 ^ 112, 20, by simp⟩

def special6 : List (Cidr 128) :=
  [unspecified6, loopback6, linkLocal6, uniqueLocal6, multicast6, documentation6, documentation6']

def mapped : Cidr 128 := ⟨0xffff * 2 ^ 32, 96, by simp⟩
def compatible : Cidr 128 := ⟨0, 96, by simp⟩
def nat64 : Cidr 128 := ⟨0x0064ff9b * 2 ^ 96, 96, by simp⟩
def sixToFour : Cidr 128 := ⟨0x2002 * 2 ^ 112, 16, by simp⟩

/-- The formats, each with the place of its IPv4 address. -/
def embeddings : List (Cidr 128 × Nat) := [(mapped, 0), (compatible, 0), (nat64, 0), (sixToFour, 80)]

end Ranges

namespace IpAddr

/-- The IPv4 addresses that an address spells. -/
def embedded : IpAddr → List IpAddr
  | .v4 .. => []
  | .v6 s₀ s₁ s₂ s₃ s₄ s₅ s₆ s₇ =>
    let n := v6Number s₀ s₁ s₂ s₃ s₄ s₅ s₆ s₇
    (Ranges.embeddings.filter fun format => format.1.contains n).map fun format => ofV4Number (n / 2 ^ format.2)

def special : IpAddr → Bool
  | .v4 a b c d => Ranges.special4.any (·.contains (v4Number a b c d))
  | .v6 s₀ s₁ s₂ s₃ s₄ s₅ s₆ s₇ => Ranges.special6.any (·.contains (v6Number s₀ s₁ s₂ s₃ s₄ s₅ s₆ s₇))

/-- An accepted address spells accepted addresses only and is not special. -/
def AcceptedIsPublic (address : IpAddr) : Prop :=
  validatePublicAddress address = .ok () →
    (∀ v4 ∈ address.embedded, validatePublicAddress v4 = .ok ()) ∧ address.special = false

/-- The addresses that the checks leave out: an IPv4-compatible address (other than `::` and `::1`) or a 6to4 address
that spells a forbidden one, and the second documentation range. -/
def overlooked : IpAddr → Bool
  | .v4 .. => false
  | .v6 s₀ s₁ s₂ s₃ s₄ s₅ s₆ s₇ =>
    let n := v6Number s₀ s₁ s₂ s₃ s₄ s₅ s₆ s₇
    (Ranges.compatible.contains n && decide (2 ≤ n) && forbiddenNumber n) ||
      (Ranges.sixToFour.contains n && forbiddenNumber (n / 2 ^ 80)) || Ranges.documentation6'.contains n

end IpAddr

/-! ## The checks in numbers -/

section
variable {a b c d : UInt8} {s₀ s₁ s₂ s₃ s₄ s₅ s₆ s₇ : UInt16}

/-- `forbidden_v4` over numbers. -/
def Forbidden4 (a b c d : Nat) : Prop :=
  a = 0 ∨ a = 10 ∨ a = 127 ∨ 224 ≤ a ∨ (a = 100 ∧ 64 ≤ b ∧ b ≤ 127) ∨ (a = 169 ∧ b = 254) ∨
    (a = 172 ∧ 16 ≤ b ∧ b ≤ 31) ∨ (a = 192 ∧ b = 168) ∨ (a = 192 ∧ b = 0 ∧ c = 0) ∨ (a = 192 ∧ b = 0 ∧ c = 2) ∨
    (a = 198 ∧ (b = 18 ∨ b = 19)) ∨ (a = 198 ∧ b = 51 ∧ c = 100) ∨ (a = 203 ∧ b = 0 ∧ c = 113) ∨
    (a = 255 ∧ b = 255 ∧ c = 255 ∧ d = 255)

theorem forbiddenV4_iff : forbiddenV4 a b c d = true ↔ Forbidden4 a.toNat b.toNat c.toNat d.toNat := by
  unfold forbiddenV4 Forbidden4
  simp only [Bool.or_eq_true, Bool.and_eq_true, beq_iff_eq, decide_eq_true_eq, UInt8.le_iff_toNat_le, ge_iff_le,
    ← UInt8.toNat_inj, UInt8.toNat_ofNat, Nat.reducePow, Nat.reduceMod, or_assoc, and_assoc]

theorem octets_toNat (n : Nat) : (octets n).1.toNat = n / 2 ^ 24 % 256 ∧ (octets n).2.1.toNat = n / 2 ^ 16 % 256 ∧
    (octets n).2.2.1.toNat = n / 2 ^ 8 % 256 ∧ (octets n).2.2.2.toNat = n % 256 :=
  ⟨UInt8.toNat_ofNat', UInt8.toNat_ofNat', UInt8.toNat_ofNat', UInt8.toNat_ofNat'⟩

theorem forbiddenNumber_iff {n : Nat} : forbiddenNumber n = true ↔
    Forbidden4 (n / 2 ^ 24 % 256) (n / 2 ^ 16 % 256) (n / 2 ^ 8 % 256) (n % 256) := by
  obtain ⟨ha, hb, hc, hd⟩ := octets_toNat n
  unfold forbiddenNumber
  rw [forbiddenV4_iff, ha, hb, hc, hd]

theorem forbiddenEmbedded_iff : forbiddenEmbedded s₆ s₇ = true ↔
    Forbidden4 (s₆.toNat / 256) (s₆.toNat % 256) (s₇.toNat / 256) (s₇.toNat % 256) := by
  have h₆ := s₆.toNat_lt
  have h₇ := s₇.toNat_lt
  have hhigh : ∀ s : UInt16, s.toNat < 2 ^ 16 → (s >>> 8).toUInt8.toNat = s.toNat / 256 := by
    intro s hs
    have hshift : (s >>> 8).toNat = s.toNat / 256 := by
      rw [UInt16.toNat_shiftRight, Nat.shiftRight_eq_div_pow]
      rfl
    rw [UInt16.toNat_toUInt8, hshift]
    omega
  unfold forbiddenEmbedded
  rw [forbiddenV4_iff, hhigh s₆ h₆, hhigh s₇ h₇, UInt16.toNat_toUInt8, UInt16.toNat_toUInt8]

/-- The tests of the first segment. -/
theorem land_segment {s mask value : UInt16} {low v : Nat} (hlow : low ≤ 16) (hmask : mask.toNat = 2 ^ 16 - 2 ^ low)
    (hvalue : value.toNat = v * 2 ^ low) : (s &&& mask) = value ↔ s.toNat / 2 ^ low = v := by
  rw [← UInt16.toNat_inj, UInt16.toNat_and, hmask, hvalue]
  exact land_upper_eq s.toNat_lt hlow

/-- `forbidden_v6` over numbers. -/
theorem forbiddenV6_iff : forbiddenV6 s₀ s₁ s₂ s₃ s₄ s₅ s₆ s₇ = true ↔
    (s₀.toNat = 0 ∧ s₁.toNat = 0 ∧ s₂.toNat = 0 ∧ s₃.toNat = 0 ∧ s₄.toNat = 0 ∧ s₅.toNat = 0xffff ∧
      forbiddenEmbedded s₆ s₇ = true) ∨
    ¬(s₀.toNat = 0 ∧ s₁.toNat = 0 ∧ s₂.toNat = 0 ∧ s₃.toNat = 0 ∧ s₄.toNat = 0 ∧ s₅.toNat = 0xffff) ∧
      ((s₀.toNat = 0 ∧ s₁.toNat = 0 ∧ s₂.toNat = 0 ∧ s₃.toNat = 0 ∧ s₄.toNat = 0 ∧ s₅.toNat = 0 ∧ s₆.toNat = 0 ∧
          s₇.toNat ≤ 1) ∨
        s₀.toNat / 2 ^ 8 = 0xff ∨ s₀.toNat / 2 ^ 9 = 0x7e ∨ s₀.toNat / 2 ^ 6 = 0x3fa ∨
        (s₀.toNat = 0x2001 ∧ s₁.toNat = 0x0db8) ∨
        (s₀.toNat = 0x64 ∧ s₁.toNat = 0xff9b ∧ s₂.toNat = 0 ∧ s₃.toNat = 0 ∧ forbiddenEmbedded s₆ s₇ = true)) := by
  have hmulticast : (s₀ &&& 0xff00) = 0xff00 ↔ s₀.toNat / 2 ^ 8 = 0xff := land_segment (by simp) rfl rfl
  have hlocal : (s₀ &&& 0xfe00) = 0xfc00 ↔ s₀.toNat / 2 ^ 9 = 0x7e := land_segment (by simp) rfl rfl
  have hlink : (s₀ &&& 0xffc0) = 0xfe80 ↔ s₀.toNat / 2 ^ 6 = 0x3fa := land_segment (by simp) rfl rfl
  have hone : s₇.toNat ≤ 1 ↔ s₇.toNat = 0 ∨ s₇.toNat = 1 := by omega
  unfold forbiddenV6
  split
  · rename_i hmapped
    simp only [← UInt16.toNat_inj, UInt16.toNat_ofNat, Nat.reducePow, Nat.reduceMod] at hmapped
    simp [hmapped]
  · rename_i hmapped
    simp only [← UInt16.toNat_inj, UInt16.toNat_ofNat, Nat.reducePow, Nat.reduceMod] at hmapped
    simp only [Bool.or_eq_true, Bool.and_eq_true, beq_iff_eq, hmulticast, hlocal, hlink, hone]
    simp only [← UInt16.toNat_inj, UInt16.toNat_ofNat, Nat.reducePow, Nat.reduceMod, or_assoc, and_assoc]
    constructor
    · exact fun h => .inr ⟨hmapped, h⟩
    · rintro (⟨h₀, h₁, h₂, h₃, h₄, h₅, -⟩ | ⟨-, h⟩)
      · exact absurd ⟨h₀, h₁, h₂, h₃, h₄, h₅⟩ hmapped
      · exact h

/-! ## Ranges in numbers -/

theorem special4_iff {n : Nat} : Ranges.special4.any (·.contains n) = true ↔
    n = 0 ∨ n / 2 ^ 24 = 0x7f ∨ n / 2 ^ 16 = 0xa9fe ∨ n / 2 ^ 28 = 0xe ∨
      n / 2 ^ 24 = 0x0a ∨ n / 2 ^ 20 = 0xac1 ∨ n / 2 ^ 16 = 0xc0a8 ∨
      n / 2 ^ 8 = 0xc00002 ∨ n / 2 ^ 8 = 0xc63364 ∨ n / 2 ^ 8 = 0xcb0071 := by
  simp [Ranges.special4, Ranges.unspecified4, Ranges.loopback4, Ranges.linkLocal4, Ranges.multicast4, Ranges.private4,
    Ranges.documentation4, Cidr.contains_iff]

theorem special6_iff {n : Nat} : Ranges.special6.any (·.contains n) = true ↔
    n = 0 ∨ n = 1 ∨ n / 2 ^ 118 = 0x3fa ∨ n / 2 ^ 121 = 0x7e ∨ n / 2 ^ 120 = 0xff ∨ n / 2 ^ 96 = 0x20010db8 ∨
      n / 2 ^ 108 = 0x3fff0 := by
  simp [Ranges.special6, Ranges.unspecified6, Ranges.loopback6, Ranges.linkLocal6, Ranges.uniqueLocal6,
    Ranges.multicast6, Ranges.documentation6, Ranges.documentation6', Cidr.contains_iff]

/-- Every special range of IPv4 is forbidden. -/
theorem forbiddenV4_of_special (h : (IpAddr.v4 a b c d).special = true) : forbiddenV4 a b c d = true := by
  have ha := a.toNat_lt
  have hb := b.toNat_lt
  have hc := c.toNat_lt
  have hd := d.toNat_lt
  rw [forbiddenV4_iff]
  rw [IpAddr.special, special4_iff] at h
  unfold v4Number at h
  rcases h with h | h | h | h | h | h | h | h | h | h
  · have hfirst : a.toNat = 0 := by omega
    simp [Forbidden4, hfirst]
  · have hfirst : a.toNat = 127 := by omega
    simp [Forbidden4, hfirst]
  · have hpair : a.toNat = 169 ∧ b.toNat = 254 := by omega
    simp [Forbidden4, hpair]
  · have hfirst : 224 ≤ a.toNat := by omega
    simp [Forbidden4, hfirst]
  · have hfirst : a.toNat = 10 := by omega
    simp [Forbidden4, hfirst]
  · have hpair : a.toNat = 172 ∧ 16 ≤ b.toNat ∧ b.toNat ≤ 31 := by omega
    simp [Forbidden4, hpair]
  · have hpair : a.toNat = 192 ∧ b.toNat = 168 := by omega
    simp [Forbidden4, hpair]
  · have htriple : a.toNat = 192 ∧ b.toNat = 0 ∧ c.toNat = 2 := by omega
    simp [Forbidden4, htriple]
  · have htriple : a.toNat = 198 ∧ b.toNat = 51 ∧ c.toNat = 100 := by omega
    simp [Forbidden4, htriple]
  · have htriple : a.toNat = 203 ∧ b.toNat = 0 ∧ c.toNat = 113 := by omega
    simp [Forbidden4, htriple]

/-- The segments of an address and their number. -/
structure Spells (n : Nat) (s₀ s₁ s₂ s₃ s₄ s₅ s₆ s₇ : UInt16) : Prop where
  lt : s₀.toNat < 2 ^ 16 ∧ s₁.toNat < 2 ^ 16 ∧ s₂.toNat < 2 ^ 16 ∧ s₃.toNat < 2 ^ 16 ∧ s₄.toNat < 2 ^ 16 ∧
    s₅.toNat < 2 ^ 16 ∧ s₆.toNat < 2 ^ 16 ∧ s₇.toNat < 2 ^ 16
  eq : n = s₀.toNat * 2 ^ 112 + s₁.toNat * 2 ^ 96 + s₂.toNat * 2 ^ 80 + s₃.toNat * 2 ^ 64 + s₄.toNat * 2 ^ 48 +
    s₅.toNat * 2 ^ 32 + s₆.toNat * 2 ^ 16 + s₇.toNat

theorem v6Number_spells : Spells (v6Number s₀ s₁ s₂ s₃ s₄ s₅ s₆ s₇) s₀ s₁ s₂ s₃ s₄ s₅ s₆ s₇ :=
  ⟨⟨s₀.toNat_lt, s₁.toNat_lt, s₂.toNat_lt, s₃.toNat_lt, s₄.toNat_lt, s₅.toNat_lt, s₆.toNat_lt, s₇.toNat_lt⟩, rfl⟩

namespace Spells
variable {n : Nat} (h : Spells n s₀ s₁ s₂ s₃ s₄ s₅ s₆ s₇)
include h

/-- The address in the last two segments. -/
theorem forbiddenNumber_low : forbiddenNumber n = forbiddenEmbedded s₆ s₇ := by
  obtain ⟨⟨h₀, h₁, h₂, h₃, h₄, h₅, h₆, h₇⟩, heq⟩ := h
  have ha : n / 2 ^ 24 % 256 = s₆.toNat / 256 := by omega
  have hb : n / 2 ^ 16 % 256 = s₆.toNat % 256 := by omega
  have hc : n / 2 ^ 8 % 256 = s₇.toNat / 256 := by omega
  have hd : n % 256 = s₇.toNat % 256 := by omega
  rw [Bool.eq_iff_iff, forbiddenNumber_iff, forbiddenEmbedded_iff, ha, hb, hc, hd]

theorem mapped_iff : Ranges.mapped.contains n = true ↔ s₀.toNat = 0 ∧ s₁.toNat = 0 ∧ s₂.toNat = 0 ∧ s₃.toNat = 0 ∧
    s₄.toNat = 0 ∧ s₅.toNat = 0xffff := by
  obtain ⟨⟨h₀, h₁, h₂, h₃, h₄, h₅, h₆, h₇⟩, heq⟩ := h
  have hnet : Ranges.mapped.contains n = true ↔ n / 2 ^ 32 = 0xffff := by simp [Ranges.mapped, Cidr.contains_iff]
  rw [hnet]
  omega

theorem compatible_iff : Ranges.compatible.contains n = true ↔ s₀.toNat = 0 ∧ s₁.toNat = 0 ∧ s₂.toNat = 0 ∧
    s₃.toNat = 0 ∧ s₄.toNat = 0 ∧ s₅.toNat = 0 := by
  obtain ⟨⟨h₀, h₁, h₂, h₃, h₄, h₅, h₆, h₇⟩, heq⟩ := h
  have hnet : Ranges.compatible.contains n = true ↔ n / 2 ^ 32 = 0 := by
    simp [Ranges.compatible, Cidr.contains_iff]
  rw [hnet]
  omega

theorem nat64_iff : Ranges.nat64.contains n = true ↔ s₀.toNat = 0x64 ∧ s₁.toNat = 0xff9b ∧ s₂.toNat = 0 ∧
    s₃.toNat = 0 ∧ s₄.toNat = 0 ∧ s₅.toNat = 0 := by
  obtain ⟨⟨h₀, h₁, h₂, h₃, h₄, h₅, h₆, h₇⟩, heq⟩ := h
  have hnet : Ranges.nat64.contains n = true ↔ n / 2 ^ 32 = 0x64ff9b * 2 ^ 64 := by
    simp [Ranges.nat64, Cidr.contains_iff]
  rw [hnet]
  omega

theorem sixToFour_iff : Ranges.sixToFour.contains n = true ↔ s₀.toNat = 0x2002 := by
  obtain ⟨⟨h₀, h₁, h₂, h₃, h₄, h₅, h₆, h₇⟩, heq⟩ := h
  have hnet : Ranges.sixToFour.contains n = true ↔ n / 2 ^ 112 = 0x2002 := by simp [Ranges.sixToFour, Cidr.contains_iff]
  rw [hnet]
  omega

theorem documentation6'_iff : Ranges.documentation6'.contains n = true ↔ s₀.toNat = 0x3fff ∧ s₁.toNat < 0x1000 := by
  obtain ⟨⟨h₀, h₁, h₂, h₃, h₄, h₅, h₆, h₇⟩, heq⟩ := h
  have hnet : Ranges.documentation6'.contains n = true ↔ n / 2 ^ 108 = 0x3fff0 := by
    simp [Ranges.documentation6', Cidr.contains_iff]
  rw [hnet]
  omega

/-- Special ranges of IPv6 are forbidden, but for the second documentation range. -/
theorem special6_cases (hspecial : Ranges.special6.any (·.contains n) = true) :
    forbiddenV6 s₀ s₁ s₂ s₃ s₄ s₅ s₆ s₇ = true ∨ Ranges.documentation6'.contains n = true := by
  rw [h.documentation6'_iff, forbiddenV6_iff]
  rw [special6_iff] at hspecial
  obtain ⟨⟨h₀, h₁, h₂, h₃, h₄, h₅, h₆, h₇⟩, heq⟩ := h
  rcases hspecial with hn | hn | hn | hn | hn | hn | hn
  · have hzero : s₀.toNat = 0 ∧ s₁.toNat = 0 ∧ s₂.toNat = 0 ∧ s₃.toNat = 0 ∧ s₄.toNat = 0 ∧ s₅.toNat = 0 ∧
        s₆.toNat = 0 ∧ s₇.toNat = 0 := by omega
    left; right
    simp [hzero]
  · have hone : s₀.toNat = 0 ∧ s₁.toNat = 0 ∧ s₂.toNat = 0 ∧ s₃.toNat = 0 ∧ s₄.toNat = 0 ∧ s₅.toNat = 0 ∧
        s₆.toNat = 0 ∧ s₇.toNat = 1 := by omega
    left; right
    simp [hone]
  · have hlink : s₀.toNat / 2 ^ 6 = 0x3fa := by omega
    exact .inl (.inr ⟨fun hm => by omega, .inr (.inr (.inr (.inl hlink)))⟩)
  · have hlocal : s₀.toNat / 2 ^ 9 = 0x7e := by omega
    exact .inl (.inr ⟨fun hm => by omega, .inr (.inr (.inl hlocal))⟩)
  · have hmulticast : s₀.toNat / 2 ^ 8 = 0xff := by omega
    exact .inl (.inr ⟨fun hm => by omega, .inr (.inl hmulticast)⟩)
  · have hdoc : s₀.toNat = 0x2001 ∧ s₁.toNat = 0x0db8 := by omega
    exact .inl (.inr ⟨fun hm => by omega, .inr (.inr (.inr (.inr (.inl hdoc))))⟩)
  · right
    omega

/-- What is overlooked is accepted. -/
theorem not_forbidden (hn : (Ranges.compatible.contains n = true ∧ 2 ≤ n) ∨ Ranges.sixToFour.contains n = true ∨
    Ranges.documentation6'.contains n = true) : forbiddenV6 s₀ s₁ s₂ s₃ s₄ s₅ s₆ s₇ = false := by
  rw [h.compatible_iff, h.sixToFour_iff, h.documentation6'_iff] at hn
  rw [Bool.eq_false_iff, Ne, forbiddenV6_iff]
  obtain ⟨⟨h₀, h₁, h₂, h₃, h₄, h₅, h₆, h₇⟩, heq⟩ := h
  generalize forbiddenEmbedded s₆ s₇ = embedded
  rcases hn with ⟨⟨k₀, k₁, k₂, k₃, k₄, k₅⟩, htwo⟩ | hsix | hdoc
  · rw [k₀, k₁, k₂, k₃, k₄, k₅] at heq ⊢
    simp
    omega
  · rw [hsix]
    simp
  · rw [hdoc.1]
    simp

/-- An IPv4 address in a format that the checks know is forbidden with it. -/
theorem known_format (hn : Ranges.mapped.contains n = true ∨ Ranges.nat64.contains n = true)
    (hforbidden : forbiddenNumber n = true) : forbiddenV6 s₀ s₁ s₂ s₃ s₄ s₅ s₆ s₇ = true := by
  rw [h.forbiddenNumber_low] at hforbidden
  rw [h.mapped_iff, h.nat64_iff] at hn
  rw [forbiddenV6_iff]
  rcases hn with ⟨h₀, h₁, h₂, h₃, h₄, h₅⟩ | ⟨h₀, h₁, h₂, h₃, h₄, h₅⟩
  · exact .inl ⟨h₀, h₁, h₂, h₃, h₄, h₅, hforbidden⟩
  · refine .inr ⟨fun hmapped => ?_, .inr (.inr (.inr (.inr (.inr ⟨h₀, h₁, h₂, h₃, hforbidden⟩))))⟩
    rw [hmapped.1] at h₀
    cases h₀

/-- `::` and `::1` are not public. -/
theorem forbidden_of_lt_two (hn : n < 2) : forbiddenV6 s₀ s₁ s₂ s₃ s₄ s₅ s₆ s₇ = true := by
  rw [forbiddenV6_iff]
  obtain ⟨⟨h₀, h₁, h₂, h₃, h₄, h₅, h₆, h₇⟩, heq⟩ := h
  have hzero : s₀.toNat = 0 ∧ s₁.toNat = 0 ∧ s₂.toNat = 0 ∧ s₃.toNat = 0 ∧ s₄.toNat = 0 ∧ s₅.toNat = 0 ∧
      s₆.toNat = 0 ∧ s₇.toNat ≤ 1 := by omega
  right
  simp [hzero]

end Spells

end

/-! ## The result -/

theorem validatePublicAddress_v4 {a b c d : UInt8} :
    validatePublicAddress (.v4 a b c d) = .ok () ↔ forbiddenV4 a b c d = false := by
  unfold validatePublicAddress
  cases hforbidden : forbiddenV4 a b c d <;> simp [hforbidden]

theorem validatePublicAddress_v6 {s₀ s₁ s₂ s₃ s₄ s₅ s₆ s₇ : UInt16} :
    validatePublicAddress (.v6 s₀ s₁ s₂ s₃ s₄ s₅ s₆ s₇) = .ok () ↔ forbiddenV6 s₀ s₁ s₂ s₃ s₄ s₅ s₆ s₇ = false := by
  unfold validatePublicAddress
  cases hforbidden : forbiddenV6 s₀ s₁ s₂ s₃ s₄ s₅ s₆ s₇ <;> simp [hforbidden]

theorem validatePublicAddress_number {n : Nat} :
    validatePublicAddress (ofV4Number n) = .ok () ↔ forbiddenNumber n = false := validatePublicAddress_v4

/-- What an accepted address spells, format by format. -/
theorem acceptedIsPublic_v6 {s₀ s₁ s₂ s₃ s₄ s₅ s₆ s₇ : UInt16} {n : Nat}
    (hn : n = v6Number s₀ s₁ s₂ s₃ s₄ s₅ s₆ s₇) : (IpAddr.v6 s₀ s₁ s₂ s₃ s₄ s₅ s₆ s₇).AcceptedIsPublic ↔
      (forbiddenV6 s₀ s₁ s₂ s₃ s₄ s₅ s₆ s₇ = false →
        (Ranges.mapped.contains n = true → forbiddenNumber n = false) ∧
        (Ranges.compatible.contains n = true → forbiddenNumber n = false) ∧
        (Ranges.nat64.contains n = true → forbiddenNumber n = false) ∧
        (Ranges.sixToFour.contains n = true → forbiddenNumber (n / 2 ^ 80) = false) ∧
        Ranges.special6.any (·.contains n) = false) := by
  unfold IpAddr.AcceptedIsPublic
  rw [validatePublicAddress_v6, IpAddr.special, IpAddr.embedded, ← hn]
  have hformats : (∀ v4 ∈ (Ranges.embeddings.filter fun format => format.1.contains n).map fun format =>
      ofV4Number (n / 2 ^ format.2), validatePublicAddress v4 = .ok ()) ↔
      ∀ format ∈ Ranges.embeddings, format.1.contains n = true → forbiddenNumber (n / 2 ^ format.2) = false := by
    simp only [List.mem_map, List.mem_filter, ← validatePublicAddress_number]
    constructor
    · exact fun h format hf hc => h _ ⟨format, ⟨hf, hc⟩, rfl⟩
    · rintro h v4 ⟨format, ⟨hf, hc⟩, rfl⟩
      exact h format hf hc
  rw [hformats]
  simp only [Ranges.embeddings, List.forall_mem_cons, List.not_mem_nil, false_implies, implies_true, and_true,
    Nat.pow_zero, Nat.div_one, and_assoc]

/-- An accepted address is public in every spelling, unless the checks overlook it. -/
theorem accepted_is_public_iff (address : IpAddr) : address.AcceptedIsPublic ↔ address.overlooked = false := by
  cases address with
  | v4 a b c d =>
    refine iff_of_true (fun haccepted => ⟨fun _ hmem => absurd hmem List.not_mem_nil, ?_⟩) rfl
    rw [validatePublicAddress_v4] at haccepted
    by_contra hspecial
    rw [Bool.not_eq_false] at hspecial
    rw [forbiddenV4_of_special hspecial] at haccepted
    cases haccepted
  | v6 s₀ s₁ s₂ s₃ s₄ s₅ s₆ s₇ =>
    have hspells := @v6Number_spells s₀ s₁ s₂ s₃ s₄ s₅ s₆ s₇
    rw [acceptedIsPublic_v6 rfl, IpAddr.overlooked]
    generalize v6Number s₀ s₁ s₂ s₃ s₄ s₅ s₆ s₇ = n at hspells
    rw [Bool.or_eq_false_iff, Bool.or_eq_false_iff]
    constructor
    · intro h
      refine ⟨⟨?_, ?_⟩, ?_⟩
      · by_contra hc
        simp only [Bool.not_eq_false, Bool.and_eq_true, decide_eq_true_eq] at hc
        have haccepted := h (hspells.not_forbidden (.inl hc.1))
        rw [haccepted.2.1 hc.1.1] at hc
        exact Bool.false_ne_true hc.2
      · by_contra hc
        simp only [Bool.not_eq_false, Bool.and_eq_true] at hc
        have haccepted := h (hspells.not_forbidden (.inr (.inl hc.1)))
        rw [haccepted.2.2.2.1 hc.1] at hc
        exact Bool.false_ne_true hc.2
      · by_contra hc
        rw [Bool.not_eq_false] at hc
        have hspecial := (h (hspells.not_forbidden (.inr (.inr hc)))).2.2.2.2
        rw [List.any_eq_false] at hspecial
        exact hspecial Ranges.documentation6' (by simp [Ranges.special6]) hc
    · rintro ⟨⟨hcompatible, hsix⟩, hdoc⟩ haccepted
      have hforbidden : ∀ {p : Prop}, (p → forbiddenV6 s₀ s₁ s₂ s₃ s₄ s₅ s₆ s₇ = true) → ¬p := by
        intro p hp hholds
        rw [hp hholds] at haccepted
        cases haccepted
      refine ⟨fun hm => ?_, fun hc => ?_, fun hm => ?_, fun hs => ?_, ?_⟩
      · exact Bool.eq_false_iff.2 (hforbidden (hspells.known_format (.inl hm)))
      · have htwo : 2 ≤ n := Nat.not_lt.1 (hforbidden hspells.forbidden_of_lt_two)
        simpa [hc, htwo] using hcompatible
      · exact Bool.eq_false_iff.2 (hforbidden (hspells.known_format (.inr hm)))
      · simpa [hs] using hsix
      · refine Bool.eq_false_iff.2 (hforbidden fun hspecial => (hspells.special6_cases hspecial).resolve_right ?_)
        rw [hdoc]
        exact Bool.false_ne_true

/-- `::10.0.0.1` and the 6to4 address of `10.0.0.1` are accepted. -/
theorem private_spellings_accepted :
    ¬ (IpAddr.v6 0 0 0 0 0 0 0x0a00 0x0001).AcceptedIsPublic ∧
      ¬ (IpAddr.v6 0x2002 0x0a00 0x0001 0 0 0 0 1).AcceptedIsPublic := by
  constructor
  · intro h
    have haccepted := (h (by decide)).1 (.v4 10 0 0 1) (by decide)
    exact absurd haccepted (by decide)
  · intro h
    have haccepted := (h (by decide)).1 (.v4 10 0 0 1) (by decide)
    exact absurd haccepted (by decide)

end Inoreader
