import Mathlib.Algebra.Order.Field.Basic
import Mathlib.Tactic.FieldSimp
import Mathlib.Tactic.Linarith
import Mathlib.Tactic.Ring

/-!
# Tilings of a box

Boxes with sides along the axes over an ordered field. A tiling of the two halves of a box is a tiling of the box.
-/

namespace Lib

structure Box (K : Type) where
  x : K
  y : K
  width : K
  height : K
deriving DecidableEq, Repr

section
variable {K : Type} [Field K] [LinearOrder K]

namespace Box

def area (b : Box K) : K := b.width * b.height

/-- A point of the box, its edges included. -/
def Contains (b : Box K) (p : K × K) : Prop :=
  (b.x ≤ p.1 ∧ p.1 ≤ b.x + b.width) ∧ b.y ≤ p.2 ∧ p.2 ≤ b.y + b.height

def Interior (b : Box K) (p : K × K) : Prop :=
  (b.x < p.1 ∧ p.1 < b.x + b.width) ∧ b.y < p.2 ∧ p.2 < b.y + b.height

def Inside (b frame : Box K) : Prop :=
  (frame.x ≤ b.x ∧ b.x + b.width ≤ frame.x + frame.width) ∧ frame.y ≤ b.y ∧ b.y + b.height ≤ frame.y + frame.height

/-- The parts of a box on both sides of a cut across. -/
def left (b : Box K) (cut : K) : Box K := { b with width := cut }
def right (b : Box K) (cut : K) : Box K := { b with x := b.x + cut, width := b.width - cut }

/-- The parts of a box on both sides of a cut along. -/
def upper (b : Box K) (cut : K) : Box K := { b with height := cut }
def lower (b : Box K) (cut : K) : Box K := { b with y := b.y + cut, height := b.height - cut }

variable {a b c : Box K} {p : K × K} {cut : K}

theorem Inside.refl (b : Box K) : b.Inside b := ⟨⟨le_refl _, le_refl _⟩, le_refl _, le_refl _⟩

theorem Inside.trans (hab : a.Inside b) (hbc : b.Inside c) : a.Inside c :=
  ⟨⟨hbc.1.1.trans hab.1.1, hab.1.2.trans hbc.1.2⟩, hbc.2.1.trans hab.2.1, hab.2.2.trans hbc.2.2⟩

theorem Inside.interior (h : a.Inside b) (hp : a.Interior p) : b.Interior p :=
  ⟨⟨h.1.1.trans_lt hp.1.1, hp.1.2.trans_le h.1.2⟩, h.2.1.trans_lt hp.2.1, hp.2.2.trans_le h.2.2⟩

theorem left_right_disjoint (hl : (b.left cut).Interior p) (hr : (b.right cut).Interior p) : False :=
  lt_asymm hl.1.2 hr.1.1

theorem upper_lower_disjoint (hu : (b.upper cut).Interior p) (hl : (b.lower cut).Interior p) : False :=
  lt_asymm hu.2.2 hl.2.1

end Box

/-- The boxes lie in the frame, their interiors are disjoint, and they cover it. -/
structure Tiles (boxes : List (Box K)) (frame : Box K) : Prop where
  inside : ∀ b ∈ boxes, b.Inside frame
  disjoint : boxes.Pairwise fun a b => ∀ p, a.Interior p → ¬ b.Interior p
  covers : ∀ p, frame.Contains p → ∃ b ∈ boxes, b.Contains p

namespace Tiles
variable {frame part part' : Box K} {boxes boxes' : List (Box K)}

theorem single (frame : Box K) : Tiles [frame] frame where
  inside := by
    intro b hb
    obtain rfl := List.mem_singleton.1 hb
    exact Box.Inside.refl b
  disjoint := List.pairwise_singleton ..
  covers := fun _ hp => ⟨frame, List.mem_singleton_self frame, hp⟩

/-- Tilings of two parts that make up the frame. -/
theorem append (h : Tiles boxes part) (h' : Tiles boxes' part') (hin : part.Inside frame) (hin' : part'.Inside frame)
    (hdisjoint : ∀ p, part.Interior p → ¬ part'.Interior p)
    (hcovers : ∀ p, frame.Contains p → part.Contains p ∨ part'.Contains p) : Tiles (boxes ++ boxes') frame where
  inside := by
    intro b hb
    rcases List.mem_append.1 hb with hb | hb
    · exact (h.inside b hb).trans hin
    · exact (h'.inside b hb).trans hin'
  disjoint := by
    refine List.pairwise_append.2 ⟨h.disjoint, h'.disjoint, fun a ha b hb p hpa hpb => ?_⟩
    exact hdisjoint p ((h.inside a ha).interior hpa) ((h'.inside b hb).interior hpb)
  covers := by
    intro p hp
    rcases hcovers p hp with hpart | hpart
    · obtain ⟨b, hb, hbp⟩ := h.covers p hpart
      exact ⟨b, List.mem_append_left _ hb, hbp⟩
    · obtain ⟨b, hb, hbp⟩ := h'.covers p hpart
      exact ⟨b, List.mem_append_right _ hb, hbp⟩

end Tiles

end

section
variable {K : Type} [Field K] [LinearOrder K] [IsStrictOrderedRing K] {b frame : Box K} {p : K × K} {cut : K}
  {boxes boxes' : List (Box K)}

namespace Box

theorem left_inside (h : cut ≤ b.width) : (b.left cut).Inside b :=
  ⟨⟨le_refl _, add_le_add_right h _⟩, le_refl _, le_refl _⟩

theorem right_inside (h : 0 ≤ cut) : (b.right cut).Inside b := by
  refine ⟨⟨le_add_of_nonneg_right h, ?_⟩, le_refl _, le_refl _⟩
  show b.x + cut + (b.width - cut) ≤ b.x + b.width
  linarith

theorem upper_inside (h : cut ≤ b.height) : (b.upper cut).Inside b :=
  ⟨⟨le_refl _, le_refl _⟩, le_refl _, add_le_add_right h _⟩

theorem lower_inside (h : 0 ≤ cut) : (b.lower cut).Inside b := by
  refine ⟨⟨le_refl _, le_refl _⟩, le_add_of_nonneg_right h, ?_⟩
  show b.y + cut + (b.height - cut) ≤ b.y + b.height
  linarith

theorem left_or_right (h : b.Contains p) : (b.left cut).Contains p ∨ (b.right cut).Contains p := by
  obtain ⟨⟨hx, hx'⟩, hy⟩ := h
  rcases le_total p.1 (b.x + cut) with hcut | hcut
  · exact .inl ⟨⟨hx, hcut⟩, hy⟩
  · refine .inr ⟨⟨hcut, ?_⟩, hy⟩
    show p.1 ≤ b.x + cut + (b.width - cut)
    linarith

theorem upper_or_lower (h : b.Contains p) : (b.upper cut).Contains p ∨ (b.lower cut).Contains p := by
  obtain ⟨hx, hy, hy'⟩ := h
  rcases le_total p.2 (b.y + cut) with hcut | hcut
  · exact .inl ⟨hx, hy, hcut⟩
  · refine .inr ⟨hx, hcut, ?_⟩
    show p.2 ≤ b.y + cut + (b.height - cut)
    linarith

end Box

namespace Tiles

theorem across (hlow : 0 ≤ cut) (hhigh : cut ≤ frame.width) (h : Tiles boxes (frame.left cut))
    (h' : Tiles boxes' (frame.right cut)) : Tiles (boxes ++ boxes') frame :=
  h.append h' (Box.left_inside hhigh) (Box.right_inside hlow) (fun _ hl hr => Box.left_right_disjoint hl hr)
    fun _ hp => Box.left_or_right hp

theorem along (hlow : 0 ≤ cut) (hhigh : cut ≤ frame.height) (h : Tiles boxes (frame.upper cut))
    (h' : Tiles boxes' (frame.lower cut)) : Tiles (boxes ++ boxes') frame :=
  h.append h' (Box.upper_inside hhigh) (Box.lower_inside hlow) (fun _ hu hl => Box.upper_lower_disjoint hu hl)
    fun _ hp => Box.upper_or_lower hp

end Tiles

end

end Lib
