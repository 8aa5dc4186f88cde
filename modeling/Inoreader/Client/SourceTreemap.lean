import Inoreader.Lib.JsValue
import Inoreader.Lib.Tiling
import Mathlib.Data.List.Sort
import Mathlib.Algebra.Order.BigOperators.Group.List
import Mathlib.Data.Rat.Lemmas
import Mathlib.Algebra.Order.Ring.Rat

/-!
# The source treemap (`src/web/src/app/sourceTreemap.ts`)

Numbers are exact rationals. The rows of a frame are cut in two, where the sum is closest to a half, until one is left.
-/

namespace Inoreader
open Lib

structure WeightedSource (κ : Type) where
  key : κ
  count : ℚ
deriving DecidableEq, Repr

structure SourceRectangle (κ : Type) where
  key : κ
  box : Box ℚ
deriving DecidableEq, Repr

namespace SourceTreemap
variable {κ : Type}

/-- The loop over the values; `keys` has the ones before. -/
def check [DecidableEq κ] : (keys : List κ) → List (WeightedSource κ) → Except String Unit
  | _, [] => .ok ()
  | keys, value :: values =>
    if isSafeInteger value.count = false ∨ value.count < 0 ∨ value.key ∈ keys then
      .error "Treemap sources require unique identities and nonnegative integer counts"
    else check (value.key :: keys) values

/-- The larger count first; `localeCompare` is the order of the keys. -/
def before [LinearOrder κ] (a b : WeightedSource κ) : Prop := b.count < a.count ∨ a.count = b.count ∧ a.key ≤ b.key

instance [LinearOrder κ] (a b : WeightedSource κ) : Decidable (before a b) := inferInstanceAs (Decidable (_ ∨ _))

def total (rows : List (WeightedSource κ)) : ℚ := (rows.map (·.count)).sum

/-- The loop that moves the split: how many of the rows join the first one, and the sum of both. -/
def grow (sum left : ℚ) : List (WeightedSource κ) → Nat × ℚ
  | [] => (0, left)
  | [_] => (0, left)
  | row :: next :: rest =>
    if |left + row.count - sum / 2| < |left - sum / 2| then
      let more := grow sum (left + row.count) (next :: rest)
      (more.1 + 1, more.2)
    else (0, left)

/-- One row stays on the other side. -/
theorem grow_lt (sum left : ℚ) {rows : List (WeightedSource κ)} (h : rows ≠ []) : (grow sum left rows).1 < rows.length := by
  induction rows generalizing left with
  | nil => exact absurd rfl h
  | cons row rest ih =>
    cases rest with
    | nil => exact Nat.one_pos
    | cons next rest =>
      rw [grow]
      split
      · exact Nat.succ_lt_succ (ih _ (List.cons_ne_nil _ _))
      · exact Nat.succ_pos _

def partition (rows : List (WeightedSource κ)) (sum : ℚ) (frame : Box ℚ) : List (SourceRectangle κ) :=
  match rows with
  | [] => []
  | [row] => [{ key := row.key, box := frame }]
  | row :: next :: rest =>
    let split := grow sum row.count (next :: rest)
    let fraction := split.2 / sum
    let first := row :: (next :: rest).take split.1
    let second := (next :: rest).drop split.1
    if frame.height ≤ frame.width then
      partition first split.2 { frame with width := frame.width * fraction } ++
        partition second (sum - split.2)
          { frame with x := frame.x + frame.width * fraction, width := frame.width * (1 - fraction) }
    else
      partition first split.2 { frame with height := frame.height * fraction } ++
        partition second (sum - split.2)
          { frame with y := frame.y + frame.height * fraction, height := frame.height * (1 - fraction) }
termination_by rows.length
decreasing_by
  all_goals
    have hlt := grow_lt sum row.count (List.cons_ne_nil next rest)
    simp only [List.length_cons, List.length_take, List.length_drop] at hlt ⊢
    omega

end SourceTreemap

open SourceTreemap

def sourceTreemap {κ : Type} [LinearOrder κ] (values : List (WeightedSource κ)) (width height : ℚ) :
    Except String (List (SourceRectangle κ)) :=
  if width ≤ 0 ∨ height ≤ 0 then .error "Treemap dimensions must be positive"
  else match check [] values with
    | .error e => .error e
    | .ok _ =>
      let rows := (values.filter fun value => 0 < value.count).insertionSort before
      if isSafeInteger (total rows) = false then
        .error "Treemap contribution count exceeds exact numeric range"
      else .ok (partition rows (total rows) { x := 0, y := 0, width, height })

namespace SourceTreemap

/-! ## One cut -/

section
variable {κ : Type} {rows first second : List (WeightedSource κ)} {row : WeightedSource κ} {sum left : ℚ}
  {frame : Box ℚ}

theorem total_cons : total (row :: rows) = row.count + total rows := by simp [total]

theorem total_append : total (first ++ second) = total first + total second := by simp [total]

theorem total_pos (h : ∀ row ∈ rows, 0 < row.count) (hne : rows ≠ []) : 0 < total rows := by
  induction rows with
  | nil => exact absurd rfl hne
  | cons row rows ih =>
    have hrow := h row List.mem_cons_self
    have hrows : ∀ row ∈ rows, 0 < row.count := fun r hr => h r (List.mem_cons_of_mem _ hr)
    rw [total_cons]
    by_cases hempty : rows = []
    · subst hempty
      simpa [total] using hrow
    · exact add_pos hrow (ih hrows hempty)

/-- The loop keeps the sum of the rows that it takes. -/
theorem grow_sum (sum left : ℚ) (rows : List (WeightedSource κ)) :
    (grow sum left rows).2 = left + total (rows.take (grow sum left rows).1) := by
  induction rows generalizing left with
  | nil => simp [grow, total]
  | cons row rest ih =>
    cases rest with
    | nil => simp [grow, total]
    | cons next rest =>
      rw [grow]
      split
      · dsimp only
        rw [ih, List.take_succ_cons, total_cons, add_assoc]
      · simp [total]

/-- The rows of a frame with their boxes: areas in proportion, and a tiling. -/
structure Partitioned (rows : List (WeightedSource κ)) (frame : Box ℚ) (rects : List (SourceRectangle κ)) : Prop where
  areas : List.Forall₂ (fun row rect => rect.key = row.key ∧ rect.box.area = row.count / total rows * frame.area)
    rows rects
  tiles : Tiles (rects.map (·.box)) frame

/-- The area of a box in its part of the frame. -/
theorem area_of_part {count part whole area partArea frameArea : ℚ} (hpart : 0 < part) (hwhole : 0 < whole)
    (hframe : partArea = part / whole * frameArea) (harea : area = count / part * partArea) :
    area = count / whole * frameArea := by
  rw [harea, hframe]
  field_simp

theorem Forall₂.weaken {rows : List (WeightedSource κ)} {rects : List (SourceRectangle κ)} {part whole partArea
    frameArea : ℚ} (hpart : 0 < part) (hwhole : 0 < whole) (hframe : partArea = part / whole * frameArea)
    (h : List.Forall₂ (fun row rect => rect.key = row.key ∧ rect.box.area = row.count / part * partArea) rows rects) :
    List.Forall₂ (fun row rect => rect.key = row.key ∧ rect.box.area = row.count / whole * frameArea) rows rects :=
  h.imp fun _ _ hrow => ⟨hrow.1, area_of_part hpart hwhole hframe hrow.2⟩

/-- The share of the first part. -/
theorem fraction_bounds {fraction : ℚ} (hfirst : 0 < total first) (hsecond : 0 < total second)
    (hfraction : fraction = total first / total (first ++ second)) : 0 < total (first ++ second) ∧
      1 - fraction = total second / total (first ++ second) ∧ 0 < fraction ∧ fraction < 1 := by
  have hwhole : total (first ++ second) = total first + total second := total_append
  have hpos : 0 < total (first ++ second) := by
    rw [hwhole]
    exact add_pos hfirst hsecond
  have hrest : 1 - fraction = total second / total (first ++ second) := by
    rw [hfraction, eq_div_iff hpos.ne', sub_mul, one_mul, div_mul_cancel₀ _ hpos.ne', hwhole]
    ring
  have hrestPos := div_pos hsecond hpos
  exact ⟨hpos, hrest, hfraction ▸ div_pos hfirst hpos, by linarith⟩

/-- Two partitions side by side. -/
theorem Partitioned.across {rects rects' : List (SourceRectangle κ)} {fraction : ℚ} (hfirst : 0 < total first)
    (hsecond : 0 < total second) (hfraction : fraction = total first / total (first ++ second)) (hwidth : 0 ≤ frame.width)
    (h : Partitioned first { frame with width := frame.width * fraction } rects)
    (h' : Partitioned second
      { frame with x := frame.x + frame.width * fraction, width := frame.width * (1 - fraction) } rects') :
    Partitioned (first ++ second) frame (rects ++ rects') := by
  obtain ⟨hpos, hrest, hnonneg, hle⟩ := fraction_bounds hfirst hsecond hfraction
  refine ⟨List.rel_append ?_ ?_, ?_⟩
  · refine Forall₂.weaken hfirst hpos ?_ h.areas
    rw [← hfraction]
    simp only [Box.area]
    ring
  · refine Forall₂.weaken hsecond hpos ?_ h'.areas
    rw [← hrest]
    simp only [Box.area]
    ring
  · rw [List.map_append]
    refine Tiles.across (mul_nonneg hwidth hnonneg.le) (mul_le_of_le_one_right hwidth hle.le) h.tiles ?_
    have hright : frame.right (frame.width * fraction) =
        { frame with x := frame.x + frame.width * fraction, width := frame.width * (1 - fraction) } := by
      unfold Box.right
      rw [mul_sub, mul_one]
    rw [hright]
    exact h'.tiles

/-- Two partitions one above the other. -/
theorem Partitioned.along {rects rects' : List (SourceRectangle κ)} {fraction : ℚ} (hfirst : 0 < total first)
    (hsecond : 0 < total second) (hfraction : fraction = total first / total (first ++ second))
    (hheight : 0 ≤ frame.height) (h : Partitioned first { frame with height := frame.height * fraction } rects)
    (h' : Partitioned second
      { frame with y := frame.y + frame.height * fraction, height := frame.height * (1 - fraction) } rects') :
    Partitioned (first ++ second) frame (rects ++ rects') := by
  obtain ⟨hpos, hrest, hnonneg, hle⟩ := fraction_bounds hfirst hsecond hfraction
  refine ⟨List.rel_append ?_ ?_, ?_⟩
  · refine Forall₂.weaken hfirst hpos ?_ h.areas
    rw [← hfraction]
    simp only [Box.area]
    ring
  · refine Forall₂.weaken hsecond hpos ?_ h'.areas
    rw [← hrest]
    simp only [Box.area]
    ring
  · rw [List.map_append]
    refine Tiles.along (mul_nonneg hheight hnonneg.le) (mul_le_of_le_one_right hheight hle.le) h.tiles ?_
    have hlower : frame.lower (frame.height * fraction) =
        { frame with y := frame.y + frame.height * fraction, height := frame.height * (1 - fraction) } := by
      unfold Box.lower
      rw [mul_sub, mul_one]
    rw [hlower]
    exact h'.tiles

/-- What a cut does with the sums: both sides have rows, and the sums passed down are theirs. -/
theorem cut_spec {next : WeightedSource κ} {rest : List (WeightedSource κ)} (split : Nat × ℚ)
    (hrows : ∀ r ∈ row :: next :: rest, 0 < r.count) (hsum : sum = total (row :: next :: rest))
    (hsplit : split = grow sum row.count (next :: rest)) :
    row :: next :: rest = (row :: (next :: rest).take split.1) ++ (next :: rest).drop split.1 ∧
      (∀ r ∈ row :: (next :: rest).take split.1, 0 < r.count) ∧ (∀ r ∈ (next :: rest).drop split.1, 0 < r.count) ∧
      (next :: rest).drop split.1 ≠ [] ∧ split.2 = total (row :: (next :: rest).take split.1) ∧
      sum - split.2 = total ((next :: rest).drop split.1) := by
  have hgrown := grow_sum sum row.count (next :: rest)
  have hlt := grow_lt sum row.count (List.cons_ne_nil next rest)
  rw [← hsplit] at hgrown hlt
  have happend : row :: next :: rest = (row :: (next :: rest).take split.1) ++ (next :: rest).drop split.1 := by
    rw [List.cons_append, List.take_append_drop]
  have hfirst : split.2 = total (row :: (next :: rest).take split.1) := by rw [total_cons, hgrown]
  refine ⟨happend, fun r hr => hrows r (happend ▸ List.mem_append_left _ hr),
    fun r hr => hrows r (happend ▸ List.mem_append_right _ hr), ?_, hfirst, ?_⟩
  · rw [Ne, List.drop_eq_nil_iff]
    omega
  · rw [hsum, hfirst, happend, total_append, add_sub_cancel_left]

/-- Every frame is tiled by its rows. -/
theorem partition_spec (rows : List (WeightedSource κ)) (sum : ℚ) (frame : Box ℚ) (hsum : sum = total rows)
    (hrows : ∀ row ∈ rows, 0 < row.count) (hne : rows ≠ []) (hwidth : 0 < frame.width) (hheight : 0 < frame.height) :
    Partitioned rows frame (partition rows sum frame) := by
  fun_induction partition rows sum frame with
  | case1 => exact absurd rfl hne
  | case2 sum frame row =>
    have hcount : 0 < row.count := hrows row List.mem_cons_self
    have htotal : total [row] = row.count := by simp [total]
    refine ⟨.cons ⟨rfl, ?_⟩ .nil, Tiles.single frame⟩
    rw [htotal, div_self hcount.ne', one_mul]
  | case3 sum frame row next rest split fraction first second hshape ih ih' =>
    obtain ⟨happend, hfirst, hsecond, hsecondNe, hfirstSum, hsecondSum⟩ := cut_spec split hrows hsum rfl
    have hfraction : fraction = total first / total (first ++ second) := by
      rw [← happend, ← hsum, ← hfirstSum]
    obtain ⟨-, -, hpos, hlt⟩ := fraction_bounds (total_pos hfirst (List.cons_ne_nil _ _)) (total_pos hsecond hsecondNe)
      hfraction
    rw [happend]
    exact .across (total_pos hfirst (List.cons_ne_nil _ _)) (total_pos hsecond hsecondNe) hfraction hwidth.le
      (ih hfirstSum hfirst (List.cons_ne_nil _ _) (mul_pos hwidth hpos) hheight)
      (ih' hsecondSum hsecond hsecondNe (mul_pos hwidth (sub_pos.2 hlt)) hheight)
  | case4 sum frame row next rest split fraction first second hshape ih ih' =>
    obtain ⟨happend, hfirst, hsecond, hsecondNe, hfirstSum, hsecondSum⟩ := cut_spec split hrows hsum rfl
    have hfraction : fraction = total first / total (first ++ second) := by
      rw [← happend, ← hsum, ← hfirstSum]
    obtain ⟨-, -, hpos, hlt⟩ := fraction_bounds (total_pos hfirst (List.cons_ne_nil _ _)) (total_pos hsecond hsecondNe)
      hfraction
    rw [happend]
    exact .along (total_pos hfirst (List.cons_ne_nil _ _)) (total_pos hsecond hsecondNe) hfraction hheight.le
      (ih hfirstSum hfirst (List.cons_ne_nil _ _) hwidth (mul_pos hheight hpos))
      (ih' hsecondSum hsecond hsecondNe hwidth (mul_pos hheight (sub_pos.2 hlt)))

end

/-! ## The checks and the order of the rows -/

section
variable {κ : Type}

/-- The loop accepts counts that are safe and not negative, under distinct keys. -/
theorem check_ok_iff [DecidableEq κ] {keys : List κ} {values : List (WeightedSource κ)} : check keys values = .ok () ↔
    (∀ v ∈ values, isSafeInteger v.count = true ∧ 0 ≤ v.count) ∧ (values.map (·.key)).Nodup ∧
      ∀ v ∈ values, v.key ∉ keys := by
  induction values generalizing keys with
  | nil => simp [check]
  | cons value values ih =>
    rw [check]
    split_ifs with hbad
    · refine iff_of_false (by simp) ?_
      rintro ⟨hcounts, -, hkeys⟩
      have hvalue := hcounts value List.mem_cons_self
      rcases hbad with hunsafe | hneg | hseen
      · rw [hvalue.1] at hunsafe
        cases hunsafe
      · exact absurd hvalue.2 (not_le.2 hneg)
      · exact hkeys value List.mem_cons_self hseen
    · rw [not_or, not_or, Bool.not_eq_false, not_lt] at hbad
      rw [ih]
      constructor
      · rintro ⟨hcounts, hnodup, hkeys⟩
        refine ⟨List.forall_mem_cons.2 ⟨⟨hbad.1, hbad.2.1⟩, hcounts⟩, ?_, List.forall_mem_cons.2 ⟨hbad.2.2, ?_⟩⟩
        · rw [List.map_cons, List.nodup_cons, List.mem_map]
          refine ⟨?_, hnodup⟩
          rintro ⟨v, hv, hkey⟩
          exact hkeys v hv (hkey ▸ List.mem_cons_self)
        · exact fun v hv hmem => hkeys v hv (List.mem_cons_of_mem _ hmem)
      · rintro ⟨hcounts, hnodup, hkeys⟩
        rw [List.map_cons, List.nodup_cons, List.mem_map] at hnodup
        refine ⟨fun v hv => hcounts v (List.mem_cons_of_mem _ hv), hnodup.2, fun v hv hmem => ?_⟩
        rcases List.mem_cons.1 hmem with hkey | hmem
        · exact hnodup.1 ⟨v, hv, hkey⟩
        · exact hkeys v (List.mem_cons_of_mem _ hv) hmem

theorem check_error [DecidableEq κ] {keys : List κ} {values : List (WeightedSource κ)} (h : check keys values ≠ .ok ()) :
    check keys values = .error "Treemap sources require unique identities and nonnegative integer counts" := by
  induction values generalizing keys with
  | nil => exact absurd rfl h
  | cons value values ih =>
    rw [check] at h ⊢
    split_ifs at h ⊢ with hbad
    · rfl
    · exact ih h

/-- The order of the list does not matter to the checks. -/
theorem check_perm [DecidableEq κ] {values values' : List (WeightedSource κ)} (h : values.Perm values') :
    check [] values = check [] values' := by
  have hiff : check [] values = .ok () ↔ check [] values' = .ok () := by
    rw [check_ok_iff, check_ok_iff, (h.map _).nodup_iff]
    simp only [h.mem_iff, List.not_mem_nil, not_false_eq_true, implies_true, and_true]
  by_cases hok : check [] values = .ok ()
  · rw [hok, hiff.1 hok]
  · rw [check_error hok, check_error fun hok' => hok (hiff.2 hok')]

theorem before_total [LinearOrder κ] (a b : WeightedSource κ) : before a b ∨ before b a := by
  unfold before
  rcases lt_trichotomy a.count b.count with hlt | heq | hgt
  · exact .inr (.inl hlt)
  · rcases le_total a.key b.key with hkey | hkey
    · exact .inl (.inr ⟨heq, hkey⟩)
    · exact .inr (.inr ⟨heq.symm, hkey⟩)
  · exact .inl (.inl hgt)

theorem before_trans [LinearOrder κ] {a b c : WeightedSource κ} (hab : before a b) (hbc : before b c) : before a c := by
  unfold before at *
  rcases hab with hab | ⟨hab, hkey⟩
  · rcases hbc with hbc | ⟨hbc, -⟩
    · exact .inl (hbc.trans hab)
    · exact .inl (hbc ▸ hab)
  · rcases hbc with hbc | ⟨hbc, hkey'⟩
    · exact .inl (hab ▸ hbc)
    · exact .inr ⟨hab.trans hbc, hkey.trans hkey'⟩

theorem before_antisymm [LinearOrder κ] {a b : WeightedSource κ} (hab : before a b) (hba : before b a) : a = b := by
  unfold before at *
  have hcount : a.count = b.count := by
    rcases hab with hab | ⟨hab, -⟩
    · rcases hba with hba | ⟨hba, -⟩
      · exact absurd (hab.trans hba) (lt_irrefl _)
      · exact hba.symm
    · exact hab
  have hkey : a.key = b.key := by
    rcases hab with hab | ⟨-, hab⟩
    · exact absurd (hcount ▸ hab) (lt_irrefl _)
    · rcases hba with hba | ⟨-, hba⟩
      · exact absurd (hcount ▸ hba) (lt_irrefl _)
      · exact le_antisymm hab hba
  cases a
  cases b
  exact congrArg₂ WeightedSource.mk hkey hcount

instance [LinearOrder κ] : Std.Total (@before κ _) := ⟨before_total⟩

instance [LinearOrder κ] : IsTrans (WeightedSource κ) before := ⟨fun _ _ _ => before_trans⟩

instance [LinearOrder κ] : Std.Antisymm (@before κ _) := ⟨fun _ _ => before_antisymm⟩

/-- The rows are the same for every order of the list. -/
theorem rows_perm [LinearOrder κ] {values values' : List (WeightedSource κ)} (h : values.Perm values') :
    (values.filter fun value => 0 < value.count).insertionSort before =
      (values'.filter fun value => 0 < value.count).insertionSort before := by
  have hperm := ((List.perm_insertionSort before _).trans (h.filter fun value => 0 < value.count)).trans
    (List.perm_insertionSort before _).symm
  exact hperm.eq_of_pairwise' (List.pairwise_insertionSort before _) (List.pairwise_insertionSort before _)

end

/-! ## The whole treemap -/

section
variable {κ : Type} {values : List (WeightedSource κ)} {width height : ℚ}

theorem total_perm {rows rows' : List (WeightedSource κ)} (h : rows.Perm rows') : total rows = total rows' :=
  (h.map _).sum_eq

/-- Rows without a count add nothing. -/
theorem total_filter (h : ∀ v ∈ values, 0 ≤ v.count) : total (values.filter fun v => 0 < v.count) = total values := by
  induction values with
  | nil => rfl
  | cons value values ih =>
    have hvalue := h value List.mem_cons_self
    have hrest := ih fun v hv => h v (List.mem_cons_of_mem _ hv)
    rw [List.filter_cons, total_cons]
    split_ifs with hpos
    · rw [total_cons, hrest]
    · have hzero : value.count = 0 := le_antisymm (not_lt.1 fun hlt => hpos (by simpa using hlt)) hvalue
      rw [hrest, hzero, zero_add]

theorem total_nonneg (h : ∀ v ∈ values, 0 ≤ v.count) : 0 ≤ total values :=
  List.sum_nonneg fun _ hcount => by
    obtain ⟨v, hv, rfl⟩ := List.mem_map.1 hcount
    exact h v hv

theorem count_le_total (h : ∀ v ∈ values, 0 ≤ v.count) {v : WeightedSource κ} (hv : v ∈ values) :
    v.count ≤ total values := by
  obtain ⟨before, after, rfl⟩ := List.append_of_mem hv
  rw [total_append, total_cons]
  have hbefore := total_nonneg fun v hv => h v (List.mem_append_left _ hv)
  have hafter := total_nonneg fun v hv => h v (List.mem_append_right _ (List.mem_cons_of_mem _ hv))
  linarith

/-- The rows that are drawn, the largest first. -/
def rows [LinearOrder κ] (values : List (WeightedSource κ)) : List (WeightedSource κ) :=
  (values.filter fun value => 0 < value.count).insertionSort before

theorem rows_filter [LinearOrder κ] (values : List (WeightedSource κ)) : (rows values).Perm (values.filter fun v => 0 < v.count) :=
  List.perm_insertionSort before _

theorem rows_mem [LinearOrder κ] {v : WeightedSource κ} : v ∈ rows values ↔ v ∈ values ∧ 0 < v.count := by
  rw [(rows_filter values).mem_iff, List.mem_filter, decide_eq_true_eq]

theorem rows_total [LinearOrder κ] (h : ∀ v ∈ values, 0 ≤ v.count) : total (rows values) = total values := by
  rw [total_perm (rows_filter values), total_filter h]

/-- What the function does with positive dimensions. -/
theorem sourceTreemap_eq [LinearOrder κ] (hwidth : 0 < width) (hheight : 0 < height) (hcheck : check [] values = .ok ()) :
    sourceTreemap values width height =
      if isSafeInteger (total (rows values)) = false then
        .error "Treemap contribution count exceeds exact numeric range"
      else .ok (partition (rows values) (total (rows values)) { x := 0, y := 0, width, height }) := by
  unfold sourceTreemap
  rw [if_neg (by rw [not_or]; exact ⟨not_le.2 hwidth, not_le.2 hheight⟩), hcheck]
  rfl

/-- A rectangle comes from a row. -/
theorem Partitioned.from_row {rows : List (WeightedSource κ)} {frame : Box ℚ} {rects : List (SourceRectangle κ)}
    (h : Partitioned rows frame rects) {r : SourceRectangle κ} (hr : r ∈ rects) :
    ∃ v ∈ rows, r.key = v.key ∧ r.box.area = v.count / total rows * frame.area := by
  have hareas := h.areas
  generalize total rows = whole at hareas ⊢
  clear h
  induction hareas with
  | nil => cases hr
  | @cons row rect rows rects hrow _ ih =>
    rcases List.mem_cons.1 hr with rfl | hr
    · exact ⟨row, List.mem_cons_self, hrow⟩
    · obtain ⟨v, hv, hrow⟩ := ih hr
      exact ⟨v, List.mem_cons_of_mem _ hv, hrow⟩

theorem Partitioned.keys {rows : List (WeightedSource κ)} {frame : Box ℚ} {rects : List (SourceRectangle κ)}
    (h : Partitioned rows frame rects) : rects.map (·.key) = rows.map (·.key) := by
  have hareas := h.areas
  generalize total rows = whole at hareas
  clear h
  induction hareas with
  | nil => rfl
  | cons hrow _ ih => rw [List.map_cons, List.map_cons, hrow.1, ih]

/-- Counts that are numbers of articles pass the checks, when their sum does. -/
theorem check_natural [DecidableEq κ] (hdistinct : (values.map (·.key)).Nodup) (hcounts : ∀ v ∈ values, ∃ n : ℕ, v.count = n)
    (htotal : total values ≤ maxSafeInteger) : check [] values = .ok () := by
  have hnonneg : ∀ v ∈ values, 0 ≤ v.count := fun v hv => by
    obtain ⟨n, hn⟩ := hcounts v hv
    exact hn ▸ Nat.cast_nonneg n
  refine check_ok_iff.2 ⟨fun v hv => ⟨?_, hnonneg v hv⟩, hdistinct, fun _ _ => List.not_mem_nil⟩
  obtain ⟨n, hn⟩ := hcounts v hv
  rw [hn]
  exact isSafeInteger_natCast.2 (Nat.cast_le.1 (hn ▸ (count_le_total hnonneg hv).trans htotal))

theorem total_natural (hcounts : ∀ v ∈ values, ∃ n : ℕ, v.count = n) : ∃ n : ℕ, total values = n := by
  induction values with
  | nil => exact ⟨0, by simp [total]⟩
  | cons value values ih =>
    obtain ⟨m, hm⟩ := hcounts value List.mem_cons_self
    obtain ⟨n, hn⟩ := ih fun v hv => hcounts v (List.mem_cons_of_mem _ hv)
    exact ⟨m + n, by rw [total_cons, hm, hn, Nat.cast_add]⟩

theorem not_isSafeInteger {q : ℚ} (h : maxSafeInteger < q) : isSafeInteger q = false := by
  have habs : ¬ |q| ≤ maxSafeInteger := not_le.2 (h.trans_le (le_abs_self q))
  simp [isSafeInteger, habs]

end

/-- The treemap of sources with distinct keys and natural counts is a tiling of its frame with exact areas, in the same
order for every order of the sources; a total over the safe integers is refused. -/
theorem exact_tiling {κ : Type} [LinearOrder κ] (values : List (WeightedSource κ)) (width height : ℚ)
    (hdistinct : (values.map (·.key)).Nodup) (hcounts : ∀ v ∈ values, ∃ n : ℕ, v.count = n)
    (hsome : ∃ v ∈ values, 0 < v.count) (hwidth : 0 < width) (hheight : 0 < height) :
    (total values ≤ maxSafeInteger → ∃ rects, sourceTreemap values width height = .ok rects ∧
      (rects.map (·.key)).Perm ((values.filter fun v => 0 < v.count).map (·.key)) ∧
      (∀ v ∈ values, ∀ r ∈ rects, r.key = v.key → r.box.area = v.count / total values * width * height) ∧
      Tiles (rects.map (·.box)) { x := 0, y := 0, width, height } ∧
      ∀ values' : List (WeightedSource κ), values.Perm values' → sourceTreemap values' width height = .ok rects) ∧
    (maxSafeInteger < total values → ∃ e, sourceTreemap values width height = .error e) := by
  have hnonneg : ∀ v ∈ values, 0 ≤ v.count := fun v hv => by
    obtain ⟨n, hn⟩ := hcounts v hv
    exact hn ▸ Nat.cast_nonneg n
  constructor
  · intro htotal
    have hcheck := check_natural hdistinct hcounts htotal
    obtain ⟨n, hn⟩ := total_natural hcounts
    have hsafe : isSafeInteger (total (rows values)) = true := by
      rw [rows_total hnonneg, hn]
      exact isSafeInteger_natCast.2 (Nat.cast_le.1 (hn ▸ htotal))
    have hne : rows values ≠ [] := by
      obtain ⟨v, hv, hpos⟩ := hsome
      exact List.ne_nil_of_mem (rows_mem.2 ⟨hv, hpos⟩)
    have hspec := partition_spec (rows values) (total (rows values)) { x := 0, y := 0, width, height } rfl
      (fun v hv => (rows_mem.1 hv).2) hne hwidth hheight
    have hresult : sourceTreemap values width height =
        .ok (partition (rows values) (total (rows values)) { x := 0, y := 0, width, height }) := by
      rw [sourceTreemap_eq hwidth hheight hcheck, hsafe]
      rfl
    refine ⟨_, hresult, ?_, fun v hv r hr hkey => ?_, hspec.tiles, fun values' hperm => ?_⟩
    · rw [hspec.keys]
      exact (rows_filter values).map _
    · obtain ⟨w, hw, hwkey, harea⟩ := hspec.from_row hr
      have hsame : w = v := List.inj_on_of_nodup_map hdistinct (rows_mem.1 hw).1 hv (hwkey ▸ hkey)
      rw [harea, hsame, rows_total hnonneg, mul_assoc]
      rfl
    · have hrows : rows values' = rows values := (rows_perm hperm).symm
      rw [← hresult, sourceTreemap_eq hwidth hheight hcheck, sourceTreemap_eq hwidth hheight (check_perm hperm ▸ hcheck),
        hrows]
  · intro htotal
    by_cases hcheck : check [] values = .ok ()
    · rw [sourceTreemap_eq hwidth hheight hcheck, rows_total hnonneg, not_isSafeInteger htotal]
      exact ⟨_, rfl⟩
    · unfold sourceTreemap
      rw [if_neg (by rw [not_or]; exact ⟨not_le.2 hwidth, not_le.2 hheight⟩), check_error hcheck]
      exact ⟨_, rfl⟩

/-- Two sources, one with twice the articles of the other. -/
theorem exact_tiling_pair : ∃ rects, sourceTreemap [(⟨0, 1⟩ : WeightedSource ℕ), ⟨1, 2⟩] 3 2 = Except.ok rects ∧
    Tiles (rects.map (·.box)) (⟨0, 0, 3, 2⟩ : Box ℚ) := by
  obtain ⟨rects, hrects, -, -, htiles, -⟩ := (exact_tiling [⟨0, 1⟩, ⟨1, 2⟩] 3 2 (by decide)
    (List.forall_mem_cons.2 ⟨⟨1, by norm_num⟩, List.forall_mem_cons.2 ⟨⟨2, by norm_num⟩, List.forall_mem_nil _⟩⟩)
    ⟨⟨0, 1⟩, List.mem_cons_self, one_pos⟩ (by norm_num) (by norm_num)).1 (by norm_num [total, maxSafeInteger])
  exact ⟨rects, hrects, htiles⟩

/-- One source with 2^53 articles has no treemap. -/
theorem large_count_refused : sourceTreemap [(⟨0, 9007199254740992⟩ : WeightedSource ℕ)] 3 2 =
    Except.error "Treemap sources require unique identities and nonnegative integer counts" := by
  have hlarge : isSafeInteger 9007199254740992 = false := not_isSafeInteger (by norm_num [maxSafeInteger])
  unfold sourceTreemap
  rw [if_neg (by norm_num), check, if_pos (.inl hlarge)]

end SourceTreemap

end Inoreader
