import Mathlib.Data.List.Basic

/-!
# Paging with offsets

A list is read in pages of `n` rows by the number of rows that come before a page. One row more than a page is looked
at, to see whether there is another page. The rows are finished by `f`, which may fail, and offsets have a bound.
-/

namespace Lib.Offsets
variable {α β : Type} (n bound : Nat) (f : α → Option β) (l : List α)

/-- `LIMIT n + 1 OFFSET offset`: the page and whether more rows follow. -/
def fetch (offset : Nat) : Option (List β × Bool) :=
  if offset < bound then (((l.drop offset).take (n + 1)).mapM f).map fun rows => (rows.take n, decide (n < rows.length))
  else none

/-- Reading page after page from an offset until no more rows follow. -/
inductive Follows (page : Nat → Option (List β × Bool)) : Nat → List (List β) → Prop
  | last {offset : Nat} {rows : List β} (h : page offset = some (rows, false)) : Follows page offset [rows]
  | more {offset : Nat} {rows : List β} {pages : List (List β)} (h : page offset = some (rows, true))
    (hrest : Follows page (offset + n) pages) : Follows page offset (rows :: pages)

/-- The offset of the last page of a list. -/
def lastOffset (len : Nat) : Nat := (len - 1) / n * n

variable {n bound f l}

theorem mapM_take {k : Nat} {bs : List β} (h : l.mapM f = some bs) : (l.take k).mapM f = some (bs.take k) := by
  induction l generalizing k bs with
  | nil =>
    cases h
    simp
  | cons a l ih =>
    rw [List.mapM_cons] at h
    obtain ⟨b, hb, h⟩ := Option.bind_eq_some_iff.1 h
    obtain ⟨bs', hbs, h⟩ := Option.bind_eq_some_iff.1 h
    cases h
    cases k with
    | zero => rfl
    | succ k =>
      rw [List.take_succ_cons, List.mapM_cons, hb, ih hbs]
      rfl

theorem length_mapM {bs : List β} (h : l.mapM f = some bs) : bs.length = l.length := by
  induction l generalizing bs with
  | nil =>
    cases h
    rfl
  | cons a l ih =>
    rw [List.mapM_cons] at h
    obtain ⟨b, -, h⟩ := Option.bind_eq_some_iff.1 h
    obtain ⟨bs', hbs, h⟩ := Option.bind_eq_some_iff.1 h
    cases h
    rw [List.length_cons, List.length_cons, ih hbs]

theorem mapM_append {l₁ l₂ : List α} {bs₁ bs₂ : List β} (h₁ : l₁.mapM f = some bs₁) (h₂ : l₂.mapM f = some bs₂) :
    (l₁ ++ l₂).mapM f = some (bs₁ ++ bs₂) := by
  rw [List.mapM_append, h₁, h₂]
  rfl

/-- What a page says about the list. -/
theorem fetch_eq_some {offset : Nat} {rows : List β} {more : Bool} (h : fetch n bound f l offset = some (rows, more)) :
    offset < bound ∧ ∃ bs, ((l.drop offset).take (n + 1)).mapM f = some bs ∧ rows = bs.take n ∧
      (more = true ↔ n < l.length - offset) := by
  unfold fetch at h
  split_ifs at h with hoffset
  obtain ⟨bs, hbs, h⟩ := Option.map_eq_some_iff.1 h
  cases h
  have hlen := length_mapM hbs
  rw [List.length_take, List.length_drop] at hlen
  refine ⟨hoffset, bs, hbs, rfl, ?_⟩
  rw [decide_eq_true_eq]
  omega

theorem lastOffset_of_le {len : Nat} (h : len ≤ n) : lastOffset n len = 0 := by
  unfold lastOffset
  rcases Nat.eq_zero_or_pos n with rfl | hn
  · rw [Nat.mul_zero]
  · rw [Nat.div_eq_of_lt (by omega), Nat.zero_mul]

theorem lastOffset_of_lt {len : Nat} (hn : 0 < n) (h : n < len) : lastOffset n len = n + lastOffset n (len - n) := by
  have hlen : len - 1 = (len - n - 1) + n := by omega
  unfold lastOffset
  rw [hlen, Nat.add_div_right _ hn, Nat.succ_mul, Nat.add_comm]

/-- What is read page after page is the rest of the list. -/
theorem Follows.sound (hn : 0 < n) {offset : Nat} {pages : List (List β)}
    (h : Follows n (fetch n bound f l) offset pages) :
    (l.drop offset).mapM f = some pages.flatten ∧ offset + lastOffset n (l.length - offset) < bound := by
  induction h with
  | @last offset rows h =>
    obtain ⟨hoffset, bs, hbs, rfl, hmore⟩ := fetch_eq_some h
    have hle : l.length - offset ≤ n := by
      by_contra hlt
      exact Bool.false_ne_true (hmore.2 (Nat.not_le.1 hlt))
    have hdrop : (l.drop offset).take (n + 1) = l.drop offset :=
      List.take_of_length_le (by rw [List.length_drop]; omega)
    rw [hdrop] at hbs
    have hlen := length_mapM hbs
    rw [List.length_drop] at hlen
    rw [lastOffset_of_le hle, List.flatten_singleton, List.take_of_length_le (by omega)]
    exact ⟨hbs, hoffset⟩
  | @more offset rows pages h _ ih =>
    obtain ⟨-, bs, hbs, rfl, hmore⟩ := fetch_eq_some h
    obtain ⟨hrest, hbound⟩ := ih
    have hlt : n < l.length - offset := hmore.1 rfl
    have htake := mapM_take (k := n) hbs
    rw [List.take_take, Nat.min_eq_left (Nat.le_succ n)] at htake
    refine ⟨?_, ?_⟩
    · rw [← List.take_append_drop n (l.drop offset), List.drop_drop, List.flatten_cons]
      exact mapM_append htake hrest
    · rw [Nat.sub_add_eq] at hbound
      rw [lastOffset_of_lt hn hlt]
      omega

/-- The rest of a list whose rows can be finished is read, if the last page has an offset. -/
theorem exists_follows (hn : 0 < n) {offset : Nat} {bs : List β} (hbs : (l.drop offset).mapM f = some bs)
    (hbound : offset + lastOffset n (l.length - offset) < bound) :
    ∃ pages, Follows n (fetch n bound f l) offset pages ∧ pages.flatten = bs := by
  induction hk : l.length - offset using Nat.strongRecOn generalizing offset bs with
  | ind k ih =>
    have hoffset : offset < bound := by omega
    have htake := mapM_take (k := n + 1) hbs
    have hlen := length_mapM hbs
    rw [List.length_drop] at hlen
    have hpage : fetch n bound f l offset = some ((bs.take (n + 1)).take n, decide (n < (bs.take (n + 1)).length)) := by
      unfold fetch
      rw [if_pos hoffset, htake]
      rfl
    rw [List.take_take, Nat.min_eq_left (Nat.le_succ n), List.length_take] at hpage
    by_cases hmore : n < l.length - offset
    · rw [decide_eq_true (by omega)] at hpage
      have hdrop : (l.drop (offset + n)).mapM f = some (bs.drop n) := by
        have hall := hbs
        rw [← List.take_append_drop n (l.drop offset), List.drop_drop, List.mapM_append] at hall
        obtain ⟨bs₁, hbs₁, hall⟩ := Option.bind_eq_some_iff.1 hall
        obtain ⟨bs₂, hbs₂, hall⟩ := Option.bind_eq_some_iff.1 hall
        cases hall
        have hlen₁ := length_mapM hbs₁
        rw [List.length_take, List.length_drop] at hlen₁
        rw [hbs₂, List.drop_left' (by omega)]
      rw [lastOffset_of_lt hn hmore] at hbound
      obtain ⟨pages, hpages, hflat⟩ := ih (l.length - (offset + n)) (by omega) hdrop
        (by rw [Nat.sub_add_eq]; omega) rfl
      refine ⟨bs.take n :: pages, .more hpage hpages, ?_⟩
      rw [List.flatten_cons, hflat, List.take_append_drop]
    · rw [decide_eq_false (by omega)] at hpage
      refine ⟨[bs.take n], .last hpage, ?_⟩
      rw [List.flatten_singleton, List.take_of_length_le (by omega)]

end Lib.Offsets
