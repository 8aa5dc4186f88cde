import Mathlib.Data.List.AList
import Mathlib.Data.List.Sort

/-!
# Keyed tables

A table with a primary key is an association list without duplicate keys. `lookup` is
`SELECT … WHERE key = $1`, `insert` is `INSERT … ON CONFLICT (key) DO UPDATE`, `erase` is
`DELETE … WHERE key = $1`, `update` is `UPDATE … WHERE key = $1` and `count` is
`SELECT count(*) … WHERE p`.
-/

namespace Lib

/-- Rows of type `ν` under a primary key of type `κ`. -/
abbrev Table (κ ν : Type) : Type := AList fun _ : κ => ν

namespace Table
variable {κ ν : Type} [DecidableEq κ]

def lookup (t : Table κ ν) (k : κ) : Option ν := AList.lookup k t

def insert (t : Table κ ν) (k : κ) (v : ν) : Table κ ν := AList.insert k v t

def erase (t : Table κ ν) (k : κ) : Table κ ν := AList.erase k t

def rows (t : Table κ ν) : List (κ × ν) := t.entries.map fun e => (e.1, e.2)

def update (k : κ) (f : ν → ν) (t : Table κ ν) : Table κ ν :=
  match t.lookup k with
  | some v => t.insert k (f v)
  | none => t

def count (p : κ → ν → Bool) (t : Table κ ν) : Nat := t.entries.countP fun e => p e.1 e.2

/-- Every row satisfies `P`. -/
def All (P : κ → ν → Prop) (t : Table κ ν) : Prop := ∀ k v, t.lookup k = some v → P k v

theorem lookup_insert_if (k k' : κ) (v : ν) (t : Table κ ν) :
    (t.insert k' v).lookup k = if k = k' then some v else t.lookup k := by
  split
  · rename_i h; subst h; exact AList.lookup_insert t
  · exact AList.lookup_insert_ne (β := fun _ => ν) ‹_›

theorem lookup_erase_if (k k' : κ) (t : Table κ ν) :
    (t.erase k').lookup k = if k = k' then none else t.lookup k := by
  split
  · rename_i h; subst h; exact AList.lookup_erase k t
  · exact AList.lookup_erase_ne (β := fun _ => ν) ‹_›

theorem insert_insert (t : Table κ ν) (k : κ) (v v' : ν) : (t.insert k v).insert k v' = t.insert k v' :=
  AList.insert_insert t

theorem lookup_update (k k' : κ) (f : ν → ν) (t : Table κ ν) :
    (t.update k' f).lookup k = if k = k' then (t.lookup k).map f else t.lookup k := by
  unfold update
  split
  · rename_i v hv
    rw [lookup_insert_if]
    split
    · rename_i h; subst h; simp [hv]
    · rfl
  · rename_i hv
    split
    · rename_i h; subst h; simp [hv]
    · rfl

/-- After a batch of inserts a key has its last value of the batch, or the row it had before. -/
theorem lookup_foldl_insert {β : Type} (key : β → κ) (val : β → ν) (xs : List β) (t : Table κ ν) (k : κ) :
    (xs.foldl (fun t x => t.insert (key x) (val x)) t).lookup k =
      ((xs.reverse.find? fun x => key x = k).map val).or (t.lookup k) := by
  induction xs generalizing t with
  | nil => rfl
  | cons x xs ih =>
    rw [List.foldl_cons, ih, lookup_insert_if, List.reverse_cons, List.find?_append]
    by_cases hk : key x = k
    · cases xs.reverse.find? fun x => key x = k <;> simp [hk]
    · rw [if_neg fun e => hk e.symm]
      simp [hk]

/-- After a batch of inserts under different keys each key of the batch has its value. -/
theorem lookup_foldl_insert_of_mem {β : Type} (key : β → κ) {val : β → ν} {xs : List β} {x : β} (t : Table κ ν)
    (hnd : (xs.map key).Nodup) (hx : x ∈ xs) :
    (xs.foldl (fun t x => t.insert (key x) (val x)) t).lookup (key x) = some (val x) := by
  rw [lookup_foldl_insert]
  cases hfind : xs.reverse.find? fun y => key y = key x with
  | none => exact absurd (List.find?_eq_none.1 hfind x (List.mem_reverse.2 hx)) (by simp)
  | some y =>
    have hy : y ∈ xs := List.mem_reverse.1 (List.mem_of_find?_eq_some hfind)
    have hkey : key y = key x := by simpa using List.find?_some hfind
    rw [List.inj_on_of_nodup_map hnd hy hx hkey]
    rfl

/-- A batch of inserts leaves the other keys alone. -/
theorem lookup_foldl_insert_of_ne {β : Type} {key : β → κ} {val : β → ν} {xs : List β} {k : κ} (t : Table κ ν)
    (h : ∀ x ∈ xs, key x ≠ k) : (xs.foldl (fun t x => t.insert (key x) (val x)) t).lookup k = t.lookup k := by
  have hfind : (xs.reverse.find? fun x => key x = k) = none :=
    List.find?_eq_none.2 fun x hx => by simpa using h x (List.mem_reverse.1 hx)
  rw [lookup_foldl_insert, hfind]
  rfl

/-- After a batch of deletes the keys of the batch have no row, and the others have theirs. -/
theorem lookup_foldl_erase {β : Type} (key : β → κ) (xs : List β) (t : Table κ ν) (k : κ) :
    (xs.foldl (fun t x => t.erase (key x)) t).lookup k = if k ∈ xs.map key then none else t.lookup k := by
  induction xs generalizing t with
  | nil => rfl
  | cons x xs ih =>
    rw [List.foldl_cons, ih, lookup_erase_if]
    by_cases hk : k = key x <;> simp [hk]

/-- `SELECT … ORDER BY key` returns the rows in the one order in which the keys increase. -/
theorem insertionSort_eq {β : Type} (key : β → Nat) {xs ys : List β} (hnd : xs.Nodup)
    (hmem : ∀ x, x ∈ xs ↔ x ∈ ys) (hys : ys.Pairwise fun x y => key x < key y) :
    xs.insertionSort (fun x y => key x ≤ key y) = ys := by
  have hnd' : ys.Nodup := hys.imp fun hlt e => by rw [e] at hlt; exact lt_irrefl _ hlt
  have hperm : List.Perm (xs.insertionSort fun x y => key x ≤ key y) ys :=
    (List.perm_insertionSort _ xs).trans ((List.perm_ext_iff_of_nodup hnd hnd').2 hmem)
  have hsorted : (xs.insertionSort fun x y => key x ≤ key y).Pairwise fun x y => key x ≤ key y :=
    List.pairwise_insertionSort (fun x y : β => key x ≤ key y) xs
  refine hperm.eq_of_pairwise (fun x y hx hy hxy hyx => ?_) hsorted (hys.imp fun hlt => le_of_lt hlt)
  have hinj : (ys.map key).Nodup := List.pairwise_map.2 (hys.imp fun hlt => ne_of_lt hlt)
  exact List.inj_on_of_nodup_map hinj (hperm.subset hx) hy (le_antisymm hxy hyx)

@[simp] theorem lookup_empty (k : κ) : (∅ : Table κ ν).lookup k = none := AList.lookup_empty k

theorem mem_rows {t : Table κ ν} {k : κ} {v : ν} : (k, v) ∈ t.rows ↔ t.lookup k = some v := by
  unfold lookup
  rw [← Option.mem_def, AList.mem_lookup_iff, rows, List.mem_map]
  constructor
  · rintro ⟨⟨a, b⟩, hab, h⟩
    cases h
    exact hab
  · exact fun h => ⟨⟨k, v⟩, h, rfl⟩

omit [DecidableEq κ] in
/-- A table is its rows. -/
theorem eq_of_rows {t t' : Table κ ν} (h : t.rows = t'.rows) : t = t' := by
  refine AList.ext (List.map_injective_iff.2 (fun e e' he => ?_) h)
  obtain ⟨k, v⟩ := e
  obtain ⟨k', v'⟩ := e'
  cases he
  rfl

theorem all_iff_rows {P : κ → ν → Prop} {t : Table κ ν} : t.All P ↔ ∀ row ∈ t.rows, P row.1 row.2 :=
  ⟨fun h row hrow => h row.1 row.2 (mem_rows.1 hrow), fun h k v hk => h (k, v) (mem_rows.2 hk)⟩

/-- The two tables have the same rows under the keys in `p`. -/
def AgreeOn (p : κ → Bool) (t t' : Table κ ν) : Prop :=
  (∀ row ∈ t.rows, p row.1 = true → t'.lookup row.1 = some row.2) ∧
    ∀ row ∈ t'.rows, p row.1 = true → t.lookup row.1 = some row.2

instance [DecidableEq ν] (p : κ → Bool) (t t' : Table κ ν) : Decidable (AgreeOn p t t') :=
  inferInstanceAs (Decidable (_ ∧ _))

theorem AgreeOn.lookup {p : κ → Bool} {t t' : Table κ ν} (h : AgreeOn p t t') {k : κ} (hk : p k = true) :
    t'.lookup k = t.lookup k := by
  cases ht : t.lookup k with
  | some v => exact h.1 (k, v) (mem_rows.2 ht) hk
  | none =>
    cases ht' : t'.lookup k with
    | none => rfl
    | some v =>
      have := h.2 (k, v) (mem_rows.2 ht') hk
      rw [ht] at this
      cases this

omit [DecidableEq κ] in
theorem nodup_rows (t : Table κ ν) : (t.rows.map (·.1)).Nodup := by
  have h : t.entries.keys.Nodup := t.nodupKeys
  rwa [rows, List.map_map, show ((·.1) ∘ fun e : Sigma fun _ : κ => ν => (e.1, e.2)) = Sigma.fst from rfl]

/-- `SELECT … WHERE p ORDER BY r` returns rows of the table that satisfy `p`. -/
theorem mem_sorted {p : κ × ν → Bool} {r : κ × ν → κ × ν → Bool} {t : Table κ ν} {e : κ × ν} :
    e ∈ (t.rows.filter p).insertionSort (fun a b => r a b) ↔ t.lookup e.1 = some e.2 ∧ p e = true := by
  rw [List.mem_insertionSort, List.mem_filter]
  exact and_congr_left fun _ => mem_rows

omit [DecidableEq κ] in
theorem nodup_sorted {p : κ × ν → Bool} {r : κ × ν → κ × ν → Bool} (t : Table κ ν) :
    (((t.rows.filter p).insertionSort fun a b => r a b).map (·.1)).Nodup := by
  rw [((List.perm_insertionSort _ _).map _).nodup_iff]
  exact t.nodup_rows.sublist (List.filter_sublist.map _)

/-- The rows that satisfy `p`. -/
def restrict (p : κ → ν → Bool) (t : Table κ ν) : Table κ ν where
  entries := t.entries.filter fun e => p e.1 e.2
  nodupKeys := List.Nodup.sublist (List.filter_sublist.map Sigma.fst) t.nodupKeys

omit [DecidableEq κ] in
theorem rows_restrict (p : κ → ν → Bool) (t : Table κ ν) : (t.restrict p).rows = t.rows.filter fun e => p e.1 e.2 := by
  show (t.entries.filter _).map _ = (t.entries.map _).filter _
  rw [List.filter_map]
  rfl

theorem lookup_restrict (p : κ → ν → Bool) (t : Table κ ν) (k : κ) :
    (t.restrict p).lookup k = (t.lookup k).filter (p k) := by
  apply Option.ext
  intro v
  rw [← mem_rows, rows_restrict, List.mem_filter, mem_rows, Option.filter_eq_some_iff]

theorem count_erase {p : κ → ν → Bool} {t : Table κ ν} {k : κ} {v : ν} (h : t.lookup k = some v) :
    Table.count p (t.erase k) + (if p k v then 1 else 0) = t.count p := by
  have hmem : Sigma.mk k v ∈ t.entries := AList.mem_lookup_iff.1 h
  have hperm := t.nodupKeys
  revert hmem hperm
  show _ → _ → (t.entries.kerase k).countP _ + _ = t.entries.countP _
  generalize t.entries = l
  intro hmem hnd
  induction l with
  | nil => cases hmem
  | cons e l ih =>
    rw [List.nodupKeys_cons] at hnd
    by_cases hk : k = e.1
    · obtain ⟨a, b⟩ := e
      simp only at hk
      subst hk
      rcases List.mem_cons.1 hmem with he | he
      · cases he
        have hl : List.kerase k (⟨k, v⟩ :: l) = l :=
          List.kerase_cons_eq (s := (⟨k, v⟩ : Sigma fun _ : κ => ν)) rfl
        rw [hl, List.countP_cons]
      · exact absurd (List.mem_keys_of_mem he) hnd.1
    · rw [List.kerase_cons_ne hk, List.countP_cons, List.countP_cons]
      have hml : Sigma.mk k v ∈ l := by
        rcases List.mem_cons.1 hmem with he | he
        · exact absurd (congrArg Sigma.fst he) hk
        · exact he
      have := ih hml hnd.2
      omega

theorem count_insert_new {p : κ → ν → Bool} {t : Table κ ν} {k : κ} {v : ν} (h : t.lookup k = none) :
    Table.count p (t.insert k v) = t.count p + (if p k v then 1 else 0) := by
  have hk : k ∉ t := by rw [← AList.lookup_eq_none]; exact h
  unfold count insert
  rw [AList.entries_insert_of_notMem hk, List.countP_cons]

/-- Replacing the row of `k` moves the count by the difference of the two rows. -/
theorem count_insert_old {p : κ → ν → Bool} {t : Table κ ν} {k : κ} {v w : ν} (h : t.lookup k = some v) :
    Table.count p (t.insert k w) + (if p k v then 1 else 0) = t.count p + (if p k w then 1 else 0) := by
  have h₁ : Table.count p (t.insert k w) = Table.count p (t.erase k) + (if p k w then 1 else 0) := by
    unfold count insert
    rw [AList.entries_insert]
    show List.countP _ (⟨k, w⟩ :: List.kerase k t.entries) = _
    rw [List.countP_cons]
    rfl
  have h₂ := count_erase (p := p) h
  omega

theorem count_mono {p q : κ → ν → Bool} {t : Table κ ν}
    (h : ∀ k v, t.lookup k = some v → p k v = true → q k v = true) : t.count p ≤ t.count q := by
  unfold count
  exact List.countP_mono_left fun e he hp => h e.1 e.2 (AList.mem_lookup_iff.2 he) hp

omit [DecidableEq κ] in
theorem count_eq_keys (p : κ → ν → Bool) (t : Table κ ν) :
    t.count p = ((t.entries.filter fun e => p e.1 e.2).map Sigma.fst).length := by
  rw [List.length_map, count, List.countP_eq_length_filter]

/-- If every row of `t` that satisfies `p` has a row of `t'` under its key that satisfies `q`, then
there are at least as many of the latter. -/
theorem count_le_of_keys {p q : κ → ν → Bool} {t t' : Table κ ν}
    (h : ∀ k v, t.lookup k = some v → p k v = true → ∃ v', t'.lookup k = some v' ∧ q k v' = true) :
    t.count p ≤ t'.count q := by
  rw [count_eq_keys, count_eq_keys]
  refine (List.subperm_of_subset ?_ ?_).length_le
  · exact List.Nodup.sublist (List.filter_sublist.map Sigma.fst) t.nodupKeys
  · intro k hk
    obtain ⟨e, he, rfl⟩ := List.mem_map.1 hk
    obtain ⟨hmem, hp⟩ := List.mem_filter.1 he
    obtain ⟨v', hv', hq⟩ := h e.1 e.2 (AList.mem_lookup_iff.2 hmem) hp
    exact List.mem_map.2 ⟨⟨e.1, v'⟩, List.mem_filter.2 ⟨AList.mem_lookup_iff.1 hv', hq⟩, rfl⟩

/-- `count_le_of_keys` with one key left out. -/
theorem count_le_of_keys_ne {p q : κ → ν → Bool} {t t' : Table κ ν} (k₀ : κ)
    (h : ∀ k v, k ≠ k₀ → t.lookup k = some v → p k v = true → ∃ v', t'.lookup k = some v' ∧ q k v' = true) :
    t.count p ≤ t'.count q + 1 := by
  have hle : Table.count p (t.erase k₀) ≤ t'.count q := by
    refine count_le_of_keys fun k v hk hp => ?_
    rw [lookup_erase_if] at hk
    split at hk
    · cases hk
    · exact h k v ‹_› hk hp
  cases hk : t.lookup k₀ with
  | none =>
    refine Nat.le_succ_of_le (count_le_of_keys fun k v hv hp => ?_)
    exact h k v (fun e => by rw [e, hk] at hv; cases hv) hv hp
  | some v₀ =>
    have he := count_erase (p := p) hk
    split at he <;> omega

/-- Two different rows that satisfy `p` are counted twice. -/
theorem two_le_count {p : κ → ν → Bool} {t : Table κ ν} {k k' : κ} {v v' : ν} (hne : k ≠ k')
    (h : t.lookup k = some v) (h' : t.lookup k' = some v') (hp : p k v = true) (hp' : p k' v' = true) :
    2 ≤ t.count p := by
  have e : Table.count p (t.erase k) + 1 = t.count p := by simpa [hp] using count_erase (p := p) h
  have h₂ : (t.erase k).lookup k' = some v' := by rw [lookup_erase_if, if_neg hne.symm]; exact h'
  have e₂ : Table.count p ((t.erase k).erase k') + 1 = Table.count p (t.erase k) := by
    simpa [hp'] using count_erase (p := p) h₂
  omega

theorem All.insert {P : κ → ν → Prop} {t : Table κ ν} {k : κ} {v : ν} (h : t.All P) (hv : P k v) :
    Table.All P (t.insert k v) := by
  intro k' v' hl
  rw [lookup_insert_if] at hl
  split at hl
  · rename_i hk; subst hk; cases hl; exact hv
  · exact h k' v' hl

theorem All.erase {P : κ → ν → Prop} {t : Table κ ν} {k : κ} (h : t.All P) : Table.All P (t.erase k) := by
  intro k' v' hl
  rw [lookup_erase_if] at hl
  split at hl
  · cases hl
  · exact h k' v' hl

end Table
end Lib
