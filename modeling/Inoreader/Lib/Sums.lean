import Mathlib.Algebra.BigOperators.Group.List.Basic
import Mathlib.Algebra.Order.Group.Defs
import Inoreader.Lib.Table

/-!
# Sums over tables

`sum f` is `SELECT sum(f) FROM t`. One row moves a sum by its own contribution only: a new row adds
it, a replaced row exchanges it.
-/

namespace Lib.Table

variable {κ ν M : Type} [DecidableEq κ] [AddCommMonoid M]

def sum (f : κ → ν → M) (t : Table κ ν) : M := (t.entries.map fun e => f e.1 e.2).sum

omit [DecidableEq κ] in
@[simp] theorem sum_empty (f : κ → ν → M) : Table.sum f (∅ : Table κ ν) = 0 := rfl

/-- A row contributes `f` to the sum. -/
theorem sum_erase {f : κ → ν → M} {t : Table κ ν} {k : κ} {v : ν} (h : t.lookup k = some v) :
    f k v + Table.sum f (t.erase k) = t.sum f := by
  have hmem : Sigma.mk k v ∈ t.entries := AList.mem_lookup_iff.1 h
  obtain ⟨w, l₁, l₂, -, hl, herase⟩ := List.exists_of_kerase (List.mem_keys_of_mem hmem)
  have hw : w = v := by
    have hmem' : Sigma.mk k w ∈ t.entries := by rw [hl]; simp
    have hlookup : t.lookup k = some w := AList.mem_lookup_iff.2 hmem'
    rw [h] at hlookup
    exact (Option.some.inj hlookup).symm
  have hsum : Table.sum f (t.erase k) = ((l₁ ++ l₂).map fun e => f e.1 e.2).sum := by
    show (List.map _ (List.kerase k t.entries)).sum = _
    rw [herase]
  rw [hsum, sum, hl, hw, List.map_append, List.sum_append, List.map_append, List.sum_append, List.map_cons,
    List.sum_cons]
  exact add_left_comm _ _ _

theorem sum_insert_new {f : κ → ν → M} {t : Table κ ν} {k : κ} {v : ν} (h : t.lookup k = none) :
    Table.sum f (t.insert k v) = f k v + t.sum f := by
  have hk : k ∉ t := by rw [← AList.lookup_eq_none]; exact h
  unfold sum insert
  rw [AList.entries_insert_of_notMem hk, List.map_cons, List.sum_cons]

theorem sum_insert_old {f : κ → ν → M} {t : Table κ ν} {k : κ} {v w : ν} (h : t.lookup k = some v) :
    f k v + Table.sum f (t.insert k w) = f k w + t.sum f := by
  have hinsert : Table.sum f (t.insert k w) = f k w + Table.sum f (t.erase k) := by
    unfold sum insert
    rw [AList.entries_insert]
    show (List.map _ (⟨k, w⟩ :: List.kerase k t.entries)).sum = _
    rw [List.map_cons, List.sum_cons]
    rfl
  rw [hinsert, ← sum_erase h]
  exact add_left_comm _ _ _

end Lib.Table
