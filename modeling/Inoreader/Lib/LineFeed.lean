import Mathlib.Data.List.TakeWhile
import Inoreader.Lib.Proc

/-!
# Lines out of chunks

A stream arrives in chunks. They are gathered in a buffer, every line that ends in it is taken out and processed, and what
follows the last line waits for the next chunk. The lines do not depend on the chunks, so what is done with them does not
either, also where a line fails.
-/

namespace Lib

namespace LineFeed
variable {σ ε β : Type} [DecidableEq β] (newline : β) (process : List β → Proc σ ε Unit)

/-- The lines of the buffer, each with its end, and what is left of the buffer. -/
def drain (pending : List β) : Proc σ ε (List β) :=
  match _h : pending.dropWhile (· ≠ newline) with
  | [] => pure pending
  | _ :: rest => do
    process (pending.takeWhile (· ≠ newline) ++ [newline])
    drain rest
termination_by pending.length
decreasing_by
  have hlength := (List.dropWhile_sublist (l := pending) fun b => decide (b ≠ newline)).length_le
  rw [_h, List.length_cons] at hlength
  omega

def feed (pending : List β) : List (List β) → Proc σ ε (List β)
  | [] => pure pending
  | chunk :: chunks => do
    let pending ← drain newline process (pending ++ chunk)
    feed pending chunks

variable {newline process}

theorem drain_of_not_mem {pending : List β} (h : newline ∉ pending) : drain newline process pending = pure pending := by
  have hdrop : pending.dropWhile (· ≠ newline) = [] := by
    rw [List.dropWhile_eq_nil_iff]
    exact fun b hb => decide_eq_true fun hsame => h (hsame ▸ hb)
  unfold drain
  split
  · rfl
  · rename_i hcons
    rw [hdrop] at hcons
    cases hcons

theorem drain_line {line rest : List β} (h : newline ∉ line) : drain newline process (line ++ newline :: rest) =
    process (line ++ [newline]) >>= fun _ => drain newline process rest := by
  have hline : ∀ b ∈ line, decide (b ≠ newline) = true := fun b hb => decide_eq_true fun hsame => h (hsame ▸ hb)
  have hdrop : (line ++ newline :: rest).dropWhile (· ≠ newline) = newline :: rest := by
    rw [List.dropWhile_append_of_pos hline]
    exact List.dropWhile_cons_of_neg (by simp)
  have htake : (line ++ newline :: rest).takeWhile (· ≠ newline) = line := by
    rw [List.takeWhile_append_of_pos hline, List.takeWhile_cons_of_neg (by simp), List.append_nil]
  rw [drain]
  split
  · rename_i hnil
    rw [hdrop] at hnil
    cases hnil
  · rename_i hcons
    rw [hdrop] at hcons
    cases hcons
    rw [htake]

/-- What is in the buffer already can be drained before the rest arrives. -/
theorem drain_append (as bs : List β) : drain newline process (as ++ bs) =
    drain newline process as >>= fun pending => drain newline process (pending ++ bs) := by
  induction hn : as.length using Nat.strong_induction_on generalizing as with
  | _ n ih =>
    by_cases hmem : newline ∈ as
    · obtain ⟨line, rest, rfl, hline⟩ := List.eq_append_cons_of_mem hmem
      have hlength : rest.length < n := by
        rw [← hn, List.length_append, List.length_cons]
        omega
      rw [List.append_assoc, List.cons_append, drain_line hline, drain_line hline, Proc.bind_assoc,
        ih rest.length hlength rest rfl]
    · rw [drain_of_not_mem hmem, Proc.pure_bind]

theorem drain_feed (pending : List β) (chunks : List (List β)) :
    (drain newline process pending >>= fun pending => feed newline process pending chunks) =
      drain newline process (pending ++ chunks.flatten) := by
  induction chunks generalizing pending with
  | nil => rw [List.flatten_nil, List.append_nil]; exact Proc.bind_pure _
  | cons chunk chunks ih =>
    rw [List.flatten_cons, ← List.append_assoc, ← ih (pending ++ chunk), drain_append pending chunk, Proc.bind_assoc]
    rfl

/-- The chunks do not matter. -/
theorem feed_eq_drain (chunks : List (List β)) : feed newline process [] chunks = drain newline process chunks.flatten := by
  have hempty : drain newline process [] = pure [] := drain_of_not_mem List.not_mem_nil
  have hfeed := @drain_feed _ _ _ _ newline process [] chunks
  rw [hempty] at hfeed
  exact hfeed

/-- What the lines keep the stream keeps. -/
theorem drain_keeps {I J : σ → Prop} (hline : ∀ line, (process line).Keeps I J) (pending : List β) :
    (drain newline process pending).Keeps I J := by
  induction hn : pending.length using Nat.strong_induction_on generalizing pending with
  | _ n ih =>
    by_cases hmem : newline ∈ pending
    · obtain ⟨line, rest, rfl, hnot⟩ := List.eq_append_cons_of_mem hmem
      rw [drain_line hnot]
      refine (hline _).bind fun _ => ih rest.length ?_ rest rfl
      rw [← hn, List.length_append, List.length_cons]
      omega
    · rw [drain_of_not_mem hmem]
      exact Proc.Keeps.pure pending

theorem feed_keeps {I J : σ → Prop} (hline : ∀ line, (process line).Keeps I J) (chunks : List (List β)) :
    (feed newline process [] chunks).Keeps I J := by
  rw [feed_eq_drain]
  exact drain_keeps hline _

end LineFeed
end Lib
