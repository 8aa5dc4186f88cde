import Inoreader.Ai.Segments
import Inoreader.Lib.Except

/-!
# The scanner of segments against the grammar

The scanner looks at one character after the other and at what came before it, so the way a response is cut
into pieces does not matter. On a text of the grammar it stops at each segment and renders it; on a text that
only `serde` reads, it fails.
-/

namespace Inoreader
open Lib Lib.JsonText

namespace VerifiedSegments
variable {s s' : VerifiedSegments} {byte : Char} {text more : List Char}

/-! ## Pieces -/

/-- The response after more of it has arrived. -/
def extend (more : List Char) (s : VerifiedSegments) : VerifiedSegments := { s with raw := s.raw ++ more }

/-- The scanner over a text, without the news. -/
def steps : List Char → VerifiedSegments → Except AiError VerifiedSegments
  | [], s => .ok s
  | byte :: rest, s => do
    let r ← scanned { s with cursor := s.cursor + 1 } byte
    steps rest r.1

theorem emit_extend (h : s.cursor ≤ s.raw.length) (start : Nat) :
    emit (extend more s) start = (emit s start).map (extend more) := by
  have htake : (extend more s).raw.take (extend more s).cursor = s.raw.take s.cursor := List.take_append_of_le_length h
  unfold emit
  rw [htake]
  cases readDocument readSegment ((s.raw.take s.cursor).drop start) with
  | none => rfl
  | some segment =>
    show (renderSegment segment s.article >>= _) = Except.map _ (renderSegment segment s.article >>= _)
    cases renderSegment segment s.article with
    | error e => rfl
    | ok rendered => rfl

/-- A branch whose sides agree after a map. -/
theorem ite_map {α β : Type} {p : Prop} [Decidable p] {f : α → β} {a b : Except AiError α} {a' b' : Except AiError β}
    (ha : a' = a.map f) (hb : b' = b.map f) : (if p then a' else b') = (if p then a else b).map f := by
  split
  · exact ha
  · exact hb

theorem scanned_extend (h : s.cursor ≤ s.raw.length) :
    scanned (extend more s) byte = (scanned s byte).map fun r => (extend more r.1, r.2) := by
  have htake : (extend more s).raw.take (extend more s).cursor = s.raw.take s.cursor := List.take_append_of_le_length h
  refine ite_map rfl (ite_map (ite_map rfl (ite_map rfl (ite_map rfl rfl))) ?_)
  refine ite_map (ite_map rfl rfl) (ite_map (ite_map ?_ rfl) ?_)
  · rw [htake]
    cases readDocument readEnvelope (s.raw.take s.cursor ++ [']', '}']) with
    | none => rfl
    | some _ => rfl
  · obtain ⟨raw, cursor, arrayStarted, arrayFinished, objectStart, depth, quoted, escaped, separator, article, emitted,
      content, limit⟩ := s
    cases objectStart with
    | none => exact ite_map rfl (ite_map rfl (ite_map (ite_map rfl rfl) (ite_map rfl rfl)))
    | some start =>
      refine ite_map rfl (ite_map (ite_map ?_ rfl) rfl)
      have hemit (t : VerifiedSegments) (ht : t.cursor ≤ t.raw.length) :
          (emit (extend more t) start).map (fun s => (s, true)) =
            ((emit t start).map fun s => (s, true)).map fun r => (extend more r.1, r.2) := by
        rw [emit_extend ht]
        cases emit t start with
        | error e => rfl
        | ok t => rfl
      exact hemit ⟨raw, cursor, arrayStarted, arrayFinished, some start, depth - 1, quoted, escaped, separator, article,
        emitted, content, limit⟩ h

/-- What a step leaves alone, and that it only adds to the content. -/
structure Grows (s s' : VerifiedSegments) : Prop where
  raw : s'.raw = s.raw
  article : s'.article = s.article
  limit : s'.limit = s.limit
  content : s.content <+: s'.content

theorem Grows.trans {s₁ s₂ s₃ : VerifiedSegments} (h : Grows s₁ s₂) (h' : Grows s₂ s₃) : Grows s₁ s₃ :=
  ⟨h'.raw.trans h.raw, h'.article.trans h.article, h'.limit.trans h.limit, h.content.trans h'.content⟩

theorem emit_grows {start : Nat} (h : emit s start = .ok s') : Grows s s' ∧ s'.cursor = s.cursor := by
  unfold emit at h
  split at h
  · cases h
  · obtain ⟨rendered, -, h⟩ := except_bind_ok.1 h
    cases h
    refine ⟨⟨rfl, rfl, rfl, ?_⟩, rfl⟩
    show s.content <+: if s.content = [] then rendered else s.content ++ '\n' :: '\n' :: rendered
    split
    · rename_i hnil
      rw [hnil]
      exact List.nil_prefix
    · exact List.prefix_append _ _

theorem scanned_grows {new : Bool} (h : scanned s byte = .ok (s', new)) :
    Grows s s' ∧ s'.cursor = s.cursor ∧ (new = false → s'.content = s.content) := by
  unfold scanned at h
  -- every branch but the one that emits keeps the content
  repeat' split at h
  all_goals first
    | cases h; exact ⟨⟨rfl, rfl, rfl, List.prefix_rfl⟩, rfl, fun _ => rfl⟩
    | cases h
    | skip
  obtain ⟨t, ht, heq⟩ := except_map_ok.1 h
  cases heq
  obtain ⟨hgrows, hcursor⟩ := emit_grows ht
  exact ⟨⟨hgrows.raw, hgrows.article, hgrows.limit, hgrows.content⟩, hcursor, fun hnew => by cases hnew⟩

theorem scan_grows {changed new : Bool} (h : scan text s changed = .ok (s', new)) :
    Grows s s' ∧ s'.cursor = s.cursor + text.length ∧ (new = false → s'.content = s.content) ∧
      (new = false → changed = false) := by
  induction text generalizing s changed with
  | nil =>
    cases h
    exact ⟨⟨rfl, rfl, rfl, List.prefix_rfl⟩, rfl, fun _ => rfl, id⟩
  | cons byte rest ih =>
    obtain ⟨⟨t, news⟩, ht, h⟩ := except_bind_ok.1 h
    obtain ⟨hgrows, hcursor, hsame⟩ := scanned_grows ht
    obtain ⟨hgrows', hcursor', hsame', hchanged⟩ := ih h
    have hgrows₀ : Grows s t := ⟨hgrows.raw, hgrows.article, hgrows.limit, hgrows.content⟩
    refine ⟨hgrows₀.trans hgrows', ?_, ?_, ?_⟩
    · rw [hcursor', hcursor, List.length_cons, Nat.add_right_comm]
      rfl
    · intro hnew
      have hnews := Bool.or_eq_false_iff.1 (hchanged hnew)
      exact (hsame' hnew).trans (hsame hnews.2)
    · exact fun hnew => (Bool.or_eq_false_iff.1 (hchanged hnew)).1

theorem scan_steps (text : List Char) (s : VerifiedSegments) (changed : Bool) :
    (scan text s changed).map Prod.fst = steps text s := by
  induction text generalizing s changed with
  | nil => rfl
  | cons byte rest ih =>
    show (scanned _ byte >>= _).map _ = (scanned _ byte >>= _)
    cases scanned { s with cursor := s.cursor + 1 } byte with
    | error e => rfl
    | ok r => exact ih r.1 (changed || r.2)

theorem steps_append (text more : List Char) (s : VerifiedSegments) :
    steps (text ++ more) s = steps text s >>= steps more := by
  induction text generalizing s with
  | nil => rfl
  | cons byte rest ih =>
    show (scanned _ byte >>= _) = (scanned _ byte >>= _) >>= _
    cases scanned { s with cursor := s.cursor + 1 } byte with
    | error e => rfl
    | ok r => exact ih r.1

theorem steps_grows (h : steps text s = .ok s') : Grows s s' ∧ s'.cursor = s.cursor + text.length := by
  have hscan := scan_steps text s false
  rw [h] at hscan
  obtain ⟨⟨t, new⟩, ht, heq⟩ := except_map_ok.1 hscan
  cases heq
  obtain ⟨hgrows, hcursor, -⟩ := scan_grows ht
  exact ⟨hgrows, hcursor⟩

/-- What is scanned does not depend on what has arrived behind it. -/
theorem steps_extend (h : s.cursor + text.length ≤ s.raw.length) :
    steps text (extend more s) = (steps text s).map (extend more) := by
  induction text generalizing s with
  | nil => rfl
  | cons byte rest ih =>
    rw [List.length_cons] at h
    have hstep : scanned (extend more { s with cursor := s.cursor + 1 }) byte = _ :=
      scanned_extend (show s.cursor + 1 ≤ s.raw.length by omega)
    have hleft : steps (byte :: rest) (extend more s) =
        (scanned (extend more { s with cursor := s.cursor + 1 }) byte >>= fun r => steps rest r.1) := rfl
    have hright : steps (byte :: rest) s = (scanned { s with cursor := s.cursor + 1 } byte >>= fun r => steps rest r.1) := rfl
    rw [hleft, hright, hstep]
    cases hr : scanned { s with cursor := s.cursor + 1 } byte with
    | error e => rfl
    | ok r =>
      obtain ⟨t, new⟩ := r
      obtain ⟨hgrows, hcursor, -⟩ := scanned_grows hr
      refine ih ?_
      rw [hgrows.raw, hcursor]
      show s.cursor + 1 + rest.length ≤ s.raw.length
      omega

/-! ## The calls of `push` -/

/-- The contents that the calls of `push` return, up to the first that fails, and what is left. -/
def pushes (s : VerifiedSegments) : List (List Char) → List (List Char) × Except AiError VerifiedSegments
  | [] => ([], .ok s)
  | chunk :: chunks =>
    match s.push chunk with
    | .error e => ([], .error e)
    | .ok (s', returned) => (returned.toList ++ (pushes s' chunks).1, (pushes s' chunks).2)

theorem byteLength_append (a b : List Char) : byteLength (a ++ b) = byteLength a + byteLength b := by
  simp [byteLength]

/-- The scanner has seen all that arrived. -/
def Synced (s : VerifiedSegments) : Prop := s.cursor = s.raw.length

theorem push_ok {returned : Option (List Char)} (hs : Synced s) (h : s.push text = .ok (s', returned)) :
    steps text (extend text s) = .ok s' ∧ Synced s' ∧ Grows (extend text s) s' ∧
      (∀ c ∈ returned, c = s'.content) := by
  unfold push at h
  split at h
  · cases h
  · obtain ⟨⟨t, changed⟩, ht, h⟩ := except_bind_ok.1 h
    cases h
    have hdrop : (s.raw ++ text).drop s.cursor = text := by
      rw [hs]
      exact List.drop_left
    rw [hdrop] at ht
    obtain ⟨hgrows, hcursor, -⟩ := scan_grows ht
    refine ⟨?_, ?_, hgrows, ?_⟩
    · have hsteps := scan_steps text (extend text s) false
      rw [show scan text (extend text s) false = _ from ht] at hsteps
      exact hsteps.symm
    · show s'.cursor = s'.raw.length
      rw [hgrows.raw, hcursor, List.length_append]
      show s.cursor + text.length = _
      rw [hs]
    · intro c hc
      split at hc
      · exact (Option.some.inj hc).symm
      · cases hc

theorem push_steps (hs : Synced s) (hlimit : byteLength s.raw + byteLength text ≤ s.limit) :
    (s.push text).map Prod.fst = steps text (extend text s) := by
  have hdrop : (s.raw ++ text).drop s.cursor = text := by
    rw [hs]
    exact List.drop_left
  unfold push
  rw [if_neg (not_lt.2 hlimit), hdrop, ← scan_steps text (extend text s) false]
  show (scan text (extend text s) false >>= _).map _ = _
  cases scan text (extend text s) false with
  | error e => rfl
  | ok r => rfl

/-- The pieces of a response are scanned as the response is. -/
theorem pushes_steps {chunks : List (List Char)} (hs : Synced s)
    (hlimit : byteLength s.raw + byteLength chunks.flatten ≤ s.limit) :
    (pushes s chunks).2 = steps chunks.flatten (extend chunks.flatten s) := by
  induction chunks generalizing s with
  | nil =>
    show Except.ok s = .ok (extend [] s)
    rw [extend, List.append_nil]
  | cons chunk chunks ih =>
    rw [List.flatten_cons, byteLength_append] at hlimit
    have hpush : (s.push chunk).map Prod.fst = _ := push_steps hs (by omega)
    have hsplit : steps (chunk ++ chunks.flatten) (extend (chunk ++ chunks.flatten) s) =
        (steps chunk (extend chunk s)).map (extend chunks.flatten) >>= steps chunks.flatten := by
      have hextend : extend (chunk ++ chunks.flatten) s = extend chunks.flatten (extend chunk s) := by
        simp only [extend, List.append_assoc]
      have hlen : (extend chunk s).cursor + chunk.length ≤ (extend chunk s).raw.length := by
        show s.cursor + chunk.length ≤ (s.raw ++ chunk).length
        rw [List.length_append, hs]
      rw [steps_append, hextend, steps_extend hlen]
    rw [List.flatten_cons, hsplit, ← hpush]
    cases hr : s.push chunk with
    | error e =>
      simp only [pushes, hr]
      rfl
    | ok r =>
      obtain ⟨t, returned⟩ := r
      obtain ⟨-, hsynced, hgrows, -⟩ := push_ok hs hr
      simp only [pushes, hr]
      refine ih hsynced ?_
      rw [hgrows.raw, hgrows.limit]
      show byteLength (s.raw ++ chunk) + _ ≤ s.limit
      rw [byteLength_append]
      omega

/-- The contents that `push` returns extend one another, and the last content extends them all. -/
theorem pushes_grow {chunks : List (List Char)} (hs : Synced s) :
    (∀ c ∈ (pushes s chunks).1, s.content <+: c) ∧ (pushes s chunks).1.Pairwise (· <+: ·) ∧
      ∀ s', (pushes s chunks).2 = .ok s' → s.content <+: s'.content ∧ ∀ c ∈ (pushes s chunks).1, c <+: s'.content := by
  induction chunks generalizing s with
  | nil =>
    refine ⟨fun c hc => absurd hc List.not_mem_nil, List.Pairwise.nil, ?_⟩
    intro s' h
    cases h
    exact ⟨List.prefix_rfl, fun c hc => absurd hc List.not_mem_nil⟩
  | cons chunk chunks ih =>
    cases hr : s.push chunk with
    | error e =>
      simp only [pushes, hr]
      refine ⟨fun c hc => absurd hc List.not_mem_nil, List.Pairwise.nil, ?_⟩
      intro s' h
      cases h
    | ok r =>
      obtain ⟨t, returned⟩ := r
      obtain ⟨-, hsynced, hgrows, hreturned⟩ := push_ok hs hr
      obtain ⟨hfirst, hpairwise, hlast⟩ := ih hsynced
      have hcontent : s.content <+: t.content := hgrows.content
      have hmem : ∀ c ∈ returned.toList, c = t.content := fun c hc => hreturned c (Option.mem_toList.1 hc)
      simp only [pushes, hr]
      refine ⟨?_, ?_, ?_⟩
      · intro c hc
        rcases List.mem_append.1 hc with hc | hc
        · rw [hmem c hc]
          exact hcontent
        · exact hcontent.trans (hfirst c hc)
      · rw [List.pairwise_append]
        refine ⟨?_, hpairwise, ?_⟩
        · cases returned with
          | none => exact List.Pairwise.nil
          | some c => exact List.pairwise_singleton _ _
        · intro c hc d hd
          rw [hmem c hc]
          exact hfirst d hd
      · intro s' h
        obtain ⟨hle, hall⟩ := hlast s' h
        refine ⟨hcontent.trans hle, ?_⟩
        intro c hc
        rcases List.mem_append.1 hc with hc | hc
        · rw [hmem c hc]
          exact hle
        · exact hall c hc

end VerifiedSegments
end Inoreader
