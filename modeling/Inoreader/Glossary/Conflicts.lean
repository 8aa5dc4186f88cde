import Inoreader.Glossary.Projection

/-!
# The conflict mark of a post

`apply_post` marks a post when an observation has another document and no ground for an order. Two branches go wrong:
a later edit that repeats the stored document leaves an old mark (the fast path for equal documents), and after an upgrade
of the parser an observation that repeats the stored document is taken for a different one.
-/

namespace Inoreader
open Lib

namespace Observation

/-- The observation has another document than the stored one. -/
def Differs (o : Observation) : Prop := ∃ row, o.stored = some row ∧ row.document ≠ o.post.projection

/-- An edit of the bot that is later than the stored edit time. -/
def Newer (o : Observation) : Prop :=
  ∃ row, o.stored = some row ∧ o.kind = .bot ∧ editBefore row.editedAt o.post.editedAt = true

/-- An observation that repeats the stored document is no later edit of a marked post; if another version of the parser
has stored the document, it has the source of the row, or an edit time that decides, or it is an archive record of a post
that the bot has reported. -/
def Settles (o : Observation) : Prop :=
  ∀ row, o.stored = some row → row.document = o.post.projection →
    (row.parserVersion = o.version → row.conflicted = true → ¬ o.Newer) ∧
    (row.parserVersion ≠ o.version → row.sameSource o.kind o.post = true ∨ o.Newer ∨
      editBefore o.post.editedAt row.editedAt = true ∧ o.post.editedAt.isSome = true ∨ o.kind = .archive ∧ row.kind = .bot)

instance (o : Observation) : Decidable o.Differs :=
  decidable_of_iff (o.stored.any (fun row => decide (row.document ≠ o.post.projection)) = true)
    (by simp [Differs, Option.any_eq_true])

instance (o : Observation) : Decidable o.Newer :=
  decidable_of_iff
    (o.stored.any (fun row => decide (o.kind = .bot ∧ editBefore row.editedAt o.post.editedAt = true)) = true)
    (by simp [Newer, Option.any_eq_true])

instance (o : Observation) : Decidable o.Settles :=
  match h : o.stored with
  | none => isTrue fun row hrow => by rw [h] at hrow; cases hrow
  | some row => decidable_of_iff (row.document = o.post.projection →
      (row.parserVersion = o.version → row.conflicted = true → ¬ o.Newer) ∧
      (row.parserVersion ≠ o.version → row.sameSource o.kind o.post = true ∨ o.Newer ∨
        editBefore o.post.editedAt row.editedAt = true ∧ o.post.editedAt.isSome = true ∨
          o.kind = .archive ∧ row.kind = .bot)) (by simp [Settles, h])

end Observation

/-- A mark goes back to a different document, seen after the last later edit. -/
def GlossaryDb.Accurate (db : GlossaryDb) : Prop :=
  ∀ key row, db.posts.lookup key = some row → row.conflicted = true →
    (∃ o ∈ db.observed, o.key = key ∧ o.Differs) ∧
    ∀ later e earlier, db.observed = later ++ e :: earlier → e.key = key → e.Newer → ∃ o ∈ later, o.key = key ∧ o.Differs

section
variable {P : GlossaryPlatform} {parsers : ParserFamily} {db db' : GlossaryDb} {o : Observation}

theorem decide_marked {row : PostRow} {version : String} {kind : PostKind} {post : ObservedPost}
    (h : row.decide version kind post = .marked) (hsame : row.document = post.projection) : row.parserVersion ≠ version ∧
      row.sameSource kind post = false ∧ ¬ (editBefore post.editedAt row.editedAt = true ∧ post.editedAt.isSome = true) ∧
      ¬ (kind = .archive ∧ row.kind = .bot) := by
  unfold PostRow.decide at h
  split at h
  · split at h <;> cases h
  · rename_i hversion
    split at h
    · cases h
    · rename_i hstale
      split at h
      · cases h
      · rename_i hyields
        split at h
        · cases h
        · rename_i harchive
          refine ⟨fun e => hversion ⟨hsame, e⟩, ?_, ?_, harchive⟩
          · by_contra hsource
            simp [PostRow.yields, hsource] at hyields
          · rintro ⟨hbefore, hsome⟩
            exact hstale ⟨isSome_of_editBefore hbefore, hsome, hbefore⟩

/-- A mark after an observation was there before, or the observation has another document. -/
theorem conflicted_of_result {row : PostRow} (hgenuine : o.Genuine P parsers) {o' : Observation}
    (hgenuine' : o'.Genuine P parsers) (htracks : o'.Tracks row) (hstored : o.stored = some row) (hsettles : o.Settles)
    (receipt : Nat) (hmark : (o.result receipt).conflicted = true) : ¬ o.Newer ∧ (row.conflicted = true ∨ o.Differs) := by
  have hnewer : o.Newer → o.kind = .bot ∧ editBefore row.editedAt o.post.editedAt = true := by
    rintro ⟨row', hrow', hbot, hlater⟩
    rw [hstored] at hrow'
    cases hrow'
    exact ⟨hbot, hlater⟩
  unfold Observation.result at hmark
  rw [hstored] at hmark
  simp only at hmark
  cases hdecide : row.decide o.version o.kind o.post with
  | unchanged =>
    rw [hdecide] at hmark
    refine ⟨fun hn => ?_, .inl hmark⟩
    obtain ⟨hbot, hlater⟩ := hnewer hn
    rw [PostRow.decide_kept (.inl hdecide) hbot] at hlater
    cases hlater
  | refreshed =>
    -- the fast path: the mark would survive a later edit
    rw [hdecide] at hmark
    obtain ⟨hdocument, hversion, hbot, hlater⟩ := PostRow.decide_refreshed hdecide
    exact absurd ⟨row, hstored, hbot, hlater⟩ ((hsettles row hstored hdocument).1 hversion hmark)
  | marked =>
    have hnot : ¬ o.Newer := by
      intro hn
      obtain ⟨hbot, hlater⟩ := hnewer hn
      rw [PostRow.decide_kept (.inr hdecide) hbot] at hlater
      cases hlater
    refine ⟨hnot, .inr ⟨row, hstored, fun hsame => ?_⟩⟩
    -- the same document under another version of the parser
    obtain ⟨hversion, hsource, hstale, harchive⟩ := decide_marked hdecide hsame
    rcases (hsettles row hstored hsame).2 hversion with h | h | h | h
    · rw [hsource] at h
      cases h
    · exact hnot h
    · exact hstale h
    · exact harchive h
  | stored =>
    rw [hdecide] at hmark
    have hmark : (row.sameSource o.kind o.post && row.conflicted) = true := hmark
    rw [Bool.and_eq_true] at hmark
    refine ⟨fun hn => ?_, .inl hmark.2⟩
    obtain ⟨-, hlater⟩ := hnewer hn
    rw [Observation.edited_of_sameSource hgenuine hgenuine' htracks hmark.1, not_editBefore_self] at hlater
    cases hlater

theorem GlossaryDb.Accurate.applied (haccurate : db.Accurate) (hsound : db.Sound P parsers) (hgenuine : o.Genuine P parsers)
    (hsettles : o.Settles) (h : db.Applied db' o) : db'.Accurate := by
  intro key row' hlookup' hmark
  rw [h.observed]
  -- what the mark of the row before gives
  have hold : ∀ row, db.posts.lookup key = some row → row.conflicted = true → (key = o.key → ¬ o.Newer) →
      (∃ o₁ ∈ o :: db.observed, o₁.key = key ∧ o₁.Differs) ∧
      ∀ later e earlier, o :: db.observed = later ++ e :: earlier → e.key = key → e.Newer →
        ∃ o₁ ∈ later, o₁.key = key ∧ o₁.Differs := by
    intro row hlookup hmark hnot
    obtain ⟨⟨o₁, ho₁, hkey₁, hdiffers⟩, hlater⟩ := haccurate key row hlookup hmark
    refine ⟨⟨o₁, List.mem_cons_of_mem _ ho₁, hkey₁, hdiffers⟩, fun later e earlier hsplit hkey hnewer => ?_⟩
    rcases List.cons_eq_append_iff.1 hsplit with ⟨rfl, heq⟩ | ⟨rest, rfl, heq⟩
    · cases heq
      exact absurd hnewer (hnot hkey.symm)
    · obtain ⟨o₂, ho₂, hkey₂, hdiffers₂⟩ := hlater rest e earlier heq hkey hnewer
      exact ⟨o₂, List.mem_cons_of_mem _ ho₂, hkey₂, hdiffers₂⟩
  by_cases hkey : key = o.key
  · subst hkey
    obtain ⟨receipt, hposts⟩ := h.posts
    rw [hposts, if_pos rfl] at hlookup'
    cases hlookup'
    cases hrow : db.posts.lookup o.key with
    | none =>
      unfold Observation.result at hmark
      rw [h.stored, hrow] at hmark
      cases hmark
    | some row =>
      obtain ⟨o', ho', -, htracks⟩ := hsound.tracks o.key row hrow
      obtain ⟨hnot, hcases⟩ := conflicted_of_result hgenuine (hsound.genuine o' ho') htracks (h.stored.trans hrow) hsettles
        receipt hmark
      rcases hcases with hmark | hdiffers
      · exact hold row hrow hmark fun _ => hnot
      · refine ⟨⟨o, List.mem_cons_self, rfl, hdiffers⟩, fun later e earlier hsplit hkey hnewer => ?_⟩
        rcases List.cons_eq_append_iff.1 hsplit with ⟨rfl, heq⟩ | ⟨rest, rfl, -⟩
        · cases heq
          exact absurd hnewer hnot
        · exact ⟨o, List.mem_cons_self, rfl, hdiffers⟩
  · rw [h.lookup_ne hkey] at hlookup'
    exact hold row' hlookup' hmark fun e => absurd e hkey

theorem moves_accurate (h : Relation.ReflTransGen (GlossaryDb.Move P parsers) db db') (hsound : db.Sound P parsers)
    (haccurate : db.Accurate) (hsettles : ∀ o ∈ db'.observed, o.Settles) : db'.Accurate := by
  induction h with
  | refl => exact haccurate
  | tail hmoves hmove ih =>
    cases hmove with
    | applied hgenuine happlied =>
      rw [happlied.observed] at hsettles
      have hbefore := ih fun o ho => hsettles o (List.mem_cons_of_mem _ ho)
      exact hbefore.applied (moves_sound hmoves hsound).1 hgenuine (hsettles _ List.mem_cons_self) happlied
    | aside posts definitions observed =>
      rw [observed] at hsettles
      have hbefore := ih hsettles
      unfold GlossaryDb.Accurate
      rw [posts, observed]
      exact hbefore

end

namespace GlossaryWorld

/-- In every run whose observations settle, a mark goes back to a different document that was observed after the last later
edit of the bot. -/
theorem conflict_mark_accurate (P : GlossaryPlatform) (parsers : ParserFamily) {w₀ w : GlossaryWorld} {as : List GlossaryLabel}
    (hfresh : w₀.db.Fresh) (hrun : run (step P parsers) w₀ as = some w) (hsettles : ∀ o ∈ w.db.observed, o.Settles) :
    (∀ key row, w.db.posts.lookup key = some row → row.conflicted = true →
      ∃ o ∈ w.db.observed, o.key = key ∧ o.Differs) ∧
    ∀ later e earlier, w.db.observed = later ++ e :: earlier → e.Newer → (∀ o ∈ later, o.key = e.key → ¬ o.Differs) →
      ∀ row, w.db.posts.lookup e.key = some row → row.conflicted = false := by
  have hempty : w₀.db.Accurate := by
    intro key row hlookup
    simp [hfresh.posts] at hlookup
  have haccurate := moves_accurate (run_moves hrun) (hfresh.sound P parsers) hempty hsettles
  refine ⟨fun key row hlookup hmark => (haccurate key row hlookup hmark).1, ?_⟩
  intro later e earlier hsplit hnewer hsame row hlookup
  by_contra hmark
  have hmark : row.conflicted = true := by simpa using hmark
  obtain ⟨o, ho, hkey, hdiffers⟩ := (haccurate e.key row hlookup hmark).2 later e earlier hsplit rfl hnewer
  exact hsame o ho hkey hdiffers

end GlossaryWorld

namespace Sample

/-- A page shows another text, then a later edit brings that text. -/
def resolvedRun : List GlossaryLabel := editApplied 20 "one" ++ seenOnPage "two" "b" ++ editApplied 30 "two"

/-- A page shows another text, then a later edit repeats the stored text. -/
def repeatedRun : List GlossaryLabel := editApplied 20 "one" ++ seenOnPage "two" "b" ++ editApplied 30 "one"

/-- The same text is seen again after an upgrade of the parser, in another element. -/
def upgradedRun : List GlossaryLabel := seenOnPage "one" "a" ++ .upgrade "v2" :: seenOnPage "one" "b"

end Sample

namespace GlossaryWorld
open Sample

/-- A later edit with another document clears the mark. -/
theorem conflict_mark_accurate_resolved :
    storedPost (editApplied 20 "one" ++ seenOnPage "two" "b") = some (.indexed "one" [], some 20, true) ∧
    ∃ row, (glossaryEnd resolvedRun).db.posts.lookup messageKey = some row ∧ row.editedAt = some 30 ∧ row.conflicted = false := by
  have hrun : run (step glossaryPlatform glossaryParsers) ⟨{}, "v1"⟩ resolvedRun = some (glossaryEnd resolvedRun) :=
    run_getD (by decide +kernel) _
  have hsettles : ∀ o ∈ (glossaryEnd resolvedRun).db.observed, o.Settles := by decide +kernel
  have hshape : (glossaryEnd resolvedRun).db.observed.map (fun o => (o.key, decide o.Newer)) =
      [(messageKey, true), (messageKey, false), (messageKey, false)] := by decide +kernel
  have hrow : ((glossaryEnd resolvedRun).db.posts.lookup messageKey).map (·.editedAt) = some (some 30) := by decide +kernel
  have hmarked : storedPost (editApplied 20 "one" ++ seenOnPage "two" "b") = some (.indexed "one" [], some 20, true) := by
    decide +kernel
  generalize glossaryEnd resolvedRun = w at hrun hsettles hshape hrow ⊢
  obtain ⟨row, hlookup, hedit⟩ := Option.map_eq_some_iff.1 hrow
  obtain ⟨e, earlier, hobserved, hfields, -⟩ := List.map_eq_cons_iff.1 hshape
  simp only [Prod.mk.injEq, decide_eq_true_eq] at hfields
  obtain ⟨-, hclears⟩ := conflict_mark_accurate glossaryPlatform glossaryParsers ⟨rfl, rfl, rfl⟩ hrun hsettles
  rw [← hfields.1] at hlookup ⊢
  exact ⟨hmarked, row, hlookup, hedit, hclears [] e earlier hobserved hfields.2 (by simp) row hlookup⟩

/-- The mark survives a later edit that repeats the document, and an upgraded parser marks a post whose document is seen
again. -/
theorem conflict_mark_wrong :
    (storedPost repeatedRun = some (.indexed "one" [], some 30, true) ∧
      ((glossaryEnd repeatedRun).db.observed.map fun o => decide o.Newer) = [true, false, false]) ∧
    storedPost upgradedRun = some (.indexed "one" [], none, true) ∧
      ∀ o ∈ (glossaryEnd upgradedRun).db.observed, ¬ o.Differs := by
  decide +kernel

end GlossaryWorld
end Inoreader
