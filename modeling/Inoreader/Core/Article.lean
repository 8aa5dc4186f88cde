import Mathlib.Algebra.Group.Nat.Defs
import Mathlib.Data.List.Infix

/-!
# Identifiers, times and articles (`reader-core/src/article.rs`)

Identifiers are UUIDs; their text order is their numeric order, so a natural number stands for one.
A `DateTime` is a number of nanoseconds since the epoch, a `Day` a number of days.
-/

namespace Inoreader

structure AccountId where
  uuid : Nat
deriving DecidableEq, Repr

structure WorkspaceId where
  uuid : Nat
deriving DecidableEq, Repr

structure SubscriptionId where
  uuid : Nat
deriving DecidableEq, Repr

structure SourceId where
  uuid : Nat
deriving DecidableEq, Repr

structure SourceRecordId where
  uuid : Nat
deriving DecidableEq, Repr

structure ArticleId where
  uuid : Nat
deriving DecidableEq, Repr

structure RuleId where
  uuid : Nat
deriving DecidableEq, Repr

abbrev DateTime : Type := Int
abbrev Day : Type := Int

/-- `DateTime::timestamp_millis`. -/
def millis (t : DateTime) : Int := t / 1000000

/-- `DateTime::date_naive`. -/
def dateNaive (t : DateTime) : Day := t / 86400000000000

/-- The largest value of a PostgreSQL `BIGINT`. -/
def bigintMax : Nat := 2 ^ 63 - 1

/-- A parsed URL with its serialization; `port` is absent when it is the scheme's default. -/
structure Url where
  text : String
  scheme : String
  host : Option String
  port : Option Nat
deriving DecidableEq, Repr

inductive ArticleLocation
  /-- The exact source spelling participates in identity, `fetch` is used for outbound I/O. -/
  | url (exact : String) (fetch : Url)
  /-- An entry without URL is only idempotent within its own source. -/
  | sourceRecord (source : SourceId) (upstream : String)
deriving DecidableEq, Repr

def ArticleLocation.fetchUrl : ArticleLocation → Option Url
  | .url _ fetch => some fetch
  | .sourceRecord _ _ => none

structure DedupKey where
  location : ArticleLocation
  title : String
  description : Option String
deriving DecidableEq, Repr

structure ArticleState where
  read : Bool := false
  later : Bool := false
  protectUnread : Bool := false
deriving DecidableEq, Repr

/-- `ArticleState::merge`: read only if all are, `later` and `protect_unread` if any is. -/
def ArticleState.merge : List ArticleState → Option ArticleState
  | [] => none
  | values => some
    { read := values.all (·.read)
      later := values.any (·.later)
      protectUnread := values.any (·.protectUnread) }

structure Article where
  id : ArticleId
  key : DedupKey
  state : ArticleState
  firstArrivedAt : DateTime
  origins : List SourceRecordId
  revision : Nat
deriving DecidableEq, Repr

namespace Article

def attachOrigin (a : Article) (origin : SourceRecordId) : Article :=
  if origin ∈ a.origins then a
  else { a with origins := a.origins ++ [origin], revision := a.revision + 1 }

/-- `detach_origin` removes the first occurrence. -/
def detachOrigin (a : Article) (origin : SourceRecordId) : Article :=
  if origin ∈ a.origins then { a with origins := a.origins.erase origin, revision := a.revision + 1 }
  else a

variable {a : Article} {r : SourceRecordId}

theorem attachOrigin_of_mem (h : r ∈ a.origins) : a.attachOrigin r = a := by simp [attachOrigin, h]

theorem attachOrigin_of_not_mem (h : r ∉ a.origins) :
    a.attachOrigin r = { a with origins := a.origins ++ [r], revision := a.revision + 1 } := by
  simp [attachOrigin, h]

theorem detachOrigin_of_mem (h : r ∈ a.origins) :
    a.detachOrigin r = { a with origins := a.origins.erase r, revision := a.revision + 1 } := by
  simp [detachOrigin, h]

@[simp] theorem attachOrigin_id : (a.attachOrigin r).id = a.id := by unfold attachOrigin; split <;> rfl
@[simp] theorem attachOrigin_key : (a.attachOrigin r).key = a.key := by unfold attachOrigin; split <;> rfl
@[simp] theorem attachOrigin_state : (a.attachOrigin r).state = a.state := by
  unfold attachOrigin; split <;> rfl
@[simp] theorem attachOrigin_firstArrivedAt : (a.attachOrigin r).firstArrivedAt = a.firstArrivedAt := by
  unfold attachOrigin; split <;> rfl
@[simp] theorem detachOrigin_id : (a.detachOrigin r).id = a.id := by unfold detachOrigin; split <;> rfl
@[simp] theorem detachOrigin_key : (a.detachOrigin r).key = a.key := by unfold detachOrigin; split <;> rfl
@[simp] theorem detachOrigin_state : (a.detachOrigin r).state = a.state := by
  unfold detachOrigin; split <;> rfl
@[simp] theorem detachOrigin_firstArrivedAt : (a.detachOrigin r).firstArrivedAt = a.firstArrivedAt := by
  unfold detachOrigin; split <;> rfl

theorem mem_attachOrigin {x : SourceRecordId} : x ∈ (a.attachOrigin r).origins ↔ x ∈ a.origins ∨ x = r := by
  unfold attachOrigin
  split
  · rename_i h
    constructor
    · exact .inl
    · rintro (hx | rfl)
      · exact hx
      · exact h
  · simp

theorem nodup_attachOrigin (h : a.origins.Nodup) : (a.attachOrigin r).origins.Nodup := by
  unfold attachOrigin
  split
  · exact h
  · rename_i hr
    rw [List.nodup_append]
    refine ⟨h, by simp, fun x hx y hy => ?_⟩
    rw [List.mem_singleton] at hy
    subst hy
    exact fun hxy => hr (hxy ▸ hx)

theorem nodup_detachOrigin (h : a.origins.Nodup) : (a.detachOrigin r).origins.Nodup := by
  unfold detachOrigin
  split
  · exact h.erase r
  · exact h

theorem mem_detachOrigin (h : a.origins.Nodup) {x : SourceRecordId} :
    x ∈ (a.detachOrigin r).origins ↔ x ∈ a.origins ∧ x ≠ r := by
  unfold detachOrigin
  split
  · rw [h.mem_erase_iff]; exact and_comm
  · rename_i hr
    exact ⟨fun hx => ⟨hx, fun e => hr (e ▸ hx)⟩, And.left⟩

theorem revision_le_attachOrigin : a.revision ≤ (a.attachOrigin r).revision := by
  unfold attachOrigin; split <;> simp

end Article
end Inoreader
