import Inoreader.Web.ProxyHealth

/-!
# Quarantine of an endpoint is single-flight

`Change` says what a step does to the endpoints and to the attempts of the requests; the invariant `Sound` counts the live
probes of every endpoint.
-/

namespace Inoreader
open Lib

namespace RouteHealth
variable {h h' : RouteHealth} {host : String} {attempted : List Bool} {now : Instant} {a : EndpointAttempt}

theorem state?_modify (h : RouteHealth) (host host' : String) (index i : Nat) (f : EndpointHealth → EndpointHealth) :
    (h.modify host index f).state? host' i =
      if host' = host ∧ i = index then (h.state? host' i).map f else h.state? host' i := by
  unfold state? modify
  simp only [Table.lookup_update]
  by_cases hhost : host' = host
  · rw [if_pos hhost]
    cases h.hosts.lookup host' with
    | none => simp
    | some states =>
      simp only [Option.map_some, Option.bind_some, List.getElem?_modify]
      by_cases hi : i = index
      · simp [hhost, hi]
      · rw [if_neg fun e => hi e.2]
        cases states[i]? with
        | none => rfl
        | some s => simpa using fun e : index = i => absurd e.symm hi
  · rw [if_neg hhost, if_neg fun e => hhost e.1]

theorem length_modify {index : Nat} {f : EndpointHealth → EndpointHealth} {n : Nat}
    (h : ∀ host states, h'.hosts.lookup host = some states → states.length = n) (host' : String) (states : List EndpointHealth)
    (hstates : (h'.modify host index f).hosts.lookup host' = some states) : states.length = n := by
  unfold modify at hstates
  rw [Table.lookup_update] at hstates
  split at hstates
  · obtain ⟨states', hlookup, rfl⟩ := Option.map_eq_some_iff.1 hstates
    rw [List.length_modify]
    exact h host' states' hlookup
  · exact h host' states hstates

theorem claim_some (hclaim : h.claim host attempted now = .ok (some a, h')) :
    ∃ s, h.state? host a.index = some s ∧ a = { host, index := a.index, probe := s.failedAt.isSome } ∧
      attempted[a.index]? = some false ∧ s.eligible h.quarantine now = true ∧
      h' = h.modify host a.index fun s =>
        { s with lastAttempt := some now, probing := if a.probe then true else s.probing } := by
  unfold claim at hclaim
  split at hclaim
  · cases hclaim
  · rename_i states hstates
    split_ifs at hclaim with hlength
    · simp only at hclaim
      split at hclaim
      · cases hclaim
      · rename_i s index hargmin
        cases hclaim
        have hmem := List.argmin_mem hargmin
        obtain ⟨hzip, hfilter⟩ := List.mem_filter.1 hmem
        rw [Bool.and_eq_true, beq_iff_eq] at hfilter
        refine ⟨s, ?_, rfl, hfilter.1, hfilter.2, rfl⟩
        unfold state?
        rw [hstates]
        exact List.mem_zipIdx_iff_getElem?.1 hzip

/-- A request that has tried every other endpoint gets the one that is left. -/
theorem claim_left {n index : Nat} {s : EndpointHealth}
    (hsizes : ∀ host states, h.hosts.lookup host = some states → states.length = n) (hstate : h.state? host index = some s)
    (heligible : s.eligible h.quarantine now = true) :
    ∃ a h', h.claim host ((List.replicate n true).set index false) now = .ok (some a, h') ∧ a.index = index := by
  obtain ⟨states, hstates, hindex⟩ := Option.bind_eq_some_iff.1 hstate
  have hlength := hsizes host states hstates
  have hlt : index < n := by
    rw [← hlength]
    exact (List.getElem?_eq_some_iff.1 hindex).1
  have hfalse : ((List.replicate n true).set index false)[index]? = some false := by simp [hlt]
  have hclaim : ∃ a h', h.claim host ((List.replicate n true).set index false) now = .ok (some a, h') := by
    unfold claim
    simp only [hstates, List.length_set, List.length_replicate, hlength, ne_eq, not_true, if_false]
    cases hargmin : (EndpointHealth.candidates states ((List.replicate n true).set index false) h.quarantine now).argmin
        (EndpointHealth.claimKey (!((List.replicate n true).set index false).any fun value => value)) with
    | none =>
      have hnil := List.argmin_eq_none.1 hargmin
      have hmem : (s, index) ∈ EndpointHealth.candidates states ((List.replicate n true).set index false) h.quarantine now :=
        List.mem_filter.2 ⟨List.mem_zipIdx_iff_getElem?.2 hindex, by simp [hfalse, heligible]⟩
      rw [hnil] at hmem
      cases hmem
    | some candidate => exact ⟨_, _, rfl⟩
  obtain ⟨a, h', hclaim⟩ := hclaim
  refine ⟨a, h', hclaim, ?_⟩
  obtain ⟨-, -, -, hattempted, -⟩ := claim_some hclaim
  by_contra hne
  rw [List.getElem?_set_ne (Ne.symm hne)] at hattempted
  have := List.mem_of_getElem? hattempted
  simp at this

end RouteHealth

/-! ## What a step does -/

/-- The health after `finish` of the attempt. -/
def EndpointAttempt.finishHealth (a : EndpointAttempt) (success : Bool) (now : Instant) (h : RouteHealth) : RouteHealth :=
  h.modify a.host a.index fun s =>
    { s with
      probing := if a.probe then false else s.probing
      healthy := success
      failedAt := if success then none else some now }

namespace ProxyWorld

/-- What a step does to the world. -/
inductive Change (w : ProxyWorld) : ProxyWorld → Prop
  | same : Change w w
  | started {r : Nat} (host : String) (hnew : w.requests.lookup r = none) :
    Change w { w with requests := w.requests.insert r { host, attempted := List.replicate w.endpoints false } }
  | moved {r : Nat} {q : ProxyRequest} {phase : ProxyPhase} (hrow : w.requests.lookup r = some q)
    (hattempt : ({ q with phase := phase } : ProxyRequest).attempt? = q.attempt?) : Change w (w.setPhase r q phase)
  | claimed {r : Nat} {q : ProxyRequest} {now : Instant} {a : EndpointAttempt} {health : RouteHealth}
    (hrow : w.requests.lookup r = some q) (hphase : q.phase = .looping)
    (hclaim : w.health.claim q.host q.attempted now = .ok (some a, health)) :
    Change w { w with
      health := health
      requests := w.requests.insert r { q with
        attempted := q.attempted.set a.index true, phase := .attempting a, claimed := a.index :: q.claimed } }
  | finished {r : Nat} {q : ProxyRequest} {a : EndpointAttempt} {success : Bool} {now : Instant} {phase : ProxyPhase}
    (hrow : w.requests.lookup r = some q) (hattempt : q.attempt? = some a)
    (hphase : ({ q with phase := phase } : ProxyRequest).attempt? = none) :
    Change w { w.setPhase r q phase with
      health := a.finishHealth success now w.health, recorded := ⟨a.host, a.index, success, now⟩ :: w.recorded }
  | dropped {r : Nat} {q : ProxyRequest} {a : EndpointAttempt} {phase : ProxyPhase} (hrow : w.requests.lookup r = some q)
    (hattempt : q.attempt? = some a) (hphase : ({ q with phase := phase } : ProxyRequest).attempt? = none) :
    Change w { w.setPhase r q phase with health := a.drop w.health }

variable {w w' : ProxyWorld} {r : Nat} {q : ProxyRequest}

theorem settle_change {a : EndpointAttempt} {success : Bool} {now : Instant} {phase failed : ProxyPhase}
    (hrow : w.requests.lookup r = some q) (hattempt : q.attempt? = some a)
    (hphase : ({ q with phase := phase } : ProxyRequest).attempt? = none)
    (hfailed : ({ q with phase := failed } : ProxyRequest).attempt? = none) :
    w.Change (w.settle r q a success now phase failed) := by
  unfold settle EndpointAttempt.settle EndpointAttempt.finish
  cases w.health.state? a.host a.index with
  | none => exact .dropped hrow hattempt hfailed
  | some s =>
    have hdrop : ∀ h, EndpointAttempt.drop { a with finished := true } h = h := by simp [EndpointAttempt.drop]
    simp only [hdrop]
    exact .finished hrow hattempt hphase

theorem dropped_change (hrow : w.requests.lookup r = some q) (now : Instant) : w.Change (w.dropped r q now) := by
  unfold dropped
  cases hphase : q.phase with
  | attempting a => exact .dropped hrow (by simp [ProxyRequest.attempt?, hphase]) rfl
  | streaming body =>
    simp only
    cases hattempt : body.attempt with
    | none => exact .moved hrow (by simp [ProxyRequest.attempt?, hphase, hattempt])
    | some a =>
      have howns : q.attempt? = some a := by simp [ProxyRequest.attempt?, hphase, hattempt]
      simp only
      split
      · exact settle_change hrow howns rfl rfl
      · exact .dropped hrow howns rfl
  | looping => exact .moved hrow (by simp [ProxyRequest.attempt?, hphase])
  | ended => exact .moved hrow (by simp [ProxyRequest.attempt?, hphase])

theorem step_change {l : ProxyLabel} (h : w.step l = some w') : w.Change w' := by
  cases l with
  | start r host =>
    simp only [step, Option.ite_none_right_eq_some] at h
    obtain ⟨hnew, h⟩ := h
    cases h
    exact .started host hnew
  | claim r now =>
    obtain ⟨q, hrow, h⟩ := Option.bind_eq_some_iff.1 h
    split at h
    · rename_i hphase
      split at h
      · cases h
        exact .claimed hrow hphase ‹_›
      · cases h
        exact .moved hrow (by simp [ProxyRequest.attempt?, hphase])
      · cases h
        exact .moved hrow (by simp [ProxyRequest.attempt?, hphase])
    · cases h
  | respond r success =>
    obtain ⟨q, hrow, h⟩ := Option.bind_eq_some_iff.1 h
    split at h
    · rename_i hphase
      cases h
      exact .moved hrow (by simp [ProxyRequest.attempt?, hphase])
    · cases h
  | fail r now =>
    obtain ⟨q, hrow, h⟩ := Option.bind_eq_some_iff.1 h
    split at h
    · rename_i hphase
      cases h
      exact settle_change hrow (by simp [ProxyRequest.attempt?, hphase]) rfl rfl
    · cases h
  | deadline r =>
    obtain ⟨q, hrow, h⟩ := Option.bind_eq_some_iff.1 h
    split at h
    · rename_i hphase
      cases h
      exact .dropped hrow (by simp [ProxyRequest.attempt?, hphase]) rfl
    · cases h
  | chunk r =>
    obtain ⟨q, hrow, h⟩ := Option.bind_eq_some_iff.1 h
    split at h
    · cases h
      exact .same
    · cases h
  | bodyEnd r success now =>
    obtain ⟨q, hrow, h⟩ := Option.bind_eq_some_iff.1 h
    split at h
    · rename_i body hphase
      split at h
      · cases h
        exact .same
      · split at h
        · rename_i hattempt
          cases h
          exact .moved hrow (by simp [ProxyRequest.attempt?, hphase, hattempt])
        · rename_i hattempt
          cases h
          exact settle_change hrow (by simp [ProxyRequest.attempt?, hphase, hattempt]) rfl rfl
    · cases h
  | drop r now =>
    obtain ⟨q, hrow, h⟩ := Option.bind_eq_some_iff.1 h
    split at h
    · cases h
    · cases h
      exact dropped_change hrow now

end ProxyWorld

/-! ## The invariant -/

/-- The request owns a probe of the endpoint. -/
def ProxyRequest.probes (q : ProxyRequest) (host : String) (index : Nat) : Bool :=
  q.attempt?.any fun a => a.probe && a.host == host && a.index == index

/-- The flag of the endpoint. -/
def RouteHealth.probing (h : RouteHealth) (host : String) (index : Nat) : Bool := (h.state? host index).any (·.probing)

/-- A request has tried what it has claimed, each endpoint once. -/
structure ProxyRequest.Sound (q : ProxyRequest) (endpoints : Nat) : Prop where
  length : q.attempted.length = endpoints
  nodup : q.claimed.Nodup
  claimed : ∀ i, i ∈ q.claimed ↔ q.attempted[i]? = some true
  unfinished : ∀ a ∈ q.attempt?, a.finished = false

namespace ProxyWorld

/-- The latest outcome that was recorded for an endpoint. -/
def lastOutcome (w : ProxyWorld) (host : String) (index : Nat) : Option ProxyOutcome :=
  w.recorded.find? fun o => o.host == host && o.index == index

/-- The live probes of an endpoint. -/
def probes (w : ProxyWorld) (host : String) (index : Nat) : Nat := w.requests.count fun _ q => q.probes host index

structure Sound (w : ProxyWorld) : Prop where
  sizes : ∀ host states, w.health.hosts.lookup host = some states → states.length = w.endpoints
  requests : ∀ r q, w.requests.lookup r = some q → q.Sound w.endpoints
  probes : ∀ host index, w.probes host index = if w.health.probing host index then 1 else 0
  records : ∀ host index s, w.health.state? host index = some s →
    s.failedAt = (w.lastOutcome host index).bind fun o => if o.success then none else some o.time

variable {w w' : ProxyWorld} {r : Nat} {q q' : ProxyRequest} {a : EndpointAttempt}

/-- A request that moves on with the same attempt. -/
theorem probes_moved (hrow : w.requests.lookup r = some q) (hattempt : q'.attempt? = q.attempt?) (host : String) (index : Nat) :
    Table.count (fun _ q => q.probes host index) (w.requests.insert r q') = w.probes host index := by
  have hcount := Table.count_insert_old (p := fun _ q => q.probes host index) (w := q') hrow
  have hsame : q'.probes host index = q.probes host index := by rw [ProxyRequest.probes, hattempt, ProxyRequest.probes]
  rw [hsame] at hcount
  exact Nat.add_right_cancel hcount

/-- A request gives up its attempt and with it the reservation of a probe. -/
theorem probes_released (hprobes : ∀ host index, w.probes host index = if w.health.probing host index then 1 else 0)
    {health : RouteHealth} (hrow : w.requests.lookup r = some q) (hattempt : q.attempt? = some a) (hnone : q'.attempt? = none)
    (hflag : ∀ host index, health.probing host index =
      if a.probe = true ∧ a.host = host ∧ a.index = index then false else w.health.probing host index)
    (host : String) (index : Nat) : Table.count (fun _ q => q.probes host index) (w.requests.insert r q') =
      if health.probing host index then 1 else 0 := by
  have hcount := Table.count_insert_old (p := fun _ q => q.probes host index) (w := q') hrow
  have hbefore := hprobes host index
  have hnew : q'.probes host index = false := by simp [ProxyRequest.probes, hnone]
  have hold : q.probes host index = true ↔ a.probe = true ∧ a.host = host ∧ a.index = index := by
    simp [ProxyRequest.probes, hattempt, and_assoc]
  unfold probes at hbefore
  rw [hnew, hbefore] at hcount
  rw [hflag]
  by_cases hmine : a.probe = true ∧ a.host = host ∧ a.index = index
  · rw [if_pos hmine]
    rw [if_pos (hold.2 hmine)] at hcount
    simp only [Bool.false_eq_true, if_false] at hcount ⊢
    split at hcount
    · omega
    · omega
  · rw [if_neg hmine]
    rw [if_neg fun h => hmine (hold.1 h)] at hcount
    simpa using hcount

theorem probing_modify (h : RouteHealth) (host : String) (index : Nat) (f : EndpointHealth → EndpointHealth) {host' : String}
    {i : Nat} (hf : ∀ s, (f s).probing = if a.probe then false else s.probing) (ha : a.host = host) (ha' : a.index = index) :
    (h.modify host index f).probing host' i =
      if a.probe = true ∧ a.host = host' ∧ a.index = i then false else h.probing host' i := by
  unfold RouteHealth.probing
  rw [RouteHealth.state?_modify, ha, ha']
  by_cases hpos : host' = host ∧ i = index
  · obtain ⟨rfl, rfl⟩ := hpos
    cases h.state? host' i with
    | none => simp
    | some s => cases hprobe : a.probe <;> simp [hf, hprobe]
  · rw [if_neg hpos, if_neg fun e => hpos ⟨e.2.1.symm, e.2.2.symm⟩]

theorem probing_drop (h : RouteHealth) (hfinished : a.finished = false) {host : String} {index : Nat} :
    (a.drop h).probing host index =
      if a.probe = true ∧ a.host = host ∧ a.index = index then false else h.probing host index := by
  unfold EndpointAttempt.drop
  cases hprobe : a.probe with
  | false => simp
  | true =>
    simp only [hfinished, Bool.not_false, Bool.and_self, if_true]
    rw [probing_modify (a := a) h a.host a.index _ (by simp [hprobe]) rfl rfl]
    simp only [hprobe]

theorem requests_insert {n : Nat} (h : ∀ r q, w.requests.lookup r = some q → q.Sound n) (hq : q'.Sound n) (r' : Nat)
    (q : ProxyRequest) (hrow : (w.requests.insert r q').lookup r' = some q) : q.Sound n := by
  rw [Table.lookup_insert_if] at hrow
  split at hrow
  · cases hrow
    exact hq
  · exact h r' q hrow

/-- A request with another phase and the same attempt, or none. -/
theorem sound_phase {n : Nat} {phase : ProxyPhase} (h : q.Sound n)
    (hattempt : ∀ a ∈ ({ q with phase := phase } : ProxyRequest).attempt?, a ∈ q.attempt?) :
    ProxyRequest.Sound { q with phase := phase } n :=
  ⟨h.length, h.nodup, h.claimed, fun a ha => h.unfinished a (hattempt a ha)⟩

theorem sound_claimed {n : Nat} (h : q.Sound n) (hfree : q.attempted[a.index]? = some false) (hfinished : a.finished = false) :
    ProxyRequest.Sound { q with
      attempted := q.attempted.set a.index true, phase := .attempting a, claimed := a.index :: q.claimed } n := by
  have hlt : a.index < q.attempted.length := (List.getElem?_eq_some_iff.1 hfree).1
  refine ⟨by simpa using h.length, ?_, fun i => ?_, ?_⟩
  · refine List.nodup_cons.2 ⟨fun hmem => ?_, h.nodup⟩
    rw [h.claimed, hfree] at hmem
    cases hmem
  · rw [List.mem_cons, h.claimed]
    by_cases hi : i = a.index
    · simp [hi, hlt]
    · rw [List.getElem?_set_ne (Ne.symm hi)]
      simp [hi]
  · intro a' ha'
    cases ha'
    exact hfinished

/-- A change that records nothing keeps the time of the last failure. -/
theorem records_kept {health : RouteHealth} (hsound : w.Sound) {host : String} {index : Nat} {s : EndpointHealth}
    (hs : health.state? host index = some s) (hstate : ∀ host index s, health.state? host index = some s →
      ∃ s₀, w.health.state? host index = some s₀ ∧ s.failedAt = s₀.failedAt) :
    s.failedAt = (w.lastOutcome host index).bind fun o => if o.success then none else some o.time := by
  obtain ⟨s₀, hs₀, hfailed⟩ := hstate host index s hs
  rw [hfailed]
  exact hsound.records host index s₀ hs₀

theorem failedAt_modify {h : RouteHealth} {host host' : String} {index i : Nat} {f : EndpointHealth → EndpointHealth}
    {s : EndpointHealth} (hs : (h.modify host index f).state? host' i = some s) (hf : ∀ s, (f s).failedAt = s.failedAt) :
    ∃ s₀, h.state? host' i = some s₀ ∧ s.failedAt = s₀.failedAt := by
  rw [RouteHealth.state?_modify] at hs
  split at hs
  · obtain ⟨s₀, hs₀, rfl⟩ := Option.map_eq_some_iff.1 hs
    exact ⟨s₀, hs₀, hf s₀⟩
  · exact ⟨s, hs, rfl⟩

theorem Sound.claimed {now : Instant} {health : RouteHealth} (hsound : w.Sound) (hrow : w.requests.lookup r = some q)
    (hphase : q.phase = .looping) (hclaim : w.health.claim q.host q.attempted now = .ok (some a, health)) :
    Sound { w with
      health := health
      requests := w.requests.insert r { q with
        attempted := q.attempted.set a.index true, phase := .attempting a, claimed := a.index :: q.claimed } } := by
  obtain ⟨s, hs, ha, hfree, heligible, rfl⟩ := RouteHealth.claim_some hclaim
  have hfinished : a.finished = false := by rw [ha]
  have hhost : a.host = q.host := by rw [ha]
  have hprobing : s.probing = false := by simpa using (Bool.and_eq_true_iff.1 heligible).1
  refine ⟨RouteHealth.length_modify hsound.sizes, requests_insert hsound.requests
    (sound_claimed (hsound.requests r q hrow) hfree hfinished), fun host index => ?_, fun host index s hs =>
    records_kept hsound hs fun _ _ _ hs' => failedAt_modify hs' fun _ => rfl⟩
  have hcount := Table.count_insert_old (p := fun _ q => q.probes host index) (w := { q with
    attempted := q.attempted.set a.index true, phase := .attempting a, claimed := a.index :: q.claimed }) hrow
  have hold : q.probes host index = false := by simp [ProxyRequest.probes, ProxyRequest.attempt?, hphase]
  have hbefore := hsound.probes host index
  unfold ProxyWorld.probes at hbefore ⊢
  rw [hold, hbefore] at hcount
  simp only [Bool.false_eq_true, if_false, Nat.add_zero] at hcount
  rw [hcount]
  simp only [ProxyRequest.probes, ProxyRequest.attempt?, Option.any_some, RouteHealth.probing, RouteHealth.state?_modify, hhost]
  by_cases hpos : host = q.host ∧ index = a.index
  · obtain ⟨rfl, rfl⟩ := hpos
    cases hprobe : a.probe <;> simp [hs, hprobing]
  · have hne : (q.host == host && a.index == index) = false := by
      simpa using fun e : q.host = host => fun e' : a.index = index => hpos ⟨e.symm, e'.symm⟩
    rw [if_neg hpos, Bool.and_assoc, hne, Bool.and_false]
    rfl

theorem Sound.finished {success : Bool} {now : Instant} {phase : ProxyPhase} (hsound : w.Sound)
    (hrow : w.requests.lookup r = some q) (hattempt : q.attempt? = some a)
    (hphase : ({ q with phase := phase } : ProxyRequest).attempt? = none) :
    Sound { w.setPhase r q phase with
      health := a.finishHealth success now w.health, recorded := ⟨a.host, a.index, success, now⟩ :: w.recorded } := by
  refine ⟨RouteHealth.length_modify hsound.sizes, requests_insert hsound.requests
    (sound_phase (hsound.requests r q hrow) (by simp [hphase])), ?_, ?_⟩
  · exact probes_released hsound.probes hrow hattempt hphase fun host index =>
      probing_modify w.health a.host a.index _ (fun _ => rfl) rfl rfl
  · intro host index s hs
    have hs : (w.health.modify a.host a.index _).state? host index = some s := hs
    rw [RouteHealth.state?_modify] at hs
    by_cases hpos : host = a.host ∧ index = a.index
    · obtain ⟨rfl, rfl⟩ := hpos
      rw [if_pos ⟨rfl, rfl⟩] at hs
      obtain ⟨s₀, -, rfl⟩ := Option.map_eq_some_iff.1 hs
      simp [lastOutcome]
    · rw [if_neg hpos] at hs
      have hne : (a.host == host && a.index == index) = false := by
        simpa using fun e : a.host = host => fun e' : a.index = index => hpos ⟨e.symm, e'.symm⟩
      rw [hsound.records host index s hs]
      simp [lastOutcome, hne]

theorem Sound.dropped {phase : ProxyPhase} (hsound : w.Sound) (hrow : w.requests.lookup r = some q)
    (hattempt : q.attempt? = some a) (hphase : ({ q with phase := phase } : ProxyRequest).attempt? = none) :
    Sound { w.setPhase r q phase with health := a.drop w.health } := by
  have hfinished := (hsound.requests r q hrow).unfinished a hattempt
  refine ⟨?_, requests_insert hsound.requests (sound_phase (hsound.requests r q hrow) (by simp [hphase])), ?_, ?_⟩
  · unfold EndpointAttempt.drop
    split
    · exact RouteHealth.length_modify hsound.sizes
    · exact hsound.sizes
  · exact probes_released hsound.probes hrow hattempt hphase fun host index => probing_drop w.health hfinished
  · intro host index s hs
    refine records_kept hsound hs fun host' i s' hs' => ?_
    unfold EndpointAttempt.drop at hs'
    split at hs'
    · exact failedAt_modify hs' fun _ => rfl
    · exact ⟨s', hs', rfl⟩

theorem Change.sound (h : w.Change w') (hsound : w.Sound) : w'.Sound := by
  cases h with
  | same => exact hsound
  | started host hnew =>
    refine ⟨hsound.sizes, requests_insert hsound.requests ⟨by simp, by simp, fun i => ?_, by simp [ProxyRequest.attempt?]⟩,
      fun host' index => ?_, hsound.records⟩
    · simp [List.getElem?_replicate]
    · exact (Table.count_insert_new hnew).trans (hsound.probes host' index)
  | moved hrow hattempt =>
    refine ⟨hsound.sizes, requests_insert hsound.requests (sound_phase (hsound.requests _ _ hrow) fun a ha => hattempt ▸ ha),
      fun host index => ?_, hsound.records⟩
    exact (probes_moved hrow hattempt host index).trans (hsound.probes host index)
  | claimed hrow hphase hclaim => exact hsound.claimed hrow hphase hclaim
  | finished hrow hattempt hphase => exact hsound.finished hrow hattempt hphase
  | dropped hrow hattempt hphase => exact hsound.dropped hrow hattempt hphase

/-! ## Runs -/

/-- A route before its first request. -/
def initial (hosts : List String) (endpoints quarantine : Nat) : ProxyWorld where
  endpoints := endpoints
  health := .new hosts endpoints quarantine

theorem new_lookup {hosts : List String} {endpoints quarantine : Nat} {host : String} {states : List EndpointHealth}
    (h : (RouteHealth.new hosts endpoints quarantine).hosts.lookup host = some states) :
    states = List.replicate endpoints {} := by
  unfold RouteHealth.new at h
  simp only [Table.lookup_foldl_insert (fun host => host), Table.lookup_empty, Option.or_none, Option.map_eq_some_iff] at h
  obtain ⟨-, -, rfl⟩ := h
  rfl

theorem new_state {hosts : List String} {endpoints quarantine : Nat} {host : String} {index : Nat} {s : EndpointHealth}
    (h : (RouteHealth.new hosts endpoints quarantine).state? host index = some s) : s = {} := by
  obtain ⟨states, hstates, hs⟩ := Option.bind_eq_some_iff.1 h
  rw [new_lookup hstates, List.getElem?_replicate] at hs
  split at hs
  · cases hs
    rfl
  · cases hs

theorem sound_initial (hosts : List String) (endpoints quarantine : Nat) : (initial hosts endpoints quarantine).Sound where
  sizes := by
    intro host states hstates
    rw [new_lookup hstates]
    exact List.length_replicate
  requests := by
    intro r q hrow
    cases hrow
  probes := by
    intro host index
    have hflag : (initial hosts endpoints quarantine).health.probing host index = false := by
      unfold RouteHealth.probing
      cases hs : (initial hosts endpoints quarantine).health.state? host index with
      | none => rfl
      | some s => rw [new_state hs]; rfl
    rw [hflag]
    rfl
  records := by
    intro host index s hs
    rw [new_state hs]
    rfl

theorem Change.config (h : w.Change w') : w'.endpoints = w.endpoints ∧ w'.health.quarantine = w.health.quarantine := by
  cases h with
  | claimed hrow hphase hclaim =>
    obtain ⟨-, -, -, -, -, rfl⟩ := RouteHealth.claim_some hclaim
    exact ⟨rfl, rfl⟩
  | dropped hrow hattempt hphase =>
    refine ⟨rfl, ?_⟩
    unfold EndpointAttempt.drop
    split <;> rfl
  | _ => exact ⟨rfl, rfl⟩

theorem run_sound {hosts : List String} {endpoints quarantine : Nat} {as : List ProxyLabel}
    (hrun : run step (initial hosts endpoints quarantine) as = some w) :
    w.Sound ∧ w.endpoints = endpoints ∧ w.health.quarantine = quarantine := by
  refine run_inv' (fun w => w.Sound ∧ w.endpoints = endpoints ∧ w.health.quarantine = quarantine) ?_
    ⟨sound_initial hosts endpoints quarantine, rfl, rfl⟩ hrun
  rintro w l w' ⟨hsound, hendpoints, hquarantine⟩ hstep
  have hchange := step_change hstep
  exact ⟨hchange.sound hsound, hchange.config.1.trans hendpoints, hchange.config.2.trans hquarantine⟩

/-- A request claims at most as many times as there are endpoints. -/
theorem length_claimed_le {n : Nat} (h : q.Sound n) : q.claimed.length ≤ n := by
  have hsubset : q.claimed ⊆ List.range n := by
    intro i hi
    rw [h.claimed] at hi
    have hlt := (List.getElem?_eq_some_iff.1 hi).1
    rw [h.length] at hlt
    exact List.mem_range.2 hlt
  calc q.claimed.length ≤ (List.range n).length := (List.subperm_of_subset h.nodup hsubset).length_le
    _ = n := List.length_range

/-- A claim that hands out an attempt is for an endpoint whose quarantine is over. -/
theorem claim_quarantine {now : Instant} (hsound : w.Sound) (hstep : w.step (.claim r now) = some w')
    (hrow : w'.requests.lookup r = some q) (hphase : q.phase = .attempting a) {o : ProxyOutcome}
    (hlast : w.lastOutcome a.host a.index = some o) (hfailed : o.success = false) : w.health.quarantine ≤ now - o.time := by
  obtain ⟨q₀, hrow₀, hstep⟩ := Option.bind_eq_some_iff.1 hstep
  have hended : ∀ w', some (w.setPhase r q₀ .ended) = some w' → w'.requests.lookup r ≠ some q := by
    intro w' hw' hrow
    cases hw'
    rw [setPhase, Table.lookup_insert_if, if_pos rfl] at hrow
    cases hrow
    cases hphase
  split at hstep
  · split at hstep
    · rename_i a' health hclaim
      cases hstep
      rw [Table.lookup_insert_if, if_pos rfl] at hrow
      cases hrow
      cases hphase
      obtain ⟨s, hs, ha, -, heligible, -⟩ := RouteHealth.claim_some hclaim
      have hhost : a.host = q₀.host := by rw [ha]
      rw [hhost] at hlast
      have hfailedAt := hsound.records q₀.host a.index s hs
      rw [hlast, Option.bind_some, hfailed] at hfailedAt
      have hall := (Bool.and_eq_true_iff.1 heligible).2
      rw [hfailedAt] at hall
      simpa using hall
    · exact absurd hrow (hended w' hstep)
    · exact absurd hrow (hended w' hstep)
  · cases hstep

/-- In every run: the flag of an endpoint is set just when exactly one live attempt probes it; a claim hands out no endpoint
in quarantine; a request claims every endpoint at most once; and when no attempt is live, an endpoint whose quarantine is over
can be claimed. -/
theorem proxy_quarantine_recoverable (hosts : List String) (endpoints quarantine : Nat) {w : ProxyWorld} {as : List ProxyLabel}
    (hrun : run step (initial hosts endpoints quarantine) as = some w) :
    (∀ host index s, w.health.state? host index = some s →
      w.probes host index ≤ 1 ∧ (s.probing = true ↔ w.probes host index = 1)) ∧
    (∀ r q a, w.requests.lookup r = some q → q.attempt? = some a → a.finished = false) ∧
    (∀ r now w' q a, w.step (.claim r now) = some w' → w'.requests.lookup r = some q → q.phase = .attempting a →
      ∀ o, w.lastOutcome a.host a.index = some o → o.success = false → quarantine ≤ now - o.time) ∧
    (∀ r q, w.requests.lookup r = some q → q.claimed.Nodup ∧ q.claimed.length ≤ endpoints ∧
      (q.claimed.length = endpoints → ∀ now a h, w.health.claim q.host q.attempted now ≠ .ok (some a, h))) ∧
    ((∀ r q, w.requests.lookup r = some q → q.attempt? = none) → ∀ host index s now, w.health.state? host index = some s →
      s.failedAt.all (fun t => quarantine ≤ now - t) = true →
      ∃ a h, w.health.claim host ((List.replicate endpoints true).set index false) now = .ok (some a, h) ∧ a.index = index) := by
  obtain ⟨hsound, rfl, rfl⟩ := run_sound hrun
  have hflag : ∀ host index s, w.health.state? host index = some s →
      w.probes host index = if s.probing then 1 else 0 := by
    intro host index s hs
    rw [hsound.probes, RouteHealth.probing, hs]
    rfl
  refine ⟨fun host index s hs => ?_, fun r q a hrow ha => (hsound.requests r q hrow).unfinished a ha,
    fun r now w' q a hstep hrow hphase o hlast hfailed => claim_quarantine hsound hstep hrow hphase hlast hfailed, ?_, ?_⟩
  · rw [hflag host index s hs]
    cases s.probing <;> simp
  · intro r q hrow
    have hq := hsound.requests r q hrow
    refine ⟨hq.nodup, length_claimed_le hq, fun hlength now a h hclaim => ?_⟩
    obtain ⟨s, -, ha, hfree, -⟩ := RouteHealth.claim_some hclaim
    have hlonger := length_claimed_le (sound_claimed hq hfree (by rw [ha]))
    simp only [List.length_cons, hlength] at hlonger
    omega
  · intro hidle host index s now hs helapsed
    have hnone : w.probes host index = 0 := by
      unfold probes Table.count
      refine List.countP_eq_zero.2 fun e he => ?_
      have hrow : w.requests.lookup e.1 = some e.2 := AList.mem_lookup_iff.2 he
      simp [ProxyRequest.probes, hidle e.1 e.2 hrow]
    have hprobing : s.probing = false := by
      rw [hflag host index s hs] at hnone
      cases hp : s.probing with
      | false => rfl
      | true =>
        rw [hp] at hnone
        cases hnone
    exact RouteHealth.claim_left hsound.sizes hs (by simp [EndpointHealth.eligible, hprobing, helapsed])

/-- The endpoint fails at 5 and is probed at 20. -/
def probedRun : List ProxyLabel :=
  [.start 1 "example.org", .claim 1 0, .fail 1 5, .claim 1 6, .start 2 "example.org", .claim 2 20]

theorem proxy_quarantine_recoverable_probe :
    ∃ w, run step (initial ["example.org"] 1 10) probedRun = some w ∧ w.probes "example.org" 0 = 1 := by
  have hprobing : ((run step (initial ["example.org"] 1 10) probedRun).bind fun w =>
      (w.health.state? "example.org" 0).map (·.probing)) = some true := by decide +kernel
  obtain ⟨w, hrun, hstate⟩ := Option.bind_eq_some_iff.1 hprobing
  obtain ⟨s, hs, hflag⟩ := Option.map_eq_some_iff.1 hstate
  obtain ⟨hprobes, -⟩ := proxy_quarantine_recoverable ["example.org"] 1 10 hrun
  exact ⟨w, hrun, (hprobes "example.org" 0 s hs).2.1 hflag⟩

end ProxyWorld
end Inoreader
