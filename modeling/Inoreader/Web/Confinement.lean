import Inoreader.Web.HttpClient

/-!
# Every outbound request stays inside the policy

`openRound_spec` says what one round can do; the loop is an induction over the redirects and the cache retry that are left.
-/

namespace Inoreader

/-- The request has no header and no body that is not to leave its origin. -/
def PreparedRequest.Clean (request : PreparedRequest) : Prop :=
  (∀ h ∈ request.headers, h.isSecret = false) ∧ request.body = none

/-- Only `GET` and `HEAD` may be sent again. -/
def PreparedRequest.Repeatable (request : PreparedRequest) : Prop := request.method = .get ∨ request.method = .head

namespace Hop

/-- Every call of the round is for its URL, which the policy allows, with an address of its own answer, and all addresses of
that answer are public. -/
def Allowed (policy : OutboundPolicy) (hop : Hop) : Prop :=
  ∀ call ∈ hop.calls, call.request = hop.request ∧ policy.validateUrl hop.request.url = .ok () ∧
    call.authorization.url = hop.request.url ∧ ∃ answer, hop.answer = some answer ∧ call.authorization.address ∈ answer ∧
      ∀ address ∈ answer, validatePublicAddress address = .ok ()

/-- The URL that the round was redirected to. -/
def redirect? (hop : Hop) : Option WebUrl :=
  match hop.exit with
  | .redirected next => some next
  | _ => none

end Hop

/-! ## Headers of a redirect -/

theorem mem_removeHeader {headers : List Header} {name : String} {h : Header} :
    h ∈ removeHeader headers name ↔ h ∈ headers ∧ h.name ≠ name := by
  simp [removeHeader]

theorem mem_foldl_removeHeader {names : List String} {headers : List Header} {h : Header} :
    h ∈ names.foldl removeHeader headers ↔ h ∈ headers ∧ h.name ∉ names := by
  induction names generalizing headers with
  | nil => simp
  | cons name names ih =>
    rw [List.foldl_cons, ih, mem_removeHeader, List.mem_cons, not_or, and_assoc]

namespace PreparedRequest
variable {request : PreparedRequest} {next : WebUrl}

theorem clean_withoutValidators (h : request.Clean) : request.withoutValidators.Clean :=
  ⟨fun header hheader => h.1 header (mem_removeHeader.1 (mem_removeHeader.1 hheader).1).1, h.2⟩

/-- A redirect to another origin carries no secret. -/
theorem clean_forRedirect_cross (h : request.url.origin ≠ next.origin) : (request.forRedirect next).Clean := by
  refine ⟨fun header hheader => ?_, by simp [forRedirect, h]⟩
  simp only [forRedirect, if_pos h] at hheader
  obtain ⟨hheader, -⟩ := mem_removeHeader.1 hheader
  obtain ⟨hmem, hname⟩ := mem_foldl_removeHeader.1 hheader
  by_contra hsecret
  have hsecret : header.isSecret = true := by simpa using hsecret
  exact hname (List.mem_map.2 ⟨header, List.mem_filter.2 ⟨hmem, hsecret⟩, rfl⟩)

theorem clean_forRedirect (h : request.Clean) : (request.forRedirect next).Clean := by
  by_cases horigin : request.url.origin ≠ next.origin
  · exact clean_forRedirect_cross horigin
  · refine ⟨fun header hheader => ?_, by simp [forRedirect, horigin, h.2]⟩
    simp only [forRedirect, if_neg horigin] at hheader
    exact h.1 header (mem_removeHeader.1 hheader).1

end PreparedRequest

/-! ## One round -/

section
variable {policy : OutboundPolicy} {net : Network} {hops : List Hop}

theorem validateAddresses_ok {addresses : List IpAddr} (h : OutboundPolicy.validateAddresses addresses = .ok ()) :
    ∀ address ∈ addresses, validatePublicAddress address = .ok () := by
  induction addresses with
  | nil => simp
  | cons address rest ih =>
    unfold OutboundPolicy.validateAddresses at h
    split at h
    · cases h
    · rename_i hfirst
      exact List.forall_mem_cons.2 ⟨hfirst, ih h⟩

theorem authorizeResolution_ok {url : WebUrl} {addresses : List IpAddr} {target : ResolvedTarget}
    (h : policy.authorizeResolution url addresses = .ok target) :
    target = ⟨url, addresses⟩ ∧ ∀ address ∈ addresses, validatePublicAddress address = .ok () := by
  unfold OutboundPolicy.authorizeResolution at h
  split at h
  · cases h
  · split at h
    · cases h
    · split at h
      · cases h
      · rename_i hpublic
        cases h
        exact ⟨rfl, validateAddresses_ok hpublic⟩

theorem connection_ok {target : ResolvedTarget} {address : IpAddr} {authorization : ConnectionAuthorization}
    (h : target.connection address = .ok authorization) :
    authorization = ⟨target.url, address⟩ ∧ address ∈ target.addresses := by
  unfold ResolvedTarget.connection at h
  split at h
  · cases h
  · split at h
    · rename_i hmem
      cases h
      exact ⟨rfl, hmem⟩
    · cases h

/-- The calls of the address loop: each with an address of the target; a method that may not be repeated gets one call; and
the cache retry is for a `GET` without a body. -/
theorem tryAddresses_spec {request : PreparedRequest} {target : ResolvedTarget} {recovered : Bool} {addresses : List IpAddr}
    {calls calls' : List TransportCall} {last : Option String} {outcome : AddressOutcome}
    (h : tryAddresses net hops request target recovered addresses calls last = (calls', outcome)) :
    (∀ call ∈ calls', call ∈ calls ∨ (call.request = request ∧ call.authorization.url = target.url ∧
      call.authorization.address ∈ target.addresses)) ∧
    (¬ request.Repeatable → calls'.length ≤ calls.length + 1) ∧
    (outcome = .cacheRetry → recovered = false ∧ request.method = .get ∧ request.body = none) := by
  induction addresses generalizing calls last with
  | nil =>
    cases h
    exact ⟨fun call hcall => .inl hcall, fun _ => Nat.le_succ _, nofun⟩
  | cons address rest ih =>
    unfold tryAddresses at h
    split at h
    · cases h
      exact ⟨fun call hcall => .inl hcall, fun _ => Nat.le_succ _, nofun⟩
    · rename_i authorization hconnection
      obtain ⟨rfl, hmem⟩ := connection_ok hconnection
      -- what holds of the new call
      have hnew : ∀ call ∈ calls ++ [⟨request, ⟨target.url, address⟩⟩], call ∈ calls ∨ (call.request = request ∧
          call.authorization.url = target.url ∧ call.authorization.address ∈ target.addresses) := by
        intro call hcall
        rcases List.mem_append.1 hcall with hcall | hcall
        · exact .inl hcall
        · rw [List.mem_singleton.1 hcall]
          exact .inr ⟨rfl, rfl, hmem⟩
      have hlength : (calls ++ [(⟨request, ⟨target.url, address⟩⟩ : TransportCall)]).length ≤ calls.length + 1 := by simp
      split at h
      · cases h
        exact ⟨fun call hcall => .inl hcall, fun _ => Nat.le_succ _, nofun⟩
      · split at h
        · cases h
          exact ⟨hnew, fun _ => hlength, nofun⟩
        · split at h
          · rename_i hretry
            cases h
            refine ⟨hnew, fun _ => hlength, fun _ => ⟨hretry.2.1, ?_⟩⟩
            have hcan := hretry.2.2
            simp only [canRetryCacheValidation, Bool.and_eq_true, beq_iff_eq, Option.isNone_iff_eq_none] at hcan
            exact hcan.1.1
          · split at h
            · cases h
              exact ⟨hnew, fun _ => hlength, nofun⟩
            · rename_i hmethod
              obtain ⟨hcalls, -, hcache⟩ := ih h
              refine ⟨fun call hcall => ?_, fun hnot => ?_, hcache⟩
              · rcases hcalls call hcall with hcall | hcall
                · exact hnew call hcall
                · exact .inr hcall
              · refine absurd ⟨fun e => hnot (.inl e), fun e => hnot (.inr e)⟩ hmethod

/-- How a round goes on to the next one. -/
inductive Continues (s : OpenState) (hop : Hop) : OpenState → Prop
  | cacheRetry (hexit : hop.exit = .cacheRetry) (hfirst : s.recoveredCacheValidation = false)
    (hmethod : s.request.method = .get) (hbody : s.request.body = none) :
    Continues s hop { s with request := s.request.withoutValidators, recoveredCacheValidation := true }
  | redirect {next : WebUrl} (hexit : hop.exit = .redirected next) (hhops : s.redirects.hops < s.redirects.maxHops)
    (hnew : next.text ∉ s.redirects.seen) :
    Continues s hop { s with
      request := s.request.forRedirect next
      redirects := { s.redirects with seen := next.text :: s.redirects.seen, hops := s.redirects.hops + 1 } }

/-- What a round has done: the round `hop`, and how it goes on. -/
structure RoundSpec (policy : OutboundPolicy) (s : OpenState) (hop : Hop) (outcome : RoundOutcome) : Prop where
  request : hop.request = s.request
  allowed : hop.Allowed policy
  once : ¬ s.request.Repeatable → hop.calls.length ≤ 1
  done : ∀ result, outcome = .done result → hop.exit = .returned
  again : ∀ s', outcome = .again s' → Continues s hop s'

variable {s : OpenState}

/-- A round that ends. -/
theorem RoundSpec.returned {hop : Hop} {result : Except OutboundError TransportResponse} (hrequest : hop.request = s.request)
    (hallowed : hop.Allowed policy) (honce : ¬ s.request.Repeatable → hop.calls.length ≤ 1) (hexit : hop.exit = .returned) :
    RoundSpec policy s hop (.done result) :=
  ⟨hrequest, hallowed, honce, fun _ _ => hexit, nofun⟩

theorem follow_ok {join : WebUrl → String → Option WebUrl} {chain chain' : RedirectChain} {current next : WebUrl}
    {location : String} (h : chain.follow join current location = .ok (next, chain')) :
    chain.hops < chain.maxHops ∧ next.text ∉ chain.seen ∧
      chain' = { chain with seen := next.text :: chain.seen, hops := chain.hops + 1 } := by
  unfold RedirectChain.follow at h
  split at h
  · cases h
  · rename_i hhops
    split at h
    · cases h
    · split at h
      · cases h
      · rename_i hnew
        cases h
        exact ⟨Nat.not_le.1 hhops, hnew, rfl⟩

theorem handleResponse_spec {hop : Hop} (response : TransportResponse) (authorization : ConnectionAuthorization)
    (hrequest : hop.request = s.request) (hallowed : hop.Allowed policy)
    (honce : ¬ s.request.Repeatable → hop.calls.length ≤ 1) (hexit : hop.exit = .returned) :
    RoundSpec policy s (handleResponse policy net s hop response authorization).1
      (handleResponse policy net s hop response authorization).2 := by
  unfold handleResponse
  split
  · exact .returned hrequest hallowed honce hexit
  · split
    · split
      · exact .returned hrequest hallowed honce hexit
      · split
        · exact .returned hrequest hallowed honce hexit
        · rename_i hfollow
          split
          · exact .returned hrequest hallowed honce hexit
          · obtain ⟨hhops, hnew, rfl⟩ := follow_ok hfollow
            refine ⟨hrequest, hallowed, honce, nofun, fun s' hs' => ?_⟩
            cases hs'
            exact .redirect rfl hhops hnew
    · exact .returned hrequest hallowed honce hexit

theorem openRound_spec (s : OpenState) :
    RoundSpec policy s (openRound policy net hops s).1 (openRound policy net hops s).2 := by
  have hnone : ∀ answer, Hop.Allowed policy { request := s.request, answer := answer } := fun _ _ hcall => nomatch hcall
  unfold openRound
  split
  · exact .returned rfl (hnone _) (fun _ => Nat.zero_le _) rfl
  · rename_i hvalid
    split
    · exact .returned rfl (hnone _) (fun _ => Nat.zero_le _) rfl
    · exact .returned rfl (hnone _) (fun _ => Nat.zero_le _) rfl
    · split
      · exact .returned rfl (hnone _) (fun _ => Nat.zero_le _) rfl
      · split
        · exact .returned rfl (hnone _) (fun _ => Nat.zero_le _) rfl
        · exact .returned rfl (hnone _) (fun _ => Nat.zero_le _) rfl
        · rename_i answer _
          split
          · exact .returned rfl (hnone _) (fun _ => Nat.zero_le _) rfl
          · rename_i hauthorized
            obtain ⟨rfl, hpublic⟩ := authorizeResolution_ok hauthorized
            -- the calls of the address loop
            have hspec : ∀ {calls outcome}, tryAddresses net hops s.request ⟨s.request.url, answer⟩
                s.recoveredCacheValidation answer [] none = (calls, outcome) →
                (∀ exit, Hop.Allowed policy ⟨s.request, some answer, calls, exit⟩) ∧
                (¬ s.request.Repeatable → calls.length ≤ 1) ∧ (outcome = .cacheRetry →
                  s.recoveredCacheValidation = false ∧ s.request.method = .get ∧ s.request.body = none) := by
              intro calls outcome htry
              obtain ⟨hcalls, honce, hcache⟩ := tryAddresses_spec htry
              refine ⟨fun exit call hcall => ?_, fun hnot => by simpa using honce hnot, hcache⟩
              rcases hcalls call hcall with hcall | ⟨hrequest, hurl, haddress⟩
              · cases hcall
              · exact ⟨hrequest, hvalid, hurl, answer, rfl, haddress, hpublic⟩
            split
            · rename_i htry
              obtain ⟨hallowed, honce, -⟩ := hspec htry
              exact .returned rfl (hallowed _) honce rfl
            · rename_i htry
              obtain ⟨hallowed, honce, hcache⟩ := hspec htry
              obtain ⟨hfirst, hmethod, hbody⟩ := hcache rfl
              refine ⟨rfl, hallowed _, honce, nofun, fun s' hs' => ?_⟩
              cases hs'
              exact .cacheRetry rfl hfirst hmethod hbody
            · rename_i htry
              obtain ⟨hallowed, honce, -⟩ := hspec htry
              exact .returned rfl (hallowed _) honce rfl
            · rename_i response authorization htry
              obtain ⟨hallowed, honce, -⟩ := hspec htry
              exact handleResponse_spec response authorization rfl (hallowed _) honce rfl

/-! ## The loop -/

/-- The rounds that a loop may have left: redirects, the cache retry and the last one. -/
def OpenState.left (s : OpenState) : Nat :=
  (s.redirects.maxHops - s.redirects.hops) + (if s.recoveredCacheValidation then 0 else 1) + 1

/-- What holds of the rounds from the state `s` on. -/
structure Confined (policy : OutboundPolicy) (s : OpenState) (rest : List Hop) : Prop where
  allowed : ∀ hop ∈ rest, hop.Allowed policy
  method : ∀ hop ∈ rest, hop.request.method = s.request.method
  once : ∀ hop ∈ rest, ¬ hop.request.Repeatable → hop.calls.length ≤ 1
  redirects : (rest.filterMap Hop.redirect?).length ≤ s.redirects.maxHops - s.redirects.hops
  visited : (rest.filterMap fun hop => hop.redirect?.map (·.text)).Nodup ∧
    ∀ text ∈ rest.filterMap fun hop => hop.redirect?.map (·.text), text ∉ s.redirects.seen
  retries : rest.countP (·.exit = .cacheRetry) ≤ if s.recoveredCacheValidation then 0 else 1
  retry : ∀ hop ∈ rest, hop.exit = .cacheRetry → hop.request.method = .get ∧ hop.request.body = none
  clean : s.request.Clean → ∀ hop ∈ rest, hop.request.Clean
  home : ∀ home, (s.request.url.origin ≠ home → s.request.Clean) → ∀ before hop after, rest = before ++ hop :: after →
    (∃ earlier ∈ before ++ [hop], earlier.request.url.origin ≠ home) → hop.request.Clean

variable {hop : Hop} {s' : OpenState}

namespace Continues

theorem left_lt (h : Continues s hop s') : s'.left < s.left := by
  cases h with
  | cacheRetry hexit hfirst hmethod hbody => simp [OpenState.left, hfirst]
  | redirect hexit hhops hnew =>
    simp only [OpenState.left]
    omega

theorem method (h : Continues s hop s') : s'.request.method = s.request.method := by
  cases h <;> rfl

theorem clean (h : Continues s hop s') (hclean : s.request.Clean) : s'.request.Clean := by
  cases h with
  | cacheRetry => exact PreparedRequest.clean_withoutValidators hclean
  | redirect => exact PreparedRequest.clean_forRedirect hclean

/-- Away from home the request stays clean, and it leaves home clean. -/
theorem home (h : Continues s hop s') {home : WebOrigin} (hclean : s.request.url.origin ≠ home → s.request.Clean)
    (haway : s'.request.url.origin ≠ home) : s'.request.Clean := by
  cases h with
  | cacheRetry => exact PreparedRequest.clean_withoutValidators (hclean haway)
  | redirect hexit hhops hnew =>
    rename_i next
    by_cases hcross : s.request.url.origin ≠ next.origin
    · exact PreparedRequest.clean_forRedirect_cross hcross
    · have hsame : s.request.url.origin = next.origin := not_not.1 hcross
      have haway : next.origin ≠ home := haway
      exact PreparedRequest.clean_forRedirect (hclean (hsame ▸ haway))

end Continues

theorem confined_last {result : Except OutboundError TransportResponse} (h : RoundSpec policy s hop (.done result)) :
    Confined policy s [hop] := by
  have hexit := h.done result rfl
  have hredirect : hop.redirect? = none := by simp [Hop.redirect?, hexit]
  refine ⟨by simpa using h.allowed, by simp [h.request], by simpa [h.request] using h.once, by simp [hredirect],
    by simp [hredirect], by simp [hexit], by simp [hexit], by simp [h.request], ?_⟩
  intro home hclean before hop' after hsplit haway
  obtain ⟨rfl, rfl, rfl⟩ : before = [] ∧ hop' = hop ∧ after = [] := by
    cases before with
    | nil => simpa [eq_comm] using hsplit
    | cons b before => simp at hsplit
  simp only [List.nil_append, List.mem_singleton, exists_eq_left, h.request] at haway ⊢
  exact hclean haway

theorem confined_cons {rest : List Hop} (h : RoundSpec policy s hop (.again s')) (hrest : Confined policy s' rest) :
    Confined policy s (hop :: rest) := by
  have hnext := h.again s' rfl
  have hmethod : ∀ hop' ∈ hop :: rest, hop'.request.method = s.request.method := by
    refine List.forall_mem_cons.2 ⟨by rw [h.request], fun hop' hhop' => ?_⟩
    rw [hrest.method hop' hhop', hnext.method]
  have hhome : ∀ home, (s.request.url.origin ≠ home → s.request.Clean) → ∀ before hop' after,
      hop :: rest = before ++ hop' :: after → (∃ earlier ∈ before ++ [hop'], earlier.request.url.origin ≠ home) →
      hop'.request.Clean := by
    intro home hclean before hop' after hsplit haway
    cases before with
    | nil =>
      cases hsplit
      simp only [List.nil_append, List.mem_singleton, exists_eq_left, h.request] at haway ⊢
      exact hclean haway
    | cons b before =>
      cases hsplit
      obtain ⟨earlier, hearlier, haway⟩ := haway
      rcases List.mem_cons.1 hearlier with rfl | hearlier
      · -- the first round has left home, so what follows is clean
        rw [h.request] at haway
        exact hrest.clean (hnext.clean (hclean haway)) hop' (by simp)
      · exact hrest.home home (hnext.home hclean) before hop' after rfl ⟨earlier, hearlier, haway⟩
  have hclean : s.request.Clean → ∀ hop' ∈ hop :: rest, hop'.request.Clean := fun hclean =>
    List.forall_mem_cons.2 ⟨by rwa [h.request], hrest.clean (hnext.clean hclean)⟩
  have hallowed : ∀ hop' ∈ hop :: rest, hop'.Allowed policy := List.forall_mem_cons.2 ⟨h.allowed, hrest.allowed⟩
  have honce : ∀ hop' ∈ hop :: rest, ¬ hop'.request.Repeatable → hop'.calls.length ≤ 1 :=
    List.forall_mem_cons.2 ⟨by rw [h.request]; exact h.once, hrest.once⟩
  cases hnext with
  | cacheRetry hexit hfirst hget hbody =>
    have hredirect : hop.redirect? = none := by simp [Hop.redirect?, hexit]
    have hretries := hrest.retries
    simp only [if_true, Nat.le_zero] at hretries
    refine ⟨hallowed, hmethod, honce, by simpa [hredirect] using hrest.redirects, by simpa [hredirect] using hrest.visited,
      ?_, ?_, hclean, hhome⟩
    · simp [hretries, hexit, hfirst]
    · refine List.forall_mem_cons.2 ⟨fun _ => ?_, hrest.retry⟩
      rw [h.request]
      exact ⟨hget, hbody⟩
  | redirect hexit hhops hnew =>
    rename_i next
    have hredirect : hop.redirect? = some next := by simp [Hop.redirect?, hexit]
    refine ⟨hallowed, hmethod, honce, ?_, ?_, by simpa [hexit] using hrest.retries, ?_, hclean, hhome⟩
    · have hredirects := hrest.redirects
      simp only [List.filterMap_cons, hredirect, List.length_cons] at hredirects ⊢
      omega
    · obtain ⟨hnodup, hseen⟩ := hrest.visited
      simp only [List.filterMap_cons, hredirect, Option.map_some, List.nodup_cons, List.forall_mem_cons]
      refine ⟨⟨fun hmem => ?_, hnodup⟩, hnew, fun text htext => ?_⟩
      · exact hseen next.text hmem List.mem_cons_self
      · exact fun hmem => hseen text htext (List.mem_cons_of_mem _ hmem)
    · exact List.forall_mem_cons.2 ⟨fun e => by simp [hexit] at e, hrest.retry⟩

/-- With fuel for the rounds that may be left the loop ends, whatever the network does. -/
theorem openLoop_confined (policy : OutboundPolicy) (net : Network) (m : Nat) : ∀ (s : OpenState) (hops : List Hop), s.left ≤ m →
    ∃ result rest, (∀ fuel, m ≤ fuel → openLoop policy net fuel hops s = some (result, hops ++ rest)) ∧ Confined policy s rest := by
  induction m with
  | zero =>
    intro s hops hleft
    simp [OpenState.left] at hleft
  | succ m ih =>
    intro s hops hleft
    have hspec : RoundSpec policy s (openRound policy net hops s).1 (openRound policy net hops s).2 := openRound_spec s
    cases hround : openRound policy net hops s with
    | mk hop outcome =>
      rw [hround] at hspec
      cases outcome with
      | done result =>
        refine ⟨result, [hop], fun fuel hfuel => ?_, confined_last hspec⟩
        obtain ⟨fuel, rfl⟩ := Nat.exists_eq_succ_of_ne_zero (Nat.ne_of_gt (Nat.lt_of_lt_of_le (Nat.succ_pos m) hfuel))
        simp only [openLoop, hround]
      | again s' =>
        have hlt := (hspec.again s' rfl).left_lt
        obtain ⟨result, rest, hloop, hconfined⟩ := ih s' (hops ++ [hop]) (by omega)
        refine ⟨result, hop :: rest, fun fuel hfuel => ?_, confined_cons hspec hconfined⟩
        obtain ⟨fuel, rfl⟩ := Nat.exists_eq_succ_of_ne_zero (Nat.ne_of_gt (Nat.lt_of_lt_of_le (Nat.succ_pos m) hfuel))
        have hrest := hloop fuel (by omega)
        simp only [openLoop, hround, hrest, List.append_assoc, List.singleton_append]

end

/-- For every policy, every behaviour of the resolver, the transport and the clock and every request, the loop ends, and all of
its rounds are inside the policy. -/
theorem outbound_requests_confined (policy : OutboundPolicy) (net : Network) (userAgent : Option String) (request : PreparedRequest) :
    ∃ result hops,
      (∀ fuel, policy.maxRedirectHops + 2 ≤ fuel → executeStream policy net userAgent fuel request = some (result, hops)) ∧
      (∀ hop ∈ hops, hop.Allowed policy) ∧
      (hops.filterMap Hop.redirect?).length ≤ policy.maxRedirectHops ∧
      (request.url.text :: hops.filterMap fun hop => hop.redirect?.map (·.text)).Nodup ∧
      (∀ hop ∈ hops, hop.request.method = request.method ∧ (¬ request.Repeatable → hop.calls.length ≤ 1)) ∧
      hops.countP (·.exit = .cacheRetry) ≤ 1 ∧
      (∀ hop ∈ hops, hop.exit = .cacheRetry → hop.request.method = .get ∧ hop.request.body = none) ∧
      ∀ before hop after, hops = before ++ hop :: after →
        (∃ earlier ∈ before ++ [hop], earlier.request.url.origin ≠ request.url.origin) → hop.request.Clean := by
  unfold executeStream openStream
  generalize hsent : ({ request with headers := _ } : PreparedRequest) = sent
  have hurl : sent.url = request.url := by rw [← hsent]
  have hmethod : sent.method = request.method := by rw [← hsent]
  rw [hurl]
  split
  · rename_i e _
    exact ⟨.error e, [], fun _ _ => rfl, by simp, by simp, by simp, by simp, by simp, by simp, by simp⟩
  · obtain ⟨result, hops, hloop, hconfined⟩ := openLoop_confined policy net (policy.maxRedirectHops + 2)
      { request := sent, redirects := .new request.url policy.maxRedirectHops } [] (by simp [OpenState.left, RedirectChain.new])
    have hhome : sent.url.origin ≠ request.url.origin → sent.Clean := fun h => absurd (by rw [hurl]) h
    refine ⟨result, hops, hloop, hconfined.allowed, hconfined.redirects, ?_, fun hop hhop => ?_, hconfined.retries,
      hconfined.retry, hconfined.home request.url.origin hhome⟩
    · refine List.nodup_cons.2 ⟨fun hmem => hconfined.visited.2 _ hmem ?_, hconfined.visited.1⟩
      simp [RedirectChain.new]
    · have hsame : hop.request.method = request.method := (hconfined.method hop hhop).trans hmethod
      refine ⟨hsame, fun hnot => hconfined.once hop hhop ?_⟩
      unfold PreparedRequest.Repeatable at hnot ⊢
      rwa [hsame]

end Inoreader
