import Inoreader.Web.Network

/-!
# The outbound HTTP client (`reader-web-runtime/src/http_client.rs`)

One round of the loop validates the URL, resolves its host, tries the addresses of the answer and ends with a response, an
error, a redirect or the retry without cache validators. The resolver, the transport and the clock are arbitrary: each may
answer by all that happened before. `Hop` notes what a round did.
-/

namespace Inoreader

structure TransportResponse where
  status : Nat
  headers : List Header
  connectedPeer : IpAddr
deriving DecidableEq, Repr

/-- A call of `transport.execute`. -/
structure TransportCall where
  request : PreparedRequest
  authorization : ConnectionAuthorization
deriving DecidableEq, Repr

inductive HopExit
  | returned
  | redirected (next : WebUrl)
  /-- Once more without cache validators. -/
  | cacheRetry
deriving DecidableEq, Repr

/-- One round of the loop: its request, the answer of the resolver, its calls and how it ended. -/
structure Hop where
  request : PreparedRequest
  answer : Option (List IpAddr) := none
  calls : List TransportCall := []
  exit : HopExit := .returned
deriving DecidableEq, Repr

inductive ResolveAnswer
  | timedOut
  | failed
  | addresses (addresses : List IpAddr)
deriving DecidableEq, Repr

/-- What the client talks to. The resolver, the transport and the deadline see the rounds so far, the latter two also the calls
of this round. -/
structure Network where
  /-- `Url::join`. -/
  join : WebUrl → String → Option WebUrl
  resolvesInTime : List Hop → Bool
  resolve : List Hop → String → Nat → ResolveAnswer
  executesInTime : List Hop → List TransportCall → Bool
  execute : List Hop → List TransportCall → PreparedRequest → ConnectionAuthorization → Except String TransportResponse

/-- `can_retry_cache_validation`. -/
def canRetryCacheValidation (request : PreparedRequest) : Bool :=
  request.method == .get && request.body.isNone &&
    (containsHeader request.headers "if-none-match" || containsHeader request.headers "if-modified-since") &&
    !(["range", "if-range", "if-match", "if-unmodified-since"].any fun name => containsHeader request.headers name)

/-- The request without its cache validators. -/
def PreparedRequest.withoutValidators (request : PreparedRequest) : PreparedRequest :=
  { request with headers := removeHeader (removeHeader request.headers "if-none-match") "if-modified-since" }

/-- `follows_location`: 301, 302, 303, 307 and 308. -/
def followsLocation (status : Nat) : Bool := [301, 302, 303, 307, 308].contains status

/-- `HeaderValue::to_str`. -/
def visibleText (value : String) : Option String :=
  if value.all fun c => c = '\t' || (32 ≤ c.toNat && c.toNat < 127) then some value else none

def TransportResponse.location (response : TransportResponse) : Option String :=
  (response.headers.find? (·.name == "location")).bind fun h => visibleText h.value

/-! ## The addresses of an answer -/

inductive AddressOutcome
  | failed (error : OutboundError)
  | cacheRetry
  | answered (response : TransportResponse) (authorization : ConnectionAuthorization)
  | exhausted (last : Option String)
deriving DecidableEq, Repr

section
variable (policy : OutboundPolicy) (net : Network)

/-- The loop over the addresses; `calls` are the calls of the round so far. -/
def tryAddresses (hops : List Hop) (request : PreparedRequest) (target : ResolvedTarget) (recovered : Bool) :
    List IpAddr → List TransportCall → Option String → List TransportCall × AddressOutcome
  | [], calls, last => (calls, .exhausted last)
  | address :: rest, calls, _ =>
    match target.connection address with
    | .error e => (calls, .failed e)
    | .ok authorization =>
      if net.executesInTime hops calls = false then (calls, .failed .deadlineExceeded)
      else
        match net.execute hops calls request authorization with
        | .ok response => (calls ++ [⟨request, authorization⟩], .answered response authorization)
        | .error kind =>
          if kind = "response_incomplete_before_headers" ∧ recovered = false ∧ canRetryCacheValidation request = true then
            (calls ++ [⟨request, authorization⟩], .cacheRetry)
          else if request.method ≠ .get ∧ request.method ≠ .head then
            (calls ++ [⟨request, authorization⟩], .failed (.transport kind))
          else tryAddresses hops request target recovered rest (calls ++ [⟨request, authorization⟩]) (some kind)

/-! ## Rounds -/

structure OpenState where
  request : PreparedRequest
  redirects : RedirectChain
  recoveredCacheValidation : Bool := false
deriving DecidableEq, Repr

inductive RoundOutcome
  | done (result : Except OutboundError TransportResponse)
  | again (state : OpenState)

/-- The end of a round that got a response. -/
def handleResponse (s : OpenState) (hop : Hop) (response : TransportResponse) (authorization : ConnectionAuthorization) :
    Hop × RoundOutcome :=
  match authorization.verifyConnectedPeer response.connectedPeer with
  | .error e => (hop, .done (.error e))
  | .ok _ =>
    if followsLocation response.status then
      match response.location with
      | none => (hop, .done (.error .invalidRedirectLocation))
      | some location =>
        match s.redirects.follow net.join s.request.url location with
        | .error e => (hop, .done (.error e))
        | .ok (next, redirects) =>
          match policy.validateUrl next with
          | .error e => (hop, .done (.error e))
          | .ok _ => ({ hop with exit := .redirected next },
              .again { s with request := s.request.forRedirect next, redirects := redirects })
    else (hop, .done (.ok response))

/-- One turn of `'request: loop`. -/
def openRound (hops : List Hop) (s : OpenState) : Hop × RoundOutcome :=
  match policy.validateUrl s.request.url with
  | .error e => ({ request := s.request }, .done (.error e))
  | .ok _ =>
    match s.request.url.host, s.request.url.portOrKnownDefault with
    | none, _ => ({ request := s.request }, .done (.error .missingHost))
    | some _, none => ({ request := s.request }, .done (.error .missingHost))
    | some host, some port =>
      if net.resolvesInTime hops = false then ({ request := s.request }, .done (.error .deadlineExceeded))
      else match net.resolve hops host port with
        | .timedOut => ({ request := s.request }, .done (.error (.transport "deadline")))
        | .failed => ({ request := s.request }, .done (.error (.transport "dns")))
        | .addresses answer =>
          match policy.authorizeResolution s.request.url answer with
          | .error e => ({ request := s.request, answer := some answer }, .done (.error e))
          | .ok target =>
            match tryAddresses net hops s.request target s.recoveredCacheValidation target.addresses [] none with
            | (calls, .failed e) => ({ request := s.request, answer := some answer, calls }, .done (.error e))
            | (calls, .cacheRetry) => ({ request := s.request, answer := some answer, calls, exit := .cacheRetry },
                .again { s with request := s.request.withoutValidators, recoveredCacheValidation := true })
            | (calls, .exhausted last) => ({ request := s.request, answer := some answer, calls },
                .done (.error (.transport (last.getD "no_authorized_address"))))
            | (calls, .answered response authorization) =>
              handleResponse policy net s { request := s.request, answer := some answer, calls } response authorization

/-- The loop with the rounds so far; `none` if the fuel does not suffice. -/
def openLoop : Nat → List Hop → OpenState → Option (Except OutboundError TransportResponse × List Hop)
  | 0, _, _ => none
  | fuel + 1, hops, s =>
    match openRound policy net hops s with
    | (hop, .done result) => some (result, hops ++ [hop])
    | (hop, .again s') => openLoop fuel (hops ++ [hop]) s'

/-- `open_stream`. -/
def openStream (fuel : Nat) (request : PreparedRequest) : Option (Except OutboundError TransportResponse × List Hop) :=
  match policy.validateUrl request.url with
  | .error e => some (.error e, [])
  | .ok _ => openLoop policy net fuel [] { request, redirects := .new request.url policy.maxRedirectHops }

/-- `execute_stream` sends the user agent unless the request has one. -/
def executeStream (userAgent : Option String) (fuel : Nat) (request : PreparedRequest) :
    Option (Except OutboundError TransportResponse × List Hop) :=
  openStream policy net fuel { request with headers := match userAgent with
    | some value =>
      if containsHeader request.headers "user-agent" then request.headers
      else request.headers ++ [{ name := "user-agent", value }]
    | none => request.headers }

end
end Inoreader
