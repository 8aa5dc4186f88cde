import Mathlib.Data.List.Basic

/-!
# The outbound policy (`reader-web-runtime/src/network.rs`)

A URL is given by its parts and its text. Joining a URL with a `Location` is the platform's; an IPv6 address is its
eight segments.
-/

namespace Inoreader

/-- A parsed URL: `as_str`, `scheme`, `host_str`, `port`, `username` and `password`. -/
structure WebUrl where
  text : String
  scheme : String
  host : Option String
  port : Option Nat
  username : String
  password : Option String
deriving DecidableEq, Repr

/-- `port_or_known_default`. -/
def WebUrl.portOrKnownDefault (u : WebUrl) : Option Nat :=
  u.port.or (match u.scheme with
    | "http" | "ws" => some 80
    | "https" | "wss" => some 443
    | "ftp" => some 21
    | _ => none)

/-- Scheme, host and port. -/
structure WebOrigin where
  scheme : String
  host : Option String
  port : Option Nat
deriving DecidableEq, Repr

/-- `origin`. -/
def WebUrl.origin (u : WebUrl) : WebOrigin := ⟨u.scheme, u.host.map String.toLower, u.portOrKnownDefault⟩

/-! ## Addresses -/

inductive IpAddr
  | v4 (a b c d : UInt8)
  | v6 (s₀ s₁ s₂ s₃ s₄ s₅ s₆ s₇ : UInt16)
deriving DecidableEq, Repr

def forbiddenV4 (a b c d : UInt8) : Bool :=
  a == 0 || a == 10 || a == 127 || a ≥ 224 ||
    (a == 100 && 64 ≤ b && b ≤ 127) ||
    (a == 169 && b == 254) ||
    (a == 172 && 16 ≤ b && b ≤ 31) ||
    (a == 192 && b == 168) ||
    (a == 192 && b == 0 && c == 0) ||
    (a == 192 && b == 0 && c == 2) ||
    (a == 198 && (b == 18 || b == 19)) ||
    (a == 198 && b == 51 && c == 100) ||
    (a == 203 && b == 0 && c == 113) ||
    (a == 255 && b == 255 && c == 255 && d == 255)

/-- `forbidden_v4` of the address in two segments. -/
def forbiddenEmbedded (s₆ s₇ : UInt16) : Bool :=
  forbiddenV4 (s₆ >>> 8).toUInt8 s₆.toUInt8 (s₇ >>> 8).toUInt8 s₇.toUInt8

def forbiddenV6 (s₀ s₁ s₂ s₃ s₄ s₅ s₆ s₇ : UInt16) : Bool :=
  -- `to_ipv4_mapped`
  if s₀ = 0 ∧ s₁ = 0 ∧ s₂ = 0 ∧ s₃ = 0 ∧ s₄ = 0 ∧ s₅ = 0xffff then forbiddenEmbedded s₆ s₇
  else
    -- unspecified and loopback
    (s₀ == 0 && s₁ == 0 && s₂ == 0 && s₃ == 0 && s₄ == 0 && s₅ == 0 && s₆ == 0 && (s₇ == 0 || s₇ == 1)) ||
      (s₀ &&& 0xff00) == 0xff00 ||
      (s₀ &&& 0xfe00) == 0xfc00 ||
      (s₀ &&& 0xffc0) == 0xfe80 ||
      (s₀ == 0x2001 && s₁ == 0x0db8) ||
      (s₀ == 0x0064 && s₁ == 0xff9b && s₂ == 0 && s₃ == 0 && forbiddenEmbedded s₆ s₇)

inductive OutboundError
  | originNotAllowed
  | unsupportedScheme (scheme : String)
  | plainHttpRequiresExplicitPolicy
  | missingHost
  | urlCredentialsForbidden
  | dnsNoAddresses
  | forbiddenAddress (address : IpAddr)
  | connectedAddressChanged (address : IpAddr)
  | redirectLimitExceeded
  | redirectLoop
  | invalidRedirectLocation
  | deadlineExceeded
  | transport (kind : String)
deriving DecidableEq, Repr

def validatePublicAddress (address : IpAddr) : Except OutboundError Unit :=
  let forbidden := match address with
    | .v4 a b c d => forbiddenV4 a b c d
    | .v6 s₀ s₁ s₂ s₃ s₄ s₅ s₆ s₇ => forbiddenV6 s₀ s₁ s₂ s₃ s₄ s₅ s₆ s₇
  if forbidden then .error (.forbiddenAddress address) else .ok ()

/-! ## The policy -/

structure OutboundPolicy where
  allowPlainHttp : Bool
  allowedPlainHttpHosts : List String
  maxRedirectHops : Nat
  allowedOrigin : Option WebOrigin
deriving DecidableEq, Repr

/-- The addresses of one answer of the resolver for a URL. -/
structure ResolvedTarget where
  url : WebUrl
  addresses : List IpAddr
deriving DecidableEq, Repr

structure ConnectionAuthorization where
  url : WebUrl
  address : IpAddr
deriving DecidableEq, Repr

namespace OutboundPolicy
variable (policy : OutboundPolicy)

def validateScheme (url : WebUrl) : Except OutboundError Unit :=
  if url.scheme = "https" then .ok ()
  else if url.scheme = "http" then
    if policy.allowPlainHttp ∨ url.host.any (· ∈ policy.allowedPlainHttpHosts) then .ok ()
    else .error .plainHttpRequiresExplicitPolicy
  else .error (.unsupportedScheme url.scheme)

def validateUrl (url : WebUrl) : Except OutboundError Unit :=
  if policy.allowedOrigin.any (· ≠ url.origin) then .error .originNotAllowed
  else match policy.validateScheme url with
    | .error e => .error e
    | .ok _ =>
      if url.host.isNone then .error .missingHost
      else if url.username ≠ "" ∨ url.password.isSome then .error .urlCredentialsForbidden
      else .ok ()

/-- The first address that is not public. -/
def validateAddresses : List IpAddr → Except OutboundError Unit
  | [] => .ok ()
  | address :: rest =>
    match validatePublicAddress address with
    | .error e => .error e
    | .ok _ => validateAddresses rest

def authorizeResolution (url : WebUrl) (addresses : List IpAddr) : Except OutboundError ResolvedTarget :=
  match policy.validateUrl url with
  | .error e => .error e
  | .ok _ =>
    if addresses = [] then .error .dnsNoAddresses
    else match validateAddresses addresses with
      | .error e => .error e
      | .ok _ => .ok { url, addresses }

end OutboundPolicy

def ResolvedTarget.connection (target : ResolvedTarget) (address : IpAddr) : Except OutboundError ConnectionAuthorization :=
  match validatePublicAddress address with
  | .error e => .error e
  | .ok _ =>
    if address ∈ target.addresses then .ok { url := target.url, address }
    else .error (.connectedAddressChanged address)

def ConnectionAuthorization.verifyConnectedPeer (authorization : ConnectionAuthorization) (peer : IpAddr) :
    Except OutboundError Unit :=
  match validatePublicAddress peer with
  | .error e => .error e
  | .ok _ => if peer = authorization.address then .ok () else .error (.connectedAddressChanged peer)

/-! ## Requests and redirects -/

inductive HttpMethod
  | get
  | head
  | other (name : String)
deriving DecidableEq, Repr

/-- A header; names are in lower case. `sensitive` is `HeaderValue::is_sensitive`. -/
structure Header where
  name : String
  value : String
  sensitive : Bool := false
deriving DecidableEq, Repr

structure PreparedRequest where
  method : HttpMethod
  url : WebUrl
  headers : List Header
  body : Option (List UInt8)
deriving DecidableEq, Repr

/-- `is_sensitive_header`. -/
def isSensitiveHeader (name : String) : Bool :=
  ["authorization", "proxy-authorization", "cookie", "cookie2", "x-api-key", "x-auth-token", "x-csrf-token"].contains
    name.toLower

/-- The header is not to leave its origin. -/
def Header.isSecret (h : Header) : Bool := isSensitiveHeader h.name || h.sensitive

/-- `HeaderMap::remove`: all values of the name. -/
def removeHeader (headers : List Header) (name : String) : List Header := headers.filter (·.name ≠ name)

def containsHeader (headers : List Header) (name : String) : Bool := headers.any (·.name == name)

def PreparedRequest.forRedirect (request : PreparedRequest) (next : WebUrl) : PreparedRequest :=
  let crossOrigin := request.url.origin ≠ next.origin
  let headers := removeHeader request.headers "host"
  let sensitiveNames := (headers.filter Header.isSecret).map (·.name)
  { request with
    url := next
    headers := if crossOrigin then removeHeader (sensitiveNames.foldl removeHeader headers) "referer" else headers
    body := if crossOrigin then none else request.body }

/-- `seen` are the texts of the visited URLs. -/
structure RedirectChain where
  seen : List String
  hops : Nat
  maxHops : Nat
deriving DecidableEq, Repr

namespace RedirectChain

def new (initial : WebUrl) (maxHops : Nat) : RedirectChain := ⟨[initial.text], 0, maxHops⟩

/-- `follow`; `join` is `Url::join`. -/
def follow (join : WebUrl → String → Option WebUrl) (chain : RedirectChain) (current : WebUrl) (location : String) :
    Except OutboundError (WebUrl × RedirectChain) :=
  if chain.maxHops ≤ chain.hops then .error .redirectLimitExceeded
  else match join current location with
    | none => .error .invalidRedirectLocation
    | some next =>
      if next.text ∈ chain.seen then .error .redirectLoop
      else .ok (next, { chain with seen := next.text :: chain.seen, hops := chain.hops + 1 })

end RedirectChain
end Inoreader
