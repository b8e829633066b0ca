import Mathlib.Data.Rat.Defs

/-!
# Outbound HTTP clients

A `NetProfile` says how a service reaches the outside; `buildHttpClient` turns it into a client
and `buildClientAndShaper` adds the traffic shaper around it.  Whether the HTTP library accepts
the settings (the proxy address parses, the client builds) is a parameter, `Reqwest`.
-/

namespace W2uos

/-- How outbound connections are made. -/
inductive NetMode
  | direct
  | httpProxy
  | socks5Proxy
  | tor
  deriving DecidableEq

/-- When a connection is reused. -/
inductive ConnectionReusePolicy
  | alwaysReuse
  | randomReuse
  | noReuse
  deriving DecidableEq

/-- Network settings of a service; durations in nanoseconds. -/
structure NetProfile where
  mode : NetMode
  proxyUrl : Option String
  requestTimeout : Option ℕ
  connectTimeout : Option ℕ
  maxIdlePerHost : Option ℕ
  maxRetries : Option ℕ
  requestJitterMs : Option (ℕ × ℕ)
  maxParallelRequestsPerTarget : Option ℕ
  connectionReusePolicy : Option ConnectionReusePolicy
  deriving DecidableEq

/-- `NetProfile::default`. -/
def NetProfile.default : NetProfile where
  mode := .direct
  proxyUrl := none
  requestTimeout := some 30000000000
  connectTimeout := some 10000000000
  maxIdlePerHost := some 8
  maxRetries := some 0
  requestJitterMs := none
  maxParallelRequestsPerTarget := none
  connectionReusePolicy := some .alwaysReuse

/-- The proxy of a client: for HTTP traffic only, or for all traffic. -/
inductive ClientProxy
  | http (url : String)
  | all (url : String)
  deriving DecidableEq

/-- An HTTP client is what it was built with. -/
structure Client where
  userAgent : String
  tcpKeepalive : ℕ
  timeout : Option ℕ
  connectTimeout : Option ℕ
  poolMaxIdlePerHost : Option ℕ
  proxy : Option ClientProxy
  deriving DecidableEq

/-- The HTTP library: whether it builds a client with the given settings. -/
class Reqwest where
  /-- `none` when the settings are accepted, otherwise the error. -/
  rejects : Client → Option String

/-- A library that accepts all settings. -/
@[reducible] def acceptAll : Reqwest := ⟨fun _ => none⟩

/-- A client for the profile, or the error. -/
def buildHttpClient [Reqwest] (profile : NetProfile) : Except String Client := do
  let proxy ← match profile.mode, profile.proxyUrl with
    | .direct, _ => pure none
    | .httpProxy, some proxy => pure (some (ClientProxy.http proxy))
    | .httpProxy, none => throw "proxy_url required for HttpProxy mode"
    | .socks5Proxy, some proxy | .tor, some proxy => pure (some (ClientProxy.all proxy))
    | .socks5Proxy, none | .tor, none => throw "proxy_url required for SOCKS/Tor mode"
  let client : Client :=
    { userAgent := "w2uos-net/0.1"
      tcpKeepalive := 30000000000
      timeout := profile.requestTimeout
      connectTimeout := profile.connectTimeout
      poolMaxIdlePerHost := profile.maxIdlePerHost
      proxy := proxy }
  match Reqwest.rejects client with
  | some err => throw err
  | none => pure client

/-- A client with the limits of its profile around it. -/
structure TrafficShaper where
  client : Client
  profile : NetProfile
  deriving DecidableEq

/-- The client and the traffic shaper of a profile. -/
def buildClientAndShaper [Reqwest] (profile : NetProfile) :
    Except String (Client × TrafficShaper) := do
  let client ← buildHttpClient profile
  return (client, { client := client, profile := profile })

end W2uos
