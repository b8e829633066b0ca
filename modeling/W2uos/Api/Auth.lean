import W2uos.Log.Types
import Mathlib.Data.List.Infix

/-!
# Authorization of API requests

A middleware looks at every request before the router does: it finds the user of the API key and
compares the user's role with the role the path asks for.  The middleware sees the path as it was
sent, the router matches the percent-decoded path.

The digest of an API key and the router's percent-decoding are library functions and parameters
here (`Digest`, `PathDecoding`).  Of the decoding only one thing is assumed: a path without a
percent sign is left as it is.

* `dispatched_cases` : what is known of a dispatched request;
* `gateSound_iff` : exactly when the gate is sound for a request.
-/

namespace W2uos

/-! ### Roles and users -/

/-- Role of an API user. -/
inductive Role
  | readOnly
  | trader
  | admin
  deriving DecidableEq

/-- A role allows what another one is required for. -/
def Role.allows (role required : Role) : Bool :=
  role = .admin ∨ (role = .trader ∧ (required = .trader ∨ required = .readOnly)) ∨
    (role = .readOnly ∧ required = .readOnly)

/-- An authenticated user. -/
structure ApiUser where
  id : String
  role : Role
  deriving DecidableEq

/-- A configured user. -/
structure ApiUserCredential where
  id : String
  role : Role
  apiKeyHash : String
  deriving DecidableEq

/-- The digest library. -/
class Digest where
  /-- `hash_api_key`: the SHA-256 digest in hexadecimals. -/
  hashApiKey : String → String

/-- The first user with the digest of the key. -/
def matchingUser [Digest] (apiKey : String) (users : List ApiUserCredential) :
    Option ApiUserCredential :=
  users.find? fun user => user.apiKeyHash = Digest.hashApiKey apiKey

/-- The user a key belongs to. -/
def authenticate [Digest] (apiKey : String) (users : List ApiUserCredential) : Option ApiUser :=
  (matchingUser apiKey users).map fun user => { id := user.id, role := user.role }

/-! ### Requests -/

/-- Method of a request. -/
inductive Method
  | get
  | post
  | other (name : String)
  deriving DecidableEq

/-- A request, as far as it is looked at: the path is the one that was sent, and the header is the
first value of `X-API-KEY`. -/
structure Request where
  method : Method
  path : String
  apiKeyHeader : Option (List UInt8)

/-- `HeaderValue::to_str`: a value of visible characters, blanks and tabs is a text. -/
def headerText (value : List UInt8) : Option String :=
  if value.all fun b => (32 ≤ b.toNat ∧ b.toNat < 127) ∨ b.toNat = 9 then
    some (String.ofList (value.map fun b => Char.ofNat b.toNat))
  else none

/-- The key of a request. -/
def Request.apiKey (req : Request) : Option String := req.apiKeyHeader.bind headerText

/-- The role a path asks for. -/
def requiredRoleForPath (method : Method) (path : String) : Role :=
  if path = "/health" then .readOnly
  else if "/config".toList <+: path.toList then .admin
  else if "/control/".toList <+: path.toList ∨ path = "/risk/reset_circuit" ∨
      path = "/backtest/start" then .trader
  else if method = .post ∧
      ("/risk/".toList <:+: path.toList ∨ "/backtest".toList <:+: path.toList) then .trader
  else .readOnly

/-- The log event of a refused request. -/
def authFailure (reason path : String) (ts : DateTime) : LogEvent where
  ts := ts
  level := .warn
  source := .api
  message := "authentication failure"
  fields := [("reason", .text reason), ("path", .text path)]
  correlationId := none
  traceId := none

/-! ### The router -/

/-- The handlers of the API. -/
inductive Handler
  | status
  | health
  | positions
  | logs
  | netProfile
  | clusterNodes
  | riskStatus
  | riskReset
  | latencySummary
  | latencyHistogram
  | backtestStart
  | backtestStatus
  | ws
  deriving DecidableEq

/-- The routes, in the order they are registered. -/
def routes : List (String × Method × Handler) :=
  [("/status", .get, .status),
    ("/health", .get, .health),
    ("/positions", .get, .positions),
    ("/logs", .get, .logs),
    ("/net/profile", .get, .netProfile),
    ("/cluster/nodes", .get, .clusterNodes),
    ("/risk/status", .get, .riskStatus),
    ("/risk/reset_circuit", .post, .riskReset),
    ("/metrics/latency/summary", .get, .latencySummary),
    ("/metrics/latency/histogram", .get, .latencyHistogram),
    ("/backtest/start", .post, .backtestStart),
    ("/backtest/status", .get, .backtestStatus),
    ("/ws/stream", .get, .ws)]

/-- The handler of a decoded path. -/
def route (method : Method) (path : String) : Option Handler :=
  (routes.find? fun r => r.1 = path ∧ r.2.1 = method).map (·.2.2)

/-- The router's percent-decoding. -/
class PathDecoding where
  /-- The path the routes are matched on. -/
  decode : String → String
  /-- Without a percent sign there is nothing to decode. -/
  decode_plain : ∀ path : String, '%' ∉ path.toList → decode path = path

/-- What becomes of a request. -/
inductive Response
  | dispatched (handler : Handler) (user : Option ApiUser)
  | notFound
  | unauthorized (evt : LogEvent)
  | forbidden (evt : LogEvent)
  deriving DecidableEq

/-- The router. -/
def Request.dispatch [PathDecoding] (req : Request) (user : Option ApiUser) : Response :=
  match route req.method (PathDecoding.decode req.path) with
  | some handler => .dispatched handler user
  | none => .notFound

/-- The middleware, and the router behind it. -/
def respond [Digest] [PathDecoding] (users : List ApiUserCredential) (req : Request)
    (ts : DateTime) : Response :=
  if req.path = "/health" then req.dispatch none
  else
    match req.apiKey with
    | none => .unauthorized (authFailure "missing_api_key" req.path ts)
    | some apiKey =>
      match authenticate apiKey users with
      | none => .unauthorized (authFailure "invalid_api_key" req.path ts)
      | some user =>
        if user.role.allows (requiredRoleForPath req.method req.path) then
          req.dispatch (some user)
        else .forbidden (authFailure "forbidden" req.path ts)

/-! ### The gate -/

section Gate

variable [Digest] [PathDecoding] {users : List ApiUserCredential} {req : Request} {ts : DateTime}

omit [Digest] [PathDecoding] in
/-- The handlers that act on trading. -/
def Handler.Acts (handler : Handler) : Prop := handler = .riskReset ∨ handler = .backtestStart

omit [PathDecoding] in
/-- The request carries the key of a user with the given property, the first one it matches. -/
def Request.FromUser (req : Request) (users : List ApiUserCredential) (P : Role → Prop) : Prop :=
  ∃ apiKey user, req.apiKey = some apiKey ∧ matchingUser apiKey users = some user ∧ P user.role

/-- If the request is dispatched, then to an acting handler only for a trader or an administrator,
and to another one than `health` only for a user. -/
def GateSound (users : List ApiUserCredential) (req : Request) (ts : DateTime) : Prop :=
  ∀ handler user, respond users req ts = .dispatched handler user →
    (handler.Acts → req.FromUser users fun role => role = .trader ∨ role = .admin) ∧
      (handler ≠ .health → req.FromUser users fun _ => True)

omit [Digest] [PathDecoding] in
theorem mem_routes {method : Method} {path : String} {handler : Handler}
    (h : route method path = some handler) : (path, method, handler) ∈ routes := by
  obtain ⟨⟨path', method', handler'⟩, hfind, rfl⟩ := Option.map_eq_some_iff.1 h
  have hmatch := List.find?_some hfind
  simp only [Bool.decide_and, Bool.and_eq_true, decide_eq_true_eq] at hmatch
  obtain ⟨rfl, rfl⟩ := hmatch
  exact List.mem_of_find?_eq_some hfind

omit [Digest] [PathDecoding] in
theorem route_acts_iff {method : Method} {path : String} :
    (∃ handler, route method path = some handler ∧ handler.Acts) ↔
      method = .post ∧ (path = "/risk/reset_circuit" ∨ path = "/backtest/start") := by
  constructor
  · rintro ⟨handler, h, hacts⟩
    have hmem := mem_routes h
    rcases hacts with rfl | rfl <;> simp [routes] at hmem <;> simp [hmem]
  · rintro ⟨rfl, rfl | rfl⟩
    · exact ⟨.riskReset, by decide, Or.inl rfl⟩
    · exact ⟨.backtestStart, by decide, Or.inr rfl⟩

omit [Digest] [PathDecoding] in
/-- A path that asks for more than reading, as far as it is sent in plain. -/
def GuardedPath (path : String) : Prop :=
  "/config".toList <+: path.toList ∨ "/control/".toList <+: path.toList ∨
    "/risk/".toList <:+: path.toList ∨ "/backtest".toList <:+: path.toList

omit [Digest] [PathDecoding] in
theorem requiredRole_post {path : String} (hhealth : path ≠ "/health") :
    requiredRoleForPath .post path = .readOnly ↔ ¬ GuardedPath path := by
  unfold requiredRoleForPath
  rw [if_neg hhealth]
  by_cases hconfig : "/config".toList <+: path.toList
  · rw [if_pos hconfig]
    exact iff_of_false (fun h => by cases h) (not_not.2 (Or.inl hconfig))
  rw [if_neg hconfig]
  by_cases hcontrol : "/control/".toList <+: path.toList ∨ path = "/risk/reset_circuit" ∨
      path = "/backtest/start"
  · rw [if_pos hcontrol]
    refine iff_of_false (fun h => by cases h) (not_not.2 ?_)
    -- the two paths that are compared as a whole contain a guarded part
    rcases hcontrol with hcontrol | rfl | rfl
    · exact Or.inr (Or.inl hcontrol)
    · exact Or.inr (Or.inr (Or.inl (by decide)))
    · exact Or.inr (Or.inr (Or.inr (by decide)))
  rw [if_neg hcontrol]
  by_cases hpost : Method.post = .post ∧
      ("/risk/".toList <:+: path.toList ∨ "/backtest".toList <:+: path.toList)
  · rw [if_pos hpost]
    exact iff_of_false (fun h => by cases h) (not_not.2 (Or.inr (Or.inr hpost.2)))
  · rw [if_neg hpost]
    refine iff_of_true rfl ?_
    rintro (hguard | hguard | hguard)
    · exact hconfig hguard
    · exact hcontrol (Or.inl hguard)
    · exact hpost ⟨rfl, hguard⟩

/-- **What is known of a dispatched request**: the path is that of `health`, or the request carries
the key of a user whose role allows what the path, as it was sent, asks for. -/
theorem dispatched_cases {handler : Handler} {user : Option ApiUser}
    (h : respond users req ts = .dispatched handler user) :
    route req.method (PathDecoding.decode req.path) = some handler ∧
      (req.path = "/health" ∨ req.FromUser users fun role =>
        role.allows (requiredRoleForPath req.method req.path) = true) := by
  have hroute : ∀ {u}, req.dispatch u = .dispatched handler user →
      route req.method (PathDecoding.decode req.path) = some handler := by
    intro u hu
    unfold Request.dispatch at hu
    cases hr : route req.method (PathDecoding.decode req.path) with
    | none =>
      rw [hr] at hu
      cases hu
    | some handler' =>
      rw [hr] at hu
      cases hu
      rfl
  unfold respond at h
  by_cases hhealth : req.path = "/health"
  · rw [if_pos hhealth] at h
    exact ⟨hroute h, Or.inl hhealth⟩
  · rw [if_neg hhealth] at h
    cases hkey : req.apiKey with
    | none =>
      rw [hkey] at h
      cases h
    | some apiKey =>
      cases hmatch : matchingUser apiKey users with
      | none =>
        simp only [hkey, authenticate, hmatch, Option.map_none] at h
        cases h
      | some cred =>
        simp only [hkey, authenticate, hmatch, Option.map_some] at h
        by_cases hallows : cred.role.allows (requiredRoleForPath req.method req.path) = true
        · rw [if_pos hallows] at h
          exact ⟨hroute h, Or.inr ⟨apiKey, cred, hkey, hmatch, hallows⟩⟩
        · rw [if_neg hallows] at h
          cases h

/-- A user whose role allows what the path asks for gets through to the router. -/
theorem respond_fromUser {apiKey : String} {cred : ApiUserCredential}
    (hhealth : req.path ≠ "/health") (hkey : req.apiKey = some apiKey)
    (hmatch : matchingUser apiKey users = some cred)
    (hallows : cred.role.allows (requiredRoleForPath req.method req.path) = true) :
    respond users req ts = req.dispatch (some { id := cred.id, role := cred.role }) := by
  simp only [respond, if_neg hhealth, hkey, authenticate, hmatch, Option.map_some, hallows,
    ↓reduceIte]

omit [Digest] [PathDecoding] in
theorem Role.allows_cases {role required : Role} (h : role.allows required = true) :
    role = .trader ∨ role = .admin ∨ (role = .readOnly ∧ required = .readOnly) := by
  cases role <;> cases required <;> simp_all [Role.allows]

omit [Digest] in
theorem route_health {method : Method} {handler : Handler}
    (h : route method (PathDecoding.decode "/health") = some handler) : handler = .health := by
  rw [PathDecoding.decode_plain "/health" (by decide)] at h
  have hmem := mem_routes h
  simp [routes] at hmem
  exact hmem.2

/-- **Exactly when the gate is sound for a request**: unless it is a POST whose decoded path is that
of an acting handler, from a user who may only read, and the path as it was sent is not guarded. -/
theorem gateSound_iff (users : List ApiUserCredential) (req : Request) (ts : DateTime) :
    GateSound users req ts ↔
      (req.method = .post →
        PathDecoding.decode req.path = "/risk/reset_circuit" ∨
          PathDecoding.decode req.path = "/backtest/start" →
        req.FromUser users (· = .readOnly) → GuardedPath req.path) := by
  constructor
  · intro hsound hpost hpath hreader
    obtain ⟨handler, hroute, hacts⟩ := route_acts_iff.2 ⟨hpost, hpath⟩
    have hhealth : req.path ≠ "/health" := by
      intro heq
      rw [heq] at hroute
      rw [route_health hroute] at hacts
      rcases hacts with h | h <;> cases h
    by_contra hguard
    obtain ⟨apiKey, cred, hkey, hmatch, hrole⟩ := hreader
    -- the reader gets through, and the gate is not sound
    have hallows : cred.role.allows (requiredRoleForPath req.method req.path) = true := by
      rw [hpost, (requiredRole_post hhealth).2 hguard, hrole]
      rfl
    have hresp : respond users req ts = req.dispatch (some { id := cred.id, role := cred.role }) :=
      respond_fromUser hhealth hkey hmatch hallows
    rw [Request.dispatch, hroute] at hresp
    obtain ⟨apiKey', cred', hkey', hmatch', hact⟩ := (hsound _ _ hresp).1 hacts
    rw [hkey, Option.some.injEq] at hkey'
    rw [← hkey', hmatch, Option.some.injEq] at hmatch'
    rw [← hmatch', hrole] at hact
    rcases hact with h | h <;> cases h
  · intro hcond handler user hresp
    obtain ⟨hroute, hwho⟩ := dispatched_cases hresp
    refine ⟨?_, ?_⟩
    · intro hacts
      obtain ⟨hpost, hpath⟩ := route_acts_iff.1 ⟨handler, hroute, hacts⟩
      rcases hwho with heq | ⟨apiKey, cred, hkey, hmatch, hallows⟩
      · rw [heq] at hroute
        rw [route_health hroute] at hacts
        rcases hacts with h | h <;> cases h
      · refine ⟨apiKey, cred, hkey, hmatch, ?_⟩
        rcases Role.allows_cases hallows with htrader | hadmin | ⟨hreader, hrequired⟩
        · exact Or.inl htrader
        · exact Or.inr hadmin
        · -- a reader gets through only on an unguarded path
          have hguard := hcond hpost hpath ⟨apiKey, cred, hkey, hmatch, hreader⟩
          have hhealth : req.path ≠ "/health" := by
            intro heq
            rw [heq] at hguard
            exact absurd hguard (by unfold GuardedPath; decide)
          rw [hpost] at hrequired
          exact absurd hguard ((requiredRole_post hhealth).1 hrequired)
    · intro hother
      rcases hwho with heq | ⟨apiKey, cred, hkey, hmatch, -⟩
      · rw [heq] at hroute
        exact absurd (route_health hroute) hother
      · exact ⟨apiKey, cred, hkey, hmatch, trivial⟩

end Gate

/-! ### A concrete router -/

/-- The value of a hexadecimal digit. -/
def hexValue (c : Char) : Option ℕ :=
  if '0' ≤ c ∧ c ≤ '9' then some (c.toNat - '0'.toNat)
  else if 'a' ≤ c ∧ c ≤ 'f' then some (c.toNat - 'a'.toNat + 10)
  else if 'A' ≤ c ∧ c ≤ 'F' then some (c.toNat - 'A'.toNat + 10)
  else none

/-- Percent-decoding of the ASCII octets other than those of `%`, `/` and `+`. -/
def percentDecode : List Char → List Char
  | '%' :: a :: b :: cs =>
    match hexValue a, hexValue b with
    | some x, some y =>
      let c := Char.ofNat (16 * x + y)
      if 16 * x + y < 128 ∧ c ≠ '%' ∧ c ≠ '/' ∧ c ≠ '+' then c :: percentDecode cs
      else '%' :: a :: b :: percentDecode cs
    | _, _ => '%' :: percentDecode (a :: b :: cs)
  | c :: cs => c :: percentDecode cs
  | [] => []

theorem percentDecode_plain (cs : List Char) (h : '%' ∉ cs) : percentDecode cs = cs := by
  induction cs with
  | nil => rfl
  | cons c cs ih =>
    have hc : c ≠ '%' := fun hc => h (by simp [hc])
    have hcs := ih fun hmem => h (List.mem_cons_of_mem _ hmem)
    rw [percentDecode, hcs]
    exact fun _ _ _ heq => absurd heq hc

/-- A router that decodes ASCII octets. -/
@[reducible] def asciiRouter : PathDecoding where
  decode path := String.ofList (percentDecode path.toList)
  decode_plain path h := by rw [percentDecode_plain _ h, String.ofList_toList]

/-- A digest that shows the key. -/
@[reducible] def plainDigest : Digest := ⟨id⟩

/-- A user who may only read. -/
def reader : ApiUserCredential := ⟨"ro", .readOnly, "readonly"⟩

/-- A POST of the reader. -/
def readerPost (path : String) : Request where
  method := .post
  path := path
  apiKeyHeader := some ("readonly".toList.map fun c => UInt8.ofNat c.toNat)

theorem gateSound_iff_sample :
    @GateSound plainDigest asciiRouter [reader] (readerPost "/backtest/st%61rt") 0 ↔
      ((readerPost "/backtest/st%61rt").method = .post →
        asciiRouter.decode "/backtest/st%61rt" = "/risk/reset_circuit" ∨
          asciiRouter.decode "/backtest/st%61rt" = "/backtest/start" →
        @Request.FromUser plainDigest (readerPost "/backtest/st%61rt") [reader] (· = .readOnly) →
        GuardedPath "/backtest/st%61rt") :=
  @gateSound_iff plainDigest asciiRouter [reader] (readerPost "/backtest/st%61rt") 0

/-- **The gate is not sound**: with one letter of its path encoded, a user who may only read resets
the breaker. -/
theorem not_gateSound :
    ¬ @GateSound plainDigest asciiRouter [reader] (readerPost "/%72isk/reset_circuit") 0 := by
  intro h
  obtain ⟨apiKey, cred, -, hmatch, hrole⟩ :=
    (h .riskReset (some ⟨"ro", .readOnly⟩) (by decide)).1 (Or.inl rfl)
  have hmem : cred ∈ [reader] := List.mem_of_find?_eq_some hmatch
  rw [List.mem_singleton.1 hmem] at hrole
  rcases hrole with hrole | hrole <;> cases hrole

end W2uos
