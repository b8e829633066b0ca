import W2uos.Node.Watch

/-!
# Reloads that fail

`reload_now` stores the settings it has loaded before it applies the logging filter and publishes
the sections, one subject after the other; each of these steps returns early when it fails.  So a
reload that fails after the files have loaded leaves the new settings current, and the subjects
before the one that failed have received them.

Here the answers of the tracing library and of the bus are parameters, for any way a reload can
fail; `ConfigManagerService.reloadNow` is the case of a bus that never fails.

* `sendAll_prefix` : what has been sent is the beginning of the messages;
* `reloadNowWith_cases` : the ways a reload can end;
* `atomic_iff` : exactly when a reload is atomic.
-/

namespace W2uos

/-- The tracing library: `EnvFilter::try_new`, and the global handle with its answer to a new
filter; there is no handle before `init_tracing`. -/
structure Tracing where
  tryNew : String → Except String Unit
  handle : Option (Except String Unit)

/-- The bus as `publish_updates` sees it: the answers of the serializer and of `publish`.  A message
is received if it is serialized and published. -/
structure Publishing where
  toVec : ConfigMessage → Except String Unit
  publish : ConfigMessage → Except String Unit

/-- `Kernel::reload_tracing_filter`. -/
def Kernel.reloadTracingFilter (tracing : Tracing) (level : String) : Except String Unit := do
  tracing.tryNew level
  match tracing.handle with
  | some reload => reload
  | none => .ok ()

namespace Publishing

variable (bus : Publishing)

/-- One subject of `publish_updates`. -/
def send (message : ConfigMessage) : Except String Unit := do
  bus.toVec message
  bus.publish message

/-- The messages one after the other, up to the first that fails: those received, and the answer. -/
def sendAll : List ConfigMessage → List ConfigMessage × Except String Unit
  | [] => ([], .ok ())
  | message :: messages =>
    match bus.send message with
    | .error err => ([], .error err)
    | .ok () =>
      let (sent, answer) := sendAll messages
      (message :: sent, answer)

/-- A message is received. -/
def Sends (message : ConfigMessage) : Prop := bus.send message = .ok ()

end Publishing

/-! ### Messages in order -/

section Messages

variable {bus : Publishing}

theorem sendAll_prefix (bus : Publishing) (messages : List ConfigMessage) :
    (bus.sendAll messages).1 <+: messages := by
  induction messages with
  | nil => exact List.prefix_rfl
  | cons message messages ih =>
    unfold Publishing.sendAll
    cases bus.send message with
    | error err => exact List.nil_prefix
    | ok _ => exact (List.prefix_cons_inj message).2 ih

/-- The messages are published without a failure if and only if each one is. -/
theorem sendAll_ok_iff (messages : List ConfigMessage) :
    (bus.sendAll messages).2 = .ok () ↔ ∀ message ∈ messages, bus.Sends message := by
  induction messages with
  | nil => simp [Publishing.sendAll]
  | cons message messages ih =>
    rw [List.forall_mem_cons, ← ih, Publishing.sendAll, Publishing.Sends]
    cases bus.send message with
    | error err => simp
    | ok _ => simp

theorem sendAll_eq_nil_iff (message : ConfigMessage) (messages : List ConfigMessage) :
    (bus.sendAll (message :: messages)).1 = [] ↔ ¬ bus.Sends message := by
  rw [Publishing.sendAll, Publishing.Sends]
  cases bus.send message with
  | error err => simp
  | ok _ => simp

theorem sendAll_of_ok {messages : List ConfigMessage}
    (h : ∀ message ∈ messages, bus.Sends message) :
    bus.sendAll messages = (messages, .ok ()) := by
  induction messages with
  | nil => rfl
  | cons message messages ih =>
    have hmessage : bus.send message = .ok () := h message List.mem_cons_self
    rw [Publishing.sendAll, hmessage, ih fun m hm => h m (List.mem_cons_of_mem _ hm)]

end Messages

section Reload

variable [EnvText] [Digest] (env : Env)

namespace ConfigManagerService

omit [EnvText] [Digest] in
/-- `publish_updates`. -/
def publishUpdates (bus : Publishing) (cfg : NodeSettings) :
    List ConfigMessage × Except String Unit :=
  bus.sendAll cfg.publishUpdates

/-- `reload_now`, with the messages received. -/
def reloadNowWith (s : ConfigManagerService) (files : ConfigFiles) (tracing : Tracing)
    (bus : Publishing) : ConfigManagerService × List ConfigMessage × Except String Unit :=
  match files.loadWithEnv env s.envName with
  | .error err => (s, [], .error err)
  | .ok cfg =>
    let s := { s with current := cfg }
    match Kernel.reloadTracingFilter tracing cfg.logging.level with
    | .error err => (s, [], .error err)
    | .ok () => (s, publishUpdates bus cfg)

/-- If the reload fails, the settings are the ones before it, and no subject has received a
message. -/
def Atomic (s : ConfigManagerService) (files : ConfigFiles) (tracing : Tracing)
    (bus : Publishing) : Prop :=
  ∀ err, (s.reloadNowWith env files tracing bus).2.2 = .error err →
    (s.reloadNowWith env files tracing bus).1.current = s.current ∧
      (s.reloadNowWith env files tracing bus).2.1 = []

end ConfigManagerService

/-! ### The ways a reload can end -/

variable {env} {s : ConfigManagerService} {files : ConfigFiles} {tracing : Tracing}
  {bus : Publishing} {cfg : NodeSettings}

theorem reloadNowWith_of_error {err : String}
    (h : files.loadWithEnv env s.envName = .error err) :
    s.reloadNowWith env files tracing bus = (s, [], .error err) := by
  unfold ConfigManagerService.reloadNowWith
  rw [h]

theorem reloadNowWith_of_filter {err : String} (h : files.loadWithEnv env s.envName = .ok cfg)
    (hfilter : Kernel.reloadTracingFilter tracing cfg.logging.level = .error err) :
    s.reloadNowWith env files tracing bus = ({ s with current := cfg }, [], .error err) := by
  unfold ConfigManagerService.reloadNowWith
  rw [h]
  dsimp only
  rw [hfilter]

theorem reloadNowWith_of_ok (h : files.loadWithEnv env s.envName = .ok cfg)
    (hfilter : Kernel.reloadTracingFilter tracing cfg.logging.level = .ok ()) :
    s.reloadNowWith env files tracing bus =
      ({ s with current := cfg }, bus.sendAll cfg.publishUpdates) := by
  unfold ConfigManagerService.reloadNowWith ConfigManagerService.publishUpdates
  rw [h]
  dsimp only
  rw [hfilter]

/-- **The ways a reload can end**: the files do not load, and nothing happens; or the settings in
them are current, and the subjects that have received them are the first ones. -/
theorem reloadNowWith_cases (env : Env) (s : ConfigManagerService) (files : ConfigFiles)
    (tracing : Tracing) (bus : Publishing) :
    (∃ err, files.loadWithEnv env s.envName = .error err ∧
      s.reloadNowWith env files tracing bus = (s, [], .error err)) ∨
    ∃ cfg, files.loadWithEnv env s.envName = .ok cfg ∧
      (s.reloadNowWith env files tracing bus).1 = { s with current := cfg } ∧
      (s.reloadNowWith env files tracing bus).2.1 <+: cfg.publishUpdates := by
  cases hload : files.loadWithEnv env s.envName with
  | error err => exact Or.inl ⟨err, rfl, reloadNowWith_of_error hload⟩
  | ok cfg =>
    refine Or.inr ⟨cfg, rfl, ?_⟩
    cases hfilter : Kernel.reloadTracingFilter tracing cfg.logging.level with
    | error err =>
      rw [reloadNowWith_of_filter hload hfilter]
      exact ⟨rfl, List.nil_prefix⟩
    | ok _ =>
      rw [reloadNowWith_of_ok hload hfilter]
      exact ⟨rfl, sendAll_prefix bus _⟩

theorem reloadNowWith_eq [LogFilter] (env : Env) (s : ConfigManagerService) (files : ConfigFiles)
    (htracing : ∀ logging,
      Kernel.reloadTracingFilter tracing logging.level = applyLoggingConfig logging)
    (hbus : ∀ message, bus.Sends message) :
    s.reloadNowWith env files tracing bus = s.reloadNow env files := by
  cases hload : files.loadWithEnv env s.envName with
  | error err => rw [reloadNowWith_of_error hload, reloadNow_of_error hload]
  | ok cfg =>
    unfold ConfigManagerService.reloadNow
    rw [hload]
    dsimp only
    cases hfilter : applyLoggingConfig cfg.logging with
    | error err => rw [reloadNowWith_of_filter hload ((htracing cfg.logging).trans hfilter)]
    | ok _ =>
      rw [reloadNowWith_of_ok hload ((htracing cfg.logging).trans hfilter),
        sendAll_of_ok fun message _ => hbus message]

/-! ### When a reload is atomic -/

/-- **Exactly when a reload is atomic**: for settings that load, if the filter is applied and all
five messages are published, so that the reload does not fail; or if the settings in the files are
the current ones, and the filter fails or the first message. -/
theorem atomic_iff (env : Env) (s : ConfigManagerService) (files : ConfigFiles)
    (tracing : Tracing) (bus : Publishing) :
    s.Atomic env files tracing bus ↔
      ∀ cfg, files.loadWithEnv env s.envName = .ok cfg →
        (Kernel.reloadTracingFilter tracing cfg.logging.level = .ok () ∧
          ∀ message ∈ cfg.publishUpdates, bus.Sends message) ∨
        (cfg = s.current ∧
          (Kernel.reloadTracingFilter tracing cfg.logging.level ≠ .ok () ∨
            ¬ bus.Sends (.risk cfg.globalRisk))) := by
  unfold ConfigManagerService.Atomic
  cases hload : files.loadWithEnv env s.envName with
  | error err =>
    rw [reloadNowWith_of_error hload]
    exact iff_of_true (fun _ _ => ⟨rfl, rfl⟩) (fun _ h => nomatch h)
  | ok cfg =>
    simp only [Except.ok.injEq, forall_eq']
    cases hfilter : Kernel.reloadTracingFilter tracing cfg.logging.level with
    | error err =>
      rw [reloadNowWith_of_filter hload hfilter]
      simp
    | ok _ =>
      rw [reloadNowWith_of_ok hload hfilter, ← sendAll_ok_iff]
      have hnil : (bus.sendAll cfg.publishUpdates).1 = [] ↔ ¬ bus.Sends (.risk cfg.globalRisk) :=
        sendAll_eq_nil_iff _ _
      rw [hnil]
      cases hanswer : (bus.sendAll cfg.publishUpdates).2 with
      | error err => simp
      | ok _ => simp

end Reload

/-! ### A log level that is no filter, and a bus that fails halfway -/

/-- A base file that sets the number of open positions to 20, and the log level. -/
def levelFiles (level : String) : ConfigFiles where
  base := .ok (positionsFile 20)
  overlay _ := none
  tryInto value :=
    .ok
      { watchedNode.service.current with
        logging := { level := level, logPath := none }
        globalRisk :=
          { watchedNode.service.current.globalRisk with
            maxOpenPositions := value.openPositions } }

/-- A tracing library that knows no level `verbose`. -/
def sampleTracing : Tracing where
  tryNew level :=
    if level = "w2uos=verbose" then .error "invalid filter directive" else .ok ()
  handle := some (.ok ())

/-- A bus on which all subjects up to that of the strategies can be reached. -/
def halfwayBus : Publishing where
  toVec _ := .ok ()
  publish
    | .market _ => .error "not connected"
    | .logging _ => .error "not connected"
    | _ => .ok ()

/-- **Reloads that are not atomic**: one with a log level that is no filter leaves the new settings
current, and they are published nowhere; one on a bus that fails halfway leaves the first subjects
with the new settings. -/
theorem not_atomic :
    (¬ @ConfigManagerService.Atomic asciiText devKeyDigest (fun _ => none) watchedNode.service
      (levelFiles "w2uos=verbose") sampleTracing ⟨fun _ => .ok (), fun _ => .ok ()⟩) ∧
    ¬ @ConfigManagerService.Atomic asciiText devKeyDigest (fun _ => none) watchedNode.service
      (levelFiles "info") sampleTracing halfwayBus := by
  refine ⟨fun h => ?_, fun h => ?_⟩
  · have hcurrent := congrArg (fun cfg => cfg.globalRisk.maxOpenPositions) (h _ rfl).1
    exact absurd hcurrent (by decide)
  · have hsent := congrArg List.length (h _ rfl).2
    exact absurd hsent (by decide)

end W2uos
