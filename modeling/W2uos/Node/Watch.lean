import Mathlib.Data.List.Infix
import W2uos.Node.Environment
import W2uos.System.Machine

/-!
# Watching the configuration files

`ConfigManagerService::watch` looks at the modification time of the base file every few seconds and
reloads the configuration when the time is another one than it remembers.  The configuration depends
on the overlay of the environment as well, which is not looked at; and the time is remembered before
the reload is attempted, so a reload that fails is not attempted again.

* `served_iff` : the settings served are those loaded last, if their log level is accepted;
* `converges_iff` : exactly when the first tick after the last edit serves what is in the files.
-/

namespace W2uos

/-- A time of the file system. -/
abbrev SystemTime := ℤ

/-- The filters of the tracing library. -/
class LogFilter where
  /-- `EnvFilter::try_new` accepts the text. -/
  accepts : String → Bool

/-- The configuration manager; the bus and the handle of its task are left out. -/
structure ConfigManagerService where
  envName : Option String
  current : NodeSettings
  lastModified : Option SystemTime

/-- The configuration files of a node. -/
structure ConfigDir where
  files : ConfigFiles
  /-- The modification time of the base file, if it has one; `none` if the file is not found. -/
  modified : Option (Option SystemTime)

section Watch

variable [EnvText] [Digest] [LogFilter] (env : Env)

/-- `apply_logging_config`. -/
def applyLoggingConfig (cfg : LoggingConfig) : Except String Unit :=
  if LogFilter.accepts cfg.level then .ok () else .error "invalid filter directive"

namespace ConfigManagerService

/-- `ConfigManagerService::new`. -/
def new (envName : Option String) (seed : NodeSettings) : ConfigManagerService where
  envName := envName
  current := seed
  lastModified := none

/-- `reload_now`, with the messages it publishes. -/
def reloadNow (s : ConfigManagerService) (files : ConfigFiles) :
    ConfigManagerService × List ConfigMessage × Except String Unit :=
  match files.loadWithEnv env s.envName with
  | .error err => (s, [], .error err)
  | .ok cfg =>
    let s := { s with current := cfg }
    match applyLoggingConfig cfg.logging with
    | .error err => (s, [], .error err)
    | .ok () => (s, cfg.publishUpdates, .ok ())

/-- One tick of `watch`; errors are only traced. -/
def watch (s : ConfigManagerService) (dir : ConfigDir) :
    ConfigManagerService × List ConfigMessage :=
  match dir.modified with
  | none => (s, [])
  | some modified =>
    if s.lastModified = none then
      let (s, messages, _) := reloadNow env { s with lastModified := modified } dir.files
      (s, messages)
    else if modified ≠ none ∧ modified ≠ s.lastModified then
      let (s, messages, _) := reloadNow env { s with lastModified := modified } dir.files
      (s, messages)
    else (s, [])

end ConfigManagerService

/-- The configuration manager and the files it watches. -/
structure Watched where
  service : ConfigManagerService
  dir : ConfigDir

/-- What happens to them: the base file is edited, an overlay is edited (`none`: removed), or a tick
comes.  While a file is being written, reading it fails. -/
inductive WatchInput
  | editBase (base : Except String TomlValue) (modified : Option (Option SystemTime))
  | editOverlay (name : String) (overlay : Option (Except String TomlValue))
  | tick

/-- The configuration manager under edits of its files. -/
def configWatch : Machine Watched WatchInput ConfigMessage where
  step w
    | .editBase base modified =>
      ({ w with dir := { files := { w.dir.files with base := base }, modified := modified } }, [])
    | .editOverlay name overlay =>
      ({ w with
          dir :=
            { w.dir with
              files :=
                { w.dir.files with
                  overlay := Function.update w.dir.files.overlay name overlay } } },
        [])
    | .tick =>
      let (service, messages) := w.service.watch env w.dir
      ({ w with service := service }, messages)

namespace Watched

/-- What a reload would load. -/
def load (w : Watched) : Except String NodeSettings :=
  w.dir.files.loadWithEnv env w.service.envName

omit [EnvText] [Digest] [LogFilter] in
/-- The next tick reloads: the base file is there, and no time is remembered, or another one than
the file has. -/
def Reloads (w : Watched) : Prop :=
  ∃ modified, w.dir.modified = some modified ∧
    (w.service.lastModified = none ∨ modified ≠ none ∧ modified ≠ w.service.lastModified)

instance (w : Watched) : Decidable w.Reloads :=
  match h : w.dir.modified with
  | none => isFalse (by simp [Reloads, h])
  | some modified =>
    decidable_of_iff
      (w.service.lastModified = none ∨ modified ≠ none ∧ modified ≠ w.service.lastModified)
      (by simp [Reloads, h])

end Watched

/-- What the reload of an input loads, if there is one. -/
def loadedOn (w : Watched) : WatchInput → Option NodeSettings
  | .tick => if w.Reloads then (w.load env).toOption else none
  | _ => none

/-- What the reloads of a history have loaded, in order. -/
def loads (w : Watched) : List WatchInput → List NodeSettings
  | [] => []
  | i :: is => (loadedOn env w i).toList ++ loads ((configWatch env).next w i) is

/-- After the history the settings are current, and the last ones published. -/
def Served (w : Watched) (h : List WatchInput) (cfg : NodeSettings) : Prop :=
  ((configWatch env).run w h).service.current = cfg ∧
    cfg.publishUpdates <:+ (configWatch env).output w h

/-! ### One input -/

variable {env} {w : Watched} {cfg : NodeSettings}

/-- A reload of files that load makes the settings current, and publishes them if their log level is
accepted. -/
theorem reloadNow_of_ok {s : ConfigManagerService} {files : ConfigFiles}
    (h : files.loadWithEnv env s.envName = .ok cfg) :
    (s.reloadNow env files).1 = { s with current := cfg } ∧
      (s.reloadNow env files).2.1 =
        if LogFilter.accepts cfg.logging.level then cfg.publishUpdates else [] := by
  unfold ConfigManagerService.reloadNow applyLoggingConfig
  rw [h]
  by_cases haccepts : LogFilter.accepts cfg.logging.level = true
  · simp only [haccepts, if_true, and_self]
  · simp only [haccepts, if_false, and_self, Bool.false_eq_true]

theorem reloadNow_of_error {s : ConfigManagerService} {files : ConfigFiles} {err : String}
    (h : files.loadWithEnv env s.envName = .error err) :
    s.reloadNow env files = (s, [], .error err) := by
  unfold ConfigManagerService.reloadNow
  rw [h]

theorem tick_idle (h : ¬ w.Reloads) : (configWatch env).step w .tick = (w, []) := by
  unfold configWatch ConfigManagerService.watch
  dsimp only
  cases hmod : w.dir.modified with
  | none => rfl
  | some modified =>
    have hsame : ¬ (w.service.lastModified = none ∨
        modified ≠ none ∧ modified ≠ w.service.lastModified) := fun hor => h ⟨modified, hmod, hor⟩
    rw [not_or] at hsame
    dsimp only
    rw [if_neg hsame.1, if_neg hsame.2]

/-- A tick that reloads does what a reload does, with the new time remembered. -/
theorem tick_reloads (env : Env) (h : w.Reloads) :
    ∃ modified, w.dir.modified = some modified ∧
      (configWatch env).next w .tick =
        { w with
          service :=
            (ConfigManagerService.reloadNow env { w.service with lastModified := modified }
              w.dir.files).1 } ∧
      (configWatch env).emit w .tick =
        (ConfigManagerService.reloadNow env { w.service with lastModified := modified }
          w.dir.files).2.1 := by
  obtain ⟨modified, hmod, hnew⟩ := h
  refine ⟨modified, hmod, ?_⟩
  unfold Machine.next Machine.emit configWatch ConfigManagerService.watch
  dsimp only
  rw [hmod]
  dsimp only
  by_cases hnone : w.service.lastModified = none
  · rw [if_pos hnone]
    exact ⟨rfl, rfl⟩
  · rw [if_neg hnone, if_pos (hnew.resolve_left hnone)]
    exact ⟨rfl, rfl⟩

/-- **What an input does**: it loads settings, which become current and are published if their log
level is accepted; or the settings stay, and nothing is published. -/
theorem watch_step (env : Env) (w : Watched) (i : WatchInput) :
    (∃ cfg, loadedOn env w i = some cfg ∧ ((configWatch env).next w i).service.current = cfg ∧
      (configWatch env).emit w i =
        if LogFilter.accepts cfg.logging.level then cfg.publishUpdates else []) ∨
    (loadedOn env w i = none ∧
      ((configWatch env).next w i).service.current = w.service.current ∧
      (configWatch env).emit w i = []) := by
  cases i with
  | editBase base modified => exact Or.inr ⟨rfl, rfl, rfl⟩
  | editOverlay name overlay => exact Or.inr ⟨rfl, rfl, rfl⟩
  | tick =>
    by_cases h : w.Reloads
    · obtain ⟨modified, -, hnext, hemit⟩ := tick_reloads env h
      rw [hnext, hemit, loadedOn, if_pos h, Watched.load]
      cases hload : w.dir.files.loadWithEnv env w.service.envName with
      | error err =>
        rw [reloadNow_of_error (s := { w.service with lastModified := modified }) hload]
        exact Or.inr ⟨rfl, rfl, rfl⟩
      | ok cfg =>
        obtain ⟨hservice, hmessages⟩ := reloadNow_of_ok
          (s := { w.service with lastModified := modified }) hload
        rw [hservice, hmessages]
        exact Or.inl ⟨cfg, rfl, rfl, rfl⟩
    · refine Or.inr ⟨by rw [loadedOn, if_neg h], ?_⟩
      rw [Machine.next, Machine.emit, tick_idle h]
      exact ⟨rfl, rfl⟩

/-- A tick leaves the files and the name of the environment as they are. -/
theorem tick_frame (env : Env) (w : Watched) :
    ((configWatch env).next w .tick).load env = w.load env ∧
      ((configWatch env).next w .tick).dir = w.dir := by
  by_cases h : w.Reloads
  · obtain ⟨modified, -, hnext, -⟩ := tick_reloads env h
    rw [hnext]
    cases hload : w.dir.files.loadWithEnv env w.service.envName with
    | error err =>
      rw [reloadNow_of_error (s := { w.service with lastModified := modified }) hload]
      exact ⟨rfl, rfl⟩
    | ok cfg =>
      rw [(reloadNow_of_ok (s := { w.service with lastModified := modified }) hload).1]
      exact ⟨rfl, rfl⟩
  · rw [Machine.next, tick_idle h]
    exact ⟨rfl, rfl⟩

/-! ### Histories -/

theorem loads_concat (env : Env) (w : Watched) (h : List WatchInput) (i : WatchInput) :
    loads env w (h ++ [i]) =
      loads env w h ++ (loadedOn env ((configWatch env).run w h) i).toList := by
  induction h generalizing w with
  | nil => simp [loads]
  | cons j h ih => rw [List.cons_append, loads, ih, loads, List.append_assoc, Machine.run_cons]

theorem accepts_of_published (env : Env) (w : Watched) (h : List WatchInput) :
    ∀ logging, .logging logging ∈ (configWatch env).output w h →
      LogFilter.accepts logging.level = true := by
  induction h using List.reverseRecOn with
  | nil => simp
  | append_singleton h i ih =>
    intro logging hmem
    rw [Machine.output_concat, List.mem_append] at hmem
    rcases hmem with hmem | hmem
    · exact ih logging hmem
    · rcases watch_step env ((configWatch env).run w h) i with ⟨cfg, -, -, hemit⟩ | ⟨-, -, hemit⟩
      · rw [hemit] at hmem
        split_ifs at hmem with haccepts
        · have hlogging : logging = cfg.logging := by
            simpa [NodeConfig.publishUpdates] using hmem
          rw [hlogging]
          exact haccepts
        · cases hmem
      · rw [hemit] at hmem
        cases hmem

/-- **The settings served** are those loaded last, if their log level is accepted. -/
theorem served_iff (env : Env) (w : Watched) (h : List WatchInput) (cfg : NodeSettings) :
    Served env w h cfg ↔
      (loads env w h).getLast? = some cfg ∧ LogFilter.accepts cfg.logging.level = true := by
  induction h using List.reverseRecOn with
  | nil =>
    refine iff_of_false ?_ (by simp [loads])
    rintro ⟨-, hsuffix⟩
    simp [NodeConfig.publishUpdates] at hsuffix
  | append_singleton h i ih =>
    rw [Served, loads_concat, Machine.run_concat, Machine.output_concat]
    rcases watch_step env ((configWatch env).run w h) i with ⟨loaded, hloaded, hcurrent, hemit⟩ |
      ⟨hloaded, hcurrent, hemit⟩
    · rw [hloaded, hcurrent, hemit, Option.toList_some, List.getLast?_concat, Option.some.injEq]
      constructor
      · rintro ⟨rfl, hsuffix⟩
        refine ⟨rfl, ?_⟩
        split_ifs at hsuffix with haccepts
        · exact haccepts
        · -- the messages would have been published before
          rw [List.append_nil] at hsuffix
          exact accepts_of_published env w h _
            (hsuffix.subset (by simp [NodeConfig.publishUpdates]))
      · rintro ⟨rfl, haccepts⟩
        rw [if_pos haccepts]
        exact ⟨rfl, List.suffix_append _ _⟩
    · rw [hloaded, hcurrent, hemit, Option.toList_none, List.append_nil, List.append_nil]
      exact ih

theorem load_ticks (env : Env) (w : Watched) (n : ℕ) :
    ((configWatch env).run w (List.replicate n .tick)).load env = w.load env := by
  induction n generalizing w with
  | zero => rfl
  | succ n ih => rw [List.replicate_succ, Machine.run_cons, ih, (tick_frame env w).1]

theorem loads_ticks {h : List WatchInput}
    (hload : ((configWatch env).run w h).load env = .ok cfg)
    (hlast : (loads env w h).getLast? = some cfg) (n : ℕ) :
    (loads env w (h ++ List.replicate n .tick)).getLast? = some cfg := by
  induction n with
  | zero => rwa [List.replicate_zero, List.append_nil]
  | succ n ih =>
    rw [List.replicate_succ', ← List.append_assoc, loads_concat, Machine.run_append, loadedOn,
      load_ticks, hload]
    split_ifs
    · exact List.getLast?_concat
    · rwa [Option.toList_none, List.append_nil]

/-- **Exactly when the first tick after an edit serves what is in the files**, and all later ones do
until the next edit: if the log level is accepted, and the tick reloads, or the files hold what has
been loaded last anyway. -/
theorem converges_iff (env : Env) (w : Watched) (h : List WatchInput) :
    (∀ cfg, ((configWatch env).run w h).load env = .ok cfg →
      ∀ n, Served env w (h ++ .tick :: List.replicate n .tick) cfg) ↔
    ∀ cfg, ((configWatch env).run w h).load env = .ok cfg →
      LogFilter.accepts cfg.logging.level = true ∧
        (((configWatch env).run w h).Reloads ∨ (loads env w h).getLast? = some cfg) := by
  refine forall₂_congr fun cfg hload => ?_
  have hfirst : (loads env w (h ++ [.tick])).getLast? = some cfg ↔
      ((configWatch env).run w h).Reloads ∨ (loads env w h).getLast? = some cfg := by
    rw [loads_concat, loadedOn, hload]
    by_cases hreloads : ((configWatch env).run w h).Reloads
    · simp [hreloads, Except.toOption]
    · simp [hreloads]
  constructor
  · intro hserved
    obtain ⟨hlast, haccepts⟩ := (served_iff env w _ cfg).1 (hserved 0)
    exact ⟨haccepts, hfirst.1 hlast⟩
  · rintro ⟨haccepts, hor⟩ n
    refine (served_iff env w _ cfg).2 ⟨?_, haccepts⟩
    have hload' : ((configWatch env).run w (h ++ [.tick])).load env = .ok cfg := by
      rw [Machine.run_concat, (tick_frame env _).1, hload]
    have hticks := loads_ticks hload' (hfirst.2 hor) n
    rwa [List.append_assoc] at hticks

end Watch

/-! ### An overlay that is edited -/

/-- A file that sets the number of open positions. -/
def positionsFile (maxOpenPositions : ℤ) : TomlValue :=
  .table [("global_risk", .table [("max_open_positions", .integer maxOpenPositions)])]

/-- The number of open positions a file sets. -/
def TomlValue.openPositions : TomlValue → ℕ
  | .table entries =>
    match TomlValue.lookup "global_risk" entries with
    | some (.table risk) =>
      match TomlValue.lookup "max_open_positions" risk with
      | some (.integer n) => n.toNat
      | _ => 0
    | _ => 0
  | _ => 0

/-- A node with a base file, changed at time 1, and no overlay. -/
def watchedNode : Watched where
  service := .new (some "prod") (directSettings (NetProfile.ofMode .direct))
  dir :=
    { files :=
        { base := .ok (positionsFile 10)
          overlay := fun _ => none
          tryInto := fun value =>
            .ok
              { directSettings (NetProfile.ofMode .direct) with
                globalRisk :=
                  { (directSettings (NetProfile.ofMode .direct)).globalRisk with
                    maxOpenPositions := value.openPositions } } }
      modified := some (some 1) }

/-- All filters. -/
@[reducible] def anyFilter : LogFilter := ⟨fun _ => true⟩

/-- The watch on ASCII texts, with no variables set. -/
abbrev sampleWatch : Machine Watched WatchInput ConfigMessage :=
  @configWatch asciiText devKeyDigest anyFilter fun _ => none

/-- An overlay is written after the first tick. -/
def overlayWritten : List WatchInput :=
  [.tick, .editOverlay "prod" (some (.ok (positionsFile 3)))]

/-- The base file is written while the overlay is not complete; the overlay is completed after the
tick. -/
def overlayCompleted : List WatchInput :=
  [.tick, .editOverlay "prod" (some (.error "unexpected end of file")),
    .editBase (.ok (positionsFile 20)) (some (some 2)), .tick,
    .editOverlay "prod" (some (.ok (positionsFile 3)))]

/-- **An edit that is never served**: the overlay is written after the first tick, or it is
completed after a tick that could not read it; the next tick finds the time of the base file
unchanged. -/
theorem not_converges :
    (¬ ∀ cfg,
      @Watched.load asciiText devKeyDigest (fun _ => none)
        (sampleWatch.run watchedNode overlayWritten) = .ok cfg →
      ∀ n, @Served asciiText devKeyDigest anyFilter (fun _ => none) watchedNode
        (overlayWritten ++ .tick :: List.replicate n .tick) cfg) ∧
    ¬ ∀ cfg,
      @Watched.load asciiText devKeyDigest (fun _ => none)
        (sampleWatch.run watchedNode overlayCompleted) = .ok cfg →
      ∀ n, @Served asciiText devKeyDigest anyFilter (fun _ => none) watchedNode
        (overlayCompleted ++ .tick :: List.replicate n .tick) cfg := by
  refine ⟨fun h => ?_, fun h => ?_⟩
  · have hcurrent := congrArg (fun cfg => cfg.globalRisk.maxOpenPositions) (h _ rfl 0).1
    exact absurd hcurrent (by decide)
  · have hcurrent := congrArg (fun cfg => cfg.globalRisk.maxOpenPositions) (h _ rfl 0).1
    exact absurd hcurrent (by decide)

end W2uos
