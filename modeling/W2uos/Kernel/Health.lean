import Mathlib.Data.Finmap
import W2uos.System.Machine
import W2uos.System.Tasks

/-!
# The health of a node

The kernel starts the registered services one after the other and keeps a text for each of them,
`Registered` at first and `Running` once it has been started.  The API answers `/health` from these
texts and the state of the kernel.  Nothing ever changes a text back, and the kernel does not ask
the services, so from the first complete start on a node is healthy for good.

A service is any implementation of the trait: it may do anything to its state at any time, between
the starts of the others too.

* `healthCheck_run` : a node is reported healthy exactly if a start has been completed;
* `healthCheck_append` : it is reported healthy for good;
* `healthSound_iff` : exactly when the report is sound.
-/

namespace W2uos

/-- An implementation of the trait `Service` with states `σ`; nobody but its owner stops it. -/
structure Service (σ : Type) where
  id : String
  start : σ → Except String Unit × σ
  healthCheck : σ → Except String Unit

/-- A service in a state. -/
structure Registered (σ : Type) where
  service : Service σ
  state : σ

/-- State of the kernel. -/
inductive KernelState
  | initialized
  | running
  deriving DecidableEq

/-- The kernel: the services, its state, the text of every service, and which service a call of
`start_all` in progress will start next. -/
structure Kernel (σ : Type) where
  services : List (Registered σ)
  state : KernelState
  serviceStates : Finmap fun _ : String => String
  starting : Option ℕ

namespace Kernel

variable {σ : Type}

/-- `Kernel::default`. -/
def default : Kernel σ := ⟨[], .initialized, ∅, none⟩

/-- `register_service`. -/
def registerService (k : Kernel σ) (svc : Registered σ) : Kernel σ :=
  { k with
    services := k.services ++ [svc]
    serviceStates := k.serviceStates.insert svc.service.id "Registered" }

/-- A kernel with some services. -/
def withServices (services : List (Registered σ)) : Kernel σ :=
  services.foldl registerService default

/-- `start_all` goes on to the next service, or ends. -/
def startNext (k : Kernel σ) : Kernel σ × List (Except String Unit) :=
  match k.starting with
  | none => (k, [])
  | some n =>
    match k.services[n]? with
    | none => ({ k with state := .running, starting := none }, [.ok ()])
    | some svc =>
      match svc.service.start svc.state with
      | (.ok (), state) =>
        ({ k with
            services := k.services.set n { svc with state := state }
            serviceStates := k.serviceStates.insert svc.service.id "Running"
            starting := some (n + 1) }, [])
      | (.error err, state) =>
        ({ k with
            services := k.services.set n { svc with state := state }
            starting := none }, [.error err])

/-- `ApiContext::health_check`. -/
def healthCheck (k : Kernel σ) : Bool :=
  k.state = .running ∧ ∀ e ∈ k.serviceStates.entries, e.2 = "Running"

end Kernel

/-- What happens to a kernel: a call of `start_all`, the call goes on, and a service changes its
state. -/
inductive KernelInput (σ : Type)
  | startAll
  | startNext
  | behave (n : ℕ) (state : σ)

/-- The kernel as a machine; it emits the answers of `start_all`.  A call is made when the one
before has been answered. -/
def kernel {σ : Type} : Machine (Kernel σ) (KernelInput σ) (Except String Unit) where
  step k
    | .startAll => (if k.starting = none then { k with starting := some 0 } else k, [])
    | .startNext => k.startNext
    | .behave n state =>
      ({ k with services := k.services.modify n fun svc => { svc with state := state } }, [])

/-! ### Services of the node -/

/-- A service that spawns a task when it is started and keeps the handle: there is none before, and
the task has finished or not. -/
def taskService (id notStarted finished : String) : Service (Option Bool) where
  id := id
  start _ := (.ok (), some false)
  healthCheck
    | none => .error notStarted
    | some true => .error finished
    | some false => .ok ()

/-- `LogKernelService`. -/
def logKernelService (id : String) : Service (Option Bool) :=
  taskService id "log service not started" "log service task finished unexpectedly"

/-- `BacktestKernelService`. -/
def backtestKernelService (id : String) : Service (Option Bool) :=
  taskService id "backtest engine not started" "backtest engine finished"

/-! ### The texts of the services -/

section Health

variable {σ : Type} {k : Kernel σ} {services : List (Registered σ)} {is : List (KernelInput σ)}

/-- The names of the services. -/
def Kernel.ids (k : Kernel σ) : List String := k.services.map (·.service.id)

/-- What the texts of a kernel say. -/
structure Kernel.Marked (k : Kernel σ) : Prop where
  /-- Only services have texts. -/
  known : ∀ id text, k.serviceStates.lookup id = some text → id ∈ k.ids
  /-- The services that a call has started are marked. -/
  started : ∀ n, k.starting = some n → ∀ id ∈ k.ids.take n,
    k.serviceStates.lookup id = some "Running"
  /-- In a running kernel all services are. -/
  running : k.state = .running → ∀ id text, k.serviceStates.lookup id = some text →
    text = "Running"

theorem Kernel.startNext_cases (k : Kernel σ) :
    (k.starting = none ∧ k.startNext = (k, [])) ∨
    (∃ n, k.starting = some n ∧ k.ids.length ≤ n ∧
      k.startNext = ({ k with state := .running, starting := none }, [.ok ()])) ∨
    ∃ (n : ℕ) (id : String) (services : List (Registered σ)),
      k.starting = some n ∧ k.ids[n]? = some id ∧ services.map (·.service.id) = k.ids ∧
      (k.startNext =
          ({ k with
              services := services
              serviceStates := k.serviceStates.insert id "Running"
              starting := some (n + 1) }, []) ∨
        ∃ err, k.startNext =
          ({ k with services := services, starting := none }, [.error err])) := by
  unfold startNext
  cases hstarting : k.starting with
  | none => exact Or.inl ⟨rfl, rfl⟩
  | some n =>
    refine Or.inr ?_
    dsimp only
    cases hsvc : k.services[n]? with
    | none =>
      refine Or.inl ⟨n, rfl, ?_, rfl⟩
      rw [ids, List.length_map]
      exact List.getElem?_eq_none_iff.1 hsvc
    | some svc =>
      refine Or.inr ?_
      dsimp only
      cases hstart : svc.service.start svc.state with
      | mk answer state =>
        refine ⟨n, svc.service.id, k.services.set n { svc with state := state }, rfl, ?_,
          Tasks.map_set hsvc rfl, ?_⟩
        · rw [ids, List.getElem?_map, hsvc, Option.map_some]
        · cases answer with
          | ok u => exact Or.inl rfl
          | error err => exact Or.inr ⟨err, rfl⟩

theorem ids_behave (k : Kernel σ) (n : ℕ) (state : σ) :
    (kernel.next k (.behave n state)).ids = k.ids :=
  Tasks.map_modify (f := fun svc : Registered σ => svc.service.id)
    (g := fun svc => { svc with state := state }) (fun _ => rfl) k.services n

theorem lookup_insert_running (texts : Finmap fun _ : String => String) (id : String) {other text}
    (h : (texts.insert id "Running").lookup other = some text) :
    text = "Running" ∧ other = id ∨ texts.lookup other = some text := by
  by_cases hother : other = id
  · subst hother
    rw [Finmap.lookup_insert, Option.some.injEq] at h
    exact Or.inl ⟨h.symm, rfl⟩
  · rw [Finmap.lookup_insert_of_ne _ hother] at h
    exact Or.inr h

/-- **The step lemma of the texts.** -/
theorem Kernel.Marked.next (h : k.Marked) (i : KernelInput σ) : (kernel.next k i).Marked := by
  cases i with
  | startAll =>
    change (if k.starting = none then { k with starting := some 0 } else k).Marked
    split_ifs
    · refine ⟨h.known, ?_, h.running⟩
      intro n hn id hid
      cases hn
      exact absurd hid (by simp)
    · exact h
  | behave n state =>
    have hids := ids_behave k n state
    refine ⟨?_, ?_, h.running⟩
    · rw [hids]
      exact h.known
    · rw [hids]
      exact h.started
  | startNext =>
    change k.startNext.1.Marked
    obtain ⟨-, heq⟩ | ⟨n, hn, hlength, heq⟩ | ⟨n, id, services, hn, hid, hservices, hstart⟩ :=
      k.startNext_cases
    · rw [heq]
      exact h
    · -- all services have been started
      rw [heq]
      refine ⟨h.known, by simp, ?_⟩
      intro _ id text htext
      have hid := h.known id text htext
      rw [← List.take_of_length_le hlength] at hid
      exact Option.some.inj (htext.symm.trans (h.started n hn id hid))
    · obtain heq | ⟨err, heq⟩ := hstart <;> rw [heq]
      · refine ⟨?_, ?_, ?_⟩
        · intro other text htext
          rw [ids, hservices]
          obtain ⟨-, rfl⟩ | htext := lookup_insert_running _ _ htext
          · exact List.mem_of_getElem? hid
          · exact h.known other text htext
        · intro m hm other hother
          cases hm
          rw [ids, hservices, List.take_add_one, hid, List.mem_append] at hother
          dsimp only
          by_cases hsame : other = id
          · rw [hsame, Finmap.lookup_insert]
          · rw [Finmap.lookup_insert_of_ne _ hsame]
            refine h.started n hn other (hother.resolve_right fun hmem => hsame ?_)
            simpa using hmem
        · intro hstate other text htext
          obtain ⟨rfl, -⟩ | htext := lookup_insert_running _ _ htext
          · rfl
          · exact h.running hstate other text htext
      · refine ⟨?_, by simp, h.running⟩
        rw [ids, hservices]
        exact h.known

theorem marked_withServices (services : List (Registered σ)) :
    (Kernel.withServices services).Marked ∧ (Kernel.withServices services).state = .initialized ∧
      (Kernel.withServices services).starting = none := by
  unfold Kernel.withServices
  induction services using List.reverseRecOn with
  | nil =>
    refine ⟨⟨?_, ?_, ?_⟩, rfl, rfl⟩
    · intro id text htext
      cases htext
    · intro n hn
      cases hn
    · intro hstate
      cases hstate
  | append_singleton services svc ih =>
    obtain ⟨hmarked, hstate, hstarting⟩ := ih
    rw [List.foldl_concat]
    generalize services.foldl Kernel.registerService Kernel.default = k at *
    refine ⟨⟨?_, ?_, ?_⟩, hstate, hstarting⟩
    · intro id text htext
      have hids : (k.registerService svc).ids = k.ids ++ [svc.service.id] :=
        List.map_append
      rw [hids, List.mem_append, List.mem_singleton]
      by_cases hid : id = svc.service.id
      · exact Or.inr hid
      · have htext' : (k.serviceStates.insert svc.service.id "Registered").lookup id = some text :=
          htext
        rw [Finmap.lookup_insert_of_ne _ hid] at htext'
        exact Or.inl (hmarked.known id text htext')
    · intro n hn
      exact absurd (hstarting.symm.trans hn) (by simp)
    · intro hrunning
      exact absurd (hstate.symm.trans hrunning) (by simp)

/-- **The run lemma of the texts.** -/
theorem marked_run (services : List (Registered σ)) (is : List (KernelInput σ)) :
    (kernel.run (Kernel.withServices services) is).Marked :=
  Machine.run_invariant (Q := fun _ => True) (marked_withServices services).1
    (fun _ i h _ => h.next i) (by simp)

theorem state_run (services : List (Registered σ)) (is : List (KernelInput σ)) :
    (kernel.run (Kernel.withServices services) is).state = .running ↔
      .ok () ∈ kernel.output (Kernel.withServices services) is := by
  refine Machine.history_induction (M := kernel) (Q := fun _ => True)
    (P := fun _ k answers => k.state = .running ↔ .ok () ∈ answers) ?_ ?_ (by simp)
  · rw [(marked_withServices services).2.1]
    simp
  · intro _ k answers i hk _
    rw [List.mem_append, ← hk]
    cases i with
    | startAll =>
      show (if k.starting = none then { k with starting := some 0 } else k).state = .running ↔
        _ ∨ _ ∈ []
      split_ifs <;> simp
    | behave n state =>
      show k.state = .running ↔ _ ∨ _ ∈ []
      simp
    | startNext =>
      show k.startNext.1.state = .running ↔ _ ∨ _ ∈ k.startNext.2
      obtain ⟨-, heq⟩ | ⟨n, -, -, heq⟩ | ⟨n, id, services, -, -, -, heq | ⟨err, heq⟩⟩ :=
        k.startNext_cases <;> rw [heq] <;> simp

theorem healthCheck_eq_true_iff :
    k.healthCheck = true ↔ k.state = .running ∧
      ∀ id text, k.serviceStates.lookup id = some text → text = "Running" := by
  rw [Kernel.healthCheck, decide_eq_true_iff]
  refine and_congr_right fun _ => ⟨?_, ?_⟩
  · intro h id text htext
    exact h ⟨id, text⟩ (Finmap.lookup_eq_some_iff.1 htext)
  · rintro h ⟨id, text⟩ he
    exact h id text (Finmap.lookup_eq_some_iff.2 he)

/-- **When a node is reported healthy**: from the first start that was completed. -/
theorem healthCheck_run (services : List (Registered σ)) (is : List (KernelInput σ)) :
    (kernel.run (Kernel.withServices services) is).healthCheck = true ↔
      .ok () ∈ kernel.output (Kernel.withServices services) is := by
  rw [healthCheck_eq_true_iff, ← state_run]
  exact and_iff_left_of_imp (marked_run services is).running

/-- A node that is healthy once is healthy from then on, whatever its services do. -/
theorem healthCheck_append {services : List (Registered σ)} {pre : List (KernelInput σ)}
    (h : (kernel.run (Kernel.withServices services) pre).healthCheck = true)
    (rest : List (KernelInput σ)) :
    (kernel.run (Kernel.withServices services) (pre ++ rest)).healthCheck = true := by
  rw [healthCheck_run] at h ⊢
  rw [Machine.output_append]
  exact List.mem_append_left _ h

end Health

/-! ### Soundness -/

section Soundness

variable {σ : Type}

/-- Every service of the kernel reports that it is healthy. -/
def Kernel.AllHealthy (k : Kernel σ) : Prop :=
  ∀ svc ∈ k.services, svc.service.healthCheck svc.state = .ok ()

/-- Whenever the API reports a healthy node, every service does. -/
def HealthSound (services : List (Registered σ)) (is : List (KernelInput σ)) : Prop :=
  ∀ pre, pre <+: is → (kernel.run (Kernel.withServices services) pre).healthCheck = true →
    (kernel.run (Kernel.withServices services) pre).AllHealthy

/-- **Soundness of the health report**: it is sound in a run exactly if no service reports an error
from the first start that was completed on. -/
theorem healthSound_iff (services : List (Registered σ)) (is : List (KernelInput σ)) :
    HealthSound services is ↔
      ∀ pre rest, is = pre ++ rest →
        .ok () ∈ kernel.output (Kernel.withServices services) pre →
          (kernel.run (Kernel.withServices services) pre).AllHealthy := by
  constructor
  · rintro h pre rest rfl hstarted
    exact h pre (List.prefix_append pre rest) ((healthCheck_run services pre).2 hstarted)
  · rintro h pre ⟨rest, rfl⟩ hhealthy
    exact h pre rest rfl ((healthCheck_run services pre).1 hhealthy)

/-- Two services of the node, before the start. -/
def logAndBacktest : List (Registered (Option Bool)) :=
  [⟨logKernelService "log", none⟩, ⟨backtestKernelService "backtest", none⟩]

/-- They are started, and the engine of the backtest comes to its end. -/
def backtestEnds : List (KernelInput (Option Bool)) :=
  [.startAll, .startNext, .startNext, .startNext, .behave 1 (some true)]

/-- **A node that is reported healthy and is not**: the engine of the backtest has come to its
end. -/
theorem not_healthSound :
    let k := kernel.run (Kernel.withServices logAndBacktest) backtestEnds
    k.healthCheck = true ∧
      k.services.map (fun svc => svc.service.healthCheck svc.state) =
        [.ok (), .error "backtest engine finished"] ∧
      ¬ HealthSound logAndBacktest backtestEnds := by
  intro k
  have hhealthy : k.healthCheck = true := (healthCheck_run _ _).2 (List.mem_singleton.2 rfl)
  refine ⟨hhealthy, rfl, fun h => ?_⟩
  have hreport := h _ (List.prefix_refl _) hhealthy
    ⟨backtestKernelService "backtest", some true⟩ (List.mem_cons_of_mem _ List.mem_cons_self)
  cases hreport

end Soundness

end W2uos
