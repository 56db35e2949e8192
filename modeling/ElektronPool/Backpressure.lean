import ElektronPool.Lib.Hysteresis
import ElektronPool.Model.StratumService

namespace ElektronPool.Backpressure

open Lib.Hysteresis Model Model.StratumV1Service

variable {limits : BackpressureLimits} {port : ℕ} {phase : Phase} {service : StratumV1Service}
  {samples : ℕ → BackpressureSample} {sample : BackpressureSample}

def states (limits : BackpressureLimits) (port : ℕ) (samples : ℕ → BackpressureSample) :
    ℕ → StratumV1Service := (startSocketServer {} port).checked limits samples

/-- The check `i` closes the server of a listener. -/
def ClosesAt (run : ℕ → StratumV1Service) (i : ℕ) : Prop :=
  ∃ listener ∈ (run i).listeners, ∃ server, listener.server = some server ∧
    (run (i + 1)).calls = .close server :: (run i).calls

/-- The check `i` has a listener without a server listen again. -/
def ReopensAt (run : ℕ → StratumV1Service) (i : ℕ) : Prop :=
  ∃ listener ∈ (run i).listeners, listener.server = none ∧ ∃ server,
    (run (i + 1)).calls = .listen server listener.port :: (run i).calls

def Recovers (limits : BackpressureLimits) (sample : BackpressureSample) : Prop :=
  isOverloaded limits sample = false ∧ isHealthy limits sample = true

/-- The last `healthyChecks` samples up to `i` all recover, and came after the check `p`. -/
def EndsRun (limits : BackpressureLimits) (samples : ℕ → BackpressureSample) (p i : ℕ) : Prop :=
  p + limits.healthyChecks ≤ i ∧
    ∀ j, i < j + limits.healthyChecks → j ≤ i → Recovers limits (samples j)

/-- What holds of the one listener in every reachable state. -/
def Steady (limits : BackpressureLimits) (port : ℕ) (service : StratumV1Service) : Prop :=
  ∃ listener, service.listeners = [listener] ∧ listener.port = port ∧
    (listener.paused = true ↔ listener.server = none) ∧
    service.healthyBackpressureChecks < limits.healthyChecks ∧
    (listener.server ≠ none → service.healthyBackpressureChecks = 0)

def gate (limits : BackpressureLimits) : Gate BackpressureSample where
  trips := isOverloaded limits
  recovers sample := !isOverloaded limits sample && isHealthy limits sample
  needed := limits.healthyChecks
  needed_pos := limits.healthyChecks_pos

theorem recovers_iff : (gate limits).recovers sample = true ↔ Recovers limits sample := by
  simp only [gate, Recovers, Bool.and_eq_true, Bool.not_eq_true']

inductive Shows (port : ℕ) : Phase → StratumV1Service → Prop
  | isOpen {service : StratumV1Service} (server : ServerId)
      (hlisteners : service.listeners = [⟨port, some server, false⟩])
      (hhealthy : service.healthyBackpressureChecks = 0) : Shows port .isOpen service
  | isClosed {service : StratumV1Service} (streak : ℕ)
      (hlisteners : service.listeners = [⟨port, none, true⟩])
      (hhealthy : service.healthyBackpressureChecks = streak) :
    Shows port (.isClosed streak) service

theorem shows_start (port : ℕ) : Shows port .isOpen (startSocketServer {} port) := .isOpen 0 rfl rfl

theorem pauseAccepting_eq (server : ServerId)
    (h : service.listeners = [⟨port, some server, false⟩]) :
    service.pauseAccepting =
      { service with
        listeners := [⟨port, none, true⟩]
        calls := .close server :: service.calls } := by
  simp [pauseAccepting, h, forListeners, pauseListener]

theorem resumeAccepting_eq (h : service.listeners = [⟨port, none, true⟩]) :
    service.resumeAccepting =
      { service with
        listeners := [⟨port, some service.created, false⟩]
        created := service.created + 1
        calls := .listen service.created port :: service.calls } := by
  simp [resumeAccepting, h, forListeners, resumeListener, StratumV1Service.listen]

/-- What a check does to the sockets when it takes the gate from one phase to another. -/
inductive Moves (port : ℕ) (service service' : StratumV1Service) : Phase → Phase → Prop
  | stays {phase phase' : Phase} (hphase : phase = .isOpen ↔ phase' = .isOpen)
      (h : service'.calls = service.calls) : Moves port service service' phase phase'
  | closes {streak : ℕ} (server : ServerId)
      (hlisteners : service.listeners = [⟨port, some server, false⟩])
      (h : service'.calls = .close server :: service.calls) :
    Moves port service service' .isOpen (.isClosed streak)
  | opens {streak : ℕ} (server : ServerId)
      (hlisteners : service.listeners = [⟨port, none, true⟩])
      (h : service'.calls = .listen server port :: service.calls) :
    Moves port service service' (.isClosed streak) .isOpen

theorem shows_check (h : Shows port phase service) :
    Shows port ((gate limits).next phase sample) (service.checkBackpressure limits sample) ∧
      Moves port service (service.checkBackpressure limits sample) phase
        ((gate limits).next phase sample) := by
  cases h with
  | isOpen server hlisteners hhealthy =>
    have hpaused : service.listeners.any StratumListenerState.paused = false := by simp [hlisteners]
    cases hover : isOverloaded limits sample with
    | true =>
      have hnext : (gate limits).next .isOpen sample = .isClosed 0 := by
        simp [Gate.next, gate, hover]
      have hcheck : service.checkBackpressure limits sample =
          { service with healthyBackpressureChecks := 0 }.pauseAccepting := by
        simp [checkBackpressure, hpaused, hover]
      rw [hnext, hcheck, pauseAccepting_eq server (by exact hlisteners)]
      exact ⟨.isClosed 0 rfl rfl, .closes server hlisteners rfl⟩
    | false =>
      have hnext : (gate limits).next .isOpen sample = .isOpen := by simp [Gate.next, gate, hover]
      have hcheck : service.checkBackpressure limits sample = service := by
        simp [checkBackpressure, hpaused, hover]
      rw [hnext, hcheck]
      exact ⟨.isOpen server hlisteners hhealthy, .stays Iff.rfl rfl⟩
  | isClosed streak hlisteners hhealthy =>
    have hpaused : service.listeners.any StratumListenerState.paused = true := by simp [hlisteners]
    have hreset (hno : (gate limits).recovers sample = false)
        (hcheck : service.checkBackpressure limits sample =
          { service with healthyBackpressureChecks := 0 }) :
        Shows port ((gate limits).next (.isClosed streak) sample)
            (service.checkBackpressure limits sample) ∧
          Moves port service (service.checkBackpressure limits sample) (.isClosed streak)
            ((gate limits).next (.isClosed streak) sample) := by
      have hnext : (gate limits).next (.isClosed streak) sample = .isClosed 0 := by
        simp [Gate.next, hno]
      rw [hnext, hcheck]
      exact ⟨.isClosed 0 hlisteners rfl, .stays (by simp) rfl⟩
    cases hover : isOverloaded limits sample with
    | true =>
      refine hreset (by simp [gate, hover]) ?_
      simp [checkBackpressure, hpaused, hover]
    | false =>
      cases hfit : isHealthy limits sample with
      | false =>
        refine hreset (by simp [gate, hfit]) ?_
        simp [checkBackpressure, hpaused, hover, hfit]
      | true =>
        have hrecovers : (gate limits).recovers sample = true := recovers_iff.mpr ⟨hover, hfit⟩
        by_cases hshort : streak + 1 < limits.healthyChecks
        · have hnext : (gate limits).next (.isClosed streak) sample = .isClosed (streak + 1) := by
            rw [Gate.next, if_pos hrecovers]
            exact if_pos hshort
          have hcheck : service.checkBackpressure limits sample =
              { service with healthyBackpressureChecks := streak + 1 } := by
            simp [checkBackpressure, hpaused, hover, hfit, hhealthy, Nat.not_le.mpr hshort]
          rw [hnext, hcheck]
          exact ⟨.isClosed (streak + 1) hlisteners rfl, .stays (by simp) rfl⟩
        · have hnext : (gate limits).next (.isClosed streak) sample = .isOpen := by
            rw [Gate.next, if_pos hrecovers]
            exact if_neg hshort
          have hcheck : service.checkBackpressure limits sample =
              { { service with healthyBackpressureChecks := streak + 1 }.resumeAccepting with
                healthyBackpressureChecks := 0 } := by
            simp [checkBackpressure, hpaused, hover, hfit, hhealthy, Nat.not_lt.mp hshort]
          rw [hnext, hcheck, resumeAccepting_eq (by exact hlisteners)]
          exact ⟨.isOpen service.created rfl rfl, .opens service.created hlisteners rfl⟩

theorem shows_checked (port i : ℕ) :
    Shows port ((gate limits).phase samples i) (states limits port samples i) := by
  induction i with
  | zero => exact shows_start port
  | succ i ih => exact (shows_check ih).1

theorem moves_checked (limits : BackpressureLimits) (samples : ℕ → BackpressureSample) (port i : ℕ) :
    Moves port (states limits port samples i) (states limits port samples (i + 1))
      ((gate limits).phase samples i) ((gate limits).phase samples (i + 1)) :=
  (shows_check (shows_checked port i)).2

theorem closesAt_iff (port i : ℕ) :
    ClosesAt (states limits port samples) i ↔
      (gate limits).Closes samples i := by
  rw [ClosesAt, Gate.Closes]
  have hmoves := moves_checked limits samples port i
  generalize (gate limits).phase samples i = phase at hmoves
  generalize (gate limits).phase samples (i + 1) = phase' at hmoves
  cases hmoves with
  | stays hphase h =>
    constructor
    · rintro ⟨listener, -, server, -, hcalls⟩
      exact absurd (hcalls.symm.trans h) (List.cons_ne_self _ _)
    · rintro ⟨hopen, hclosed⟩
      exact absurd (hphase.mp hopen) hclosed
  | closes server hlisteners h =>
    refine ⟨fun _ ↦ ⟨rfl, by simp⟩, fun _ ↦ ⟨⟨port, some server, false⟩, ?_, server, rfl, h⟩⟩
    rw [hlisteners]
    exact List.mem_singleton_self _
  | opens server hlisteners h =>
    constructor
    · rintro ⟨listener, -, server, -, hcalls⟩
      cases hcalls.symm.trans h
    · rintro ⟨hopen, -⟩
      cases hopen

theorem reopensAt_iff (port i : ℕ) :
    ReopensAt (states limits port samples) i ↔
      (gate limits).Opens samples i := by
  rw [ReopensAt, Gate.Opens]
  have hmoves := moves_checked limits samples port i
  generalize (gate limits).phase samples i = phase at hmoves
  generalize (gate limits).phase samples (i + 1) = phase' at hmoves
  cases hmoves with
  | stays hphase h =>
    constructor
    · rintro ⟨listener, -, -, server, hcalls⟩
      exact absurd (hcalls.symm.trans h) (List.cons_ne_self _ _)
    · rintro ⟨hclosed, hopen⟩
      exact absurd (hphase.mpr hopen) hclosed
  | closes server hlisteners h =>
    constructor
    · rintro ⟨listener, -, -, server, hcalls⟩
      cases hcalls.symm.trans h
    · rintro ⟨-, hopen⟩
      cases hopen
  | opens server hlisteners h =>
    refine ⟨fun _ ↦ ⟨by simp, rfl⟩, fun _ ↦ ⟨⟨port, none, true⟩, ?_, rfl, server, h⟩⟩
    rw [hlisteners]
    exact List.mem_singleton_self _

theorem endsRun_iff {p i : ℕ} : (gate limits).EndsRun samples p i ↔ EndsRun limits samples p i := by
  rw [Gate.EndsRun, EndsRun]
  simp only [recovers_iff]
  rfl

theorem steady_of_shows (h : Shows port phase service)
    (hstreak : ∀ streak, phase = .isClosed streak → streak < limits.healthyChecks) :
    Steady limits port service := by
  cases h with
  | isOpen server hlisteners hhealthy =>
    refine ⟨_, hlisteners, rfl, by simp, ?_, fun _ ↦ hhealthy⟩
    rw [hhealthy]
    exact limits.healthyChecks_pos
  | isClosed streak hlisteners hhealthy =>
    refine ⟨_, hlisteners, rfl, by simp, ?_, fun h ↦ absurd rfl h⟩
    rw [hhealthy]
    exact hstreak streak rfl

/-- The listener closes with the first overloaded sample it is open for and listens
again with the first that ends a run of recoveries after the pause. -/
theorem hysteresis (limits : BackpressureLimits) (port : ℕ) (samples : ℕ → BackpressureSample) :
    (∀ i, ClosesAt (states limits port samples) i ↔
      ∃ o, (o = 0 ∨ ∃ j, ReopensAt (states limits port samples) j ∧ o = j + 1) ∧
        IsLeast {i | o ≤ i ∧ isOverloaded limits (samples i) = true} i) ∧
    (∀ i, ReopensAt (states limits port samples) i ↔
      ∃ p, ClosesAt (states limits port samples) p ∧
        IsLeast {i | EndsRun limits samples p i} i) ∧
    ∀ i, Steady limits port (states limits port samples i) := by
  refine ⟨fun i ↦ ?_, fun i ↦ ?_, fun i ↦ ?_⟩
  · simp only [closesAt_iff, reopensAt_iff]
    exact Gate.closes_iff
  · simp only [closesAt_iff, reopensAt_iff, ← endsRun_iff]
    exact Gate.opens_iff
  · exact steady_of_shows (shows_checked port i) fun streak hphase ↦ Gate.streak_lt hphase

end ElektronPool.Backpressure
