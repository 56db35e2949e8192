import ElektronPool.Lib.JavaScript

namespace ElektronPool.Model

open Lib Lib.JavaScript

abbrev Environment := String → Option String

abbrev ServerId := ℕ

structure StratumListenerState where
  port : ℕ
  server : Option ServerId
  paused : Bool
deriving DecidableEq

/-- What is done to the sockets of the servers. -/
inductive ServerCall
  | listen (server : ServerId) (port : ℕ)
  | close (server : ServerId)
deriving DecidableEq

structure BackpressureSample where
  eventLoopP95Ms : ℕ
  rssMb : ℕ
deriving DecidableEq

structure BackpressureLimits where
  eventLoopP95Ms : ℕ
  eventLoopResumeP95Ms : ℕ
  rssMb : ℕ
  resumeRssMb : ℕ
  healthyChecks : ℕ
  healthyChecks_pos : 0 < healthyChecks

namespace StratumV1Service

def getPositiveIntegerEnv (env : Environment) (key : String) (fallback : ℕ) : ℕ :=
  match (env key).map parseInt10 with
  | some (.int configured) => if 0 < configured then configured.toNat else fallback
  | _ => fallback

theorem getPositiveIntegerEnv_pos {env : Environment} {key : String} {fallback : ℕ}
    (h : 0 < fallback) : 0 < getPositiveIntegerEnv env key fallback := by
  rw [getPositiveIntegerEnv]
  split
  · split
    · omega
    · exact h
  · exact h

/-- The limits are read again by every check. -/
def backpressureLimits (env : Environment) : BackpressureLimits where
  eventLoopP95Ms := getPositiveIntegerEnv env "STRATUM_BACKPRESSURE_EVENT_LOOP_P95_MS" 2000
  eventLoopResumeP95Ms :=
    getPositiveIntegerEnv env "STRATUM_BACKPRESSURE_EVENT_LOOP_RESUME_P95_MS" 250
  rssMb := getPositiveIntegerEnv env "STRATUM_BACKPRESSURE_RSS_MB" 2500
  resumeRssMb := getPositiveIntegerEnv env "STRATUM_BACKPRESSURE_RESUME_RSS_MB" 2000
  healthyChecks := getPositiveIntegerEnv env "STRATUM_BACKPRESSURE_HEALTHY_CHECKS" 3
  healthyChecks_pos := getPositiveIntegerEnv_pos (by decide)

end StratumV1Service

/-- The listeners of the service; the servers are numbered as they are created,
and `calls` are the calls to them, last first. -/
structure StratumV1Service where
  listeners : List StratumListenerState := []
  healthyBackpressureChecks : ℕ := 0
  created : ℕ := 0
  calls : List ServerCall := []
deriving DecidableEq

namespace StratumV1Service

variable (service : StratumV1Service)

def listen (listener : StratumListenerState) : StratumV1Service × StratumListenerState :=
  if listener.server ≠ none then (service, listener)
  else
    let server := service.created
    ({ service with
        created := service.created + 1
        calls := .listen server listener.port :: service.calls },
      { listener with server := some server, paused := false })

def startSocketServer (port : ℕ) : StratumV1Service :=
  let (service, listener) := service.listen { port, server := none, paused := false }
  { service with listeners := service.listeners ++ [listener] }

def pauseListener (listener : StratumListenerState) : StratumV1Service × StratumListenerState :=
  match listener.server with
  | some server =>
    if listener.paused then (service, listener)
    else
      ({ service with calls := .close server :: service.calls },
        { listener with server := none, paused := true })
  | none => (service, listener)

def resumeListener (listener : StratumListenerState) : StratumV1Service × StratumListenerState :=
  if !listener.paused || listener.server ≠ none then (service, listener)
  else service.listen listener

def forListeners (body : StratumV1Service → StratumListenerState →
    StratumV1Service × StratumListenerState) :
    List StratumListenerState → StratumV1Service → StratumV1Service × List StratumListenerState
  | [], service => (service, [])
  | listener :: listeners, service =>
    let (service, listener) := body service listener
    let (service, listeners) := forListeners body listeners service
    (service, listener :: listeners)

def pauseAccepting : StratumV1Service :=
  let (paused, listeners) := forListeners pauseListener service.listeners service
  { paused with listeners }

def resumeAccepting : StratumV1Service :=
  let (resumed, listeners) := forListeners resumeListener service.listeners service
  { resumed with listeners }

def isOverloaded (limits : BackpressureLimits) (sample : BackpressureSample) : Bool :=
  decide (limits.eventLoopP95Ms ≤ sample.eventLoopP95Ms) || decide (limits.rssMb ≤ sample.rssMb)

def isHealthy (limits : BackpressureLimits) (sample : BackpressureSample) : Bool :=
  decide (sample.eventLoopP95Ms ≤ limits.eventLoopResumeP95Ms) &&
    decide (sample.rssMb ≤ limits.resumeRssMb)

def checkBackpressure (limits : BackpressureLimits) (sample : BackpressureSample) :
    StratumV1Service :=
  let paused := service.listeners.any StratumListenerState.paused
  if isOverloaded limits sample then
    let service := { service with healthyBackpressureChecks := 0 }
    if !paused then service.pauseAccepting else service
  else if !paused then service
  else if !isHealthy limits sample then { service with healthyBackpressureChecks := 0 }
  else
    let service :=
      { service with healthyBackpressureChecks := service.healthyBackpressureChecks + 1 }
    if limits.healthyChecks ≤ service.healthyBackpressureChecks then
      { service.resumeAccepting with healthyBackpressureChecks := 0 }
    else service

/-- The service before the check of this number, when each check finds its sample. -/
def checked (limits : BackpressureLimits) (samples : ℕ → BackpressureSample) : ℕ → StratumV1Service
  | 0 => service
  | i + 1 => (checked limits samples i).checkBackpressure limits (samples i)

end StratumV1Service

end ElektronPool.Model
