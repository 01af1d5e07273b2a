import PeerDeploy.Base.Table
import PeerDeploy.Cluster.SubmitTask

/-!
# The tasks of an agent that take up jobs

The tasks of one agent that meet in the registry of running jobs: the handlers of SubmitJob
messages (`crates/agent/src/p2p/mod.rs:1136–1289`), the executors they spawn
(`crates/agent/src/p2p/jobs.rs`) and the calls of `cancel_job`
(`crates/agent/src/job_manager.rs:220–244,362–376`). Each step runs to the next suspension. Only
the executor of a service is registered, and only after it has been spawned. A task whose handle
is aborted is gone at once.
-/

namespace PeerDeploy.Cluster

open PeerDeploy.Common PeerDeploy.Base PeerDeploy.Job

/-- How far an executor is. -/
inductive ExecutorPhase where
  /-- It runs the job or records its result. -/
  | running
  /-- The executor of a service has recorded its result and has yet to unregister. -/
  | unregister
  | ended
  | aborted
  deriving DecidableEq

/-- A spawned executor; its task stands at the execution or later. -/
structure Executor where
  task : SubmitTask
  phase : ExecutorPhase := .running
  deriving DecidableEq

/-- Its next step records the result of the job. -/
def Executor.finishes (executor : Executor) (input : StepInput) : Bool :=
  match executor.task.pc with
  | .executing => executor.task.spec.jobType ≠ .service ∨ input.result.isOk = false
  | .closing => true
  | _ => false

/-- The executor was aborted before it had recorded the result of the job. -/
def Executor.stopped (executor : Executor) : Bool :=
  executor.phase = .aborted ∧ executor.task.pc ≠ .finished

/-- The executor has not ended. -/
def Executor.live (executor : Executor) : Bool :=
  executor.phase = .running ∨ executor.phase = .unregister

/-- A handler of a SubmitJob message, with the executor that it has yet to register. -/
structure Handler where
  task : SubmitTask
  unregistered : Option Nat := none

/-- How far a call of `cancel_job` is. -/
inductive CancelPc where
  | mark
  | registry
  /-- The registry is dealt with; the store has yet to be saved. -/
  | save
  | returned (result : Bool)
  deriving DecidableEq

/-- A call of `cancel_job`. What was settled and ended is observed: the numbers of the executors,
of any job, that had recorded their results, and of those that had ended or been aborted, when the
call marked the record. -/
structure CancelCall where
  jobId : String
  pc : CancelPc := .mark
  settled : List Nat := []
  ended : List Nat := []
  deriving DecidableEq

/-- The job store of an agent, its tasks, and its registry of running jobs, which holds numbers
of executors. -/
structure Dispatcher where
  jobs : JobManagerState := {}
  handlers : List Handler := []
  executors : List Executor := []
  runningJobs : Std.ExtTreeMap String Nat := ∅
  cancels : List CancelCall := []

/-- What can happen on an agent. -/
inductive DispatchEvent where
  /-- A SubmitJob message is received. -/
  | submitJob (originNodeId jobId : String) (spec : JobSpec) (roles : List String)
  /-- `cancel_job` is called, by a CancelJob message or by the web interface. -/
  | cancelJob (jobId : String)
  | handler (k : Nat) (input : StepInput)
  | executor (k : Nat) (input : StepInput)
  /-- An executor panics while it runs the job. -/
  | panic (k : Nat)
  | cancel (k : Nat) (now : Clock)
  /-- Other messages and tasks change the job store. -/
  | change (jobs : JobManagerState)

namespace Dispatcher

/-- The numbers of the executors of a kind. -/
def numbersOf (d : Dispatcher) (p : Executor → Bool) : List Nat :=
  (List.range d.executors.length).filter fun id ↦ d.executors[id]?.any p

/-- These are the numbers of the executors of that kind, and no others. -/
theorem mem_numbersOf {d : Dispatcher} {p : Executor → Bool} {id : Nat} : id ∈ d.numbersOf p ↔
    ∃ executor : Executor, d.executors[id]? = some executor ∧ p executor = true := by
  rw [numbersOf, List.mem_filter, List.mem_range]
  constructor
  · intro h
    have hany := h.2
    rw [Option.any_eq_true] at hany
    exact hany
  · rintro ⟨executor, hexecutor, hp⟩
    constructor
    · exact (List.getElem?_eq_some_iff.mp hexecutor).1
    · simp [hexecutor, hp]

/-- The executors that have recorded their results, ended or been aborted. -/
def settled (d : Dispatcher) : List Nat :=
  d.numbersOf fun executor ↦ executor.phase ≠ .running

/-- The executors that have ended or been aborted. -/
def ended (d : Dispatcher) : List Nat := d.numbersOf fun executor ↦ !executor.live

/-- A call of `cancel_job` has marked the job and is yet to deal with the registry. -/
def midCancel (d : Dispatcher) (jobId : String) : Bool :=
  d.cancels.any fun call ↦ call.jobId = jobId ∧ call.pc = .registry

/-- Replace an executor. -/
def setExecutor (d : Dispatcher) (k : Nat) (executor : Executor) : Dispatcher :=
  { d with executors := d.executors.set k executor }

/-- Abort the task of an executor that has not ended. -/
def abort (executors : List Executor) (k : Nat) : List Executor :=
  executors.modify k fun executor ↦
    if executor.live then { executor with phase := .aborted } else executor

/-- The next step of a handler. -/
def advanceHandler (host : Host) (d : Dispatcher) (k : Nat) (handler : Handler)
    (input : StepInput) : Option Dispatcher :=
  let put (d : Dispatcher) (handler : Handler) : Dispatcher :=
    { d with handlers := d.handlers.set k handler }
  match handler.unregistered with
  | some id =>
    -- `register_running_job`
    some (put { d with runningJobs := d.runningJobs.insert handler.task.jobId id }
      { handler with unregistered := none })
  | none =>
    match handler.task.pc with
    | .spawn =>
      let task := { handler.task with pc := .executing }
      let unregistered := if task.spec.jobType = .service then some d.executors.length else none
      some (put { d with executors := d.executors ++ [{ task }] } { task, unregistered })
    | .executing | .closing => none
    | _ =>
      (handler.task.advance host d.jobs input).map fun (jobs, pc, _) ↦
        put { d with jobs } { handler with task := { handler.task with pc } }

/-- The next step of an executor. -/
def advanceExecutor (host : Host) (d : Dispatcher) (k : Nat) (executor : Executor)
    (input : StepInput) : Option Dispatcher :=
  match executor.phase with
  | .running =>
    (executor.task.advance host d.jobs input).map fun (jobs, pc, _) ↦
      let phase := if pc ≠ .finished then .running
        else if executor.task.spec.jobType = .service then .unregister else .ended
      { d with jobs }.setExecutor k { task := { executor.task with pc }, phase }
  | .unregister =>
    -- `unregister_running_job`
    some ({ d with runningJobs := d.runningJobs.erase executor.task.jobId }.setExecutor k
      { executor with phase := .ended })
  | .ended | .aborted => none

/-- The next step of a call of `cancel_job`; `crates/agent/src/job_manager.rs:220–244`. -/
def advanceCancel (d : Dispatcher) (k : Nat) (call : CancelCall) (now : Clock) :
    Option Dispatcher :=
  let put (d : Dispatcher) (pc : CancelPc) : Dispatcher :=
    { d with cancels := d.cancels.set k { call with pc } }
  match call.pc with
  | .mark =>
    let (jobs, marked) := d.jobs.cancelJob call.jobId now
    let pc := if marked then .registry else .returned false
    let call := { call with pc, settled := d.settled, ended := d.ended }
    some { d with jobs, cancels := d.cancels.set k call }
  | .registry =>
    match d.runningJobs[call.jobId]? with
    | some id =>
      some (put { d with
        runningJobs := d.runningJobs.erase call.jobId
        executors := abort d.executors id } .save)
    | none => some (put d .save)
  | .save => some (put d (.returned true))
  | .returned _ => none

/-- One event. -/
def step (host : Host) (d : Dispatcher) : DispatchEvent → Option Dispatcher
  | .submitJob originNodeId jobId spec roles =>
    some { d with handlers := d.handlers ++ [{ task := { originNodeId, jobId, spec, roles } }] }
  | .cancelJob jobId => some { d with cancels := d.cancels ++ [{ jobId }] }
  | .handler k input =>
    match d.handlers[k]? with
    | some handler => d.advanceHandler host k handler input
    | none => none
  | .executor k input =>
    match d.executors[k]? with
    | some executor => d.advanceExecutor host k executor input
    | none => none
  | .panic k =>
    match d.executors[k]? with
    | some executor =>
      if executor.phase = .running then
        some (d.setExecutor k { executor with phase := .ended })
      else none
    | none => none
  | .cancel k now =>
    match d.cancels[k]? with
    | some call => d.advanceCancel k call now
    | none => none
  | .change jobs => some { d with jobs }

end Dispatcher

end PeerDeploy.Cluster
