import PeerDeploy.Base.Table
import PeerDeploy.Base.Transition
import PeerDeploy.Deploy.State

/-!
# The supervisor

`crates/agent/src/supervisor.rs:121–333`. A replica is a spawned task with a number; the
counters, the handles kept for cleaning up and the metrics are shared by all tasks. What
`reconcile_once` does between two of its suspensions is one step, and so is the end of a
replica. A task whose handle is aborted is gone at once: one that ends by itself first has
ended before the cleanup. A task that panics is gone, too, without its last lines: the runner
calls a function `run` of the component by the synchronous call, which panics on a store with
asynchronous support (`crates/agent/src/runner.rs:223–230`). There is one reconciling task
(`spawn_reconcile`).
-/

namespace PeerDeploy.Supervisor

open PeerDeploy.Common PeerDeploy.Base PeerDeploy.Deploy

/-- The text by which an HTTP component is told; `crates/agent/src/supervisor.rs:236`. -/
def httpExport : Bytes := asBytes "wasi:http/incoming-handler"

/-- The bytes contain the others. -/
def containsBytes (needle : Bytes) : Bytes → Bool
  | [] => needle.isEmpty
  | b :: rest => needle.isPrefixOf (b :: rest) || containsBytes needle rest

/-- A spawned replica. -/
structure Replica where
  /-- The key of the counter that the task lowers at its end. -/
  counter : String
  name : String
  path : String
  memoryMaxMb : Nat
  fuel : Nat
  epochMs : Nat
  mounts : Option (List MountSpec)
  workDir : Option String
  live : Bool := true
  deriving DecidableEq, Repr

/-- Where `reconcile_once` stands: what it has yet to visit, how many replicas it has yet to
launch, and a replica whose handle it has yet to keep. -/
inductive ReconcilePc where
  | visit (rest : List (String × DesiredComponent))
  | launch (key : String) (component : DesiredComponent) (left : Nat)
      (rest : List (String × DesiredComponent))
  | register (id : Nat) (key : String) (component : DesiredComponent) (left : Nat)
      (rest : List (String × DesiredComponent))

/-- `crates/agent/src/supervisor.rs:24–30`, with the tasks and the metrics. -/
structure SupervisorState where
  desired : Std.ExtTreeMap String DesiredComponent := ∅
  counts : Std.ExtTreeMap String Nat := ∅
  /-- The handles by component name; a handle is the number of its replica. -/
  tasks : Std.ExtTreeMap String (List Nat) := ∅
  /-- The replicas ever spawned, by number. -/
  replicas : List Replica := []
  componentsDesired : Nat := 0
  componentsRunning : Nat := 0
  restartsTotal : Nat := 0
  reconcile : Option ReconcilePc := none
  /-- The counters raised for HTTP components. No step reads it. -/
  httpStaged : List String := []

/-- What a launch reads from outside. -/
structure LaunchInput where
  /-- The bytes of the artifact, if it can be read. -/
  wasm : Option Bytes := some []
  /-- The clock in microseconds. -/
  micros : Nat := 0

/-- `desired.spec.replicas.unwrap_or(1).max(1)`. -/
def wanted (component : DesiredComponent) : Nat := max (component.spec.replicas.getD 1) 1

/-- The mounts of a replica with its own work directory, and that directory;
`crates/agent/src/supervisor.rs:256–292`. -/
def workMounts (baseWorkDir : String) (mounts : Option (List MountSpec)) (micros : Nat) :
    Option (List MountSpec) × Option String :=
  match mounts with
  | none => (none, none)
  | some list =>
    if list.any fun mount ↦ Path.startsWith baseWorkDir mount.host then
      let dir := Path.join baseWorkDir (toString micros)
      (some (list.map fun mount ↦
        if Path.startsWith baseWorkDir mount.host then { mount with host := dir } else mount),
        some dir)
    else (some list, none)

/-- `crates/agent/src/supervisor.rs:252–255`. -/
def baseWorkDir (dataDir name : String) : String :=
  Path.join (Path.join (Path.join dataDir "work") "components") name

/-- The task that a launch spawns; `crates/agent/src/supervisor.rs:223–233,294–321`. -/
def replicaOf (dataDir key : String) (component : DesiredComponent) (micros : Nat) : Replica :=
  let mounts := workMounts (baseWorkDir dataDir component.name) component.spec.mounts micros
  { counter := key
    name := component.name
    path := component.path
    memoryMaxMb := component.spec.memoryMaxMb.getD 64
    fuel := component.spec.fuel.getD 0
    epochMs := component.spec.epochMs.getD 100
    mounts := mounts.1
    workDir := mounts.2 }

/-- The artifact has the export of an HTTP component. -/
def LaunchInput.isHttp (input : LaunchInput) : Bool :=
  match input.wasm with
  | none => false
  | some bytes => containsBytes httpExport bytes

namespace SupervisorState

/-- A counter, zero if there is none. -/
def count (s : SupervisorState) (key : String) : Nat := s.counts[key]?.getD 0

/-- Make a counter unless there is one. -/
def ensureCount (s : SupervisorState) (key : String) : SupervisorState :=
  { s with counts := s.counts.insert key (s.count key) }

/-- `crates/agent/src/supervisor.rs:121–132`. -/
def setDesired (s : SupervisorState) (desired : Std.ExtTreeMap String DesiredComponent) :
    SupervisorState :=
  desired.keys.foldl ensureCount { s with desired, componentsDesired := desired.size }

/-- `crates/agent/src/supervisor.rs:135–145`. -/
def upsertComponent (s : SupervisorState) (component : DesiredComponent) : SupervisorState :=
  let desired := s.desired.insert component.name component
  ensureCount { s with desired, componentsDesired := desired.size } component.name

/-- Count one more replica. -/
def raise (s : SupervisorState) (key : String) : SupervisorState :=
  { s with
    componentsRunning := s.componentsRunning + 1
    counts := s.counts.insert key (s.count key + 1) }

/-- `launch_replica` up to the spawned task; an HTTP component is counted only.
`crates/agent/src/supervisor.rs:223–322`. -/
def launchReplica (dataDir : String) (s : SupervisorState) (key : String)
    (component : DesiredComponent) (input : LaunchInput) : SupervisorState :=
  if input.isHttp then
    { s.raise key with httpStaged := key :: s.httpStaged }
  else
    { s.raise key with replicas := s.replicas ++ [replicaOf dataDir key component input.micros] }

/-- Keep the handle of a replica; `crates/agent/src/supervisor.rs:324–329`. -/
def keepHandle (s : SupervisorState) (name : String) (id : Nat) : SupervisorState :=
  { s with tasks := s.tasks.insert name (s.tasks[name]?.getD [] ++ [id]) }

/-- The next step of `reconcile_once`; `crates/agent/src/supervisor.rs:167–188`. -/
def advance (dataDir : String) (s : SupervisorState) (input : LaunchInput) :
    Option SupervisorState :=
  match s.reconcile with
  | none => none
  | some (.visit []) => some { s with reconcile := none }
  | some (.visit ((key, component) :: rest)) =>
    let left := wanted component - s.count key
    some { s.ensureCount key with reconcile := some (.launch key component left rest) }
  | some (.launch _ _ 0 rest) => some { s with reconcile := some (.visit rest) }
  | some (.launch key component (left + 1) rest) =>
    let next := if input.isHttp then ReconcilePc.launch key component left rest
      else .register s.replicas.length key component left rest
    some { s.launchReplica dataDir key component input with reconcile := some next }
  | some (.register id key component left rest) =>
    some { s.keepHandle component.name id with
      reconcile := some (.launch key component left rest) }

/-- A replica comes to its end; `crates/agent/src/supervisor.rs:314–321`. -/
def exit (s : SupervisorState) (id : Nat) : Option SupervisorState :=
  match s.replicas[id]? with
  | none => none
  | some replica =>
    if replica.live then
      some { s with
        replicas := s.replicas.set id { replica with live := false }
        componentsRunning := s.componentsRunning - 1
        restartsTotal := s.restartsTotal + 1
        counts := s.counts.insert replica.counter (s.count replica.counter - 1) }
    else none

/-- Abort some tasks. -/
def abort (replicas : List Replica) (ids : List Nat) : List Replica :=
  replicas.mapIdx fun id replica ↦ if id ∈ ids then { replica with live := false } else replica

/-- The task of a replica panics; `crates/agent/src/runner.rs:223–230`. -/
def crash (s : SupervisorState) (id : Nat) : Option SupervisorState :=
  if s.replicas[id]?.any (·.live) then some { s with replicas := abort s.replicas [id] } else none

/-- `crates/agent/src/supervisor.rs:191–209`. -/
def cleanupComponent (s : SupervisorState) (name : String) : SupervisorState :=
  match s.tasks[name]? with
  | none => s
  | some ids => { s with tasks := s.tasks.erase name, replicas := abort s.replicas ids }

end SupervisorState

/-- What happens to a supervisor. The end of a replica is its normal one, or a panic of its task. -/
inductive Event where
  | setDesired (desired : Std.ExtTreeMap String DesiredComponent)
  | upsertComponent (component : DesiredComponent)
  /-- `reconcile_once` starts with a copy of the desired map. -/
  | reconcile
  /-- `reconcile_once` runs to its next suspension. -/
  | advance (input : LaunchInput)
  | exit (id : Nat)
  | crash (id : Nat)
  | cleanupComponent (name : String)

/-- One event. -/
def step (dataDir : String) (s : SupervisorState) : Event → Option SupervisorState
  | .setDesired desired => some (s.setDesired desired)
  | .upsertComponent component => some (s.upsertComponent component)
  | .reconcile =>
    match s.reconcile with
    | none => some { s with reconcile := some (.visit s.desired.toList) }
    | some _ => none
  | .advance input => s.advance dataDir input
  | .exit id => s.exit id
  | .crash id => s.crash id
  | .cleanupComponent name => some (s.cleanupComponent name)

end PeerDeploy.Supervisor
