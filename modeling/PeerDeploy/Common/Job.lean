/-!
# Job specifications and job records

Data model of `crates/common/src/lib.rs:453–751`. Wall-clock readings are whole seconds
since the Unix epoch; each reading that a function makes is an argument of its own, since
two consecutive readings may differ. `BTreeMap` fields are their entries in key order.
-/

namespace PeerDeploy.Common

/-- A preopened directory; `crates/common/src/lib.rs:288–294`. -/
structure MountSpec where
  host : String
  guest : String
  ro : Bool
  deriving DecidableEq, Repr

/-- `crates/common/src/lib.rs:473–479`. -/
inductive JobType where
  | oneShot
  | recurring
  | service
  deriving DecidableEq, Repr

/-- `crates/common/src/lib.rs:481–535`. -/
inductive JobRuntime where
  | wasm (source : String) (sha256Hex : Option String) (memoryMb fuel epochMs : Nat)
      (mounts : Option (List MountSpec))
  | native (binary : String) (sha256Hex : Option String) (args : List String)
      (env : List (String × String))
  | qemu (binary : String) (sha256Hex : Option String) (args : List String)
      (env : List (String × String)) (targetPlatform qemuBinary : Option String)
  deriving DecidableEq, Repr

/-- The digest that a runtime pins for its program. -/
def JobRuntime.digest : JobRuntime → Option String
  | .wasm _ sha256Hex _ _ _ _ | .native _ sha256Hex _ _ | .qemu _ sha256Hex _ _ _ _ => sha256Hex

/-- `crates/common/src/lib.rs:575–582`. -/
structure ArtifactSpec where
  path : String
  name : Option String := none
  deriving DecidableEq, Repr

/-- A blob to write before execution, `cas:<sha256>` to a host path;
`crates/common/src/lib.rs:584–590`. -/
structure PreStageSpec where
  source : String
  dest : String
  deriving DecidableEq, Repr

/-- `crates/common/src/lib.rs:547–563`. -/
structure JobExecution where
  workingDir : Option String := none
  timeoutMinutes : Option Nat := none
  artifacts : Option (List ArtifactSpec) := none
  preStage : List PreStageSpec := []
  deriving DecidableEq, Repr

/-- `crates/common/src/lib.rs:565–573`. -/
structure JobTargeting where
  platform : Option String := none
  tags : List String := []
  nodeIds : List String := []
  deriving DecidableEq, Repr

/-- `crates/common/src/lib.rs:455–467`. -/
structure JobSpec where
  name : String
  jobType : JobType := .oneShot
  schedule : Option String := none
  runtime : JobRuntime
  execution : JobExecution := {}
  targeting : Option JobTargeting := none
  deriving DecidableEq, Repr

/-- A captured artifact; `crates/common/src/lib.rs:592–602`. -/
structure JobArtifact where
  name : String
  storedPath : String
  sizeBytes : Option Nat := none
  sha256Hex : Option String := none
  deriving DecidableEq, Repr

/-- `crates/common/src/lib.rs:606–614`. -/
inductive JobStatus where
  | pending
  | running
  | completed
  | failed
  | cancelled
  deriving DecidableEq, Repr

/-- `crates/common/src/lib.rs:641–646`. -/
structure JobLogEntry where
  timestamp : Nat
  level : String
  message : String
  deriving DecidableEq, Repr

/-- A job record; `crates/common/src/lib.rs:616–639`. -/
structure JobInstance where
  id : String
  originNodeId : String
  spec : JobSpec
  status : JobStatus
  submittedAt : Nat
  updatedAt : Nat
  startedAt : Option Nat := none
  completedAt : Option Nat := none
  exitCode : Option Int := none
  errorMessage : Option String := none
  assignedNode : Option String := none
  logs : List JobLogEntry := []
  lastScheduledAt : Option Nat := none
  scheduleNextAt : Option Nat := none
  artifacts : List JobArtifact := []
  deriving DecidableEq, Repr

/-- A job that has come to an end: completed, failed or cancelled. -/
def JobStatus.Terminal : JobStatus → Prop
  | .pending | .running => False
  | .completed | .failed | .cancelled => True

/-- Whether a status is terminal is decidable. -/
instance : DecidablePred JobStatus.Terminal := fun status ↦
  match status with
  | .pending | .running => isFalse id
  | .completed | .failed | .cancelled => isTrue trivial

/-- The status that an exit code stands for; `crates/common/src/lib.rs:690–694`. -/
def exitStatus (exitCode : Int) : JobStatus := if exitCode = 0 then .completed else .failed

namespace JobInstance

/-- A fresh pending record; `crates/common/src/lib.rs:649–672`. -/
def new (id originNodeId : String) (spec : JobSpec) (submittedAt updatedAt : Nat) :
    JobInstance :=
  { id, originNodeId, spec, status := .pending, submittedAt, updatedAt }

/-- `crates/common/src/lib.rs:674–687`. -/
def start (job : JobInstance) (nodeId : String) (startedAt updatedAt : Nat) : JobInstance :=
  { job with status := .running, assignedNode := some nodeId, startedAt := some startedAt,
             updatedAt }

/-- `crates/common/src/lib.rs:689–706`. -/
def complete (job : JobInstance) (exitCode : Int) (completedAt updatedAt : Nat) : JobInstance :=
  { job with status := exitStatus exitCode, exitCode := some exitCode,
             completedAt := some completedAt, updatedAt }

/-- `crates/common/src/lib.rs:708–721`. -/
def fail (job : JobInstance) (error : String) (completedAt updatedAt : Nat) : JobInstance :=
  { job with status := .failed, errorMessage := some error,
             completedAt := some completedAt, updatedAt }

/-- `crates/common/src/lib.rs:723–735`. -/
def cancel (job : JobInstance) (completedAt updatedAt : Nat) : JobInstance :=
  { job with status := .cancelled, completedAt := some completedAt, updatedAt }

/-- `crates/common/src/lib.rs:737–750`. -/
def addLog (job : JobInstance) (level message : String) (timestamp updatedAt : Nat) :
    JobInstance :=
  { job with logs := job.logs ++ [⟨timestamp, level, message⟩], updatedAt }

end JobInstance

end PeerDeploy.Common
