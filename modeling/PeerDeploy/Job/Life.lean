import PeerDeploy.Job.Records

/-!
# The life of one job manager

What happens to the store of one manager, in order: submissions with and without an id, calls
on single jobs, schedule checks, merged records, saving and loading, and the end of the process
with a new manager over the same file. `crates/agent/src/job_manager.rs:46–136,309–360,440–453`.
-/

namespace PeerDeploy.Job

open PeerDeploy.Common PeerDeploy.Base

/-- A manager and its file. -/
structure LifeState where
  jobs : JobManagerState := {}
  file : Option Bytes := none
  /-- Kept for the statements: each id that this manager has generated, after its origin. -/
  generated : List (String × String) := []

/-- What can happen. -/
inductive LifeEvent where
  | submitJob (spec : JobSpec) (originNodeId jobId : Option String) (now : Clock)
  | call (op : ManagerOp) (now : Clock)
  | evaluateSchedules (calendar : Calendar)
  | syncJob (job : JobInstance)
  /-- The given number of bytes is written; all of them unless there is an error. -/
  | saveToDisk (order : List String) (written : Nat)
  | loadFromDisk
  /-- The process ends; another one makes its manager. -/
  | new

/-- The ids generated once a submission is made. -/
def LifeState.record (s : LifeState) (origin id : String) : Option String → List (String × String)
  | some _ => s.generated
  | none => (origin, id) :: s.generated

/-- One event at the node `nodeId`. -/
def lifeNext (codec : StoreCodec) (nodeId : String) (s : LifeState) : LifeEvent → LifeState
  | .submitJob spec originNodeId jobId now =>
    let (jobs, id) := s.jobs.submitJob nodeId spec originNodeId jobId now
    { s with jobs, generated := s.record (originNodeId.getD nodeId) id jobId }
  | .call op now => { s with jobs := op.apply s.jobs now }
  | .evaluateSchedules calendar => { s with jobs := (s.jobs.evaluateSchedules calendar).1 }
  | .syncJob job => { s with jobs := s.jobs.syncJob job }
  | .saveToDisk order written =>
    { s with file := some ((codec.toStringPretty order s.jobs).take written) }
  | .loadFromDisk =>
    match s.file.bind codec.fromStr with
    | some jobs => { s with jobs := jobs.loaded nodeId }
    | none => s
  | .new => { file := s.file }

/-- `lifeNext` as a machine; no event is ever refused. -/
def lifeStep (codec : StoreCodec) (nodeId : String) (s : LifeState) (event : LifeEvent) :
    Option LifeState :=
  some (lifeNext codec nodeId s event)

end PeerDeploy.Job
