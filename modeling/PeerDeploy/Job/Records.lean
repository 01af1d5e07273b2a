import PeerDeploy.Job.Lifecycle
import PeerDeploy.Job.Snapshot
import Mathlib.Algebra.Ring.Int.Defs
import Mathlib.Logic.Function.Basic

/-!
# What every job record satisfies

The job stores of any number of nodes, with their files and the snapshots they exchange:
`crates/agent/src/job_manager.rs:74–307,309–360,440–466`. The file `jobs.json` is written and
read by serde_json, the schedules are read by the cron and chrono crates; these are parameters.
A merge of a snapshot takes the lock anew for each record, so each record is a step of its own.
-/

namespace PeerDeploy.Job

open PeerDeploy.Common PeerDeploy.Base

/-! ### Schedules -/

/-- What the schedule check reads from outside. Instants are nanoseconds since the epoch. -/
structure Calendar where
  /-- `Utc::now()`. -/
  now : Int
  /-- `DateTime::from_timestamp`. -/
  fromTimestamp : Int → Option Int
  /-- The next run of an expression, if it parses and has one. -/
  upcoming : String → Option Int

/-- `ts as i64`. -/
def asI64 (ts : Nat) : Int := Int.bmod ts (2 ^ 64)

/-- `now.timestamp() as u64`. -/
def Calendar.timestamp (calendar : Calendar) : Nat :=
  (calendar.now / 1000000000 % 2 ^ 64).toNat

/-- The job is due; `crates/agent/src/job_manager.rs:317–334`. -/
def isDue (calendar : Calendar) (job : JobInstance) : Bool :=
  match job.spec.jobType, job.spec.schedule.bind calendar.upcoming with
  | .recurring, some nextRun =>
    match job.lastScheduledAt with
    | some ts =>
      let last := (calendar.fromTimestamp (asI64 ts)).getD calendar.now
      last < nextRun && nextRun ≤ calendar.now
    | none => nextRun ≤ calendar.now
  | _, _ => false

/-- `crates/agent/src/job_manager.rs:336–338`. -/
def scheduleRecord (calendar : Calendar) (job : JobInstance) : JobInstance :=
  if isDue calendar job then
    { job with lastScheduledAt := some calendar.timestamp, updatedAt := calendar.timestamp }
  else job

namespace JobManagerState

/-- The store after the check, and what is due; `crates/agent/src/job_manager.rs:309–360`. -/
def evaluateSchedules (s : JobManagerState) (calendar : Calendar) :
    JobManagerState × List JobSpec :=
  ({ s with jobs := s.jobs.map fun _ job ↦ scheduleRecord calendar job },
    (s.records.filter (isDue calendar)).map (·.spec))

/-! ### The file -/

/-- A record read from the file; `crates/agent/src/job_manager.rs:79–86`. -/
def loadRecord (nodeId : String) (job : JobInstance) : JobInstance :=
  { job with
    updatedAt := if job.updatedAt = 0 then job.submittedAt else job.updatedAt
    originNodeId := if job.originNodeId = "" then nodeId else job.originNodeId }

/-- The store that `load_from_disk` puts in place; `crates/agent/src/job_manager.rs:74–94`. -/
def loaded (nodeId : String) (s : JobManagerState) : JobManagerState :=
  { s with jobs := s.jobs.map fun _ job ↦ loadRecord nodeId job }

end JobManagerState

/-- serde_json on a store: the text for an iteration order of the hash map, and its reading. -/
structure StoreCodec where
  toStringPretty : List String → JobManagerState → Bytes
  fromStr : Bytes → Option JobManagerState

/-- A text read back is the store that was written, and the beginning of a text is no other. -/
def StoreCodec.Faithful (codec : StoreCodec) : Prop :=
  ∀ order s written t, codec.fromStr ((codec.toStringPretty order s).take written) = some t → t = s

/-! ### Nodes -/

/-- The store of a node and the contents of its `jobs.json`. -/
structure StoreNode where
  jobs : JobManagerState := {}
  file : Option Bytes := none

/-- All nodes by peer id, and the snapshots they have sent. -/
structure StoreNet where
  node : String → StoreNode := fun _ ↦ {}
  sent : List (List JobInstance) := []

/-- What can happen. -/
inductive StoreEvent where
  | submitJob (n : String) (spec : JobSpec) (originNodeId jobId : Option String) (now : Clock)
  | call (n : String) (op : ManagerOp) (now : Clock)
  | evaluateSchedules (n : String) (calendar : Calendar)
  /-- Node `n` sends the snapshot of its tick. -/
  | tickSnapshot (n : String) (order : List String)
  /-- Node `n` sends the snapshot of a reply. -/
  | replySnapshot (n : String) (order : List String)
  /-- Node `n` merges the `j`-th record of the `i`-th snapshot. -/
  | syncJob (n : String) (i j : Nat)
  /-- Node `n` writes the given number of bytes of its file; all of them unless there is an
  error. -/
  | saveToDisk (n : String) (order : List String) (written : Nat)
  | loadFromDisk (n : String)

/-- Replace a node. -/
def StoreNet.put (c : StoreNet) (n : String) (node : StoreNode) : StoreNet :=
  { c with node := Function.update c.node n node }

/-- Replace the store of a node. -/
def StoreNet.setJobs (c : StoreNet) (n : String) (jobs : JobManagerState) : StoreNet :=
  c.put n { c.node n with jobs }

/-- One event. -/
def storeStep (codec : StoreCodec) (c : StoreNet) : StoreEvent → Option StoreNet
  | .submitJob n spec originNodeId jobId now =>
    some (c.setJobs n ((c.node n).jobs.submitJob n spec originNodeId jobId now).1)
  | .call n op now => some (c.setJobs n (op.apply (c.node n).jobs now))
  | .evaluateSchedules n calendar =>
    some (c.setJobs n ((c.node n).jobs.evaluateSchedules calendar).1)
  | .tickSnapshot n order =>
    some { c with sent := c.sent ++ [tickSnapshot ((c.node n).jobs.recordsIn order)] }
  | .replySnapshot n order =>
    some { c with sent := c.sent ++ [replySnapshot ((c.node n).jobs.recordsIn order)] }
  | .syncJob n i j =>
    match c.sent[i]? with
    | some jobs =>
      match jobs[j]? with
      | some job => some (c.setJobs n ((c.node n).jobs.syncJob job))
      | none => none
    | none => none
  | .saveToDisk n order written =>
    some (c.put n { c.node n with
      file := some ((codec.toStringPretty order (c.node n).jobs).take written) })
  | .loadFromDisk n =>
    match (c.node n).file with
    | some content =>
      match codec.fromStr content with
      | some s => some (c.setJobs n (s.loaded n))
      | none => some c
    | none => some c

/-! ### The invariant of a record -/

/-- What the status of a record says about its other fields. -/
def StatusOk (job : JobInstance) : Prop :=
  match job.status with
  | .pending => job.startedAt = none ∧ job.completedAt = none ∧ job.exitCode = none ∧
    job.errorMessage = none
  | .running => job.startedAt.isSome = true ∧ job.assignedNode.isSome = true
  | .completed => job.completedAt.isSome = true ∧ job.exitCode = some 0
  | .failed => job.completedAt.isSome = true ∧
    (job.errorMessage.isSome = true ∨ ∃ code, job.exitCode = some code ∧ code ≠ 0)
  | .cancelled => job.completedAt.isSome = true

/-- Every record is stored under its id and agrees with its status. -/
def StoreOk (s : JobManagerState) : Prop :=
  ∀ jobId job, s.getJob jobId = some job → job.id = jobId ∧ StatusOk job

/-- A fresh record is pending and has no results. -/
theorem statusOk_freshRecord (id origin : String) (spec : JobSpec) (now : Clock) :
    StatusOk (JobManagerState.freshRecord id origin spec now) := ⟨rfl, rfl, rfl, rfl⟩

/-- A call gives a record that agrees with its new status, whatever it was before. -/
theorem statusOk_change {job : JobInstance} (h : StatusOk job) (now : Clock) (op : ManagerOp) :
    StatusOk (op.change now job) := by
  cases op with
  | startJob id => exact ⟨rfl, rfl⟩
  | completeJob id exitCode =>
    change StatusOk (completeRecord exitCode now job)
    unfold StatusOk completeRecord JobInstance.complete JobInstance.addLog exitStatus
    by_cases hcode : exitCode = 0
    · simp [hcode]
    · simp [hcode]
  | failJob id error => exact ⟨rfl, .inl rfl⟩
  | cancelJob id =>
    simp only [ManagerOp.change]
    split
    · exact rfl
    · exact h
  | assignJob id nodeId =>
    change StatusOk (assignRecord nodeId now job)
    unfold StatusOk at h ⊢
    unfold assignRecord JobInstance.addLog
    cases hstatus : job.status with
    | running =>
      rw [hstatus] at h
      exact ⟨h.1, rfl⟩
    | _ =>
      rw [hstatus] at h
      exact h
  | addJobLog id level message => exact h
  | addJobArtifact id artifact => exact h

/-- The schedule check touches no field that the status is about. -/
theorem statusOk_scheduleRecord {job : JobInstance} (h : StatusOk job) (calendar : Calendar) :
    StatusOk (scheduleRecord calendar job) ∧ (scheduleRecord calendar job).id = job.id := by
  unfold scheduleRecord
  split
  · exact ⟨h, rfl⟩
  · exact ⟨h, rfl⟩

/-! ### The invariant of a store -/

private theorem storeOk_putJob {s : JobManagerState} (h : StoreOk s) {job : JobInstance}
    (hjob : StatusOk job) : StoreOk (s.putJob job.id job) := by
  intro jobId found hfound
  rw [JobManagerState.getJob_putJob] at hfound
  split at hfound
  · next heq =>
    cases hfound
    exact ⟨heq, hjob⟩
  · exact h jobId found hfound

private theorem storeOk_apply {s : JobManagerState} (h : StoreOk s) (now : Clock)
    (op : ManagerOp) : StoreOk (op.apply s now) := by
  intro jobId found hfound
  have hkeyed : s.Keyed := fun id job hjob ↦ (h id job hjob).1
  refine ⟨keyed_apply hkeyed now op jobId found hfound, ?_⟩
  rw [getJob_apply] at hfound
  split at hfound
  · obtain ⟨job, hjob, rfl⟩ := Option.map_eq_some_iff.mp hfound
    exact statusOk_change (h jobId job hjob).2 now op
  · exact (h jobId found hfound).2

private theorem storeOk_map {s : JobManagerState} (h : StoreOk s)
    {change : JobInstance → JobInstance}
    (hchange : ∀ job, StatusOk job → StatusOk (change job) ∧ (change job).id = job.id) :
    StoreOk { s with jobs := s.jobs.map fun _ job ↦ change job } := by
  intro jobId found hfound
  simp only [JobManagerState.getJob, Std.ExtTreeMap.getElem?_map] at hfound
  obtain ⟨job, hjob, rfl⟩ := Option.map_eq_some_iff.mp hfound
  obtain ⟨hid, hstatus⟩ := h jobId job hjob
  obtain ⟨hstatus', hid'⟩ := hchange job hstatus
  exact ⟨hid'.trans hid, hstatus'⟩

private theorem storeOk_syncJob {s : JobManagerState} (h : StoreOk s) {job : JobInstance}
    (hjob : StatusOk job) : StoreOk (s.syncJob job) := by
  unfold JobManagerState.syncJob
  split
  · split
    · exact storeOk_putJob h hjob
    · exact h
  · exact storeOk_putJob h hjob

private theorem mem_recentJobs {records : List JobInstance} {count : Nat} {job : JobInstance}
    (h : job ∈ recentJobs records count) : job ∈ records := by
  have hlisted := (List.mem_insertionSort _).mp (List.mem_of_mem_take h)
  exact (List.mem_insertionSort _).mp (List.mem_of_mem_take hlisted)

private theorem statusOk_recordsIn {s : JobManagerState} (h : StoreOk s) {order : List String}
    {job : JobInstance} (hin : job ∈ s.recordsIn order) : StatusOk job := by
  obtain ⟨jobId, -, hjob⟩ := List.mem_filterMap.mp hin
  exact (h jobId job hjob).2

private theorem statusOk_tickSnapshot {s : JobManagerState} (h : StoreOk s) (order : List String) :
    ∀ job ∈ tickSnapshot (s.recordsIn order), StatusOk job := by
  intro job hin
  obtain ⟨record, hrecord, rfl⟩ := List.mem_map.mp hin
  have hstatus := statusOk_recordsIn h (mem_recentJobs hrecord)
  exact hstatus

private theorem statusOk_replySnapshot {s : JobManagerState} (h : StoreOk s)
    (order : List String) : ∀ job ∈ replySnapshot (s.recordsIn order), StatusOk job := by
  intro job hin
  obtain ⟨record, hrecord, rfl⟩ := List.mem_map.mp hin
  have hstatus := statusOk_recordsIn h (mem_recentJobs hrecord)
  exact hstatus

/-- Stores, messages and files hold only records that agree with their status. -/
structure NetOk (codec : StoreCodec) (c : StoreNet) : Prop where
  stores : ∀ n, StoreOk (c.node n).jobs
  sent : ∀ jobs ∈ c.sent, ∀ job ∈ jobs, StatusOk job
  files : ∀ n content s, (c.node n).file = some content → codec.fromStr content = some s →
    StoreOk s

private theorem netOk_put {codec : StoreCodec} {c : StoreNet} (h : NetOk codec c) (n : String)
    {node : StoreNode} (hjobs : StoreOk node.jobs)
    (hfile : ∀ content s, node.file = some content → codec.fromStr content = some s →
      StoreOk s) : NetOk codec (c.put n node) := by
  have hnode : ∀ m, (c.put n node).node m = if m = n then node else c.node m := by
    intro m
    exact Function.update_apply c.node n node m
  constructor
  case stores =>
    intro m
    rw [hnode]
    split
    · exact hjobs
    · exact h.stores m
  case sent => exact h.sent
  case files =>
    intro m
    rw [hnode]
    split
    · exact hfile
    · exact h.files m

private theorem netOk_setJobs {codec : StoreCodec} {c : StoreNet} (h : NetOk codec c) (n : String)
    {jobs : JobManagerState} (hjobs : StoreOk jobs) : NetOk codec (c.setJobs n jobs) :=
  netOk_put h n hjobs (h.files n)

private theorem netOk_send {codec : StoreCodec} {c : StoreNet} (h : NetOk codec c)
    {snapshot : List JobInstance} (hsnapshot : ∀ job ∈ snapshot, StatusOk job) :
    NetOk codec { c with sent := c.sent ++ [snapshot] } := by
  refine ⟨h.stores, ?_, h.files⟩
  intro jobs hin
  rcases List.mem_append.mp hin with hin | hin
  · exact h.sent jobs hin
  · rw [List.mem_singleton.mp hin]
    exact hsnapshot

private theorem netOk_step {codec : StoreCodec} (hcodec : codec.Faithful) (c : StoreNet)
    (event : StoreEvent) (d : StoreNet) (h : NetOk codec c)
    (hstep : storeStep codec c event = some d) : NetOk codec d := by
  cases event with
  | submitJob n spec originNodeId jobId now =>
    cases hstep
    exact netOk_setJobs h n (storeOk_putJob (s := { (c.node n).jobs with nextId := _ }) (h.stores n)
      (statusOk_freshRecord _ _ spec now))
  | call n op now =>
    cases hstep
    exact netOk_setJobs h n (storeOk_apply (h.stores n) now op)
  | evaluateSchedules n calendar =>
    cases hstep
    exact netOk_setJobs h n
      (storeOk_map (h.stores n) fun job hjob ↦ statusOk_scheduleRecord hjob calendar)
  | tickSnapshot n order =>
    cases hstep
    exact netOk_send h (statusOk_tickSnapshot (h.stores n) order)
  | replySnapshot n order =>
    cases hstep
    exact netOk_send h (statusOk_replySnapshot (h.stores n) order)
  | syncJob n i j =>
    simp only [storeStep] at hstep
    split at hstep
    · next jobs hjobs =>
      split at hstep
      · next job hjob =>
        cases hstep
        have hstatus := h.sent jobs (List.mem_of_getElem? hjobs) job (List.mem_of_getElem? hjob)
        exact netOk_setJobs h n (storeOk_syncJob (h.stores n) hstatus)
      · cases hstep
    · cases hstep
  | saveToDisk n order written =>
    cases hstep
    apply netOk_put h n
    · exact h.stores n
    · intro content s heq hread
      cases heq
      rw [hcodec order _ written s hread]
      exact h.stores n
  | loadFromDisk n =>
    simp only [storeStep] at hstep
    split at hstep
    · next content hcontent =>
      split at hstep
      · next s hread =>
        cases hstep
        have hstore := h.files n content s hcontent hread
        exact netOk_setJobs h n (storeOk_map hstore fun job hjob ↦ ⟨hjob, rfl⟩)
      · cases hstep
        exact h
    · cases hstep
      exact h

/-- In every state of every run of nodes that start with empty stores and no files, every record
is stored under its id and its fields agree with its status. -/
theorem records_ok {codec : StoreCodec} (hcodec : codec.Faithful) (events : List StoreEvent) :
    Throughout (storeStep codec)
      (fun c ↦ ∀ n jobId job, (c.node n).jobs.getJob jobId = some job →
        job.id = jobId ∧ StatusOk job) {} events := by
  have hstart : NetOk codec {} :=
    { stores := fun n jobId job hjob ↦ by simp [JobManagerState.getJob] at hjob
      sent := fun jobs hin ↦ absurd hin List.not_mem_nil
      files := fun n content s hfile ↦ by cases hfile }
  exact throughout_of_invariant (fun c event d h _ hstep ↦ netOk_step hcodec c event d h hstep)
    (fun c h n ↦ h.stores n) hstart (stepsMeet_true _ events)

/-- The text of an empty store. -/
def emptyStoreText : Bytes := asBytes "\x7b\n  \"jobs\": \x7b\x7d,\n  \"next_id\": 1\n\x7d"

/-- serde_json as far as empty stores go. -/
def emptyStoreCodec : StoreCodec where
  toStringPretty _ s := if s.jobs.isEmpty ∧ s.nextId = 1 then emptyStoreText else []
  fromStr text := if text = emptyStoreText then some {} else none

/-- The codec of the empty store gives it back. -/
theorem faithful_emptyStoreCodec : emptyStoreCodec.Faithful := by
  intro order s written t hread
  simp only [emptyStoreCodec] at hread
  by_cases hs : s.jobs.isEmpty = true ∧ s.nextId = 1
  · have hempty : s = {} := by
      cases s
      rw [JobManagerState.mk.injEq]
      exact ⟨Std.ExtTreeMap.isEmpty_iff.mp hs.1, hs.2⟩
    rw [hempty]
    rw [if_pos hs] at hread
    split at hread
    · exact (Option.some.inj hread).symm
    · cases hread
  · rw [if_neg hs, List.take_nil, if_neg (by decide)] at hread
    cases hread

-- A node saves and loads its empty store, then takes a job and starts it.
private def savedAndStarted : List StoreEvent :=
  [.saveToDisk "node-a" [] 100, .loadFromDisk "node-a",
    .submitJob "node-a" { name := "build", runtime := .native "/bin/build" none [] [] } none
      (some "job-1") (fun _ ↦ 100),
    .call "node-a" (.startJob "job-1") fun _ ↦ 101]

/-- The record of the started job agrees with its status. -/
theorem records_ok_started :
    ∃ c job, run (storeStep emptyStoreCodec) {} savedAndStarted = some c ∧
      (c.node "node-a").jobs.getJob "job-1" = some job ∧ job.status = .running ∧
        job.id = "job-1" ∧ StatusOk job := by
  have hseen : (run (storeStep emptyStoreCodec) {} savedAndStarted).map
      (fun c ↦ ((c.node "node-a").jobs.getJob "job-1").map (·.status)) = some (some .running) := by
    decide
  obtain ⟨c, hrun, hc⟩ := Option.map_eq_some_iff.mp hseen
  obtain ⟨job, hjob, hstatus⟩ := Option.map_eq_some_iff.mp hc
  have hok := records_ok faithful_emptyStoreCodec savedAndStarted savedAndStarted [] (List.append_nil _).symm c hrun
    "node-a" "job-1" job hjob
  exact ⟨c, job, hrun, hjob, hstatus, hok⟩

end PeerDeploy.Job
