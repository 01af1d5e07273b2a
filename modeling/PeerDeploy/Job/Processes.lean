import PeerDeploy.Job.Records

/-!
# Two processes on one job file

The agent loads `jobs.json` once and then saves its whole store after each operation; the web
interface and the command line open a manager of their own for one operation, load the file,
change their copy and save it (`crates/agent/src/job_manager.rs:74–244`,
`crates/agent/src/web/jobs.rs:145–179`, `crates/agent/src/cmd/job.rs:138–143,588–596`). The file
is the store that serde_json reads from it; saves succeed.
-/

namespace PeerDeploy.Job

open PeerDeploy.Common PeerDeploy.Base

/-- An operation of the agent that ends with a save. -/
inductive AgentOp where
  | submit (spec : JobSpec) (originNodeId jobId : Option String)
  | call (op : ManagerOp)
  | sync (jobs : List JobInstance)

/-- Where an operation of the agent stands. -/
inductive AgentPc where
  /-- Records are still to be merged, each under the lock. -/
  | merging (jobs : List JobInstance)
  | saving
  | done
  deriving DecidableEq

/-- The one operation of a second manager. -/
inductive VisitOp where
  | submit (spec : JobSpec) (originNodeId jobId : Option String)
  | cancel (jobId : String)

/-- A second manager, opened under a node id. -/
structure Visit where
  nodeId : String
  op : VisitOp

/-- Where a second manager stands, with its store and the file it has loaded. -/
inductive VisitPc where
  | opened
  | loaded (store : JobManagerState) (source : Option JobManagerState)
  | changed (store : JobManagerState) (source : Option JobManagerState) (now : Clock)
  | done

/-- The store of a manager that has loaded a file; `crates/agent/src/job_manager.rs:74–94`. -/
def loadedStore (nodeId : String) (file : Option JobManagerState) : JobManagerState :=
  (file.getD {}).loaded nodeId

/-- The store after the operation of a second manager, and whether it is saved;
`crates/agent/src/job_manager.rs:105–136,220–244`. -/
def VisitOp.apply (nodeId : String) (s : JobManagerState) (now : Clock) :
    VisitOp → JobManagerState × Bool
  | .submit spec originNodeId jobId => ((s.submitJob nodeId spec originNodeId jobId now).1, true)
  | .cancel jobId => s.cancelJob jobId now

/-- The operation saves the store; `cancel_job` does so only when it cancels. -/
def savesAfter (s : JobManagerState) (now : Clock) : ManagerOp → Bool
  | .cancelJob jobId => (s.cancelJob jobId now).2
  | _ => true

/-- The file, the agent with its operations, and the second managers. The ledger is no part of
the system: it is the store that all operations would leave if there were only one. -/
structure JobDesk where
  file : Option JobManagerState
  agent : Option JobManagerState := none
  calls : List AgentPc := []
  visits : List (Visit × VisitPc) := []
  ledger : JobManagerState

/-- The file before any manager is open. -/
def JobDesk.start (file : Option JobManagerState) : JobDesk where
  file := file
  ledger := file.getD {}

/-- What can happen. -/
inductive DeskEvent where
  | agentLoads
  /-- The agent makes the change of an operation, or begins to merge. -/
  | agentCall (op : AgentOp) (now : Clock)
  /-- The `k`-th operation of the agent merges one record or saves. -/
  | agentAdvance (k : Nat)
  | visit (v : Visit)
  /-- The `k`-th second manager takes its next step. -/
  | visitAdvance (k : Nat) (now : Clock)

/-- The agent makes a change, which the ledger makes too. -/
def JobDesk.change (s : JobDesk) (store : JobManagerState)
    (f : JobManagerState → JobManagerState) (calls : List AgentPc) : JobDesk :=
  { s with agent := some (f store), ledger := f s.ledger, calls }

/-- One event. -/
def deskStep (nodeId : String) (s : JobDesk) : DeskEvent → Option JobDesk
  | .agentLoads =>
    match s.agent with
    | some _ => none
    | none => some { s with
        agent := some (loadedStore nodeId s.file)
        ledger := s.ledger.loaded nodeId }
  | .agentCall op now =>
    match s.agent, op with
    | none, _ => none
    | some store, .submit spec originNodeId jobId =>
      some (s.change store (fun s ↦ (s.submitJob nodeId spec originNodeId jobId now).1)
        (s.calls ++ [.saving]))
    -- a log line is not saved
    | some _, .call (.addJobLog _ _ _) => none
    | some store, .call op =>
      some (s.change store (op.apply · now)
        (s.calls ++ [if savesAfter store now op then .saving else .done]))
    | some _, .sync jobs => some { s with calls := s.calls ++ [.merging jobs] }
  | .agentAdvance k =>
    match s.agent, s.calls[k]? with
    | some store, some (.merging (job :: jobs)) =>
      some (s.change store (·.syncJob job) (s.calls.set k (.merging jobs)))
    | some store, some (.merging []) | some store, some .saving =>
      some { s with file := some store, calls := s.calls.set k .done }
    | _, _ => none
  | .visit v => some { s with visits := s.visits ++ [(v, .opened)] }
  | .visitAdvance k now =>
    match s.visits[k]? with
    | some (v, .opened) =>
      some { s with visits := s.visits.set k (v, .loaded (loadedStore v.nodeId s.file) s.file) }
    | some (v, .loaded store source) =>
      match v.op.apply v.nodeId store now with
      | (store, true) => some { s with visits := s.visits.set k (v, .changed store source now) }
      | (_, false) => some { s with visits := s.visits.set k (v, .done) }
    | some (v, .changed store _ now) =>
      some { s with
        file := some store
        ledger := (v.op.apply v.nodeId (s.ledger.loaded v.nodeId) now).1
        visits := s.visits.set k (v, .done) }
    | _ => none

/-- No operation is on its way. -/
def JobDesk.Quiet (s : JobDesk) : Prop :=
  (∀ pc ∈ s.calls, pc = .done) ∧ ∀ visit ∈ s.visits, visit.2 = .done

/-- The effects of all operations are there: the agent has the store of the ledger, and, unless
an operation of the agent is on its way, so has the file, at least when the agent loads it. -/
def JobDesk.Present (nodeId : String) (s : JobDesk) : Prop :=
  match s.agent with
  | none => s.file.getD {} = s.ledger
  | some store => store = s.ledger ∧
    ((∀ pc ∈ s.calls, pc = .done) → s.file = some s.ledger ∨ loadedStore nodeId s.file = s.ledger)

/-- A second manager that saves a change does so before the agent has loaded the file, and finds
the file as it has loaded it. -/
def JobDesk.Apart (s : JobDesk) : DeskEvent → Prop
  | .visitAdvance k _ => ∀ v store source now, s.visits[k]? = some (v, .changed store source now) →
    s.agent = none ∧ s.file = source
  | _ => True

/-! ### One step -/

/-- The store of a second manager comes from the file that it has loaded. -/
def Visit.Derived (v : Visit) : VisitPc → Prop
  | .loaded store source => store = loadedStore v.nodeId source
  | .changed store source now =>
    store = (v.op.apply v.nodeId (loadedStore v.nodeId source) now).1
  | .opened | .done => True

/-- What every state satisfies in which the second managers have kept apart. -/
structure DeskInv (nodeId : String) (s : JobDesk) : Prop where
  present : s.Present nodeId
  derived : ∀ visit ∈ s.visits, visit.1.Derived visit.2

section Steps

variable {nodeId : String} {s t : JobDesk}

private theorem apply_of_unsaved {store : JobManagerState} {now : Clock} {op : ManagerOp}
    (h : savesAfter store now op = false) : op.apply store now = store := by
  cases op with
  | cancelJob jobId =>
    simp only [savesAfter, ManagerOp.apply, JobManagerState.cancelJob] at h ⊢
    cases hjob : store.getJob jobId with
    | none => rfl
    | some job =>
      simp only [hjob] at h ⊢
      split at h
      · cases h
      · next hfinished => rw [if_neg hfinished]
  | _ => cases h

private theorem present_agent (h : DeskInv nodeId s) {store : JobManagerState}
    (hagent : s.agent = some store) : store = s.ledger ∧ ((∀ pc ∈ s.calls, pc = .done) →
      s.file = some s.ledger ∨ loadedStore nodeId s.file = s.ledger) := by
  have hpresent := h.present
  simpa only [JobDesk.Present, hagent] using hpresent

-- A change in the agent is one in the ledger; the file may lag while the change is saved.
private theorem deskInv_change (h : DeskInv nodeId s) {store : JobManagerState}
    (hagent : s.agent = some store) (f : JobManagerState → JobManagerState) {calls : List AgentPc}
    (hcalls : (∃ pc ∈ calls, pc ≠ .done) ∨
      f s.ledger = s.ledger ∧ ((∀ pc ∈ calls, pc = .done) → ∀ pc ∈ s.calls, pc = .done)) :
    DeskInv nodeId (s.change store f calls) := by
  obtain ⟨rfl, hfile⟩ := present_agent h hagent
  refine ⟨⟨rfl, fun hquiet ↦ ?_⟩, h.derived⟩
  rcases hcalls with ⟨pc, hin, hpc⟩ | ⟨hsame, hold⟩
  · exact absurd (hquiet pc hin) hpc
  · simp only [JobDesk.change, hsame]
    exact hfile (hold hquiet)

private theorem deskInv_visits (h : DeskInv nodeId s) {visits : List (Visit × VisitPc)}
    (hvisits : ∀ visit ∈ visits, visit.1.Derived visit.2) : DeskInv nodeId { s with visits } :=
  ⟨h.present, hvisits⟩

private theorem derived_set (h : DeskInv nodeId s) {k : Nat} {visit : Visit × VisitPc}
    (hvisit : visit.1.Derived visit.2) :
    ∀ other ∈ s.visits.set k visit, other.1.Derived other.2 := by
  intro other hin
  rcases List.mem_or_eq_of_mem_set hin with hold | rfl
  · exact h.derived other hold
  · exact hvisit

private theorem deskInv_agentCall (h : DeskInv nodeId s) {op : AgentOp} {now : Clock}
    (hstep : deskStep nodeId s (.agentCall op now) = some t) : DeskInv nodeId t := by
  simp only [deskStep] at hstep
  split at hstep
  · cases hstep
  · next store spec originNodeId jobId hagent =>
    cases hstep
    exact deskInv_change h hagent _ (.inl ⟨.saving, by simp, nofun⟩)
  · cases hstep
  · next store op hlog hagent =>
    cases hstep
    have hstore := (present_agent h hagent).1
    apply deskInv_change h hagent
    cases hsaves : savesAfter store now op with
    | true => exact .inl ⟨.saving, by simp, nofun⟩
    | false =>
      refine .inr ⟨hstore ▸ apply_of_unsaved hsaves, fun hquiet pc hin ↦ ?_⟩
      exact hquiet pc (List.mem_append_left _ hin)
  · next store jobs hagent =>
    cases hstep
    have hcalls : DeskInv nodeId (s.change store id (s.calls ++ [.merging jobs])) :=
      deskInv_change h hagent id (.inl ⟨.merging jobs, by simp, nofun⟩)
    simpa [JobDesk.change, ← hagent] using hcalls

private theorem deskInv_agentAdvance (h : DeskInv nodeId s) {k : Nat}
    (hstep : deskStep nodeId s (.agentAdvance k) = some t) : DeskInv nodeId t := by
  simp only [deskStep] at hstep
  have hsaved {store : JobManagerState} (hagent : s.agent = some store) :
      DeskInv nodeId { s with file := some store, calls := s.calls.set k .done } := by
    obtain ⟨rfl, -⟩ := present_agent h hagent
    refine ⟨?_, h.derived⟩
    simp only [JobDesk.Present, hagent]
    exact ⟨trivial, fun _ ↦ .inl trivial⟩
  split at hstep
  · next store job jobs hagent hk =>
    cases hstep
    apply deskInv_change h hagent
    refine .inl ⟨.merging jobs, ?_, nofun⟩
    exact List.mem_set (List.getElem?_eq_some_iff.mp hk).1 _
  · next store hagent hk =>
    cases hstep
    exact hsaved hagent
  · next store hagent hk =>
    cases hstep
    exact hsaved hagent
  · cases hstep

private theorem deskInv_visitAdvance (h : DeskInv nodeId s) {k : Nat} {now : Clock}
    (hapart : s.Apart (.visitAdvance k now))
    (hstep : deskStep nodeId s (.visitAdvance k now) = some t) : DeskInv nodeId t := by
  simp only [deskStep] at hstep
  split at hstep
  · next v hk =>
    cases hstep
    exact deskInv_visits h (derived_set h rfl)
  · next v store source hk =>
    have hderived : store = loadedStore v.nodeId source := h.derived _ (List.mem_of_getElem? hk)
    split at hstep
    · next changed happly =>
      cases hstep
      refine deskInv_visits h (derived_set h ?_)
      simp only [Visit.Derived, ← hderived, happly]
    · cases hstep
      exact deskInv_visits h (derived_set h trivial)
  · next v store source now hk =>
    cases hstep
    obtain ⟨hagent, hfile⟩ := hapart v store source now hk
    have hderived : store = (v.op.apply v.nodeId (loadedStore v.nodeId source) now).1 :=
      h.derived _ (List.mem_of_getElem? hk)
    have hledger : s.file.getD {} = s.ledger := by
      have hpresent := h.present
      simpa only [JobDesk.Present, hagent] using hpresent
    refine ⟨?_, derived_set h trivial⟩
    simp only [JobDesk.Present, hagent, Option.getD_some, ← hledger]
    rw [hderived, ← hfile, loadedStore]
  · cases hstep

private theorem deskInv_step {event : DeskEvent} (h : DeskInv nodeId s) (hapart : s.Apart event)
    (hstep : deskStep nodeId s event = some t) : DeskInv nodeId t := by
  cases event with
  | agentLoads =>
    simp only [deskStep] at hstep
    split at hstep
    · cases hstep
    · next hagent =>
      cases hstep
      have hledger : s.file.getD {} = s.ledger := by
        have hpresent := h.present
        simpa only [JobDesk.Present, hagent] using hpresent
      refine ⟨?_, h.derived⟩
      simp only [JobDesk.Present, loadedStore, hledger]
      exact ⟨trivial, fun _ ↦ .inr trivial⟩
  | agentCall op now => exact deskInv_agentCall h hstep
  | agentAdvance k => exact deskInv_agentAdvance h hstep
  | visit v =>
    cases hstep
    apply deskInv_visits h
    intro visit hin
    rcases List.mem_append.mp hin with hold | hnew
    · exact h.derived visit hold
    · obtain rfl := List.mem_singleton.mp hnew
      trivial
  | visitAdvance k now => exact deskInv_visitAdvance h hapart hstep

end Steps

/-- In every run in which the second managers that save a change do so before the agent has
loaded the file, each without another one in between, the effects of all operations are there in
every state reached. -/
theorem effects_present (nodeId : String) (file : Option JobManagerState)
    {events : List DeskEvent}
    (h : StepsMeet (deskStep nodeId) JobDesk.Apart (JobDesk.start file) events) :
    Throughout (deskStep nodeId) (JobDesk.Present nodeId) (JobDesk.start file) events := by
  have hstart : DeskInv nodeId (JobDesk.start file) := by
    refine ⟨rfl, ?_⟩
    intro visit hin
    cases hin
  exact throughout_of_invariant (fun s event t hs hp hstep ↦ deskInv_step hs hp hstep)
    (fun s hs ↦ hs.present) hstart h

deriving instance DecidableEq for JobManagerState

-- The condition as a test.
private def isApart (s : JobDesk) : DeskEvent → Bool
  | .visitAdvance k _ =>
    match s.visits[k]? with
    | some (_, .changed _ source _) => s.agent.isNone && decide (s.file = source)
    | _ => true
  | _ => true

private theorem apart_of_test (s : JobDesk) (event : DeskEvent) (h : isApart s event = true) :
    s.Apart event := by
  cases event with
  | visitAdvance k now =>
    intro v store source now hk
    simpa [isApart, hk] using h
  | _ => trivial

private def submission (jobId : String) : AgentOp := .submit buildSpec none (some jobId)

private def webCancel (jobId : String) : Visit := { nodeId := "unknown", op := .cancel jobId }

private def visitSteps (k : Nat) : List DeskEvent :=
  List.replicate 3 (.visitAdvance k fun _ ↦ 101)

/-- A job is cancelled before the agent starts, which then takes another job. -/
theorem effects_present_cancelled :
    Throughout (deskStep "node-a") (JobDesk.Present "node-a") (JobDesk.start (some onePending))
      (.visit (webCancel "job-1") :: visitSteps 0 ++
        [.agentLoads, .agentCall (submission "job-2") fun _ ↦ 102, .agentAdvance 0]) := by
  apply effects_present
  exact stepsMeet_of_checkSteps apart_of_test (by decide)

-- The agent takes a job, the job is cancelled through the web interface, and the agent takes
-- another job.
private def cancelledWhileRunning : List DeskEvent :=
  [.agentLoads, .agentCall (submission "job-1") fun _ ↦ 100, .agentAdvance 0,
    .visit (webCancel "job-1")] ++ visitSteps 0 ++
      [.agentCall (submission "job-2") fun _ ↦ 102, .agentAdvance 1]

private def VisitPc.isDone : VisitPc → Bool
  | .done => true
  | _ => false

/-- The job is pending in the file and in the agent when all is done. -/
theorem cancellation_lost :
    ¬ ∀ (nodeId : String) (file : Option JobManagerState) (events : List DeskEvent)
      (t : JobDesk), run (deskStep nodeId) (JobDesk.start file) events = some t →
        t.Quiet → t.Present nodeId := by
  intro hall
  have hrun : (run (deskStep "node-a") (JobDesk.start none) cancelledWhileRunning).map
      (fun t ↦ (t.calls.all (· = .done) && t.visits.all (·.2.isDone),
        t.agent.map (statusOf · "job-1"), statusOf t.ledger "job-1")) =
      some (true, some (some .pending), some .cancelled) := by
    decide
  obtain ⟨t, ht, heq⟩ := Option.map_eq_some_iff.mp hrun
  obtain ⟨hdone, hstatus⟩ := Prod.mk.inj heq
  obtain ⟨hagent, hledger⟩ := Prod.mk.inj hstatus
  rw [Bool.and_eq_true, List.all_eq_true, List.all_eq_true] at hdone
  have hquiet : t.Quiet := by
    refine ⟨fun pc hin ↦ of_decide_eq_true (hdone.1 pc hin), fun visit hin ↦ ?_⟩
    have hend := hdone.2 visit hin
    cases hpc : visit.2 with
    | done => rfl
    | opened | loaded | changed =>
      rw [hpc] at hend
      cases hend
  obtain ⟨store, hstore, hpending⟩ := Option.map_eq_some_iff.mp hagent
  have hpresent := hall "node-a" none cancelledWhileRunning t ht hquiet
  simp only [JobDesk.Present, hstore] at hpresent
  rw [hpresent.1, hledger] at hpending
  cases hpending

end PeerDeploy.Job
