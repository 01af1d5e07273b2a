import PeerDeploy.Base.LastWriter
import PeerDeploy.Job.Manager

/-!
# Merging snapshots

`crates/agent/src/job_manager.rs:440–466`. Under each id the store is a register in which the
record with the latest `updated_at` wins.
-/

namespace PeerDeploy.Job

open PeerDeploy.Common PeerDeploy.Base

/-- The records of an id: the one in the store, and those of the snapshot. -/
def recordsOf (s : JobManagerState) (jobs : List JobInstance) (jobId : String) :
    Set JobInstance :=
  {job | s.getJob jobId = some job ∨ job ∈ jobs ∧ job.id = jobId}

/-- Records of the same id with the same `updated_at` are the same. -/
def StampsDistinguish (s : JobManagerState) (jobs : List JobInstance) : Prop :=
  ∀ jobId, Set.InjOn JobInstance.updatedAt (recordsOf s jobs jobId)

private theorem recordsOf_eq (s : JobManagerState) (jobs : List JobInstance) (jobId : String) :
    recordsOf s jobs jobId =
      heldAmong (s.getJob jobId) (jobs.filter fun job ↦ job.id = jobId) := by
  ext job
  simp [recordsOf, heldAmong]

/-- A merge of one record is a write to the register of its id. -/
theorem getJob_syncJob (s : JobManagerState) (job : JobInstance) (jobId : String) :
    (s.syncJob job).getJob jobId =
      if job.id = jobId then keepLatest JobInstance.updatedAt (s.getJob jobId) job
      else s.getJob jobId := by
  by_cases hid : job.id = jobId
  · subst hid
    rw [if_pos rfl, JobManagerState.getJob_syncJob_self]
    cases s.getJob job.id with
    | none => rfl
    | some held => rfl
  · rw [if_neg hid, JobManagerState.getJob_syncJob_ne s job hid]

/-- A merge of a snapshot writes the records of each id to its register, in order. -/
theorem getJob_syncJobs (s : JobManagerState) (jobs : List JobInstance) (jobId : String) :
    (s.syncJobs jobs).getJob jobId =
      (jobs.filter fun job ↦ job.id = jobId).foldl (keepLatest JobInstance.updatedAt)
        (s.getJob jobId) := by
  induction jobs generalizing s with
  | nil => rfl
  | cons job rest ih =>
    show ((s.syncJob job).syncJobs rest).getJob jobId = _
    rw [ih, getJob_syncJob]
    by_cases hid : job.id = jobId
    · simp [hid]
    · simp [hid]

/-- A merge does not move the counter. -/
theorem nextId_syncJob (s : JobManagerState) (job : JobInstance) :
    (s.syncJob job).nextId = s.nextId := by
  unfold JobManagerState.syncJob
  split
  · split
    · rfl
    · rfl
  · rfl

/-- A merge of a snapshot does not move the counter. -/
theorem nextId_syncJobs (s : JobManagerState) (jobs : List JobInstance) :
    (s.syncJobs jobs).nextId = s.nextId := by
  induction jobs generalizing s with
  | nil => rfl
  | cons job rest ih => exact (ih (s.syncJob job)).trans (nextId_syncJob s job)

/-- After a snapshot has been merged, each id has its latest record, an id without records has
none, and any messages that hold the same records leave the same store: in whatever order, as
often as they like, and split among the messages in any way. -/
theorem syncJobs_latest (s : JobManagerState) (jobs : List JobInstance)
    (hstamps : StampsDistinguish s jobs) :
    (∀ jobId job, (s.syncJobs jobs).getJob jobId = some job ↔
      Latest JobInstance.updatedAt (recordsOf s jobs jobId) job) ∧
    (∀ jobId, (s.syncJobs jobs).getJob jobId = none ↔ recordsOf s jobs jobId = ∅) ∧
    ∀ messages : List (List JobInstance), (∀ job, job ∈ messages.flatten ↔ job ∈ jobs) →
      messages.foldl JobManagerState.syncJobs s = s.syncJobs jobs := by
  refine ⟨?_, ?_, ?_⟩
  · intro jobId job
    have hstamp := hstamps jobId
    rw [recordsOf_eq] at hstamp ⊢
    rw [getJob_syncJobs]
    exact foldl_keepLatest_eq_some hstamp
  · intro jobId
    rw [getJob_syncJobs, foldl_keepLatest_eq_none, recordsOf_eq, Set.eq_empty_iff_forall_notMem]
    constructor
    · rintro ⟨hheld, hlisted⟩ job hin
      rw [hheld, hlisted] at hin
      rcases hin with hin | hin
      · cases hin
      · cases hin
    · intro hnone
      constructor
      · exact Option.eq_none_iff_forall_not_mem.mpr fun job hheld ↦ hnone job (.inl hheld)
      · exact List.eq_nil_iff_forall_not_mem.mpr fun job hin ↦ hnone job (.inr hin)
  · intro messages hsame
    have hflat : messages.foldl JobManagerState.syncJobs s = s.syncJobs messages.flatten :=
      (List.foldl_flatten (f := JobManagerState.syncJob)).symm
    rw [hflat]
    apply JobManagerState.ext_getJob
    · rw [nextId_syncJobs, nextId_syncJobs]
    · intro jobId
      have hstamp := hstamps jobId
      rw [recordsOf_eq] at hstamp
      rw [getJob_syncJobs, getJob_syncJobs]
      apply foldl_keepLatest_congr hstamp
      intro job
      simp only [List.mem_filter, hsame]

private def recordAt (status : JobStatus) (updatedAt : Nat) : JobInstance where
  id := "job-1"
  originNodeId := "node-a"
  spec := { name := "build", runtime := .native "/bin/build" none [] [] }
  status := status
  submittedAt := 100
  updatedAt := updatedAt

/-- A store that holds the first of three records gets the others in either order. -/
theorem syncJobs_latest_twice :
    let s := ({} : JobManagerState).putJob "job-1" (recordAt .pending 100)
    let started := recordAt .running 101
    let done := recordAt .completed 102
    (s.syncJobs [started, done]).getJob "job-1" = some done ∧
      [[done, started], [done]].foldl JobManagerState.syncJobs s =
        s.syncJobs [started, done] := by
  intro s started done
  have hstamps : StampsDistinguish s [started, done] := by
    have hall : ∀ jobId, ∀ job ∈ recordsOf s [started, done] jobId,
        job ∈ [recordAt .pending 100, started, done] := by
      rintro jobId job (hheld | ⟨hin, -⟩)
      · rw [JobManagerState.getJob_putJob] at hheld
        split at hheld
        · cases hheld
          exact List.mem_cons_self
        · exact absurd hheld (by simp [JobManagerState.getJob])
      · exact List.mem_cons_of_mem _ hin
    have hdistinct : ∀ a ∈ [recordAt .pending 100, started, done],
        ∀ b ∈ [recordAt .pending 100, started, done], a.updatedAt = b.updatedAt → a = b := by
      decide
    intro jobId a ha b hb hequal
    exact hdistinct a (hall jobId a ha) b (hall jobId b hb) hequal
  obtain ⟨hlatest, -, hsame⟩ := syncJobs_latest s [started, done] hstamps
  constructor
  · refine (hlatest "job-1" done).mpr ⟨.inr ⟨by simp, rfl⟩, ?_⟩
    rintro job (hheld | ⟨hin, -⟩)
    · cases hheld.symm.trans (JobManagerState.getJob_putJob {} "job-1" "job-1" _)
      decide
    · rcases List.mem_cons.mp hin with rfl | hin
      · decide
      · rw [List.mem_singleton.mp hin]
  · apply hsame
    intro job
    simp only [List.flatten_cons, List.flatten_nil, List.cons_append, List.nil_append,
      List.mem_cons, List.not_mem_nil, or_false]
    tauto

end PeerDeploy.Job
