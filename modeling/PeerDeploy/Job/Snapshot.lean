import PeerDeploy.Job.Manager

/-!
# Gossiped snapshots of the job store

The three places that build a SyncJobs message: the periodic tick
(`crates/agent/src/p2p/mod.rs:686–717`), the JobSyncRequest handler (lines 1290–1300) and
the ConnectionEstablished handler (lines 1407–1415). All take the records changed last and
trim them; the receiver merges them with `sync_jobs`. A hash map yields its values in any
order, so the builders take the records as a list.
-/

namespace PeerDeploy.Job

open PeerDeploy.Common

/-- The records of the store, in key order. -/
def JobManagerState.records (s : JobManagerState) : List JobInstance := s.jobs.toList.map Prod.snd

/-- The records in the order in which the hash map yields its keys. -/
def JobManagerState.recordsIn (s : JobManagerState) (order : List String) : List JobInstance :=
  order.filterMap s.getJob

/-- The records changed last, newest first. -/
def recentJobs (records : List JobInstance) (count : Nat) : List JobInstance :=
  ((listJobs records none usizeMax).insertionSort fun a b ↦ b.updatedAt ≤ a.updatedAt).take count

/-- The snapshot of the periodic tick, without logs and artifacts;
`crates/agent/src/p2p/mod.rs:687–694`. -/
def tickSnapshot (records : List JobInstance) : List JobInstance :=
  (recentJobs records 10).map fun job ↦ { job with logs := [], artifacts := [] }

/-- The snapshot sent on request and to a new connection, without logs;
`crates/agent/src/p2p/mod.rs:1291–1297,1407–1413`. -/
def replySnapshot (records : List JobInstance) : List JobInstance :=
  (recentJobs records 32).map fun job ↦ { job with logs := [] }

/-- The fields that the tick hashes to skip a broadcast; `crates/agent/src/p2p/mod.rs:699–705`. -/
abbrev StateKey := String × JobStatus × Nat × Option String × Option Int

/-- `crates/agent/src/p2p/mod.rs:700–704`. -/
def stateKey (job : JobInstance) : StateKey :=
  (job.id, job.status, job.updatedAt, job.assignedNode, job.exitCode)

/-- A list of records as a sender builds it: no logs, and no id twice. -/
def Trimmed (jobs : List JobInstance) : Prop :=
  (∀ job ∈ jobs, job.logs = []) ∧ (jobs.map (·.id)).Nodup

/-- The records of a keyed store have different ids. -/
theorem nodup_ids_records {s : JobManagerState} (h : s.Keyed) :
    (s.records.map (·.id)).Nodup := by
  have hid : s.records.map (·.id) = s.jobs.toList.map Prod.fst := by
    rw [JobManagerState.records, List.map_map]
    apply List.map_congr_left
    intro entry he
    exact h entry.1 entry.2 (Std.ExtTreeMap.mem_toList_iff_getElem?_eq_some.mp he)
  rw [hid, Std.ExtTreeMap.map_fst_toList_eq_keys]
  exact Std.ExtTreeMap.nodup_keys

/-- Any order of the keys yields the same records, in another order. -/
theorem recordsIn_perm (s : JobManagerState) {order : List String}
    (h : order.Perm s.jobs.keys) : (s.recordsIn order).Perm s.records := by
  have hk : s.jobs.keys.filterMap s.getJob = s.records := by
    rw [← Std.ExtTreeMap.map_fst_toList_eq_keys, List.filterMap_map, JobManagerState.records]
    rw [← List.filterMap_eq_map]
    apply List.filterMap_congr
    intro entry he
    exact Std.ExtTreeMap.mem_toList_iff_getElem?_eq_some.mp he
  rw [← hk]
  exact h.filterMap s.getJob

private theorem nodup_ids_recent {records : List JobInstance} (count : Nat)
    (h : (records.map (·.id)).Nodup) : ((recentJobs records count).map (·.id)).Nodup := by
  have hl : ((listJobs records none usizeMax).map (·.id)).Nodup := by
    unfold listJobs
    apply ((List.take_sublist _ _).map _).nodup
    exact ((List.perm_insertionSort _ _).map _).nodup_iff.mpr h
  unfold recentJobs
  apply ((List.take_sublist _ _).map _).nodup
  exact ((List.perm_insertionSort _ _).map _).nodup_iff.mpr hl

/-- The tick sends a trimmed snapshot of a keyed store. -/
theorem trimmed_tickSnapshot {s : JobManagerState} (h : s.Keyed) {order : List String}
    (ho : order.Perm s.jobs.keys) : Trimmed (tickSnapshot (s.recordsIn order)) := by
  constructor
  · intro job hj
    obtain ⟨record, -, rfl⟩ := List.mem_map.mp hj
    rfl
  · rw [tickSnapshot, List.map_map]
    have hp := (recordsIn_perm s ho).map (·.id)
    exact nodup_ids_recent 10 (hp.nodup_iff.mpr (nodup_ids_records h))

/-- The replies send a trimmed snapshot of a keyed store. -/
theorem trimmed_replySnapshot {s : JobManagerState} (h : s.Keyed) {order : List String}
    (ho : order.Perm s.jobs.keys) : Trimmed (replySnapshot (s.recordsIn order)) := by
  constructor
  · intro job hj
    obtain ⟨record, -, rfl⟩ := List.mem_map.mp hj
    rfl
  · rw [replySnapshot, List.map_map]
    have hp := (recordsIn_perm s ho).map (·.id)
    exact nodup_ids_recent 32 (hp.nodup_iff.mpr (nodup_ids_records h))

/-! ### What merging a snapshot leaves of the results -/

/-- Every log and artifact entry that `s` has recorded for a job is recorded in `t`. -/
def ResultsKept (s t : JobManagerState) : Prop :=
  ∀ jobId held, s.getJob jobId = some held →
    ∃ kept, t.getJob jobId = some kept ∧ (∀ entry ∈ held.logs, entry ∈ kept.logs) ∧
      ∀ artifact ∈ held.artifacts, artifact ∈ kept.artifacts

/-- A record that a newer incoming one replaces has no log, and no artifact that the incoming
one lacks. -/
def ReplacesNoResult (s : JobManagerState) (jobs : List JobInstance) : Prop :=
  ∀ job ∈ jobs, ∀ held, s.getJob job.id = some held → held.updatedAt < job.updatedAt →
    held.logs = [] ∧ ∀ artifact ∈ held.artifacts, artifact ∈ job.artifacts

/-- Merging leaves the ids alone that no incoming record carries. -/
theorem getJob_syncJobs_of_notMem (s : JobManagerState) {jobs : List JobInstance}
    {jobId : String} (h : jobId ∉ jobs.map (·.id)) :
    (s.syncJobs jobs).getJob jobId = s.getJob jobId := by
  induction jobs generalizing s with
  | nil => rfl
  | cons job rest ih =>
    simp only [List.map_cons, List.mem_cons, not_or] at h
    change ((s.syncJob job).syncJobs rest).getJob jobId = _
    rw [ih _ h.2, JobManagerState.getJob_syncJob_ne s job (Ne.symm h.1)]

/-- Each record of a list without repeated ids is merged as if it came alone. -/
theorem getJob_syncJobs_of_mem (s : JobManagerState) {jobs : List JobInstance}
    (hn : (jobs.map (·.id)).Nodup) {job : JobInstance} (hj : job ∈ jobs) :
    (s.syncJobs jobs).getJob job.id = (s.syncJob job).getJob job.id := by
  induction jobs generalizing s with
  | nil => cases hj
  | cons first rest ih =>
    simp only [List.map_cons, List.nodup_cons] at hn
    change ((s.syncJob first).syncJobs rest).getJob job.id = _
    rcases List.mem_cons.mp hj with rfl | hr
    · exact getJob_syncJobs_of_notMem _ hn.1
    · have hne : first.id ≠ job.id := fun he ↦
        hn.1 (by rw [he]; exact List.mem_map.mpr ⟨job, hr, rfl⟩)
      rw [ih _ hn.2 hr, JobManagerState.getJob_syncJob_self, JobManagerState.getJob_syncJob_self,
        JobManagerState.getJob_syncJob_ne s first hne]

/-- Merging a trimmed snapshot keeps all results exactly when no record that it replaces has
results to lose. -/
theorem resultsKept_syncJobs_iff (s : JobManagerState) {jobs : List JobInstance}
    (h : Trimmed jobs) : ResultsKept s (s.syncJobs jobs) ↔ ReplacesNoResult s jobs := by
  constructor
  · intro hk job hj held hh hlt
    obtain ⟨kept, hg, hlogs, harts⟩ := hk job.id held hh
    rw [getJob_syncJobs_of_mem s h.2 hj, JobManagerState.getJob_syncJob_self, hh] at hg
    simp only [if_pos hlt, Option.some.injEq] at hg
    subst hg
    rw [h.1 job hj] at hlogs
    exact ⟨List.eq_nil_iff_forall_not_mem.mpr fun e he ↦ by simpa using hlogs e he, harts⟩
  · intro hr jobId held hh
    by_cases hm : jobId ∈ jobs.map (·.id)
    · obtain ⟨job, hj, rfl⟩ := List.mem_map.mp hm
      rw [getJob_syncJobs_of_mem s h.2 hj, JobManagerState.getJob_syncJob_self, hh]
      by_cases hlt : held.updatedAt < job.updatedAt
      · obtain ⟨hlogs, harts⟩ := hr job hj held hh hlt
        exact ⟨job, by simp [hlt], by simp [hlogs], harts⟩
      · exact ⟨held, by simp [hlt], fun _ he ↦ he, fun _ ha ↦ ha⟩
    · exact ⟨held, by rw [getJob_syncJobs_of_notMem s hm, hh], fun _ he ↦ he, fun _ ha ↦ ha⟩

end PeerDeploy.Job
