import PeerDeploy.Common.Decoding
import PeerDeploy.Common.JsonFile
import PeerDeploy.Job.Life

/-!
# The job file

`jobs.json` as `save_to_disk` writes and `load_from_disk` reads it
(`crates/agent/src/job_manager.rs:17–21,74–103`): the pretty JSON of the store, its records in
the iteration order of the hash map, over the life of managers whose process may die in the
middle of a write.
-/

namespace PeerDeploy.Job

open PeerDeploy.Common PeerDeploy.Base PeerDeploy.Base.Serde

/-! ### The format -/

namespace JobManagerState

/-- The entries of the hash map in an iteration order. -/
def entriesIn (s : JobManagerState) (order : List String) : List (String × JobInstance) :=
  order.filterMap fun jobId ↦ (s.getJob jobId).map (jobId, ·)

/-- The fields in the order of their declaration; `crates/agent/src/job_manager.rs:17–21`. -/
def members (s : JobManagerState) (order : List String) : List (String × Json) :=
  [("jobs", Serde.map JobInstance.toJson (s.entriesIn order)), ("next_id", .num s.nextId)]

/-- `crates/agent/src/job_manager.rs:17–21`. -/
def ofJson : Json → Option JobManagerState :=
  record ["jobs", "next_id"] fun fields ↦ do
    let jobs ← required (asTable JobInstance.ofJson) fields "jobs"
    let nextId ← required (Json.asUnsigned 64) fields "next_id"
    return { jobs, nextId }

/-- The numbers of a store have the widths of their types. -/
structure Fits (s : JobManagerState) : Prop where
  jobs : ∀ jobId job, s.getJob jobId = some job → job.Fits
  nextId : s.nextId < 2 ^ 64

/-- Every iteration order goes through all records. -/
theorem entriesIn_perm (s : JobManagerState) {order : List String}
    (h : order.Perm s.jobs.keys) : (s.entriesIn order).Perm s.jobs.toList := by
  have hkeys : s.jobs.keys.filterMap (fun jobId ↦ (s.getJob jobId).map (jobId, ·)) =
      s.jobs.toList := by
    rw [← Std.ExtTreeMap.map_fst_toList_eq_keys, List.filterMap_map]
    conv_rhs => rw [← List.filterMap_some (l := s.jobs.toList)]
    apply List.filterMap_congr
    intro entry hentry
    have hjob : s.getJob entry.1 = some entry.2 :=
      Std.ExtTreeMap.mem_toList_iff_getElem?_eq_some.mp hentry
    simp [hjob]
  rw [← hkeys]
  exact h.filterMap _

/-- A store is read back, whatever the iteration order. -/
theorem ofJson_members {s : JobManagerState} (h : s.Fits) {order : List String}
    (ho : order.Perm s.jobs.keys) : ofJson (.obj (s.members order)) = some s := by
  have hkeys : ((s.members order).map Prod.fst).Nodup := (by decide : ["jobs", "next_id"].Nodup)
  have hjobs : required (asTable JobInstance.ofJson) (.named (s.members order)) "jobs" =
      some s.jobs := by
    have hmem : ("jobs", Serde.map JobInstance.toJson (s.entriesIn order)) ∈ s.members order := by
      simp [members]
    apply required_member hkeys hmem
    apply asTable_map (s.entriesIn_perm ho)
    intro entry hentry
    obtain ⟨jobId, -, hfound⟩ := List.mem_filterMap.mp hentry
    obtain ⟨job, hjob, rfl⟩ := Option.map_eq_some_iff.mp hfound
    exact JobInstance.ofJson_toJson (h.jobs jobId job hjob)
  rw [ofJson, record, hjobs, required_number hkeys "next_id" h.nextId (by simp [members])]
  rfl

end JobManagerState

/-- serde_json on a store; `crates/agent/src/job_manager.rs:77–78,100–101`. -/
def jobFile : StoreCodec where
  toStringPretty order s := prettyFile (.obj (s.members order))
  fromStr bytes := (deserializeMessage bytes).bind JobManagerState.ofJson

private theorem fromStr_take {s : JobManagerState} (h : s.Fits) {order : List String}
    (ho : order.Perm s.jobs.keys) (written : Nat) :
    jobFile.fromStr ((jobFile.toStringPretty order s).take written) =
      if (jobFile.toStringPretty order s).length ≤ written then some s else none := by
  change (deserializeMessage ((prettyFile (.obj (s.members order))).take written)).bind
    JobManagerState.ofJson =
      if (prettyFile (.obj (s.members order))).length ≤ written then some s else none
  rw [deserializeMessage_prettyFile (.inl ⟨_, rfl⟩)]
  split
  · rw [Option.bind_some, JobManagerState.ofJson_members h ho]
  · rfl

/-! ### Numbers stay in their types -/

/-- The numbers of a call have the widths of their types. -/
def ManagerOp.Fits : ManagerOp → Prop
  | .completeJob _ exitCode => -2 ^ 31 ≤ exitCode ∧ exitCode < 2 ^ 31
  | .addJobArtifact _ artifact => ∀ n ∈ artifact.sizeBytes, n < 2 ^ 64
  | _ => True

/-- The numbers of an event have the widths of their types, the counter does not overflow, and a
save goes through the entries of the hash map, each once. -/
def FitsEvent (s : LifeState) : LifeEvent → Prop
  | .submitJob spec _ jobId now =>
    spec.Fits ∧ (∀ i, now i < 2 ^ 64) ∧ (jobId = none → s.jobs.nextId + 1 < 2 ^ 64)
  | .call op now => op.Fits ∧ ∀ i, now i < 2 ^ 64
  | .syncJob job => job.Fits
  | .saveToDisk order _ => order.Perm s.jobs.jobs.keys
  | .evaluateSchedules _ | .loadFromDisk | .new => True

private theorem fits_addLog {job : JobInstance} (h : job.Fits) (level message : String)
    {timestamp updatedAt : Nat} (ht : timestamp < 2 ^ 64) (hu : updatedAt < 2 ^ 64) :
    (job.addLog level message timestamp updatedAt).Fits :=
  { h with
    updatedAt := hu
    logs := by
      intro entry hentry
      rcases List.mem_append.mp hentry with hold | hnew
      · exact h.logs entry hold
      · rw [List.mem_singleton.mp hnew]
        exact ht }

private theorem fits_some {n : Nat} (h : n < 2 ^ 64) : ∀ m ∈ some n, m < 2 ^ 64 := by
  rintro _ ⟨⟩
  exact h

private theorem fits_change {job : JobInstance} (h : job.Fits) {now : Clock}
    (hnow : ∀ i, now i < 2 ^ 64) {op : ManagerOp} (hop : op.Fits) : (op.change now job).Fits := by
  cases op with
  | startJob id =>
    have hstarted : (job.start (job.assignedNode.getD "unknown") (now 0) (now 1)).Fits :=
      { h with updatedAt := hnow 1, startedAt := fits_some (hnow 0) }
    exact fits_addLog hstarted "info" "Job started" (hnow 2) (hnow 3)
  | completeJob id exitCode =>
    have hcompleted : (job.complete exitCode (now 0) (now 1)).Fits :=
      { h with
        updatedAt := hnow 1
        completedAt := fits_some (hnow 0)
        exitCode := by
          rintro _ ⟨⟩
          exact hop }
    exact fits_addLog hcompleted "info" _ (hnow 2) (hnow 3)
  | failJob id error =>
    have hfailed : (job.fail error (now 0) (now 1)).Fits :=
      { h with updatedAt := hnow 1, completedAt := fits_some (hnow 0) }
    exact fits_addLog hfailed "error" _ (hnow 2) (hnow 3)
  | cancelJob id =>
    simp only [ManagerOp.change]
    split
    · have hcancelled : (job.cancel (now 0) (now 1)).Fits :=
        { h with updatedAt := hnow 1, completedAt := fits_some (hnow 0) }
      exact fits_addLog hcancelled "warn" "Job cancelled" (hnow 2) (hnow 3)
    · exact h
  | assignJob id nodeId =>
    have hassigned : ({ job with assignedNode := some nodeId } : JobInstance).Fits := { h with }
    exact { fits_addLog hassigned "info" _ (hnow 0) (hnow 1) with updatedAt := hnow 2 }
  | addJobLog id level message => exact fits_addLog h level message (hnow 0) (hnow 1)
  | addJobArtifact id artifact =>
    exact { h with
      updatedAt := hnow 0
      artifacts := by
        intro other hother
        rcases List.mem_append.mp hother with hold | hnew
        · exact h.artifacts other hold
        · rw [List.mem_singleton.mp hnew]
          exact hop }

private theorem fits_scheduleRecord {job : JobInstance} (h : job.Fits) (calendar : Calendar) :
    (scheduleRecord calendar job).Fits := by
  have hstamp : calendar.timestamp < 2 ^ 64 := by
    unfold Calendar.timestamp
    omega
  unfold scheduleRecord
  split
  · exact { h with updatedAt := hstamp, lastScheduledAt := fits_some hstamp }
  · exact h

private theorem fits_loadRecord {job : JobInstance} (h : job.Fits) (nodeId : String) :
    (JobManagerState.loadRecord nodeId job).Fits :=
  { h with
    updatedAt := by
      unfold JobManagerState.loadRecord
      dsimp only
      split
      · exact h.submittedAt
      · exact h.updatedAt }

namespace JobManagerState

private theorem fits_empty : ({} : JobManagerState).Fits where
  jobs jobId found hfound := by
    simp [getJob] at hfound
  nextId := by
    show (1 : Nat) < 2 ^ 64
    decide

private theorem fits_putJob {s : JobManagerState} (h : s.Fits) {job : JobInstance}
    (hjob : job.Fits) (jobId : String) : (s.putJob jobId job).Fits where
  jobs other found hfound := by
    rw [getJob_putJob] at hfound
    split at hfound
    · cases hfound
      exact hjob
    · exact h.jobs other found hfound
  nextId := h.nextId

private theorem fits_map {s : JobManagerState} (h : s.Fits) {change : JobInstance → JobInstance}
    (hchange : ∀ job, job.Fits → (change job).Fits) :
    ({ s with jobs := s.jobs.map fun _ job ↦ change job } : JobManagerState).Fits where
  jobs jobId found hfound := by
    simp only [getJob, Std.ExtTreeMap.getElem?_map] at hfound
    obtain ⟨job, hjob, rfl⟩ := Option.map_eq_some_iff.mp hfound
    exact hchange job (h.jobs jobId job hjob)
  nextId := h.nextId

private theorem fits_apply {s : JobManagerState} (h : s.Fits) {now : Clock}
    (hnow : ∀ i, now i < 2 ^ 64) {op : ManagerOp} (hop : op.Fits) : (op.apply s now).Fits where
  jobs jobId found hfound := by
    rw [getJob_apply] at hfound
    split at hfound
    · obtain ⟨job, hjob, rfl⟩ := Option.map_eq_some_iff.mp hfound
      exact fits_change (h.jobs jobId job hjob) hnow hop
    · exact h.jobs jobId found hfound
  nextId := by
    have hsame : (op.apply s now).nextId = s.nextId := by
      cases op with
      | cancelJob id =>
        simp only [ManagerOp.apply, cancelJob]
        split
        · split <;> rfl
        · rfl
      | _ => rfl
    rw [hsame]
    exact h.nextId

private theorem fits_submitJob {s : JobManagerState} (h : s.Fits) (nodeId : String)
    {spec : JobSpec} (hspec : spec.Fits) (originNodeId : Option String) {jobId : Option String}
    {now : Clock} (hnow : ∀ i, now i < 2 ^ 64) (hnext : jobId = none → s.nextId + 1 < 2 ^ 64) :
    (s.submitJob nodeId spec originNodeId jobId now).1.Fits := by
  have hfresh (id origin : String) : (freshRecord id origin spec now).Fits := by
    have hnew : (JobInstance.new id origin spec (now 0) (now 1)).Fits :=
      { spec := hspec, submittedAt := hnow 0, updatedAt := hnow 1, startedAt := nofun,
        completedAt := nofun, exitCode := nofun, logs := nofun, lastScheduledAt := nofun,
        scheduleNextAt := nofun, artifacts := nofun }
    exact fits_addLog hnew "info" "Job submitted" (hnow 2) (hnow 3)
  cases jobId with
  | some id => exact fits_putJob h (hfresh _ _) id
  | none =>
    have hcount : ({ s with nextId := s.nextId + 1 } : JobManagerState).Fits :=
      { jobs := h.jobs, nextId := hnext rfl }
    exact fits_putJob hcount (hfresh _ _) _

private theorem fits_syncJob {s : JobManagerState} (h : s.Fits) {job : JobInstance}
    (hjob : job.Fits) : (s.syncJob job).Fits := by
  unfold syncJob
  split
  · split
    · exact fits_putJob h hjob job.id
    · exact h
  · exact fits_putJob h hjob job.id

end JobManagerState

-- The store fits, and so does every store that the file can give.
private structure LifeFits (s : LifeState) : Prop where
  jobs : s.jobs.Fits
  file : ∀ t, s.file.bind jobFile.fromStr = some t → t.Fits

private theorem lifeFits_step {nodeId : String} (s : LifeState) (event : LifeEvent) (t : LifeState)
    (h : LifeFits s) (hevent : FitsEvent s event) (hstep : lifeStep jobFile nodeId s event = some t) :
    LifeFits t := by
  cases hstep
  cases event with
  | submitJob spec originNodeId jobId now =>
    have hjobs := JobManagerState.fits_submitJob h.jobs nodeId hevent.1 originNodeId hevent.2.1
      hevent.2.2
    exact ⟨hjobs, h.file⟩
  | call op now => exact ⟨JobManagerState.fits_apply h.jobs hevent.2 hevent.1, h.file⟩
  | evaluateSchedules calendar =>
    exact ⟨JobManagerState.fits_map h.jobs fun job hjob ↦ fits_scheduleRecord hjob calendar, h.file⟩
  | syncJob job => exact ⟨JobManagerState.fits_syncJob h.jobs hevent, h.file⟩
  | saveToDisk order written =>
    refine ⟨h.jobs, fun t hread ↦ ?_⟩
    change jobFile.fromStr ((jobFile.toStringPretty order s.jobs).take written) = some t at hread
    rw [fromStr_take h.jobs hevent] at hread
    split at hread
    · cases hread
      exact h.jobs
    · cases hread
  | loadFromDisk =>
    simp only [lifeNext]
    split
    · next jobs hread =>
      have hloaded := JobManagerState.fits_map (h.file jobs hread) fun job hjob ↦
        fits_loadRecord hjob nodeId
      exact ⟨hloaded, h.file⟩
    · exact h
  | new =>
    exact ⟨JobManagerState.fits_empty, h.file⟩

private theorem file_eq_of_run {nodeId : String} {events : List LifeEvent}
    (h : ∀ order written, .saveToDisk order written ∉ events) {s t : LifeState}
    (hrun : run (lifeStep jobFile nodeId) s events = some t) : t.file = s.file := by
  induction events generalizing s with
  | nil =>
    cases hrun
    rfl
  | cons event rest ih =>
    obtain ⟨u, hu, ht⟩ := run_cons_eq_some.mp hrun
    have hrest := ih (fun order written hm ↦ h order written (List.mem_cons_of_mem event hm)) ht
    rw [hrest]
    obtain rfl := Option.some.inj hu
    cases event with
    | saveToDisk order written => exact absurd List.mem_cons_self (h order written)
    | loadFromDisk =>
      simp only [lifeNext]
      split <;> rfl
    | _ => rfl

/-! ### The restart -/

/-- Whatever happens between the last save and the end of the process, the next manager has the
store of that save, and an empty one if the save was cut off. -/
theorem restart_recovers_saved {nodeId : String} {before after : List LifeEvent}
    {order : List String} {written : Nat}
    (hfits : StepsMeet (lifeStep jobFile nodeId) FitsEvent {}
      (before ++ [.saveToDisk order written]))
    (hafter : ∀ order written, .saveToDisk order written ∉ after) {s t : LifeState}
    (hs : run (lifeStep jobFile nodeId) {} before = some s)
    (ht : run (lifeStep jobFile nodeId) {}
      (before ++ .saveToDisk order written :: (after ++ [.new, .loadFromDisk])) = some t) :
    t.jobs = if (jobFile.toStringPretty order s.jobs).length ≤ written then s.jobs.loaded nodeId
      else {} := by
  rw [stepsMeet_append] at hfits
  have hstart : LifeFits {} := ⟨JobManagerState.fits_empty, nofun⟩
  have hlife : LifeFits s := run_invariant lifeFits_step hstart hfits.1 hs
  have horder : order.Perm s.jobs.jobs.keys := (hfits.2 s hs).1
  rw [run_append, hs, Option.bind_some] at ht
  obtain ⟨saved, hsaved, ht⟩ := run_cons_eq_some.mp ht
  obtain rfl := Option.some.inj hsaved
  rw [run_append] at ht
  obtain ⟨died, hdied, ht⟩ := Option.bind_eq_some_iff.mp ht
  have hfile := file_eq_of_run hafter hdied
  obtain rfl : lifeNext jobFile nodeId { file := died.file } .loadFromDisk = t :=
    Option.some.inj ht
  simp only [lifeNext, hfile, Option.bind_some, fromStr_take hlife.jobs horder]
  split_ifs <;> rfl

private def nightly : JobSpec where
  name := "nightly"
  runtime := .native "/bin/backup" none [] []

-- The store after its submission.
private def nightlyJobs : JobManagerState :=
  (({} : JobManagerState).submitJob "node-a" nightly none none fun _ ↦ 100).1

/-- A job that is saved and then started is there again after a restart, as it was saved. -/
theorem restart_recovers_saved_nightly :
    ∃ t, run (lifeStep jobFile "node-a") {}
        ([.submitJob nightly none none fun _ ↦ 100] ++
          .saveToDisk ["node-a-1"] (jobFile.toStringPretty ["node-a-1"] nightlyJobs).length ::
            ([.call (.startJob "node-a-1") fun _ ↦ 101] ++ [.new, .loadFromDisk])) = some t ∧
      t.jobs = nightlyJobs.loaded "node-a" := by
  have henv : IsMap ([] : List (String × String)) := ⟨∅, rfl⟩
  have hspec : nightly.Fits := { runtime := henv, timeoutMinutes := nofun }
  have hkeys : ["node-a-1"].Perm nightlyJobs.jobs.keys := by decide
  have hfits : StepsMeet (lifeStep jobFile "node-a") FitsEvent {}
      ([.submitJob nightly none none fun _ ↦ 100] ++ [.saveToDisk ["node-a-1"]
        (jobFile.toStringPretty ["node-a-1"] nightlyJobs).length]) := by
    have htime : (100 : Nat) < 2 ^ 64 := by decide
    refine ⟨⟨hspec, fun _ ↦ htime, fun _ ↦ by decide⟩, ?_⟩
    rintro s ⟨rfl⟩
    exact ⟨hkeys, fun _ _ ↦ trivial⟩
  have hafter : ∀ order written, LifeEvent.saveToDisk order written ∉
      [LifeEvent.call (.startJob "node-a-1") fun _ ↦ 101] := by simp
  have htotal : ∀ s event, ∃ t, lifeStep jobFile "node-a" s event = some t := fun _ _ ↦ ⟨_, rfl⟩
  obtain ⟨t, ht⟩ := run_total htotal {} _
  refine ⟨t, ht, ?_⟩
  rw [restart_recovers_saved hfits hafter rfl ht]
  exact if_pos le_rfl

end PeerDeploy.Job
