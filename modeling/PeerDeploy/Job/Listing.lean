import PeerDeploy.Base.Sorting
import PeerDeploy.Base.Table
import PeerDeploy.Job.Lifecycle
import PeerDeploy.Job.Snapshot

/-!
# Listing jobs

`JobManager::list_jobs` (`crates/agent/src/job_manager.rs:251–277`) answers a query from the
store. The web interface (`crates/agent/src/web/jobs.rs:257–342`) and the command line
(`crates/agent/src/cmd/job.rs:251–330`) ask the network first and fall back to the store. The
store matches a filter against five names, the other two compare it with the printed status.
-/

namespace PeerDeploy.Job

open PeerDeploy.Common PeerDeploy.Base

/-- `format!("{:?}", status)`: the name of the variant. -/
def debugName : JobStatus → String
  | .pending => "Pending"
  | .running => "Running"
  | .completed => "Completed"
  | .failed => "Failed"
  | .cancelled => "Cancelled"

/-- The filter of the network paths; `crates/agent/src/web/jobs.rs:280–286` and
`crates/agent/src/cmd/job.rs:273–279`. -/
def matchesFilter (statusFilter : Option String) (job : JobInstance) : Bool :=
  (statusFilter.map fun text ↦
    Text.toLowercase (debugName job.status) == Text.toLowercase text).getD true

/-- The filter is absent, or the name of a status in some letter case. -/
def KnownFilter (statusFilter : Option String) : Prop :=
  ∀ text ∈ statusFilter, ∃ status, Text.toLowercase text = Text.toLowercase (debugName status)

/-- A filter text names a status exactly when it is that name in some letter case. -/
theorem filterStatus_eq_some_iff {text : String} {status : JobStatus} :
    filterStatus text = some status ↔
      Text.toLowercase text = Text.toLowercase (debugName status) := by
  have hnames : Text.toLowercase (debugName status) =
      match status with
      | .pending => "pending"
      | .running => "running"
      | .completed => "completed"
      | .failed => "failed"
      | .cancelled => "cancelled" := by
    cases status <;> decide
  rw [hnames, filterStatus]
  clear hnames
  constructor
  · intro h
    split at h <;> cases h <;> assumption
  · intro h
    rw [h]
    cases status <;> rfl

private theorem listJobs_of_known {statusFilter : Option String}
    (hknown : KnownFilter statusFilter) (records : List JobInstance) (limit : Nat) :
    listJobs records statusFilter limit =
      ((records.filter (matchesFilter statusFilter)).insertionSort
        fun a b ↦ b.submittedAt ≤ a.submittedAt).take limit := by
  cases statusFilter with
  | none =>
    have hall : records.filter (matchesFilter none) = records :=
      List.filter_eq_self.mpr fun _ _ ↦ rfl
    rw [hall]
    rfl
  | some text =>
    obtain ⟨status, hstatus⟩ := hknown text rfl
    have hsome := filterStatus_eq_some_iff.mpr hstatus
    have hmatch : records.filter (matchesFilter (some text)) =
        records.filter fun job ↦ job.status = status := by
      apply List.filter_congr
      intro job _
      rw [Bool.eq_iff_iff, decide_eq_true_iff, matchesFilter, Option.map_some, Option.getD_some,
        beq_iff_eq, eq_comm (a := Text.toLowercase _), ← filterStatus_eq_some_iff, hsome,
        Option.some.injEq, eq_comm]
    unfold listJobs
    rw [Option.bind_some, hsome, hmatch]

/-! ### The newest submissions of the store -/

/-- `jobs`, stored under `ids`, are the `limit` newest submissions of the store that match. -/
structure Newest (s : JobManagerState) (statusFilter : Option String) (limit : Nat)
    (ids : List String) (jobs : List JobInstance) : Prop where
  distinct : ids.Nodup
  stored : ids.map s.getJob = jobs.map some
  wanted : ∀ job ∈ jobs, matchesFilter statusFilter job
  sorted : jobs.Pairwise fun a b ↦ b.submittedAt ≤ a.submittedAt
  count : jobs.length = min limit (s.records.countP (matchesFilter statusFilter))
  newest : ∀ id ∉ ids, ∀ left, s.getJob id = some left → matchesFilter statusFilter left →
    ∀ job ∈ jobs, left.submittedAt ≤ job.submittedAt

-- The records with their ids, in the order in which the hash map yields its keys.
private def entriesIn (s : JobManagerState) (order : List String) : List (String × JobInstance) :=
  order.filterMap fun id ↦ (s.getJob id).map (id, ·)

private theorem mem_entriesIn {s : JobManagerState} {order : List String} {id : String}
    {job : JobInstance} : (id, job) ∈ entriesIn s order ↔ id ∈ order ∧ s.getJob id = some job := by
  simp [entriesIn]

private theorem map_snd_entriesIn (s : JobManagerState) (order : List String) :
    (entriesIn s order).map Prod.snd = s.recordsIn order := by
  simp [entriesIn, JobManagerState.recordsIn, List.map_filterMap, Function.comp_def]

private theorem nodup_fst_entriesIn (s : JobManagerState) {order : List String}
    (h : order.Nodup) : ((entriesIn s order).map Prod.fst).Nodup := by
  rw [List.Nodup, List.pairwise_map, entriesIn, List.pairwise_filterMap]
  apply List.Pairwise.imp _ h
  intro id other hne entry hentry entry' hentry'
  obtain ⟨job, -, rfl⟩ := Option.map_eq_some_iff.mp hentry
  obtain ⟨job', -, rfl⟩ := Option.map_eq_some_iff.mp hentry'
  exact hne

-- Later submissions come first.
private def submittedFirst (a b : String × JobInstance) : Prop :=
  b.2.submittedAt ≤ a.2.submittedAt

private instance : DecidableRel submittedFirst := fun a b ↦
  inferInstanceAs (Decidable (b.2.submittedAt ≤ a.2.submittedAt))

private instance : Std.Total submittedFirst := ⟨fun _ _ ↦ Nat.le_total _ _⟩

private instance : IsTrans _ submittedFirst := ⟨fun _ _ _ hab hbc ↦ Nat.le_trans hbc hab⟩

private theorem listJobs_eq {statusFilter : Option String} (hknown : KnownFilter statusFilter)
    (s : JobManagerState) (order : List String) (limit : Nat) :
    listJobs (s.recordsIn order) statusFilter limit =
      ((((entriesIn s order).filter (matchesFilter statusFilter ·.2)).insertionSort
        submittedFirst).take limit).map Prod.snd := by
  rw [listJobs_of_known hknown, ← map_snd_entriesIn, List.filter_map, List.map_take,
    List.map_insertionSort submittedFirst (fun a b ↦ b.submittedAt ≤ a.submittedAt) Prod.snd _
      fun _ _ _ _ ↦ Iff.rfl]
  rfl

/-- A listing shows the newest submissions that match a known filter, for any order in which the
hash map yields the records. -/
theorem listJobs_newest (s : JobManagerState) {order : List String}
    (horder : order.Perm s.jobs.keys) {statusFilter : Option String}
    (hknown : KnownFilter statusFilter) (limit : Nat) :
    (∃ ids, Newest s statusFilter limit ids
      (listJobs (s.recordsIn order) statusFilter limit)) ∧
    (s.Keyed → (listJobs (s.recordsIn order) statusFilter limit).Nodup) := by
  have hnodup : order.Nodup := horder.nodup_iff.mpr Std.ExtTreeMap.nodup_keys
  have hkey : ∀ {id job}, s.getJob id = some job → id ∈ order := fun hjob ↦
    horder.mem_iff.mpr (Std.ExtTreeMap.mem_keys.mpr
      (Std.ExtTreeMap.mem_iff_isSome_getElem?.mpr (by rw [← JobManagerState.getJob, hjob]; rfl)))
  rw [listJobs_eq hknown]
  set matching := (entriesIn s order).filter (matchesFilter statusFilter ·.2) with hmatching
  obtain ⟨rest, hperm, hsorted, hfirst⟩ :=
    Sorting.exists_rest_of_take submittedFirst matching limit
  set shown := (matching.insertionSort submittedFirst).take limit with hshown
  have hmem : ∀ entry ∈ shown, s.getJob entry.1 = some entry.2 ∧
      matchesFilter statusFilter entry.2 := by
    intro entry hentry
    have hentry := hperm.mem_iff.mp (List.mem_append_left rest hentry)
    obtain ⟨hstored, hmatch⟩ := List.mem_filter.mp hentry
    exact ⟨(mem_entriesIn.mp hstored).2, hmatch⟩
  have hids : (shown.map Prod.fst).Nodup := by
    have hall : (matching.map Prod.fst).Nodup :=
      (List.filter_sublist.map Prod.fst).nodup (nodup_fst_entriesIn s hnodup)
    rw [← (hperm.map Prod.fst).nodup_iff, List.map_append] at hall
    exact hall.of_append_left
  have hstored : (shown.map Prod.fst).map s.getJob = (shown.map Prod.snd).map some := by
    rw [List.map_map, List.map_map]
    exact List.map_congr_left fun entry hentry ↦ (hmem entry hentry).1
  have hcount : matching.length = s.records.countP (matchesFilter statusFilter) := by
    rw [← (recordsIn_perm s horder).countP_eq, ← map_snd_entriesIn, List.countP_map,
      List.countP_eq_length_filter]
    rfl
  refine ⟨⟨shown.map Prod.fst, ?_⟩, fun hkeyed ↦ ?_⟩
  · exact {
      distinct := hids
      stored := hstored
      wanted := by
        intro job hjob
        obtain ⟨entry, hentry, rfl⟩ := List.mem_map.mp hjob
        exact (hmem entry hentry).2
      sorted := List.pairwise_map.mpr hsorted
      count := by
        rw [List.length_map, hshown, List.length_take, List.length_insertionSort, hcount]
      newest := by
        intro id hid left hleft hmatch job hjob
        obtain ⟨entry, hentry, rfl⟩ := List.mem_map.mp hjob
        apply hfirst entry hentry (id, left)
        have hin : (id, left) ∈ matching :=
          List.mem_filter.mpr ⟨mem_entriesIn.mpr ⟨hkey hleft, hleft⟩, hmatch⟩
        apply (List.mem_append.mp (hperm.mem_iff.mpr hin)).resolve_left
        exact fun hshown ↦ hid (List.mem_map_of_mem hshown) }
  · have hid : (shown.map Prod.snd).map (·.id) = shown.map Prod.fst := by
      rw [List.map_map]
      exact List.map_congr_left fun entry hentry ↦ hkeyed _ _ (hmem entry hentry).1
    rw [← hid] at hids
    exact hids.of_map

/-- A store that holds four jobs, of which the third runs. -/
def fourJobs : JobManagerState :=
  let submitted := [("job-1", 100), ("job-2", 200), ("job-3", 300), ("job-4", 400)].foldl
    (fun s entry ↦ (s.submitJob "node-a" buildSpec none (some entry.1) fun _ ↦ entry.2).1)
    ({} : JobManagerState)
  submitted.startJob "job-3" fun _ ↦ 500

/-- The two newest of three pending jobs, however the filter is spelled. -/
theorem listJobs_newest_pending :
    let order := ["job-2", "job-4", "job-1", "job-3"]
    let shown := listJobs (fourJobs.recordsIn order) (some "PENDING") 2
    shown.map (·.id) = ["job-4", "job-2"] ∧
      (∃ ids, Newest fourJobs (some "PENDING") 2 ids shown) ∧
      (fourJobs.Keyed → shown.Nodup) := by
  have hknown : KnownFilter (some "PENDING") := by
    intro text htext
    cases htext
    exact ⟨.pending, by decide⟩
  have horder : ["job-2", "job-4", "job-1", "job-3"].Perm fourJobs.jobs.keys := by
    decide +kernel
  exact ⟨by decide +kernel, listJobs_newest fourJobs horder hknown 2⟩

/-! ### The network paths -/

/-- The records that a query has received, by id. -/
abbrev JobTable := Std.ExtTreeMap String JobInstance

/-- A record goes in unless a later one is held; `crates/agent/src/web/jobs.rs:309–320` and
`crates/agent/src/cmd/job.rs:296–307`. -/
def gatherJob (held : JobTable) (job : JobInstance) : JobTable :=
  match held[job.id]? with
  | some old => if old.updatedAt ≤ job.updatedAt then held.insert job.id job else held
  | none => held.insert job.id job

/-- `jobs_by_id.values()`, before the order in which the hash map yields them. -/
def JobTable.values (held : JobTable) : List JobInstance := held.toList.map Prod.snd

/-- The answer from what was received; `crates/agent/src/web/jobs.rs:335–341` and
`crates/agent/src/cmd/job.rs:329–334`. -/
def selectJobs (records : List JobInstance) (statusFilter : Option String) (limit : Nat) :
    List JobInstance :=
  let sorted := records.insertionSort fun a b ↦ b.updatedAt ≤ a.updatedAt
  let matching := if statusFilter.isSome then sorted.filter (matchesFilter statusFilter) else sorted
  matching.take limit

/-- Every SyncJobs message of a stream is merged; `crates/agent/src/web/jobs.rs:294–329`. -/
def gatherAll (held : JobTable) : List Command → JobTable
  | [] => held
  | .syncJobs _ jobs :: rest => gatherAll (jobs.foldl gatherJob held) rest
  | _ :: rest => gatherAll held rest

/-- Whether any SyncJobs message is in a stream. -/
def receivedAny (commands : List Command) : Bool :=
  commands.any fun command ↦ match command with
    | .syncJobs _ _ => true
    | _ => false

/-- `crates/agent/src/web/jobs.rs:257–342`. The commands are those that arrive on the status
topic before the timeout; `order` is the order in which the hash map yields its values. -/
def netQueryJobs (order : List JobInstance → List JobInstance) (commands : List Command)
    (statusFilter : Option String) (limit : Nat) : Except String (List JobInstance) :=
  if receivedAny commands then
    .ok (selectJobs (order (gatherAll ∅ commands).values) statusFilter limit)
  else .error "timeout"

/-- Messages are merged until enough records match; `crates/agent/src/cmd/job.rs:286–326`. -/
def gatherEnough (statusFilter : Option String) (limit : Nat) (held : JobTable) :
    List Command → JobTable
  | [] => held
  | .syncJobs _ jobs :: rest =>
    let next := jobs.foldl gatherJob held
    if limit ≤ ((next.values.filter (matchesFilter statusFilter)).take limit).length then next
    else gatherEnough statusFilter limit next rest
  | _ :: rest => gatherEnough statusFilter limit held rest

/-- `crates/agent/src/cmd/job.rs:251–337`: the listing of the store when nothing came in. -/
def netListJobsJson (stored : List JobInstance) (order : List JobInstance → List JobInstance)
    (commands : List Command) (statusFilter : Option String) (limit : Nat) : List JobInstance :=
  let held := gatherEnough statusFilter limit ∅ commands
  if held.isEmpty then listJobs stored statusFilter limit
  else selectJobs (order held.values) statusFilter limit

/-- The records that the SyncJobs messages of a stream carry. -/
def receivedJobs (commands : List Command) : List JobInstance :=
  commands.flatMap fun command ↦ match command with
    | .syncJobs _ jobs => jobs
    | _ => []

-- Every record of the table is that of the store.
private def Within (s : JobManagerState) (held : JobTable) : Prop :=
  ∀ id job, held[id]? = some job → s.getJob id = some job

private theorem within_empty (s : JobManagerState) : Within s ∅ := by
  intro id job hjob
  rw [Std.ExtTreeMap.getElem?_empty] at hjob
  cases hjob

private theorem gatherJob_stored {s : JobManagerState} {held : JobTable} (h : Within s held)
    {job : JobInstance} (hjob : s.getJob job.id = some job) :
    gatherJob held job = held.insert job.id job := by
  cases hheld : held[job.id]? with
  | none => unfold gatherJob; rw [hheld]
  | some old =>
    have hold : old = job := Option.some.inj ((h _ _ hheld).symm.trans hjob)
    unfold gatherJob
    rw [hheld, hold]
    exact if_pos (Nat.le_refl _)

private theorem within_gatherJob {s : JobManagerState} {held : JobTable} (h : Within s held)
    {job : JobInstance} (hjob : s.getJob job.id = some job) : Within s (gatherJob held job) := by
  intro id other hother
  rw [gatherJob_stored h hjob, Table.getElem?_insert] at hother
  split at hother
  · next hid => cases hother; rw [← hid, hjob]
  · exact h id other hother

private theorem gather_stored {s : JobManagerState} {jobs : List JobInstance}
    (hjobs : ∀ job ∈ jobs, s.getJob job.id = some job) {held : JobTable} (h : Within s held) :
    Within s (jobs.foldl gatherJob held) ∧
      ∀ id, (held[id]? ≠ none ∨ ∃ job ∈ jobs, job.id = id) →
        (jobs.foldl gatherJob held)[id]? ≠ none := by
  induction jobs generalizing held with
  | nil =>
    refine ⟨h, fun id hid ↦ hid.resolve_right ?_⟩
    simp
  | cons job jobs ih =>
    have hjob := hjobs job List.mem_cons_self
    obtain ⟨hwithin, hkept⟩ := ih (fun other hother ↦ hjobs other (List.mem_cons_of_mem job hother))
      (within_gatherJob h hjob)
    refine ⟨hwithin, fun id hid ↦ hkept id ?_⟩
    rw [gatherJob_stored h hjob, Table.getElem?_insert]
    by_cases heq : job.id = id
    · left
      rw [if_pos heq]
      exact Option.some_ne_none job
    · rw [if_neg heq]
      apply hid.imp_right
      rintro ⟨other, hother, rfl⟩
      rcases List.mem_cons.mp hother with rfl | hother
      · exact absurd rfl heq
      · exact ⟨other, hother, rfl⟩

private theorem gatherAll_stored {s : JobManagerState} {commands : List Command}
    (hreceived : ∀ job ∈ receivedJobs commands, s.getJob job.id = some job) {held : JobTable}
    (h : Within s held) :
    Within s (gatherAll held commands) ∧
      ∀ id, (held[id]? ≠ none ∨ ∃ job ∈ receivedJobs commands, job.id = id) →
        (gatherAll held commands)[id]? ≠ none := by
  induction commands generalizing held with
  | nil => exact ⟨h, fun id hid ↦ hid.resolve_right (by simp [receivedJobs])⟩
  | cons command rest ih =>
    rw [receivedJobs, List.flatMap_cons, ← receivedJobs] at hreceived ⊢
    have hrest := fun job hjob ↦ hreceived job (List.mem_append_right _ hjob)
    cases command
    case syncJobs nodeId jobs =>
      obtain ⟨hwithin, hkept⟩ := gather_stored
        (fun job hjob ↦ hreceived job (List.mem_append_left _ hjob)) h
      obtain ⟨hall, hheld⟩ := ih hrest hwithin
      refine ⟨hall, fun id hid ↦ hheld id ?_⟩
      simp only [List.mem_append, or_and_right, exists_or] at hid
      rw [← or_assoc] at hid
      exact hid.imp_left (hkept id)
    all_goals exact ih hrest h

private theorem gatherEnough_cases (statusFilter : Option String) (limit : Nat)
    {s : JobManagerState} {commands : List Command}
    (hreceived : ∀ job ∈ receivedJobs commands, s.getJob job.id = some job) {held : JobTable}
    (h : Within s held) :
    gatherEnough statusFilter limit held commands = gatherAll held commands ∨
      Within s (gatherEnough statusFilter limit held commands) ∧
        limit ≤ ((gatherEnough statusFilter limit held commands).values.filter
          (matchesFilter statusFilter)).length := by
  induction commands generalizing held with
  | nil => exact .inl rfl
  | cons command rest ih =>
    rw [receivedJobs, List.flatMap_cons, ← receivedJobs] at hreceived
    have hrest := fun job hjob ↦ hreceived job (List.mem_append_right _ hjob)
    cases command
    case syncJobs nodeId jobs =>
      obtain ⟨hwithin, -⟩ := gather_stored
        (fun job hjob ↦ hreceived job (List.mem_append_left _ hjob)) h
      rw [gatherEnough, gatherAll]
      split
      · next hlimit =>
        rw [List.length_take] at hlimit
        exact .inr ⟨hwithin, hlimit.trans (Nat.min_le_right _ _)⟩
      · exact ih hrest hwithin
    all_goals exact ih hrest h

private theorem eq_jobs_of_all {s : JobManagerState} {held : JobTable} (h : Within s held)
    (hall : ∀ id, s.getJob id ≠ none → held[id]? ≠ none) : held = s.jobs := by
  apply Std.ExtTreeMap.ext_getElem?
  intro id
  change held[id]? = s.getJob id
  cases hheld : held[id]? with
  | some job => exact (h id job hheld).symm
  | none =>
    by_contra hne
    exact hall id (Ne.symm hne) hheld

private theorem eq_jobs_of_length {s : JobManagerState} {held : JobTable} (h : Within s held)
    (hlen : s.records.length ≤ held.values.length) : held = s.jobs := by
  rw [JobManagerState.records, JobTable.values, List.length_map, List.length_map] at hlen
  apply Std.ExtTreeMap.ext_toList
  refine List.Subperm.perm_of_length_le (List.subperm_of_subset (Table.nodup_toList held) ?_) hlen
  rintro ⟨id, job⟩ hentry
  rw [Std.ExtTreeMap.mem_toList_iff_getElem?_eq_some] at hentry ⊢
  exact h id job hentry

-- A query that is asked for no fewer records than there are gathers the whole store.
private theorem gathered_eq {s : JobManagerState} (hkeyed : s.Keyed) {commands : List Command}
    (hreceived : ∀ job, job ∈ receivedJobs commands ↔ job ∈ s.records)
    (statusFilter : Option String) {limit : Nat} (hlimit : s.records.length ≤ limit) :
    gatherAll ∅ commands = s.jobs ∧ gatherEnough statusFilter limit ∅ commands = s.jobs := by
  have hstored : ∀ job, job ∈ s.records ↔ s.getJob job.id = some job := by
    intro job
    rw [JobManagerState.records, List.mem_map]
    constructor
    · rintro ⟨⟨id, _⟩, hentry, rfl⟩
      have hget := Std.ExtTreeMap.mem_toList_iff_getElem?_eq_some.mp hentry
      rwa [hkeyed id _ hget]
    · exact fun hget ↦ ⟨_, Std.ExtTreeMap.mem_toList_iff_getElem?_eq_some.mpr hget, rfl⟩
  have hcame : ∀ job ∈ receivedJobs commands, s.getJob job.id = some job := fun job hjob ↦
    (hstored job).mp ((hreceived job).mp hjob)
  obtain ⟨hwithin, hheld⟩ := gatherAll_stored hcame (within_empty s)
  have hall : gatherAll ∅ commands = s.jobs := by
    apply eq_jobs_of_all hwithin
    intro id hid
    obtain ⟨job, hjob⟩ := Option.ne_none_iff_exists'.mp hid
    have hkey := hkeyed id job hjob
    refine hheld id (.inr ⟨job, (hreceived job).mpr ((hstored job).mpr ?_), hkey⟩)
    rw [hkey, hjob]
  refine ⟨hall, ?_⟩
  rcases gatherEnough_cases statusFilter limit hcame (within_empty s) with heq | ⟨hpart, hmany⟩
  · rw [heq, hall]
  · exact eq_jobs_of_length hpart (hlimit.trans (hmany.trans (List.length_filter_le _ _)))

private theorem mem_selectJobs {records : List JobInstance} {limit : Nat}
    (hlimit : records.length ≤ limit) (statusFilter : Option String) (job : JobInstance) :
    job ∈ selectJobs records statusFilter limit ↔
      job ∈ records ∧ matchesFilter statusFilter job := by
  have hselect : selectJobs records statusFilter limit =
      ((records.insertionSort fun a b ↦ b.updatedAt ≤ a.updatedAt).filter
        (matchesFilter statusFilter)).take limit := by
    cases statusFilter with
    | none =>
      rw [List.filter_eq_self.mpr]
      · rfl
      · exact fun _ _ ↦ rfl
    | some text => rfl
  rw [hselect, List.take_of_length_le, List.mem_filter, List.mem_insertionSort]
  apply (List.length_filter_le _ _).trans
  rw [List.length_insertionSort]
  exact hlimit

private theorem mem_listJobs_of_known {statusFilter : Option String}
    (hknown : KnownFilter statusFilter) {records : List JobInstance} {limit : Nat}
    (hlimit : records.length ≤ limit) (job : JobInstance) :
    job ∈ listJobs records statusFilter limit ↔
      job ∈ records ∧ matchesFilter statusFilter job := by
  rw [listJobs_of_known hknown, List.take_of_length_le, List.mem_insertionSort, List.mem_filter]
  rw [List.length_insertionSort]
  exact (List.length_filter_le _ _).trans hlimit

private theorem mem_listJobs_of_unknown {text : String} (hunknown : filterStatus text = none)
    {records : List JobInstance} {limit : Nat} (hlimit : records.length ≤ limit)
    (job : JobInstance) : job ∈ listJobs records (some text) limit ↔ job ∈ records := by
  unfold listJobs
  rw [Option.bind_some, hunknown, List.take_of_length_le, List.mem_insertionSort]
  rw [List.length_insertionSort]
  exact hlimit

private theorem mem_of_mem_listJobs {records : List JobInstance} {statusFilter : Option String}
    {limit : Nat} {job : JobInstance} (h : job ∈ listJobs records statusFilter limit) :
    job ∈ records := by
  have hmem := (List.mem_insertionSort _).mp (List.mem_of_mem_take h)
  split at hmem
  · exact (List.mem_filter.mp hmem).1
  · exact hmem

private theorem records_of_isEmpty {s : JobManagerState} (h : s.jobs.isEmpty = true) :
    s.records = [] := by
  rw [JobManagerState.records, Std.ExtTreeMap.isEmpty_iff.mp h]
  rfl

/-- Both network paths select the jobs that the store lists. -/
structure SameSelection (stored : List JobInstance) (order : List JobInstance → List JobInstance)
    (commands : List Command) (statusFilter : Option String) (limit : Nat) : Prop where
  query : receivedAny commands →
    ∃ jobs, netQueryJobs order commands statusFilter limit = .ok jobs ∧
      ∀ job, job ∈ jobs ↔ job ∈ listJobs stored statusFilter limit
  list : ∀ job, job ∈ netListJobsJson stored order commands statusFilter limit ↔
    job ∈ listJobs stored statusFilter limit

/-- The network and the store select the same jobs, unless there are jobs and the filter names no
status: the store then shows all of them, the network none. -/
theorem sameSelection_iff {s : JobManagerState} (hkeyed : s.Keyed) {stored : List JobInstance}
    (hstored : stored.Perm s.records) {order : List JobInstance → List JobInstance}
    (horder : ∀ values, (order values).Perm values) {commands : List Command}
    (hreceived : ∀ job, job ∈ receivedJobs commands ↔ job ∈ s.records)
    (statusFilter : Option String) {limit : Nat} (hlimit : s.records.length ≤ limit) :
    SameSelection stored order commands statusFilter limit ↔
      KnownFilter statusFilter ∨ s.records = [] := by
  obtain ⟨hall, henough⟩ := gathered_eq hkeyed hreceived statusFilter hlimit
  have hlocal : stored.length ≤ limit := hstored.length_eq.trans_le hlimit
  have hperm : (order (JobTable.values s.jobs)).Perm stored := (horder _).trans hstored.symm
  have hselected := mem_selectJobs (hperm.length_eq.trans_le hlocal) statusFilter
  simp only [hperm.mem_iff] at hselected
  have hlisted : netListJobsJson stored order commands statusFilter limit =
      if s.jobs.isEmpty then listJobs stored statusFilter limit
      else selectJobs (order (JobTable.values s.jobs)) statusFilter limit := by
    unfold netListJobsJson
    rw [henough]
  constructor
  · intro hsame
    by_contra hno
    obtain ⟨hunknown, hne⟩ := not_or.mp hno
    simp only [KnownFilter, not_forall, not_exists] at hunknown
    obtain ⟨text, htext, hother⟩ := hunknown
    cases htext
    have hnone : filterStatus text = none :=
      Option.eq_none_iff_forall_ne_some.mpr fun status hsome ↦
        hother status (filterStatus_eq_some_iff.mp hsome)
    obtain ⟨job, hjob⟩ := List.exists_mem_of_ne_nil _ hne
    have hlistedJob := (mem_listJobs_of_unknown hnone hlocal job).mpr (hstored.mem_iff.mpr hjob)
    have hanswer := (hsame.list job).mpr hlistedJob
    rw [hlisted, if_neg (fun hempty ↦ hne (records_of_isEmpty hempty)), hselected] at hanswer
    exact hother job.status (beq_iff_eq.mp hanswer.2).symm
  · intro hcond
    have hagree : ∀ job, job ∈ selectJobs (order (JobTable.values s.jobs)) statusFilter limit ↔
        job ∈ listJobs stored statusFilter limit := by
      intro job
      rw [hselected]
      rcases hcond with hknown | hnil
      · rw [mem_listJobs_of_known hknown hlocal]
      · have hempty : stored = [] := (hnil ▸ hstored).eq_nil
        rw [hempty]
        exact iff_of_false (fun h ↦ List.not_mem_nil h.1)
          fun h ↦ List.not_mem_nil (mem_of_mem_listJobs h)
    exact {
      query := fun hany ↦ ⟨_, by rw [netQueryJobs, if_pos hany, hall], hagree⟩
      list := by
        intro job
        rw [hlisted]
        split
        · exact Iff.rfl
        · exact hagree job }

/-- The jobs that an exchange of one message selects. -/
theorem sameSelection_pending :
    SameSelection onePending.records id [.syncJobs "node-a" onePending.records]
        (some "Pending") 1 ↔
      KnownFilter (some "Pending") ∨ onePending.records = [] := by
  have hkeyed : onePending.Keyed :=
    JobManagerState.keyed_submitJob JobManagerState.keyed_empty _ _ _ _ _
  have hreceived : ∀ job, job ∈ receivedJobs [.syncJobs "node-a" onePending.records] ↔
      job ∈ onePending.records := by
    intro job
    simp [receivedJobs]
  exact sameSelection_iff hkeyed (List.Perm.refl _) (fun values ↦ List.Perm.refl values) hreceived
    (some "Pending") (by decide)

/-- The store shows a pending job under the filter `done`, the network does not. -/
theorem sameSelection_fails_done :
    ¬ SameSelection onePending.records id [.syncJobs "node-a" onePending.records]
      (some "done") 1 := by
  intro hsame
  have hnetwork : (netListJobsJson onePending.records id
      [.syncJobs "node-a" onePending.records] (some "done") 1).length = 0 := by
    decide
  have hstore : (listJobs onePending.records (some "done") 1).length = 1 := by
    decide
  obtain ⟨job, hjob⟩ := List.exists_mem_of_length_eq_add_one hstore
  have hanswer := (hsame.list job).mpr hjob
  rw [List.length_eq_zero_iff.mp hnetwork] at hanswer
  exact List.not_mem_nil hanswer

end PeerDeploy.Job
