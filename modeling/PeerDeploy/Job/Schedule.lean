import PeerDeploy.Job.Life
import Mathlib.Order.Bounds.Defs

/-!
# Recurring jobs

`crates/agent/src/job_manager.rs:309–360`, called on every tick of
`crates/agent/src/p2p/mod.rs:728–742`. The next run that the check compares with the clock
comes from `upcoming(Utc).next()`, which looks for it after the present moment. So it is never
due.
-/

namespace PeerDeploy.Job

open PeerDeploy.Common PeerDeploy.Base

/-- The cron crate: the occurrences of an expression, if it is one. -/
structure Cron where
  occurrences : String → Option (Int → Prop)

/-- The readings of a check agree with the crate: `upcoming(Utc).next()` is the earliest
occurrence later than the moment of its call, and the call comes after `Utc::now()`. -/
def Cron.Gives (cron : Cron) (calendar : Calendar) : Prop :=
  ∀ expr, match cron.occurrences expr with
    | none => calendar.upcoming expr = none
    | some occurs => ∃ moment, calendar.now ≤ moment ∧
      match calendar.upcoming expr with
      | none => ∀ t, moment < t → ¬ occurs t
      | some next => IsLeast {t | moment < t ∧ occurs t} next

/-- A schedule check: the store that it meets and what it reads. -/
structure Evaluation where
  store : JobManagerState
  calendar : Calendar

/-- What `evaluate_schedules` returns. -/
def Evaluation.due (evaluation : Evaluation) : List JobSpec :=
  (evaluation.store.evaluateSchedules evaluation.calendar).2

/-- The checks in the life of a manager, in order. -/
def evaluations (codec : StoreCodec) (nodeId : String) : LifeState → List LifeEvent →
    List Evaluation
  | _, [] => []
  | s, event :: rest =>
    let later := evaluations codec nodeId (lifeNext codec nodeId s event) rest
    match event with
    | .evaluateSchedules calendar => ⟨s.jobs, calendar⟩ :: later
    | _ => later

/-- Both checks find a recurring job with the specification, and its schedule is valid. -/
structure Recurs (cron : Cron) (earlier later : Evaluation) (spec : JobSpec)
    (occurs : Int → Prop) : Prop where
  held : ∃ jobId job job', earlier.store.getJob jobId = some job ∧
    later.store.getJob jobId = some job' ∧ job.spec = spec ∧ job'.spec = spec
  recurring : spec.jobType = .recurring
  valid : spec.schedule.bind cron.occurrences = some occurs

/-- There is an occurrence after the earlier check and not after the later one. -/
def OccursBetween (earlier later : Evaluation) (occurs : Int → Prop) : Prop :=
  ∃ t, earlier.calendar.now < t ∧ t ≤ later.calendar.now ∧ occurs t

/-- At each check but the first, a recurring job is due once if its schedule has had an
occurrence since the check before, and is not due otherwise. -/
def RecurringJobsFire (cron : Cron) (checks : List Evaluation) : Prop :=
  ∀ earlier later, [earlier, later] <:+: checks →
    ∀ spec occurs, Recurs cron earlier later spec occurs →
      (OccursBetween earlier later occurs → later.due.count spec = 1) ∧
        (¬ OccursBetween earlier later occurs → spec ∉ later.due)

/-! ### Nothing is due -/

/-- The next run is later than the clock it is compared with. -/
theorem now_lt_of_upcoming {cron : Cron} {calendar : Calendar} (hcron : cron.Gives calendar)
    {expr : String} {next : Int} (hnext : calendar.upcoming expr = some next) :
    calendar.now < next := by
  have hgives := hcron expr
  cases hoccurrences : cron.occurrences expr with
  | none =>
    rw [hoccurrences] at hgives
    rw [hgives] at hnext
    cases hnext
  | some occurs =>
    rw [hoccurrences] at hgives
    obtain ⟨moment, hmoment, hleast⟩ := hgives
    rw [hnext] at hleast
    have hlater : moment < next := hleast.1.1
    omega

/-- No record is due, whatever its last run was. -/
theorem isDue_eq_false {cron : Cron} {calendar : Calendar} (hcron : cron.Gives calendar)
    (job : JobInstance) : isDue calendar job = false := by
  unfold isDue
  split
  · next next hrecurring hnext =>
    obtain ⟨expr, -, hnext⟩ := Option.bind_eq_some_iff.mp hnext
    have hlater : ¬ next ≤ calendar.now := by
      have := now_lt_of_upcoming hcron hnext
      omega
    split
    · simp [hlater]
    · simp [hlater]
  · rfl

/-- The check leaves the store as it is and finds nothing. -/
theorem evaluateSchedules_eq {cron : Cron} {calendar : Calendar} (hcron : cron.Gives calendar)
    (s : JobManagerState) : s.evaluateSchedules calendar = (s, []) := by
  have hsame : ∀ job, scheduleRecord calendar job = job := by
    intro job
    unfold scheduleRecord
    rw [isDue_eq_false hcron job]
    rfl
  unfold JobManagerState.evaluateSchedules
  refine Prod.ext ?_ ?_
  · apply JobManagerState.ext_getJob
    · rfl
    · intro jobId
      simp only [JobManagerState.getJob, Std.ExtTreeMap.getElem?_map, hsame, Option.map_id']
  · have hnone : s.records.filter (isDue calendar) = [] := by
      rw [List.filter_eq_nil_iff]
      intro job _
      rw [isDue_eq_false hcron job]
      exact Bool.false_ne_true
    show (s.records.filter (isDue calendar)).map (·.spec) = []
    rw [hnone, List.map_nil]

/-- Every check of a life has its readings from an event of it. -/
theorem mem_evaluations {codec : StoreCodec} {nodeId : String} {s : LifeState}
    {events : List LifeEvent} {evaluation : Evaluation}
    (h : evaluation ∈ evaluations codec nodeId s events) :
    LifeEvent.evaluateSchedules evaluation.calendar ∈ events := by
  induction events generalizing s with
  | nil => cases h
  | cons event rest ih =>
    cases event with
    | evaluateSchedules calendar =>
      rcases List.mem_cons.mp h with rfl | h
      · exact List.mem_cons_self
      · exact List.mem_cons_of_mem _ (ih h)
    | _ => exact List.mem_cons_of_mem _ (ih h)

/-- Whatever happens to a store, its recurring jobs are due when they should be exactly if no
schedule has an occurrence between two checks that find the job. -/
theorem recurringJobs_fire_iff (cron : Cron) (codec : StoreCodec) (nodeId : String)
    (s : LifeState) (events : List LifeEvent)
    (hcron : ∀ calendar, .evaluateSchedules calendar ∈ events → cron.Gives calendar) :
    RecurringJobsFire cron (evaluations codec nodeId s events) ↔
      ∀ earlier later, [earlier, later] <:+: evaluations codec nodeId s events →
        ∀ spec occurs, Recurs cron earlier later spec occurs →
          ¬ OccursBetween earlier later occurs := by
  have hnone : ∀ earlier later, [earlier, later] <:+: evaluations codec nodeId s events →
      later.due = [] := by
    intro earlier later hpair
    have hin : later ∈ evaluations codec nodeId s events := hpair.mem (by simp)
    unfold Evaluation.due
    rw [evaluateSchedules_eq (hcron later.calendar (mem_evaluations hin))]
  constructor
  · intro hfire earlier later hpair spec occurs hrecurs hbetween
    have hone := (hfire earlier later hpair spec occurs hrecurs).1 hbetween
    rw [hnone earlier later hpair] at hone
    cases hone
  · intro hquiet earlier later hpair spec occurs hrecurs
    constructor
    · intro hbetween
      exact absurd hbetween (hquiet earlier later hpair spec occurs hrecurs)
    · intro _
      rw [hnone earlier later hpair]
      exact List.not_mem_nil

/-! ### A job of every minute -/

private def minute : Int := 60000000000

private def everyMinute : Cron where
  occurrences expr := if expr = "0 * * * * *" then some fun t ↦ t % minute = 0 else none

private def calendarAt (now : Int) : Calendar where
  now := now
  fromTimestamp ts := some (ts * 1000000000)
  upcoming expr := if expr = "0 * * * * *" then some ((now / minute + 1) * minute) else none

private theorem gives_calendarAt (now : Int) : everyMinute.Gives (calendarAt now) := by
  intro expr
  by_cases hexpr : expr = "0 * * * * *"
  · simp only [everyMinute, calendarAt, hexpr, if_true]
    refine ⟨now, le_refl now, ?_, ?_⟩
    · show now < _ ∧ _
      unfold minute
      omega
    · intro t ht
      have ⟨hlater, hwhole⟩ : now < t ∧ t % minute = 0 := ht
      unfold minute at *
      omega
  · simp only [everyMinute, calendarAt, hexpr, if_false]

private def heartbeat : JobSpec where
  name := "heartbeat"
  jobType := .recurring
  schedule := some "0 * * * * *"
  runtime := .native "/bin/true" none [] []

private def noCodec : StoreCodec where
  toStringPretty _ _ := []
  fromStr _ := none

-- The job is submitted, and the schedules are checked at the two moments.
private def checkedAt (first second : Int) : List LifeEvent :=
  [.submitJob heartbeat (some "node-a") (some "job-1") fun _ ↦ 0, .evaluateSchedules (calendarAt first),
    .evaluateSchedules (calendarAt second)]

private theorem gives_checkedAt {first second : Int} {calendar : Calendar}
    (h : .evaluateSchedules calendar ∈ checkedAt first second) : everyMinute.Gives calendar := by
  simp only [checkedAt, List.mem_cons, LifeEvent.evaluateSchedules.injEq, reduceCtorEq, false_or,
    List.not_mem_nil, or_false] at h
  rcases h with rfl | rfl
  · exact gives_calendarAt first
  · exact gives_calendarAt second

/-- Between ten and fifty seconds there is no whole minute, and the job is not due. -/
theorem recurringJobs_fire_iff_quiet :
    RecurringJobsFire everyMinute
      (evaluations noCodec "node-a" {} (checkedAt 10000000000 50000000000)) := by
  apply (recurringJobs_fire_iff everyMinute noCodec "node-a" {} _
    fun _ ↦ gives_checkedAt).mpr
  intro earlier later hpair spec occurs hrecurs hbetween
  have hchecks := hpair.sublist.eq_of_length (by rfl)
  simp only [evaluations, checkedAt, List.cons.injEq, and_true] at hchecks
  obtain ⟨rfl, rfl⟩ := hchecks
  obtain ⟨t, hafter, hnot, hoccurs⟩ := hbetween
  obtain ⟨expr, -, hvalid⟩ := Option.bind_eq_some_iff.mp hrecurs.valid
  simp only [everyMinute] at hvalid
  split at hvalid
  · cases hvalid
    simp only [calendarAt] at hafter hnot
    simp only [minute] at hoccurs
    omega
  · cases hvalid

private def submitted : JobManagerState :=
  (({} : JobManagerState).submitJob "node-a" heartbeat (some "node-a") (some "job-1")
    fun _ ↦ 0).1

/-- Half a minute before and half a minute after a whole minute the schedules are checked: the
job of every minute is not due. -/
theorem heartbeat_silent :
    (∀ calendar, .evaluateSchedules calendar ∈ checkedAt 30000000000 90000000000 →
      everyMinute.Gives calendar) ∧
    ¬ RecurringJobsFire everyMinute
      (evaluations noCodec "node-a" {} (checkedAt 30000000000 90000000000)) := by
  refine ⟨fun _ ↦ gives_checkedAt, ?_⟩
  intro hfire
  have hchecks : evaluations noCodec "node-a" {} (checkedAt 30000000000 90000000000) =
      [⟨submitted, calendarAt 30000000000⟩, ⟨submitted, calendarAt 90000000000⟩] := by
    show [Evaluation.mk submitted (calendarAt 30000000000), Evaluation.mk
      (submitted.evaluateSchedules (calendarAt 30000000000)).1 (calendarAt 90000000000)] = _
    rw [evaluateSchedules_eq (gives_calendarAt _)]
  rw [hchecks] at hfire
  have hheld : submitted.getJob "job-1" =
      some (JobManagerState.freshRecord "job-1" "node-a" heartbeat fun _ ↦ 0) :=
    (JobManagerState.getJob_submitJob {} "node-a" "node-a" "job-1" "job-1" heartbeat _).trans
      (if_pos rfl)
  have hrecurs : Recurs everyMinute ⟨submitted, calendarAt 30000000000⟩
      ⟨submitted, calendarAt 90000000000⟩ heartbeat fun t ↦ t % minute = 0 :=
    ⟨⟨"job-1", _, _, hheld, hheld, rfl, rfl⟩, rfl, rfl⟩
  have hone := (hfire _ _ List.infix_rfl heartbeat _ hrecurs).1
    ⟨60000000000, by decide, by decide, by decide⟩
  unfold Evaluation.due at hone
  rw [evaluateSchedules_eq (gives_calendarAt _)] at hone
  cases hone

end PeerDeploy.Job
