import PeerDeploy.Cluster.Dispatcher

/-!
# Cancelling jobs

Spawning, registering, ending and cancelling are steps of three tasks that nothing orders:
`crates/agent/src/p2p/mod.rs:1215–1283`, `crates/agent/src/p2p/jobs.rs:159–296` and
`crates/agent/src/job_manager.rs:220–244,362–376`.
-/

namespace PeerDeploy.Cluster

open PeerDeploy.Common PeerDeploy.Base PeerDeploy.Job

/-- The call has marked the job, and returns true or has done so. -/
def CancelCall.marked (call : CancelCall) : Bool :=
  call.pc = .registry ∨ call.pc = .save ∨ call.pc = .returned true

/-- The call has dealt with the registry, and returns true or has done so. -/
def CancelCall.past (call : CancelCall) : Bool := call.pc = .save ∨ call.pc = .returned true

/-- Once `cancel_job` has returned true, every executor of the job that had not ended when the job
was marked, or was spawned later, has been aborted; and before it recorded a result, unless it had
recorded one when the job was marked. -/
def Reaches (d : Dispatcher) : Prop :=
  ∀ call ∈ d.cancels, call.pc = .returned true → ∀ (id : Nat) (executor : Executor),
    d.executors[id]? = some executor → executor.task.jobId = call.jobId →
      (id ∈ call.ended ∨ executor.phase = .aborted) ∧
        (id ∈ call.settled ∨ executor.stopped = true)

/-- Once an executor has ended, the registry holds no entry for its job. -/
def Unregistered (d : Dispatcher) : Prop :=
  ∀ executor ∈ d.executors, executor.live = false → d.runningJobs[executor.task.jobId]? = none

/-- A handler spawns no executor of a job that has been cancelled and registers one only while no
executor of the job has ended; no executor records its result, unregisters or panics while a
cancellation of its job is between its mark and the registry, and one that does not unregister ends
without an entry; and `cancel_job` finds every executor of the job that has not ended in the
registry. -/
def orderly (d : Dispatcher) : DispatchEvent → Bool
  | .handler k _ => d.handlers[k]?.all fun handler ↦
    if handler.unregistered.isSome then
      d.executors.all fun executor ↦ executor.task.jobId = handler.task.jobId → executor.live = true
    else
      handler.task.pc = .spawn →
        d.cancels.all fun call ↦ call.jobId = handler.task.jobId → call.past = false
  | .executor k input => d.executors[k]?.all fun executor ↦
    match executor.phase with
    | .running => executor.finishes input = true →
      d.midCancel executor.task.jobId = false ∧
        (executor.task.spec.jobType ≠ .service → d.runningJobs[executor.task.jobId]? = none)
    | .unregister => d.midCancel executor.task.jobId = false
    | .ended | .aborted => true
  | .panic k => d.executors[k]?.all fun executor ↦
    d.midCancel executor.task.jobId = false ∧ d.runningJobs[executor.task.jobId]? = none
  | .cancel k _ => d.cancels[k]?.all fun call ↦
    call.pc = .registry → d.executors.zipIdx.all fun (executor, id) ↦
      executor.task.jobId = call.jobId → executor.live = true →
        d.runningJobs[call.jobId]? = some id
  | .submitJob .. | .cancelJob _ | .change _ => true

/-- An executor of a kind was observed when a call marked its job, or has come to an outcome. -/
def ObservedOr (d : Dispatcher) (observed : CancelCall → List Nat)
    (kind outcome : Executor → Prop) : Prop :=
  ∀ call ∈ d.cancels, call.marked = true → ∀ (id : Nat) (executor : Executor),
    d.executors[id]? = some executor → executor.task.jobId = call.jobId → kind executor →
      id ∈ observed call ∨ outcome executor

/-- What holds of the tasks and the registry. -/
structure DispatchInv (d : Dispatcher) : Prop where
  /-- An executor that is not at work was so when its job was marked, or has been stopped. -/
  settled : ObservedOr d (·.settled) (·.phase ≠ .running) (·.stopped = true)
  /-- One that is no longer alive was so when its job was marked, or has been aborted. -/
  ended : ObservedOr d (·.ended) (·.live = false) (·.phase = .aborted)
  /-- A cancellation that has dealt with the registry leaves no executor of the job alive. -/
  gone : ∀ call ∈ d.cancels, call.past = true →
    ∀ executor ∈ d.executors, executor.task.jobId = call.jobId → executor.live = false
  working : ∀ executor ∈ d.executors, executor.phase = .running → executor.task.pc ≠ .finished
  unregistered : Unregistered d
  /-- A registered executor is one of the job. -/
  registered : ∀ jobId id, d.runningJobs[jobId]? = some id →
    ∃ executor : Executor, d.executors[id]? = some executor ∧ executor.task.jobId = jobId
  /-- So is one that is yet to be registered. -/
  pending : ∀ handler ∈ d.handlers, ∀ id, handler.unregistered = some id →
    ∃ executor : Executor, d.executors[id]? = some executor ∧
      executor.task.jobId = handler.task.jobId

/-! ### What a step leaves as it was -/

/-- The calls and handlers of a later state go back to earlier ones. -/
structure TasksKept (d t : Dispatcher) : Prop where
  calls : ∀ call ∈ t.cancels, call.marked = true →
    ∃ old ∈ d.cancels, ∃ pc, call = { old with pc } ∧ old.marked = true ∧
      (call.past = true → old.past = true)
  handlers : ∀ handler ∈ t.handlers, ∀ id, handler.unregistered = some id →
    ∃ old ∈ d.handlers, old.unregistered = some id ∧ old.task.jobId = handler.task.jobId

/-- What an orderly step can do to an executor. -/
inductive ExecutorMoves (d : Dispatcher) (old : Executor) : Executor → Prop where
  | same : ExecutorMoves d old old
  | works {executor : Executor} (hphase : executor.phase = .running)
    (hpc : executor.task.pc ≠ .finished) (hold : old.phase = .running) :
    ExecutorMoves d old executor
  | finishes {executor : Executor} (hphase : executor.phase ≠ .running)
    (hold : old.phase = .running) (hfree : d.midCancel old.task.jobId = false) :
    ExecutorMoves d old executor
  | unregisters {executor : Executor} (hphase : executor.phase ≠ .running)
    (hold : old.phase = .unregister) (hfree : d.midCancel old.task.jobId = false) :
    ExecutorMoves d old executor
  | aborted (hold : old.live = true) : ExecutorMoves d old { old with phase := .aborted }

/-- The executors of a later state are those of an earlier one, moved. -/
structure ExecutorsKept (d t : Dispatcher) : Prop where
  back : ∀ (id : Nat) (executor : Executor), t.executors[id]? = some executor →
    ∃ old : Executor, d.executors[id]? = some old ∧ old.task.jobId = executor.task.jobId ∧
      ExecutorMoves d old executor
  forth : ∀ (id : Nat) (old : Executor), d.executors[id]? = some old →
    ∃ executor : Executor, t.executors[id]? = some executor ∧ executor.task.jobId = old.task.jobId

private theorem phase_of_stopped {executor : Executor} (h : executor.stopped = true) :
    executor.phase = .aborted := by
  simp only [Executor.stopped, decide_eq_true_eq] at h
  exact h.1

private theorem past_or_mid {d : Dispatcher} {call : CancelCall} (hcall : call ∈ d.cancels)
    (hmarked : call.marked = true) :
    call.past = true ∨ d.midCancel call.jobId = true := by
  simp only [CancelCall.marked, decide_eq_true_eq] at hmarked
  rcases hmarked with hpc | hpc | hpc
  · right
    simp only [Dispatcher.midCancel, List.any_eq_true, decide_eq_true_eq]
    exact ⟨call, hcall, rfl, hpc⟩
  · left
    simp [CancelCall.past, hpc]
  · left
    simp [CancelCall.past, hpc]

-- While a job is being cancelled, an executor of it neither records its result nor unregisters.
private theorem midCancel_of_live {d : Dispatcher} (h : DispatchInv d) {call : CancelCall}
    (hcall : call ∈ d.cancels) (hmarked : call.marked = true) {id : Nat} {old : Executor}
    (hold : d.executors[id]? = some old) (hjob : old.task.jobId = call.jobId)
    (hlive : old.live = true) : d.midCancel old.task.jobId = true := by
  rcases past_or_mid hcall hmarked with hpast | hmid
  · have hdead := h.gone call hcall hpast old (List.mem_of_getElem? hold) hjob
    rw [hlive] at hdead
    cases hdead
  · rw [hjob]
    exact hmid

private theorem settled_or_stopped {d : Dispatcher} (h : DispatchInv d) {call : CancelCall}
    (hcall : call ∈ d.cancels) (hmarked : call.marked = true) {id : Nat} {old executor : Executor}
    (hold : d.executors[id]? = some old) (hjob : old.task.jobId = call.jobId)
    (hmoves : ExecutorMoves d old executor) (hphase : executor.phase ≠ .running) :
    id ∈ call.settled ∨ executor.stopped = true := by
  have hmid := midCancel_of_live h hcall hmarked hold hjob
  cases hmoves with
  | same => exact h.settled call hcall hmarked id old hold hjob hphase
  | works hrunning => exact absurd hrunning hphase
  | finishes _ hrunning hfree =>
    rw [hmid (by simp [Executor.live, hrunning])] at hfree
    cases hfree
  | unregisters _ hunregister hfree =>
    rw [hmid (by simp [Executor.live, hunregister])] at hfree
    cases hfree
  | aborted hlive =>
    by_cases hrunning : old.phase = .running
    · right
      simpa [Executor.stopped] using h.working old (List.mem_of_getElem? hold) hrunning
    · rcases h.settled call hcall hmarked id old hold hjob hrunning with hdone | hstop
      · exact .inl hdone
      · simp [Executor.live, phase_of_stopped hstop] at hlive

private theorem ended_or_aborted {d : Dispatcher} (h : DispatchInv d) {call : CancelCall}
    (hcall : call ∈ d.cancels) (hmarked : call.marked = true) {id : Nat} {old executor : Executor}
    (hold : d.executors[id]? = some old) (hjob : old.task.jobId = call.jobId)
    (hmoves : ExecutorMoves d old executor) (hdead : executor.live = false) :
    id ∈ call.ended ∨ executor.phase = .aborted := by
  have hmid := midCancel_of_live h hcall hmarked hold hjob
  cases hmoves with
  | same => exact h.ended call hcall hmarked id old hold hjob hdead
  | works hrunning => simp [Executor.live, hrunning] at hdead
  | finishes _ hrunning hfree =>
    rw [hmid (by simp [Executor.live, hrunning])] at hfree
    cases hfree
  | unregisters _ hunregister hfree =>
    rw [hmid (by simp [Executor.live, hunregister])] at hfree
    cases hfree
  | aborted => exact .inr rfl

private theorem live_of_moves {d : Dispatcher} {old executor : Executor}
    (hmoves : ExecutorMoves d old executor) (hold : old.live = false) : executor.live = false := by
  simp only [Executor.live, decide_eq_false_iff_not, not_or] at hold
  cases hmoves with
  | same => simp [Executor.live, hold]
  | works _ _ hrunning | finishes _ hrunning => exact absurd hrunning hold.1
  | unregisters _ hunregister => exact absurd hunregister hold.2
  | aborted => rfl

private theorem observedOr_of_kept {d t : Dispatcher} (hkept : TasksKept d t)
    (hexecutors : ExecutorsKept d t) {observed : CancelCall → List Nat}
    {kind outcome : Executor → Prop}
    (hobserved : ∀ (call : CancelCall) (pc : CancelPc), observed { call with pc } = observed call)
    (hmoves : ∀ call ∈ d.cancels, call.marked = true → ∀ (id : Nat) (old executor : Executor),
      d.executors[id]? = some old → old.task.jobId = call.jobId → ExecutorMoves d old executor →
        kind executor → id ∈ observed call ∨ outcome executor) :
    ObservedOr t observed kind outcome := by
  intro call hcall hmarked id executor hid hjob hkind
  obtain ⟨old, hold, pc, rfl, hmarked, -⟩ := hkept.calls call hcall hmarked
  obtain ⟨before, hbefore, hsame, hmove⟩ := hexecutors.back id executor hid
  rw [hobserved]
  exact hmoves old hold hmarked id before executor hbefore (hsame.trans hjob) hmove hkind

private theorem dispatchInv_of_kept {d t : Dispatcher} (h : DispatchInv d) (hkept : TasksKept d t)
    (hexecutors : ExecutorsKept d t) (hunregistered : Unregistered t)
    (hregistry : ∀ (jobId : String) (id : Nat), t.runningJobs[jobId]? = some id →
      d.runningJobs[jobId]? = some id) : DispatchInv t := by
  constructor
  case settled =>
    apply observedOr_of_kept hkept hexecutors (fun _ _ ↦ rfl)
    intro call hcall hmarked id old executor hold hjob hmoves hphase
    exact settled_or_stopped h hcall hmarked hold hjob hmoves hphase
  case ended =>
    apply observedOr_of_kept hkept hexecutors (fun _ _ ↦ rfl)
    intro call hcall hmarked id old executor hold hjob hmoves hdead
    exact ended_or_aborted h hcall hmarked hold hjob hmoves hdead
  case gone =>
    intro call hcall hpast executor hin hjob
    have hmarked : call.marked = true := by
      simp only [CancelCall.past, CancelCall.marked, decide_eq_true_eq] at hpast ⊢
      exact .inr hpast
    obtain ⟨old, hold, pc, rfl, -, hback⟩ := hkept.calls call hcall hmarked
    obtain ⟨id, hid⟩ := List.mem_iff_getElem?.mp hin
    obtain ⟨before, hbefore, hsame, hmoves⟩ := hexecutors.back id executor hid
    apply live_of_moves hmoves
    exact h.gone old hold (hback hpast) before (List.mem_of_getElem? hbefore) (hsame.trans hjob)
  case working =>
    intro executor hin hphase
    obtain ⟨id, hid⟩ := List.mem_iff_getElem?.mp hin
    obtain ⟨before, hbefore, -, hmoves⟩ := hexecutors.back id executor hid
    cases hmoves with
    | same => exact h.working executor (List.mem_of_getElem? hbefore) hphase
    | works _ hpc _ => exact hpc
    | finishes hne | unregisters hne => exact absurd hphase hne
    | aborted => cases hphase
  case unregistered => exact hunregistered
  case registered =>
    intro jobId id hid
    obtain ⟨old, hold, hjob⟩ := h.registered jobId id (hregistry jobId id hid)
    obtain ⟨executor, hexecutor, hsame⟩ := hexecutors.forth id old hold
    exact ⟨executor, hexecutor, hsame.trans hjob⟩
  case pending =>
    intro handler hin id hid
    obtain ⟨before, hbefore, hid, hjob⟩ := hkept.handlers handler hin id hid
    obtain ⟨old, hold, hsame⟩ := h.pending before hbefore id hid
    obtain ⟨executor, hexecutor, hsame'⟩ := hexecutors.forth id old hold
    exact ⟨executor, hexecutor, hsame'.trans (hsame.trans hjob)⟩

private theorem executorsKept_of_eq {d t : Dispatcher} (hexecutors : t.executors = d.executors) :
    ExecutorsKept d t := by
  constructor
  · intro id executor hid
    rw [hexecutors] at hid
    exact ⟨executor, hid, rfl, .same⟩
  · intro id old hold
    exact ⟨old, hexecutors ▸ hold, rfl⟩

private theorem dispatchInv_quiet {d t : Dispatcher} (h : DispatchInv d) (hkept : TasksKept d t)
    (hexecutors : t.executors = d.executors) (hregistry : t.runningJobs = d.runningJobs) :
    DispatchInv t := by
  apply dispatchInv_of_kept h hkept (executorsKept_of_eq hexecutors)
  · intro executor hin hdead
    rw [hexecutors] at hin
    rw [hregistry]
    exact h.unregistered executor hin hdead
  · intro jobId id hid
    exact hregistry ▸ hid

private theorem executorsKept_set {d t : Dispatcher} {k : Nat} {old executor : Executor}
    (hold : d.executors[k]? = some old) (hjob : executor.task.jobId = old.task.jobId)
    (hmoves : ExecutorMoves d old executor) (ht : t.executors = d.executors.set k executor) :
    ExecutorsKept d t := by
  have hset (id : Nat) : t.executors[id]? =
      if k = id then some executor else d.executors[id]? := by
    rw [ht, List.getElem?_set, if_pos (List.getElem?_eq_some_iff.mp hold).1]
  constructor
  · intro id found hfound
    rw [hset] at hfound
    split at hfound
    · next heq =>
      cases hfound
      exact ⟨old, heq ▸ hold, hjob.symm, hmoves⟩
    · exact ⟨found, hfound, rfl, .same⟩
  · intro id found hfound
    rw [hset]
    split
    · next heq =>
      rw [← heq, hold] at hfound
      cases hfound
      exact ⟨executor, rfl, hjob⟩
    · exact ⟨found, hfound, rfl⟩

/-! ### The steps of handlers -/

private theorem mem_handlers_set {d : Dispatcher} {k : Nat} {handler found : Handler}
    (h : found ∈ d.handlers.set k handler) : found ∈ d.handlers ∨ found = handler :=
  List.mem_or_eq_of_mem_set h

-- A new executor that is not of the kind changes nothing.
private theorem observedOr_append {d : Dispatcher} {observed : CancelCall → List Nat}
    {kind outcome : Executor → Prop} (h : ObservedOr d observed kind outcome) {executor : Executor}
    {handlers : List Handler} (hkind : ¬ kind executor) :
    ObservedOr { d with executors := d.executors ++ [executor], handlers } observed kind
      outcome := by
  intro call hcall hmarked id found hid hjob hfound
  rw [List.getElem?_append] at hid
  split at hid
  · exact h call hcall hmarked id found hid hjob hfound
  · cases List.mem_singleton.mp (List.mem_of_getElem? hid)
    exact absurd hfound hkind

private theorem dispatchInv_spawn {d : Dispatcher} (h : DispatchInv d) {k : Nat} {task : SubmitTask}
    {unregistered : Option Nat}
    (hpc : task.pc ≠ .finished)
    (hfree : ∀ call ∈ d.cancels, call.jobId = task.jobId → call.past = false)
    (hnew : ∀ id, unregistered = some id → id = d.executors.length) :
    DispatchInv { d with
      executors := d.executors ++ [{ task }]
      handlers := d.handlers.set k { task, unregistered } } := by
  have hforth : ∀ (id : Nat) (executor : Executor), d.executors[id]? = some executor →
      (d.executors ++ [({ task } : Executor)])[id]? = some executor := by
    intro id executor hid
    rw [List.getElem?_append_left (List.getElem?_eq_some_iff.mp hid).1]
    exact hid
  constructor
  case settled =>
    apply observedOr_append h.settled
    exact fun hphase ↦ hphase rfl
  case ended =>
    apply observedOr_append h.ended
    exact nofun
  case gone =>
    intro call hcall hpast executor hin hjob
    rcases List.mem_append.mp hin with hin | hin
    · exact h.gone call hcall hpast executor hin hjob
    · cases List.mem_singleton.mp hin
      rw [hfree call hcall hjob.symm] at hpast
      cases hpast
  case working =>
    intro executor hin hphase
    rcases List.mem_append.mp hin with hin | hin
    · exact h.working executor hin hphase
    · cases List.mem_singleton.mp hin
      exact hpc
  case unregistered =>
    intro executor hin hdead
    rcases List.mem_append.mp hin with hin | hin
    · exact h.unregistered executor hin hdead
    · cases List.mem_singleton.mp hin
      cases hdead
  case registered =>
    intro jobId id hid
    obtain ⟨executor, hexecutor, hjob⟩ := h.registered jobId id hid
    exact ⟨executor, hforth id executor hexecutor, hjob⟩
  case pending =>
    intro handler hin id hid
    rcases mem_handlers_set hin with hin | rfl
    · obtain ⟨executor, hexecutor, hjob⟩ := h.pending handler hin id hid
      exact ⟨executor, hforth id executor hexecutor, hjob⟩
    · refine ⟨{ task }, ?_, rfl⟩
      rw [hnew id hid]
      exact List.getElem?_concat_length

private theorem dispatchInv_register {d : Dispatcher} (h : DispatchInv d) {k id : Nat}
    {handler : Handler} (hhandler : d.handlers[k]? = some handler)
    (hid : handler.unregistered = some id)
    (hlive : ∀ executor ∈ d.executors, executor.task.jobId = handler.task.jobId →
      executor.live = true) :
    DispatchInv { d with
      runningJobs := d.runningJobs.insert handler.task.jobId id
      handlers := d.handlers.set k { handler with unregistered := none } } := by
  constructor
  case settled => exact h.settled
  case ended => exact h.ended
  case gone => exact h.gone
  case working => exact h.working
  case unregistered =>
    intro executor hin hdead
    rw [Table.getElem?_insert, if_neg]
    · exact h.unregistered executor hin hdead
    · intro heq
      rw [hlive executor hin heq.symm] at hdead
      cases hdead
  case registered =>
    intro jobId other hother
    rw [Table.getElem?_insert] at hother
    split at hother
    · next heq =>
      cases hother
      rw [← heq]
      exact h.pending handler (List.mem_of_getElem? hhandler) id hid
    · exact h.registered jobId other hother
  case pending =>
    intro found hin other hother
    rcases mem_handlers_set hin with hin | rfl
    · exact h.pending found hin other hother
    · cases hother

private theorem dispatchInv_handler {host : Host} {d t : Dispatcher} {k : Nat} {handler : Handler}
    {input : StepInput} (h : DispatchInv d) (hhandler : d.handlers[k]? = some handler)
    (horderly : orderly d (.handler k input) = true)
    (hstep : d.advanceHandler host k handler input = some t) : DispatchInv t := by
  simp only [orderly, hhandler, Option.all_some] at horderly
  unfold Dispatcher.advanceHandler at hstep
  split at hstep
  · next id hid =>
    cases hstep
    simp only [hid, Option.isSome_some, if_true, List.all_eq_true, decide_eq_true_eq] at horderly
    exact dispatchInv_register h hhandler hid horderly
  · next hnone =>
    simp only [hnone, Option.isSome_none, Bool.false_eq_true, if_false, decide_eq_true_eq,
      List.all_eq_true] at horderly
    split at hstep
    · next hpc =>
      cases hstep
      refine dispatchInv_spawn h (by simp) (horderly hpc) ?_
      intro id hid
      split at hid
      · exact (Option.some.inj hid).symm
      · cases hid
    · cases hstep
    · cases hstep
    · obtain ⟨⟨jobs, pc, cmds⟩, -, rfl⟩ := Option.map_eq_some_iff.mp hstep
      refine dispatchInv_quiet h ?_ rfl rfl
      constructor
      · exact fun call hcall hmarked ↦ ⟨call, hcall, call.pc, rfl, hmarked, id⟩
      · intro found hin id hid
        rcases mem_handlers_set hin with hin | rfl
        · exact ⟨found, hin, hid, rfl⟩
        · exact ⟨handler, List.mem_of_getElem? hhandler, hid, rfl⟩

/-! ### The steps of executors -/

private theorem tasksKept_of_eq {d t : Dispatcher} (hcancels : t.cancels = d.cancels)
    (hhandlers : t.handlers = d.handlers) : TasksKept d t := by
  constructor
  · intro call hcall hmarked
    exact ⟨call, hcancels ▸ hcall, call.pc, rfl, hmarked, id⟩
  · intro handler hin id hid
    exact ⟨handler, hhandlers ▸ hin, hid, rfl⟩

private theorem dispatchInv_setExecutor {d t : Dispatcher} (h : DispatchInv d) {k : Nat}
    {old executor : Executor} (hold : d.executors[k]? = some old)
    (hmoves : ExecutorMoves d old executor) (hjob : executor.task.jobId = old.task.jobId)
    (ht : t.executors = d.executors.set k executor) (hkept : TasksKept d t)
    (hregistry : ∀ jobId : String, t.runningJobs[jobId]? = d.runningJobs[jobId]? ∨
      t.runningJobs[jobId]? = none)
    (hended : executor.live = false → t.runningJobs[old.task.jobId]? = none) : DispatchInv t := by
  apply dispatchInv_of_kept h hkept (executorsKept_set hold hjob hmoves ht)
  · intro found hin hdead
    rw [ht] at hin
    rcases List.mem_or_eq_of_mem_set hin with hin | rfl
    · rcases hregistry found.task.jobId with hsame | hnone
      · exact hsame.trans (h.unregistered found hin hdead)
      · exact hnone
    · rw [hjob]
      exact hended hdead
  · intro jobId id hid
    rcases hregistry jobId with hsame | hnone
    · exact hsame ▸ hid
    · rw [hnone] at hid
      cases hid

private theorem finishes_of_advance {host : Host} {s jobs : JobManagerState} {executor : Executor}
    {input : StepInput} {cmds : List Command}
    (h : executor.task.advance host s input = some (jobs, .finished, cmds)) :
    executor.finishes input = true := by
  cases hpc : executor.task.pc with
  | executing =>
    simp only [SubmitTask.advance, hpc, recordResult, Option.some.injEq] at h
    split at h
    · cases h
    · next hresult => simp [Executor.finishes, hpc, hresult, Except.toBool]
    · next hservice => simpa [Executor.finishes, hpc] using .inl hservice
    · next hservice => simpa [Executor.finishes, hpc] using .inl hservice
  | closing => simp [Executor.finishes, hpc]
  | eligibility | check | locality =>
    simp only [SubmitTask.advance, hpc, Option.some.injEq, Prod.mk.injEq] at h
    have hnext := h.2.1
    split at hnext
    · cases hnext
    · cases hnext
  | _ => simp [SubmitTask.advance, hpc] at h

private theorem dispatchInv_executor {host : Host} {d t : Dispatcher} {k : Nat}
    {executor : Executor} {input : StepInput} (h : DispatchInv d)
    (hexecutor : d.executors[k]? = some executor)
    (horderly : orderly d (.executor k input) = true)
    (hstep : d.advanceExecutor host k executor input = some t) : DispatchInv t := by
  simp only [orderly, hexecutor, Option.all_some] at horderly
  unfold Dispatcher.advanceExecutor at hstep
  split at hstep
  · next hphase =>
    simp only [hphase, decide_eq_true_eq] at horderly
    obtain ⟨⟨jobs, pc, cmds⟩, hadvance, rfl⟩ := Option.map_eq_some_iff.mp hstep
    refine dispatchInv_setExecutor h hexecutor ?_ ?_ rfl (tasksKept_of_eq rfl rfl) ?_ ?_
    · by_cases hpc : pc = .finished
      · subst hpc
        apply ExecutorMoves.finishes _ hphase (horderly (finishes_of_advance hadvance)).1
        simp only [ne_eq, not_true_eq_false, if_false]
        split
        · simp
        · simp
      · exact .works (by simp [hpc]) hpc hphase
    · rfl
    · exact fun jobId ↦ .inl rfl
    · intro hdead
      have hpc : pc = .finished := by
        by_contra hpc
        simp [Executor.live, hpc] at hdead
      subst hpc
      apply (horderly (finishes_of_advance hadvance)).2
      intro hservice
      simp [Executor.live, hservice] at hdead
  · next hphase =>
    simp only [hphase, decide_eq_true_eq] at horderly
    cases hstep
    refine dispatchInv_setExecutor h hexecutor ?_ ?_ rfl (tasksKept_of_eq rfl rfl) ?_ ?_
    · exact .unregisters (by simp) hphase horderly
    · rfl
    · intro jobId
      by_cases heq : executor.task.jobId = jobId
      · exact .inr ((Table.getElem?_erase _ _ _).trans (if_pos heq))
      · exact .inl ((Table.getElem?_erase _ _ _).trans (if_neg heq))
    · intro _
      change (d.runningJobs.erase executor.task.jobId)[executor.task.jobId]? = none
      rw [Table.getElem?_erase, if_pos rfl]
  · cases hstep
  · cases hstep

/-! ### The steps of a cancellation -/

private theorem abort_getElem? (executors : List Executor) (k id : Nat) :
    (Dispatcher.abort executors k)[id]? = executors[id]?.map fun executor ↦
      if k = id ∧ executor.live = true then { executor with phase := .aborted } else executor := by
  rw [Dispatcher.abort, List.getElem?_modify]
  cases executors[id]? with
  | none => rfl
  | some executor =>
    by_cases heq : k = id
    · simp [heq]
    · simp [heq]

private theorem executorsKept_abort {d t : Dispatcher} {k : Nat}
    (ht : t.executors = Dispatcher.abort d.executors k) : ExecutorsKept d t := by
  constructor
  · intro id executor hid
    rw [ht, abort_getElem?] at hid
    obtain ⟨old, hold, rfl⟩ := Option.map_eq_some_iff.mp hid
    refine ⟨old, hold, ?_⟩
    split
    · next hhit => exact ⟨rfl, .aborted hhit.2⟩
    · exact ⟨rfl, .same⟩
  · intro id old hold
    rw [ht, abort_getElem?, hold, Option.map_some]
    refine ⟨_, rfl, ?_⟩
    by_cases hhit : k = id ∧ old.live = true
    · rw [if_pos hhit]
    · rw [if_neg hhit]

private theorem mem_cancels_set {d : Dispatcher} {k : Nat} {call found : CancelCall}
    (h : found ∈ d.cancels.set k call) : found ∈ d.cancels ∨ found = call :=
  List.mem_or_eq_of_mem_set h

private theorem dispatchInv_mark {d : Dispatcher} (h : DispatchInv d) {k : Nat}
    {call : CancelCall} {pc : CancelPc} (hpc : pc = .registry ∨ pc = .returned false)
    (jobs : JobManagerState) :
    DispatchInv { d with
      jobs
      cancels := d.cancels.set k { call with pc, settled := d.settled, ended := d.ended } } := by
  refine ⟨?_, ?_, ?_, h.working, h.unregistered, h.registered, h.pending⟩
  · intro found hin hmarked id executor hid hjob hphase
    rcases mem_cancels_set hin with hin | rfl
    · exact h.settled found hin hmarked id executor hid hjob hphase
    · exact .inl (Dispatcher.mem_numbersOf.mpr ⟨executor, hid, decide_eq_true hphase⟩)
  · intro found hin hmarked id executor hid hjob hdead
    rcases mem_cancels_set hin with hin | rfl
    · exact h.ended found hin hmarked id executor hid hjob hdead
    · exact .inl (Dispatcher.mem_numbersOf.mpr ⟨executor, hid, by simp [hdead]⟩)
  · intro found hin hpast
    rcases mem_cancels_set hin with hin | rfl
    · exact h.gone found hin hpast
    · rcases hpc with rfl | rfl
      · simp [CancelCall.past] at hpast
      · simp [CancelCall.past] at hpast

-- A call that moves on from the registry has observed what it had observed before.
private theorem observedOr_past {d t : Dispatcher} {observed : CancelCall → List Nat}
    {kind outcome : Executor → Prop} {k : Nat} {call : CancelCall}
    (h : ObservedOr { t with cancels := d.cancels } observed kind outcome)
    (hobserved : observed { call with pc := .save } = observed call)
    (hcall : d.cancels[k]? = some call) (hpc : call.pc = .registry)
    (hcancels : t.cancels = d.cancels.set k { call with pc := .save }) :
    ObservedOr t observed kind outcome := by
  intro found hin hmarked
  rw [hcancels] at hin
  rcases mem_cancels_set hin with hin | rfl
  · exact h found hin hmarked
  · rw [hobserved]
    exact h call (List.mem_of_getElem? hcall) (by simp [CancelCall.marked, hpc])

-- A call gets past the registry: none of the executors of the job is alive any more.
private theorem dispatchInv_past {d t : Dispatcher} (h : DispatchInv d) {k : Nat}
    {call : CancelCall} (hcall : d.cancels[k]? = some call) (hpc : call.pc = .registry)
    (hcancels : t.cancels = d.cancels.set k { call with pc := .save })
    (hhandlers : t.handlers = d.handlers) (hexecutors : ExecutorsKept d t)
    (hgone : ∀ executor ∈ t.executors, executor.task.jobId = call.jobId → executor.live = false)
    (hunregistered : Unregistered t)
    (hregistry : ∀ (jobId : String) (id : Nat), t.runningJobs[jobId]? = some id →
      d.runningJobs[jobId]? = some id) : DispatchInv t := by
  -- All but the new position of this call is as in a state where the call has not moved.
  have hsame : DispatchInv { t with cancels := d.cancels } := by
    refine dispatchInv_of_kept h (tasksKept_of_eq rfl ?_) ?_ hunregistered hregistry
    · exact hhandlers
    · exact ⟨hexecutors.back, hexecutors.forth⟩
  refine ⟨?_, ?_, ?_, hsame.working, hunregistered, hsame.registered, hsame.pending⟩
  · exact observedOr_past hsame.settled rfl hcall hpc hcancels
  · exact observedOr_past hsame.ended rfl hcall hpc hcancels
  · intro found hin hpast
    rw [hcancels] at hin
    rcases mem_cancels_set hin with hin | rfl
    · exact hsame.gone found hin hpast
    · exact hgone

private theorem dispatchInv_cancel {d t : Dispatcher} {k : Nat} {call : CancelCall} {now : Clock}
    (h : DispatchInv d) (hcall : d.cancels[k]? = some call)
    (horderly : orderly d (.cancel k now) = true)
    (hstep : d.advanceCancel k call now = some t) : DispatchInv t := by
  simp only [orderly, hcall, Option.all_some, decide_eq_true_eq] at horderly
  unfold Dispatcher.advanceCancel at hstep
  split at hstep
  · next hpc =>
    cases hstep
    refine dispatchInv_mark h ?_ _
    by_cases hmarked : (d.jobs.cancelJob call.jobId now).2 = true
    · exact .inl (if_pos hmarked)
    · exact .inr (if_neg hmarked)
  · next hpc =>
    have hfound := List.all_eq_true.mp (horderly hpc)
    have hlive : ∀ (id : Nat) (executor : Executor), d.executors[id]? = some executor →
        executor.task.jobId = call.jobId → executor.live = true →
          d.runningJobs[call.jobId]? = some id := by
      intro id executor hid hjob halive
      have hentry := hfound (executor, id) (List.mem_zipIdx_iff_getElem?.mpr hid)
      exact of_decide_eq_true hentry hjob halive
    split at hstep
    · next id hid =>
      cases hstep
      refine dispatchInv_past h hcall hpc rfl rfl (executorsKept_abort rfl) ?_ ?_ ?_
      · intro executor hin hjob
        obtain ⟨j, hj⟩ := List.mem_iff_getElem?.mp hin
        rw [abort_getElem?] at hj
        obtain ⟨old, hold, rfl⟩ := Option.map_eq_some_iff.mp hj
        by_cases hhit : id = j ∧ old.live = true
        · rw [if_pos hhit]
          rfl
        · rw [if_neg hhit] at hjob ⊢
          by_contra halive
          rw [Bool.not_eq_false] at halive
          have hregistered := hlive j old hold hjob halive
          rw [hid] at hregistered
          exact hhit ⟨Option.some.inj hregistered, halive⟩
      · intro executor hin hdead
        obtain ⟨j, hj⟩ := List.mem_iff_getElem?.mp hin
        rw [abort_getElem?] at hj
        obtain ⟨old, hold, rfl⟩ := Option.map_eq_some_iff.mp hj
        rw [Table.getElem?_erase]
        by_cases hhit : id = j ∧ old.live = true
        · obtain ⟨registered, hregistered, hjob⟩ := h.registered _ _ hid
          rw [hhit.1, hold] at hregistered
          cases hregistered
          rw [if_pos hhit, if_pos hjob.symm]
        · rw [if_neg hhit] at hdead ⊢
          split
          · rfl
          · exact h.unregistered old (List.mem_of_getElem? hold) hdead
      · intro jobId other hother
        rw [Table.getElem?_erase] at hother
        split at hother
        · cases hother
        · exact hother
    · next hnone =>
      cases hstep
      refine dispatchInv_past h hcall hpc rfl rfl (executorsKept_of_eq rfl) ?_ ?_ ?_
      · intro executor hin hjob
        obtain ⟨j, hj⟩ := List.mem_iff_getElem?.mp hin
        by_contra halive
        rw [Bool.not_eq_false] at halive
        have hregistered := hlive j executor hj hjob halive
        rw [hnone] at hregistered
        cases hregistered
      · exact h.unregistered
      · exact fun jobId id hid ↦ hid
  · next hpc =>
    cases hstep
    refine dispatchInv_quiet h ⟨?_, ?_⟩ rfl rfl
    · intro found hin hmarked
      rcases mem_cancels_set hin with hin | rfl
      · exact ⟨found, hin, found.pc, rfl, hmarked, id⟩
      · refine ⟨call, List.mem_of_getElem? hcall, .returned true, rfl, ?_, fun _ ↦ ?_⟩
        · simp [CancelCall.marked, hpc]
        · simp [CancelCall.past, hpc]
    · exact fun handler hin id hid ↦ ⟨handler, hin, hid, rfl⟩
  · cases hstep

/-! ### Whole runs -/

private theorem dispatchInv_step (host : Host) (d : Dispatcher) (event : DispatchEvent)
    (t : Dispatcher) (h : DispatchInv d) (horderly : orderly d event = true)
    (hstep : d.step host event = some t) : DispatchInv t := by
  cases event with
  | submitJob originNodeId jobId spec roles =>
    cases hstep
    refine dispatchInv_quiet h ⟨?_, ?_⟩ rfl rfl
    · exact fun call hcall hmarked ↦ ⟨call, hcall, call.pc, rfl, hmarked, id⟩
    · intro handler hin id hid
      rcases List.mem_append.mp hin with hin | hin
      · exact ⟨handler, hin, hid, rfl⟩
      · cases List.mem_singleton.mp hin
        cases hid
  | cancelJob jobId =>
    cases hstep
    refine dispatchInv_quiet h ⟨?_, ?_⟩ rfl rfl
    · intro call hin hmarked
      rcases List.mem_append.mp hin with hin | hin
      · exact ⟨call, hin, call.pc, rfl, hmarked, id⟩
      · cases List.mem_singleton.mp hin
        cases hmarked
    · exact fun handler hin id hid ↦ ⟨handler, hin, hid, rfl⟩
  | handler k input =>
    simp only [Dispatcher.step] at hstep
    split at hstep
    · next handler hhandler => exact dispatchInv_handler h hhandler horderly hstep
    · cases hstep
  | executor k input =>
    simp only [Dispatcher.step] at hstep
    split at hstep
    · next executor hexecutor => exact dispatchInv_executor h hexecutor horderly hstep
    · cases hstep
  | panic k =>
    simp only [Dispatcher.step] at hstep
    split at hstep
    · next executor hexecutor =>
      split at hstep
      · next hphase =>
        simp only [orderly, hexecutor, Option.all_some, decide_eq_true_eq] at horderly
        cases hstep
        refine dispatchInv_setExecutor h hexecutor ?_ ?_ rfl (tasksKept_of_eq rfl rfl) ?_ ?_
        · exact .finishes (by simp) hphase horderly.1
        · rfl
        · exact fun jobId ↦ .inl rfl
        · exact fun _ ↦ horderly.2
      · cases hstep
    · cases hstep
  | cancel k now =>
    simp only [Dispatcher.step] at hstep
    split at hstep
    · next call hcall => exact dispatchInv_cancel h hcall horderly hstep
    · cases hstep
  | change jobs =>
    cases hstep
    exact dispatchInv_quiet h (tasksKept_of_eq rfl rfl) rfl rfl

/-- In every run whose steps are orderly, a cancellation that returned true has aborted every
executor of its job that had not ended before, and the registry holds no entry of a job one of whose
executors has ended. -/
theorem cancellation_reaches (host : Host) {events : List DispatchEvent}
    (horderly : StepsMeet (Dispatcher.step host) (fun d event ↦ orderly d event = true) {}
      events) :
    Throughout (Dispatcher.step host) (fun d ↦ Reaches d ∧ Unregistered d) {} events := by
  have hstart : DispatchInv {} :=
    { settled := fun call hin ↦ absurd hin List.not_mem_nil
      ended := fun call hin ↦ absurd hin List.not_mem_nil
      gone := fun call hin ↦ absurd hin List.not_mem_nil
      working := fun executor hin ↦ absurd hin List.not_mem_nil
      unregistered := fun executor hin ↦ absurd hin List.not_mem_nil
      registered := fun jobId id hid ↦ by simp at hid
      pending := fun handler hin ↦ absurd hin List.not_mem_nil }
  refine throughout_of_invariant (dispatchInv_step host) ?_ hstart horderly
  intro d h
  refine ⟨?_, h.unregistered⟩
  intro call hcall hpc id executor hid hjob
  have hmarked : call.marked = true := by simp [CancelCall.marked, hpc]
  have hdead : executor.live = false :=
    h.gone call hcall (by simp [CancelCall.past, hpc]) executor (List.mem_of_getElem? hid) hjob
  constructor
  · exact h.ended call hcall hmarked id executor hid hjob hdead
  · apply h.settled call hcall hmarked id executor hid hjob
    intro hrunning
    simp [Executor.live, hrunning] at hdead

-- The steps of a handler up to the spawned executor.
private def upToSpawn (spec : JobSpec) : List DispatchEvent :=
  .submitJob "cli" "job-1" spec [] ::
    List.replicate 9 (.handler 0 { now := fun _ ↦ 100 })

-- A call of `cancel_job` with nothing in between.
private def cancelled : List DispatchEvent :=
  .cancelJob "job-1" :: List.replicate 3 (.cancel 0 fun _ ↦ 101)

-- A service that is spawned, registered and cancelled.
private def serviceCancelled : List DispatchEvent :=
  upToSpawn { buildSpec with jobType := .service } ++
    .handler 0 { now := fun _ ↦ 100 } :: cancelled

/-- The executor of the registered service is aborted. -/
theorem cancellation_reaches_service :
    ∃ d, run (Dispatcher.step nodeA) {} serviceCancelled = some d ∧ Reaches d ∧ Unregistered d ∧
      d.executors.map (·.phase) = [.aborted] ∧
      d.cancels.map (·.pc) = [.returned true] := by
  have horderly : StepsMeet (Dispatcher.step nodeA) (fun d event ↦ orderly d event = true) {}
      serviceCancelled :=
    stepsMeet_of_checkSteps (fun _ _ h ↦ h)
      (show checkSteps (Dispatcher.step nodeA) orderly {} serviceCancelled = true by
        decide)
  have hseen : (run (Dispatcher.step nodeA) {} serviceCancelled).map
      (fun d ↦ (d.executors.map (·.phase), d.cancels.map (·.pc))) =
        some ([.aborted], [.returned true]) := by
    decide
  obtain ⟨d, hrun, hd⟩ := Option.map_eq_some_iff.mp hseen
  obtain ⟨hexecutors, hcancels⟩ := Prod.mk.inj hd
  obtain ⟨hreaches, hunregistered⟩ :=
    cancellation_reaches nodeA horderly serviceCancelled [] (List.append_nil _).symm d hrun
  exact ⟨d, hrun, hreaches, hunregistered, hexecutors, hcancels⟩

-- A one-shot job that is spawned and cancelled.
private def oneShotCancelled : List DispatchEvent := upToSpawn buildSpec ++ cancelled

-- A registered service that ends while its cancellation is between the mark and the registry.
private def endedBetween : List DispatchEvent :=
  upToSpawn { buildSpec with jobType := .service } ++
    [.handler 0 { now := fun _ ↦ 100 }, .cancelJob "job-1", .cancel 0 fun _ ↦ 101] ++
    List.replicate 3 (.executor 0 { now := fun _ ↦ 101 }) ++
    List.replicate 2 (.cancel 0 fun _ ↦ 102)

-- A service that ends before its handler registers it.
private def lateRegistered : List DispatchEvent :=
  upToSpawn { buildSpec with jobType := .service } ++
    List.replicate 3 (.executor 0 { now := fun _ ↦ 101 }) ++ [.handler 0 { now := fun _ ↦ 101 }]

private theorem not_reaches {events : List DispatchEvent} {phase : ExecutorPhase}
    (hphase : phase ≠ .aborted)
    (hseen : (run (Dispatcher.step nodeA) {} events).map
      (fun d ↦ (d.cancels, d.executors.map fun e ↦ (e.task.jobId, e.phase))) =
        some ([⟨"job-1", .returned true, [], []⟩], [("job-1", phase)])) :
    ∃ d, run (Dispatcher.step nodeA) {} events = some d ∧ ¬ Reaches d := by
  obtain ⟨d, hrun, hd⟩ := Option.map_eq_some_iff.mp hseen
  obtain ⟨hcancels, hexecutors⟩ := Prod.mk.inj hd
  refine ⟨d, hrun, ?_⟩
  intro hreaches
  have hfirst : (d.executors.map fun e ↦ (e.task.jobId, e.phase))[0]? = some ("job-1", phase) := by
    rw [hexecutors]
    rfl
  rw [List.getElem?_map] at hfirst
  obtain ⟨executor, hexecutor, heq⟩ := Option.map_eq_some_iff.mp hfirst
  obtain ⟨hjob, rfl⟩ := Prod.mk.inj heq
  have hcall : (⟨"job-1", .returned true, [], []⟩ : CancelCall) ∈ d.cancels := by
    rw [hcancels]
    exact List.mem_cons_self
  rcases (hreaches _ hcall rfl 0 executor hexecutor hjob).1 with hended | haborted
  · cases hended
  · exact hphase haborted

/-- The executor of a one-shot job runs on after its cancellation, a service that ends between the
two steps of its cancellation has completed, and a service that ends before its handler registers
it stays registered. -/
theorem cancellation_misses :
    (∃ d, run (Dispatcher.step nodeA) {} oneShotCancelled = some d ∧ ¬ Reaches d) ∧
      (∃ d, run (Dispatcher.step nodeA) {} endedBetween = some d ∧ ¬ Reaches d) ∧
      ∃ d, run (Dispatcher.step nodeA) {} lateRegistered = some d ∧ ¬ Unregistered d := by
  refine ⟨not_reaches (by decide : ExecutorPhase.running ≠ .aborted) (by decide),
    not_reaches (by decide : ExecutorPhase.ended ≠ .aborted) (by decide), ?_⟩
  have hseen : (run (Dispatcher.step nodeA) {} lateRegistered).map
      (fun d ↦ (d.runningJobs["job-1"]?, d.executors.map fun e ↦ (e.task.jobId, e.live))) =
        some (some 0, [("job-1", false)]) := by
    decide
  obtain ⟨d, hrun, hd⟩ := Option.map_eq_some_iff.mp hseen
  obtain ⟨hregistry, hexecutors⟩ := Prod.mk.inj hd
  refine ⟨d, hrun, ?_⟩
  intro hunregistered
  have hin : ("job-1", false) ∈ d.executors.map fun e ↦ (e.task.jobId, e.live) := by
    rw [hexecutors]
    exact List.mem_cons_self
  obtain ⟨executor, hexecutor, heq⟩ := List.mem_map.mp hin
  obtain ⟨hjob, hdead⟩ := Prod.mk.inj heq
  have hnone := hunregistered executor hexecutor hdead
  rw [hjob, hregistry] at hnone
  cases hnone

end PeerDeploy.Cluster
