import PeerDeploy.Cluster.Network

/-!
# How many nodes execute a job

A node takes a job when its own record carries no assigned node
(`crates/agent/src/p2p/mod.rs:1168–1178`); the JobAccepted message that should keep the
others away travels after that check. The result: as long as every node that checks can
already see the acceptance of another node, one node at most spawns the execution.
-/

namespace PeerDeploy.Cluster

open PeerDeploy.Common PeerDeploy.Base PeerDeploy.Job

/-- The task has found the job unassigned and goes on to take it. -/
def SubmitPc.pastCheck : SubmitPc → Bool
  | .submit | .eligibility | .check | .ignored | .declined => false
  | _ => true

/-- A task of node `n` has taken the job. -/
def Accepts (c : Mesh) (n jobId : String) : Prop :=
  ∃ task ∈ (c.node n).tasks, task.jobId = jobId ∧ task.pc.pastCheck = true

/-- Some step of the run is the spawn of the job's execution on node `n`. -/
def Spawns (hash : List StateKey → UInt64) (start : Mesh) (events : List Event)
    (n jobId : String) : Prop :=
  ∃ before k input after c task, events = before ++ .advance n k input :: after ∧
    run (step hash) start before = some c ∧ (c.node n).tasks[k]? = some task ∧
    task.jobId = jobId ∧ task.pc = .spawn

/-- A node about to check a job that another node has taken finds an assigned node in its own
record: the acceptance has arrived. -/
def SeesAcceptance (c : Mesh) : Event → Prop
  | .advance n k _ => ∀ task, (c.node n).tasks[k]? = some task → task.pc = .check →
    (∃ m, m ≠ n ∧ Accepts c m task.jobId) →
      ((c.node n).jobs.getJob task.jobId).any (·.assignedNode.isSome) = true
  | _ => True

/-! ### Tasks along a step -/

private theorem pastCheck_advance {host : Host} {s jobs : JobManagerState} {task : SubmitTask}
    {input : StepInput} {pc : SubmitPc} {cmds : List Command}
    (h : task.advance host s input = some (jobs, pc, cmds)) :
    pc.pastCheck = true ↔ task.pc.pastCheck = true ∨
      (task.pc = .check ∧ (s.getJob task.jobId).any (·.assignedNode.isSome) = false) := by
  obtain ⟨originNodeId, jobId, spec, roles, at'⟩ := task
  cases at' with
  | eligibility =>
    simp only [SubmitTask.advance, Option.some.injEq, Prod.mk.injEq] at h
    obtain ⟨-, rfl, -⟩ := h
    split <;> simp [SubmitPc.pastCheck]
  | check =>
    simp only [SubmitTask.advance, Option.some.injEq, Prod.mk.injEq] at h
    obtain ⟨-, rfl, -⟩ := h
    split
    · next ha => simp [SubmitPc.pastCheck, ha]
    · next ha => simpa [SubmitPc.pastCheck] using ha
  | locality =>
    simp only [SubmitTask.advance, Option.some.injEq, Prod.mk.injEq] at h
    obtain ⟨-, rfl, -⟩ := h
    split <;> simp [SubmitPc.pastCheck]
  | executing =>
    simp only [SubmitTask.advance, Option.some.injEq, recordResult] at h
    split at h <;> (cases h; simp [SubmitPc.pastCheck])
  | finished | ignored | declined | crashed => cases h
  | _ =>
    simp only [SubmitTask.advance, Option.some.injEq, Prod.mk.injEq] at h
    obtain ⟨-, rfl, -⟩ := h
    simp [SubmitPc.pastCheck]

private theorem tasks_move {hash : List StateKey → UInt64} {c d : Mesh} {event : Event}
    (h : Moves hash c event d) (n : String) :
    (d.node n).tasks = (c.node n).tasks ∨
      (∃ task, task.pc = .submit ∧ (d.node n).tasks = (c.node n).tasks ++ [task]) ∨
      ∃ k input task jobs pc cmds, event = .advance n k input ∧
        (c.node n).tasks[k]? = some task ∧
        task.advance ⟨n, (c.node n).platform⟩ (c.node n).jobs input = some (jobs, pc, cmds) ∧
        (d.node n).tasks = (c.node n).tasks.set k { task with pc } := by
  cases h with
  | client _ => exact .inl rfl
  | @deliver m i now order src cmd out hsent hsrc hout =>
    by_cases hm : n = m
    · subst hm
      rw [node_put_self]
      rcases receive_cases hout with ⟨task, hp, rfl⟩ | ⟨_, _, _, rfl⟩ | ⟨_, rfl⟩ | ⟨_, _, rfl⟩
      · exact .inr (.inl ⟨task, hp, rfl⟩)
      all_goals exact .inl rfl
    · exact .inl (by rw [node_put_ne c hm])
  | @advance m k input task jobs pc cmds htask hadv =>
    by_cases hm : n = m
    · subst hm
      rw [node_put_self]
      exact .inr (.inr ⟨k, input, task, jobs, pc, cmds, rfl, htask, hadv, rfl⟩)
    · exact .inl (by rw [node_put_ne c hm])
  | @syncTick m order _ =>
    by_cases hm : n = m
    · subst hm
      rw [node_put_self]
      left
      unfold Node.syncTick
      simp only
      split <;> rfl
    · exact .inl (by rw [node_put_ne c hm])
  | @connectionEstablished m order _ | @change m change =>
    by_cases hm : n = m
    · subst hm
      exact .inl (by rw [node_put_self])
    · exact .inl (by rw [node_put_ne c hm])

-- A node that has taken a job after a step had taken it before, or its check has just found the job
-- unassigned.
private theorem accepts_of_move {hash : List StateKey → UInt64} {c d : Mesh} {event : Event}
    (h : Moves hash c event d) {n jobId : String} (ha : Accepts d n jobId) :
    Accepts c n jobId ∨ ∃ k input task, event = .advance n k input ∧
      (c.node n).tasks[k]? = some task ∧ task.jobId = jobId ∧ task.pc = .check ∧
      ((c.node n).jobs.getJob jobId).any (·.assignedNode.isSome) = false := by
  obtain ⟨task, hmem, hid, hpc⟩ := ha
  rcases tasks_move h n with ht | ⟨fresh, hf, ht⟩ |
    ⟨k, input, old, jobs, pc, cmds, he, hold, hadv, ht⟩
  · exact .inl ⟨task, ht ▸ hmem, hid, hpc⟩
  · rw [ht, List.mem_append, List.mem_singleton] at hmem
    rcases hmem with hmem | rfl
    · exact .inl ⟨task, hmem, hid, hpc⟩
    · rw [hf] at hpc
      cases hpc
  · rw [ht] at hmem
    rcases List.mem_or_eq_of_mem_set hmem with hmem | rfl
    · exact .inl ⟨task, hmem, hid, hpc⟩
    · rcases (pastCheck_advance hadv).mp hpc with hp | ⟨hp, hn⟩
      · exact .inl ⟨old, List.mem_of_getElem? hold, hid, hp⟩
      · subst hid
        exact .inr ⟨k, input, old, he, hold, rfl, hp, hn⟩

private theorem accepts_move {hash : List StateKey → UInt64} {c d : Mesh} {event : Event}
    (h : Moves hash c event d) {n jobId : String} (ha : Accepts c n jobId) :
    Accepts d n jobId := by
  obtain ⟨task, hmem, hid, hpc⟩ := ha
  rcases tasks_move h n with ht | ⟨fresh, hf, ht⟩ |
    ⟨k, input, old, jobs, pc, cmds, he, hold, hadv, ht⟩
  · exact ⟨task, by rw [ht]; exact hmem, hid, hpc⟩
  · exact ⟨task, by rw [ht]; exact List.mem_append_left _ hmem, hid, hpc⟩
  · obtain ⟨i, hi⟩ := List.mem_iff_getElem?.mp hmem
    by_cases hk : k = i
    · subst hk
      rw [hold, Option.some.injEq] at hi
      subst hi
      have hlt : k < (c.node n).tasks.length := (List.getElem?_eq_some_iff.mp hold).1
      have hin : { old with pc } ∈ (d.node n).tasks := by
        rw [ht]
        exact List.mem_set hlt _
      exact ⟨{ old with pc }, hin, hid, (pastCheck_advance hadv).mpr (.inl hpc)⟩
    · have hin : task ∈ (d.node n).tasks := by
        rw [ht]
        exact List.mem_of_getElem? (i := i) (by rw [List.getElem?_set_ne hk, hi])
      exact ⟨task, hin, hid, hpc⟩

/-! ### One node at most -/

/-- At most one node has taken the job. -/
def OneTaker (jobId : String) (c : Mesh) : Prop :=
  ∀ m n, Accepts c m jobId → Accepts c n jobId → m = n

private theorem oneTaker_start (platform : String → String) (roles : String → List String)
    (jobId : String) : OneTaker jobId (startMesh platform roles) := by
  rintro m n ⟨task, hmem, -⟩ -
  simp [startMesh] at hmem

private theorem oneTaker_step {hash : List StateKey → UInt64} {jobId : String} {c d : Mesh}
    {event : Event} (hone : OneTaker jobId c) (hsees : SeesAcceptance c event)
    (h : step hash c event = some d) : OneTaker jobId d := by
  have hmove := moves_of_step h
  -- a node that takes the job in this step cannot meet an earlier taker
  have key {m n : String} (hm : Accepts c m jobId) (hn : ∃ k input task,
      event = .advance n k input ∧ (c.node n).tasks[k]? = some task ∧ task.jobId = jobId ∧
        task.pc = .check ∧
        ((c.node n).jobs.getJob jobId).any (·.assignedNode.isSome) = false) : m = n := by
    obtain ⟨k, input, task, rfl, htask, rfl, hpc, hfree⟩ := hn
    by_contra hne
    have hs := hsees task htask hpc ⟨m, hne, hm⟩
    rw [hfree] at hs
    cases hs
  intro m n hm hn
  rcases accepts_of_move hmove hm with hm | hm
  · rcases accepts_of_move hmove hn with hn | hn
    · exact hone m n hm hn
    · exact key hm hn
  · rcases accepts_of_move hmove hn with hn | hn
    · exact (key hn hm).symm
    · obtain ⟨_, _, _, he, -⟩ := hm
      obtain ⟨_, _, _, he', -⟩ := hn
      rw [he] at he'
      cases he'
      rfl

private theorem accepts_of_spawns {hash : List StateKey → UInt64} {start d : Mesh}
    {events : List Event} {n jobId : String} (hs : Spawns hash start events n jobId)
    (hrun : run (step hash) start events = some d) : Accepts d n jobId := by
  obtain ⟨before, k, input, after, c, task, rfl, hc, htask, hid, hpc⟩ := hs
  rw [run_append, hc] at hrun
  have hat : Accepts c n jobId :=
    ⟨task, List.mem_of_getElem? htask, hid, by rw [hpc]; rfl⟩
  exact run_invariant_all (fun _ _ _ ha hstep ↦ accepts_move (moves_of_step hstep) ha) hat hrun

/-- In every run of agents that start with empty stores, if each node that checks a job sees
the acceptance of any node that took it before, then at most one node spawns its execution. -/
theorem one_executor (hash : List StateKey → UInt64) (platform : String → String)
    (roles : String → List String) (events : List Event) (d : Mesh)
    (hrun : run (step hash) (startMesh platform roles) events = some d)
    (hsees : StepsMeet (step hash) SeesAcceptance (startMesh platform roles) events)
    (jobId m n : String) (hm : Spawns hash (startMesh platform roles) events m jobId)
    (hn : Spawns hash (startMesh platform roles) events n jobId) : m = n := by
  have hone : OneTaker jobId d :=
    run_invariant (fun _ _ _ ho hp hstep ↦ oneTaker_step ho hp hstep)
      (oneTaker_start platform roles jobId) hsees hrun
  exact hone m n (accepts_of_spawns hm hrun) (accepts_of_spawns hn hrun)

/-- Linux nodes without roles. -/
def linuxNodes : Mesh := startMesh (fun _ ↦ "linux/x86_64") fun _ ↦ []

/-- A step of the first handler task of a node, at second 100. -/
def advanceAt (n : String) : Event := .advance n 0 { now := fun _ ↦ 100 }

/-- Node a runs a job through before its submission and its acceptance reach node b. -/
def acceptanceFirst : List Event :=
  [.client (.submitJob "cli" "job-1" buildSpec), .deliver "node-a" 0 (fun _ ↦ 100) []] ++
    List.replicate 9 (advanceAt "node-a") ++
    [.deliver "node-b" 0 (fun _ ↦ 100) [], advanceAt "node-b", advanceAt "node-b",
      .deliver "node-b" 1 (fun _ ↦ 100) [], advanceAt "node-b"]

private theorem seesAcceptance_of_all {c : Mesh} {n : String} {k : Nat} {input : StepInput}
    (h : ((c.node n).tasks[k]?).all (fun task ↦ task.pc ≠ .check ∨
      ((c.node n).jobs.getJob task.jobId).any (·.assignedNode.isSome)) = true) :
    SeesAcceptance c (.advance n k input) := by
  intro task ht hp _
  rw [ht] at h
  simpa [hp] using h

private theorem seesAcceptance_acceptanceFirst :
    StepsMeet (step fun _ ↦ 0) SeesAcceptance linuxNodes acceptanceFirst := by
  refine ⟨trivial, fun _ hc ↦ ?_⟩
  cases hc
  refine ⟨trivial, fun _ hc ↦ ?_⟩
  cases hc
  iterate 2
    refine ⟨seesAcceptance_of_all rfl, fun _ hc ↦ ?_⟩
    cases hc
  refine ⟨?_, fun _ hc ↦ ?_⟩
  · -- the first check: no other node has any task
    rintro task - - ⟨m, hm, other, hmem, -⟩
    simp [linuxNodes, startMesh, Mesh.put, hm] at hmem
  cases hc
  iterate 6
    refine ⟨seesAcceptance_of_all rfl, fun _ hc ↦ ?_⟩
    cases hc
  refine ⟨trivial, fun _ hc ↦ ?_⟩
  cases hc
  iterate 2
    refine ⟨seesAcceptance_of_all rfl, fun _ hc ↦ ?_⟩
    cases hc
  refine ⟨trivial, fun _ hc ↦ ?_⟩
  cases hc
  exact ⟨seesAcceptance_of_all rfl, fun _ _ ↦ trivial⟩

/-- In that run node a is the only executor. -/
theorem one_executor_acceptanceFirst :
    Spawns (fun _ ↦ 0) linuxNodes acceptanceFirst "node-a" "job-1" ∧
      ∀ n, Spawns (fun _ ↦ 0) linuxNodes acceptanceFirst n "job-1" → n = "node-a" := by
  have ha : Spawns (fun _ ↦ 0) linuxNodes acceptanceFirst "node-a" "job-1" :=
    ⟨acceptanceFirst.take 10, 0, _, _, _, _, rfl, rfl, rfl, rfl, rfl⟩
  refine ⟨ha, fun n hn ↦ ?_⟩
  exact one_executor (fun _ ↦ 0) (fun _ ↦ "linux/x86_64") (fun _ ↦ []) acceptanceFirst _ rfl
    seesAcceptance_acceptanceFirst "job-1" n "node-a" hn ha

/-- Both nodes handle the same submission before either hears of the other. -/
def bothTakeJob : List Event :=
  [.client (.submitJob "cli" "job-1" buildSpec), .deliver "node-a" 0 (fun _ ↦ 100) [],
      .deliver "node-b" 0 (fun _ ↦ 100) []] ++
    (List.replicate 9 [advanceAt "node-a", advanceAt "node-b"]).flatten

/-- The check and the acceptance are not one step: both nodes spawn the execution. -/
theorem two_executors :
    (run (step fun _ ↦ 0) linuxNodes bothTakeJob).isSome = true ∧
      Spawns (fun _ ↦ 0) linuxNodes bothTakeJob "node-a" "job-1" ∧
      Spawns (fun _ ↦ 0) linuxNodes bothTakeJob "node-b" "job-1" := by
  refine ⟨rfl, ?_, ?_⟩
  · exact ⟨bothTakeJob.take 19, 0, _, _, _, _, rfl, rfl, rfl, rfl, rfl⟩
  · exact ⟨bothTakeJob.take 20, 0, _, _, _, _, rfl, rfl, rfl, rfl, rfl⟩

end PeerDeploy.Cluster
